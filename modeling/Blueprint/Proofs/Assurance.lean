import Blueprint.Proofs.Alone.Returning
import Blueprint.Proofs.Typed
/-! What has a value returns it. An operation that begins when its call has a value returns this value, however
operations are interleaved, whatever is registered later and whoever else fails, is given up or stands
still. More registrations only give keys more values, so none of them changes what the operation will come to. -/

namespace Blueprint

/-- Elements at the same places with more values, one by one. -/
theorem get?_join_below {first second : List (Nat × Option Value)}
    (each : List.Forall₂ (fun one two => one.1 = two.1 ∧ Below one.2 two.2) first second) (position : Nat) :
    Below (OrderedMap.get? first position).join (OrderedMap.get? second position).join := by
  induction each with
  | nil => exact .refl _
  | cons same _ ih =>
    rw [OrderedMap.get?_cons, OrderedMap.get?_cons, same.1]
    split
    · exact same.2
    · exact ih

/-- Where each task among parts has more of a value, all parts do. -/
theorem valuesOfParts_below {lookup wider : Lookup} {parts : List (Part Task)}
    (each : ∀ task, .running task ∈ parts → Below (task.value? lookup) (task.value? wider)) :
    List.Forall₂ Below (valuesOfParts lookup parts) (valuesOfParts wider parts) := by
  induction parts with
  | nil => simp
  | cons part rest ih =>
    have others := ih fun task member => each task (List.mem_cons_of_mem _ member)
    cases part with
    | done value => simpa using others
    | running task =>
      rw [valuesOfParts_running, valuesOfParts_running]
      exact .cons (each task List.mem_cons_self) others

section Meanings

variable {lookup wider : Lookup} (more : ∀ key, Below (lookup key) (wider key))

include more

theorem Call.evaluate_mono (call : Call) : Below (call.evaluate lookup) (call.evaluate wider) := by
  have each := @evaluate_below lookup wider
  cases call with
  | resolve config node => exact each.1 node fun key _ => more key
  | within scope work =>
    cases work with
    | node node => exact each.1 node fun key _ => more key
    | field entity name slot => exact each.2.2 slot fun key _ => more key
    | variant tag shell => exact (each.2.1 shell fun key _ => more key).map _

/-- A frame makes more of more. -/
theorem Frame.value?_mono (frame : Frame) {inner other : Option Value} (below : Below inner other) :
    Below (frame.value? lookup inner) (frame.value? wider other) := by
  refine (frame.value?_below below).trans ?_
  cases frame with
  | present | tagged | folding | fetching => exact .refl _
  | stage record =>
    refine (Below.refl other).bind fun value => (collect_below _ fun field _ => ?_).map _
    exact (evaluate_below.2.2 field.2 fun key _ => more key).map _

/-- The more keys mean, the more values tasks have. -/
theorem Task.value?_mono (task : Task) : Below (task.value? lookup) (task.value? wider) := by
  have each := @evaluate_below lookup wider
  induction task using Task.induction with
  | node node => exact each.1 node fun key _ => more key
  | shell shell => exact each.2.1 shell fun key _ => more key
  | variant tag shell => exact (each.2.1 shell fun key _ => more key).map _
  | field entity name slot => exact each.2.2 slot fun key _ => more key
  | delay due timer next ih => exact ih
  | forever => exact .refl _
  | waiting fetch ticket => exact more fetch.key
  | inside frame task ih => exact frame.value?_mono more ih
  | join parts ih => exact (collect_below_forall₂ (valuesOfParts_below ih)).map _
  | fan fan queued running =>
    rw [value?_fan, value?_fan]
    refine (collect_below _ fun position _ => get?_join_below ?_ position).map _
    simp only [elementValues, valuesOfElements_eq_map]
    refine List.rel_append (List.rel_append ?_ ?_) ?_
    · exact List.forall₂_map_left_iff.mpr (List.forall₂_map_right_iff.mpr (List.forall₂_same.mpr fun element member =>
        ⟨rfl, queued element member⟩))
    · exact List.forall₂_map_left_iff.mpr (List.forall₂_map_right_iff.mpr (List.forall₂_same.mpr fun element member =>
        ⟨rfl, running element member⟩))
    · exact List.forall₂_same.mpr fun element _ => ⟨rfl, .refl _⟩

/-- What will come to a value will come to it where keys mean more. -/
theorem Phase.Meets.mono {phase : Phase} {value : Value} (meets : phase.Meets lookup (some value)) :
    phase.Meets wider (some value) := by
  cases phase with
  | resting | looking => exact Task.value?_mono more _ _ meets
  | returned result =>
    cases result with
    | ok own => exact meets
    | error error => cases error <;> exact meets
  | dropped => trivial

end Meanings

/-- An operation that is begun for this call has no deadline. -/
def Call.Untimed : Call → Prop
  | resolve config _ => config.deadline = none
  | within _ _ => True

namespace System

variable {first last before after system : System} {action : Action} {contents : Contents} {from' : Nat}

/-- Operations from some number on whose call had a value under some contents will come to this value. -/
def Assured (system : System) (contents : Contents) (from' : Nat) : Prop :=
  ∀ id process, from' ≤ id → system.processes[id]? = some process →
    ∀ value, process.call.evaluate (contents.valueOf []) = some value →
      process.phase.Meets (system.registered.valueOf []) (some value)

theorem Acts.assured (acts : Acts before action after) (orderly : before.Orderly)
    (wider : contents.Extends before.registered) (assured : before.Assured contents from') :
    after.Assured contents from' := by
  have more := acts.extends
  intro id process later present value has
  obtain ⟨call, phase⟩ := process
  rcases acts.process_cases present with old | ⟨_, begun⟩ | ⟨process, world, rfl, changes⟩
  · exact (assured id _ later old value has).mono more.valueOf
  · have now : call.evaluate (after.registered.valueOf []) = some value :=
      call.evaluate_mono (wider.trans more).valueOf value has
    rw [begun, ← now]
    exact call.start_meets _ _ _
  · obtain ⟨own, ledger⟩ := orderly.process changes.present
    have meets := (changes.moves own ledger).meets _ (assured id process later changes.present value has)
    exact meets.mono more.valueOf

theorem Run.assured (reachable : first.Reachable) (run : Run (fun _ => True) first last) :
    last.Assured first.registered first.processes.length := by
  induction run with
  | refl => exact fun id process later present => absurd (List.getElem?_eq_some_iff.mp present).1 (by omega)
  | tail run step ih =>
    obtain ⟨action, _, result⟩ := step
    exact (act?_acts result).assured (Run.reachable run reachable).orderly (Run.extends run) ih

/-- No operation without a deadline runs out of time. -/
theorem Reachable.timeless (reachable : system.Reachable) :
    ∀ process ∈ system.processes, process.call.Untimed → process.phase.Timeless := by
  have both := @Reachable.invariant
    (fun system => system.Orderly ∧ ∀ process ∈ system.processes, process.call.Untimed → process.phase.Timeless)
    ⟨initial_orderly, fun process member => absurd member List.not_mem_nil⟩ ?_ _ reachable
  · exact both.2
  rintro before action after ⟨orderly, timeless⟩ result
  refine ⟨((act?_acts result).orderly orderly).1, ?_⟩
  cases act?_acts result with
  | registered | rejected | advance => exact timeless
  | start outermost =>
    rename_i call
    intro process member untimed
    rcases List.mem_append.mp member with old | new
    · exact timeless process old untimed
    · rw [List.mem_singleton] at new
      subst new
      refine ⟨?_, fun error fails => by cases fails⟩
      cases call with
      | resolve config node =>
        have limitless : config.deadline = none := untimed
        simp [Call.operation, Operation.resolve, limitless]
      | within scope work => rfl
  | becomes changes =>
    obtain ⟨own, ledger⟩ := orderly.process changes.present
    have moved := fun untimed =>
      changes.timeless own ledger (timeless _ (List.mem_of_getElem? changes.present) untimed)
    intro other member
    rcases mem_modify changes.present member with old | rfl
    · exact timeless other old
    · exact moved

/-- An operation without a deadline that begins when its call has a value returns this value, and nothing else. -/
theorem returned_of_evaluate (reachable : first.Reachable) (run : Run (fun _ => True) first last) {id : Nat}
    {call : Call} {result : Except ResolveError Value} (began : first.processes.length ≤ id) (untimed : call.Untimed)
    {value : Value} (has : call.evaluate (first.registered.valueOf []) = some value)
    (returned : last.processes[id]? = some ⟨call, .returned result⟩) : result = .ok value := by
  have meets := run.assured reachable id _ began returned value has
  have timeless := (Run.reachable run reachable).timeless _ (List.mem_of_getElem? returned) untimed
  cases result with
  | ok own => exact congrArg Except.ok (Option.some.inj meets).symm
  | error error =>
    cases error with
    | deadlineExceeded length => cases timeless
    | _ => cases meets

end System

section Demands

variable {contents more : Contents} {call : Call}

/-- The owners whose trees have a value; nobody stands for the call itself. -/
def Contents.Means (contents : Contents) (call : Call) : Option Key → Prop
  | none => (call.evaluate (contents.valueOf [])).isSome
  | some key => (contents.valueOf [] key).isSome

/-- A simple task that is done on behalf of an owner with a value has one, also if more is registered. -/
def meaningful (contents : Contents) (call : Call) : Demand :=
  fun owner task => ∀ more : Contents, contents.Extends more → more.Means call owner →
    valued (more.valueOf []) owner task

theorem meaningful_handedOn (contents : Contents) (call : Call) : (meaningful contents call).HandedOn contents where
  literal owner value scope more wider means := (valued_handedOn more).literal owner value scope
  nested known more wider means := (valued_handedOn more).nested (known more wider means)
  record known field planned more wider means := (valued_handedOn more).record (known more wider means) field planned
  union known more wider means := (valued_handedOn more).union (known more wider means)
  variant known more wider means := (valued_handedOn more).variant (known more wider means)
  stalled known more wider means := (valued_handedOn more).stalled (known more wider means)
  delayed known more wider means := (valued_handedOn more).delayed (known more wider means)
  required known more wider means := (valued_handedOn more).required (known more wider means)
  optional known more wider means := (valued_handedOn more).optional (known more wider means)
  repeated known position inside more wider means :=
    (valued_handedOn more).repeated (known more wider means) position inside
  keyed known position inside :=
    ⟨fun more wider means => ((valued_handedOn more).keyed (known more wider means) position inside).1,
      fun more wider means => ((valued_handedOn more).keyed (known more wider means) position inside).2⟩
  fetch known registered ticket more wider means :=
    (valued_handedOn more).fetch (known more wider means) (wider _ _ registered) ticket
  begin {_ fetch _ node} _ found more wider means := by
    have has : (more.valueOf [] fetch.key).isSome := means
    rwa [Contents.valueOf_node (wider.node? found)] at has

theorem meaningful_lasting : Demand.Lasting meaningful where
  begins contents call id world := by
    cases call with
    | resolve config node => exact fun more wider means => means
    | within scope work =>
      cases work with
      | node node => exact fun more wider means => means
      | field entity name slot => exact fun more wider means => means
      | variant tag shell =>
        intro more wider means
        have all : ((shell.evaluate (more.valueOf [])).map (Value.variant tag)).isSome := means
        rwa [Option.isSome_map] at all
  handed := meaningful_handedOn
  wider wider known more further := known more (wider.trans further)

/-- The references of a call that has a value have values. -/
theorem Call.isSome_of_reference (call : Call) {lookup : Lookup} (has : (call.evaluate lookup).isSome) {key : Key}
    (listed : key ∈ call.references) : (lookup key).isSome := by
  have strict := @evaluate_strict lookup
  rw [Option.isSome_iff_ne_none] at has ⊢
  intro absent
  cases call with
  | resolve config node => exact has (strict.1 node key listed absent)
  | within scope work =>
    cases work with
    | node node => exact has (strict.1 node key listed absent)
    | field entity name slot => exact has (strict.2.2 slot key listed absent)
    | variant tag shell => exact has (Option.map_eq_none_iff.mpr (strict.2.1 shell key listed absent))

/-- Nothing that is done on behalf of an entry with a value never goes on. -/
theorem System.living (system : System) :
    system.Living meaningful fun key => (system.registered.valueOf [] key).isSome where
  closed first second has refers := by
    rw [Option.isSome_iff_ne_none] at has ⊢
    exact fun absent => has (Contents.valueOf_of_reaches (.single refers) absent)
  goes _ _ _ has stalled := stalled system.registered (.refl _) has

end Demands

namespace Execution

variable {first : System}

theorem run (execution : Execution first) (n : Nat) :
    System.Run (fun _ => True) first (execution.states n) := by
  induction n with
  | zero => rw [execution.begins]; exact .refl
  | succ n ih => exact ih.tail ⟨_, trivial, execution.follows n⟩

/-- In an endless run, an operation without a deadline that begins when its call has a value, and that nobody gives
up, returns this value. -/
theorem returns_value (execution : Execution first) (reachable : first.Reachable) {id n : Nat} {call : Call}
    {phase : Phase} (present : (execution.states n).processes[id]? = some ⟨call, phase⟩)
    (began : first.processes.length ≤ id) (untimed : call.Untimed) {value : Value}
    (has : call.evaluate (first.registered.valueOf []) = some value) (taken : phase ≠ .dropped)
    (kept : ∀ m, execution.actions m ≠ .drop id) :
    ∃ m, n ≤ m ∧ (execution.states m).processes[id]? = some ⟨call, .returned (.ok value)⟩ := by
  have now : ∀ m, (call.evaluate ((execution.states m).registered.valueOf [])).isSome := fun m =>
    Option.isSome_of_eq_some (call.evaluate_mono (execution.run m).extends.valueOf value has)
  obtain ⟨m, result, later, returned⟩ := execution.returns meaningful_lasting reachable present taken kept
    (fun m _ => (execution.states m).living) (fun m _ stalled => stalled _ (.refl _) (now m))
    fun m _ key listed => call.isSome_of_reference (now m) listed
  obtain ⟨last, there, _⟩ := execution.present_after present taken kept (m - n)
  rw [Nat.add_sub_cancel' later] at there
  rw [System.phase?, there, Option.map_some, Option.some.injEq] at returned
  dsimp only at returned
  subst returned
  have same := System.returned_of_evaluate reachable (execution.run m) began untimed has there
  exact ⟨m, later, same ▸ there⟩

end Execution

end Blueprint
