import Blueprint.Proofs.Machine.Collection
/-! What becomes of the elements of a collection. They start in their order and never more than the bound are in
flight; a collection that returns has a value for each of them, and the first to fail ends it. The order in which
elements go on, how long they take and what they come to is left to the worlds that the steps are made in. -/

namespace Blueprint.Collection

/-- What happens to an element, by its position. -/
inductive Happening where
  | started (position : Nat)
  | completed (position : Nat) (value : Value)
  | failed (position : Nat) (error : ResolveError)
  | dropped (position : Nat)

namespace Happening

def start? : Happening → Option Nat
  | started position => some position
  | _ => none

def value? : Happening → Option (Nat × Value)
  | completed position value => some (position, value)
  | _ => none

def end? : Happening → Option Nat
  | started _ => none
  | completed position _ | failed position _ | dropped position => some position

/-- An element starts or has a value. -/
def Regular : Happening → Prop
  | started _ | completed _ _ => True
  | failed _ _ | dropped _ => False

end Happening

def started (log : List Happening) : List Nat := log.filterMap Happening.start?

def completed (log : List Happening) : List (Nat × Value) := log.filterMap Happening.value?

def ended (log : List Happening) : List Nat := log.filterMap Happening.end?

/-- The starts that a collection makes when it fills up. -/
def starts (fan : Fan Task) : List Happening :=
  fan.starting.map fun element => .started element.1

/-- The drops of all that runs. -/
def drops (positions : List Nat) : List Happening :=
  positions.map .dropped

namespace State

/-- The elements in flight. -/
def flight : State → List Nat
  | resting fan => fan.running.map (·.1)
  | visiting fan position _ _ _ => position :: fan.running.map (·.1)
  | finished _ => []

/-- What the next step does to elements. -/
def happenings : State → List Happening
  | resting fan => starts fan
  | visiting fan position _ (.finish (.ok value)) [] =>
    .completed position value :: starts { fan with done := fan.done ++ [(position, value)] }
  | visiting fan position _ (.finish (.error error)) [] => .failed position error :: drops (fan.running.map (·.1))
  | visiting _ _ _ _ _ => []
  | finished _ => []

end State

/-- A run of a collection of tasks, with what happened to its elements so far. Each step is made for some operation,
inside of some layers, in some world. -/
inductive Run (id limit : Nat) (tasks : List Task) : List Happening → State → Prop where
  | begins : Run id limit tasks [] (.resting (.ofTasks id limit tasks))
  | step {log : List Happening} {before after : State} {operation : Nat} {outer : List Layer} {machine : Machine}
      {world later : World} (run : Run id limit tasks log before)
      (ahead : before.ahead operation outer = some machine)
      (step : machine.step world = some (after.machine operation outer, later)) :
    Run id limit tasks (log ++ before.happenings) after

/-- The element at a position comes to be at some place of its own. -/
def Follows (tasks : List Task) (position : Nat) (control : Control) (inner : List Layer) : Prop :=
  ∃ task, tasks[position]? = some task ∧ task.Course control inner

/-- How a collection stands while no element has failed. -/
structure Kept (id limit : Nat) (tasks : List Task) (log : List Happening) (fan : Fan Task) (flight : List Nat) :
    Prop where
  number : fan.id = id
  limit : fan.limit = max limit 1
  size : fan.size = tasks.length
  /-- what was started and what is queued are all elements, in order -/
  order : started log ++ fan.queued.map (·.1) = List.range tasks.length
  queued : ∀ element ∈ fan.queued, tasks[element.1]? = some element.2
  done : completed log = fan.done
  /-- what was started is in flight or done -/
  balance : (flight ++ fan.done.map (·.1)).Perm (started log)
  bounded : flight.length ≤ fan.limit
  regular : ∀ happening ∈ log, happening.Regular
  running : ∀ element ∈ fan.running, Follows tasks element.1 (.poll element.2) []
  values : ∀ item ∈ fan.done, Follows tasks item.1 (.finish (.ok item.2)) []

/-- There is no room for more, or nothing more. -/
def Busy (fan : Fan Task) (flight : List Nat) : Prop :=
  flight.length < fan.limit → fan.queued = []

variable {id limit : Nat} {tasks : List Task} {log : List Happening} {fan : Fan Task} {flight : List Nat}
  {state before after : State} {position : Nat} {value : Value} {error : ResolveError}

section Log

variable (earlier later : List Happening)

@[simp] theorem started_append : started (earlier ++ later) = started earlier ++ started later :=
  List.filterMap_append

@[simp] theorem completed_append : completed (earlier ++ later) = completed earlier ++ completed later :=
  List.filterMap_append

@[simp] theorem ended_append : ended (earlier ++ later) = ended earlier ++ ended later :=
  List.filterMap_append

@[simp] theorem started_starts (fan : Fan Task) : started (starts fan) = fan.starting.map (·.1) := by
  simp [started, starts, Happening.start?, Function.comp_def]

theorem started_completing (log : List Happening) (position : Nat) (value : Value) :
    started (log ++ [.completed position value]) = started log := by
  rw [started_append]
  exact List.append_nil _

@[simp] theorem completed_starts (fan : Fan Task) : completed (starts fan) = [] := by
  simp [completed, starts, Happening.value?]

@[simp] theorem started_drops (positions : List Nat) : started (drops positions) = [] := by
  simp [started, drops, Happening.start?]

@[simp] theorem completed_drops (positions : List Nat) : completed (drops positions) = [] := by
  simp [completed, drops, Happening.value?]

@[simp] theorem ended_drops (positions : List Nat) : ended (drops positions) = positions := by
  simp [ended, drops, Happening.end?, Function.comp_def]

theorem started_failing (earlier : List Happening) (position : Nat) (error : ResolveError) (others : List Nat) :
    started (earlier ++ .failed position error :: drops others) = started earlier := by
  rw [started_append]
  change started earlier ++ started (drops others) = started earlier
  rw [started_drops, List.append_nil]

theorem completed_failing (earlier : List Happening) (position : Nat) (error : ResolveError) (others : List Nat) :
    completed (earlier ++ .failed position error :: drops others) = completed earlier := by
  rw [completed_append]
  change completed earlier ++ completed (drops others) = completed earlier
  rw [completed_drops, List.append_nil]

theorem ended_failing (earlier : List Happening) (position : Nat) (error : ResolveError) (others : List Nat) :
    ended (earlier ++ .failed position error :: drops others) = ended earlier ++ position :: others := by
  rw [ended_append]
  change ended earlier ++ position :: ended (drops others) = ended earlier ++ position :: others
  rw [ended_drops]

theorem mem_completed : (position, value) ∈ completed log ↔ .completed position value ∈ log := by
  simp only [completed, List.mem_filterMap]
  constructor
  · rintro ⟨happening, member, own⟩
    cases happening <;> cases own
    exact member
  · exact fun member => ⟨_, member, rfl⟩

/-- While all is regular, what has ended is done. -/
theorem ended_regular (regular : ∀ happening ∈ log, happening.Regular) :
    ended log = (completed log).map (·.1) := by
  induction log with
  | nil => rfl
  | cons happening rest ih =>
    have later := ih fun other member => regular other (List.mem_cons_of_mem _ member)
    have here := regular happening List.mem_cons_self
    cases happening with
    | started position => exact later
    | completed position value => exact congrArg (position :: ·) later
    | failed position error => exact here.elim
    | dropped position => exact here.elim

end Log

namespace Kept

theorem begins (id limit : Nat) (tasks : List Task) : Kept id limit tasks [] (.ofTasks id limit tasks) [] where
  number := rfl
  limit := rfl
  size := rfl
  order := Machine.ofTasks_positions tasks
  queued := by
    intro element member
    obtain ⟨position, inside, rfl⟩ := List.mem_mapIdx.mp member
    exact List.getElem?_eq_getElem inside
  done := rfl
  balance := .refl _
  bounded := Nat.zero_le _
  regular := fun _ member => nomatch member
  running := fun _ member => nomatch member
  values := fun _ member => nomatch member

/-- Elements start as they are queued, while there is room. -/
theorem refill (kept : Kept id limit tasks log fan (fan.running.map (·.1))) :
    Kept id limit tasks (log ++ starts fan) fan.refill (fan.refill.running.map (·.1)) where
  number := kept.number
  limit := kept.limit
  size := kept.size
  order := by
    rw [← kept.order, started_append, started_starts, List.append_assoc, ← List.map_append, Fan.refill, Fan.starting,
      List.take_append_drop]
  queued := fun element member => kept.queued element (List.mem_of_mem_drop member)
  done := by rw [completed_append, completed_starts, List.append_nil, kept.done, Fan.refill]
  balance := by
    have front : (fan.refill.running.map (·.1) ++ fan.done.map (·.1)).Perm
        (fan.starting.map (·.1) ++ (fan.running.map (·.1) ++ fan.done.map (·.1))) := by
      rw [Fan.refill, List.map_append, List.append_assoc]
      exact ((List.reverse_perm _).map _).append_right _
    rw [started_append, started_starts]
    exact front.trans ((kept.balance.append_left _).trans List.perm_append_comm)
  bounded := by
    have bounded := kept.bounded
    simp only [Fan.refill, Fan.starting, List.length_map, List.length_append, List.length_reverse,
      List.length_take] at bounded ⊢
    omega
  regular := by
    intro happening member
    rcases List.mem_append.mp member with earlier | begun
    · exact kept.regular happening earlier
    · obtain ⟨element, _, rfl⟩ := List.mem_map.mp begun
      trivial
  running := by
    intro element member
    rcases List.mem_append.mp member with begun | earlier
    · have queued := kept.queued element (List.mem_of_mem_take (List.mem_reverse.mp begun))
      exact ⟨element.2, queued, .begins⟩
    · exact kept.running element earlier
  values := kept.values

theorem busy_refill (fan : Fan Task) : Busy fan.refill (fan.refill.running.map (·.1)) := by
  intro room
  have nothing := fan.starting_refill
  rw [Fan.starting, List.take_eq_nil_iff] at nothing
  rw [List.length_map] at room
  exact nothing.resolve_left (by omega)

/-- An element that came to rest runs on. -/
theorem pause {task : Task} (kept : Kept id limit tasks log fan (position :: fan.running.map (·.1)))
    (follows : Follows tasks position (.rest task) []) :
    Kept id limit tasks log { fan with running := (position, task) :: fan.running }
      (position :: fan.running.map (·.1)) where
  __ := kept
  running := by
    intro element member
    rcases List.mem_cons.mp member with rfl | other
    · obtain ⟨first, own, course⟩ := follows
      exact ⟨first, own, course.again⟩
    · exact kept.running element other

/-- An element that came to a value is done. -/
theorem complete (kept : Kept id limit tasks log fan (position :: fan.running.map (·.1)))
    (follows : Follows tasks position (.finish (.ok value)) []) :
    Kept id limit tasks (log ++ [.completed position value]) { fan with done := fan.done ++ [(position, value)] }
      (fan.running.map (·.1)) where
  __ := kept
  order := by
    rw [started_completing]
    exact kept.order
  done := by
    rw [completed_append, kept.done]
    rfl
  balance := by
    rw [started_completing, List.map_append, ← List.append_assoc]
    exact List.perm_append_comm.trans kept.balance
  bounded := (Nat.le_succ _).trans kept.bounded
  regular := by
    intro happening member
    rcases List.mem_append.mp member with earlier | last
    · exact kept.regular happening earlier
    · cases List.mem_singleton.mp last
      trivial
  values := by
    intro item member
    rcases List.mem_append.mp member with earlier | last
    · exact kept.values item earlier
    · cases List.mem_singleton.mp last
      exact follows

/-- No element was started twice. -/
theorem distinct (kept : Kept id limit tasks log fan flight) : (flight ++ fan.done.map (·.1)).Nodup := by
  refine kept.balance.nodup_iff.mpr ?_
  have all : (started log ++ fan.queued.map (·.1)).Nodup := kept.order ▸ List.nodup_range
  exact (List.nodup_append.mp all).1

/-- One of the elements that run is visited. -/
theorem visit {task : Task} (kept : Kept id limit tasks log fan (fan.running.map (·.1)))
    (listed : OrderedMap.get? fan.running position = some task) :
    Kept id limit tasks log { fan with running := fan.running.filter fun element => element.1 ≠ position }
      (position :: (fan.running.filter fun element => element.1 ≠ position).map (·.1)) := by
  have same := (OrderedMap.perm_of_get? (List.nodup_append.mp kept.distinct).1 listed).map (·.1)
  exact { kept with
    balance := (same.symm.append_right _).trans kept.balance
    bounded := same.length_eq ▸ kept.bounded
    running := fun element member => kept.running element (List.mem_of_mem_filter member) }

/-- If all elements are done, none is in flight and none is queued. -/
theorem all_done (kept : Kept id limit tasks log fan flight)
    (all : ∀ position < tasks.length, ∃ value, .completed position value ∈ log) : flight = [] ∧ fan.queued = [] := by
  -- as many are done as there are elements, so that the counts leave none in flight and none queued
  have covered : List.range tasks.length ⊆ fan.done.map (·.1) := by
    intro position member
    obtain ⟨value, done⟩ := all position (List.mem_range.mp member)
    have listed : (position, value) ∈ fan.done := kept.done ▸ mem_completed.mpr done
    exact List.mem_map.mpr ⟨_, listed, rfl⟩
  have enough := (List.nodup_range.subperm covered).length_le
  have begun := kept.balance.length_eq
  have whole := congrArg List.length kept.order
  simp only [List.length_append, List.length_map, List.length_range] at enough begun whole
  exact ⟨List.eq_nil_of_length_eq_zero (by omega), List.eq_nil_of_length_eq_zero (by omega)⟩

/-- If nothing is in flight or queued, all elements are done. -/
theorem done_all (kept : Kept id limit tasks log fan []) (queued : fan.queued = []) :
    (fan.done.map (·.1)).Perm (List.range tasks.length) := by
  have order := kept.order
  rw [queued, List.map_nil, List.append_nil] at order
  exact order ▸ kept.balance

end Kept

/-- The values are those of the elements, each in its place. -/
structure Gathers (tasks : List Task) (log : List Happening) (values : List Value) : Prop where
  length : values.length = tasks.length
  each : ∀ position task, tasks[position]? = some task →
    ∃ value, values[position]? = some value ∧ .completed position value ∈ log ∧ task.Yields (.ok value)

theorem Kept.gathers (kept : Kept id limit tasks log fan []) (queued : fan.queued = []) :
    Gathers tasks log fan.values := by
  have all := kept.done_all queued
  have found : ∀ position < tasks.length, ∃ value, (position, value) ∈ fan.done := by
    intro position inside
    obtain ⟨item, member, rfl⟩ := List.mem_map.mp (all.mem_iff.mpr (List.mem_range.mpr inside))
    exact ⟨item.2, member⟩
  choose! values done using found
  have same : fan.values = (List.range tasks.length).map values := by
    rw [Fan.values, kept.size, ← List.filterMap_eq_map]
    refine List.filterMap_congr fun position member => ?_
    exact OrderedMap.get?_of_mem (all.nodup_iff.mpr List.nodup_range) (done position (List.mem_range.mp member))
  refine ⟨by simp [same], fun position task own => ?_⟩
  have inside := (List.getElem?_eq_some_iff.mp own).1
  have listed := done position inside
  obtain ⟨first, here, course⟩ := kept.values _ listed
  rw [own] at here
  cases here
  exact ⟨values position, by simp [same, inside], mem_completed.mp (kept.done ▸ listed), course⟩

/-- An element is the first to fail, and all others in flight are dropped. -/
def FailsAt (tasks : List Task) (log : List Happening) (position : Nat) (error : ResolveError) : Prop :=
  ∃ earlier others, log = earlier ++ .failed position error :: drops others ∧
    (∀ happening ∈ earlier, happening.Regular) ∧ (position :: others ++ ended earlier).Perm (started earlier) ∧
    ∃ task, tasks[position]? = some task ∧ task.Yields (.error error)

/-- What is known of a collection wherever it has come. -/
def Holds (id limit : Nat) (tasks : List Task) (log : List Happening) : State → Prop
  | .resting fan =>
    Kept id limit tasks log fan (fan.running.map (·.1)) ∧ (log ≠ [] → Busy fan (fan.running.map (·.1)))
  | .visiting fan position _ control inner =>
    Kept id limit tasks log fan (position :: fan.running.map (·.1)) ∧ Busy fan (position :: fan.running.map (·.1)) ∧
      Follows tasks position control inner
  | .finished (.ok value) => ∃ fan, Kept id limit tasks log fan [] ∧ fan.queued = [] ∧ value = .list fan.values
  | .finished (.error error) => ∃ earlier fan position,
    log = earlier ++ .failed position error :: drops (fan.running.map (·.1)) ∧
      Kept id limit tasks earlier fan (position :: fan.running.map (·.1)) ∧
      Follows tasks position (.finish (.error error)) []

theorem Kept.turns (kept : Kept id limit tasks log fan (fan.running.map (·.1)))
    (busy : Busy fan (fan.running.map (·.1))) (turns : Turns fan after) : Holds id limit tasks log after := by
  cases turns with
  | finished idle =>
    rw [idle] at kept busy
    refine ⟨fan, kept, busy ?_, rfl⟩
    rw [kept.limit]
    exact Nat.lt_of_lt_of_le Nat.zero_lt_one (Nat.le_max_right _ _)
  | rests => exact ⟨kept, fun _ => busy⟩
  | visits tally listed =>
    have member := OrderedMap.mem_of_get? listed
    have same := (OrderedMap.perm_of_get? (List.nodup_append.mp kept.distinct).1 listed).length_eq
    refine ⟨kept.visit listed, fun room => busy ?_, kept.running _ member⟩
    simpa [same] using room

theorem happenings_inward {tally : Tally} {control : Control} {inner : List Layer}
    (inward : Machine.Inward control inner) : (State.visiting fan position tally control inner).happenings = [] := by
  rcases inward with ⟨task, rfl⟩ | nonempty
  · rfl
  · obtain ⟨layer, rest, rfl⟩ := List.exists_cons_of_ne_nil nonempty
    cases control with
    | finish result => cases result <;> rfl
    | _ => rfl

theorem Holds.moves (holds : Holds id limit tasks log before) (moves : Moves before after) :
    Holds id limit tasks (log ++ before.happenings) after := by
  cases moves with
  | look turns => exact holds.1.refill.turns (Kept.busy_refill _) turns
  | inside inward onward =>
    obtain ⟨kept, busy, task, own, course⟩ := holds
    rw [happenings_inward inward, List.append_nil]
    exact ⟨kept, busy, task, own, onward task course⟩
  | @pause fan position tally task after turns =>
    obtain ⟨kept, busy, follows⟩ := holds
    rw [show (State.visiting fan position tally (.rest task) []).happenings = [] from rfl, List.append_nil]
    exact (kept.pause follows).turns busy turns
  | complete turns =>
    obtain ⟨kept, -, follows⟩ := holds
    have later := ((kept.complete follows).refill).turns (Kept.busy_refill _) turns
    rwa [List.append_assoc] at later
  | @fail fan position tally error =>
    obtain ⟨kept, -, follows⟩ := holds
    exact ⟨log, fan, position, rfl, kept, follows⟩

theorem Run.holds (run : Run id limit tasks log state) : Holds id limit tasks log state := by
  induction run with
  | begins => exact ⟨.begins id limit tasks, fun nonempty => absurd rfl nonempty⟩
  | step run ahead step ih => exact ih.moves (step_moves ahead step)

/-- A collection returns a value: it is over with it, or will be at the next look. Only a call of an element that is
gone delays it, and the look uses up that call. -/
def Returns (id : Nat) (value : Value) : State → Prop
  | .resting fan => ∀ operation outer world, ∃ (after : State) (later : World),
      (⟨operation, .poll (.fan fan), outer⟩ : Machine).step world = some (after.machine operation outer, later) ∧
        (after = .finished (.ok value) ∨ after = .resting fan ∧
          ((∀ strand ∈ Layer.strands outer operation, ¬ strand.isElementOf id) → later.calls id < world.calls id))
  | .visiting _ _ _ _ _ => False
  | .finished result => result = .ok value

namespace Kept

/-- What has ended is done. -/
theorem ended (kept : Kept id limit tasks log fan flight) : ended log = fan.done.map (·.1) := by
  rw [ended_regular kept.regular, kept.done]

theorem started (kept : Kept id limit tasks log fan flight) : started log <+: List.range tasks.length :=
  ⟨_, kept.order⟩

theorem accounted (kept : Kept id limit tasks log fan flight) :
    (flight ++ Collection.ended log).Perm (Collection.started log) := by
  rw [kept.ended]
  exact kept.balance

end Kept

namespace Holds

/-- Elements start in order, those that have not ended are in flight, and these are never too many. -/
theorem accounted (holds : Holds id limit tasks log state) : started log <+: List.range tasks.length ∧
    (state.flight ++ ended log).Perm (started log) ∧ state.flight.length ≤ max limit 1 := by
  cases state with
  | resting fan => exact ⟨holds.1.started, holds.1.accounted, holds.1.limit ▸ holds.1.bounded⟩
  | visiting fan position tally control inner =>
    exact ⟨holds.1.started, holds.1.accounted, holds.1.limit ▸ holds.1.bounded⟩
  | finished result =>
    cases result with
    | ok value =>
      obtain ⟨fan, kept, _⟩ := holds
      exact ⟨kept.started, kept.accounted, Nat.zero_le _⟩
    | error error =>
      obtain ⟨earlier, fan, position, rfl, kept, _⟩ := holds
      rw [started_failing, ended_failing]
      refine ⟨kept.started, ?_, Nat.zero_le _⟩
      change (ended earlier ++ position :: fan.running.map (·.1)).Perm (started earlier)
      exact List.perm_append_comm.trans kept.accounted

/-- A collection in which an element failed is over with its error. -/
theorem failed (holds : Holds id limit tasks log state) (failed : .failed position error ∈ log) :
    state = .finished (.error error) ∧ FailsAt tasks log position error := by
  have irregular : ∀ {log : List Happening}, .failed position error ∈ log → ¬ ∀ happening ∈ log, happening.Regular :=
    fun member regular => regular _ member
  cases state with
  | resting fan => exact absurd holds.1.regular (irregular failed)
  | visiting fan place tally control inner => exact absurd holds.1.regular (irregular failed)
  | finished result =>
    cases result with
    | ok value =>
      obtain ⟨fan, kept, _⟩ := holds
      exact absurd kept.regular (irregular failed)
    | error told =>
      obtain ⟨earlier, fan, place, rfl, kept, follows⟩ := holds
      rcases List.mem_append.mp failed with before | here
      · exact absurd kept.regular (irregular before)
      rcases List.mem_cons.mp here with same | dropped
      · cases same
        exact ⟨rfl, earlier, _, rfl, kept.regular, kept.accounted, follows⟩
      · obtain ⟨_, _, other⟩ := List.mem_map.mp dropped
        cases other

/-- A collection all of whose elements have values returns them. -/
theorem returns (holds : Holds id limit tasks log state)
    (all : ∀ position < tasks.length, ∃ value, .completed position value ∈ log) :
    ∃ values, Gathers tasks log values ∧ Returns id (.list values) state := by
  cases state with
  | resting fan =>
    obtain ⟨kept, -⟩ := holds
    obtain ⟨idle, queued⟩ := kept.all_done all
    rw [idle] at kept
    refine ⟨fan.values, kept.gathers queued, fun operation outer world => ?_⟩
    exact kept.number ▸ look_idle queued (List.map_eq_nil_iff.mp idle) operation outer world
  | visiting fan position tally control inner =>
    cases (holds.1.all_done all).1
  | finished result =>
    cases result with
    | ok value =>
      obtain ⟨fan, kept, queued, rfl⟩ := holds
      exact ⟨fan.values, kept.gathers queued, rfl⟩
    | error error =>
      obtain ⟨earlier, fan, position, rfl, kept, _⟩ := holds
      -- all values came before the failure, when the element that failed was still in flight
      have before : ∀ place < tasks.length, ∃ value, .completed place value ∈ earlier := by
        intro place inside
        obtain ⟨value, done⟩ := all place inside
        rw [← mem_completed, completed_failing] at done
        exact ⟨value, mem_completed.mp done⟩
      cases (kept.all_done before).1

end Holds

/-- What a run of a collection does to its elements, and what becomes of the collection by it. -/
structure Accounted (id limit : Nat) (tasks : List Task) (log : List Happening) (state : State) : Prop where
  /-- elements start in their order, none of them twice -/
  ordered : started log <+: List.range tasks.length
  /-- those that have started are in flight or have ended -/
  balanced : (state.flight ++ ended log).Perm (started log)
  /-- no more are in flight than may be; a bound of zero is a bound of one -/
  bounded : state.flight.length ≤ max limit 1
  /-- fewer are in flight only if none is left to start -/
  busy : log ≠ [] → (∀ error, state ≠ .finished (.error error)) → state.flight.length < max limit 1 →
    started log = List.range tasks.length
  /-- a look goes into an element, if one starts or is called and none is called that is gone -/
  visits : ∀ fan, state = .resting fan → ∀ world : World,
    (∀ position, .element id position ∈ world.ready → position ∈ state.flight) →
    fan.starting ≠ [] ∨ 0 < world.calls id → ∀ operation outer, ∃ others position tally task later,
      (⟨operation, .poll (.fan fan), outer⟩ : Machine).step world =
        some ((State.visiting others position tally (.poll task) []).machine operation outer, later)
  /-- a value that is returned has the value of each element in its place -/
  returned : ∀ value, state = .finished (.ok value) → ∃ values, value = .list values ∧ Gathers tasks log values
  /-- a collection all of whose elements have values returns them -/
  returns : (∀ position < tasks.length, ∃ value, .completed position value ∈ log) →
    ∃ values, Gathers tasks log values ∧ Returns id (.list values) state
  /-- the first element that fails ends the collection with its error, and all others in flight are dropped -/
  failed : ∀ position error, .failed position error ∈ log →
    state = .finished (.error error) ∧ FailsAt tasks log position error
  /-- no other error is returned -/
  fails : ∀ error, state = .finished (.error error) → ∃ position, .failed position error ∈ log
  /-- what an element that fails leaves running is cancelled in the world -/
  cancels : ∀ fan position tally error, state = .visiting fan position tally (.finish (.error error)) [] →
    ∀ operation outer world, (state.machine operation outer).step world =
      some ((State.finished (.error error)).machine operation outer, (world.cancelElements fan.running).forget fan.id)
  /-- whatever a machine does to a collection that is not over is a step of a run -/
  onward : ∀ operation outer machine, state.ahead operation outer = some machine →
    ∀ world, ∃ after later, machine.step world = some (State.machine operation outer after, later) ∧
      Run id limit tasks (log ++ state.happenings) after

end Blueprint.Collection
