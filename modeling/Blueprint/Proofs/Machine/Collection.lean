import Blueprint.Proofs.Machine.Filled
import Blueprint.Proofs.System.Alert
/-! A collection as machines run it. What lies around a collection is left alone while something in it is visited, so
a collection is followed from step to step whatever it lies in and whatever is done elsewhere between the steps. -/

namespace Blueprint

namespace Machine

variable {machine after : Machine} {world later : World} {operation : Nat} {control : Control}
  {inner outer : List Layer}

theorem nextPart_layers (machine : Machine) (before after : List (Part Task)) :
    machine.layers <:+ (machine.nextPart before after).layers := by
  induction after generalizing before with
  | nil =>
    unfold nextPart
    split <;> exact List.suffix_rfl
  | cons part rest ih =>
    cases part with
    | done value => exact ih _
    | running task => exact List.suffix_cons _ _

theorem nextStage_layers (machine : Machine) (type : EntityType) (scope : Scope)
    (done : List (String × Value)) (stages : List (List (String × Slot))) :
    machine.layers <:+ (machine.nextStage type scope done stages).layers := by
  cases stages with
  | nil => exact List.suffix_rfl
  | cons fields later => exact List.suffix_cons _ _

theorem nextElement_layers (machine : Machine) (fan : Fan Task) (tally : Tally) (world : World) :
    machine.layers <:+ (machine.nextElement fan tally world).1.layers := by
  unfold nextElement
  split
  · split <;> exact List.suffix_rfl
  · split
    · exact List.suffix_rfl
    · exact List.suffix_cons _ _

theorem beginFetch_layers (machine : Machine) (fetch : Fetch) (world : World) :
    machine.layers <:+ (machine.beginFetch fetch world).1.layers := by
  unfold beginFetch
  split
  · split <;> exact List.suffix_cons _ _
  · exact List.suffix_cons _ _

theorem sleep_layers (machine : Machine) (delay : Nat) (next : Task) (world : World) :
    machine.layers <:+ (machine.sleep delay next world).1.layers := by
  unfold sleep
  split <;> exact List.suffix_rfl

theorem dereference_layers (machine : Machine) (type : EntityType) (name : String) (scope : Scope) (world : World) :
    machine.layers <:+ (machine.dereference type name scope world).1.layers := by
  unfold dereference
  dsimp only
  split
  · exact List.suffix_rfl
  · exact List.suffix_rfl
  · exact beginFetch_layers _ _ _
  · exact List.suffix_rfl

theorem awaken_layers (machine : Machine) (fetch : Fetch) (ticket : Nat) (world : World) :
    machine.layers <:+ (machine.awaken fetch ticket world).1.layers := by
  unfold awaken
  split
  · exact List.suffix_rfl
  · exact List.suffix_rfl
  · exact List.suffix_rfl
  · exact beginFetch_layers _ _ _

theorem pollTask_layers (machine : Machine) (task : Task) (world : World) :
    machine.layers <:+ (machine.pollTask task world).1.layers := by
  unfold pollTask
  split
  · exact List.suffix_rfl
  · exact dereference_layers _ _ _ _ _
  · exact List.suffix_rfl
  · unfold pollShell
    split
    · exact nextStage_layers _ _ _ _ _
    · exact List.suffix_rfl
    · exact sleep_layers _ _ _ _
    · exact List.suffix_rfl
    · exact sleep_layers _ _ _ _
  · exact List.suffix_cons _ _
  · unfold pollField
    split
    · exact List.suffix_rfl
    · exact List.suffix_rfl
    · exact List.suffix_rfl
    · exact List.suffix_cons _ _
    · exact List.suffix_rfl
    · exact List.suffix_cons _ _
  · split <;> exact List.suffix_rfl
  · exact List.suffix_rfl
  · exact awaken_layers _ _ _ _
  · exact List.suffix_cons _ _
  · exact nextPart_layers _ _ _
  · exact nextElement_layers _ _ _ _

theorem restIn_layers (machine : Machine) (layer : Layer) (task : Task) (world : World) :
    machine.layers <:+ (machine.restIn layer task world).1.layers := by
  cases layer with
  | inside frame => exact List.suffix_rfl
  | joining before after => exact nextPart_layers _ _ _
  | fanning fan position tally =>
    dsimp only [restIn]
    split <;> split
    all_goals first | exact List.suffix_rfl | exact nextElement_layers _ _ _ _

theorem finishIn_layers (machine : Machine) (layer : Layer) (value : Value) (world : World) :
    machine.layers <:+ (machine.finishIn layer value world).1.layers := by
  cases layer with
  | inside frame =>
    cases frame with
    | stage record => exact nextStage_layers _ _ _ _ _
    | _ => exact List.suffix_rfl
  | joining before after => exact nextPart_layers _ _ _
  | fanning fan position tally => exact nextElement_layers _ _ _ _

/-- A machine is at work inside of what lies around it: it looks at a task, or leaves one that lies further in. -/
def Inward (control : Control) (inner : List Layer) : Prop :=
  (∃ task, control = .poll task) ∨ inner ≠ []

/-- Work inside of some layers goes on, and leaves them as they are. -/
theorem step_inward (inward : Inward control inner) (operation : Nat) (outer : List Layer) (world : World) :
    ∃ next further later, (⟨operation, control, inner ++ outer⟩ : Machine).step world =
      some (⟨operation, next, further ++ outer⟩, later) := by
  -- whatever the step is, it is enough that the layers around it are still at the end of those of its result
  have stays : ∀ {after : Machine} {later : World},
      (⟨operation, control, inner ++ outer⟩ : Machine).step world = some (after, later) → outer <:+ after.layers →
      ∃ next further later, (⟨operation, control, inner ++ outer⟩ : Machine).step world =
        some (⟨operation, next, further ++ outer⟩, later) := by
    intro after later step around
    obtain ⟨further, layers⟩ := around
    have same := step_operation step
    obtain ⟨_, next, _⟩ := after
    cases same
    cases layers
    exact ⟨next, further, later, step⟩
  have deeper : ∀ rest : List Layer, outer <:+ rest ++ outer := fun rest => List.suffix_append rest outer
  rcases inward with ⟨task, rfl⟩ | nonempty
  · exact stays rfl ((deeper inner).trans (pollTask_layers ⟨operation, .poll task, inner ++ outer⟩ task world))
  obtain ⟨layer, rest, rfl⟩ := List.exists_cons_of_ne_nil nonempty
  cases control with
  | poll task =>
    exact stays rfl ((deeper (layer :: rest)).trans
      (pollTask_layers ⟨operation, .poll task, layer :: rest ++ outer⟩ task world))
  | rest task =>
    exact stays rfl ((deeper rest).trans (restIn_layers ⟨operation, .rest task, rest ++ outer⟩ layer task world))
  | finish result =>
    cases result with
    | ok value =>
      exact stays rfl ((deeper rest).trans
        (finishIn_layers ⟨operation, .finish (.ok value), rest ++ outer⟩ layer value world))
    | error error => exact stays rfl (deeper rest)

end Machine

/-- A task comes to be at some place of its own: it is looked at, it rests and is looked at again, and machines step
inside of it, for whichever operation and in whatever world. -/
inductive Task.Course (first : Task) : Control → List Layer → Prop where
  | begins : Course first (.poll first) []
  | again {task : Task} (course : Course first (.rest task) []) : Course first (.poll task) []
  | step {operation : Nat} {control next : Control} {inner further outer : List Layer} {world later : World}
      (course : Course first control inner) (inward : Machine.Inward control inner)
      (step : (⟨operation, control, inner ++ outer⟩ : Machine).step world =
        some (⟨operation, next, further ++ outer⟩, later)) : Course first next further

/-- A task comes to a result of its own. -/
def Task.Yields (task : Task) (result : Except ResolveError Value) : Prop :=
  task.Course (.finish result) []

namespace World

/-- How many elements of a fan-out are called. -/
def calls (world : World) (fan : Nat) : Nat :=
  world.ready.countP (Strand.isElementOf fan)

/-- Waking others calls no element. -/
theorem calls_wake {world : World} {fan : Nat} {strands : List Strand}
    (apart : ∀ strand ∈ strands, ¬ strand.isElementOf fan) : (world.wake strands).calls fan = world.calls fan := by
  have waking : ∀ queue : List Strand,
      (Strand.wake queue strands).countP (Strand.isElementOf fan) = queue.countP (Strand.isElementOf fan) := by
    induction strands with
    | nil => exact fun _ => rfl
    | cons strand rest ih =>
      intro queue
      rw [Strand.wake]
      split
      · rfl
      · rw [ih fun other member => apart other (List.mem_cons_of_mem _ member), List.countP_append,
          List.countP_singleton, if_neg (apart strand List.mem_cons_self), Nat.add_zero]
  exact waking world.ready

/-- Going to an element that is called uses up the call. -/
theorem calls_nextElement {world next : World} {fan position : Nat}
    (found : world.nextElement? fan = some (position, next)) : next.calls fan < world.calls fan := by
  unfold nextElement? at found
  split at found
  next id place called =>
    cases found
    have member := List.mem_of_find?_eq_some called
    have own := List.find?_some called
    have before := List.countP_pos_iff.mpr ⟨_, member, own⟩
    simp only [calls, List.countP_erase, member, own, and_self, if_true]
    omega
  next => cases found

/-- The world after the elements that a collection starts are called. -/
def calling (world : World) (fan : Fan Task) : World :=
  { world with ready := world.ready ++ fan.starting.map fun element => .element fan.id element.1 }

end World

theorem Machine.runFan_eq (machine : Machine) (fan : Fan Task) (world : World) :
    machine.runFan fan world = machine.nextElement fan.refill ⟨fan.refill.running.length, 0, 0⟩ (world.calling fan) :=
  rfl

namespace Collection

/-- How far a collection has come: it rests, one of its elements is visited, or it is over. -/
inductive State where
  | resting (fan : Fan Task)
  | visiting (fan : Fan Task) (position : Nat) (tally : Tally) (control : Control) (inner : List Layer)
  | finished (result : Except ResolveError Value)

namespace State

/-- The machine at a collection. -/
def machine (operation : Nat) (outer : List Layer) : State → Machine
  | resting fan => ⟨operation, .rest (.fan fan), outer⟩
  | visiting fan position tally control inner => ⟨operation, control, inner ++ .fanning fan position tally :: outer⟩
  | finished result => ⟨operation, .finish result, outer⟩

/-- The machine by which a collection goes on. One that rests is looked at again; one that is over does not go on. -/
def ahead (operation : Nat) (outer : List Layer) (state : State) : Option Machine :=
  match state with
  | resting fan => some ⟨operation, .poll (.fan fan), outer⟩
  | visiting _ _ _ _ _ => some (state.machine operation outer)
  | finished _ => none

variable {operation : Nat} {outer : List Layer}

/-- A machine tells how far the collection has come. -/
theorem machine_injective : Function.Injective (machine operation outer) := by
  have deeper : ∀ {inner : List Layer} {layer : Layer}, outer ≠ inner ++ layer :: outer := by
    intro inner layer same
    have lengths := congrArg List.length same
    simp only [List.length_append, List.length_cons] at lengths
    omega
  intro first second same
  cases first <;> cases second <;> simp only [machine, Machine.mk.injEq, true_and, reduceCtorEq, false_and] at same
  case resting.resting => cases same.1; rfl
  case resting.visiting => exact absurd same.2 deeper
  case visiting.resting => exact absurd same.2.symm deeper
  case visiting.finished => exact absurd same.2.symm deeper
  case finished.visiting => exact absurd same.2 deeper
  case finished.finished => cases same.1; rfl
  case visiting.visiting =>
    obtain ⟨rfl, layers⟩ := same
    rw [List.append_cons, List.append_cons _ _ outer, List.append_left_inj] at layers
    obtain ⟨rfl, layer⟩ := List.append_inj' layers rfl
    cases layer
    rfl

end State

/-- What a collection can come to when it goes to its next element. -/
inductive Turns (fan : Fan Task) : State → Prop where
  | finished (idle : fan.running = []) : Turns fan (.finished (.ok (.list fan.values)))
  | rests : Turns fan (.resting fan)
  | visits {position : Nat} {task : Task} (tally : Tally) (listed : OrderedMap.get? fan.running position = some task) :
    Turns fan (.visiting { fan with running := fan.running.filter fun element => element.1 ≠ position }
      position tally (.poll task) [])

/-- All that a step of a collection can be. -/
inductive Moves : State → State → Prop where
  | look {fan : Fan Task} {after : State} (turns : Turns fan.refill after) : Moves (.resting fan) after
  | inside {fan : Fan Task} {position : Nat} {tally : Tally} {control next : Control} {inner further : List Layer}
      (inward : Machine.Inward control inner)
      (onward : ∀ first : Task, first.Course control inner → first.Course next further) :
    Moves (.visiting fan position tally control inner) (.visiting fan position tally next further)
  | pause {fan : Fan Task} {position : Nat} {tally : Tally} {task : Task} {after : State}
      (turns : Turns { fan with running := (position, task) :: fan.running } after) :
    Moves (.visiting fan position tally (.rest task) []) after
  | complete {fan : Fan Task} {position : Nat} {tally : Tally} {value : Value} {after : State}
      (turns : Turns { fan with done := fan.done ++ [(position, value)] }.refill after) :
    Moves (.visiting fan position tally (.finish (.ok value)) []) after
  | fail {fan : Fan Task} {position : Nat} {tally : Tally} {error : ResolveError} :
    Moves (.visiting fan position tally (.finish (.error error)) []) (.finished (.error error))

variable {before after : State} {operation : Nat} {outer : List Layer} {machine : Machine} {world later : World}

theorem nextElement_turns (machine : Machine) (fan : Fan Task) (tally : Tally) (world : World) :
    ∃ after later, machine.nextElement fan tally world =
      (State.machine machine.operation machine.layers after, later) ∧ Turns fan after := by
  unfold Machine.nextElement
  split
  next =>
    split
    next empty => exact ⟨.finished (.ok (.list fan.values)), world, rfl, .finished (List.isEmpty_iff.mp empty)⟩
    next => exact ⟨.resting fan, world, rfl, .rests⟩
  next position next found =>
    split
    next => exact ⟨.resting fan, _, rfl, .rests⟩
    next task listed => exact ⟨_, next, rfl, .visits tally listed⟩

theorem runFan_turns (machine : Machine) (fan : Fan Task) (world : World) :
    ∃ after later, machine.runFan fan world =
      (State.machine machine.operation machine.layers after, later) ∧ Turns fan.refill after :=
  nextElement_turns machine fan.refill _ _

/-- A collection that is not over goes on in every world. -/
theorem ahead_moves (ahead : before.ahead operation outer = some machine) (world : World) :
    ∃ after later, machine.step world = some (after.machine operation outer, later) ∧ Moves before after := by
  cases before with
  | finished result => cases ahead
  | resting fan =>
    cases ahead
    obtain ⟨after, later, same, turns⟩ := runFan_turns ⟨operation, .poll (.fan fan), outer⟩ fan world
    exact ⟨after, later, congrArg some same, .look turns⟩
  | visiting fan position tally control inner =>
    cases ahead
    by_cases inward : Machine.Inward control inner
    · obtain ⟨next, further, later, step⟩ :=
        Machine.step_inward inward operation (.fanning fan position tally :: outer) world
      exact ⟨.visiting fan position tally next further, later, step, .inside inward fun _ course =>
        course.step inward step⟩
    simp only [Machine.Inward, not_or, not_exists, ne_eq, not_not] at inward
    obtain ⟨leaves, rfl⟩ := inward
    cases control with
    | poll task => exact absurd rfl (leaves task)
    | rest task =>
      simp only [State.machine, List.nil_append, Machine.step, Machine.restIn]
      generalize (if world.ready.contains _ then 1 else 0) = woken
      split
      · exact ⟨.resting _, _, rfl, .pause .rests⟩
      · obtain ⟨after, later, same, turns⟩ := nextElement_turns ⟨operation, .rest task, outer⟩
          { fan with running := (position, task) :: fan.running }
          ⟨tally.total, tally.polled + 1, tally.yielded + woken⟩ world
        exact ⟨after, later, congrArg some same, .pause turns⟩
    | finish result =>
      cases result with
      | ok value =>
        obtain ⟨after, later, same, turns⟩ := runFan_turns ⟨operation, .finish (.ok value), outer⟩
          { fan with done := fan.done ++ [(position, value)] }
          { world with ready := world.ready.erase (.element fan.id position) }
        exact ⟨after, later, congrArg some same, .complete turns⟩
      | error error => exact ⟨.finished (.error error), _, rfl, .fail⟩

/-- A step that a collection is seen to make is one of its moves. -/
theorem step_moves (ahead : before.ahead operation outer = some machine)
    (step : machine.step world = some (after.machine operation outer, later)) : Moves before after := by
  obtain ⟨other, _, same, moves⟩ := ahead_moves ahead world
  rw [step, Option.some.injEq, Prod.mk.injEq] at same
  rw [State.machine_injective same.1]
  exact moves

/-- A collection of which nothing is left to run returns its values at a look. Only a call of an element that is gone
delays it, and the look has used up that call. -/
theorem look_idle {fan : Fan Task} (queued : fan.queued = []) (running : fan.running = []) (operation : Nat)
    (outer : List Layer) (world : World) :
    ∃ (after : State) (later : World), (⟨operation, .poll (.fan fan), outer⟩ : Machine).step world =
        some (after.machine operation outer, later) ∧
      (after = .finished (.ok (.list fan.values)) ∨ after = .resting fan ∧
        ((∀ strand ∈ Layer.strands outer operation, ¬ strand.isElementOf fan.id) →
          later.calls fan.id < world.calls fan.id)) := by
  have starting : fan.starting = [] := by rw [Fan.starting, queued, List.take_nil]
  have full : fan.refill = fan := by
    obtain ⟨id, limit, size, _, _, done⟩ := fan
    cases queued
    cases running
    simp [Fan.refill, Fan.starting]
  have calm : world.calling fan = world := by simp [World.calling, starting]
  simp only [Machine.step, Machine.pollTask, Machine.runFan_eq, full, calm, Machine.nextElement]
  split
  next =>
    rw [running]
    exact ⟨.finished _, world, rfl, .inl rfl⟩
  next position next found =>
    rw [running]
    refine ⟨.resting fan, _, rfl, .inr ⟨rfl, fun apart => ?_⟩⟩
    exact lt_of_eq_of_lt (World.calls_wake apart) (World.calls_nextElement found)

end Collection

end Blueprint
