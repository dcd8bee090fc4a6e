import Blueprint.Proofs.Machine.Step
import Blueprint.Proofs.Task.Stakes
/-! Time stands still while a machine is at work, and numbers are only ever given out. -/

namespace Blueprint

/-- The clock is where it was, and no number is given out twice. -/
structure World.Onward (before after : World) : Prop where
  now : after.now = before.now
  fresh : before.fresh ≤ after.fresh

namespace World.Onward

variable {first second third : World}

theorem refl (world : World) : world.Onward world := ⟨rfl, Nat.le_refl _⟩

theorem trans (left : first.Onward second) (right : second.Onward third) : first.Onward third :=
  ⟨right.now.trans left.now, left.fresh.trans right.fresh⟩

theorem emit (world : World) (event : Event) : world.Onward (world.emit event) := ⟨rfl, Nat.le_refl _⟩

theorem wake (world : World) (strands : List Strand) : world.Onward (world.wake strands) := ⟨rfl, Nat.le_refl _⟩

theorem answered (answer : List Waiter × Registry) (world : World) :
    world.Onward ({ world with registry := answer.2 }.wakeAll answer.1) := by
  obtain ⟨waiters, registry⟩ := answer
  suffices each : ∀ world : World, world.Onward (world.wakeAll waiters) from
    (⟨rfl, Nat.le_refl _⟩ : world.Onward { world with registry }).trans (each _)
  induction waiters with
  | nil => exact refl
  | cons waiter rest ih => exact fun world => (wake world waiter.strands).trans (ih _)

theorem settle (world : World) (key : Key) (stored : Stored) : world.Onward (world.settle key stored) :=
  answered (world.registry.settle key stored) world

theorem release (world : World) (key : Key) : world.Onward (world.release key) :=
  answered (world.registry.release key) world

theorem withdraw (world : World) (key : Key) (ticket : Nat) : world.Onward (world.withdraw key ticket) :=
  answered (world.registry.withdraw key ticket) world

theorem unlink (world : World) (owner : Option Key) (key : Key) : world.Onward (world.unlink owner key) :=
  ⟨rfl, Nat.le_refl _⟩

theorem with_ready (world : World) (ready : List Strand) : world.Onward { world with ready } := ⟨rfl, Nat.le_refl _⟩

theorem nextElement? {world after : World} {fan position : Nat}
    (found : world.nextElement? fan = some (position, after)) : world.Onward after := by
  unfold World.nextElement? at found
  split at found
  · cases found
    exact with_ready world _
  · cases found

theorem cancelParts {parts : List (Part Task)}
    (each : ∀ task, .running task ∈ parts → ∀ world : World, world.Onward (world.cancel task)) (world : World) :
    world.Onward (world.cancelParts parts) := by
  induction parts with
  | nil => simpa [World.cancelParts] using refl world
  | cons part rest ih =>
    have later := ih fun task member => each task (List.mem_cons_of_mem _ member)
    cases part with
    | done value => simpa [World.cancelParts] using later
    | running task => simpa [World.cancelParts] using later.trans (each task List.mem_cons_self _)

theorem cancelElements {elements : List (Nat × Task)}
    (each : ∀ element ∈ elements, ∀ world : World, world.Onward (world.cancel element.2)) (world : World) :
    world.Onward (world.cancelElements elements) := by
  induction elements generalizing world with
  | nil => simpa [World.cancelElements] using refl world
  | cons element rest ih =>
    simpa [World.cancelElements] using (each element List.mem_cons_self world).trans
      (ih (fun other member => each other (List.mem_cons_of_mem _ member)) _)

theorem cancel (task : Task) (world : World) : world.Onward (world.cancel task) := by
  induction task using Task.induction generalizing world with
  | node | shell | variant | field | forever => simpa [World.cancel] using refl world
  | delay due timer next =>
    rw [World.cancel]
    exact ⟨rfl, Nat.le_refl _⟩
  | waiting fetch ticket =>
    rw [World.cancel]
    exact (withdraw world fetch.key ticket).trans (unlink _ _ _)
  | inside frame task ih =>
    cases frame with
    | fetching fetch => simpa [World.cancel] using ((ih world).trans (release _ fetch.key)).trans (unlink _ _ _)
    | _ => simpa [World.cancel] using ih world
  | join parts each => simpa [World.cancel] using cancelParts each world
  | fan fan _ each =>
    simpa [World.cancel, World.forget] using (cancelElements each world).trans (with_ready _ _)

end World.Onward

open World (Onward)

namespace Machine

variable (machine : Machine) (world : World)

theorem sleep_onward (delay : Nat) (next : Task) : world.Onward (machine.sleep delay next world).2 := by
  unfold sleep
  split
  · exact .refl world
  · exact ⟨rfl, Nat.le_succ _⟩

theorem beginFetch_onward (fetch : Fetch) : world.Onward (machine.beginFetch fetch world).2 := by
  unfold beginFetch
  dsimp only
  split
  · split <;> exact ⟨rfl, Nat.le_refl _⟩
  · exact ⟨rfl, Nat.le_refl _⟩

theorem dereference_onward (type : EntityType) (name : String) (scope : Scope) :
    world.Onward (machine.dereference type name scope world).2 := by
  have arrived : ∀ {arrival : Registry.Arrival} {after : World}, world.take.2.arrive type.typeName
      (Node.keyOf type name) scope.owner ⟨world.take.1, machine.strands⟩ = (arrival, after) → world.Onward after := by
    intro arrival after found
    cases found
    exact ⟨rfl, Nat.le_succ _⟩
  unfold dereference
  dsimp only
  split
  next found => exact arrived found
  next found => exact arrived found
  next found => exact (arrived found).trans (machine.beginFetch_onward _ _)
  next found => exact arrived found

theorem awaken_onward (fetch : Fetch) (ticket : Nat) : world.Onward (machine.awaken fetch ticket world).2 := by
  have resumed : ∀ {resumption : Registry.Resumption} {after : World},
      world.resume fetch.type.typeName fetch.key ticket = (resumption, after) → world.Onward after := by
    intro resumption after found
    cases found
    exact ⟨rfl, Nat.le_refl _⟩
  unfold awaken
  split
  next found => exact resumed found
  next found => exact (resumed found).trans (.unlink _ _ _)
  next found => exact (resumed found).trans (.unlink _ _ _)
  next found => exact (resumed found).trans (machine.beginFetch_onward _ _)

theorem nextElement_onward (fan : Fan Task) (tally : Tally) :
    world.Onward (machine.nextElement fan tally world).2 := by
  unfold nextElement
  split
  next => split <;> exact .refl world
  next found =>
    split
    · exact (Onward.nextElement? found).trans (.wake _ _)
    · exact .nextElement? found

theorem runFan_onward (fan : Fan Task) : world.Onward (machine.runFan fan world).2 :=
  (Onward.with_ready world _).trans (machine.nextElement_onward _ _ _)

theorem pollTask_onward (task : Task) : world.Onward (machine.pollTask task world).2 := by
  unfold pollTask
  split
  next => exact .refl world
  next type name scope => exact machine.dereference_onward world type name scope
  next => dsimp only; split <;> exact ⟨rfl, Nat.le_refl _⟩
  next shell scope =>
    unfold pollShell
    split
    next => exact .refl world
    next => exact .refl world
    next => exact (⟨rfl, Nat.le_refl _⟩ : world.Onward (world.count _)).trans (machine.sleep_onward _ _ _)
    next => exact ⟨rfl, Nat.le_refl _⟩
    next => exact machine.sleep_onward _ _ _
  next => exact .emit _ _
  next =>
    unfold pollField
    split <;> first | exact .refl world | exact ⟨rfl, Nat.le_succ _⟩
  next => split <;> exact ⟨rfl, Nat.le_refl _⟩
  next => exact .refl world
  next fetch ticket => exact machine.awaken_onward world fetch ticket
  next => exact .refl world
  next => exact .refl world
  next fan => exact machine.runFan_onward world fan

theorem fold_onward (path : Path) (pairs : List (Value × Value)) : world.Onward (fold path pairs world).2 :=
  fold_keeps .refl .trans (fun world => .emit world _) pairs world

theorem restIn_onward (layer : Layer) (task : Task) : world.Onward (machine.restIn layer task world).2 := by
  unfold restIn
  split
  · exact .refl world
  · exact .refl world
  · dsimp only
    generalize (if world.ready.contains _ then 1 else 0) = woken
    split
    · exact .wake _ _
    · exact nextElement_onward _ _ _ _

theorem finishFrame_onward (frame : Frame) (value : Value) :
    world.Onward (machine.finishFrame frame value world).2 := by
  unfold finishFrame
  split
  next => exact .refl world
  next => exact .refl world
  next path => exact fold_onward world path _
  next => exact (Onward.settle world _ _).trans (.unlink _ _ _)
  next => exact .refl world

theorem finishIn_onward (layer : Layer) (value : Value) : world.Onward (machine.finishIn layer value world).2 := by
  unfold finishIn
  split
  next frame => exact machine.finishFrame_onward world frame value
  next => exact .refl world
  next => exact (Onward.with_ready world _).trans (runFan_onward _ _ _)

theorem failIn_onward (layer : Layer) : world.Onward (failIn layer world) := by
  unfold failIn
  split
  · exact (Onward.release world _).trans (.unlink _ _ _)
  · exact .refl world
  · exact .cancelParts (fun task _ => .cancel task) world
  · exact (Onward.cancelElements (fun element _ => .cancel element.2) world).trans (.with_ready _ _)

/-- Whatever a step does, it takes no time. -/
theorem step_onward {machine next : Machine} {world later : World} (step : machine.step world = some (next, later)) :
    world.Onward later := by
  change world.Onward (next, later).2
  generalize (next, later) = result at step ⊢
  cases step_steps step with
  | poll => exact pollTask_onward _ world _
  | rest => exact restIn_onward _ world _ _
  | finish => exact finishIn_onward _ world _ _
  | fail => exact failIn_onward world _

theorem run_onward {machine last : Machine} {world later : World} {fuel : Nat}
    (run : machine.run fuel world = some (last, later)) : world.Onward later := by
  induction fuel generalizing machine world with
  | zero => cases run
  | succ fuel ih =>
    rw [Machine.run] at run
    split at run
    next =>
      cases run
      exact .refl _
    next step => exact (step_onward step).trans (ih run)

end Machine

end Blueprint
