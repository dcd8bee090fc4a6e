import Blueprint.Proofs.Machine.Step
import Blueprint.Proofs.Task.Stakes
/-! The spans that are opened while a machine is at work. It opens one when it begins to resolve a nested entity under
a configuration with spans, and no other step opens any. -/

namespace Blueprint

/-- The entity that a span is opened for, and the path at which it is resolved. -/
def Event.span? : Event → Option (String × Path)
  | span entity path => some (entity, path)
  | _ => none

namespace World

/-- The spans that have been opened, oldest first. -/
def spans (world : World) : List (String × Path) := world.events.filterMap Event.span?

variable (world : World)

theorem spans_emit (event : Event) : (world.emit event).spans = world.spans ++ event.span?.toList := by
  rw [spans, emit, List.filterMap_append, List.filterMap_cons]
  cases event.span? <;> rfl

/-- Messages open no span. -/
theorem spans_message {event : Event} (message : event.span? = none) : (world.emit event).spans = world.spans := by
  rw [spans_emit, message]
  exact List.append_nil _

@[simp] theorem spans_wake (strands : List Strand) : (world.wake strands).spans = world.spans := rfl

@[simp] theorem spans_wakeAll (waiters : List Waiter) : (world.wakeAll waiters).spans = world.spans := by
  induction waiters generalizing world with
  | nil => rfl
  | cons waiter rest ih => exact ih _

@[simp] theorem spans_unlink (owner : Option Key) (key : Key) : (world.unlink owner key).spans = world.spans := rfl

@[simp] theorem spans_settle (key : Key) (stored : Stored) : (world.settle key stored).spans = world.spans :=
  spans_wakeAll _ _

@[simp] theorem spans_release (key : Key) : (world.release key).spans = world.spans := spans_wakeAll _ _

@[simp] theorem spans_withdraw (key : Key) (ticket : Nat) : (world.withdraw key ticket).spans = world.spans :=
  spans_wakeAll _ _

theorem spans_nextElement? {fan position : Nat} {after : World}
    (found : world.nextElement? fan = some (position, after)) : after.spans = world.spans := by
  unfold World.nextElement? at found
  split at found
  · cases found
    rfl
  · cases found

theorem spans_cancelParts {parts : List (Part Task)}
    (each : ∀ task, .running task ∈ parts → ∀ world : World, (world.cancel task).spans = world.spans) :
    (world.cancelParts parts).spans = world.spans := by
  induction parts with
  | nil => rfl
  | cons part rest ih =>
    have later := ih fun task member => each task (List.mem_cons_of_mem _ member)
    cases part with
    | done value => exact later
    | running task => exact (each task List.mem_cons_self _).trans later

theorem spans_cancelElements {elements : List (Nat × Task)}
    (each : ∀ element ∈ elements, ∀ world : World, (world.cancel element.2).spans = world.spans) :
    (world.cancelElements elements).spans = world.spans := by
  induction elements generalizing world with
  | nil => rfl
  | cons element rest ih =>
    exact (ih _ fun other member => each other (List.mem_cons_of_mem _ member)).trans
      (each element List.mem_cons_self world)

@[simp] theorem spans_cancel (task : Task) : (world.cancel task).spans = world.spans := by
  induction task using Task.induction generalizing world with
  | node | shell | variant | field | forever | delay => rfl
  | waiting fetch ticket => exact spans_withdraw world fetch.key ticket
  | inside frame task ih =>
    cases frame with
    | fetching fetch => exact (spans_release _ fetch.key).trans (ih world)
    | present | tagged | folding | stage => exact ih world
  | join parts each => exact spans_cancelParts world each
  | fan fan _ each => exact spans_cancelElements world each

end World

namespace Machine

variable (machine : Machine) (world : World)

theorem sleep_spans (delay : Nat) (next : Task) : (machine.sleep delay next world).2.spans = world.spans := by
  unfold sleep
  split <;> rfl

theorem beginFetch_spans (fetch : Fetch) : (machine.beginFetch fetch world).2.spans = world.spans := by
  have begun : (world.emit (.initializing fetch.key)).spans = world.spans := world.spans_message rfl
  unfold beginFetch
  split
  · dsimp only
    split
    · exact (World.spans_message _ rfl).trans begun
    · exact begun
  · exact begun

theorem dereference_spans (type : EntityType) (name : String) (scope : Scope) :
    (machine.dereference type name scope world).2.spans = world.spans := by
  have arrived : ∀ {arrival : Registry.Arrival} {after : World}, world.take.2.arrive type.typeName
      (Node.keyOf type name) scope.owner ⟨world.take.1, machine.strands⟩ = (arrival, after) →
        after.spans = world.spans := by
    intro arrival after found
    cases found
    rfl
  unfold dereference
  dsimp only
  split
  next found => exact arrived found
  next found => exact arrived found
  next found => exact (machine.beginFetch_spans _ _).trans (arrived found)
  next found => exact arrived found

theorem awaken_spans (fetch : Fetch) (ticket : Nat) :
    (machine.awaken fetch ticket world).2.spans = world.spans := by
  have resumed : ∀ {resumption : Registry.Resumption} {after : World},
      world.resume fetch.type.typeName fetch.key ticket = (resumption, after) → after.spans = world.spans := by
    intro resumption after found
    cases found
    rfl
  unfold awaken
  split
  next found => exact resumed found
  next found => exact (World.spans_unlink _ _ _).trans (resumed found)
  next found => exact (World.spans_unlink _ _ _).trans (resumed found)
  next found => exact (machine.beginFetch_spans _ _).trans (resumed found)

theorem nextElement_spans (fan : Fan Task) (tally : Tally) :
    (machine.nextElement fan tally world).2.spans = world.spans := by
  unfold nextElement
  split
  next => split <;> rfl
  next found =>
    split
    · exact (World.spans_wake _ _).trans (world.spans_nextElement? found)
    · exact world.spans_nextElement? found

theorem runFan_spans (fan : Fan Task) : (machine.runFan fan world).2.spans = world.spans :=
  machine.nextElement_spans _ _ _

theorem pollShell_spans (shell : Shell) (scope : Scope) :
    (machine.pollShell shell scope world).2.spans = world.spans := by
  unfold pollShell
  split
  next => rfl
  next => rfl
  next => exact machine.sleep_spans _ _ _
  next => rfl
  next => exact machine.sleep_spans _ _ _

theorem pollField_spans (entity name : String) (slot : Slot) (scope : Scope) :
    (machine.pollField entity name slot scope world).2.spans = world.spans := by
  unfold pollField
  split <;> rfl

theorem fold_spans (path : Path) (pairs : List (Value × Value)) : (fold path pairs world).2.spans = world.spans :=
  @fold_keeps (fun before after => after.spans = before.spans) path (fun _ => rfl) (fun one two => two.trans one)
    (fun world => world.spans_message rfl) pairs world

theorem restIn_spans (layer : Layer) (task : Task) : (machine.restIn layer task world).2.spans = world.spans := by
  unfold restIn
  split
  · rfl
  · rfl
  · dsimp only
    generalize (if world.ready.contains _ then 1 else 0) = woken
    split
    · rfl
    · exact nextElement_spans _ _ _ _

theorem finishFrame_spans (frame : Frame) (value : Value) :
    (machine.finishFrame frame value world).2.spans = world.spans := by
  unfold finishFrame
  split
  next => rfl
  next => rfl
  next path => exact fold_spans world path _
  next fetch => exact world.spans_settle _ _
  next => rfl

theorem finishIn_spans (layer : Layer) (value : Value) :
    (machine.finishIn layer value world).2.spans = world.spans := by
  unfold finishIn
  split
  next frame => exact machine.finishFrame_spans world frame value
  next => rfl
  next => exact runFan_spans _ _ _

theorem failIn_spans (layer : Layer) : (failIn layer world).spans = world.spans := by
  unfold failIn
  split
  · exact world.spans_release _
  · rfl
  · exact world.spans_cancelParts fun task _ world => world.spans_cancel task
  · exact world.spans_cancelElements fun element _ world => world.spans_cancel element.2

end Machine

/-- The resolution of an entity under a scope. -/
structure Nesting where
  shell : Shell
  scope : Scope

namespace Nesting

/-- The span that is about the resolution. -/
def span (nesting : Nesting) : String × Path := (nesting.shell.describe, nesting.scope.path)

/-- Whether spans are wanted where the entity is resolved. -/
def spanned (nesting : Nesting) : Bool := nesting.scope.config.spanPerEntity

end Nesting

/-- The resolution that a task is, if it is that of an entity and has not begun. -/
def Task.nesting? : Task → Option Nesting
  | .node (.nested entity) scope => some ⟨entity, scope⟩
  | _ => none

/-- The spans of those resolutions for which they are wanted, in the same order. -/
def Nesting.spans (nestings : List Nesting) : List (String × Path) :=
  (nestings.filter spanned).map span

theorem Nesting.spans_append (one two : List Nesting) : spans (one ++ two) = spans one ++ spans two := by
  simp [spans]

namespace Machine

/-- The resolutions that begin with the next step; there is at most one. -/
def begins (machine : Machine) : List Nesting :=
  match machine.control with
  | .poll task => task.nesting?.toList
  | _ => []

section Steps

variable {machine next : Machine} {world later : World}

/-- A look at a task opens the span of the resolution that begins with it, and no other. -/
theorem pollTask_spans (machine : Machine) (task : Task) (world : World) :
    (machine.pollTask task world).2.spans = world.spans ++ Nesting.spans task.nesting?.toList := by
  have quiet : ∀ {spans : List (String × Path)}, spans = world.spans →
      spans = world.spans ++ Nesting.spans [] := fun same => same.trans (List.append_nil _).symm
  cases task with
  | node node scope =>
    cases node with
    | literal value => exact quiet rfl
    | reference type name => exact quiet (machine.dereference_spans world type name scope)
    | nested shell =>
      simp only [pollTask, Task.nesting?, Nesting.spans, Option.toList_some]
      by_cases wanted : scope.config.spanPerEntity
      · rw [if_pos wanted, World.spans_emit]
        simp [Nesting.spanned, Nesting.span, Event.span?, wanted]
      · rw [if_neg wanted]
        simp [Nesting.spanned, wanted]
  | shell shell scope => exact quiet (machine.pollShell_spans world shell scope)
  | variant tag shell scope => exact quiet (World.spans_message world rfl)
  | field entity name slot scope => exact quiet (machine.pollField_spans world entity name slot (scope.field name))
  | delay due timer next =>
    refine quiet ?_
    unfold pollTask
    dsimp only
    split <;> rfl
  | forever | inside | join => exact quiet rfl
  | waiting fetch ticket => exact quiet (machine.awaken_spans world fetch ticket)
  | fan fan => exact quiet (machine.runFan_spans world fan)

/-- A step opens the span of the resolution that begins with it, and no other. -/
theorem step_spans (step : machine.step world = some (next, later)) :
    later.spans = world.spans ++ Nesting.spans machine.begins := by
  change (next, later).2.spans = _
  have quiet : ∀ {spans : List (String × Path)}, spans = world.spans →
      spans = world.spans ++ Nesting.spans [] := fun same => same.trans (List.append_nil _).symm
  generalize (next, later) = result at step ⊢
  cases step_steps step with
  | poll => exact pollTask_spans _ _ world
  | rest => exact quiet (restIn_spans _ world _ _)
  | finish => exact quiet (finishIn_spans _ world _ _)
  | fail => exact quiet (failIn_spans world _)

/-- Nothing begins at the end of a look. -/
theorem begins_of_idle (idle : machine.step world = none) : machine.begins = [] := by
  cases step_idles idle with
  | rest | finish => rfl

end Steps

end Machine

end Blueprint
