import Mathlib.Algebra.BigOperators.Group.Multiset.Basic
import Mathlib.Algebra.Order.Group.Multiset
import Blueprint.Proofs.Evaluation
import Blueprint.Resolution.Machine
/-! What a task has at stake in the registry: the references that it has not followed yet, the queues it
stands in and the entries it is initializing. Each stake is listed with the entry on whose behalf it
is held, which is the innermost entry that is being initialized around it. -/

namespace Blueprint

/-- The last reference on a path. -/
def Path.lastReference? (path : Path) : Option String :=
  (path.segments.filterMap fun
    | .reference target => some target
    | _ => none).getLast?

/-- What a scope knows of the entry that is being initialized around it. -/
structure Anchor where
  owner : Option Key
  reference : Option String
  deriving DecidableEq

namespace Scope

def anchor (scope : Scope) : Anchor := ⟨scope.owner, scope.path.lastReference?⟩

@[simp] theorem field_anchor (scope : Scope) (name : String) : (scope.field name).anchor = scope.anchor := by
  simp [anchor, field, child, Path.child, Path.lastReference?]

@[simp] theorem index_anchor (scope : Scope) (position : Nat) :
    (scope.index position).anchor = scope.anchor := by
  simp [anchor, index, child, Path.child, Path.lastReference?]

@[simp] theorem dereferencing_anchor (scope : Scope) (key : Key) :
    (scope.dereferencing key).anchor = ⟨some key, some key.text⟩ := by
  simp [anchor, dereferencing, child, Path.child, Path.lastReference?]

end Scope

/-- One thing that a task wants or holds. -/
inductive Stake where
  /-- a reference that has not been followed -/
  | pending (key : Key) (anchor : Anchor)
  /-- a place in the queue of an entry -/
  | waiting (fetch : Fetch) (ticket : Nat)
  /-- the initialization of an entry -/
  | turn (fetch : Fetch)

namespace Stake

def key : Stake → Key
  | pending key _ => key
  | waiting fetch _ | turn fetch => fetch.key

def anchor : Stake → Anchor
  | pending _ anchor => anchor
  | waiting fetch _ | turn fetch => fetch.scope.anchor

end Stake

/-- Stakes with the entries on whose behalf they are held. -/
abbrev Stakes := Multiset (Option Key × Stake)

/-- The stakes of references that have not been followed. -/
def pendings (owner : Option Key) (references : List Key) (anchor : Anchor) : Stakes :=
  ↑(references.map fun key => (owner, Stake.pending key anchor))

@[simp] theorem pendings_nil (owner : Option Key) (anchor : Anchor) : pendings owner [] anchor = 0 := rfl

@[simp] theorem pendings_append (owner : Option Key) (first second : List Key) (anchor : Anchor) :
    pendings owner (first ++ second) anchor =
      pendings owner first anchor + pendings owner second anchor := by
  simp [pendings]

theorem pendings_flatMap {α : Type} (owner : Option Key) (items : List α) (references : α → List Key)
    (anchor : Anchor) :
    pendings owner (items.flatMap references) anchor =
      (items.map fun item => pendings owner (references item) anchor).sum := by
  induction items with
  | nil => simp
  | cons item rest ih => simp [ih]

theorem mem_pendings {owner : Option Key} {references : List Key} {anchor : Anchor}
    {stake : Option Key × Stake} :
    stake ∈ pendings owner references anchor ↔
      ∃ key ∈ references, stake = (owner, .pending key anchor) := by
  simp [pendings, eq_comm]

namespace Frame

/-- The entry on whose behalf a task inside a frame works. -/
def owner (frame : Frame) (outer : Option Key) : Option Key :=
  match frame with
  | fetching fetch => some fetch.key
  | _ => outer

/-- The stakes of a frame itself. -/
def stakes (outer : Option Key) : Frame → Stakes
  | fetching fetch => {(outer, .turn fetch)}
  | stage record =>
    pendings outer (record.later.flatten.flatMap fun field => field.2.references) record.scope.anchor
  | present | tagged _ | folding _ => 0

end Frame

mutual

/-- All stakes of a task that works on behalf of an owner. -/
def Task.stakes (owner : Option Key) : Task → Stakes
  | .node node scope => pendings owner node.references scope.anchor
  | .shell shell scope => pendings owner shell.references scope.anchor
  | .variant _ shell scope => pendings owner shell.references scope.anchor
  | .field _ _ slot scope => pendings owner slot.references scope.anchor
  | .delay _ _ next => next.stakes owner
  | .forever => 0
  | .waiting fetch ticket => {(owner, .waiting fetch ticket)}
  | .inside frame task => frame.stakes owner + task.stakes (frame.owner owner)
  | .join parts => stakesOfParts owner parts
  | .fan ⟨_, _, _, queued, running, _⟩ =>
    stakesOfElements owner queued + stakesOfElements owner running

def stakesOfParts (owner : Option Key) : List (Part Task) → Stakes
  | [] => 0
  | .done _ :: rest => stakesOfParts owner rest
  | .running task :: rest => task.stakes owner + stakesOfParts owner rest

def stakesOfElements (owner : Option Key) : List (Nat × Task) → Stakes
  | [] => 0
  | (_, task) :: rest => task.stakes owner + stakesOfElements owner rest

end

/-- Induction over tasks: through frames, running parts, and elements queued or running. -/
theorem Task.induction {holds : Task → Prop}
    (node : ∀ node scope, holds (.node node scope))
    (shell : ∀ shell scope, holds (.shell shell scope))
    (variant : ∀ tag shell scope, holds (.variant tag shell scope))
    (field : ∀ entity name slot scope, holds (.field entity name slot scope))
    (delay : ∀ due timer next, holds next → holds (.delay due timer next))
    (forever : holds .forever)
    (waiting : ∀ fetch ticket, holds (.waiting fetch ticket))
    (inside : ∀ frame task, holds task → holds (.inside frame task))
    (join : ∀ parts, (∀ task, .running task ∈ parts → holds task) → holds (.join parts))
    (fan : ∀ fan : Fan Task, (∀ element ∈ fan.queued, holds element.2) →
      (∀ element ∈ fan.running, holds element.2) → holds (.fan fan))
    (task : Task) : holds task := by
  refine @Task.rec holds (fun parts => ∀ task, .running task ∈ parts → holds task)
    (fun fan => (∀ element ∈ fan.queued, holds element.2) ∧ ∀ element ∈ fan.running, holds element.2)
    (fun part => ∀ task, part = .running task → holds task)
    (fun elements => ∀ element ∈ elements, holds element.2) (fun element => holds element.2)
    node shell variant field delay forever waiting inside join (fun collection both => ?_)
    ?_ ?_ ?_ ?_ ?_ ?_ ?_ ?_ task
  · exact fan collection both.1 both.2
  · simp
  · intro head tail first rest task member
    rcases List.mem_cons.mp member with same | later
    · exact first task same.symm
    · exact rest task later
  · exact fun _ _ _ _ _ _ queued running => ⟨queued, running⟩
  · intro value task same
    cases same
  · intro inner holds' task same
    cases same
    exact holds'
  · simp
  · intro head tail first rest element member
    rcases List.mem_cons.mp member with rfl | later
    · exact first
    · exact rest element later
  · exact fun _ _ known => known

section Lists

variable (owner : Option Key)

@[simp] theorem stakesOfParts_append (first second : List (Part Task)) :
    stakesOfParts owner (first ++ second) = stakesOfParts owner first + stakesOfParts owner second := by
  induction first with
  | nil => simp [stakesOfParts]
  | cons part rest ih => cases part <;> simp [stakesOfParts, ih, add_assoc]

@[simp] theorem stakesOfElements_append (first second : List (Nat × Task)) :
    stakesOfElements owner (first ++ second) =
      stakesOfElements owner first + stakesOfElements owner second := by
  induction first with
  | nil => simp [stakesOfElements]
  | cons element rest ih => simp [stakesOfElements, ih, add_assoc]

@[simp] theorem stakesOfParts_nil : stakesOfParts owner [] = 0 := by simp [stakesOfParts]

@[simp] theorem stakesOfParts_done (value : Value) (rest : List (Part Task)) :
    stakesOfParts owner (.done value :: rest) = stakesOfParts owner rest := by simp [stakesOfParts]

@[simp] theorem stakesOfParts_running (task : Task) (rest : List (Part Task)) :
    stakesOfParts owner (.running task :: rest) = task.stakes owner + stakesOfParts owner rest := by
  simp [stakesOfParts]

@[simp] theorem stakesOfElements_nil : stakesOfElements owner [] = 0 := by simp [stakesOfElements]

@[simp] theorem stakesOfElements_cons (element : Nat × Task) (rest : List (Nat × Task)) :
    stakesOfElements owner (element :: rest) =
      element.2.stakes owner + stakesOfElements owner rest := by
  simp [stakesOfElements]

theorem stakesOfElements_perm {first second : List (Nat × Task)} (same : first.Perm second) :
    stakesOfElements owner first = stakesOfElements owner second := by
  induction same with
  | nil => rfl
  | cons _ _ ih => simp [ih]
  | swap => simp [add_left_comm]
  | trans _ _ ih₁ ih₂ => exact ih₁.trans ih₂

theorem mem_stakesOfParts {owner : Option Key} {parts : List (Part Task)} {stake : Option Key × Stake} :
    stake ∈ stakesOfParts owner parts ↔ ∃ task, .running task ∈ parts ∧ stake ∈ task.stakes owner := by
  induction parts with
  | nil => simp
  | cons part rest ih => cases part <;> simp [ih, or_and_right, exists_or]

theorem mem_stakesOfElements {owner : Option Key} {elements : List (Nat × Task)}
    {stake : Option Key × Stake} :
    stake ∈ stakesOfElements owner elements ↔
      ∃ element ∈ elements, stake ∈ element.2.stakes owner := by
  induction elements with
  | nil => simp
  | cons element rest ih => simp [ih]

end Lists

namespace Task

variable (owner : Option Key)

@[simp] theorem stakes_node (node : Node) (scope : Scope) :
    (Task.node node scope).stakes owner = pendings owner node.references scope.anchor := rfl

@[simp] theorem stakes_shell (shell : Shell) (scope : Scope) :
    (Task.shell shell scope).stakes owner = pendings owner shell.references scope.anchor := rfl

@[simp] theorem stakes_variant (tag : String) (shell : Shell) (scope : Scope) :
    (Task.variant tag shell scope).stakes owner = pendings owner shell.references scope.anchor := rfl

@[simp] theorem stakes_field (entity name : String) (slot : Slot) (scope : Scope) :
    (Task.field entity name slot scope).stakes owner = pendings owner slot.references scope.anchor := rfl

@[simp] theorem stakes_delay (due timer : Nat) (next : Task) :
    (Task.delay due timer next).stakes owner = next.stakes owner := rfl

@[simp] theorem stakes_forever : Task.forever.stakes owner = 0 := rfl

@[simp] theorem stakes_waiting (fetch : Fetch) (ticket : Nat) :
    (Task.waiting fetch ticket).stakes owner = {(owner, .waiting fetch ticket)} := rfl

end Task

@[simp] theorem Task.stakes_fan (owner : Option Key) (fan : Fan Task) :
    (Task.fan fan).stakes owner =
      stakesOfElements owner fan.queued + stakesOfElements owner fan.running := by
  cases fan
  simp [Task.stakes]

@[simp] theorem Task.stakes_join (owner : Option Key) (parts : List (Part Task)) :
    (Task.join parts).stakes owner = stakesOfParts owner parts := by
  simp [Task.stakes]

@[simp] theorem Task.stakes_inside (owner : Option Key) (frame : Frame) (task : Task) :
    (Task.inside frame task).stakes owner = frame.stakes owner + task.stakes (frame.owner owner) := by
  simp [Task.stakes]

/-- Whatever a task has at stake on behalf of an entry other than the one it works for itself, it holds
the initialization of that entry. -/
theorem Task.turn_of_stake (task : Task) {owner : Option Key} {key : Key} {stake : Stake}
    (held : (some key, stake) ∈ task.stakes owner) :
    owner = some key ∨ ∃ outer fetch, (outer, .turn fetch) ∈ task.stakes owner ∧ fetch.key = key := by
  induction task using Task.induction generalizing owner with
  | node | shell | variant | field =>
    simp only [Task.stakes_node, Task.stakes_shell, Task.stakes_variant, Task.stakes_field, mem_pendings,
      Prod.mk.injEq] at held
    obtain ⟨_, _, same, _⟩ := held
    exact .inl same.symm
  | delay due timer next ih => simpa using ih (by simpa using held)
  | forever => simp at held
  | waiting fetch ticket =>
    simp only [Task.stakes_waiting, Multiset.mem_singleton, Prod.mk.injEq] at held
    exact .inl held.1.symm
  | inside frame task ih =>
    rw [Task.stakes_inside, Multiset.mem_add] at held
    simp only [Task.stakes_inside, Multiset.mem_add]
    rcases held with own | inner
    · left
      cases frame with
      | fetching fetch =>
        simp only [Frame.stakes, Multiset.mem_singleton, Prod.mk.injEq] at own
        exact own.1.symm
      | stage record =>
        simp only [Frame.stakes, mem_pendings, Prod.mk.injEq] at own
        obtain ⟨_, _, same, _⟩ := own
        exact same.symm
      | _ => simp [Frame.stakes] at own
    · rcases ih inner with same | ⟨outer, fetch, found, named⟩
      · cases frame with
        | fetching fetch =>
          exact .inr ⟨owner, fetch, .inl (by simp [Frame.stakes]), Option.some.inj same⟩
        | _ => exact .inl same
      · exact .inr ⟨outer, fetch, .inr found, named⟩
  | join parts ih =>
    simp only [Task.stakes_join, mem_stakesOfParts] at held ⊢
    obtain ⟨task, member, inner⟩ := held
    rcases ih task member inner with same | ⟨outer, fetch, found, named⟩
    · exact .inl same
    · exact .inr ⟨outer, fetch, ⟨task, member, found⟩, named⟩
  | fan fan queued running =>
    simp only [Task.stakes_fan, Multiset.mem_add, mem_stakesOfElements] at held ⊢
    rcases held with ⟨element, member, inner⟩ | ⟨element, member, inner⟩
    · rcases queued element member inner with same | ⟨outer, fetch, found, named⟩
      · exact .inl same
      · exact .inr ⟨outer, fetch, .inl ⟨element, member, found⟩, named⟩
    · rcases running element member inner with same | ⟨outer, fetch, found, named⟩
      · exact .inl same
      · exact .inr ⟨outer, fetch, .inr ⟨element, member, found⟩, named⟩

end Blueprint
