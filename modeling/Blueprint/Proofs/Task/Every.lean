import Blueprint.Proofs.Task.Whole
/-! What holds of everything that a task is about to do. A condition is put on the simple tasks, those in
which no other task stands, each with the entry on whose behalf it is done. -/

namespace Blueprint

/-- A condition on simple tasks, and on those on whose behalf they are done. -/
abbrev Demand := Option Key → Task → Prop

/-- The fields that are to come in a frame meet a condition. -/
def Frame.Every (demand : Demand) (owner : Option Key) : Frame → Prop
  | .stage record => ∀ field ∈ record.later.flatten,
      demand owner (.field record.type.entityName field.1 field.2 record.scope)
  | .present | .tagged _ | .folding _ | .fetching _ => True

mutual

/-- All that a task is about to do meets a condition. -/
def Task.Every (demand : Demand) (owner : Option Key) : Task → Prop
  | .node node scope => demand owner (.node node scope)
  | .shell shell scope => demand owner (.shell shell scope)
  | .variant tag shell scope => demand owner (.variant tag shell scope)
  | .field entity name slot scope => demand owner (.field entity name slot scope)
  | .delay _ _ next => next.Every demand owner
  | .forever => demand owner .forever
  | .waiting fetch ticket => demand owner (.waiting fetch ticket)
  | .inside frame task => frame.Every demand owner ∧ task.Every demand (frame.owner owner)
  | .join parts => EveryPart demand owner parts
  | .fan ⟨_, _, _, queued, running, _⟩ => EveryElement demand owner queued ∧ EveryElement demand owner running

def EveryPart (demand : Demand) (owner : Option Key) : List (Part Task) → Prop
  | [] => True
  | .done _ :: rest => EveryPart demand owner rest
  | .running task :: rest => task.Every demand owner ∧ EveryPart demand owner rest

def EveryElement (demand : Demand) (owner : Option Key) : List (Nat × Task) → Prop
  | [] => True
  | (_, task) :: rest => task.Every demand owner ∧ EveryElement demand owner rest

end

section Lists

variable {demand : Demand} {owner : Option Key}

theorem everyPart_iff {parts : List (Part Task)} :
    EveryPart demand owner parts ↔ ∀ task, .running task ∈ parts → task.Every demand owner := by
  induction parts with
  | nil => simp [EveryPart]
  | cons part rest ih => cases part <;> simp [EveryPart, ih, or_imp, forall_and]

theorem everyElement_iff {elements : List (Nat × Task)} :
    EveryElement demand owner elements ↔ ∀ element ∈ elements, element.2.Every demand owner := by
  induction elements with
  | nil => simp [EveryElement]
  | cons element rest ih => simp [EveryElement, ih]

end Lists

namespace Task

variable {demand other : Demand} {owner : Option Key}

theorem every_join {parts : List (Part Task)} :
    (Task.join parts).Every demand owner ↔ ∀ task, .running task ∈ parts → task.Every demand owner :=
  everyPart_iff

theorem every_fan {fan : Fan Task} : (Task.fan fan).Every demand owner ↔
    ∀ element ∈ fan.queued ++ fan.running, element.2.Every demand owner := by
  cases fan
  simp only [Task.Every, everyElement_iff, List.forall_mem_append]

/-- What meets a condition meets every weaker one. -/
theorem Every.mono (weaker : ∀ owner task, demand owner task → other owner task) {task : Task}
    (every : task.Every demand owner) : task.Every other owner := by
  induction task using Task.induction generalizing owner with
  | node | shell | variant | field | forever | waiting => exact weaker _ _ every
  | delay due timer next ih => exact ih every
  | inside frame task ih =>
    refine ⟨?_, ih every.2⟩
    cases frame with
    | stage record => exact fun field member => weaker _ _ (every.1 field member)
    | _ => trivial
  | join parts ih => exact every_join.mpr fun task member => ih task member (every_join.mp every task member)
  | fan fan queued running =>
    refine every_fan.mpr fun element member => ?_
    have known := every_fan.mp every element member
    rcases List.mem_append.mp member with waiting | started
    · exact queued element waiting known
    · exact running element started known

end Task

namespace Layer

variable {demand : Demand}

def Every (demand : Demand) (outer : Option Key) : Layer → Prop
  | inside frame => frame.Every demand outer
  | joining before after => EveryPart demand outer (before ++ after)
  | fanning fan _ _ => ∀ element ∈ fan.queued ++ fan.running, element.2.Every demand outer

theorem every_around (layer : Layer) (outer : Option Key) (task : Task) :
    (layer.around task).Every demand outer ↔ task.Every demand (layer.owner outer) ∧ layer.Every demand outer := by
  cases layer with
  | inside frame => exact and_comm
  | joining before after =>
    simp only [around, Every, owner, Task.every_join, everyPart_iff, List.mem_append, List.mem_cons,
      Part.running.injEq]
    constructor
    · exact fun each => ⟨each task (.inr (.inl rfl)), fun other member =>
        each other (member.imp_right .inr)⟩
    · rintro ⟨own, each⟩ other (before | rfl | after)
      · exact each other (.inl before)
      · exact own
      · exact each other (.inr after)
  | fanning fan position tally =>
    simp only [around, Every, owner, Task.every_fan, List.mem_append, List.mem_cons]
    constructor
    · exact fun each => ⟨each (position, task) (.inr (.inl rfl)), fun other member =>
        each other (member.imp_right .inr)⟩
    · rintro ⟨own, each⟩ other (queued | rfl | running)
      · exact each other (.inl queued)
      · exact own
      · exact each other (.inr running)

end Layer

def EveryAround (demand : Demand) : List Layer → Prop
  | [] => True
  | layer :: outer => layer.Every demand (ownerWithin outer) ∧ EveryAround demand outer

theorem every_surround {demand : Demand} {layers : List Layer} {task : Task} :
    (surround layers task).Every demand none ↔
      task.Every demand (ownerWithin layers) ∧ EveryAround demand layers := by
  induction layers generalizing task with
  | nil => simp [surround, ownerWithin, EveryAround]
  | cons layer outer ih => rw [surround, ih, layer.every_around, ownerWithin, EveryAround, and_assoc]

end Blueprint
