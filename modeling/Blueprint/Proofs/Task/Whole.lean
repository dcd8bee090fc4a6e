import Blueprint.Proofs.Task.Meaning
/-! A machine is a task that is open at the place where it runs. The layers around that place can be
closed again, and what the whole task has at stake or will have as its value is told from the part
inside and the layers. -/

namespace Blueprint

namespace Layer

/-- The task that a layer makes of the one inside. -/
def around (task : Task) : Layer → Task
  | inside frame => .inside frame task
  | joining before after => .join (before ++ .running task :: after)
  | fanning fan position _ => .fan { fan with running := (position, task) :: fan.running }

/-- The entry on whose behalf a task inside a layer works. -/
def owner (outer : Option Key) : Layer → Option Key
  | inside frame => frame.owner outer
  | joining _ _ | fanning _ _ _ => outer

/-- The stakes of a layer without those of the task inside. -/
def stakes (outer : Option Key) : Layer → Stakes
  | inside frame => frame.stakes outer
  | joining before after => stakesOfParts outer before + stakesOfParts outer after
  | fanning fan _ _ => stakesOfElements outer fan.queued + stakesOfElements outer fan.running

theorem stakes_around (layer : Layer) (outer : Option Key) (task : Task) :
    (layer.around task).stakes outer = task.stakes (layer.owner outer) + layer.stakes outer := by
  cases layer with
  | inside frame => simp [around, owner, stakes, add_comm]
  | joining before after => simp [around, owner, stakes, add_left_comm]
  | fanning fan position tally => simp [around, owner, stakes, add_left_comm]

variable {lookup : Lookup} {meanings : Lookup → Prop} {before after : Task}

theorem value?_around_congr (layer : Layer) (same : after.value? lookup = before.value? lookup) :
    (layer.around after).value? lookup = (layer.around before).value? lookup := by
  cases layer with
  | inside frame => simp [around, same]
  | joining first last => simp [around, same]
  | fanning fan position tally =>
    simp [around, Task.elementValues, valuesOfElements_eq_map, same]

end Layer

theorem collect_below_forall₂ {α : Type} {first second : List (Option α)}
    (each : List.Forall₂ Below first second) : Below (collect first) (collect second) := by
  induction each with
  | nil => exact Below.refl _
  | cons below _ ih => exact below.bind fun value => ih.map _

theorem gathered_below {size : Nat} (before between : List (Nat × Option Value)) (position : Nat)
    {lower upper : Option Value} (below : Below lower upper) :
    Below (gathered size (before ++ (position, lower) :: between))
      (gathered size (before ++ (position, upper) :: between)) := by
  refine (collect_below (List.range size) fun place _ => ?_).map _
  rw [OrderedMap.get?_append, OrderedMap.get?_append, OrderedMap.get?_cons, OrderedMap.get?_cons]
  cases OrderedMap.get? before place with
  | some value => exact Below.refl _
  | none =>
    split
    · exact below
    · exact Below.refl _

theorem Frame.value?_below {lookup : Lookup} (frame : Frame) {lower upper : Option Value}
    (below : Below lower upper) : Below (frame.value? lookup lower) (frame.value? lookup upper) := by
  cases frame with
  | present | tagged | folding => exact below.map _
  | fetching fetch => exact below
  | stage record => exact below.bind fun value => Below.refl _

theorem Frame.value?_none {lookup : Lookup} (frame : Frame) : frame.value? lookup none = none := by
  cases frame <;> rfl

namespace Layer

variable {lookup : Lookup} {meanings : Lookup → Prop} {before after : Task}

theorem value?_around_below (layer : Layer)
    (below : Below (after.value? lookup) (before.value? lookup)) :
    Below ((layer.around after).value? lookup) ((layer.around before).value? lookup) := by
  cases layer with
  | inside frame => simpa [around] using frame.value?_below below
  | joining first last =>
    simp only [around, Task.value?_join, valuesOfParts_append, valuesOfParts_running]
    refine (collect_below_forall₂ ?_).map _
    have all : ∀ values : List (Option Value), List.Forall₂ Below values values := fun values =>
      List.forall₂_same.mpr fun value _ => Below.refl value
    exact List.rel_append (all _) (.cons below (all _))
  | fanning fan position tally =>
    simp only [around, Task.value?_fan, Task.elementValues, valuesOfElements_eq_map, List.map_cons,
      List.append_assoc, List.cons_append]
    exact gathered_below _ _ _ below

theorem sound_inner {layer : Layer} {task : Task} (whole : (layer.around task).Sound meanings) :
    task.Sound meanings := by
  cases layer with
  | inside frame => exact (Task.sound_inside frame task).mp whole |>.2
  | joining first last =>
    simp only [around, Task.sound_join, soundParts_append, soundParts_running] at whole
    exact whole.2.1
  | fanning fan position tally =>
    simp only [around, Task.sound_fan, soundElements_iff] at whole
    exact whole.2.2 (position, task) List.mem_cons_self

theorem sound_around {layer : Layer} (whole : (layer.around before).Sound meanings)
    (inner : after.Sound meanings)
    (below : ∀ lookup, meanings lookup → Below (after.value? lookup) (before.value? lookup)) :
    (layer.around after).Sound meanings := by
  cases layer with
  | inside frame =>
    simp only [around, Task.sound_inside] at whole ⊢
    exact ⟨fun fetch same lookup meant =>
      (below lookup meant).trans (whole.1 fetch same lookup meant), inner⟩
  | joining first last =>
    simp only [around, Task.sound_join, soundParts_append, soundParts_running] at whole ⊢
    exact ⟨whole.1, inner, whole.2.2⟩
  | fanning fan position tally =>
    simp only [around, Task.sound_fan, soundElements_iff, List.forall_mem_cons] at whole ⊢
    refine ⟨⟨whole.1.positive, ?_, whole.1.unstarted⟩, whole.2.1, inner, whole.2.2.2⟩
    simpa [Fan.positions] using whole.1.whole

theorem value?_around_none {layer : Layer} {task : Task} (whole : (layer.around task).Sound meanings)
    (absent : task.value? lookup = none) : (layer.around task).value? lookup = none := by
  cases layer with
  | inside frame => simp [around, absent, Frame.value?_none]
  | joining first last =>
    simp only [around, Task.value?_join, valuesOfParts_append, valuesOfParts_running, absent]
    rw [Option.map_eq_none_iff, collect_eq_none_iff]
    simp
  | fanning fan position tally =>
    simp only [around, Task.sound_fan] at whole
    simp only [around, Task.value?_fan]
    have listed : position ∈ ({ fan with running := (position, task) :: fan.running } : Fan Task).positions := by
      simp [Fan.positions]
    refine gathered_none (List.mem_range.mp (whole.1.whole.mem_iff.mp listed)) (OrderedMap.get?_of_mem ?_ ?_)
    · rw [Task.elementValues_keys]
      exact whole.1.distinct
    · simp [Task.elementValues, valuesOfElements_eq_map, absent]

end Layer

/-- How one task may go over into another: collections stay in order, no initialization comes to make a
value other than the one its key means, and the value stays the same where meanings are exact. -/
structure Task.Tracks (meanings exact : Lookup → Prop) (before after : Task) : Prop where
  sound : after.Sound meanings
  below : ∀ lookup, meanings lookup → Below (after.value? lookup) (before.value? lookup)
  same : ∀ lookup, exact lookup → after.value? lookup = before.value? lookup

theorem Task.Tracks.around {meanings exact : Lookup → Prop} {before after : Task} {layer : Layer}
    (whole : (layer.around before).Sound meanings) (inner : Task.Tracks meanings exact before after) :
    Task.Tracks meanings exact (layer.around before) (layer.around after) :=
  ⟨Layer.sound_around whole inner.sound inner.below,
    fun lookup meant => layer.value?_around_below (inner.below lookup meant),
    fun lookup meant => layer.value?_around_congr (inner.same lookup meant)⟩

/-- The second task is sound and has the same stakes and the same value as the first. -/
structure Task.Alike (meanings : Lookup → Prop) (first second : Task) : Prop where
  stakes : ∀ owner, second.stakes owner = first.stakes owner
  sound : second.Sound meanings
  value : ∀ lookup, second.value? lookup = first.value? lookup

namespace Task.Alike

variable {meanings : Lookup → Prop} {first second third : Task}

theorem refl {task : Task} (sound : task.Sound meanings) : task.Alike meanings task :=
  ⟨fun _ => rfl, sound, fun _ => rfl⟩

theorem trans (left : first.Alike meanings second) (right : second.Alike meanings third) :
    first.Alike meanings third :=
  ⟨fun owner => (right.stakes owner).trans (left.stakes owner), right.sound,
    fun lookup => (right.value lookup).trans (left.value lookup)⟩

theorem tracks (alike : first.Alike meanings second) (exact : Lookup → Prop) :
    Task.Tracks meanings exact first second :=
  ⟨alike.sound, fun lookup _ => Below.of_eq (alike.value lookup), fun lookup _ => alike.value lookup⟩

theorem around {layer : Layer} (whole : (layer.around first).Sound meanings)
    (alike : first.Alike meanings second) : (layer.around first).Alike meanings (layer.around second) :=
  ⟨fun owner => by rw [layer.stakes_around, layer.stakes_around, alike.stakes],
    Layer.sound_around whole alike.sound fun lookup _ => Below.of_eq (alike.value lookup),
    fun lookup => layer.value?_around_congr (alike.value lookup)⟩

end Task.Alike

/-- The task that layers make of the one in the middle. -/
def surround : List Layer → Task → Task
  | [], task => task
  | layer :: outer, task => surround outer (layer.around task)

/-- The entry on whose behalf the task in the middle of layers works. -/
def ownerWithin : List Layer → Option Key
  | [] => none
  | layer :: outer => layer.owner (ownerWithin outer)

/-- The stakes of layers without those of the task in the middle. -/
def stakesAround : List Layer → Stakes
  | [] => 0
  | layer :: outer => layer.stakes (ownerWithin outer) + stakesAround outer

theorem stakes_surround (layers : List Layer) (task : Task) :
    (surround layers task).stakes none = task.stakes (ownerWithin layers) + stakesAround layers := by
  induction layers generalizing task with
  | nil => simp [surround, ownerWithin, stakesAround]
  | cons layer outer ih =>
    rw [surround, ih, layer.stakes_around, ownerWithin, stakesAround, add_assoc]

theorem sound_of_surround {meanings : Lookup → Prop} {layers : List Layer} {task : Task}
    (whole : (surround layers task).Sound meanings) : task.Sound meanings := by
  induction layers generalizing task with
  | nil => exact whole
  | cons layer outer ih => exact Layer.sound_inner (ih whole)

theorem proper_of_surround {meanings : Lookup → Prop} {layers : List Layer} {fan : Fan Task}
    (whole : (surround layers (.fan fan)).Sound meanings) : fan.Proper :=
  ((Task.sound_fan fan).mp (sound_of_surround whole)).1

theorem Task.Tracks.surrounded {meanings exact : Lookup → Prop} {before after : Task}
    {layers : List Layer} (whole : (surround layers before).Sound meanings)
    (inner : Task.Tracks meanings exact before after) :
    Task.Tracks meanings exact (surround layers before) (surround layers after) := by
  induction layers generalizing before after with
  | nil => exact inner
  | cons layer outer ih => exact ih whole (inner.around (sound_of_surround whole))

theorem Task.Alike.surrounded {meanings : Lookup → Prop} {first second : Task} {layers : List Layer}
    (whole : (surround layers first).Sound meanings) (alike : first.Alike meanings second) :
    (surround layers first).Alike meanings (surround layers second) := by
  induction layers generalizing first second with
  | nil => exact alike
  | cons layer outer ih => exact ih whole (alike.around (sound_of_surround whole))

/-- What a machine that is about to do something is still to do at its place: a value that it brings is
as good as a literal, and after an error nothing comes any more. -/
def Control.task : Control → Task
  | .poll task | .rest task => task
  | .finish (.ok value) => .node (.literal value) (.root .default)
  | .finish (.error _) => .forever

/-- The task of a whole operation that is being looked at. -/
def Machine.whole (machine : Machine) : Task :=
  surround machine.layers machine.control.task

namespace Machine

variable (machine : Machine)

@[simp] theorem poll_whole (task : Task) : (machine.poll task).whole = surround machine.layers task :=
  rfl

@[simp] theorem pollWithin_whole (layer : Layer) (task : Task) :
    (machine.pollWithin layer task).whole = surround machine.layers (layer.around task) := rfl

@[simp] theorem rest_whole (task : Task) : (machine.rest task).whole = surround machine.layers task :=
  rfl

@[simp] theorem finish_ok_whole (value : Value) : (machine.finish (.ok value)).whole =
    surround machine.layers (.node (.literal value) (.root .default)) := rfl

@[simp] theorem poll_control (task : Task) : (machine.poll task).control = .poll task := rfl

@[simp] theorem pollWithin_control (layer : Layer) (task : Task) :
    (machine.pollWithin layer task).control = .poll task := rfl

@[simp] theorem rest_control (task : Task) : (machine.rest task).control = .rest task := rfl

@[simp] theorem finish_control (result : Except ResolveError Value) :
    (machine.finish result).control = .finish result := rfl

@[simp] theorem finish_error_whole (error : ResolveError) :
    (machine.finish (.error error)).whole = surround machine.layers .forever := rfl

end Machine

end Blueprint
