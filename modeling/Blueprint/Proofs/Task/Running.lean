import Blueprint.Proofs.Machine.Places
import Blueprint.Proofs.Watched
/-! The elements that run somewhere in a task, each by the strand it runs on. A strand that has been woken is looked
for among them, so it should be one of them. -/

namespace Blueprint

/-- A strand on which an element of some collection of a task runs. -/
inductive Task.Runs : Task → Strand → Prop where
  | here {fan : Fan Task} {element : Nat × Task} (member : element ∈ fan.running) :
      Runs (.fan fan) (.element fan.id element.1)
  | element {fan : Fan Task} {element : Nat × Task} {strand : Strand} (member : element ∈ fan.running)
      (runs : Runs element.2 strand) : Runs (.fan fan) strand
  | inside {frame : Frame} {task : Task} {strand : Strand} (runs : Runs task strand) : Runs (.inside frame task) strand
  | join {parts : List (Part Task)} {task : Task} {strand : Strand} (member : .running task ∈ parts)
      (runs : Runs task strand) : Runs (.join parts) strand

/-- The strands of a layer on which elements run, that of the element inside among them. -/
def Layer.Runs : Layer → Strand → Prop
  | inside _, _ => False
  | joining before after, strand => (Task.join (before ++ after)).Runs strand
  | fanning fan position _, strand => strand = .element fan.id position ∨ (Task.fan fan).Runs strand

namespace Task

variable {task : Task} {strand : Strand}

theorem runs_inside {frame : Frame} : (Task.inside frame task).Runs strand ↔ task.Runs strand :=
  ⟨fun runs => by
    cases runs with
    | inside runs => exact runs, .inside⟩

theorem runs_join {parts : List (Part Task)} :
    (Task.join parts).Runs strand ↔ ∃ task, .running task ∈ parts ∧ task.Runs strand :=
  ⟨fun runs => by
    cases runs with
    | join member runs => exact ⟨_, member, runs⟩, fun ⟨_, member, runs⟩ => .join member runs⟩

theorem runs_fan {fan : Fan Task} : (Task.fan fan).Runs strand ↔
    ∃ element ∈ fan.running, strand = .element fan.id element.1 ∨ element.2.Runs strand :=
  ⟨fun runs => by
    cases runs with
    | here member => exact ⟨_, member, .inl rfl⟩
    | element member runs => exact ⟨_, member, .inr runs⟩, by
    rintro ⟨element, member, rfl | runs⟩
    · exact .here member
    · exact .element member runs⟩

/-- Where an element runs its collection is marked. -/
theorem Runs.number {id position : Nat} (runs : task.Runs (.element id position)) (chain : List Strand) :
    id ∈ (task.marks chain).numbers := by
  generalize same : Strand.element id position = strand at runs
  induction runs generalizing chain with
  | @here fan element member =>
    cases same
    rw [marks_fan]
    exact Marks.number_of_fan (Multiset.mem_cons_self _ _)
  | @element fan element strand member _ ih =>
    obtain ⟨mark, listed, named⟩ := Marks.mem_numbers.mp (ih (.element fan.id element.1 :: chain) same)
    refine Marks.mem_numbers.mpr ⟨mark, ?_, named⟩
    rw [marks_fan]
    exact Multiset.mem_cons_of_mem (Multiset.mem_add.mpr (.inr (mem_marksOfElements.mpr ⟨element, member, listed⟩)))
  | inside _ ih => exact ih chain same
  | @join parts task strand member _ ih =>
    rw [marks_join_open chain (not_over_of_running task member)]
    obtain ⟨mark, listed, named⟩ := Marks.mem_numbers.mp (ih chain same)
    exact Marks.mem_numbers.mpr ⟨mark, mem_marksOfParts.mpr ⟨task, member, listed⟩, named⟩

/-- The strands around a mark lie around the task, or elements run on them. -/
theorem runs_of_mark {chain : List Strand} {mark : List Strand × Mark} (member : mark ∈ task.marks chain)
    (inside : strand ∈ mark.1) : strand ∈ chain ∨ task.Runs strand := by
  induction task using Task.induction generalizing chain with
  | node | shell | variant | field | delay | waiting =>
    rw [Multiset.mem_singleton.mp member] at inside
    exact .inl inside
  | forever => simp at member
  | inside frame task ih => exact (ih (by simpa using member)).imp_right .inside
  | join parts ih =>
    rw [marks_join] at member
    split at member
    · rw [Multiset.mem_singleton.mp member] at inside
      exact .inl inside
    · obtain ⟨task, listed, inner⟩ := mem_marksOfParts.mp member
      exact (ih task listed inner).imp_right (.join listed)
  | fan fan _ running =>
    rw [marks_fan, Multiset.mem_cons, Multiset.mem_add] at member
    rcases member with rfl | own | inner
    · exact .inl inside
    · split at own
      · rw [Multiset.mem_singleton.mp own] at inside
        exact .inl inside
      · simp at own
    · obtain ⟨element, listed, found⟩ := mem_marksOfElements.mp inner
      rcases running element listed found with around | runs
      · rcases List.mem_cons.mp around with rfl | outer
        · exact .inr (.here listed)
        · exact .inl outer
      · exact .inr (.element listed runs)

end Task

namespace Layer

variable {layer : Layer} {task : Task} {strand : Strand}

theorem runs_around : (layer.around task).Runs strand ↔ task.Runs strand ∨ layer.Runs strand := by
  cases layer with
  | inside frame => exact Task.runs_inside.trans (or_iff_left id).symm
  | joining before after =>
    simp only [around, Runs, Task.runs_join, List.mem_append, List.mem_cons, Part.running.injEq]
    constructor
    · rintro ⟨other, earlier | rfl | later, runs⟩
      · exact .inr ⟨other, .inl earlier, runs⟩
      · exact .inl runs
      · exact .inr ⟨other, .inr later, runs⟩
    · rintro (runs | ⟨other, member, runs⟩)
      · exact ⟨task, .inr (.inl rfl), runs⟩
      · exact ⟨other, member.imp_right .inr, runs⟩
  | fanning fan position tally =>
    simp only [around, Runs, Task.runs_fan, List.exists_mem_cons_iff]
    exact or_assoc.trans or_left_comm

/-- Where an element of a layer runs its collection is marked. -/
theorem Runs.number {id position : Nat} (runs : layer.Runs (.element id position)) (chain : List Strand) :
    id ∈ (layer.marks chain).numbers := by
  cases layer with
  | inside frame => exact runs.elim
  | joining before after =>
    rw [marks, ← marksOfParts_append]
    obtain ⟨task, member, inner⟩ := Task.runs_join.mp runs
    obtain ⟨mark, listed, named⟩ := Marks.mem_numbers.mp (inner.number chain)
    exact Marks.mem_numbers.mpr ⟨mark, mem_marksOfParts.mpr ⟨task, member, listed⟩, named⟩
  | fanning fan position tally =>
    rw [marks, Marks.numbers_cons_fan]
    rcases runs with same | runs
    · cases same
      exact Multiset.mem_cons_self _ _
    · have known := runs.number chain
      rw [Task.marks_fan, Marks.numbers_cons_fan, Marks.numbers_add] at known
      rcases Multiset.mem_cons.mp known with rfl | further
      · exact Multiset.mem_cons_self _ _
      · refine Multiset.mem_cons_of_mem ((Multiset.mem_add.mp further).resolve_left fun idle => ?_)
        split at idle <;> simp [Marks.numbers, Mark.number?] at idle

end Layer

/-- A strand of layers on which an element runs. -/
def RunsAround (layers : List Layer) (strand : Strand) : Prop :=
  ∃ layer ∈ layers, layer.Runs strand

theorem runs_surround {layers : List Layer} {task : Task} {strand : Strand} :
    (surround layers task).Runs strand ↔ task.Runs strand ∨ RunsAround layers strand := by
  induction layers generalizing task with
  | nil => simp [surround, RunsAround]
  | cons layer outer ih =>
    rw [surround, ih, Layer.runs_around, RunsAround, RunsAround, List.exists_mem_cons_iff, or_assoc]

/-- Elements run on the strands around a place. -/
theorem runsAround_of_strands {layers : List Layer} {operation id position : Nat}
    (inside : .element id position ∈ Layer.strands layers operation) : RunsAround layers (.element id position) := by
  simp only [Layer.strands, List.mem_append, List.mem_filterMap, List.mem_singleton, reduceCtorEq, or_false] at inside
  obtain ⟨layer, member, same⟩ := inside
  refine ⟨layer, member, ?_⟩
  cases layer with
  | inside | joining => cases same
  | fanning fan place tally =>
    cases same
    exact .inl rfl

/-- Where an element of layers runs its collection is marked. -/
theorem number_of_runsAround {layers : List Layer} {id position : Nat} (runs : RunsAround layers (.element id position))
    (operation : Nat) : id ∈ (marksAround operation layers).numbers := by
  induction layers with
  | nil => exact absurd runs (by simp [RunsAround])
  | cons layer outer ih =>
    rw [marksAround, Marks.numbers_add, Multiset.mem_add]
    rcases (List.exists_mem_cons_iff _ _ _).mp runs with own | further
    · exact .inl (own.number _)
    · exact .inr (ih further)

end Blueprint
