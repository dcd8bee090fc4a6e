import Blueprint.Proofs.Task.Whole
/-! What a task waits for and where. Each mark stands with the strands around it, innermost first: a
timer, a place in a queue, a collection whose elements are woken on their own, or a part that has to be
looked at without being woken. -/

namespace Blueprint

inductive Mark where
  | timer (id due : Nat)
  | seat (key : Key) (ticket : Nat)
  | fan (id : Nat)
  /-- a part that has not been looked at, or that is over -/
  | idle
  deriving DecidableEq

/-- The number by which a mark is known in the world. -/
def Mark.number? : Mark → Option Nat
  | timer id _ | seat _ id | fan id => some id
  | idle => none

abbrev Marks := Multiset (List Strand × Mark)

namespace Marks

def numbers (marks : Marks) : Multiset Nat :=
  marks.filterMap fun mark => mark.2.number?

variable {first second marks : Marks}

@[simp] theorem numbers_add (first second : Marks) : numbers (first + second) = numbers first + numbers second :=
  Multiset.filterMap_add _ _ _

theorem mem_numbers {number : Nat} : number ∈ numbers marks ↔ ∃ mark ∈ marks, mark.2.number? = some number := by
  simp [numbers, Multiset.mem_filterMap]

/-- In marks with different numbers, a number tells the mark. -/
theorem eq_of_number (distinct : (numbers marks).Nodup) {left right : List Strand × Mark} {number : Nat}
    (one : left ∈ marks) (two : right ∈ marks) (named : left.2.number? = some number)
    (same : right.2.number? = some number) : left = right := by
  by_contra different
  obtain ⟨rest, rfl⟩ := Multiset.exists_cons_of_mem one
  have later : right ∈ rest := (Multiset.mem_cons.mp two).resolve_left (Ne.symm different)
  have split : numbers (left ::ₘ rest) = number ::ₘ numbers rest := Multiset.filterMap_cons_some _ _ _ named
  rw [split, Multiset.nodup_cons] at distinct
  exact distinct.1 (mem_numbers.mpr ⟨right, later, same⟩)

end Marks

mutual

/-- The marks of a task among some strands. What is queued in a collection leaves none. -/
def Task.marks (chain : List Strand) : Task → Marks
  | .node _ _ | .shell _ _ | .variant _ _ _ | .field _ _ _ _ => {(chain, .idle)}
  | .delay due timer _ => {(chain, .timer timer due)}
  | .forever => 0
  | .waiting fetch ticket => {(chain, .seat fetch.key ticket)}
  | .inside _ task => task.marks chain
  | .join parts =>
    if (parts.mapM Part.value?).isSome then {(chain, .idle)} else marksOfParts chain parts
  | .fan ⟨id, _, _, _, running, _⟩ =>
    (chain, .fan id) ::ₘ
      ((if running.isEmpty then {(chain, .idle)} else 0) + marksOfElements id chain running)

def marksOfParts (chain : List Strand) : List (Part Task) → Marks
  | [] => 0
  | .done _ :: rest => marksOfParts chain rest
  | .running task :: rest => task.marks chain + marksOfParts chain rest

def marksOfElements (id : Nat) (chain : List Strand) : List (Nat × Task) → Marks
  | [] => 0
  | (position, task) :: rest => task.marks (.element id position :: chain) + marksOfElements id chain rest

end

section Lists

variable (chain : List Strand)

@[simp] theorem marksOfParts_nil : marksOfParts chain [] = 0 := by simp [marksOfParts]

@[simp] theorem marksOfParts_done (value : Value) (rest : List (Part Task)) :
    marksOfParts chain (.done value :: rest) = marksOfParts chain rest := by simp [marksOfParts]

@[simp] theorem marksOfParts_running (task : Task) (rest : List (Part Task)) :
    marksOfParts chain (.running task :: rest) = task.marks chain + marksOfParts chain rest := by
  simp [marksOfParts]

@[simp] theorem marksOfParts_append (first second : List (Part Task)) :
    marksOfParts chain (first ++ second) = marksOfParts chain first + marksOfParts chain second := by
  induction first with
  | nil => simp
  | cons part rest ih => cases part <;> simp [ih, add_assoc]

@[simp] theorem marksOfParts_done_all (values : List Value) :
    marksOfParts chain (values.map .done) = 0 := by
  induction values with
  | nil => simp
  | cons value rest ih => simp [ih]

theorem mem_marksOfParts {chain : List Strand} {parts : List (Part Task)} {mark : List Strand × Mark} :
    mark ∈ marksOfParts chain parts ↔ ∃ task, .running task ∈ parts ∧ mark ∈ task.marks chain := by
  induction parts with
  | nil => simp
  | cons part rest ih => cases part <;> simp [ih, or_and_right, exists_or]

@[simp] theorem marksOfElements_nil (id : Nat) : marksOfElements id chain [] = 0 := by
  simp [marksOfElements]

@[simp] theorem marksOfElements_cons (id : Nat) (element : Nat × Task) (rest : List (Nat × Task)) :
    marksOfElements id chain (element :: rest) =
      element.2.marks (.element id element.1 :: chain) + marksOfElements id chain rest := by
  simp [marksOfElements]

theorem marksOfElements_eq_sum (id : Nat) (elements : List (Nat × Task)) :
    marksOfElements id chain elements =
      (elements.map fun element => element.2.marks (.element id element.1 :: chain)).sum := by
  induction elements with
  | nil => simp
  | cons element rest ih => simp [ih]

theorem marksOfElements_append (id : Nat) (first second : List (Nat × Task)) :
    marksOfElements id chain (first ++ second) =
      marksOfElements id chain first + marksOfElements id chain second := by
  simp [marksOfElements_eq_sum]

theorem marksOfElements_perm (id : Nat) {first second : List (Nat × Task)} (same : first.Perm second) :
    marksOfElements id chain first = marksOfElements id chain second := by
  rw [marksOfElements_eq_sum, marksOfElements_eq_sum]
  exact (same.map _).sum_eq

theorem mem_marksOfElements {chain : List Strand} {id : Nat} {elements : List (Nat × Task)}
    {mark : List Strand × Mark} :
    mark ∈ marksOfElements id chain elements ↔
      ∃ element ∈ elements, mark ∈ element.2.marks (.element id element.1 :: chain) := by
  induction elements with
  | nil => simp
  | cons element rest ih => simp [ih]

end Lists

namespace Task

variable (chain : List Strand)

@[simp] theorem marks_node (node : Node) (scope : Scope) :
    (Task.node node scope).marks chain = {(chain, .idle)} := rfl

@[simp] theorem marks_shell (shell : Shell) (scope : Scope) :
    (Task.shell shell scope).marks chain = {(chain, .idle)} := rfl

@[simp] theorem marks_variant (tag : String) (shell : Shell) (scope : Scope) :
    (Task.variant tag shell scope).marks chain = {(chain, .idle)} := rfl

@[simp] theorem marks_field (entity name : String) (slot : Slot) (scope : Scope) :
    (Task.field entity name slot scope).marks chain = {(chain, .idle)} := rfl

@[simp] theorem marks_delay (due timer : Nat) (next : Task) :
    (Task.delay due timer next).marks chain = {(chain, .timer timer due)} := rfl

@[simp] theorem marks_forever : Task.forever.marks chain = 0 := rfl

@[simp] theorem marks_waiting (fetch : Fetch) (ticket : Nat) :
    (Task.waiting fetch ticket).marks chain = {(chain, .seat fetch.key ticket)} := rfl

@[simp] theorem marks_inside (frame : Frame) (task : Task) :
    (Task.inside frame task).marks chain = task.marks chain := rfl

theorem marks_join (parts : List (Part Task)) : (Task.join parts).marks chain =
    if (parts.mapM Part.value?).isSome then {(chain, .idle)} else marksOfParts chain parts := rfl

theorem marks_fan (fan : Fan Task) : (Task.fan fan).marks chain =
    (chain, .fan fan.id) ::ₘ ((if fan.running.isEmpty then {(chain, .idle)} else 0) +
      marksOfElements fan.id chain fan.running) := rfl

end Task

/-- Parts one of which runs are not all done. -/
theorem not_over_of_running {parts : List (Part Task)} (task : Task) (member : .running task ∈ parts) :
    parts.mapM Part.value? = none := by
  rw [mapM_eq_collect, collect_eq_none_iff]
  exact List.mem_map.mpr ⟨_, member, rfl⟩

theorem running_of_not_over {parts : List (Part Task)} (open' : parts.mapM Part.value? = none) :
    ∃ task, .running task ∈ parts := by
  rw [mapM_eq_collect, collect_eq_none_iff] at open'
  obtain ⟨part, member, same⟩ := List.mem_map.mp open'
  cases part with
  | done value => cases same
  | running task => exact ⟨task, member⟩

theorem Task.marks_join_open (chain : List Strand) {parts : List (Part Task)}
    (open' : parts.mapM Part.value? = none) :
    (Task.join parts).marks chain = marksOfParts chain parts := by
  simp [Task.marks_join, open']

/-- What has not started is marked as such at its own place. -/
theorem Task.Unstarted.marks {task : Task} (unstarted : task.Unstarted) {chain : List Strand}
    {mark : List Strand × Mark} (member : mark ∈ task.marks chain) : mark = (chain, .idle) := by
  unfold Task.Unstarted at unstarted
  split at unstarted
  next => simpa using member
  next parts =>
    rw [Task.marks_join] at member
    split at member
    · simpa using member
    · obtain ⟨task, listed, inner⟩ := mem_marksOfParts.mp member
      obtain ⟨node, scope, same⟩ := unstarted _ listed
      cases same
      simpa using inner
  next => exact absurd unstarted id

/-- Every mark of a task lies among the strands around the task. -/
theorem Task.suffix_of_mark {task : Task} {chain : List Strand} {mark : List Strand × Mark}
    (member : mark ∈ task.marks chain) : chain <:+ mark.1 := by
  induction task using Task.induction generalizing chain with
  | node | shell | variant | field | delay | waiting =>
    rw [Multiset.mem_singleton.mp member]
  | forever => simp at member
  | inside frame task ih => exact ih (by simpa using member)
  | join parts ih =>
    rw [Task.marks_join] at member
    split at member
    · rw [Multiset.mem_singleton.mp member]
    · obtain ⟨task, listed, inner⟩ := mem_marksOfParts.mp member
      exact ih task listed inner
  | fan fan _ running =>
    rw [Task.marks_fan, Multiset.mem_cons, Multiset.mem_add] at member
    rcases member with rfl | own | inner
    · exact List.suffix_refl _
    · split at own
      · rw [Multiset.mem_singleton.mp own]
      · simp at own
    · obtain ⟨element, listed, inner⟩ := mem_marksOfElements.mp inner
      exact (List.suffix_cons _ _).trans (running element listed inner)

/-- The marks of an element do not lie directly among the strands around the collection. -/
theorem ne_of_element_mark {id : Nat} {chain : List Strand} {elements : List (Nat × Task)}
    {mark : List Strand × Mark} (member : mark ∈ marksOfElements id chain elements) : mark.1 ≠ chain := by
  obtain ⟨element, _, inner⟩ := mem_marksOfElements.mp member
  have longer := (Task.suffix_of_mark inner).length_le
  rintro same
  rw [same, List.length_cons] at longer
  omega

/-- The collection around a place, if any, is among these marks. -/
def Marks.Rooted (marks : Marks) : List Strand → Prop
  | [] => False
  | .operation _ :: outer => outer = []
  | .element id _ :: outer => (outer, .fan id) ∈ marks

/-- Among these marks are those of all collections that others of them lie in. -/
def Marks.Headed (marks : Marks) : Prop :=
  ∀ mark ∈ marks, marks.Rooted mark.1

theorem Marks.Rooted.mono {fewer more : Marks} (among : ∀ mark ∈ fewer, mark ∈ more) {chain : List Strand}
    (rooted : fewer.Rooted chain) : more.Rooted chain := by
  unfold Rooted at *
  split at rooted
  · exact rooted
  · exact rooted
  · exact among _ rooted

/-- Where a mark lies in an element of a collection, the collection is marked too. -/
theorem Task.rooted_of_mark {task : Task} {chain : List Strand} {mark : List Strand × Mark}
    (member : mark ∈ task.marks chain) : mark.1 = chain ∨ (task.marks chain).Rooted mark.1 := by
  induction task using Task.induction generalizing chain with
  | node | shell | variant | field | delay | waiting =>
    rw [Multiset.mem_singleton.mp member]
    exact .inl rfl
  | forever => simp at member
  | inside frame task ih => exact ih (by simpa using member)
  | join parts ih =>
    rw [Task.marks_join] at member ⊢
    split at member
    · rw [Multiset.mem_singleton.mp member]
      exact .inl rfl
    next open' =>
      rw [if_neg open']
      obtain ⟨task, listed, inner⟩ := mem_marksOfParts.mp member
      exact (ih task listed inner).imp_right fun rooted =>
        rooted.mono fun other found => mem_marksOfParts.mpr ⟨task, listed, found⟩
  | fan fan _ running =>
    rw [Task.marks_fan, Multiset.mem_cons, Multiset.mem_add] at member
    rcases member with rfl | own | inner
    · exact .inl rfl
    · split at own
      · rw [Multiset.mem_singleton.mp own]
        exact .inl rfl
      · simp at own
    · obtain ⟨element, listed, inner⟩ := mem_marksOfElements.mp inner
      right
      rcases running element listed inner with same | rooted
      · rw [same, Marks.Rooted, Task.marks_fan]
        exact Multiset.mem_cons_self _ _
      · refine rooted.mono fun other found => ?_
        rw [Task.marks_fan]
        exact Multiset.mem_cons_of_mem (Multiset.mem_add.mpr
          (.inr (mem_marksOfElements.mpr ⟨element, listed, found⟩)))

theorem Marks.Headed.add_task {rest : Marks} {chain : List Strand} (headed : rest.Headed)
    (rooted : rest.Rooted chain) (task : Task) : (task.marks chain + rest).Headed := by
  intro mark member
  have later : ∀ other ∈ rest, other ∈ task.marks chain + rest := fun other found =>
    Multiset.mem_add.mpr (.inr found)
  rcases Multiset.mem_add.mp member with own | other
  · rcases Task.rooted_of_mark own with same | inner
    · exact same ▸ rooted.mono later
    · exact inner.mono fun other found => Multiset.mem_add.mpr (.inl found)
  · exact (headed mark other).mono later

/-- A collection that a chain of marks runs through is marked. -/
theorem Marks.Headed.fan_mem {marks : Marks} (headed : marks.Headed) {chain : List Strand}
    (rooted : marks.Rooted chain) {id position : Nat} {outer : List Strand}
    (inside : (.element id position :: outer) <:+ chain) : (outer, .fan id) ∈ marks := by
  induction chain with
  | nil => exact rooted.elim
  | cons strand rest ih =>
    rcases List.suffix_cons_iff.mp inside with same | later
    · rw [← same] at rooted
      exact rooted
    · cases strand with
      | operation number =>
        rw [Rooted] at rooted
        rw [rooted] at later
        simp at later
      | element other place => exact ih (headed _ rooted) later

/-- The marks that lie on strands of their own, further in than a chain. -/
def Marks.beyond (marks : Marks) (chain : List Strand) : Marks :=
  marks.filter fun mark => mark.1 ≠ chain

@[simp] theorem Marks.beyond_add (first second : Marks) (chain : List Strand) :
    (first + second).beyond chain = first.beyond chain + second.beyond chain :=
  Multiset.filter_add _ _ _

theorem Marks.beyond_le (marks : Marks) (chain : List Strand) : marks.beyond chain ≤ marks :=
  Multiset.filter_le _ _

@[simp] theorem Marks.beyond_self (chain : List Strand) (mark : Mark) :
    Marks.beyond {(chain, mark)} chain = 0 := by
  simp [Marks.beyond]

theorem beyond_elements (id : Nat) (chain : List Strand) (elements : List (Nat × Task)) :
    (marksOfElements id chain elements).beyond chain = marksOfElements id chain elements :=
  Multiset.filter_eq_self.mpr fun _ member => ne_of_element_mark member

end Blueprint
