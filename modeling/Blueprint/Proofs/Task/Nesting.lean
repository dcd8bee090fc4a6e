import Blueprint.Proofs.Task.Stakes
/-! How deep initializations lie in one another in a task. Each of them is a turn that is held on behalf of the
one around it. -/

namespace Blueprint

/-- How many initializations a frame adds to those around a task. -/
def Frame.nesting : Frame → Nat
  | fetching _ => 1
  | present | tagged _ | folding _ | stage _ => 0

mutual

/-- The greatest number of initializations that lie in one another. -/
def Task.nesting : Task → Nat
  | .node _ _ | .shell _ _ | .variant _ _ _ | .field _ _ _ _ | .forever | .waiting _ _ => 0
  | .delay _ _ next => next.nesting
  | .inside frame task => frame.nesting + task.nesting
  | .join parts => nestingOfParts parts
  | .fan ⟨_, _, _, queued, running, _⟩ => max (nestingOfElements queued) (nestingOfElements running)

def nestingOfParts : List (Part Task) → Nat
  | [] => 0
  | .done _ :: rest => nestingOfParts rest
  | .running task :: rest => max task.nesting (nestingOfParts rest)

def nestingOfElements : List (Nat × Task) → Nat
  | [] => 0
  | (_, task) :: rest => max task.nesting (nestingOfElements rest)

end

theorem nesting_of_parts (parts : List (Part Task)) :
    nestingOfParts parts = 0 ∨ ∃ task, .running task ∈ parts ∧ nestingOfParts parts = task.nesting := by
  induction parts with
  | nil => exact .inl (by rw [nestingOfParts])
  | cons part rest ih =>
    have later : nestingOfParts rest = 0 ∨
        ∃ task, .running task ∈ part :: rest ∧ nestingOfParts rest = task.nesting :=
      ih.imp_right fun ⟨task, member, same⟩ => ⟨task, List.mem_cons_of_mem _ member, same⟩
    cases part with
    | done value => rwa [nestingOfParts]
    | running task =>
      rw [nestingOfParts]
      rcases max_choice task.nesting (nestingOfParts rest) with same | same
      · exact .inr ⟨task, List.mem_cons_self, same⟩
      · rwa [same]

theorem nesting_of_elements (elements : List (Nat × Task)) :
    nestingOfElements elements = 0 ∨ ∃ element ∈ elements, nestingOfElements elements = element.2.nesting := by
  induction elements with
  | nil => exact .inl (by rw [nestingOfElements])
  | cons element rest ih =>
    have later : nestingOfElements rest = 0 ∨
        ∃ other ∈ element :: rest, nestingOfElements rest = other.2.nesting :=
      ih.imp_right fun ⟨other, member, same⟩ => ⟨other, List.mem_cons_of_mem _ member, same⟩
    rw [nestingOfElements]
    rcases max_choice element.2.nesting (nestingOfElements rest) with same | same
    · exact .inr ⟨element, List.mem_cons_self, same⟩
    · rwa [same]

theorem Task.nesting_fan (fan : Fan Task) :
    (Task.fan fan).nesting = max (nestingOfElements fan.queued) (nestingOfElements fan.running) := by
  cases fan
  rw [Task.nesting]

namespace Stakes

/-- Turns on some keys, the first on behalf of an owner and each of the others on behalf of the one before. -/
def Nests (stakes : Stakes) : Option Key → List Key → Prop
  | _, [] => True
  | owner, key :: rest => (∃ fetch, (owner, .turn fetch) ∈ stakes ∧ fetch.key = key) ∧ stakes.Nests (some key) rest

variable {stakes more : Stakes}

theorem Nests.mono (among : ∀ stake ∈ stakes, stake ∈ more) {owner : Option Key} {keys : List Key}
    (nests : stakes.Nests owner keys) : more.Nests owner keys := by
  induction keys generalizing owner with
  | nil => trivial
  | cons key rest ih =>
    obtain ⟨⟨fetch, member, same⟩, later⟩ := nests
    exact ⟨⟨fetch, among _ member, same⟩, ih later⟩

end Stakes

/-- The deepest initializations of a task, from without to within. -/
theorem Task.nested (task : Task) (owner : Option Key) :
    ∃ keys : List Key, keys.length = task.nesting ∧ (task.stakes owner).Nests owner keys := by
  induction task using Task.induction generalizing owner with
  | node | shell | variant | field | forever | waiting => exact ⟨[], rfl, trivial⟩
  | delay due timer next ih => exact ih owner
  | inside frame task ih =>
    obtain ⟨keys, long, nests⟩ := ih (frame.owner owner)
    rw [stakes_inside, Task.nesting]
    have within : (frame.stakes owner + task.stakes (frame.owner owner)).Nests (frame.owner owner) keys :=
      nests.mono fun stake member => Multiset.mem_add.mpr (.inr member)
    cases frame with
    | fetching fetch =>
      refine ⟨fetch.key :: keys, ?_, ⟨fetch, ?_, rfl⟩, within⟩
      · rw [List.length_cons, long, Frame.nesting, Nat.add_comm]
      · exact Multiset.mem_add.mpr (.inl (Multiset.mem_singleton_self _))
    | _ => exact ⟨keys, by rw [long, Frame.nesting, Nat.zero_add], within⟩
  | join parts ih =>
    rw [stakes_join, Task.nesting]
    rcases nesting_of_parts parts with none | ⟨task, listed, same⟩
    · exact ⟨[], none.symm, trivial⟩
    · obtain ⟨keys, long, nests⟩ := ih task listed owner
      exact ⟨keys, long.trans same.symm, nests.mono fun stake member =>
        mem_stakesOfParts.mpr ⟨task, listed, member⟩⟩
  | fan fan queued running =>
    rw [stakes_fan, nesting_fan]
    rcases max_choice (nestingOfElements fan.queued) (nestingOfElements fan.running) with most | most
    · rw [most]
      rcases nesting_of_elements fan.queued with none | ⟨element, listed, same⟩
      · exact ⟨[], none.symm, trivial⟩
      · obtain ⟨keys, long, nests⟩ := queued element listed owner
        exact ⟨keys, long.trans same.symm, nests.mono fun stake member =>
          Multiset.mem_add.mpr (.inl (mem_stakesOfElements.mpr ⟨element, listed, member⟩))⟩
    · rw [most]
      rcases nesting_of_elements fan.running with none | ⟨element, listed, same⟩
      · exact ⟨[], none.symm, trivial⟩
      · obtain ⟨keys, long, nests⟩ := running element listed owner
        exact ⟨keys, long.trans same.symm, nests.mono fun stake member =>
          Multiset.mem_add.mpr (.inr (mem_stakesOfElements.mpr ⟨element, listed, member⟩))⟩

end Blueprint
