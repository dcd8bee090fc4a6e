import Blueprint.Proofs.System.Orderly
/-! A cycle is reported only where there is one. The chain of a reported cycle is one of references between
deferred entries that can be reached from where the operation began, and none of them is complete. -/

namespace Blueprint.System

variable {system : System}

/-- An entry on a cycle of references is deferred and never complete. -/
theorem Orderly.open_of_cycle (orderly : system.Orderly) {keys : List Key}
    (cycle : system.registered.Cycle keys) {key : Key} (member : key ∈ keys) :
    ∃ payload entry, system.registered.origin? key = some (.deferred payload) ∧
      system.world.registry.entry? key = some entry ∧ entry.value = none := by
  obtain ⟨node, found⟩ := cycle.node? member
  obtain ⟨origin, registered⟩ : ∃ origin, system.registered.origin? key = some origin := by
    rw [← Option.isSome_iff_exists, Option.isSome_iff_ne_none]
    intro absent
    simp [Contents.node?, absent] at found
  obtain ⟨entry, present⟩ := orderly.ledger.entry_of_placed registered
  cases orderly.ledger.fits key entry present with
  | complete known => rw [cycle.valueOf member] at known; cases known
  | deferred registered => exact ⟨_, _, registered, present, rfl⟩

/-- Whenever an operation has returned a cycle, the chain stands for keys that lead from the first back to
it with no other met twice. Each of them is a deferred entry that is not complete, has in its own tree a
reference to the next, and can be reached from the tree of the call by following references. The path
ends in the tree of the first. -/
theorem Reachable.reported_cycle (reachable : system.Reachable) {id : Nat} {call : Call}
    {chain : List String} {path : Path}
    (returned : system.processes[id]? = some ⟨call, .returned (.error (.referenceCycle chain path))⟩) :
    ∃ keys : List Key, chain = keys.map Key.text ∧ 2 ≤ keys.length ∧ keys.head? = keys.getLast? ∧
      keys.tail.Nodup ∧
      (∀ key ∈ keys, ∃ payload entry, system.registered.origin? key = some (.deferred payload) ∧
        system.world.registry.entry? key = some entry ∧ entry.value = none) ∧
      keys.IsChain system.registered.Refers ∧ path.lastReference? = chain.head? ∧
      ∀ key ∈ keys, system.registered.Reaches call.references key := by
  have orderly := reachable.orderly
  have justified := (orderly.each _ (List.mem_of_getElem? returned)).justified _ rfl
  obtain ⟨keys, cycle, rfl, last, reached⟩ := justified
  exact ⟨keys, rfl, cycle.long, cycle.closed, cycle.simple,
    fun key member => orderly.open_of_cycle cycle member, cycle.linked, last, reached⟩

/-- A deferred text that refers to itself, and a resolution of it. -/
def circular : List Action :=
  [.register ⟨EntityType.text.typeName, "echo"⟩
      (.deferred (.node EntityType.text.typeName (.reference .text "echo"))),
    .start (.resolve .default (.reference .text "echo")), .step 0, .step 0, .step 0, .step 0]

theorem reported_cycle_circular : (following circular).Reachable ∧
    (following circular).processes[0]? = some ⟨.resolve .default (.reference .text "echo"),
      .returned (.error (.referenceCycle ["String(\"echo\")", "String(\"echo\")"]
        ⟨[.reference "String(\"echo\")"]⟩))⟩ ∧
    ∃ keys : List Key, ["String(\"echo\")", "String(\"echo\")"] = keys.map Key.text ∧
      keys.IsChain (following circular).registered.Refers := by
  have reachable : (following circular).Reachable := run_of_perform circular (fun _ _ => trivial) rfl
  have returned : (following circular).processes[0]? = some ⟨.resolve .default (.reference .text "echo"),
      .returned (.error (.referenceCycle ["String(\"echo\")", "String(\"echo\")"]
        ⟨[.reference "String(\"echo\")"]⟩))⟩ := by
    rfl
  obtain ⟨keys, same, _, _, _, _, linked, _, _⟩ := reachable.reported_cycle returned
  exact ⟨reachable, returned, keys, same, linked⟩

end Blueprint.System
