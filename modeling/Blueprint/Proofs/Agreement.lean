import Blueprint.Proofs.System.Orderly
/-! Concurrent resolution agrees with sequential evaluation. From any state that can be reached, while
nothing is registered, an operation that begins and returns before its time is over returns the value
that sequential evaluation gives to its call, and an error if there is none. -/

namespace Blueprint

namespace Call

variable {call : Call} {lookup : Lookup}

theorem start_meets (call : Call) (id : Nat) (world : World) (lookup : Lookup) :
    (Phase.looking (call.operation id world) (.start id (call.operation id world).task)).Meets lookup
      (call.evaluate lookup) :=
  call.operation_value id world lookup

end Call

namespace System

variable {before after first last : System} {action : Action}

/-- Every operation from some number on will come to the value of its call. -/
def Faithful (system : System) (from' : Nat) : Prop :=
  ∀ id process, from' ≤ id → system.processes[id]? = some process →
    process.phase.Meets (system.registered.valueOf []) (process.call.evaluate (system.registered.valueOf []))

/-- A quiet action keeps the values that operations will come to. -/
theorem Acts.faithful {from' : Nat} (quiet : Quiet action) (acts : Acts before action after)
    (orderly : before.Orderly) (faithful : before.Faithful from') : after.Faithful from' := by
  unfold Faithful
  rw [acts.registered_eq quiet]
  intro id process later present
  obtain ⟨call, phase⟩ := process
  rcases acts.process_cases present with old | ⟨_, begun⟩ | ⟨process, world, rfl, changes⟩
  · exact faithful id _ later old
  · exact begun ▸ call.start_meets _ _ _
  · obtain ⟨own, ledger⟩ := orderly.process changes.present
    exact (changes.moves own ledger).meets _ (faithful id process later changes.present)

theorem Run.faithful (reachable : first.Reachable) (run : Run Quiet first last) :
    last.registered = first.registered ∧ last.Faithful first.processes.length := by
  induction run with
  | refl => exact ⟨rfl, fun id process later present => absurd (List.getElem?_eq_some_iff.mp present).1 (by omega)⟩
  | @tail between final run step ih =>
    obtain ⟨action, quiet, result⟩ := step
    have acts := act?_acts result
    have orderly := (Run.reachable run reachable).orderly
    refine ⟨?_, acts.faithful quiet orderly ih.2⟩
    rw [← ih.1]
    cases acts with
    | registered => exact absurd quiet id
    | _ => rfl

end System

end Blueprint
