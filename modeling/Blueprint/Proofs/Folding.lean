import Blueprint.Proofs.Assurance
/-! Maps made of keyed fields. Keys and values are resolved side by side and in whatever order they finish; only then
are the pairs written one after another, so which keys coincide is seen by their values. Each key stands where it
came first, with the value that came last. -/

namespace Blueprint

section Pairs

variable {lookup : Lookup} {pairs : List (Node × Node)} {resolved : List (Value × Value)}

/-- The nodes of pairs have values. -/
def Evaluate (lookup : Lookup) (pairs : List (Node × Node)) (resolved : List (Value × Value)) : Prop :=
  List.Forall₂ (fun pair item => pair.1.evaluate lookup = some item.1 ∧ pair.2.evaluate lookup = some item.2)
    pairs resolved

theorem Evaluate.keyed (evaluate : Evaluate lookup pairs resolved) :
    (Slot.keyed pairs).evaluate lookup = some (.map (OrderedMap.ofList resolved)) := by
  have each : evaluatePairs lookup pairs = resolved.map some := by
    induction evaluate with
    | nil => simp [evaluatePairs]
    | cons both _ ih => simp [evaluatePairs, ih, both.1, both.2]
  rw [Slot.evaluate, each, collect_map_some]
  rfl

end Pairs

namespace System

variable {first : System}

/-- The call for a keyed field of an entity. -/
abbrev keyedField (scope : Scope) (entity name : String) (pairs : List (Node × Node)) : Call :=
  .within scope (.field entity name (.keyed pairs))

/-- A keyed field whose nodes all have values becomes a map. Its keys are the values of the key nodes in the order in
which they come first, each once, and under each key is the value that comes last with it. This map does not depend
on how the resolution goes: in every run, whatever else happens, it is what an operation for the field returns if it
returns, and in every endless run an operation for the field that nobody gives up returns it. -/
theorem keyed_field_folds (reachable : first.Reachable) (scope : Scope) (entity name : String)
    {pairs : List (Node × Node)} {resolved : List (Value × Value)}
    (evaluate : Evaluate (first.registered.valueOf []) pairs resolved) :
    ∃ entries : List (Value × Value),
      entries.map (·.1) = (resolved.map (·.1)).eraseDups ∧
      (∀ key, OrderedMap.get? entries key = OrderedMap.get? resolved.reverse key) ∧
      (∀ last id result, Run (fun _ => True) first last → first.processes.length ≤ id →
        last.processes[id]? = some ⟨keyedField scope entity name pairs, .returned result⟩ →
        result = .ok (.map entries)) ∧
      ∀ (execution : Execution first) (id n : Nat) (phase : Phase), first.processes.length ≤ id →
        (execution.states n).processes[id]? = some ⟨keyedField scope entity name pairs, phase⟩ → phase ≠ .dropped →
        (∀ m, execution.actions m ≠ .drop id) →
        ∃ m, n ≤ m ∧ (execution.states m).processes[id]? =
          some ⟨keyedField scope entity name pairs, .returned (.ok (.map entries))⟩ := by
  have has : (keyedField scope entity name pairs).evaluate (first.registered.valueOf []) =
      some (.map (OrderedMap.ofList resolved)) := evaluate.keyed
  refine ⟨OrderedMap.ofList resolved, OrderedMap.ofList_keys resolved, OrderedMap.get?_ofList resolved,
    fun last id result run began returned => ?_, fun execution id n phase began present taken kept => ?_⟩
  · have untimed : (keyedField scope entity name pairs).Untimed := trivial
    exact returned_of_evaluate reachable run began untimed has returned
  · exact execution.returns_value reachable present began trivial has taken kept

/-- A deferred text with the same value as a literal one. -/
def nickname : Action :=
  .register ⟨EntityType.text.typeName, "nickname"⟩
    (.deferred (.node EntityType.text.typeName (.literal (.text "region"))))

/-- Three pairs, of which the last one overwrites the first one by another name. -/
def settings : List (Node × Node) :=
  [(.literal (.text "region"), .literal (.text "north")), (.literal (.text "size"), .literal (.text "small")),
    (.reference .text "nickname", .literal (.text "south"))]

/-- The resolution of a field with these pairs, one at a time. -/
def readSettings : List Action :=
  .start (keyedField (.root .default) "Job" "settings" settings) :: List.replicate 24 (.step 0)

theorem keyed_field_folds_settings :
    (following [nickname]).Reachable ∧
      Evaluate ((following [nickname]).registered.valueOf []) settings
        [(.text "region", .text "north"), (.text "size", .text "small"), (.text "region", .text "south")] ∧
      ∃ entries : List (Value × Value), entries.map (·.1) = [.text "region", .text "size"] ∧
        OrderedMap.get? entries (.text "region") = some (.text "south") ∧
        (following (nickname :: readSettings)).processes[0]? =
          some ⟨keyedField (.root .default) "Job" "settings" settings, .returned (.ok (.map entries))⟩ := by
  have reachable : (following [nickname]).Reachable := run_of_perform [nickname] (fun _ _ => trivial) rfl
  have evaluate : Evaluate ((following [nickname]).registered.valueOf []) settings
      [(.text "region", .text "north"), (.text "size", .text "small"), (.text "region", .text "south")] := by
    have deferred : (following [nickname]).registered.node? ⟨EntityType.text.typeName, "nickname"⟩ =
        some (.literal (.text "region")) := rfl
    have named : (following [nickname]).registered.valueOf [] ⟨EntityType.text.typeName, "nickname"⟩ =
        some (.text "region") := Contents.valueOf_node deferred
    exact .cons ⟨rfl, rfl⟩ (.cons ⟨rfl, rfl⟩ (.cons ⟨named, rfl⟩ .nil))
  obtain ⟨entries, keys, last, returns, _⟩ :=
    keyed_field_folds reachable (.root .default) "Job" "settings" evaluate
  have run : Run (fun _ => True) (following [nickname]) (following (nickname :: readSettings)) :=
    run_of_perform readSettings (fun _ _ => trivial) rfl
  have returned : ∃ result, (following (nickname :: readSettings)).processes[0]? =
      some ⟨keyedField (.root .default) "Job" "settings" settings, .returned result⟩ := ⟨_, rfl⟩
  obtain ⟨result, there⟩ := returned
  have same := returns _ 0 result run (Nat.zero_le _) there
  refine ⟨reachable, evaluate, entries, ?_, ?_, same ▸ there⟩
  · simpa [List.eraseDups_cons] using keys
  · simpa [OrderedMap.get?_cons] using last (.text "region")

end System

end Blueprint
