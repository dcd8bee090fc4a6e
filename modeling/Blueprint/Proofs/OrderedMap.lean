import Mathlib.Data.List.Induction
import Mathlib.Data.List.Perm.Basic
import Mathlib.Data.List.Nodup
import Blueprint.OrderedMap
/-! Laws of maps that are kept as lists of entries. Reading depends on the first entry of a key
only, so with distinct keys it does not depend on the order. -/

namespace Blueprint.OrderedMap

variable {α β γ : Type} [DecidableEq α]

@[simp] theorem get?_nil (key : α) : get? ([] : List (α × β)) key = none := rfl

theorem get?_cons (entry : α × β) (rest : List (α × β)) (key : α) :
    get? (entry :: rest) key = if entry.1 = key then some entry.2 else get? rest key := by
  by_cases same : entry.1 = key
  · simp [get?, same]
  · simp [get?, same]

theorem get?_append (first second : List (α × β)) (key : α) :
    get? (first ++ second) key = (get? first key).or (get? second key) := by
  induction first with
  | nil => simp
  | cons entry rest ih =>
    rw [List.cons_append, get?_cons, get?_cons]
    split
    · rfl
    · exact ih

theorem mem_of_get? {entries : List (α × β)} {key : α} {value : β}
    (found : get? entries key = some value) : (key, value) ∈ entries := by
  obtain ⟨entry, selected, rfl⟩ := Option.map_eq_some_iff.mp found
  have same : entry.1 = key := by simpa using List.find?_some selected
  exact same ▸ List.mem_of_find?_eq_some selected

theorem get?_eq_none_iff {entries : List (α × β)} {key : α} :
    get? entries key = none ↔ key ∉ entries.map (·.1) := by
  induction entries with
  | nil => simp
  | cons entry rest ih =>
    rw [get?_cons, List.map_cons, List.mem_cons]
    by_cases same : entry.1 = key
    · simp [same]
    · rw [if_neg same, ih]
      simp [Ne.symm same]

theorem get?_of_mem {entries : List (α × β)} {key : α} {value : β}
    (distinct : (entries.map (·.1)).Nodup) (member : (key, value) ∈ entries) :
    get? entries key = some value := by
  induction entries with
  | nil => simp at member
  | cons entry rest ih =>
    rw [List.map_cons, List.nodup_cons] at distinct
    rw [get?_cons]
    rcases List.mem_cons.mp member with rfl | later
    · simp
    · have other : entry.1 ≠ key :=
        fun same => distinct.1 (same ▸ List.mem_map_of_mem (f := Prod.fst) later)
      rw [if_neg other]
      exact ih distinct.2 later

theorem get?_perm {first second : List (α × β)} (distinct : (first.map (·.1)).Nodup)
    (same : first.Perm second) (key : α) : get? first key = get? second key := by
  cases found : get? first key with
  | none =>
    rw [get?_eq_none_iff, (same.map _).mem_iff] at found
    exact (get?_eq_none_iff.mpr found).symm
  | some value =>
    have member := same.mem_iff.mp (mem_of_get? found)
    exact (get?_of_mem ((same.map _).nodup_iff.mp distinct) member).symm

/-- Maps with the same keys in the same order are the same if reading finds the same in them. -/
theorem eq_of_get? {first second : List (α × β)} (keys : first.map (·.1) = second.map (·.1))
    (distinct : (first.map (·.1)).Nodup) (same : ∀ key, get? first key = get? second key) : first = second := by
  refine List.ext_getElem (by simpa using congrArg List.length keys) fun position inside within => ?_
  have key : first[position].1 = second[position].1 := by
    have both : (first.map (·.1))[position]? = (second.map (·.1))[position]? := by rw [keys]
    simpa [List.getElem?_eq_getElem inside, List.getElem?_eq_getElem within] using both
  have one : (first[position].1, first[position].2) ∈ first := List.getElem_mem inside
  have two : (second[position].1, second[position].2) ∈ second := List.getElem_mem within
  refine Prod.ext key (Option.some.inj ?_)
  rw [← get?_of_mem distinct one, same, key, get?_of_mem (keys ▸ distinct) two]

/-- An entry can be taken to the front of those under other keys. -/
theorem perm_of_get? {entries : List (α × β)} {key : α} {value : β}
    (distinct : (entries.map (·.1)).Nodup) (found : get? entries key = some value) :
    entries.Perm ((key, value) :: entries.filter fun entry => entry.1 ≠ key) := by
  induction entries with
  | nil => simp at found
  | cons entry rest ih =>
    rw [List.map_cons, List.nodup_cons] at distinct
    rw [get?_cons] at found
    split at found
    next same =>
      have others : rest.filter (fun entry => entry.1 ≠ key) = rest := by
        refine List.filter_eq_self.mpr fun other member => ?_
        have apart : other.1 ≠ key := fun equal =>
          distinct.1 (same.trans equal.symm ▸ List.mem_map_of_mem (f := Prod.fst) member)
        simpa using apart
      rw [List.filter_cons_of_neg (by simpa using same), others, ← same, ← Option.some.inj found]
    next different =>
      rw [List.filter_cons_of_pos (by simpa using different)]
      exact ((ih distinct.2 found).cons entry).trans (.swap _ _ _)

theorem get?_mapKeyed (change : α → β → γ) (entries : List (α × β)) (key : α) :
    get? (entries.map fun entry => (entry.1, change entry.1 entry.2)) key = (get? entries key).map (change key) := by
  induction entries with
  | nil => rfl
  | cons entry rest ih =>
    rw [List.map_cons, get?_cons, get?_cons, ih]
    split
    next same => rw [same]; rfl
    next => rfl

theorem get?_map (change : β → γ) (entries : List (α × β)) (key : α) :
    get? (entries.map fun entry => (entry.1, change entry.2)) key = (get? entries key).map change :=
  get?_mapKeyed (fun _ => change) entries key

theorem get?_insert_self (entries : List (α × β)) (key : α) (value : β) :
    get? (insert entries key value) key = some value := by
  induction entries with
  | nil => simp [insert, get?_cons]
  | cons entry rest ih =>
    by_cases same : entry.1 = key
    · simp [insert, same, get?_cons]
    · simp [insert, same, get?_cons, ih]

theorem get?_insert_of_ne (entries : List (α × β)) {key other : α} (apart : key ≠ other) (value : β) :
    get? (insert entries key value) other = get? entries other := by
  induction entries with
  | nil => simp [insert, get?_cons, apart]
  | cons entry rest ih =>
    by_cases same : entry.1 = key
    · simp [insert, same, get?_cons, apart]
    · simp [insert, same, get?_cons, ih]

/-- Writing keeps the keys that are there and their order; a new key goes to the end. -/
theorem insert_keys (entries : List (α × β)) (key : α) (value : β) :
    (insert entries key value).map (·.1) =
      if key ∈ entries.map (·.1) then entries.map (·.1) else entries.map (·.1) ++ [key] := by
  induction entries with
  | nil => simp [insert]
  | cons entry rest ih =>
    by_cases same : entry.1 = key
    · simp [insert, same]
    · have apart : key ≠ entry.1 := fun equal => same equal.symm
      simp only [insert, if_neg same, List.map_cons, ih, List.mem_cons, apart, false_or]
      split <;> rfl

theorem insert_of_not_mem {entries : List (α × β)} {key : α} (absent : key ∉ entries.map (·.1)) (value : β) :
    insert entries key value = entries ++ [(key, value)] := by
  induction entries with
  | nil => rfl
  | cons entry rest ih =>
    rw [List.map_cons, List.mem_cons, not_or] at absent
    rw [insert, if_neg fun same => absent.1 same.symm, ih absent.2, List.cons_append]

theorem ofList_concat (pairs : List (α × β)) (pair : α × β) :
    ofList (pairs ++ [pair]) = insert (ofList pairs) pair.1 pair.2 :=
  List.foldl_concat _ _ _ _

/-- Each key stands where it was written first, and once. -/
theorem ofList_keys (pairs : List (α × β)) : (ofList pairs).map (·.1) = (pairs.map (·.1)).eraseDups := by
  induction pairs using List.reverseRecOn with
  | nil => rfl
  | append_singleton pairs pair ih =>
    rw [ofList_concat, insert_keys, ih, List.map_append, List.eraseDups_append]
    by_cases known : pair.1 ∈ pairs.map (·.1)
    · simp [List.mem_eraseDups, known, List.removeAll]
    · simp [List.mem_eraseDups, known, List.removeAll, List.eraseDups_cons]

/-- Under each key stands what was written last. -/
theorem get?_ofList (pairs : List (α × β)) (key : α) : get? (ofList pairs) key = get? pairs.reverse key := by
  induction pairs using List.reverseRecOn with
  | nil => rfl
  | append_singleton pairs pair ih =>
    rw [ofList_concat, List.reverse_concat, get?_cons]
    split
    next same => rw [← same, get?_insert_self]
    next apart => rw [get?_insert_of_ne _ apart, ih]

/-- Entries with new and distinct keys are written one after another to the end. -/
theorem foldl_insert_of_nodup {entries pairs : List (α × β)} (distinct : ((entries ++ pairs).map (·.1)).Nodup) :
    pairs.foldl (fun entries pair => insert entries pair.1 pair.2) entries = entries ++ pairs := by
  induction pairs generalizing entries with
  | nil => exact (List.append_nil entries).symm
  | cons pair rest ih =>
    have absent : pair.1 ∉ entries.map (·.1) := by
      rw [List.map_append, List.nodup_append] at distinct
      exact fun member => distinct.2.2 _ member _ List.mem_cons_self rfl
    calc (pair :: rest).foldl (fun entries pair => insert entries pair.1 pair.2) entries
      _ = rest.foldl (fun entries pair => insert entries pair.1 pair.2) (insert entries pair.1 pair.2) := rfl
      _ = (entries ++ [pair]) ++ rest := by
        rw [insert_of_not_mem absent]
        exact ih (by simpa using distinct)
      _ = entries ++ pair :: rest := by rw [List.append_assoc, List.singleton_append]

/-- Entries with distinct keys are a map already. -/
theorem ofList_of_nodup {pairs : List (α × β)} (distinct : (pairs.map (·.1)).Nodup) : ofList pairs = pairs :=
  @foldl_insert_of_nodup α β _ [] pairs distinct

end Blueprint.OrderedMap
