import Blueprint.Entity
import Blueprint.OrderedMap
import Blueprint.Text.Quoted
import Blueprint.Text.Layout
/-!
Values: what nodes resolve to. Equality of values is decided here, because the keys of a map are
values.
-/

namespace Blueprint

inductive Value where
  | text (content : String)
  | number (amount : UInt64)
  /-- an optional field that is not there -/
  | absent
  /-- an optional field that is there -/
  | present (value : Value)
  | list (items : List Value)
  | map (entries : List (Value × Value))
  /-- an entity of a record type, fields in declaration order -/
  | record (type : EntityType) (fields : List (String × Value))
  /-- an entity of a union type -/
  | variant (tag : String) (value : Value)
  deriving Repr

namespace Value

instance : Inhabited Value := ⟨.absent⟩

mutual

/-- Whether two values are the same. -/
def same : Value → Value → Bool
  | text a, text b => a == b
  | number a, number b => a == b
  | absent, absent => true
  | present a, present b => same a b
  | list a, list b => sameItems a b
  | map a, map b => sameEntries a b
  | record s a, record t b => s == t && sameFields a b
  | variant s a, variant t b => s == t && same a b
  | _, _ => false

def sameItems : List Value → List Value → Bool
  | [], [] => true
  | a :: as, b :: bs => same a b && sameItems as bs
  | _, _ => false

def sameEntries : List (Value × Value) → List (Value × Value) → Bool
  | [], [] => true
  | (k, a) :: as, (l, b) :: bs => same k l && same a b && sameEntries as bs
  | _, _ => false

def sameFields : List (String × Value) → List (String × Value) → Bool
  | [], [] => true
  | (k, a) :: as, (l, b) :: bs => k == l && same a b && sameFields as bs
  | _, _ => false

end

mutual

theorem eq_of_same (a b : Value) (h : same a b = true) : a = b := by
  match a, b with
  | text a, text b => simpa [same] using h
  | number a, number b => simpa [same] using h
  | absent, absent => rfl
  | present a, present b => rw [eq_of_same a b (by simpa [same] using h)]
  | list a, list b => rw [eq_of_sameItems a b (by simpa [same] using h)]
  | map a, map b => rw [eq_of_sameEntries a b (by simpa [same] using h)]
  | record s a, record t b =>
    simp only [same, Bool.and_eq_true, beq_iff_eq] at h
    rw [h.1, eq_of_sameFields a b h.2]
  | variant s a, variant t b =>
    simp only [same, Bool.and_eq_true, beq_iff_eq] at h
    rw [h.1, eq_of_same a b h.2]
  | text _, number _ | text _, absent | text _, present _ | text _, list _ | text _, map _
  | text _, record _ _ | text _, variant _ _ => simp [same] at h
  | number _, text _ | number _, absent | number _, present _ | number _, list _
  | number _, map _ | number _, record _ _ | number _, variant _ _ => simp [same] at h
  | absent, text _ | absent, number _ | absent, present _ | absent, list _ | absent, map _
  | absent, record _ _ | absent, variant _ _ => simp [same] at h
  | present _, text _ | present _, number _ | present _, absent | present _, list _
  | present _, map _ | present _, record _ _ | present _, variant _ _ => simp [same] at h
  | list _, text _ | list _, number _ | list _, absent | list _, present _ | list _, map _
  | list _, record _ _ | list _, variant _ _ => simp [same] at h
  | map _, text _ | map _, number _ | map _, absent | map _, present _ | map _, list _
  | map _, record _ _ | map _, variant _ _ => simp [same] at h
  | record _ _, text _ | record _ _, number _ | record _ _, absent | record _ _, present _
  | record _ _, list _ | record _ _, map _ | record _ _, variant _ _ => simp [same] at h
  | variant _ _, text _ | variant _ _, number _ | variant _ _, absent | variant _ _, present _
  | variant _ _, list _ | variant _ _, map _ | variant _ _, record _ _ => simp [same] at h

theorem eq_of_sameItems (a b : List Value) (h : sameItems a b = true) : a = b := by
  match a, b with
  | [], [] => rfl
  | a :: as, b :: bs =>
    simp only [sameItems, Bool.and_eq_true] at h
    rw [eq_of_same a b h.1, eq_of_sameItems as bs h.2]
  | [], _ :: _ | _ :: _, [] => simp [sameItems] at h

theorem eq_of_sameEntries (a b : List (Value × Value)) (h : sameEntries a b = true) : a = b := by
  match a, b with
  | [], [] => rfl
  | (k, a) :: as, (l, b) :: bs =>
    simp only [sameEntries, Bool.and_eq_true] at h
    rw [eq_of_same k l h.1.1, eq_of_same a b h.1.2, eq_of_sameEntries as bs h.2]
  | [], _ :: _ | _ :: _, [] => simp [sameEntries] at h

theorem eq_of_sameFields (a b : List (String × Value)) (h : sameFields a b = true) : a = b := by
  match a, b with
  | [], [] => rfl
  | (k, a) :: as, (l, b) :: bs =>
    simp only [sameFields, Bool.and_eq_true, beq_iff_eq] at h
    rw [h.1.1, eq_of_same a b h.1.2, eq_of_sameFields as bs h.2]
  | [], _ :: _ | _ :: _, [] => simp [sameFields] at h

end

mutual

theorem same_self (a : Value) : same a a = true := by
  match a with
  | text _ | number _ | absent => simp [same]
  | present a => simp [same, same_self a]
  | list a => simp [same, sameItems_self a]
  | map a => simp [same, sameEntries_self a]
  | record _ a => simp [same, sameFields_self a]
  | variant _ a => simp [same, same_self a]

theorem sameItems_self (a : List Value) : sameItems a a = true := by
  match a with
  | [] => simp [sameItems]
  | a :: as => simp [sameItems, same_self a, sameItems_self as]

theorem sameEntries_self (a : List (Value × Value)) : sameEntries a a = true := by
  match a with
  | [] => simp [sameEntries]
  | (k, a) :: as => simp [sameEntries, same_self k, same_self a, sameEntries_self as]

theorem sameFields_self (a : List (String × Value)) : sameFields a a = true := by
  match a with
  | [] => simp [sameFields]
  | (k, a) :: as => simp [sameFields, same_self a, sameFields_self as]

end

instance : DecidableEq Value := fun a b =>
  if h : same a b = true then isTrue (eq_of_same a b h)
  else isFalse fun e => h (e ▸ same_self a)

/-- Key and value pairs folded into a map, one insertion after another. -/
def ofPairs (pairs : List (Value × Value)) : Value :=
  map (OrderedMap.ofList pairs)

mutual

/-- The value as a reader sees it. -/
def debug : Value → String
  | text content => Text.quoted content
  | number amount => toString amount.toNat
  | absent => Text.perhaps none
  | present value => Text.perhaps (some (debug value))
  | list items => Text.listed (debugItems items)
  | map entries => Text.mapped (debugEntries entries)
  | record type fields => Text.braced type.shortName (debugFields fields)
  | variant tag value => Text.applied tag (debug value)

def debugItems : List Value → List String
  | [] => []
  | item :: rest => debug item :: debugItems rest

def debugEntries : List (Value × Value) → List (String × String)
  | [] => []
  | (key, value) :: rest => (debug key, debug value) :: debugEntries rest

def debugFields : List (String × Value) → List (String × String)
  | [] => []
  | (name, value) :: rest => (name, debug value) :: debugFields rest

end

end Value

end Blueprint
