import Blueprint.Key
import Blueprint.Path
import Blueprint.Proofs.Locations
import Mathlib.Data.List.Basic
/-! Texts of keys and paths are read in one way only. No escape begins another one, so quoted text ends at its first
bare quote; a type name ends at the bracket before that, and a segment where the mark of the next one stands. -/

namespace Blueprint

namespace Text

section Digits

theorem hexDigits_of_lt {n : Nat} (small : n < 16) : hexDigits n = [Nat.digitChar n] :=
  Nat.toDigits_of_lt_base small

theorem hexDigits_of_le {n : Nat} (large : 16 ≤ n) :
    hexDigits n = hexDigits (n / 16) ++ [Nat.digitChar (n % 16)] := by
  have last : n % 16 < 16 := Nat.mod_lt n (by decide)
  rw [← hexDigits_of_lt last, hexDigits, hexDigits, hexDigits,
    Nat.toDigits_append_toDigits (by decide) (by omega) last, Nat.div_add_mod]

/-- The number that a hexadecimal digit in lower case stands for. -/
def hexDigit (c : Char) : Nat :=
  if c.isDigit then c.toNat - '0'.toNat else c.toNat - 'a'.toNat + 10

/-- The number that hexadecimal digits stand for. -/
def hexNumber (digits : List Char) : Nat :=
  digits.foldl (fun number digit => 16 * number + hexDigit digit) 0

theorem hexDigit_digitChar {n : Nat} (small : n < 16) : hexDigit (Nat.digitChar n) = n := by
  revert n
  decide

theorem hexNumber_hexDigits (n : Nat) : hexNumber (hexDigits n) = n := by
  induction n using Nat.strongRecOn with
  | ind n ih =>
    rcases Nat.lt_or_ge n 16 with small | large
    · rw [hexDigits_of_lt small]
      simpa [hexNumber] using hexDigit_digitChar small
    · have front := ih (n / 16) (by omega)
      rw [hexNumber] at front
      rw [hexDigits_of_le large, hexNumber, List.foldl_append, front]
      simp only [List.foldl_cons, List.foldl_nil, hexDigit_digitChar (Nat.mod_lt n (by decide : 16 > 0))]
      omega

theorem brace_notMem_hexDigits (n : Nat) : '\x7d' ∉ hexDigits n := by
  induction n using Nat.strongRecOn with
  | ind n ih =>
    have notDigit (m : Nat) : '\x7d' ≠ Nat.digitChar m := (Nat.digitChar_ne _ (by decide)).symm
    rcases Nat.lt_or_ge n 16 with small | large
    · simp [hexDigits_of_lt small, notDigit]
    · simp [hexDigits_of_le large, notDigit, ih (n / 16) (by omega)]

end Digits

/-- The character that the text begins with inside quotes, and the text after it. -/
def unescape? : List Char → Option (Char × List Char)
  | '\\' :: '0' :: rest => some ('\x00', rest)
  | '\\' :: 't' :: rest => some ('\t', rest)
  | '\\' :: 'r' :: rest => some ('\r', rest)
  | '\\' :: 'n' :: rest => some ('\n', rest)
  | '\\' :: 'u' :: '\x7b' :: rest =>
    some (.ofNat (hexNumber (rest.takeWhile (· != '\x7d'))), (rest.dropWhile (· != '\x7d')).tail)
  | '\\' :: c :: rest => some (c, rest)
  | c :: rest => some (c, rest)
  | [] => none

theorem unescape?_escape (c : Char) (rest : List Char) : unescape? (escape c ++ rest) = some (c, rest) := by
  unfold escape
  split_ifs with null tab ret line quote slash plain
  · rw [null]; rfl
  · rw [tab]; rfl
  · rw [ret]; rfl
  · rw [line]; rfl
  · rw [quote]; rfl
  · rw [slash]; rfl
  · rw [List.singleton_append, unescape?.eq_def]
    split <;> simp_all
  · have inside : ∀ digit ∈ hexDigits c.toNat, (digit != '\x7d') = true := by
      intro digit known
      have differs := ne_of_mem_of_not_mem known (brace_notMem_hexDigits c.toNat)
      simpa using differs
    simp [unescape?, List.takeWhile_append_of_pos inside, List.dropWhile_append_of_pos inside, hexNumber_hexDigits]

variable {c d : Char} {cs ds s t : List Char}

/-- Text is told from what follows it by a property that it has throughout and that does not go on. -/
theorem append_inj_of_takeWhile {p : Char → Bool} (first : ∀ c ∈ cs, p c = true) (second : ∀ d ∈ ds, p d = true)
    (here : s.takeWhile p = []) (there : t.takeWhile p = []) (same : cs ++ s = ds ++ t) : cs = ds ∧ s = t := by
  have texts := congrArg (List.takeWhile p) same
  rw [List.takeWhile_append_of_pos first, List.takeWhile_append_of_pos second, here, there, List.append_nil,
    List.append_nil] at texts
  subst texts
  exact ⟨rfl, List.append_cancel_left same⟩

/-- Text ends at the first mark of a kind that does not stand in it. -/
theorem append_mark_inj {mark : Char} (first : mark ∉ cs) (second : mark ∉ ds)
    (same : cs ++ mark :: s = ds ++ mark :: t) : cs = ds ∧ s = t := by
  obtain ⟨texts, rest⟩ := append_inj_of_takeWhile (p := (· != mark))
    (fun c known => by simpa using ne_of_mem_of_not_mem known first)
    (fun d known => by simpa using ne_of_mem_of_not_mem known second) (by simp) (by simp) same
  exact ⟨texts, List.cons_inj_right mark |>.mp rest⟩

/-- No written character begins another one. -/
theorem escape_append_inj (same : escape c ++ s = escape d ++ t) : c = d ∧ s = t := by
  have read := unescape?_escape c s
  rw [same, unescape?_escape] at read
  cases read
  exact ⟨rfl, rfl⟩

/-- A bare quote begins no written character. -/
theorem escape_append_ne_quote : escape c ++ s ≠ '"' :: t := by
  unfold escape
  split_ifs with null tab ret line quote slash plain
  all_goals simp
  all_goals exact fun same => absurd same quote

theorem flatMap_escape_append_inj (same : cs.flatMap escape ++ '"' :: s = ds.flatMap escape ++ '"' :: t) :
    cs = ds ∧ s = t := by
  induction cs generalizing ds with
  | nil =>
    cases ds with
    | nil => exact ⟨rfl, by simpa using same⟩
    | cons d ds =>
      rw [List.flatMap_cons, List.append_assoc] at same
      exact absurd same.symm escape_append_ne_quote
  | cons c cs ih =>
    cases ds with
    | nil =>
      rw [List.flatMap_cons, List.append_assoc] at same
      exact absurd same escape_append_ne_quote
    | cons d ds =>
      rw [List.flatMap_cons, List.flatMap_cons, List.append_assoc, List.append_assoc] at same
      obtain ⟨rfl, later⟩ := escape_append_inj same
      obtain ⟨rfl, rest⟩ := ih later
      exact ⟨rfl, rest⟩

/-- Quoted text ends where it does, whatever follows it. -/
theorem quoted_append_inj {a b : String} (same : (quoted a).toList ++ s = (quoted b).toList ++ t) :
    a = b ∧ s = t := by
  simp only [quoted, quotedChars, String.toList_ofList, List.cons_append, List.append_assoc, List.cons.injEq,
    true_and] at same
  obtain ⟨chars, rest⟩ := flatMap_escape_append_inj same
  exact ⟨String.toList_inj.mp chars, rest⟩

end Text

namespace TypeName

/-- Neither brackets nor quotes stand in the name that messages show. -/
def Plain (type : TypeName) : Prop :=
  ∀ mark ∈ ['(', ')', '"'], mark ∉ type.short.toList

instance (type : TypeName) : Decidable type.Plain :=
  decidable_of_iff (['(', ')', '"'].all (fun mark => mark ∉ type.short.toList) = true) (by simp [Plain])

end TypeName

namespace Key

variable {typeName otherType name otherName : String} {s t : List Char}

theorem toList_textOf : (textOf typeName name).toList =
    typeName.toList ++ '(' :: ((Text.quoted name).toList ++ [')']) := by
  simp [textOf, Text.applied]

/-- The text of a key ends where it does, whatever follows it. -/
theorem textOf_append_inj (plain : '(' ∉ typeName.toList) (otherPlain : '(' ∉ otherType.toList)
    (same : (textOf typeName name).toList ++ s = (textOf otherType otherName).toList ++ t) :
    (typeName = otherType ∧ name = otherName) ∧ s = t := by
  simp only [toList_textOf, List.append_assoc, List.cons_append] at same
  obtain ⟨types, rest⟩ := Text.append_mark_inj plain otherPlain same
  obtain ⟨names, rest⟩ := Text.quoted_append_inj rest
  exact ⟨⟨String.toList_inj.mp types, names⟩, List.cons_inj_right _ |>.mp rest⟩

theorem text_eq_text_iff {first second : Key} (plain : first.type.Plain) (otherPlain : second.type.Plain) :
    first.text = second.text ↔ first.type.short = second.type.short ∧ first.name = second.name := by
  constructor
  · intro same
    have texts : first.text.toList ++ [] = second.text.toList ++ [] := by rw [same]
    exact (textOf_append_inj (plain _ (by simp)) (otherPlain _ (by simp)) texts).1
  · rintro ⟨types, names⟩
    rw [text, text, types, names]

end Key

namespace Text

/-- What identifiers are made of: letters, digits and underscores, any character beyond ASCII, and the mark of a
raw identifier. -/
def isWordChar (c : Char) : Bool :=
  c.isAlphanum || c = '_' || c = '#' || 0x80 ≤ c.toNat

/-- A name in the source of a program. -/
structure Identifier (name : String) : Prop where
  nonempty : name.toList ≠ []
  words : ∀ c ∈ name.toList, isWordChar c = true

/-- No identifier goes on in the text. -/
def Interrupts (rest : List Char) : Prop :=
  rest.takeWhile isWordChar = []

instance (name : String) : Decidable (Identifier name) :=
  decidable_of_iff (name.toList ≠ [] ∧ name.toList.all isWordChar = true)
    ⟨fun both => ⟨both.1, List.all_eq_true.mp both.2⟩,
      fun identifier => ⟨identifier.nonempty, List.all_eq_true.mpr identifier.words⟩⟩

variable {name other : String} {s t : List Char}

theorem Identifier.notMem (identifier : Identifier name) {mark : Char} (strange : isWordChar mark = false) :
    mark ∉ name.toList := by
  intro known
  simp [identifier.words mark known] at strange

/-- An identifier ends where it is interrupted. -/
theorem Identifier.append_inj (first : Identifier name) (second : Identifier other) (here : Interrupts s)
    (there : Interrupts t) (same : name.toList ++ s = other.toList ++ t) : name = other ∧ s = t := by
  obtain ⟨names, rest⟩ := append_inj_of_takeWhile first.words second.words here there same
  exact ⟨String.toList_inj.mp names, rest⟩

theorem toList_number (n : Nat) : (toString n).toList = Nat.toDigits 10 n := by
  rw [Nat.toString_eq_repr, Nat.toList_repr]

theorem bracket_notMem_number (n : Nat) : ']' ∉ (toString n).toList := by
  intro known
  rw [toList_number] at known
  exact absurd (Nat.isDigit_of_mem_toDigits (by decide) (by decide) known) (by decide)

theorem number_inj {m n : Nat} (same : (toString m).toList = (toString n).toList) : m = n := by
  have numbers := congrArg (Nat.ofDigitChars 10 · 0) same
  simpa [toList_number, Nat.ofDigitChars_toDigits] using numbers

end Text

namespace Segment

/-- The segments of the paths that resolution makes. -/
inductive Readable : Segment → Prop
  | field {name : String} (identifier : Text.Identifier name) : (field name).Readable
  | index (position : Nat) : (index position).Readable
  | reference {key : Key} (identifier : Text.Identifier key.type.short) : (reference key.text).Readable

variable {first second : Segment} {s t : List Char}

/-- The mark that a segment begins with. -/
def mark : Segment → Char
  | field _ => '.'
  | index _ => '['
  | reference _ => '-'

theorem toList_text (segment : Segment) : ∃ rest, segment.text.toList = segment.mark :: rest := by
  cases segment <;> simp [text, mark]

theorem mark_isWordChar (segment : Segment) : Text.isWordChar segment.mark = false := by
  cases segment <;> rfl

/-- A segment ends where the next one begins. -/
theorem text_append_inj (readable : first.Readable) (other : second.Readable) (here : Text.Interrupts s)
    (there : Text.Interrupts t) (same : first.text.toList ++ s = second.text.toList ++ t) :
    first = second ∧ s = t := by
  have marks : first.mark = second.mark := by
    obtain ⟨rest, begins⟩ := first.toList_text
    obtain ⟨other, otherwise⟩ := second.toList_text
    rw [begins, otherwise] at same
    exact (List.cons.inj same).1
  cases readable with
  | field identifier =>
    cases other with
    | field other =>
      simp only [text, String.toList_append, List.append_assoc] at same
      obtain ⟨rfl, rest⟩ := identifier.append_inj other here there (List.append_cancel_left same)
      exact ⟨rfl, rest⟩
    | index | reference => cases marks
  | index position =>
    cases other with
    | index other =>
      simp only [text, String.toList_append, List.append_assoc] at same
      obtain ⟨numbers, rest⟩ := Text.append_mark_inj (Text.bracket_notMem_number position)
        (Text.bracket_notMem_number other) (List.append_cancel_left same)
      exact ⟨by rw [Text.number_inj numbers], rest⟩
    | field | reference => cases marks
  | reference identifier =>
    cases other with
    | reference other =>
      simp only [text, String.toList_append, List.append_assoc] at same
      obtain ⟨⟨types, names⟩, rest⟩ := Key.textOf_append_inj (identifier.notMem (by decide))
        (other.notMem (by decide)) (List.append_cancel_left same)
      exact ⟨by rw [Key.text, Key.text, types, names], rest⟩
    | field | index => cases marks

/-- Segments one after another. -/
def chars (segments : List Segment) : List Char :=
  segments.flatMap fun segment => segment.text.toList

@[simp]
theorem chars_cons (segment : Segment) (segments : List Segment) :
    chars (segment :: segments) = segment.text.toList ++ chars segments := rfl

theorem chars_interrupts (segments : List Segment) : Text.Interrupts (chars segments) := by
  cases segments with
  | nil => rfl
  | cons segment segments =>
    obtain ⟨rest, begins⟩ := segment.toList_text
    rw [chars_cons, begins]
    simp [Text.Interrupts, segment.mark_isWordChar]

theorem chars_inj {segments others : List Segment} (readable : ∀ segment ∈ segments, segment.Readable)
    (other : ∀ segment ∈ others, segment.Readable) (same : chars segments = chars others) : segments = others := by
  induction segments generalizing others with
  | nil =>
    cases others with
    | nil => rfl
    | cons second others =>
      obtain ⟨rest, begins⟩ := second.toList_text
      rw [chars_cons, begins] at same
      cases same
  | cons first segments ih =>
    cases others with
    | nil =>
      obtain ⟨rest, begins⟩ := first.toList_text
      rw [chars_cons, begins] at same
      cases same
    | cons second others =>
      obtain ⟨rfl, rest⟩ := text_append_inj (readable _ List.mem_cons_self) (other _ List.mem_cons_self)
        (chars_interrupts _) (chars_interrupts _) same
      rw [ih (fun segment known => readable segment (List.mem_cons_of_mem _ known))
        (fun segment known => other segment (List.mem_cons_of_mem _ known)) rest]

end Segment

namespace Path

/-- A path of readable segments, as resolution makes them. -/
def Readable (path : Path) : Prop :=
  ∀ segment ∈ path.segments, segment.Readable

/-- The text of a path with the dot in front of a leading field, and without anything for the root. -/
def dotted : List Char → List Char
  | [] => []
  | c :: rest => if c = '<' then [] else if Text.isWordChar c then '.' :: c :: rest else c :: rest

variable {path first second : Path}

theorem dotted_text (readable : path.Readable) : dotted path.text.toList = Segment.chars path.segments := by
  -- the first character tells a leading field from the other segments and from the root
  obtain ⟨segments⟩ := path
  cases segments with
  | nil => rfl
  | cons segment segments =>
    have rest : (String.join (segments.map Segment.text)).toList = Segment.chars segments := by
      rw [String.toList_join, List.flatMap_map, Segment.chars]
    simp only [text, String.toList_append, rest, Segment.chars_cons]
    cases segment with
    | field name =>
      obtain ⟨identifier⟩ := readable _ List.mem_cons_self
      cases shape : name.toList with
      | nil => exact absurd shape identifier.nonempty
      | cons c more =>
        have word : Text.isWordChar c = true := identifier.words c (by simp [shape])
        have plain : c ≠ '<' := by rintro rfl; cases word
        simp [Segment.leadingText, Segment.text, shape, dotted, word, plain]
    | index | reference =>
      simp only [Segment.leadingText, Segment.text, String.toList_append]
      rfl

theorem text_eq_text_iff (readable : first.Readable) (other : second.Readable) :
    first.text = second.text ↔ first.segments = second.segments := by
  constructor
  · intro same
    refine Segment.chars_inj readable other ?_
    rw [← dotted_text readable, ← dotted_text other, same]
  · intro same
    rw [text, text, same]

end Path

/-! ### Paths of resolution -/

namespace EntityType

theorem shortName_identifier (type : EntityType) : Text.Identifier type.shortName := by
  cases type <;> decide

theorem stages_identifiers (type : EntityType) :
    ∀ form ∈ type.recordForm?, ∀ names ∈ form.stages, ∀ name ∈ names, Text.Identifier name := by
  cases type <;> decide

theorem plan_identifiers {type : EntityType} {fields : List (String × Slot)} {field : String × Slot}
    (planned : field ∈ (type.plan fields).flatten) : Text.Identifier field.1 := by
  obtain ⟨stage, inside, member⟩ := List.mem_flatten.mp planned
  unfold plan at inside
  split at inside
  next form shape =>
    obtain ⟨names, staged, rfl⟩ := List.mem_map.mp inside
    obtain ⟨name, named, found⟩ := List.mem_filterMap.mp member
    obtain ⟨content, _, rfl⟩ := Option.map_eq_some_iff.mp found
    exact type.stages_identifiers form (by simp [recordForm?, shape]) names staged name named
  next => simp at inside

end EntityType

namespace Path

theorem Readable.child {path : Path} (readable : path.Readable) {segment : Segment} (last : segment.Readable) :
    (path.child segment).Readable := by
  intro other member
  rcases List.mem_append.mp member with old | new
  · exact readable other old
  · rw [List.mem_singleton.mp new]
    exact last

/-- The path of what a task is at is readable if that of the call is. -/
def readable (base : Path) : Demand := fun _ task =>
  base.Readable → ∀ path place, task.site? = some (path, place) → path.Readable

section Demand

variable {base : Path} {owner : Option Key}

theorem readable_of_site {task : Task} {path : Path} {place : Place} (site : task.site? = some (path, place))
    (known : base.Readable → path.Readable) : readable base owner task := by
  intro begins other found same
  cases site.symm.trans same
  exact known begins

theorem readable_node {node : Node} {scope : Scope} (known : base.Readable → scope.path.Readable) :
    readable base owner (.node node scope) := by
  cases node with
  | literal value => exact fun _ path place site => nomatch site
  | reference | nested => exact readable_of_site rfl known

theorem readable_handedOn (base : Path) (contents : Contents) : (readable base).HandedOn contents where
  literal _ _ _ := fun _ _ _ site => nomatch site
  nested known := known
  record known field planned :=
    readable_of_site rfl fun begins => (known begins _ _ rfl).child (.field (EntityType.plan_identifiers planned))
  union known := known
  variant known := known
  stalled _ := fun _ _ _ site => nomatch site
  delayed known := readable_node fun begins => known begins _ _ rfl
  required known := readable_node fun begins => known begins _ _ rfl
  optional known := readable_node fun begins => known begins _ _ rfl
  repeated known position inside := readable_node fun begins => (known begins _ _ rfl).child (.index position)
  keyed known position inside := by
    have pair : base.Readable → _ := fun begins => (known begins _ _ rfl).child (.index position)
    exact ⟨readable_node fun begins => (pair begins).child (.field (by decide)),
      readable_node fun begins => (pair begins).child (.field (by decide))⟩
  fetch known _ _ := readable_of_site rfl fun begins => known begins _ _ rfl
  begin known _ :=
    readable_node fun begins => (known begins _ _ rfl).child (.reference (EntityType.shortName_identifier _))

theorem readable_lasting : Demand.Lasting fun _ call => readable call.base where
  begins contents call id world := by
    have same : call.base.Readable → call.base.Readable := fun begins => begins
    cases call with
    | resolve config node => exact readable_node same
    | within scope work =>
      cases work with
      | node node => exact readable_node same
      | field entity name slot => exact readable_of_site rfl same
      | variant tag shell => exact readable_of_site rfl same
  handed contents call := readable_handedOn call.base contents
  wider _ known := known

end Demand

end Path

namespace System

/-- The paths of errors are readable, if those are that calls begin with. -/
theorem Reachable.path_readable {system : System} (reachable : system.Reachable) {id : Nat} {call : Call}
    {error : ResolveError} {path : Path}
    (returned : system.processes[id]? = some ⟨call, .returned (.error error)⟩) (told : error.path? = some path)
    (begins : call.base.Readable) : path.Readable := by
  obtain ⟨before, task, place, came, site, _⟩ := reachable.explained returned rfl told
  obtain ⟨operation, ⟨number, control, layers⟩, ahead, polled⟩ := came.polled
  cases polled
  have every := came.reachable.every Path.readable_lasting _ (List.mem_of_getElem? ahead)
  exact (every_surround.mp every).1.at_site site begins path place site

end System

/-! ### Unique reading -/

/-- Keys and paths are told by their texts. Two keys without brackets and quotes in the short names of their types
have one text exactly if these names and the names of the keys are equal, whatever characters the latter are made
of; and two paths as resolution makes them have one text exactly if they are the same segments, the root
included. -/
theorem texts_read_uniquely :
    (∀ first second : Key, first.type.Plain → second.type.Plain →
      (first.text = second.text ↔ first.type.short = second.type.short ∧ first.name = second.name)) ∧
    (∀ first second : Path, first.Readable → second.Readable →
      (first.text = second.text ↔ first.segments = second.segments)) :=
  ⟨fun _ _ plain other => Key.text_eq_text_iff plain other,
    fun _ _ readable other => Path.text_eq_text_iff readable other⟩

/-- A key with a given name. -/
def authKey (name : String) : Key :=
  ⟨EntityType.auth.typeName, name⟩

/-- The name of a key that looks like the way on from another one. -/
def lookalike : Key :=
  authKey "ci\")->Auth(\"\x00\u0301"

/-- One step through the first key, and the two steps that its name looks like. -/
def disguised : Path :=
  ⟨[.reference lookalike.text]⟩

def imitated : Path :=
  ⟨[.reference (authKey "ci").text, .reference (authKey "\x00\u0301").text]⟩

theorem texts_read_uniquely_lookalike :
    lookalike.type.Plain ∧ disguised.Readable ∧ imitated.Readable ∧ Path.root.Readable ∧
      lookalike.text ≠ (authKey "ci").text ∧ disguised.text ≠ imitated.text ∧ Path.root.text ≠ imitated.text := by
  have plain : lookalike.type.Plain := by decide
  have identifier : Text.Identifier EntityType.auth.typeName.short := by decide
  have alone : disguised.Readable := by simpa [Path.Readable, disguised] using .reference identifier
  have both : imitated.Readable := by
    simpa [Path.Readable, imitated] using ⟨.reference identifier, .reference identifier⟩
  have none : Path.root.Readable := fun segment member => nomatch member
  obtain ⟨keys, paths⟩ := texts_read_uniquely
  refine ⟨plain, alone, both, none, ?_, ?_, ?_⟩
  · rw [Ne, keys lookalike (authKey "ci") plain plain]
    decide
  · rw [Ne, paths disguised imitated alone both]
    simp [disguised, imitated]
  · rw [Ne, paths Path.root imitated none both]
    simp [Path.root, imitated]

end Blueprint
