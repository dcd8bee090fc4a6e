/-!
JSON texts, read as far as a configuration needs: of numbers only those that are unsigned words
keep their value, of strings only the keys of objects keep their content.
-/

namespace Blueprint

inductive Json where
  | null
  | boolean (value : Bool)
  /-- a number; its value if it is written without sign, fraction and exponent -/
  | number (value : Option Nat)
  | string
  | array (items : List Json)
  /-- members in order; a key that is not text has no content -/
  | object (members : List (Option String × Json))

namespace Json

/-- The text without white space in front. -/
def skipSpace (chars : List Char) : List Char :=
  chars.dropWhile fun c => c = ' ' || c = '\t' || c = '\n' || c = '\r'

/-- A hexadecimal digit. -/
def hexValue? (c : Char) : Option Nat :=
  if '0' ≤ c ∧ c ≤ '9' then some (c.toNat - '0'.toNat)
  else if 'a' ≤ c ∧ c ≤ 'f' then some (c.toNat - 'a'.toNat + 10)
  else if 'A' ≤ c ∧ c ≤ 'F' then some (c.toNat - 'A'.toNat + 10)
  else none

/-- A UTF-16 unit in four hexadecimal digits. -/
def unit? (a b c d : Char) : Option Nat := do
  return (((← hexValue? a) * 16 + (← hexValue? b)) * 16 + (← hexValue? c)) * 16 + (← hexValue? d)

/-- The UTF-16 units that a single letter stands for after a backslash. -/
def escapedUnit? : Char → Option Nat
  | '"' => some 0x22
  | '\\' => some 0x5c
  | '/' => some 0x2f
  | 'b' => some 0x08
  | 'f' => some 0x0c
  | 'n' => some 0x0a
  | 'r' => some 0x0d
  | 't' => some 0x09
  | _ => none

/-- The characters of a string after its opening quote, escaped ones as UTF-16 units, and what
follows the closing quote. -/
def string? : List Char → Option (List (Nat ⊕ Char) × List Char)
  | [] => none
  | '"' :: rest => some ([], rest)
  | '\\' :: 'u' :: a :: b :: c :: d :: rest => do
    let unit ← unit? a b c d
    let (content, rest) ← string? rest
    return (.inl unit :: content, rest)
  | '\\' :: c :: rest => do
    let unit ← escapedUnit? c
    let (content, rest) ← string? rest
    return (.inl unit :: content, rest)
  | c :: rest =>
    if c.toNat < 0x20 then none
    else do
      let (content, rest) ← string? rest
      return (.inr c :: content, rest)

/-- The text of a string; none if a surrogate stands alone. -/
def text? : List (Nat ⊕ Char) → Option (List Char)
  | [] => some []
  | .inr c :: rest => (text? rest).map (c :: ·)
  | .inl unit :: rest =>
    if unit < 0xd800 ∨ 0xe000 ≤ unit then (text? rest).map (Char.ofNat unit :: ·)
    else if unit < 0xdc00 then
      match rest with
      | .inl low :: rest =>
        if 0xdc00 ≤ low ∧ low < 0xe000 then
          (text? rest).map (Char.ofNat (0x10000 + (unit - 0xd800) * 0x400 + (low - 0xdc00)) :: ·)
        else none
      | _ => none
    else none

/-- What follows one or more digits. -/
def afterDigits? (chars : List Char) : Option (List Char) :=
  if (chars.takeWhile Char.isDigit).isEmpty then none else some (chars.dropWhile Char.isDigit)

/-- What follows an exponent, and whether there is one. -/
def afterExponent? : List Char → Option (Bool × List Char)
  | c :: rest =>
    if c = 'e' ∨ c = 'E' then
      let rest := match rest with
        | '+' :: rest | '-' :: rest => rest
        | rest => rest
      (afterDigits? rest).map fun rest => (true, rest)
    else some (false, c :: rest)
  | [] => some (false, [])

/-- What follows a fraction and an exponent, and whether there is one of them. -/
def afterFraction? : List Char → Option (Bool × List Char)
  | '.' :: rest => do
    let (_, rest) ← afterExponent? (← afterDigits? rest)
    return (true, rest)
  | chars => afterExponent? chars

/-- A number. A zero in front stands alone. -/
def number? (chars : List Char) : Option (Json × List Char) := do
  let (negative, body) := match chars with
    | '-' :: rest => (true, rest)
    | rest => (false, rest)
  let digits := body.takeWhile Char.isDigit
  match digits with
  | [] => none
  | '0' :: _ :: _ => none
  | _ =>
    let (more, rest) ← afterFraction? (body.dropWhile Char.isDigit)
    let value := digits.foldl (fun n c => n * 10 + (c.toNat - '0'.toNat)) 0
    return (number (if negative || more then none else some value), rest)

mutual

/-- A value and what follows it. -/
def value? (fuel : Nat) (chars : List Char) : Option (Json × List Char) :=
  match fuel with
  | 0 => none
  | fuel + 1 =>
    match skipSpace chars with
    | 'n' :: 'u' :: 'l' :: 'l' :: rest => some (null, rest)
    | 't' :: 'r' :: 'u' :: 'e' :: rest => some (boolean true, rest)
    | 'f' :: 'a' :: 'l' :: 's' :: 'e' :: rest => some (boolean false, rest)
    | '"' :: rest => (string? rest).map fun (_, rest) => (string, rest)
    | '[' :: rest =>
      match skipSpace rest with
      | ']' :: rest => some (array [], rest)
      | rest => (items? fuel rest).map fun (items, rest) => (array items, rest)
    | '\x7b' :: rest =>
      match skipSpace rest with
      | '\x7d' :: rest => some (object [], rest)
      | rest => (members? fuel rest).map fun (members, rest) => (object members, rest)
    | chars => number? chars

/-- The items of an array, of which there is at least one more, and what follows its bracket. -/
def items? (fuel : Nat) (chars : List Char) : Option (List Json × List Char) :=
  match fuel with
  | 0 => none
  | fuel + 1 => do
    let (item, rest) ← value? fuel chars
    match skipSpace rest with
    | ']' :: rest => return ([item], rest)
    | ',' :: rest =>
      let (items, rest) ← items? fuel rest
      return (item :: items, rest)
    | _ => none

/-- The members of an object, of which there is at least one more, and what follows its brace. -/
def members? (fuel : Nat) (chars : List Char) : Option (List (Option String × Json) × List Char) :=
  match fuel with
  | 0 => none
  | fuel + 1 =>
    match skipSpace chars with
    | '"' :: rest => do
      let (content, rest) ← string? rest
      let key := (text? content).map String.ofList
      match skipSpace rest with
      | ':' :: rest =>
        let (value, rest) ← value? fuel rest
        match skipSpace rest with
        | '\x7d' :: rest => return ([(key, value)], rest)
        | ',' :: rest =>
          let (members, rest) ← members? fuel rest
          return ((key, value) :: members, rest)
        | _ => none
      | _ => none
    | _ => none

end

/-- The value that a whole text stands for. -/
def ofText? (text : String) : Option Json := do
  let chars := text.toList
  let (value, rest) ← value? (chars.length + 1) chars
  if (skipSpace rest).isEmpty then some value else none

end Json

end Blueprint
