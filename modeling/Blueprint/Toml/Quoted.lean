/-!
Quoted text in TOML: basic strings, in which a backslash escapes, and literal strings, in which
nothing does, on one line or on several.
-/

namespace Blueprint.Toml

/-- Characters that may stand in text and comments: no controls but the tab. -/
def isPlain (c : Char) : Bool :=
  c = '\t' || (0x20 ≤ c.toNat && c.toNat ≠ 0x7f)

/-- A hexadecimal digit. -/
def hexDigit? (c : Char) : Option Nat :=
  if '0' ≤ c ∧ c ≤ '9' then some (c.toNat - '0'.toNat)
  else if 'a' ≤ c ∧ c ≤ 'f' then some (c.toNat - 'a'.toNat + 10)
  else if 'A' ≤ c ∧ c ≤ 'F' then some (c.toNat - 'A'.toNat + 10)
  else none

/-- The character whose code point is written in hexadecimal digits. -/
def codePoint? (digits : List Char) : Option Char := do
  let code ← digits.foldlM (fun value c => return value * 16 + (← hexDigit? c)) 0
  if h : code.isValidChar then some (Char.ofNatAux code h) else none

/-- The character that a single letter stands for after a backslash. -/
def escaped? : Char → Option Char
  | 'b' => some '\x08'
  | 't' => some '\t'
  | 'n' => some '\n'
  | 'f' => some '\x0c'
  | 'r' => some '\r'
  | '"' => some '"'
  | '\\' => some '\\'
  | _ => none

/-- The content of a basic string after its opening quote, and what follows the closing one. -/
def basic? : List Char → Option (List Char × List Char)
  | [] => none
  | '"' :: rest => some ([], rest)
  | '\\' :: 'u' :: a :: b :: c :: d :: rest => do
    let char ← codePoint? [a, b, c, d]
    let (content, rest) ← basic? rest
    return (char :: content, rest)
  | '\\' :: 'U' :: a :: b :: c :: d :: e :: f :: g :: h :: rest => do
    let char ← codePoint? [a, b, c, d, e, f, g, h]
    let (content, rest) ← basic? rest
    return (char :: content, rest)
  | '\\' :: c :: rest => do
    let char ← escaped? c
    let (content, rest) ← basic? rest
    return (char :: content, rest)
  | c :: rest =>
    if isPlain c then do
      let (content, rest) ← basic? rest
      return (c :: content, rest)
    else none

/-- The content of a literal string after its opening quote, and what follows the closing one. -/
def literal? : List Char → Option (List Char × List Char)
  | [] => none
  | '\'' :: rest => some ([], rest)
  | c :: rest =>
    if isPlain c then do
      let (content, rest) ← literal? rest
      return (c :: content, rest)
    else none

/-- Where a reader of a basic string on several lines is: in text, after a backslash with only
blanks up to the end of the line, or in the space that such a backslash joins. -/
inductive Joining where
  | text
  | lineEnd
  | space
  deriving DecidableEq, Repr

/-- What follows a basic string on several lines, read from after its opening quotes. Up to two
quotes may stand before the closing three. -/
def afterBasicLines? (mode : Joining) : List Char → Option (List Char)
  | [] => none
  | '\n' :: rest => afterBasicLines? (if mode = .text then .text else .space) rest
  | '\r' :: '\n' :: rest => afterBasicLines? (if mode = .text then .text else .space) rest
  | ' ' :: rest => afterBasicLines? mode rest
  | '\t' :: rest => afterBasicLines? mode rest
  | c :: rest =>
    if mode = .lineEnd then none
    else
      match c, rest with
      | '"', '"' :: '"' :: '"' :: '"' :: rest => some rest
      | '"', '"' :: '"' :: '"' :: rest => some rest
      | '"', '"' :: '"' :: rest => some rest
      | '\\', 'u' :: a :: b :: c :: d :: rest => do
        let _ ← codePoint? [a, b, c, d]
        afterBasicLines? .text rest
      | '\\', 'U' :: a :: b :: c :: d :: e :: f :: g :: h :: rest => do
        let _ ← codePoint? [a, b, c, d, e, f, g, h]
        afterBasicLines? .text rest
      | '\\', ' ' :: rest => afterBasicLines? .lineEnd rest
      | '\\', '\t' :: rest => afterBasicLines? .lineEnd rest
      | '\\', '\n' :: rest => afterBasicLines? .space rest
      | '\\', '\r' :: '\n' :: rest => afterBasicLines? .space rest
      | '\\', c :: rest => do
        let _ ← escaped? c
        afterBasicLines? .text rest
      | c, rest => if isPlain c && c ≠ '\\' then afterBasicLines? .text rest else none

/-- What follows a literal string on several lines, read from after its opening quotes. Up to two
quotes may stand before the closing three. -/
def afterLiteralLines? : List Char → Option (List Char)
  | [] => none
  | '\'' :: '\'' :: '\'' :: '\'' :: '\'' :: rest => some rest
  | '\'' :: '\'' :: '\'' :: '\'' :: rest => some rest
  | '\'' :: '\'' :: '\'' :: rest => some rest
  | '\n' :: rest => afterLiteralLines? rest
  | '\r' :: '\n' :: rest => afterLiteralLines? rest
  | c :: rest => if isPlain c then afterLiteralLines? rest else none

/-- What follows a string of any kind. -/
def afterString? : List Char → Option (List Char)
  | '"' :: '"' :: '"' :: rest => afterBasicLines? .text rest
  | '\'' :: '\'' :: '\'' :: rest => afterLiteralLines? rest
  | '"' :: rest => (basic? rest).map (·.2)
  | '\'' :: rest => (literal? rest).map (·.2)
  | _ => none

end Blueprint.Toml
