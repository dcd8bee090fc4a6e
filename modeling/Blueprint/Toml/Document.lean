import Blueprint.Toml.Quoted
import Blueprint.Toml.Table
/-!
TOML documents: lines with a key and a value, headers of tables, comments. Reading gives the
top-level table, or nothing if the text is not a document.
-/

namespace Blueprint.Toml

/-- Arrays and inline tables are nested less deeply than this, and keys have fewer parts. -/
def maxNesting : Nat := 80

/-- The text without blanks and tabs in front. -/
def skipBlanks (chars : List Char) : List Char :=
  chars.dropWhile fun c => c = ' ' || c = '\t'

/-- What follows the end of a line. -/
def afterNewline? : List Char → Option (List Char)
  | '\n' :: rest => some rest
  | '\r' :: '\n' :: rest => some rest
  | _ => none

/-- What follows the rest of a line that holds nothing but blanks and perhaps a comment. The text
may end there. -/
def afterLine? (chars : List Char) : Option (List Char) :=
  let rest := match skipBlanks chars with
    | '#' :: comment => comment.dropWhile isPlain
    | rest => rest
  if rest.isEmpty then some [] else afterNewline? rest

/-- The text without blanks, ends of lines and comments in front; in a comment or not. -/
def skipLines (inComment : Bool) : List Char → List Char
  | '\n' :: rest => skipLines false rest
  | '\r' :: '\n' :: rest => skipLines false rest
  | c :: rest =>
    if inComment then if isPlain c then skipLines true rest else c :: rest
    else if c = ' ' ∨ c = '\t' then skipLines false rest
    else if c = '#' then skipLines true rest
    else c :: rest
  | [] => []

/-- Characters of keys without quotes. -/
def isKeyChar (c : Char) : Bool :=
  c.isAlphanum || c = '-' || c = '_'

/-- One part of a dotted key. -/
def keyPart? : List Char → Option (String × List Char)
  | '"' :: rest => (basic? rest).map fun (content, rest) => (String.ofList content, rest)
  | '\'' :: rest => (literal? rest).map fun (content, rest) => (String.ofList content, rest)
  | chars =>
    let word := chars.takeWhile isKeyChar
    if word.isEmpty then none else some (String.ofList word, chars.dropWhile isKeyChar)

/-- A dotted key with the blanks around its parts. -/
def key? (fuel : Nat) (chars : List Char) : Option (List String × List Char) :=
  match fuel with
  | 0 => none
  | fuel + 1 => do
    let (part, rest) ← keyPart? (skipBlanks chars)
    match skipBlanks rest with
    | '.' :: rest => do
      let (parts, rest) ← key? fuel rest
      return (part :: parts, rest)
    | rest => return ([part], rest)

/-- A key, the sign of equality and the blanks after it. -/
def keyAndSign? (chars : List Char) : Option (List String × List Char) := do
  let (path, rest) ← key? (maxNesting - 1) chars
  match rest with
  | '=' :: rest => return (path, skipBlanks rest)
  | _ => none

mutual

/-- A value and what follows it. -/
def value? (fuel depth : Nat) (chars : List Char) : Option (Scalar × List Char) :=
  match fuel with
  | 0 => none
  | fuel + 1 =>
    match chars with
    | '[' :: rest =>
      if maxNesting ≤ depth + 1 then none
      else do
        let rest ← afterElements? fuel (depth + 1) rest
        return (.other, rest)
    | '{' :: rest =>
      if maxNesting ≤ depth + 1 then none
      else
        match skipBlanks rest with
        | '}' :: rest => some (.other, rest)
        | rest => do
          let rest ← afterPairs? fuel (depth + 1) [] rest
          return (.other, rest)
    | '"' :: _ | '\'' :: _ => do
      let rest ← afterString? chars
      return (.other, rest)
    | _ => Scalar.read? chars

/-- What follows the elements of an array and its closing bracket. -/
def afterElements? (fuel depth : Nat) (chars : List Char) : Option (List Char) :=
  match fuel with
  | 0 => none
  | fuel + 1 =>
    match skipLines false chars with
    | ']' :: rest => some rest
    | chars => do
      let (_, rest) ← value? fuel depth chars
      match skipLines false rest with
      | ']' :: rest => some rest
      | ',' :: rest => afterElements? fuel depth rest
      | _ => none

/-- What follows the pairs of an inline table, of which there is at least one more, and its closing
brace. -/
def afterPairs? (fuel depth : Nat) (entries : Entries) (chars : List Char) : Option (List Char) :=
  match fuel with
  | 0 => none
  | fuel + 1 => do
    let (path, rest) ← keyAndSign? chars
    let (scalar, rest) ← value? fuel depth rest
    let entries ← define entries path scalar
    match skipBlanks rest with
    | '}' :: rest => some rest
    | ',' :: rest => afterPairs? fuel depth entries rest
    | _ => none

end

/-- The lines of a document, in the table that the last header opened. -/
def lines? (fuel : Nat) (header : List String) (entries : Entries) (chars : List Char) :
    Option Entries :=
  match fuel with
  | 0 => none
  | fuel + 1 =>
    match skipBlanks chars with
    | [] => some entries
    | '[' :: '[' :: rest => do
      let (path, rest) ← key? (maxNesting - 1) rest
      let rest ← after? ']' (← after? ']' rest)
      lines? fuel path (← openElement entries path) (← afterLine? rest)
    | '[' :: rest => do
      let (path, rest) ← key? (maxNesting - 1) rest
      let rest ← after? ']' rest
      lines? fuel path (← openTable entries path) (← afterLine? rest)
    | '#' :: rest => do lines? fuel header entries (← afterLine? ('#' :: rest))
    | '\n' :: rest => lines? fuel header entries rest
    | '\r' :: rest => do lines? fuel header entries (← afterNewline? ('\r' :: rest))
    | chars => do
      let (path, rest) ← keyAndSign? chars
      let (scalar, rest) ← value? (rest.length + 2) 0 rest
      lines? fuel header (← defineIn header entries path scalar) (← afterLine? rest)

/-- The top-level table of a document. A byte order mark in front is skipped. -/
def document? (text : String) : Option Entries :=
  let chars := match text.toList with
    | c :: rest => if c.toNat = 0xfeff then rest else c :: rest
    | [] => []
  lines? (chars.length + 1) [] [] chars

end Blueprint.Toml
