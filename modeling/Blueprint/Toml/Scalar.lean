/-!
TOML values that are written without quotes or brackets: integers, floats, truth values, dates and
times. Integers and truth values are read; of the others it is only checked that they are written
as the format demands.
-/

namespace Blueprint.Toml

/-- A value as far as it is read. -/
inductive Scalar where
  | integer (value : Int)
  | boolean (value : Bool)
  | other
  deriving DecidableEq, Repr

/-- The value of a digit in a base. -/
def digit? (base : Nat) (c : Char) : Option Nat :=
  let value :=
    if '0' ≤ c ∧ c ≤ '9' then some (c.toNat - '0'.toNat)
    else if 'a' ≤ c ∧ c ≤ 'z' then some (c.toNat - 'a'.toNat + 10)
    else if 'A' ≤ c ∧ c ≤ 'Z' then some (c.toNat - 'A'.toNat + 10)
    else none
  value.filter fun digit => digit < base

/-- A number after its first digits; underscores stand between digits. -/
def moreDigits? (base value : Nat) : List Char → Option Nat
  | [] => some value
  | '_' :: c :: rest => do moreDigits? base (value * base + (← digit? base c)) rest
  | c :: rest => do moreDigits? base (value * base + (← digit? base c)) rest

/-- Digits, perhaps with zeros in front. -/
def digits? (base : Nat) : List Char → Option Nat
  | [] => none
  | c :: rest => do moreDigits? base (← digit? base c) rest

/-- A decimal number; zero stands in front only alone. -/
def decimal? : List Char → Option Nat
  | '0' :: _ :: _ => none
  | chars => digits? 10 chars

/-- Whether there is a minus, and what follows the sign. -/
def splitSign : List Char → Bool × List Char
  | '+' :: rest => (false, rest)
  | '-' :: rest => (true, rest)
  | chars => (false, chars)

/-- An integer of 64 bits. A base other than ten is named in front and takes no sign. -/
def integer? (chars : List Char) : Option Int :=
  let value : Option Int :=
    match chars with
    | '0' :: 'x' :: rest => (digits? 16 rest).map Int.ofNat
    | '0' :: 'o' :: rest => (digits? 8 rest).map Int.ofNat
    | '0' :: 'b' :: rest => (digits? 2 rest).map Int.ofNat
    | _ =>
      let (negative, rest) := splitSign chars
      (decimal? rest).map fun n => if negative then -(n : Int) else n
  value.filter fun n => -9223372036854775808 ≤ n ∧ n ≤ 9223372036854775807

/-- The numbers from here on are rounded to infinity as 64-bit floats. -/
def floatBound : Nat := Nat.pow 2 1024 - Nat.pow 2 970

/-- Whether `mantissa · 10 ^ exponent` is too large for a 64-bit float. -/
def overflows (mantissa : Nat) (exponent : Int) : Bool :=
  if mantissa = 0 then false
  else if 400 ≤ exponent then true
  else if 0 ≤ exponent then floatBound ≤ mantissa * Nat.pow 10 exponent.toNat
  else if mantissa.log2 < exponent.natAbs then false
  else floatBound * Nat.pow 10 exponent.natAbs ≤ mantissa

/-- The exponent at the end of a float, if there is one. -/
def exponent? : List Char → Option Int
  | [] => some 0
  | c :: rest =>
    if c = 'e' ∨ c = 'E' then
      let (negative, body) := splitSign rest
      (digits? 10 body).map fun n => if negative then -(n : Int) else n
    else none

/-- Whether the characters are a float. Numbers too large are no floats, but may be too small. -/
def isFloat (chars : List Char) : Bool :=
  let (negative, body) := splitSign chars
  let inNumber := fun c : Char => c.isDigit || c = '_'
  if body = ['i', 'n', 'f'] ∨ body = ['n', 'a', 'n'] then true
  else
    match decimal? (body.takeWhile inNumber), body.dropWhile inNumber with
    | some whole, '.' :: rest =>
      let places := rest.takeWhile inNumber
      match digits? 10 places, exponent? (rest.dropWhile inNumber) with
      | some fraction, some exponent =>
        let length := (places.filter Char.isDigit).length
        negative || !overflows (whole * Nat.pow 10 length + fraction) (exponent - length)
      | _, _ => false
    | some whole, c :: rest =>
      match exponent? (c :: rest) with
      | some exponent => negative || !overflows whole exponent
      | none => false
    | _, _ => false

/-- A number of two digits within bounds, and what follows it. -/
def twoDigits? (low high : Nat) : List Char → Option (Nat × List Char)
  | a :: b :: rest => do
    let value := (← digit? 10 a) * 10 + (← digit? 10 b)
    if low ≤ value ∧ value ≤ high then some (value, rest) else none
  | _ => none

/-- What follows a given character. -/
def after? (c : Char) : List Char → Option (List Char)
  | d :: rest => if c = d then some rest else none
  | [] => none

/-- Days of a month in the Gregorian calendar. -/
def daysOf (year month : Nat) : Nat :=
  if month = 2 then
    if year % 4 = 0 ∧ (year % 100 ≠ 0 ∨ year % 400 = 0) then 29 else 28
  else if month = 4 ∨ month = 6 ∨ month = 9 ∨ month = 11 then 30
  else 31

/-- What follows a date. -/
def afterDate? (chars : List Char) : Option (List Char) := do
  let (century, rest) ← twoDigits? 0 99 chars
  let (year, rest) ← twoDigits? 0 99 rest
  let (month, rest) ← twoDigits? 1 12 (← after? '-' rest)
  let (_, rest) ← twoDigits? 1 (daysOf (century * 100 + year) month) (← after? '-' rest)
  return rest

/-- What follows the fraction of a second, if there is one. -/
def afterFraction? : List Char → Option (List Char)
  | '.' :: rest =>
    if (rest.takeWhile Char.isDigit).isEmpty then none else some (rest.dropWhile Char.isDigit)
  | chars => some chars

/-- What follows a time of day; seconds may reach sixty. -/
def afterTime? (chars : List Char) : Option (List Char) := do
  let (_, rest) ← twoDigits? 0 23 chars
  let (_, rest) ← twoDigits? 0 59 (← after? ':' rest)
  let (_, rest) ← twoDigits? 0 60 (← after? ':' rest)
  afterFraction? rest

/-- Whether the characters say how far a time is from universal time. -/
def isOffset : List Char → Bool
  | [c] => c = 'Z' || c = 'z'
  | c :: rest =>
    (c = '+' || c = '-') &&
      (do
        let (_, rest) ← twoDigits? 0 23 rest
        let (_, rest) ← twoDigits? 0 59 (← after? ':' rest)
        return rest.isEmpty).getD false
  | [] => false

/-- Whether the characters are a time that may follow a date. -/
def isDatedTime (chars : List Char) : Bool :=
  match afterTime? chars with
  | some rest => rest.isEmpty || isOffset rest
  | none => false

/-- Whether the characters are a date alone. -/
def isDate (chars : List Char) : Bool :=
  afterDate? chars = some []

/-- Whether the characters are a date, a time, or a date with a time. -/
def isDateTime (chars : List Char) : Bool :=
  match afterDate? chars with
  | some [] => true
  | some (c :: rest) => (c = 'T' || c = 't') && isDatedTime rest
  | none => afterTime? chars = some []

/-- The value that the characters are written for, if any. -/
def Scalar.ofChars? (chars : List Char) : Option Scalar :=
  if chars = ['t', 'r', 'u', 'e'] then some (.boolean true)
  else if chars = ['f', 'a', 'l', 's', 'e'] then some (.boolean false)
  else
    match integer? chars with
    | some n => some (.integer n)
    | none => if isFloat chars || isDateTime chars then some .other else none

/-- Characters that values without quotes or brackets are made of. -/
def isBare (c : Char) : Bool :=
  c.isAlphanum || c = '+' || c = '-' || c = '_' || c = '.' || c = ':'

/-- A value without quotes or brackets and what follows it. A blank may stand between a date and a
time. -/
def Scalar.read? (chars : List Char) : Option (Scalar × List Char) := do
  let word := chars.takeWhile isBare
  let rest := chars.dropWhile isBare
  let scalar ← Scalar.ofChars? word
  match rest with
  | ' ' :: more =>
    if isDate word && isDatedTime (more.takeWhile isBare) then
      return (scalar, more.dropWhile isBare)
    else return (scalar, rest)
  | _ => return (scalar, rest)

end Blueprint.Toml
