import GuestExec.Toml.Text
import GuestExec.Word.Hex

/-!
# TOML numbers, dates and times

Digits may have single underscores between them. An integer fits a signed word
of 64 bits; a leading zero stands alone unless it opens a hexadecimal, octal or
binary number. A positive float may not round to infinity.
-/

namespace GuestExec.Toml

/-! ## Digits -/

/-- The digits after a first one, without the underscores between them. -/
def moreDigits (isDigit : Char → Bool) : List Char → List Char × List Char
  | '_' :: c :: rest =>
    if isDigit c then
      let (digits, rest) := moreDigits isDigit rest
      (c :: digits, rest)
    else ([], '_' :: c :: rest)
  | c :: rest =>
    if isDigit c then
      let (digits, rest) := moreDigits isDigit rest
      (c :: digits, rest)
    else ([], c :: rest)
  | [] => ([], [])

/-- A run of digits, at least one. -/
def digitRun (isDigit : Char → Bool) : Reader (List Char)
  | c :: rest =>
    if isDigit c then
      let (digits, rest) := moreDigits isDigit rest
      some (c :: digits, rest)
    else none
  | [] => none

/-- The number that digits stand for. -/
def ofDigits (base : Nat) (digits : List Char) : Nat :=
  digits.foldl (fun n c => base * n + (hexDigit? c).getD 0) 0

/-- A sign, if there is one: is it a minus? -/
def sign : List Char → Bool × List Char
  | '-' :: rest => (true, rest)
  | '+' :: rest => (false, rest)
  | rest => (false, rest)

/-- Decimal digits, of which a leading zero stands alone. -/
def decimalDigits : Reader (List Char)
  | '0' :: rest => some (['0'], rest)
  | cs => digitRun Char.isDigit cs

/-! ## Integers -/

/-- A natural number in the given base that fits a signed word. -/
def prefixed (base : Nat) : Reader Int := fun cs => do
  let (digits, rest) ← digitRun (fun c => (hexDigit? c).any (· < base)) cs
  let n := ofDigits base digits
  if n < 0x8000_0000_0000_0000 then some (Int.ofNat n, rest) else none

def integer : Reader Int
  | '0' :: 'x' :: rest => prefixed 16 rest
  | '0' :: 'o' :: rest => prefixed 8 rest
  | '0' :: 'b' :: rest => prefixed 2 rest
  | cs => do
    let (negative, rest) := sign cs
    let (digits, rest) ← decimalDigits rest
    let n := Int.ofNat (ofDigits 10 digits)
    let n := if negative then -n else n
    if -0x8000_0000_0000_0000 ≤ n ∧ n < 0x8000_0000_0000_0000 then some (n, rest) else none

/-! ## Floats -/

/-- The least number that rounds to infinity as a double. -/
def overflowBound : Nat := (1 <<< 1024) - (1 <<< 970)

/-- `n * 10 ^ exponent` rounds to infinity. Decimal places far from the bound's decide without the
power. -/
def overflows (n : Nat) (exponent : Int) : Bool :=
  let places := Int.ofNat (Nat.toDigits 10 n).length + exponent
  if n = 0 || places < 300 then false
  else if 320 < places then true
  else decide (overflowBound * Nat.pow 10 (-exponent).toNat ≤ n * Nat.pow 10 exponent.toNat)

/-- A fraction's digits. -/
def fraction : Reader (List Char)
  | '.' :: rest => digitRun Char.isDigit rest
  | _ => none

def exponent : Reader Int
  | c :: rest => do
    if c != 'e' && c != 'E' then none
    let (negative, rest) := sign rest
    let (digits, rest) ← digitRun Char.isDigit rest
    let n := Int.ofNat (ofDigits 10 digits)
    return (if negative then -n else n, rest)
  | [] => none

/-- Skips a float of digits: it has a fraction, an exponent or both. -/
def skipFinite? (cs : List Char) : Option (List Char) := do
  let (negative, rest) := sign cs
  let (whole, rest) ← decimalDigits rest
  let (places, rest) ←
    match fraction rest with
    | some (places, rest) => some (places, rest)
    | none => (exponent rest).map fun _ => ([], rest)
  let (power, rest) := (exponent rest).getD (0, rest)
  let n := ofDigits 10 (whole ++ places)
  if !negative && overflows n (power - Int.ofNat places.length) then none else some rest

/-- Skips infinity or a value that is no number. -/
def skipSpecial? (cs : List Char) : Option (List Char) :=
  match (sign cs).2 with
  | 'i' :: 'n' :: 'f' :: rest => some rest
  | 'n' :: 'a' :: 'n' :: rest => some rest
  | _ => none

/-! ## Dates and times -/

/-- Two digits for a number from `low` to `high`. -/
def twoDigits (low high : Nat) : Reader Nat
  | a :: b :: rest =>
    let n := ofDigits 10 [a, b]
    if a.isDigit && b.isDigit && decide (low ≤ n) && decide (n ≤ high) then some (n, rest) else none
  | _ => none

def skipChar? (c : Char) : List Char → Option (List Char)
  | d :: rest => if d == c then some rest else none
  | [] => none

def isLeapYear (year : Nat) : Bool := year % 4 == 0 && (year % 100 != 0 || year % 400 == 0)

def daysIn (year month : Nat) : Nat :=
  if month = 2 then (if isLeapYear year then 29 else 28)
  else if month = 4 || month = 6 || month = 9 || month = 11 then 30
  else 31

def skipDate? (cs : List Char) : Option (List Char) := do
  let (century, rest) ← twoDigits 0 99 cs
  let (year, rest) ← twoDigits 0 99 rest
  let (month, rest) ← twoDigits 1 12 (← skipChar? '-' rest)
  let (_, rest) ← twoDigits 1 (daysIn (100 * century + year) month) (← skipChar? '-' rest)
  return rest

def skipTime? (cs : List Char) : Option (List Char) := do
  let (_, rest) ← twoDigits 0 23 cs
  let (_, rest) ← twoDigits 0 59 (← skipChar? ':' rest)
  let (_, rest) ← twoDigits 0 60 (← skipChar? ':' rest)
  match rest with
  | '.' :: c :: tail => if c.isDigit then some (tail.dropWhile Char.isDigit) else some rest
  | rest => some rest

/-- Skips the distance of a time from universal time, if it is given. -/
def skipOffset (cs : List Char) : List Char :=
  match cs with
  | [] => []
  | c :: rest =>
    if c == 'Z' || c == 'z' then rest
    else if c == '+' || c == '-' then
      let numeric := do
        let (_, rest) ← twoDigits 0 23 rest
        let (_, rest) ← twoDigits 0 59 (← skipChar? ':' rest)
        return rest
      numeric.getD cs
    else cs

/-- Skips a date, a date and time, or a time. -/
def skipDateTime? (cs : List Char) : Option (List Char) :=
  match skipDate? cs with
  | none => skipTime? cs
  | some [] => some []
  | some (c :: rest) =>
    if c == 'T' || c == 't' || c == ' ' then
      match skipTime? rest with
      | some rest => some (skipOffset rest)
      | none => some (c :: rest)
    else some (c :: rest)

end GuestExec.Toml
