import GuestExec.Toml.Text
import GuestExec.Word.Hex

/-!
# TOML strings and keys

A basic string stands in double quotes and may hold escapes; a literal string
stands in single quotes and holds none. Three quotes open a string of many
lines, which may hold one or two quotes in a row, also before its closing ones;
such a string is no key, so its text is not kept.
-/

namespace GuestExec.Toml

/-- The character with a number; surrogates and numbers past the last one have none. -/
def scalar? (digits : List Char) : Option Char := do
  let n ← ofHexDigits? digits
  if n.isValidChar then some (Char.ofNat n) else none

/-- The character that an escape of one letter stands for. -/
def shortEscape? : Char → Option Char
  | 'b' => some '\x08'
  | 't' => some '\t'
  | 'n' => some '\n'
  | 'f' => some '\x0c'
  | 'r' => some '\r'
  | '"' => some '"'
  | '\\' => some '\\'
  | _ => none

/-! ## Strings of one line -/

/-- The text of a basic string after its opening quote. -/
def basicBody : Reader (List Char)
  | [] => none
  | '"' :: rest => some ([], rest)
  | '\\' :: 'u' :: a :: b :: c :: d :: rest => do
    let char ← scalar? [a, b, c, d]
    let (text, rest) ← basicBody rest
    return (char :: text, rest)
  | '\\' :: 'U' :: a :: b :: c :: d :: e :: f :: g :: h :: rest => do
    let char ← scalar? [a, b, c, d, e, f, g, h]
    let (text, rest) ← basicBody rest
    return (char :: text, rest)
  | '\\' :: e :: rest => do
    let char ← shortEscape? e
    let (text, rest) ← basicBody rest
    return (char :: text, rest)
  | c :: rest =>
    if isPlain c then (basicBody rest).map fun (text, rest) => (c :: text, rest) else none

/-- The text of a literal string after its opening quote. -/
def literalBody : Reader (List Char)
  | [] => none
  | '\'' :: rest => some ([], rest)
  | c :: rest =>
    if isPlain c then (literalBody rest).map fun (text, rest) => (c :: text, rest) else none

/-! ## Strings of many lines -/

/-- Drops up to two quotes, which belong to the string that the three before them would close. -/
def dropQuotes (quote : Char) : List Char → List Char
  | a :: b :: rest =>
    if a == quote then (if b == quote then rest else b :: rest) else a :: b :: rest
  | [a] => if a == quote then [] else [a]
  | [] => []

/-- Skips the rest of a basic string of many lines. The last `quotes` characters were quotes, or a
backslash and blanks that the end of a line must follow. -/
def skipManyBasic : (quotes : Nat) → (continued : Bool) → List Char → Option (List Char)
  | _, _, '\n' :: rest => skipManyBasic 0 false rest
  | _, _, '\r' :: '\n' :: rest => skipManyBasic 0 false rest
  | _, _, [] => none
  | _, true, c :: rest => if isBlank c then skipManyBasic 0 true rest else none
  | quotes, false, '"' :: rest =>
    if quotes = 2 then some (dropQuotes '"' rest) else skipManyBasic (quotes + 1) false rest
  | _, false, '\\' :: 'u' :: a :: b :: c :: d :: rest => do
    let _ ← scalar? [a, b, c, d]
    skipManyBasic 0 false rest
  | _, false, '\\' :: 'U' :: a :: b :: c :: d :: e :: f :: g :: h :: rest => do
    let _ ← scalar? [a, b, c, d, e, f, g, h]
    skipManyBasic 0 false rest
  | _, false, '\\' :: e :: rest =>
    if (shortEscape? e).isSome then skipManyBasic 0 false rest
    else if isBlank e then skipManyBasic 0 true rest
    else if e == '\n' then skipManyBasic 0 false rest
    else
      match e, rest with
      | '\r', '\n' :: rest => skipManyBasic 0 false rest
      | _, _ => none
  | _, false, c :: rest => if isPlain c then skipManyBasic 0 false rest else none

/-- Skips the rest of a literal string of many lines, the last `quotes` characters being quotes. -/
def skipManyLiteral : (quotes : Nat) → List Char → Option (List Char)
  | _, '\n' :: rest => skipManyLiteral 0 rest
  | _, '\r' :: '\n' :: rest => skipManyLiteral 0 rest
  | _, [] => none
  | quotes, '\'' :: rest =>
    if quotes = 2 then some (dropQuotes '\'' rest) else skipManyLiteral (quotes + 1) rest
  | _, c :: rest => if isPlain c then skipManyLiteral 0 rest else none

/-- Skips a string. -/
def skipString? : List Char → Option (List Char)
  | '"' :: '"' :: '"' :: rest => skipManyBasic 0 false rest
  | '"' :: rest => (basicBody rest).map (·.2)
  | '\'' :: '\'' :: '\'' :: rest => skipManyLiteral 0 rest
  | '\'' :: rest => (literalBody rest).map (·.2)
  | _ => none

/-! ## Keys -/

/-- Characters of a key without quotes. -/
def isBare (c : Char) : Bool := c.isAlphanum || c == '-' || c == '_'

/-- One part of a key. -/
def keyPart : Reader String
  | '"' :: rest => (basicBody rest).map fun (text, rest) => (String.ofList text, rest)
  | '\'' :: rest => (literalBody rest).map fun (text, rest) => (String.ofList text, rest)
  | cs =>
    let text := cs.takeWhile isBare
    if text.isEmpty then none else some (String.ofList text, cs.dropWhile isBare)

/-- Parts with dots between them, and blanks around each. -/
def keyParts : (fuel : Nat) → Reader (List String)
  | 0, _ => none
  | fuel + 1, cs =>
    match keyPart (skipBlanks cs) with
    | none => none
    | some (part, rest) =>
      match skipBlanks rest with
      | '.' :: rest => (keyParts fuel rest).map fun (parts, rest) => (part :: parts, rest)
      | rest => some ([part], rest)

/-- A key has fewer parts, and arrays and tables are less deep, than this. -/
def depthLimit : Nat := 80

/-- A key, whose parts name a path through tables. -/
def key : Reader (List String) := fun cs =>
  (keyParts (cs.length + 1) cs).filter fun (parts, _) => decide (parts.length < depthLimit)

end GuestExec.Toml
