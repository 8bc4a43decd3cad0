import GuestExec.Toml.Number
import GuestExec.Toml.Quoted
import GuestExec.Toml.Tree

/-!
# TOML values

Integers and truth values are kept as settings; of all other values only the
extent is read.
-/

namespace GuestExec.Toml

/-- A number, a date or a time. -/
def number : Reader Setting := fun cs =>
  match skipDateTime? cs with
  | some rest => some (.other, rest)
  | none =>
    match skipFinite? cs with
    | some rest => some (.other, rest)
    | none =>
      match skipSpecial? cs with
      | some rest => some (.other, rest)
      | none => (integer cs).map fun (n, rest) => (.integer n, rest)

/-- A value that holds no others. -/
def scalar : Reader Setting
  | 't' :: 'r' :: 'u' :: 'e' :: rest => some (.flag true, rest)
  | 'f' :: 'a' :: 'l' :: 's' :: 'e' :: rest => some (.flag false, rest)
  | cs =>
    match skipString? cs with
    | some rest => some (.other, rest)
    | none => number cs

/-- Skips the elements of an array and its closing bracket; a comma may stand after the last. -/
def skipElements (element : Reader Setting) : (fuel : Nat) → List Char → Option (List Char)
  | 0, _ => none
  | fuel + 1, cs =>
    match skipLines false cs with
    | none => none
    | some (']' :: rest) => some rest
    | some cs => do
      let (_, rest) ← element cs
      match ← skipLines false rest with
      | ',' :: rest => skipElements element fuel rest
      | ']' :: rest => some rest
      | _ => none

/-- The keys and values of an inline table, and its closing brace. -/
def inlinePairs (element : Reader Setting) : (fuel : Nat) → Reader (List (List String × Setting))
  | 0, _ => none
  | fuel + 1, cs => do
    let (path, rest) ← key cs
    let (s, rest) ← element (skipBlanks (← skipChar? '=' rest))
    match skipBlanks rest with
    | ',' :: rest =>
      (inlinePairs element fuel rest).map fun (pairs, rest) => ((path, s) :: pairs, rest)
    | '\x7d' :: rest => some ([(path, s)], rest)
    | _ => none

/-- Skips an inline table after its opening brace; its keys may not define anything twice. -/
def skipInline (element : Reader Setting) (cs : List Char) : Option (List Char) :=
  match skipBlanks cs with
  | '\x7d' :: rest => some rest
  | cs => do
    let (pairs, rest) ← inlinePairs element (cs.length + 1) cs
    let _ ← pairs.foldlM (fun (t : Tree) (path, s) => t.define [] path s) {}
    return rest

/-- A value in which arrays and inline tables are at most `depth` deep. -/
def value : (depth : Nat) → Reader Setting
  | 0, cs => scalar cs
  | depth + 1, '[' :: rest =>
    (skipElements (value depth) (rest.length + 1) rest).map fun rest => (.other, rest)
  | depth + 1, '\x7b' :: rest => (skipInline (value depth) rest).map fun rest => (.other, rest)
  | _ + 1, cs => scalar cs

end GuestExec.Toml
