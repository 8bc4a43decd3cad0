import GuestExec.Config.Library
import GuestExec.Json.Token

/-!
# JSON documents of settings

A document is an object or an array. Its members and elements are kept as
settings, of which an object or an array inside is none; those are read for
their form alone, at any depth.
-/

namespace GuestExec.Json

mutual

/-- Reads a value. -/
def value : (fuel : Nat) → List Token → Option (Setting × List Token)
  | 0, _ => none
  | _ + 1, .null :: rest => some (.null, rest)
  | _ + 1, .flag b :: rest => some (.flag b, rest)
  | _ + 1, .natural n :: rest => some (.integer n, rest)
  | _ + 1, .number :: rest => some (.other, rest)
  | _ + 1, .string _ :: rest => some (.other, rest)
  | fuel + 1, .openObject :: rest => (members fuel rest).map fun (_, rest) => (.other, rest)
  | fuel + 1, .openArray :: rest => (elements fuel rest).map fun (_, rest) => (.other, rest)
  | _, _ => none

/-- Reads the members of an object, as far as its end. -/
def members : (fuel : Nat) → List Token → Option (List (Option String × Setting) × List Token)
  | 0, _ => none
  | _ + 1, .closeObject :: rest => some ([], rest)
  | fuel + 1, rest => moreMembers fuel rest

/-- Reads one member and those after it. -/
def moreMembers : (fuel : Nat) → List Token → Option (List (Option String × Setting) × List Token)
  | fuel + 1, .string key :: .colon :: rest =>
    match value fuel rest with
    | some (s, .comma :: rest) =>
      (moreMembers fuel rest).map fun (list, rest) => ((key, s) :: list, rest)
    | some (s, .closeObject :: rest) => some ([(key, s)], rest)
    | _ => none
  | _, _ => none

/-- Reads the elements of an array, as far as its end. -/
def elements : (fuel : Nat) → List Token → Option (List Setting × List Token)
  | 0, _ => none
  | _ + 1, .closeArray :: rest => some ([], rest)
  | fuel + 1, rest => moreElements fuel rest

/-- Reads one element and those after it. -/
def moreElements : (fuel : Nat) → List Token → Option (List Setting × List Token)
  | 0, _ => none
  | fuel + 1, rest =>
    match value fuel rest with
    | some (s, .comma :: rest) => (moreElements fuel rest).map fun (list, rest) => (s :: list, rest)
    | some (s, .closeArray :: rest) => some ([s], rest)
    | _ => none

end

/-- No token is read with more than this many calls for each of the tokens left. -/
def callsPerToken : Nat := 3

/-- A member with its name, which must be a whole text. -/
def named? : Option String × Setting → Option (String × Setting)
  | (none, _) => none
  | (some name, s) => some (name, s)

/-- Reads the tokens of a document. The names of an object's members must be whole texts. -/
def document? (list : List Token) : Option Document :=
  let fuel := callsPerToken * (list.length + 1)
  match list with
  | .openObject :: rest =>
    match members fuel rest with
    | some (ms, []) => (ms.mapM named?).map .record
    | _ => none
  | .openArray :: rest =>
    match elements fuel rest with
    | some (es, []) => some (.sequence es)
    | _ => none
  | _ => none

/-- Reads a text. -/
def read? (text : String) : Option Document :=
  tokens text.toList >>= document?

end GuestExec.Json
