import GuestExec.Toml.Value

/-!
# TOML documents

A document is a sequence of lines: a key with its value, a header that opens a
table for the keys after it, or nothing but blanks and a comment.
-/

namespace GuestExec.Toml

/-- A document as far as it has been read. -/
structure Document where
  tree : Tree := {}
  /-- The path of the table that is open. -/
  table : List String := []
deriving DecidableEq, Repr, Inhabited

namespace Document

/-- Reads a header after its opening bracket and opens its table. -/
def header (d : Document) (cs : List Char) : Option (Document × List Char) := do
  let (path, rest) ← key cs
  let rest ← skipChar? ']' rest
  return ({ tree := ← d.tree.openTable path, table := path }, rest)

/-- Reads an array header after its opening brackets and opens one more element. -/
def elementHeader (d : Document) (cs : List Char) : Option (Document × List Char) := do
  let (path, rest) ← key cs
  let rest ← skipChar? ']' rest
  let rest ← skipChar? ']' rest
  return ({ tree := ← d.tree.openElement path, table := path }, rest)

/-- Reads a key and its value into the open table. -/
def pair (d : Document) (cs : List Char) : Option (Document × List Char) := do
  let (path, rest) ← key cs
  let (s, rest) ← value (depthLimit - 1) (skipBlanks (← skipChar? '=' rest))
  return ({ d with tree := ← d.tree.define d.table path s }, rest)

/-- Reads what stands on a line before its comment. -/
def content (d : Document) : List Char → Option (Document × List Char)
  | [] => some (d, [])
  | '[' :: '[' :: rest => d.elementHeader rest
  | '[' :: rest => d.header rest
  | c :: rest =>
    if c == '#' || c == '\n' || c == '\r' then some (d, c :: rest) else d.pair (c :: rest)

/-- Reads line after line. -/
def lines : (fuel : Nat) → Document → List Char → Option Document
  | _, d, [] => some d
  | 0, _, _ => none
  | fuel + 1, d, cs => do
    let (d, rest) ← d.content (skipBlanks cs)
    lines fuel d (← lineEnd? rest)

/-- Reads a text, which may begin with a byte order mark. -/
def parse (text : String) : Option Document :=
  let cs := match text.toList with
    | '\ufeff' :: rest => rest
    | cs => cs
  lines (cs.length + 1) {} cs

end Document

end GuestExec.Toml
