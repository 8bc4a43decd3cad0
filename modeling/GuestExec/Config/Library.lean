import GuestExec.Config.Setting

/-!
# Documents and their libraries

A `Library` knows one format of text: it writes records and reads documents. A
configuration is read from a document whichever library has read it.
-/

namespace GuestExec

/-- What a text holds. -/
inductive Document where
  | record (entries : Record)
  /-- Settings without names, in the order of the fields. -/
  | sequence (elements : List Setting)
deriving DecidableEq, Repr

namespace Document

/-- What the document sets a field to: an entry by its name, an element by its place. -/
def find (d : Document) (f : Field) : Option Setting :=
  match d with
  | .record r => r.lookup f.name
  | .sequence es => es[Field.all.idxOf f]?

/-- Every field is set at most once, and every element is for a field. -/
def isUnambiguous : Document → Bool
  | .record r => Field.all.all fun f => decide ((r.countP fun (name, _) => name == f.name) ≤ 1)
  | .sequence es => decide (es.length ≤ Field.all.length)

end Document

/-- The configuration that a document sets. Names that are no field's are passed over. -/
def CoreConfig.ofDocument? (d : Document) : Option CoreConfig :=
  if d.isUnambiguous then ofSettings d.find else none

/-- Writes and reads one format of text. -/
structure Library where
  /-- The text for a record, or why there is none. -/
  write : Record → Except String String
  /-- The document that a text holds, or why it holds none. -/
  read : String → Except String Document

end GuestExec
