import GuestExec.Config.Setting

/-!
# Tables of a TOML document

A `Tree` says what stands at each path through the tables of a document. Of an
array of tables only the last element can still be reached, so the paths below
the array are that element's.

No value is defined twice, and no table: a table that a header or a value has
defined takes no keys through dots, and a table that dots have defined takes no
header.
-/

namespace GuestExec.Toml

/-- How a table came about. -/
inductive TableForm where
  /-- By its own header. -/
  | header
  /-- By the header of a table below it. -/
  | implied
  /-- By a key with dots. -/
  | dotted
deriving DecidableEq, Repr

/-- What stands at a path. -/
inductive Node where
  | value (s : Setting)
  | table (form : TableForm)
  /-- An array of tables. -/
  | tables
deriving DecidableEq, Repr

/-- What stands at the paths of a document, later definitions first. -/
structure Tree where
  nodes : List (List String × Node) := []
deriving DecidableEq, Repr, Inhabited

namespace Tree

def get? (t : Tree) (path : List String) : Option Node := t.nodes.lookup path

def set (t : Tree) (path : List String) (node : Node) : Tree := ⟨(path, node) :: t.nodes⟩

/-- Nothing stands below `path` any more. -/
def clearBelow (t : Tree) (path : List String) : Tree :=
  ⟨t.nodes.filter fun (p, _) => !(path.isPrefixOf p && p != path)⟩

/-- Goes from `base` through the tables that `path` names and makes those that are missing, as
`missing` says; nothing if something in the way does not pass `admits`. -/
def descend (missing : TableForm) (admits : Node → Bool) (t : Tree) (base : List String) :
    (path : List String) → Option Tree
  | [] => some t
  | part :: path =>
    let base := base ++ [part]
    match t.get? base with
    | none => descend missing admits (t.set base (.table missing)) base path
    | some node => if admits node then descend missing admits t base path else none

/-- A header may lead through tables of any kind. -/
def admitsHeader : Node → Bool
  | .value _ => false
  | _ => true

/-- A key with dots may not lead through a table that has a header. -/
def admitsKey : Node → Bool
  | .value _ | .table .header => false
  | _ => true

/-- Gives the key `path`, counted from the table `base`, its value. -/
def define (t : Tree) (base path : List String) (s : Setting) : Option Tree := do
  let t ← t.descend .dotted admitsKey base path.dropLast
  if path.length ≠ 1 ∧ t.get? (base ++ path.dropLast) ≠ some (.table .dotted) then none
  if (t.get? (base ++ path)).isSome then none
  return t.set (base ++ path) (.value s)

/-- Opens the table with the header `path`. -/
def openTable (t : Tree) (path : List String) : Option Tree := do
  let t ← t.descend .implied admitsHeader [] path.dropLast
  match t.get? path with
  | none | some (.table .implied) => some (t.set path (.table .header))
  | _ => none

/-- Opens one more element of the array of tables with the header `path`. -/
def openElement (t : Tree) (path : List String) : Option Tree := do
  let t ← t.descend .implied admitsHeader [] path.dropLast
  match t.get? path with
  | none => some (t.set path .tables)
  | some .tables => some (t.clearBelow path)
  | _ => none

end Tree

/-- A table is no setting for any field. -/
def Node.setting : Node → Setting
  | .value s => s
  | _ => .other

/-- The names outside all tables, each with its last definition. -/
def members : List (List String × Node) → Record
  | [] => []
  | ([name], node) :: rest => (name, node.setting) :: (members rest).filter (·.1 != name)
  | _ :: rest => members rest

end GuestExec.Toml
