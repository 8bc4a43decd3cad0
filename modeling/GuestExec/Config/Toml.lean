import GuestExec.Config.Library
import GuestExec.Toml.Document

/-!
# Records as TOML

A record is written with a line for each entry, and none for an entry set to
null, which TOML has no word for. An integer is a signed word, so a record with
a greater one has no text.
-/

namespace GuestExec

namespace Setting

/-- The setting as TOML. -/
def tomlText? : Setting → Option String
  | .integer n => some (toString n)
  | .flag b => some (toString b)
  | .null | .other => none

/-- TOML has a way to write the setting, or to leave it out. -/
def fitsToml : Setting → Bool
  | .integer n => decide (n < 0x8000_0000_0000_0000)
  | _ => true

end Setting

namespace Toml

/-- The line of an entry, if it has one. -/
def line (entry : String × Setting) : Option String :=
  entry.2.tomlText?.map fun text => entry.1 ++ " = " ++ text ++ "\n"

def library : Library where
  write r :=
    if r.all (·.2.fitsToml) then .ok (String.join (r.filterMap line))
    else .error "an integer is out of range"
  read text :=
    match Document.parse text with
    | some d => .ok (.record (members d.tree.nodes))
    | none => .error "no TOML document"

end Toml

end GuestExec
