import GuestExec.Json.Document

/-!
# Records as JSON

A record is written as an object with a line for each entry. Names are written
as they are: a field's name has no character that would need an escape.
-/

namespace GuestExec

/-- The setting as JSON. -/
def Setting.jsonText : Setting → String
  | .integer n => toString n
  | .flag b => toString b
  | .null | .other => "null"

namespace Json

/-- The line of an entry, up to the comma. -/
def line (entry : String × Setting) : String :=
  "  \"" ++ entry.1 ++ "\": " ++ entry.2.jsonText

/-- The record as JSON. -/
def text : Record → String
  | [] => "\x7b\x7d"
  | r => "\x7b\n" ++ ",\n".intercalate (r.map line) ++ "\n\x7d"

/-- JSON has a text for every record. -/
def library : Library where
  write r := .ok (text r)
  read text :=
    match read? text with
    | some d => .ok d
    | none => .error "no JSON document"

end Json

end GuestExec
