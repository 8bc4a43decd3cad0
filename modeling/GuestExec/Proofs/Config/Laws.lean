import GuestExec.Proofs.Config.Settings

/-!
# What the libraries of formats promise

Both formats keep the names, words and truth values of a record, in whatever order their documents
hold them. They differ in two points: JSON writes null and integers of every size, while TOML leaves
null out and ends its integers at 2^63 - 1.
-/

namespace GuestExec

/-- The entries that are not null. -/
def Record.present (r : Record) : Record :=
  r.filter fun entry => decide (entry.2 ≠ .null)

theorem Record.present_cons {entry : String × Setting} (there : entry.2 ≠ .null) (r : Record) :
    Record.present (entry :: r) = entry :: r.present :=
  List.filter_cons_of_pos (decide_eq_true there)

namespace Library

/-- The library writes and reads JSON: a record's entries are a document's, nulls among them. -/
structure KeepsJson (lib : Library) : Prop where
  /-- Every word is a number of JSON. -/
  writes : ∀ {r : Record}, r.IsPlain → ∃ text, lib.write r = .ok text
  reads : ∀ {r : Record} {text : String}, r.IsPlain → lib.write r = .ok text →
    ∃ entries, lib.read text = .ok (.record entries) ∧ entries.Perm r

/-- The library writes and reads TOML: a record's entries but its nulls are a document's. -/
structure KeepsToml (lib : Library) : Prop where
  /-- An integer of TOML is a signed word. -/
  writes : ∀ {r : Record}, r.IsPlain → ((∃ text, lib.write r = .ok text) ↔
    ∀ name n, (name, Setting.integer n) ∈ r → n ≤ 0x7fff_ffff_ffff_ffff)
  reads : ∀ {r : Record} {text : String}, r.IsPlain → lib.write r = .ok text →
    ∃ entries, lib.read text = .ok (.record entries) ∧ entries.Perm r.present

end Library

end GuestExec
