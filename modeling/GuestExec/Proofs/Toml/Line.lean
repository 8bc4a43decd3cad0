import GuestExec.Proofs.Toml.Number
import GuestExec.Toml.Document

/-!
# A line that sets a key

The key is bare, with one blank on each side of the equals sign. Reading such a line outside all
tables adds the key to the tree, if it is not there, and goes on with the next line.
-/

namespace GuestExec.Toml

variable {c d : Char} {name rest text : List Char} {s : Setting}

/-! ## Keys -/

theorem ne_of_isBare (bare : isBare c = true) (other : isBare d = false) : c ≠ d := by
  rintro rfl
  rw [bare] at other
  cases other

theorem cons_ne_of_isBare (bare : isBare c = true) (other : isBare d = false) :
    c :: rest ≠ d :: text :=
  fun eq => ne_of_isBare bare other (List.cons.inj eq).1

theorem skipBlanks_of_isBare (bare : isBare c = true) (rest : List Char) :
    skipBlanks (c :: rest) = c :: rest := by
  have solid : isBlank c = false := by
    rw [isBlank, beq_eq_false_iff_ne.2 (ne_of_isBare bare rfl),
      beq_eq_false_iff_ne.2 (ne_of_isBare bare rfl), Bool.false_or]
  rw [skipBlanks, List.dropWhile_cons_of_neg (by simp [solid])]

theorem keyPart_append (bare : ∀ c ∈ name, isBare c = true) (some : name ≠ []) (rest : List Char) :
    keyPart (name ++ ' ' :: rest) = .some (String.ofList name, ' ' :: rest) := by
  have taken : (name ++ ' ' :: rest).takeWhile isBare = name := by
    rw [List.takeWhile_append_of_pos bare, List.takeWhile_cons_of_neg (by decide), List.append_nil]
  have left : (name ++ ' ' :: rest).dropWhile isBare = ' ' :: rest := by
    rw [List.dropWhile_append_of_pos bare, List.dropWhile_cons_of_neg (by decide)]
  cases name with
  | nil => exact absurd rfl some
  | cons c name =>
    rw [keyPart, taken, left]
    · rfl
    all_goals exact fun _ => cons_ne_of_isBare (bare c List.mem_cons_self) rfl

theorem key_append (bare : ∀ c ∈ name, isBare c = true) (some : name ≠ []) (rest : List Char) :
    key (name ++ ' ' :: '=' :: rest) = .some ([String.ofList name], '=' :: rest) := by
  have skipped : skipBlanks (name ++ ' ' :: '=' :: rest) = name ++ ' ' :: '=' :: rest := by
    cases name with
    | nil => exact absurd rfl some
    | cons c name => exact skipBlanks_of_isBare (bare c List.mem_cons_self) _
  have parts : ∀ fuel, keyParts (fuel + 1) (name ++ ' ' :: '=' :: rest) =
      .some ([String.ofList name], '=' :: rest) := by
    intro fuel
    rw [keyParts, skipped, keyPart_append bare some]
    rfl
  rw [key, parts]
  rfl

/-! ## Definitions -/

/-- At the top of a document a key that is not there can be set. -/
theorem Tree.define_top {t : Tree} {part : String} (fresh : t.get? [part] = none) (s : Setting) :
    t.define [] [part] s = some (t.set [part] (.value s)) := by
  rw [define]
  simp [descend, fresh]

namespace Document

/-- The line sets its key, and what follows it is read next. -/
theorem lines_set (bare : ∀ c ∈ name, isBare c = true) (some : name ≠ []) {d : Document}
    (top : d.table = []) (fresh : d.tree.get? [String.ofList name] = none)
    (read : value (depthLimit - 1) (skipBlanks text) = .some (s, '\n' :: rest)) (fuel : Nat) :
    lines (fuel + 1) d (name ++ ' ' :: '=' :: text) =
      lines fuel { d with tree := d.tree.set [String.ofList name] (.value s) } rest := by
  have pair : d.pair (name ++ ' ' :: '=' :: text) =
      .some ({ d with tree := d.tree.set [String.ofList name] (.value s) }, '\n' :: rest) := by
    rw [Document.pair, key_append bare some]
    simp only [Option.bind_eq_bind, Option.bind_some, skipChar?, beq_self_eq_true, if_true, read,
      top, Tree.define_top fresh]
    rfl
  cases name with
  | nil => exact absurd rfl some
  | cons c name =>
    have bare := bare c List.mem_cons_self
    have other : (c == '#' || c == '\n' || c == '\r') = false := by
      rw [beq_eq_false_iff_ne.2 (ne_of_isBare bare rfl),
        beq_eq_false_iff_ne.2 (ne_of_isBare bare rfl),
        beq_eq_false_iff_ne.2 (ne_of_isBare bare rfl)]
      rfl
    rw [List.cons_append] at pair ⊢
    have content : d.content (c :: (name ++ ' ' :: '=' :: text)) =
        d.pair (c :: (name ++ ' ' :: '=' :: text)) := by
      rw [Document.content, other, if_neg Bool.false_ne_true]
      · exact fun _ bracket => absurd bracket (ne_of_isBare bare rfl)
      · exact ne_of_isBare bare rfl
    rw [lines, skipBlanks_of_isBare bare, content, pair]
    · rfl
    · exact List.cons_ne_nil _ _

end Document

end GuestExec.Toml
