import GuestExec.Config.Toml
import GuestExec.Proofs.Config.Laws
import GuestExec.Proofs.Toml.Line

/-!
# The TOML that is written is read back

Every entry that is not null has its line. Line after line, what stands in the document's tree is
what the record has in the lines so far.
-/

namespace GuestExec

open Toml

namespace Setting

variable {s : Setting} {text : String}

theorem IsPlain.tomlText?_eq_none (plain : s.IsPlain) : s.tomlText? = none ↔ s = .null := by
  cases plain with
  | null => exact iff_of_true rfl rfl
  | word n => exact iff_of_false nofun nofun
  | flag b => exact iff_of_false nofun nofun

/-- What is written for a setting is read as that setting, up to the end of the line. -/
theorem IsPlain.value_tomlText (plain : s.IsPlain) (fits : s.fitsToml = true)
    (written : s.tomlText? = some text) (depth : Nat) (rest : List Char) :
    value (depth + 1) (skipBlanks (' ' :: (text.toList ++ '\n' :: rest))) =
      some (s, '\n' :: rest) := by
  cases plain with
  | null => cases written
  | word n =>
    cases written
    have small : n.toNat < 0x8000_0000_0000_0000 := by
      rw [fitsToml, decide_eq_true_iff] at fits
      omega
    obtain ⟨d, ds, digits, digit⟩ := exists_toDigits_eq n.toNat
    have bare : isBare d = true := by
      rw [isBare, Char.isAlphanum, digit, Bool.or_true, Bool.true_or, Bool.true_or]
    have read := value_toDigits small depth rest
    rw [toList_toString_natCast]
    rw [digits, List.cons_append] at read ⊢
    exact (congrArg (value _) (skipBlanks_of_isBare bare _)).trans read
  | flag b =>
    cases written
    cases b <;> rfl

end Setting

theorem IsName.isBare {name : String} (named : IsName name) :
    ∀ c ∈ name.toList, Toml.isBare c = true := by
  intro c mem
  rcases named.2 c mem with letter | rfl
  · rw [Toml.isBare, letter, Bool.true_or, Bool.true_or]
  · rfl

namespace Toml

/-! ## Trees without tables -/

/-- The nodes of these entries. -/
def nodes (r : Record) : List (List String × Node) :=
  r.map fun (name, s) => ([name], .value s)

variable {r todo : Record} {name text : String} {s : Setting} {fuel : Nat}

theorem members_nodes (nodup : (r.map Prod.fst).Nodup) : members (nodes r) = r := by
  induction r with
  | nil => rfl
  | cons entry r ih =>
    rw [List.map_cons, List.nodup_cons] at nodup
    have others : (r.filter (·.1 != entry.1)) = r := by
      refine List.filter_eq_self.2 fun e mem => bne_iff_ne.2 ?_
      intro eq
      exact nodup.1 (List.mem_map.2 ⟨e, mem, eq⟩)
    rw [nodes, List.map_cons, members, ← nodes, ih nodup.2, others]
    rfl

theorem get?_nodes (new : name ∉ r.map Prod.fst) : (Tree.mk (nodes r)).get? [name] = none := by
  refine List.lookup_eq_none_iff.2 fun node mem => bne_iff_ne.2 ?_
  obtain ⟨entry, there, rfl⟩ := List.mem_map.1 mem
  intro eq
  exact new (List.mem_map.2 ⟨entry, there, (List.singleton_inj.1 eq).symm⟩)

/-! ## Lines one by one -/

/-- The text of these entries. -/
def lines (r : Record) : List Char :=
  (r.filterMap line).flatMap String.toList

theorem lines_of_none (unwritten : s.tomlText? = none) :
    lines ((name, s) :: todo) = lines todo := by
  rw [lines, List.filterMap_cons_none (by rw [line, unwritten]; rfl)]
  rfl

theorem lines_of_some (written : s.tomlText? = some text) :
    lines ((name, s) :: todo) =
      name.toList ++ ' ' :: '=' :: ' ' :: (text.toList ++ '\n' :: lines todo) := by
  have one : line (name, s) = some (name ++ " = " ++ text ++ "\n") := by
    rw [line, written]
    rfl
  rw [lines, List.filterMap_cons_some one, List.flatMap_cons, ← lines]
  simp

/-- Outside all tables, the document's tree holds the entries that have been read, the last one
first, and each line that follows adds its entry. -/
theorem lines_lines (done : Record) (plain : todo.IsPlain)
    (fits : ∀ entry ∈ todo, entry.2.fitsToml = true)
    (nodup : ((done ++ todo).map Prod.fst).Nodup) (enough : (lines todo).length < fuel) :
    Document.lines fuel { tree := ⟨nodes done.reverse⟩ } (lines todo) =
      some { tree := ⟨nodes (done ++ todo.present).reverse⟩ } := by
  induction todo generalizing done fuel with
  | nil =>
    rw [Record.present, List.filter_nil, List.append_nil, lines, List.filterMap_nil,
      List.flatMap_nil, Document.lines]
  | cons entry todo ih =>
    obtain ⟨name, s⟩ := entry
    have named := plain.names _ List.mem_cons_self
    have setting := plain.settings _ List.mem_cons_self
    rw [List.forall_mem_cons] at fits
    cases written : s.tomlText? with
    | none =>
      obtain rfl := setting.tomlText?_eq_none.1 written
      rw [lines_of_none written] at enough ⊢
      refine ih done plain.tail fits.2 (nodup.sublist ?_) enough
      exact ((List.sublist_cons_self _ _).append_left done).map Prod.fst
    | some text =>
      have there : s ≠ .null := fun null => by
        rw [setting.tomlText?_eq_none.2 null] at written
        cases written
      rw [lines_of_some written] at enough ⊢
      obtain ⟨fuel, rfl⟩ : ∃ k, fuel = k + 1 := ⟨fuel - 1, by omega⟩
      have new : name ∉ done.reverse.map Prod.fst := by
        rw [List.map_reverse, List.mem_reverse]
        rw [List.map_append, List.nodup_append] at nodup
        exact fun old => nodup.2.2 name old name List.mem_cons_self rfl
      have read := setting.value_tomlText fits.1 written (depthLimit - 2) (lines todo)
      have fresh : (Tree.mk (nodes done.reverse)).get? [String.ofList name.toList] = none := by
        rw [String.ofList_toList]
        exact get?_nodes new
      rw [Document.lines_set named.isBare named.1 rfl fresh read, String.ofList_toList]
      rw [List.append_cons] at nodup
      have left : (lines todo).length < fuel := by
        simp only [List.length_append, List.length_cons] at enough
        omega
      have rest := ih _ plain.tail fits.2 nodup left
      rw [List.append_assoc, List.reverse_append] at rest
      rw [Record.present_cons there]
      exact rest

/-- The text begins with a name, so with no byte order mark. -/
theorem lines_ne (plain : r.IsPlain) (rest : List Char) : lines r ≠ '\ufeff' :: rest := by
  induction r with
  | nil => exact (List.cons_ne_nil _ _).symm
  | cons entry r ih =>
    obtain ⟨name, s⟩ := entry
    have named := plain.names _ List.mem_cons_self
    cases written : s.tomlText? with
    | none =>
      rw [lines_of_none written]
      exact ih plain.tail
    | some text =>
      rw [lines_of_some written]
      cases chars : name.toList with
      | nil => exact absurd chars named.1
      | cons c cs => exact cons_ne_of_isBare (named.isBare c (chars ▸ List.mem_cons_self)) rfl

theorem parse_of_toList (plain : r.IsPlain) (written : text.toList = lines r) :
    Document.parse text = Document.lines ((lines r).length + 1) {} (lines r) := by
  rw [Document.parse, written]
  split
  · rename_i rest eq
    exact absurd eq (lines_ne plain rest)
  · rfl

/-! ## Whole records -/

theorem write_eq_ok_iff : library.write r = .ok text ↔
    (∀ entry ∈ r, entry.2.fitsToml = true) ∧ text = String.join (r.filterMap line) := by
  rw [← List.all_eq_true]
  show (if _ then _ else _) = _ ↔ _
  by_cases fits : (r.all fun entry => entry.2.fitsToml) = true
  · rw [if_pos fits, Except.ok.injEq, eq_comm, and_iff_right fits]
  · rw [if_neg fits]
    exact ⟨nofun, fun both => absurd both.1 fits⟩

theorem read_join (plain : r.IsPlain) (fits : ∀ entry ∈ r, entry.2.fitsToml = true) :
    library.read (String.join (r.filterMap line)) = .ok (.record r.present.reverse) := by
  have parsed : Document.parse (String.join (r.filterMap line)) =
      some { tree := ⟨nodes r.present.reverse⟩ } :=
    (parse_of_toList plain String.toList_join).trans
      (lines_lines [] plain fits plain.nodup (Nat.lt_succ_self _))
  have nodup : (r.present.reverse.map Prod.fst).Nodup := by
    rw [List.map_reverse, List.nodup_reverse]
    exact plain.nodup.sublist (List.filter_sublist.map _)
  simp only [library, parsed, members_nodes nodup]

theorem fitsToml_iff : (∀ entry ∈ r, entry.2.fitsToml = true) ↔
    ∀ name n, (name, Setting.integer n) ∈ r → n ≤ 0x7fff_ffff_ffff_ffff := by
  constructor
  · intro fits name n mem
    have small := fits _ mem
    rw [Setting.fitsToml, decide_eq_true_iff] at small
    omega
  · rintro bounded ⟨name, s⟩ mem
    cases s with
    | integer n =>
      have small := bounded name n mem
      rw [Setting.fitsToml, decide_eq_true_iff]
      omega
    | null => rfl
    | flag b => rfl
    | other => rfl

theorem keepsToml_library : library.KeepsToml where
  writes _ := by
    rw [← fitsToml_iff]
    constructor
    · rintro ⟨text, written⟩
      exact (write_eq_ok_iff.1 written).1
    · exact fun fits => ⟨_, write_eq_ok_iff.2 ⟨fits, rfl⟩⟩
  reads plain written := by
    obtain ⟨fits, rfl⟩ := write_eq_ok_iff.1 written
    exact ⟨_, read_join plain fits, List.reverse_perm _⟩

end Toml

end GuestExec
