import GuestExec.Proofs.Word.Decimal
import GuestExec.Toml.Value

/-!
# The integers of TOML

A natural number that fits a signed word is written with digits alone, and the line ends after
them. Only an integer can be read there: dates, times and floats want a further character.
-/

namespace GuestExec.Toml

variable {n low high : Nat} {c d : Char} {cs ds rest more : List Char}

/-! ## Digits -/

theorem foldl_hexDigit? (digits : ∀ d ∈ ds, d.isDigit = true) (start : Nat) :
    ds.foldl (fun n d => 10 * n + (hexDigit? d).getD 0) start = Nat.ofDigitChars 10 ds start := by
  induction ds generalizing start with
  | nil => rfl
  | cons d ds ih =>
    rw [List.forall_mem_cons] at digits
    have value : hexDigit? d = some (d.toNat - 48) := if_pos digits.1
    rw [List.foldl_cons, value, ih digits.2, Nat.ofDigitChars_cons]
    rfl

theorem ofDigits_toDigits (n : Nat) : ofDigits 10 (Nat.toDigits 10 n) = n :=
  (foldl_hexDigit? (fun _ mem => isDigit_of_mem_toDigits mem) 0).trans
    Nat.ofDigitChars_ten_toDigits

theorem moreDigits_append (digits : ∀ d ∈ ds, d.isDigit = true) (rest : List Char) :
    moreDigits Char.isDigit (ds ++ '\n' :: rest) = (ds, '\n' :: rest) := by
  induction ds with
  | nil => rfl
  | cons d ds ih =>
    rw [List.forall_mem_cons] at digits
    rw [List.cons_append, moreDigits, if_pos digits.1, ih digits.2]
    rintro c rest rfl
    exact absurd digits.1 (by decide)

theorem decimalDigits_toDigits (n : Nat) (rest : List Char) :
    decimalDigits (Nat.toDigits 10 n ++ '\n' :: rest) = some (Nat.toDigits 10 n, '\n' :: rest) := by
  obtain ⟨d, ds, written, digit⟩ := exists_toDigits_eq n
  have digits : ∀ c ∈ ds, c.isDigit = true := fun c mem =>
    isDigit_of_mem_toDigits (n := n) (written ▸ List.mem_cons_of_mem d mem)
  by_cases zero : d = '0'
  · subst zero
    obtain rfl := eq_zero_of_toDigits written
    rfl
  · rw [written, List.cons_append, decimalDigits, digitRun, if_pos digit, moreDigits_append digits]
    exact fun _ eq => zero (List.cons.inj eq).1

theorem sign_toDigits (n : Nat) (rest : List Char) :
    sign (Nat.toDigits 10 n ++ rest) = (false, Nat.toDigits 10 n ++ rest) := by
  obtain ⟨d, ds, written, digit⟩ := exists_toDigits_eq n
  rw [written, List.cons_append, sign]
  all_goals exact fun _ => cons_ne_of_isDigit digit rfl

/-! ## Neither a date nor a float -/

/-- What two digits leave of a line of digits is one again. -/
theorem twoDigits_append (digits : ∀ d ∈ ds, d.isDigit = true)
    (read : twoDigits low high (ds ++ '\n' :: rest) = some (n, cs)) :
    ∃ more, (∀ d ∈ more, d.isDigit = true) ∧ cs = more ++ '\n' :: rest := by
  match ds with
  | [] =>
    cases rest with
    | nil => cases read
    | cons c rest => cases read
  | [a] => simp [twoDigits] at read
  | a :: b :: more =>
    simp only [List.cons_append, twoDigits] at read
    split at read
    · cases read
      exact ⟨more, fun d mem => digits d (List.mem_cons_of_mem _ (List.mem_cons_of_mem _ mem)), rfl⟩
    · cases read

theorem skipChar?_append (digits : ∀ d ∈ ds, d.isDigit = true) (other : c.isDigit = false)
    (inside : c ≠ '\n') : skipChar? c (ds ++ '\n' :: rest) = none := by
  cases ds with
  | nil => exact if_neg (by simpa using inside.symm)
  | cons d ds => exact if_neg (by simpa using ne_of_isDigit (digits d List.mem_cons_self) other)

theorem skipDate?_append (digits : ∀ d ∈ ds, d.isDigit = true) :
    skipDate? (ds ++ '\n' :: rest) = none := by
  rw [skipDate?]
  simp only [Option.bind_eq_bind, Option.bind_eq_none_iff]
  rintro ⟨century, after⟩ read
  obtain ⟨more, digits, rfl⟩ := twoDigits_append digits read
  rintro ⟨year, after⟩ read
  obtain ⟨more, digits, rfl⟩ := twoDigits_append digits read
  rintro after read
  rw [skipChar?_append digits rfl (by decide)] at read
  cases read

theorem skipTime?_append (digits : ∀ d ∈ ds, d.isDigit = true) :
    skipTime? (ds ++ '\n' :: rest) = none := by
  rw [skipTime?]
  simp only [Option.bind_eq_bind, Option.bind_eq_none_iff]
  rintro ⟨hour, after⟩ read
  obtain ⟨more, digits, rfl⟩ := twoDigits_append digits read
  rintro after read
  rw [skipChar?_append digits rfl (by decide)] at read
  cases read

theorem skipDateTime?_append (digits : ∀ d ∈ ds, d.isDigit = true) :
    skipDateTime? (ds ++ '\n' :: rest) = none := by
  rw [skipDateTime?, skipDate?_append digits]
  exact skipTime?_append digits

theorem skipFinite?_toDigits (n : Nat) (rest : List Char) :
    skipFinite? (Nat.toDigits 10 n ++ '\n' :: rest) = none := by
  rw [skipFinite?, sign_toDigits]
  dsimp only
  rw [decimalDigits_toDigits]
  rfl

theorem skipSpecial?_toDigits (n : Nat) (rest : List Char) :
    skipSpecial? (Nat.toDigits 10 n ++ rest) = none := by
  rw [skipSpecial?, sign_toDigits]
  obtain ⟨d, ds, written, digit⟩ := exists_toDigits_eq n
  rw [written, List.cons_append]
  dsimp only
  split
  · rename_i eq
    exact absurd eq (cons_ne_of_isDigit digit rfl)
  · rename_i eq
    exact absurd eq (cons_ne_of_isDigit digit rfl)
  · rfl

/-! ## Integers -/

/-- No base is given: a leading zero is all that is written. -/
theorem second_toDigits (eq : Nat.toDigits 10 n ++ '\n' :: rest = '0' :: c :: more) : c = '\n' := by
  obtain ⟨d, ds, written, -⟩ := exists_toDigits_eq n
  have first : d = '0' := by
    rw [written] at eq
    exact (List.cons.inj eq).1
  subst first
  obtain rfl := eq_zero_of_toDigits written
  exact (List.cons.inj (List.cons.inj eq).2).1.symm

theorem integer_of_decimalDigits (baseless : ∀ c more, cs = '0' :: c :: more → c = '\n')
    (unsigned : sign cs = (false, cs)) (read : decimalDigits cs = some (ds, rest))
    (fits : ofDigits 10 ds < 0x8000_0000_0000_0000) :
    integer cs = some ((ofDigits 10 ds : Int), rest) := by
  rw [integer, unsigned]
  · dsimp only
    rw [read, Option.bind_eq_bind, Option.bind_some]
    dsimp only
    rw [if_neg Bool.false_ne_true, Int.ofNat_eq_natCast, if_pos (by omega)]
  all_goals
    intro more eq
    exact absurd (baseless _ _ eq) (by decide)

theorem integer_toDigits (fits : n < 0x8000_0000_0000_0000) (rest : List Char) :
    integer (Nat.toDigits 10 n ++ '\n' :: rest) = some ((n : Int), '\n' :: rest) := by
  have read := integer_of_decimalDigits (fun _ _ => second_toDigits) (sign_toDigits n _)
    (decimalDigits_toDigits n rest) (by rw [ofDigits_toDigits]; exact fits)
  rw [read, ofDigits_toDigits]

theorem number_toDigits (fits : n < 0x8000_0000_0000_0000) (rest : List Char) :
    number (Nat.toDigits 10 n ++ '\n' :: rest) = some (.integer n, '\n' :: rest) := by
  rw [number, skipDateTime?_append fun _ mem => isDigit_of_mem_toDigits mem, skipFinite?_toDigits,
    skipSpecial?_toDigits, integer_toDigits fits]
  rfl

theorem scalar_of_isDigit (digit : d.isDigit = true) (rest : List Char) :
    scalar (d :: rest) = number (d :: rest) := by
  have unquoted : skipString? (d :: rest) = none := by
    rw [skipString?]
    all_goals exact fun _ => cons_ne_of_isDigit digit rfl
  rw [scalar, unquoted]
  all_goals exact fun _ => cons_ne_of_isDigit digit rfl

theorem value_toDigits (fits : n < 0x8000_0000_0000_0000) (depth : Nat) (rest : List Char) :
    value (depth + 1) (Nat.toDigits 10 n ++ '\n' :: rest) = some (.integer n, '\n' :: rest) := by
  obtain ⟨d, ds, written, digit⟩ := exists_toDigits_eq n
  have read := number_toDigits fits rest
  rw [written, List.cons_append] at read ⊢
  rw [value, scalar_of_isDigit digit, read]
  all_goals exact fun _ => cons_ne_of_isDigit digit rfl

end GuestExec.Toml
