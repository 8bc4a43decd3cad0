/-!
# Decimal text

A number is written with digits alone, at least one of them, and no number but zero begins with a
zero. Whatever takes digits from the front of a text takes all that were written, and no more.
-/

namespace GuestExec

variable {n : Nat} {c d : Char} {ds rest more : List Char}

theorem ne_of_isDigit (digit : d.isDigit = true) (other : c.isDigit = false) : d ≠ c := by
  rintro rfl
  rw [digit] at other
  cases other

theorem cons_ne_of_isDigit (digit : d.isDigit = true) (other : c.isDigit = false) :
    d :: rest ≠ c :: more :=
  fun eq => ne_of_isDigit digit other (List.cons.inj eq).1

theorem isDigit_of_mem_toDigits (mem : d ∈ Nat.toDigits 10 n) : d.isDigit = true :=
  Nat.isDigit_of_mem_toDigits (by decide) (by decide) mem

theorem toList_toString_natCast (n : Nat) : (toString (n : Int)).toList = Nat.toDigits 10 n :=
  Nat.toList_repr

/-- No number but zero begins with a zero. -/
theorem eq_zero_of_toDigits (zero : Nat.toDigits 10 n = '0' :: ds) : n = 0 := by
  induction n using Nat.strongRecOn generalizing ds with
  | ind n ih =>
    rcases Nat.lt_or_ge n 10 with small | large
    · rw [Nat.toDigits_of_lt_base small, List.cons.injEq] at zero
      exact Nat.digitChar_eq_zero.1 zero.1
    · rw [Nat.toDigits_of_base_le (by decide) large] at zero
      cases front : Nat.toDigits 10 (n / 10) with
      | nil => exact absurd front Nat.toDigits_ne_nil
      | cons first more =>
        rw [front, List.cons_append, List.cons.injEq] at zero
        obtain ⟨rfl, -⟩ := zero
        have := ih (n / 10) (by omega) front
        omega

/-- What is written begins with a digit. -/
theorem exists_toDigits_eq (n : Nat) :
    ∃ d ds, Nat.toDigits 10 n = d :: ds ∧ d.isDigit = true := by
  cases written : Nat.toDigits 10 n with
  | nil => exact absurd written Nat.toDigits_ne_nil
  | cons d ds => exact ⟨d, ds, rfl, isDigit_of_mem_toDigits (written ▸ List.mem_cons_self)⟩

theorem takeWhile_toDigits (n : Nat) (ends : c.isDigit = false) :
    (Nat.toDigits 10 n ++ c :: rest).takeWhile Char.isDigit = Nat.toDigits 10 n := by
  rw [List.takeWhile_append_of_pos fun d mem => isDigit_of_mem_toDigits mem,
    List.takeWhile_cons_of_neg (by simp [ends]), List.append_nil]

theorem dropWhile_toDigits (n : Nat) (ends : c.isDigit = false) :
    (Nat.toDigits 10 n ++ c :: rest).dropWhile Char.isDigit = c :: rest := by
  rw [List.dropWhile_append_of_pos fun d mem => isDigit_of_mem_toDigits mem,
    List.dropWhile_cons_of_neg (by simp [ends])]

end GuestExec
