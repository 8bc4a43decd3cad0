import GuestExec.Tlb.Victim
import Mathlib.Algebra.Order.Field.Rat
import Mathlib.Data.Prod.Lex

/-!
# The way that makes room

Entries leave in the order of their `rank`: the lowest score first, of equal scores the one that
was accessed longest ago. Multiplied out, that is the order in which the scan compares them, so
what it ends with is the first way of the lowest rank in a full set.
-/

namespace GuestExec.Tlb

variable {now v : Nat} {a b e best : Entry} {ways : List Entry}

/-- Accesses over age, exactly. -/
def Entry.score (now : Nat) (e : Entry) : ℚ := e.count.toNat / e.age now

/-- The score, and after it the time of the last access. -/
def Entry.rank (now : Nat) (e : Entry) : ℚ ×ₗ ℕ := toLex (e.score now, e.last)

theorem Entry.age_pos (e : Entry) (now : Nat) : (0 : ℚ) < e.age now := by
  rw [Nat.cast_pos, age]
  omega

/-- Fractions are in the order of their cross products. -/
theorem Entry.score_lt_iff (now : Nat) (a b : Entry) :
    a.score now < b.score now ↔ a.count.toNat * b.age now < b.count.toNat * a.age now := by
  rw [score, score, div_lt_div_iff₀ (a.age_pos now) (b.age_pos now)]
  exact_mod_cast Iff.rfl

theorem Entry.compare_score (now : Nat) (a b : Entry) :
    compare (a.score now) (b.score now) =
      compare (a.count.toNat * b.age now) (b.count.toNat * a.age now) := by
  rcases lt_trichotomy (a.score now) (b.score now) with less | same | more
  · rw [compare_lt_iff_lt.2 less, compare_lt_iff_lt.2 ((score_lt_iff now a b).1 less)]
  · have products : a.count.toNat * b.age now = b.count.toNat * a.age now := by
      have above := not_lt.1 fun lt => ((score_lt_iff now a b).2 lt).ne same
      have below := not_lt.1 fun lt => ((score_lt_iff now b a).2 lt).ne' same
      exact le_antisymm below above
    rw [compare_eq_iff_eq.2 same, compare_eq_iff_eq.2 products]
  · rw [compare_gt_iff_gt.2 more, compare_gt_iff_gt.2 ((score_lt_iff now b a).1 more)]

/-- Entries are compared by their ranks. -/
theorem Entry.evictionOrder_eq (now : Nat) (a b : Entry) :
    a.evictionOrder now b = compare (a.rank now) (b.rank now) := by
  rw [evictionOrder, ← compare_score]
  rfl

theorem Entry.evictionOrder_eq_lt_iff (now : Nat) (a b : Entry) :
    a.evictionOrder now b = .lt ↔ a.rank now < b.rank now := by
  rw [evictionOrder_eq, compare_lt_iff_lt]

/-! ## The scan -/

/-- Of the entries of `ways` that in way `v` leaves first: none ranks below it, and those before it
rank above it. -/
def Leaves (now : Nat) (ways : List Entry) (v : Nat) (e : Entry) : Prop :=
  ways[v]? = some e ∧
    ∀ k x, ways[k]? = some x → e.rank now ≤ x.rank now ∧ (k < v → e.rank now < x.rank now)

theorem leaves_singleton (now : Nat) (e : Entry) : Leaves now [e] 0 e := by
  refine ⟨rfl, fun k x there => ⟨?_, fun before => absurd before (Nat.not_lt_zero k)⟩⟩
  rw [List.mem_singleton.1 (List.mem_of_getElem? there)]

/-- One entry more is looked at, and it ranks below all others. -/
theorem Leaves.concat_lt (l : Leaves now ways v best) (less : e.rank now < best.rank now) :
    Leaves now (ways ++ [e]) ways.length e := by
  refine ⟨by simp, fun k x there => ?_⟩
  rcases Nat.lt_or_ge k ways.length with old | new
  · rw [List.getElem?_append_left old] at there
    have below := less.trans_le (l.2 k x there).1
    exact ⟨below.le, fun _ => below⟩
  · rw [List.getElem?_append_right new] at there
    rw [List.mem_singleton.1 (List.mem_of_getElem? there)]
    exact ⟨le_rfl, fun before => absurd before (Nat.not_lt.2 new)⟩

/-- One entry more is looked at, and it does not rank below the one that leaves first. -/
theorem Leaves.concat_ge (l : Leaves now ways v best) (notLess : ¬e.rank now < best.rank now) :
    Leaves now (ways ++ [e]) v best := by
  have inside : v < ways.length := (List.getElem?_eq_some_iff.1 l.1).1
  refine ⟨by rw [List.getElem?_append_left inside, l.1], fun k x there => ?_⟩
  rcases Nat.lt_or_ge k ways.length with old | new
  · rw [List.getElem?_append_left old] at there
    exact l.2 k x there
  · rw [List.getElem?_append_right new] at there
    rw [List.mem_singleton.1 (List.mem_of_getElem? there)]
    exact ⟨not_lt.1 notLess, fun before => absurd before (by omega)⟩

/-- The scan, having looked at `ways`, goes on through `rest`. -/
theorem leaves_leastEntry (l : Leaves now ways v best) (rest : List Entry) :
    ∃ e, Leaves now (ways ++ rest) (leastEntry now rest ways.length v best) e := by
  induction rest generalizing ways v best with
  | nil =>
    rw [List.append_nil]
    exact ⟨best, l⟩
  | cons e rest ih =>
    have step : (ways ++ [e]).length = ways.length + 1 := by simp
    rw [List.append_cons, leastEntry, ← step]
    split
    · rename_i less
      exact ih (l.concat_lt ((Entry.evictionOrder_eq_lt_iff now e best).1 less))
    · rename_i notLess
      exact ih (l.concat_ge fun less =>
        notLess ((Entry.evictionOrder_eq_lt_iff now e best).2 less))

/-- Of a full set the scan picks the entry that leaves first. -/
theorem leaves_selectVictim (full : ∀ e ∈ ways, e.valid = true) (nonempty : ways ≠ []) (now : Nat) :
    ∃ e, Leaves now ways (selectVictim ways now) e := by
  have noRoom : ways.findIdx? (fun e => !e.valid) = none := by
    rw [List.findIdx?_eq_none_iff]
    intro e mem
    rw [full e mem]
    rfl
  cases ways with
  | nil => exact absurd rfl nonempty
  | cons e rest =>
    rw [selectVictim, noRoom]
    exact leaves_leastEntry (leaves_singleton now e) rest

/-- Of a set that has room it picks the first entry that is not valid. -/
theorem selectVictim_free (room : ∃ e ∈ ways, e.valid = false) (now : Nat) :
    (∃ e, ways[selectVictim ways now]? = some e ∧ e.valid = false) ∧
      ∀ k x, k < selectVictim ways now → ways[k]? = some x → x.valid = true := by
  obtain ⟨e, mem, dropped⟩ := room
  cases found : ways.findIdx? (fun e => !e.valid) with
  | none =>
    rw [List.findIdx?_eq_none_iff] at found
    have valid := found e mem
    rw [dropped] at valid
    cases valid
  | some free =>
    have picked : selectVictim ways now = free := by
      rw [selectVictim.eq_def, found]
    obtain ⟨lt, there, before⟩ := List.findIdx?_eq_some_iff_getElem.1 found
    rw [picked]
    refine ⟨⟨ways[free], List.getElem?_eq_getElem lt, by simpa using there⟩, ?_⟩
    intro k x less here
    obtain ⟨_, rfl⟩ := List.getElem?_eq_some_iff.1 here
    simpa using before k less

end GuestExec.Tlb
