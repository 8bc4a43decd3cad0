import GuestExec.Proofs.Tlb.Slots
import GuestExec.Proofs.Tlb.Victim

/-!
# The order of eviction and the way that it picks

Whatever the time, entries are compared as exact fractions with the time of the last access after
them, which makes the comparison a total preorder, and in words of 128 bits no product overflows.
So the scan of a set has one answer: the way that is `Chosen`.
-/

namespace GuestExec.Tlb

variable {now v w : Nat} {e : Entry} {ways : List Entry}

/-- The way `v` makes room at time `now`: it is the first that is not valid, and where all are
valid no entry leaves before its entry, and all before it leave after it. -/
structure Chosen (now : Nat) (ways : List Entry) (v : Nat) : Prop where
  inside : v < ways.length
  free : (∃ e ∈ ways, e.valid = false) →
    ways[v].valid = false ∧ ∀ k (_ : k < v), ways[k].valid = true
  least : (∀ e ∈ ways, e.valid = true) → ∀ k (_ : k < ways.length),
    ways[k].evictionOrder now ways[v] ≠ .lt ∧
      (k < v → ways[k].evictionOrder now ways[v] = .gt)

/-! ## The order -/

theorem Entry.evictionOrder_eq_compareOn (now : Nat) :
    Entry.evictionOrder now = compareOn (Entry.rank now) := by
  funext a b
  exact evictionOrder_eq now a b

theorem Entry.transCmp_evictionOrder (now : Nat) : Std.TransCmp (Entry.evictionOrder now) := by
  rw [evictionOrder_eq_compareOn]
  infer_instance

/-- An access in the future leaves an entry as young as one right now. -/
theorem Entry.cast_age (now : Nat) (e : Entry) :
    (e.age now : ℚ) = max ((now : ℚ) - e.last) 0 + 1 := by
  rw [age, Nat.cast_add, Nat.cast_one]
  rcases Nat.le_total e.last now with past | future
  · rw [Nat.cast_sub past, max_eq_left (sub_nonneg.2 (Nat.cast_le.2 past))]
  · rw [Nat.sub_eq_zero_of_le future, max_eq_right (sub_nonpos.2 (Nat.cast_le.2 future)),
      Nat.cast_zero]

/-- Counts have 32 bits, and ages are at most 2^64. -/
theorem Entry.count_mul_age_lt (fits : now < 0x1_0000_0000_0000_0000) (a b : Entry) :
    a.count.toNat * b.age now < 2 ^ 128 := by
  have young : b.age now ≤ 0x1_0000_0000_0000_0000 := by
    rw [age]
    omega
  calc a.count.toNat * b.age now
      ≤ a.count.toNat * 0x1_0000_0000_0000_0000 := Nat.mul_le_mul_left _ young
    _ < 0x1_0000_0000 * 0x1_0000_0000_0000_0000 :=
        Nat.mul_lt_mul_of_pos_right a.count.toNat_lt (by decide)
    _ ≤ 2 ^ 128 := by decide

/-! ## The way -/

theorem Leaves.least (l : Leaves now ways v e) (inside : v < ways.length) {k : Nat}
    (lt : k < ways.length) :
    ways[k].evictionOrder now ways[v] ≠ .lt ∧
      (k < v → ways[k].evictionOrder now ways[v] = .gt) := by
  obtain ⟨_, rfl⟩ := List.getElem?_eq_some_iff.1 l.1
  obtain ⟨le, first⟩ := l.2 k ways[k] (List.getElem?_eq_getElem lt)
  refine ⟨fun less => ?_, fun before => ?_⟩
  · exact absurd ((Entry.evictionOrder_eq_lt_iff now _ _).1 less) (not_lt.2 le)
  · rw [Entry.evictionOrder_eq, compare_gt_iff_gt]
    exact first before

theorem chosen_selectVictim (nonempty : ways ≠ []) (now : Nat) :
    Chosen now ways (selectVictim ways now) := by
  have inside := selectVictim_lt now nonempty
  refine ⟨inside, fun room => ?_, fun full k lt => ?_⟩
  · obtain ⟨⟨e, there, dropped⟩, before⟩ := selectVictim_free room now
    obtain ⟨_, rfl⟩ := List.getElem?_eq_some_iff.1 there
    refine ⟨dropped, fun k less => ?_⟩
    exact before k _ less (List.getElem?_eq_getElem (less.trans inside))
  · obtain ⟨e, leaves⟩ := leaves_selectVictim full nonempty now
    exact leaves.least inside lt

/-- No way that makes room is after another one. -/
theorem Chosen.le (c : Chosen now ways v) (d : Chosen now ways w) : v ≤ w := by
  by_contra after
  have before : w < v := not_le.1 after
  by_cases full : ∀ e ∈ ways, e.valid = true
  · have := Entry.transCmp_evictionOrder now
    have above := (c.least full w d.inside).2 before
    exact (d.least full v c.inside).1 (Std.OrientedCmp.lt_of_gt above)
  · have room : ∃ e ∈ ways, e.valid = false := by simpa using full
    have valid := (c.free room).2 w before
    rw [(d.free room).1] at valid
    cases valid

theorem selectVictim_eq_iff (nonempty : ways ≠ []) :
    selectVictim ways now = v ↔ Chosen now ways v := by
  have picked := chosen_selectVictim nonempty now
  constructor
  · rintro rfl
    exact picked
  · intro chosen
    exact Nat.le_antisymm (picked.le chosen) (chosen.le picked)

/-- The comparison of two entries is a total preorder, the lexicographic one of the exact score and
the time of the last access, and is made without overflow in words of 128 bits. Of any set the scan
picks the one way that is chosen by it. -/
theorem selectVictim_exact (fits : now < 0x1_0000_0000_0000_0000) (nonempty : ways ≠ []) :
    Std.TransCmp (Entry.evictionOrder now) ∧
      (∀ a b : Entry, a.evictionOrder now b =
        compare (toLex ((a.count.toNat : ℚ) / (max ((now : ℚ) - a.last) 0 + 1), a.last))
          (toLex ((b.count.toNat : ℚ) / (max ((now : ℚ) - b.last) 0 + 1), b.last))) ∧
      (∀ a b : Entry, a.count.toNat * b.age now < 2 ^ 128) ∧
      ∀ v, selectVictim ways now = v ↔ Chosen now ways v := by
  refine ⟨Entry.transCmp_evictionOrder now, fun a b => ?_, Entry.count_mul_age_lt fits,
    fun v => selectVictim_eq_iff nonempty⟩
  rw [Entry.evictionOrder_eq, ← Entry.cast_age, ← Entry.cast_age]
  rfl

/-- At time 2^64 - 2 the first entry was used in the future. The others have the same score, one
use in 2^32 + 1 units of time; the last of them has used up its counter. -/
def tiedWays : List Entry :=
  [{ Entry.empty with valid := true, last := 0xffff_ffff_ffff_ffff, count := 1 },
    { Entry.empty with valid := true, last := 0xffff_fffe_ffff_fffe, count := 1 },
    { Entry.empty with valid := true, last := 0, count := 0xffff_ffff }]

/-- Of the two with the same score the one that was used longest ago leaves. -/
theorem selectVictim_exact_tiedWays :
    let now := 0xffff_ffff_ffff_fffe
    now < 0x1_0000_0000_0000_0000 ∧ tiedWays ≠ [] ∧ Chosen now tiedWays 2 := by
  intro now
  have fits : now < 0x1_0000_0000_0000_0000 := by decide
  have nonempty : tiedWays ≠ [] := List.cons_ne_nil _ _
  obtain ⟨-, -, -, chosen⟩ := selectVictim_exact fits nonempty
  exact ⟨fits, nonempty, (chosen 2).1 (by decide +kernel)⟩

end GuestExec.Tlb
