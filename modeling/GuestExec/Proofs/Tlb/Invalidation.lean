import GuestExec.Proofs.Tlb.Places

/-!
# What an invalidation drops

Invalidating a range drops the entries that share an address with it and no others, in whatever set
their bases are, and changes nothing else of them. Only an insertion makes an entry valid, so until
the next one the TLB answers for no address that it does not answer for now (`holds_of_foldl`), and
lookups of what was invalidated miss.
-/

namespace GuestExec.Tlb

variable {t : Tlb} {call : Call} {more : List Call} {a guest : GuestAddr}
  {size : UInt64} {e : Entry}

/-- The address is one of the `size` from `guest` on. The range may end past 2^64. -/
def InRange (guest : GuestAddr) (size : UInt64) (a : GuestAddr) : Prop :=
  guest.toNat ≤ a.toNat ∧ a.toNat < guest.toNat + size.toNat

/-- The entry is valid and translates some address of the range. -/
structure Entry.Meets (e : Entry) (guest : GuestAddr) (size : UInt64) : Prop where
  valid : e.valid = true
  shares : ∃ a, e.covers a = true ∧ InRange guest size a

/-- `t'` is `t` after the `size` bytes from `guest` on were invalidated: the `count` entries that
meet the range are no longer valid. -/
structure Invalidated (t : Tlb) (guest : GuestAddr) (size : UInt64) (count : Nat) (t' : Tlb) :
    Prop where
  valid : ∀ p, (t'.entryAt p).valid = true ↔
    (t.entryAt p).valid = true ∧ ∀ a, (t.entryAt p).covers a = true → ¬InRange guest size a
  kept : ∀ p, t'.entryAt p = { t.entryAt p with valid := (t'.entryAt p).valid }
  count : count = {p | (t.entryAt p).valid = true ∧ (t'.entryAt p).valid = false}.ncard
  clock : t'.clock = t.clock
  stats : t'.stats = { t.stats with flushes := t.stats.flushes + 1 }

/-! ## What is dropped -/

theorem meets_iff (guest : GuestAddr) (pos : size ≠ 0) (sized : e.valid = true → e.size ≠ 0) :
    (e.valid && e.overlaps guest.toNat (guest.toNat + size.toNat)) = true ↔ e.Meets guest size := by
  have pos : 0 < size.toNat := Nat.pos_of_ne_zero fun zero => pos (UInt64.toNat_inj.1 zero)
  rw [Bool.and_eq_true]
  constructor
  · rintro ⟨valid, overlap⟩
    exact ⟨valid, (Entry.overlaps_iff_shares (sized valid) pos).1 overlap⟩
  · rintro ⟨valid, shares⟩
    exact ⟨valid, (Entry.overlaps_iff_shares (sized valid) pos).2 shares⟩

/-- An entry outlives the invalidation of a range that it does not meet, and no other. -/
theorem entryAt_invalidateRange (t : Tlb) (guest : GuestAddr) (size : UInt64) (p : Place) :
    (t.invalidateRange guest size).2.entryAt p =
      if (t.entryAt p).valid && (t.entryAt p).overlaps guest.toNat (guest.toNat + size.toNat)
      then (t.entryAt p).drop else t.entryAt p :=
  entryAt_mapSlots _ p

/-- What is valid afterwards was valid and shares no address with the range. -/
theorem Consistent.valid_invalidateRange (c : t.Consistent) (pos : size ≠ 0) (p : Place) :
    ((t.invalidateRange guest size).2.entryAt p).valid = true ↔
      (t.entryAt p).valid = true ∧ ∀ a, (t.entryAt p).covers a = true → ¬InRange guest size a := by
  have iff := meets_iff guest pos (c.sized (t.has_entryAt p))
  rw [entryAt_invalidateRange]
  split
  · rename_i met
    obtain ⟨a, covers, inside⟩ := (iff.1 met).shares
    refine ⟨fun valid => ?_, fun spared => absurd inside (spared.2 a covers)⟩
    cases valid
  · rename_i spared
    refine ⟨fun valid => ⟨valid, fun a covers inside => ?_⟩, And.left⟩
    exact spared (iff.2 ⟨valid, a, covers, inside⟩)

/-- The entries that are counted are those that become invalid. -/
theorem Consistent.count_invalidateRange (c : t.Consistent) (pos : size ≠ 0) :
    (t.invalidateRange guest size).1 = {p | (t.entryAt p).valid = true ∧
      ((t.invalidateRange guest size).2.entryAt p).valid = false}.ncard := by
  show t.slots.countP _ = _
  rw [countP_slots]
  congr 1
  ext p
  rw [Set.mem_ofPred_eq, Set.mem_ofPred_eq, meets_iff guest pos (c.sized (t.has_entryAt p)),
    ← Bool.not_eq_true, c.valid_invalidateRange pos]
  constructor
  · rintro ⟨was, a, covers, inside⟩
    exact ⟨was, fun spared => spared.2 a covers inside⟩
  · rintro ⟨was, met⟩
    by_contra none
    exact met ⟨was, fun a covers inside => none ⟨was, a, covers, inside⟩⟩

theorem Consistent.invalidated (c : t.Consistent) (guest : GuestAddr) (pos : size ≠ 0) :
    t.Invalidated guest size (t.invalidateRange guest size).1 (t.invalidateRange guest size).2 := by
  refine ⟨c.valid_invalidateRange pos, fun p => ?_, c.count_invalidateRange pos, rfl, rfl⟩
  rw [entryAt_invalidateRange]
  split <;> rfl

/-! ## Until the next insertion -/

/-- The call adds no translation. -/
def Call.AddsNone (call : Call) : Prop := ∀ x, call = .insert x → x.size = 0

theorem not_holds_invalidateAll (t : Tlb) (a : GuestAddr) : ¬t.invalidateAll.Holds a := by
  rintro ⟨e, has, valid, -⟩
  obtain ⟨e, -, rfl⟩ := has_mapSlots.1 has
  cases valid

theorem holds_of_apply (none : call.AddsNone) (holds : (t.apply call).Holds a) : t.Holds a := by
  cases call with
  | insert x =>
    rw [apply, insert, if_pos (none x rfl)] at holds
    exact holds
  | lookup b => exact holds_lookup.1 holds
  | invalidateAll => exact absurd holds (not_holds_invalidateAll t a)
  | invalidateRange guest size =>
    obtain ⟨e, has, valid, covers⟩ := holds
    exact ⟨e, ((has_purge valid).1 has).1, valid, covers⟩

theorem holds_of_foldl (none : ∀ call ∈ more, call.AddsNone)
    (holds : (more.foldl apply t).Holds a) : t.Holds a := by
  induction more generalizing t with
  | nil => exact holds
  | cons call rest ih =>
    rw [List.forall_mem_cons] at none
    exact holds_of_apply none.1 (ih none.2 holds)

/-- An invalidation drops exactly the entries that share an address with its range, after any
sequence of calls. Until a translation is added, lookups of the range miss, and after an
invalidation of everything all lookups. -/
theorem invalidate_exact (calls : List Call) (guest : GuestAddr) (size : UInt64) (pos : size ≠ 0) :
    let dropped := (after calls).invalidateRange guest size
    (after calls).Invalidated guest size dropped.1 dropped.2 ∧
      ∀ more : List Call, (∀ call ∈ more, call.AddsNone) →
        (∀ a, InRange guest size a → ((more.foldl apply dropped.2).lookup a).1 = none) ∧
          ∀ a, ((more.foldl apply (after calls).invalidateAll).lookup a).1 = none := by
  intro dropped
  have invalidated := (consistent_after calls).invalidated guest pos
  refine ⟨invalidated, fun more none => ⟨fun a inside => ?_, fun a => ?_⟩⟩
  · refine lookup_eq_none fun holds => ?_
    obtain ⟨e, has, valid, covers⟩ := holds_of_foldl none holds
    obtain ⟨way, rfl⟩ := has_iff.1 has
    obtain ⟨-, spared⟩ := (invalidated.valid _).1 valid
    rw [invalidated.kept] at covers
    exact spared a covers inside
  · exact lookup_eq_none fun holds => not_holds_invalidateAll _ a (holds_of_foldl none holds)

/-- Three pages from the last but one below 2^64 on, and the second page above zero. -/
def topPages : List Call :=
  [.insert ⟨⟨0xffffffffffffe000⟩, ⟨0x700000⟩, 0x3000, true⟩,
    .insert ⟨⟨0x1000⟩, ⟨0x900000⟩, 0x1000, false⟩]

/-- A range that ends past 2^64 drops what it meets there and nothing at the other end. -/
theorem invalidate_exact_topPages :
    let dropped := (after topPages).invalidateRange ⟨0xfffffffffffffff0⟩ 0x10000
    (0x10000 : UInt64) ≠ 0 ∧ dropped.1 = 1 ∧
      (dropped.2.lookup ⟨0x1008⟩).1 = some ⟨⟨0x900008⟩, false⟩ ∧
      (after topPages).Invalidated ⟨0xfffffffffffffff0⟩ 0x10000 dropped.1 dropped.2 ∧
      (dropped.2.lookup ⟨0xffffffffffffffff⟩).1 = none := by
  intro dropped
  have pos : (0x10000 : UInt64) ≠ 0 := by decide
  obtain ⟨invalidated, misses⟩ := invalidate_exact topPages ⟨0xfffffffffffffff0⟩ 0x10000 pos
  refine ⟨pos, by decide +kernel, by decide +kernel, invalidated, ?_⟩
  exact (misses [] fun _ mem => absurd mem List.not_mem_nil).1 ⟨0xffffffffffffffff⟩
    ⟨by decide, by decide⟩

end GuestExec.Tlb
