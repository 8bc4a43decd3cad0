import GuestExec.Proofs.Memory.Calls

/-!
# Guards, page by page

On a host that keeps its pages, a guard on a range guards the pages that the range meets in the
region of its start, mending lifts the guard of one page, and what is said to be accessible is what
the host lets through (`protection_exact`).
-/

namespace GuestExec

/-- The page of `a` meets the `n` bytes from `addr` on; no bytes count as one. -/
def GuestAddr.PageMeets (a addr : GuestAddr) (n : Nat) : Prop :=
  ∃ k, addr.toNat ≤ k ∧ k < addr.toNat + max n 1 ∧ k / pageSize = a.page

/-- The pages of a region that a range touches, cut off at the region's end, are those that the
range meets. -/
theorem Region.Regular.meets_iff {r : Region} {a addr : GuestAddr} (regular : r.Regular)
    (start : r.holds addr = true) (held : r.holds a = true) (n : Nat) :
    Backing.firstPage (r.offset addr) ≤ r.offset a / pageSize ∧
        r.offset a / pageSize <
          min (Backing.pageEnd (r.offset addr) (min n (r.size - r.offset addr)))
            r.backing.pageCount ↔
      a.PageMeets addr n := by
  have base := regular.base
  have start := Region.holds_iff.1 start
  have held := Region.holds_iff.1 held
  have inside : r.offset a / pageSize < r.backing.pageCount := by
    simp only [Region.offset, Region.stop, Region.size, Backing.pageCount, pageSize] at *
    omega
  rw [Nat.lt_min, and_iff_left inside, Backing.mem_pages_iff]
  simp only [Region.offset, Region.stop, GuestAddr.PageMeets, GuestAddr.page, pageSize] at *
  constructor
  · rintro ⟨i, lt, same⟩
    exact ⟨addr.toNat + i, by omega, by omega, by omega⟩
  · rintro ⟨k, lo, hi, same⟩
    -- The first byte of the range on that page lies before the region's end.
    exact ⟨max addr.toNat (a.toNat / 4096 * 4096) - addr.toNat, by omega, by omega⟩

namespace MemoryMap

variable {m m' : MemoryMap} {a addr : GuestAddr} {size : UInt64} {access : Access} {r : Region}
  {n : Nat} {calls : List Call}

/-! ## Guarding -/

/-- Memory is guarded where something is mapped. -/
theorem WellFormed.guardRange_eq_ok_iff (w : m.WellFormed) :
    (m.guardRange addr size).1 = .ok () ↔ ∃ r, m.find addr = some r := by
  cases found : m.find addr with
  | none => simp [guardRange, found]
  | some r => simp [guardRange, found, Backing.guard_of_whole (w.paged_of_find found).whole]

/-- Where nothing is, nothing changes. -/
theorem WellFormed.eq_of_guardRange_error (w : m.WellFormed) {e : MemoryError}
    (h : (m.guardRange addr size).1 = .error e) : (m.guardRange addr size).2 = m := by
  cases found : m.find addr with
  | none => rw [guardRange, found]
  | some r =>
    rw [w.guardRange_eq_ok_iff.2 ⟨r, found⟩] at h
    cases h

theorem WellFormed.isGuarded_guardRange (w : m.WellFormed) (found : m.find addr = some r)
    (size : UInt64) (a : GuestAddr) :
    (m.guardRange addr size).2.isGuarded a = true ↔
      m.isGuarded a = true ∨ (r.holds a = true ∧ a.PageMeets addr size.toNat) := by
  obtain ⟨atBase, start⟩ := w.find_iff.1 found
  have paged := w.paged atBase
  have frame : ∀ lo hi, Region.frame { r with backing := r.backing.guardedOn lo hi } = r.frame :=
    fun _ _ => rfl
  simp only [guardRange, found, Backing.guard_of_whole paged.whole]
  rw [isGuarded_setRegion w.toRegular atBase (frame _ _)]
  by_cases held : r.holds a = true
  · rw [if_pos held, isGuarded_of_find (w.find_iff.2 ⟨atBase, held⟩), Backing.guardedOn,
      PageSet.contains_insert, paged.toRegular.meets_iff start held, and_iff_right held]
  · rw [if_neg held, iff_false_intro fun both => held (And.left both), or_false]

/-! ## Mending -/

/-- The page of the region at base `k` is guarded. -/
def hasGuard (m : MemoryMap) (k page : Nat) : Bool :=
  (m.regions.get? k).any (·.backing.guarded.contains page)

/-- A fault is mended if a guard is in the way of an access that is allowed. -/
theorem WellFormed.resolveFault_iff (w : m.WellFormed) :
    (m.resolveFault a access).1 = true ↔
      ∃ r, m.find a = some r ∧ r.perms.allows access = true ∧ m.isGuarded a = true := by
  constructor
  · intro resolved
    cases allowed : m.allows a access with
    | false =>
      rw [resolveFault_eq_false (.inl allowed)] at resolved
      cases resolved
    | true =>
      obtain ⟨r, found, legal⟩ := exists_find_of_allows allowed
      cases guarded : m.isGuarded a with
      | false =>
        rw [resolveFault_eq_false (.inr guarded)] at resolved
        cases resolved
      | true => exact ⟨r, found, legal, rfl⟩
  · rintro ⟨r, found, legal, guarded⟩
    rw [w.resolveFault_eq_true found legal guarded]

/-- What is not mended stays as it is. -/
theorem WellFormed.eq_of_resolveFault_false (w : m.WellFormed)
    (h : (m.resolveFault a access).1 = false) : (m.resolveFault a access).2 = m := by
  have unresolved := (not_congr w.resolveFault_iff).1 (Bool.not_eq_true _ ▸ h)
  have blocked : m.allows a access = false ∨ m.isGuarded a = false := by
    rw [← Bool.not_eq_true, ← Bool.not_eq_true, ← Decidable.not_and_iff_not_or_not]
    rintro ⟨allowed, guarded⟩
    obtain ⟨r, found, legal⟩ := exists_find_of_allows allowed
    exact unresolved ⟨r, found, legal, guarded⟩
  rw [resolveFault_eq_false blocked]

/-- Mending takes one guard away. -/
theorem WellFormed.hasGuard_resolveFault (w : m.WellFormed) (found : m.find a = some r)
    (resolved : (m.resolveFault a access).1 = true) (k page : Nat) :
    (m.resolveFault a access).2.hasGuard k page = true ↔
      m.hasGuard k page = true ∧ ¬(k = r.base.toNat ∧ page = r.offset a / pageSize) := by
  obtain ⟨r', found', legal, guarded⟩ := w.resolveFault_iff.1 resolved
  cases found.symm.trans found'
  have base : (r.mendedAt a).base = r.base := rfl
  rw [w.resolveFault_eq_true found legal guarded, hasGuard, hasGuard, get?_setRegion, base]
  split
  · rename_i here
    rw [here, (w.find_iff.1 found).1, Option.any_some, Option.any_some, Region.guarded_mendedAt,
      eq_self, true_and]
  · rename_i other
    rw [iff_false_intro fun both => other (And.left both), not_false_eq_true, and_true]

/-! ## What the host lets through -/

/-- The host lets the `n` bytes at `host` be accessed: be written, or be read. -/
def Permits (m : MemoryMap) (host : HostAddr) (n : Nat) : Access → Prop
  | .write => ∀ data, data.length = n → ∃ m', m.writeHost host data = .ok m'
  | _ => ∃ bytes, m.readHost host n = .ok bytes

theorem Regular.readHost_isOk_iff (w : m.Regular) (found : m.find a = some r) :
    (∃ bytes, m.readHost (r.mapping.hostAddr a) n = .ok bytes) ↔
      r.offset a + n ≤ r.size ∧ r.backing.isGuarded (r.offset a) n = false := by
  constructor
  · rintro ⟨bytes, read⟩
    rw [readHost, w.findHost_hostAddr found] at read
    obtain ⟨offset, there, -⟩ := bind_eq_ok read
    have host := w.toNat_hostAddr found
    have sub : (r.mapping.hostAddr a).toNat - r.backing.base.toNat = r.offset a := by omega
    rw [Backing.offsetOf, sub] at there
    split at there
    · cases there
    · rename_i inside
      simp only [not_or, Nat.not_lt, Bool.not_eq_true] at inside
      exact inside.2
  · rintro ⟨inside, free⟩
    rw [w.readHost_hostAddr found inside, free]
    exact ⟨_, rfl⟩

theorem Regular.writeHost_isOk_iff (w : m.Regular) (found : m.find a = some r)
    (writable : r.perms.write = true) {data : List UInt8} :
    (∃ m', m.writeHost (r.mapping.hostAddr a) data = .ok m') ↔
      r.offset a + data.length ≤ r.size ∧
        r.backing.isGuarded (r.offset a) data.length = false := by
  constructor
  · rintro ⟨m', written⟩
    obtain ⟨r', there, admits, -⟩ := writeHost_eq_ok_iff.1 written
    cases (w.findHost_hostAddr found).symm.trans there
    have host := w.toNat_hostAddr found
    have sub : (r.mapping.hostAddr a).toNat - r.backing.base.toNat = r.offset a := by omega
    exact ⟨sub ▸ admits.fits, sub ▸ admits.unguarded⟩
  · rintro ⟨inside, free⟩
    rw [w.writeHost_hostAddr found writable inside, free]
    exact ⟨_, rfl⟩

theorem Regular.permits_iff (w : m.Regular) (found : m.find a = some r)
    (legal : r.perms.allows access = true) :
    m.Permits (r.mapping.hostAddr a) n access ↔
      r.offset a + n ≤ r.size ∧ r.backing.isGuarded (r.offset a) n = false := by
  cases access with
  | read => exact w.readHost_isOk_iff found
  | execute => exact w.readHost_isOk_iff found
  | write =>
    constructor
    · intro permitted
      have zeros := (w.writeHost_isOk_iff found legal).1
        (permitted (List.replicate n 0) List.length_replicate)
      rwa [List.length_replicate] at zeros
    · rintro free data rfl
      exact (w.writeHost_isOk_iff found legal).2 free

/-- An access is possible when its region allows it and the host lets it through. -/
theorem Regular.isHostAccessible_iff (w : m.Regular) (pos : 0 < n) :
    m.isHostAccessible a n access = true ↔
      ∃ r, m.find a = some r ∧ r.perms.allows access = true ∧
        m.Permits (r.mapping.hostAddr a) n access := by
  cases found : m.find a with
  | none => simp [isHostAccessible, found]
  | some r =>
    simp only [isHostAccessible, found, Option.any_some, Nat.max_eq_left pos, Bool.and_eq_true,
      decide_eq_true_eq, Bool.not_eq_true', and_assoc, Option.some.injEq, exists_eq_left']
    exact and_congr_right fun legal => (w.permits_iff found legal).symm

/-! ## All maps -/

/-- After any sequence of calls on a host that keeps its pages: a guard on a range guards the pages
that the range meets in the region of its start, and no others. A fault is mended exactly when a
guard is in the way of an access that is allowed; then this guard goes, and no other. And a range
is accessible exactly when its region allows the access and the host lets it through. -/
theorem protection_exact (kept : ∀ a, .losePage a ∉ calls) :
    (∀ addr size,
      (((after calls).guardRange addr size).1 = .ok () ↔ ∃ r, (after calls).find addr = some r) ∧
      ∀ r, (after calls).find addr = some r → ∀ a,
        (((after calls).guardRange addr size).2.isGuarded a = true ↔
          (after calls).isGuarded a = true ∨ (r.holds a = true ∧ a.PageMeets addr size.toNat))) ∧
    (∀ addr access,
      (((after calls).resolveFault addr access).1 = true ↔
        ∃ r, (after calls).find addr = some r ∧ r.perms.allows access = true ∧
          (after calls).isGuarded addr = true) ∧
      (((after calls).resolveFault addr access).1 = true →
        ∀ r, (after calls).find addr = some r → ∀ k page,
          (((after calls).resolveFault addr access).2.hasGuard k page = true ↔
            (after calls).hasGuard k page = true ∧
              ¬(k = r.base.toNat ∧ page = r.offset addr / pageSize))) ∧
      (((after calls).resolveFault addr access).1 = false →
        ((after calls).resolveFault addr access).2 = after calls)) ∧
    ∀ addr n access, 0 < n →
      ((after calls).isHostAccessible addr n access = true ↔
        ∃ r, (after calls).find addr = some r ∧ r.perms.allows access = true ∧
          (after calls).Permits (r.mapping.hostAddr addr) n access) := by
  have w := wellFormed_after kept
  refine ⟨fun addr size => ⟨w.guardRange_eq_ok_iff, fun r found => ?_⟩, fun addr access =>
    ⟨w.resolveFault_iff, fun resolved r found => ?_, w.eq_of_resolveFault_false⟩,
    fun addr n access pos => w.isHostAccessible_iff pos⟩
  · exact w.isGuarded_guardRange found size
  · exact w.hasGuard_resolveFault found resolved

/-- Three pages, with a guard on four bytes at the end of the first. -/
def guardedPages : List Call := [.map ⟨0x10000⟩ 0x3000 .readWrite, .guard ⟨0x10ffe⟩ 4]

/-- A write to the second page lifts its guard and leaves the one of the first. -/
theorem protection_exact_guardedPages :
    (∀ a, .losePage a ∉ guardedPages) ∧
      ((after guardedPages).resolveFault ⟨0x11008⟩ .write).1 = true ∧
      ((after guardedPages).resolveFault ⟨0x11008⟩ .write).2.hasGuard 0x10000 0 = true ∧
      ((after guardedPages).resolveFault ⟨0x11008⟩ .write).2.hasGuard 0x10000 1 = false := by
  have kept : ∀ a, Call.losePage a ∉ guardedPages := by simp [guardedPages]
  have resolved : ((after guardedPages).resolveFault ⟨0x11008⟩ .write).1 = true := by
    decide +kernel
  have place : ((after guardedPages).find ⟨0x11008⟩).map
      (fun r => (r.base.toNat, r.offset ⟨0x11008⟩ / pageSize)) = some (0x10000, 1) := by
    decide +kernel
  obtain ⟨r, found, here⟩ := Option.map_eq_some_iff.1 place
  injection here with base page
  have guards := ((protection_exact kept).2.1 ⟨0x11008⟩ .write).2.1 resolved r found
  rw [base, page] at guards
  refine ⟨kept, resolved, (guards _ _).2 ⟨by decide +kernel, by decide⟩, ?_⟩
  exact (Bool.not_eq_true _).mp fun still => ((guards _ _).1 still).2 ⟨rfl, rfl⟩

end MemoryMap

end GuestExec
