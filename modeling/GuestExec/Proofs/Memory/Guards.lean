import GuestExec.Memory.Access
import GuestExec.Proofs.Memory.Mapping

/-!
# Contents and guards

An access to one page of a region is a matter of two things: whether the region
allows it and whether the page is guarded. Writing, guarding and mending change
no frames; a write changes no guard, and mending a page lifts its guard and no
other.
-/

namespace GuestExec

/-! ## Pages of a block -/

namespace Backing

variable {b b' : Backing} {offset n : Nat} {perms : Perms}

/-- The pages that a range touches are those of its bytes; an empty one counts as one byte. -/
theorem mem_pages_iff {page : Nat} :
    firstPage offset ≤ page ∧ page < pageEnd offset n ↔
      ∃ i < max n 1, (offset + i) / pageSize = page := by
  rw [firstPage, pageEnd]
  constructor
  · rintro ⟨lo, hi⟩
    -- The first byte of the range on that page.
    refine ⟨max offset (page * pageSize) - offset, ?_, ?_⟩ <;>
    · simp only [pageSize] at *
      omega
  · rintro ⟨i, inside, rfl⟩
    constructor <;>
    · simp only [pageSize] at *
      omega

/-- A range is guarded when one of its bytes lies on a guarded page. -/
theorem isGuarded_iff (pos : 0 < n) :
    b.isGuarded offset n = true ↔
      ∃ i < n, b.guarded.contains ((offset + i) / pageSize) = true := by
  have len : max n 1 = n := Nat.max_eq_left pos
  rw [isGuarded, PageSet.meets_iff]
  constructor
  · rintro ⟨page, lo, hi, mem⟩
    obtain ⟨i, inside, rfl⟩ := mem_pages_iff.1 ⟨lo, hi⟩
    exact ⟨i, len ▸ inside, mem⟩
  · rintro ⟨i, inside, mem⟩
    obtain ⟨lo, hi⟩ := (mem_pages_iff (n := n)).2 ⟨i, len.symm ▸ inside, rfl⟩
    exact ⟨_, lo, hi, mem⟩

/-- Bytes of one page are guarded together. -/
theorem isGuarded_of_fits (fits : offset % pageSize + n ≤ pageSize) :
    b.isGuarded offset n = b.guarded.contains (offset / pageSize) := by
  have last : pageEnd offset n = offset / pageSize + 1 := by
    simp only [pageEnd, pageSize] at *
    omega
  rw [Bool.eq_iff_iff, isGuarded, PageSet.meets_iff, last, firstPage]
  constructor
  · rintro ⟨page, lo, hi, mem⟩
    have : page = offset / pageSize := by omega
    exact this ▸ mem
  · intro mem
    exact ⟨offset / pageSize, Nat.le_refl _, by omega, mem⟩

theorem hostProtect_of_whole {lo hi : Nat} (whole : b.missing = .empty) :
    b.hostProtect lo hi perms = .ok { b with protection := b.protection.assign lo hi perms } := by
  rw [hostProtect, whole]
  rfl

/-- The block without the guard of `page`, which an identity block protects again as its region
says. -/
def unguardedAt (b : Backing) (page : Nat) (perms : Perms) : Backing :=
  { b with
    guarded := b.guarded.erase page (page + 1)
    protection :=
      if b.isIdentity then b.protection.assign page (page + 1) perms else b.protection }

/-- The host has `page`, or gives it out without protection of its own. -/
def keeps (b : Backing) (page : Nat) : Bool := !b.isIdentity || !b.missing.contains page

theorem keeps_of_whole (whole : b.missing = .empty) (page : Nat) : b.keeps page = true := by
  rw [keeps, whole]
  exact Bool.or_true _

/-- Lifting the guard of a page lifts no other. The host allows it while it has the page. -/
theorem unguard_page (perms : Perms) (inside : offset < b.size) :
    b.unguard (offset / pageSize * pageSize) pageSize perms =
      if b.keeps (offset / pageSize) then .ok (b.unguardedAt (offset / pageSize) perms)
      else .error (.protectRefused .noMemory) := by
  have first : firstPage (offset / pageSize * pageSize) = offset / pageSize := by
    simp only [firstPage, pageSize]
    omega
  have last : min (pageEnd (offset / pageSize * pageSize) pageSize) b.pageCount =
      offset / pageSize + 1 := by
    simp only [pageEnd, pageCount, pageSize] at *
    omega
  have gone : b.missing.meets (offset / pageSize) (offset / pageSize + 1) =
      b.missing.contains (offset / pageSize) := by
    rw [Bool.eq_iff_iff, PageSet.meets_iff]
    constructor
    · rintro ⟨page, lo, hi, mem⟩
      obtain rfl : page = offset / pageSize := by omega
      exact mem
    · exact fun mem => ⟨_, Nat.le_refl _, Nat.lt_succ_self _, mem⟩
  simp only [unguard, unguardedAt, keeps, first, last, hostProtect, gone]
  by_cases identity : b.isIdentity = true
  · by_cases lost : b.missing.contains (offset / pageSize) = true <;>
    · simp only [identity, lost]
      rfl
  · simp only [Bool.not_eq_true] at identity
    simp only [identity]
    rfl

/-- A guard stays on the block it is put on. -/
theorem frame_of_guard (b : Backing) (offset len : Nat) :
    (b.guard offset len).2.base = b.base ∧ (b.guard offset len).2.size = b.size ∧
      (b.guard offset len).2.kind = b.kind ∧ (b.guard offset len).2.missing = b.missing := by
  simp only [guard, hostProtect]
  split
  · split
    · rename_i h
      split at h
      · cases h
      · cases h
        exact ⟨rfl, rfl, rfl, rfl⟩
    · exact ⟨rfl, rfl, rfl, rfl⟩
  · exact ⟨rfl, rfl, rfl, rfl⟩

/-- The block with guards on the pages `[lo, hi)`, which an identity block shuts. -/
def guardedOn (b : Backing) (lo hi : Nat) : Backing :=
  { b with
    guarded := b.guarded.insert lo hi
    protection := if b.isIdentity then b.protection.assign lo hi .none else b.protection }

/-- Guarding pages of a whole block succeeds. -/
theorem guard_of_whole (whole : b.missing = .empty) (offset len : Nat) :
    b.guard offset len =
      (.ok (), b.guardedOn (firstPage offset) (min (pageEnd offset len) b.pageCount)) := by
  unfold guard guardedOn
  dsimp only
  generalize firstPage offset = lo
  generalize min (pageEnd offset len) b.pageCount = hi
  have identity : ({ b with guarded := b.guarded.insert lo hi } : Backing).isIdentity =
    b.isIdentity := rfl
  have whole' : ({ b with guarded := b.guarded.insert lo hi } : Backing).missing = .empty := whole
  rw [identity, hostProtect_of_whole whole']
  split <;> rfl

end Backing

namespace Region

variable {r : Region} {a b : GuestAddr}

theorem Regular.offset_mod (regular : r.Regular) (h : r.holds a = true) :
    r.offset a % pageSize = a.toNat % pageSize := by
  have base := regular.base
  have := (holds_iff.1 h).1
  simp only [offset, pageSize] at *
  omega

theorem Regular.same_page_iff (regular : r.Regular) (ha : r.holds a = true)
    (hb : r.holds b = true) :
    r.offset b / pageSize = r.offset a / pageSize ↔ b.page = a.page := by
  have base := regular.base
  have := (holds_iff.1 ha).1
  have := (holds_iff.1 hb).1
  simp only [offset, GuestAddr.page, pageSize] at *
  omega

/-- What is left of a page is left of the region. -/
theorem Regular.offset_add_le (regular : r.Regular) (h : r.holds a = true) {n : Nat}
    (fits : a.toNat % pageSize + n ≤ pageSize) : r.offset a + n ≤ r.size := by
  have base := regular.base
  have size := regular.size
  have := holds_iff.1 h
  simp only [offset, stop, pageSize] at *
  omega

/-- The region without the guard of the page of `a`. -/
def mendedAt (r : Region) (a : GuestAddr) : Region :=
  { r with backing := r.backing.unguardedAt (r.offset a / pageSize) r.perms }

@[simp] theorem frame_mendedAt : (r.mendedAt a).frame = r.frame := rfl

theorem guarded_mendedAt {page : Nat} :
    (r.mendedAt a).backing.guarded.contains page = true ↔
      r.backing.guarded.contains page = true ∧ page ≠ r.offset a / pageSize := by
  rw [mendedAt, Backing.unguardedAt, PageSet.contains_erase]
  refine and_congr_right fun _ => ?_
  omega

/-- The host's protection changes on that page only. -/
theorem protection_mendedAt (page : Nat) :
    (r.mendedAt a).backing.protection.get page = r.backing.protection.get page ∨
      (page = r.offset a / pageSize ∧
        (r.mendedAt a).backing.protection.get page = r.perms) := by
  rw [mendedAt, Backing.unguardedAt]
  dsimp only
  split
  · rw [PageMap.get_assign]
    split
    · exact .inr ⟨by omega, rfl⟩
    · exact .inl rfl
  · exact .inl rfl

/-- The host lets the `len` bytes at `host` in the region be written. -/
structure Admits (r : Region) (host : HostAddr) (len : Nat) : Prop where
  writable : (r.backing.isIdentity && !r.perms.write) = false
  lo : r.backing.base.toNat ≤ host.toNat
  fits : host.toNat - r.backing.base.toNat + len ≤ r.backing.size
  unguarded : r.backing.isGuarded (host.toNat - r.backing.base.toNat) len = false

theorem Admits.congr {r' : Region} {host : HostAddr} {len : Nat} (h : r.Admits host len)
    (frame : r'.frame = r.frame) (guarded : r'.backing.guarded = r.backing.guarded) :
    r'.Admits host len := by
  injection frame with _ perms hostBase size kind
  obtain ⟨writable, lo, fits, unguarded⟩ := h
  constructor
  · rw [Backing.isIdentity, kind, perms]
    exact writable
  · rw [hostBase]
    exact lo
  · rw [hostBase, size]
    exact fits
  · rw [Backing.isGuarded, hostBase, guarded]
    exact unguarded

/-- The region with `data` written at `host`. -/
def written (r : Region) (host : HostAddr) (data : List UInt8) : Region :=
  { r with backing := { r.backing with
      bytes := r.backing.bytes.write (host.toNat - r.backing.base.toNat) data } }

end Region

namespace MemoryMap

variable {m m' : MemoryMap} {a b : GuestAddr} {r r' : Region} {access : Access}

/-- The region of `a` allows the access. -/
def allows (m : MemoryMap) (a : GuestAddr) (access : Access) : Bool :=
  (m.translate a).any (·.perms.allows access)

theorem allows_of_find (found : m.find a = some r) : m.allows a access = r.perms.allows access := by
  rw [allows, translate, found]
  rfl

theorem allows_of_translate {mapping : Mapping} (h : m.translate a = some mapping) :
    m.allows a access = mapping.perms.allows access := by
  rw [allows, h]
  rfl

theorem exists_find_of_allows (h : m.allows a access = true) :
    ∃ r, m.find a = some r ∧ r.perms.allows access = true := by
  cases found : m.find a with
  | none =>
    rw [allows, translate, found] at h
    cases h
  | some r => exact ⟨r, rfl, allows_of_find found ▸ h⟩

/-- The access would succeed on the host as things are. -/
def usable (m : MemoryMap) (a : GuestAddr) (access : Access) : Bool :=
  m.allows a access && !m.isGuarded a

theorem allows_of_usable (h : m.usable a access = true) : m.allows a access = true := by
  rw [usable, Bool.and_eq_true] at h
  exact h.1

theorem SameFrames.allows (h : SameFrames m m') (w : m.Regular) :
    m'.allows a access = m.allows a access := by
  rw [MemoryMap.allows, MemoryMap.allows, h.translate w]

/-- The host has the page of `a`. -/
def keepsPage (m : MemoryMap) (a : GuestAddr) : Bool :=
  (m.find a).all fun r => r.backing.keeps (r.offset a / pageSize)

theorem keepsPage_of_find (found : m.find a = some r) :
    m.keepsPage a = r.backing.keeps (r.offset a / pageSize) := by
  rw [keepsPage, found]
  rfl

theorem WellFormed.keepsPage (w : m.WellFormed) (a : GuestAddr) : m.keepsPage a = true := by
  cases found : m.find a with
  | none =>
    rw [MemoryMap.keepsPage, found]
    rfl
  | some r =>
    rw [keepsPage_of_find found]
    exact Backing.keeps_of_whole (w.whole (w.find_iff.1 found).1) _

theorem SameFrames.keepsPage (h : SameFrames m m') (w : m.Regular) (a : GuestAddr) :
    m'.keepsPage a = m.keepsPage a := by
  cases found : m.find a with
  | none => rw [MemoryMap.keepsPage, MemoryMap.keepsPage, h.find_eq_none w found, found]
  | some r =>
    obtain ⟨r', found', frame⟩ := h.find_frame w found
    injection frame with base _ _ _ kind missing
    rw [keepsPage_of_find found', keepsPage_of_find found, Backing.keeps, Backing.keeps,
      Backing.isIdentity, Backing.isIdentity, Region.offset, Region.offset, base, kind, missing]

/-- An access that faults at `a` is good for a retry: the region allows it, and if a guard is in
its way the host lets it be lifted. -/
def mends (m : MemoryMap) (a : GuestAddr) (access : Access) : Bool :=
  m.allows a access && (!m.isGuarded a || m.keepsPage a)

theorem allows_of_mends (h : m.mends a access = true) : m.allows a access = true := by
  rw [mends, Bool.and_eq_true] at h
  exact h.1

/-- A guard is in the way of an access that is allowed and not mended. -/
theorem isGuarded_of_not_mends (allowed : m.allows a access = true)
    (h : m.mends a access = false) : m.isGuarded a = true ∧ m.keepsPage a = false := by
  rwa [mends, allowed, Bool.true_and, Bool.or_eq_false_iff, Bool.not_eq_false'] at h

/-- While the host has all pages, an access that is allowed is mended. -/
theorem WellFormed.mends_eq (w : m.WellFormed) : m.mends a access = m.allows a access := by
  rw [mends, w.keepsPage, Bool.or_true, Bool.and_true]

theorem isGuarded_of_find (found : m.find a = some r) :
    m.isGuarded a = r.backing.guarded.contains (r.offset a / pageSize) := by
  rw [isGuarded, found]
  refine Backing.isGuarded_of_fits ?_
  have := Nat.mod_lt (r.offset a) (show 0 < pageSize by decide)
  omega

namespace Regular

theorem allows_page (w : m.Regular) (same : b.page = a.page) :
    m.allows b access = m.allows a access := by
  rw [MemoryMap.allows, MemoryMap.allows, w.translate_page same]

/-- All bytes of a page are guarded or none is. -/
theorem isGuarded_page (w : m.Regular) (same : b.page = a.page) :
    m.isGuarded b = m.isGuarded a := by
  have find := w.find_page same
  cases found : m.find a with
  | none =>
    rw [isGuarded, isGuarded, find, found]
    rfl
  | some r =>
    rw [found] at find
    have regular := w.regular_of_find found
    rw [isGuarded_of_find find, isGuarded_of_find found,
      (regular.same_page_iff (w.find_iff.1 found).2 (w.find_iff.1 find).2).2 same]

theorem keepsPage_page (w : m.Regular) (same : b.page = a.page) :
    m.keepsPage b = m.keepsPage a := by
  have find := w.find_page same
  cases found : m.find a with
  | none =>
    rw [keepsPage, keepsPage, find, found]
    rfl
  | some r =>
    rw [found] at find
    have regular := w.regular_of_find found
    rw [keepsPage_of_find find, keepsPage_of_find found,
      (regular.same_page_iff (w.find_iff.1 found).2 (w.find_iff.1 find).2).2 same]

theorem mends_page (w : m.Regular) (same : b.page = a.page) :
    m.mends b access = m.mends a access := by
  rw [mends, mends, w.allows_page same, w.isGuarded_page same, w.keepsPage_page same]

end Regular

/-! ## Reading and writing at host addresses -/

namespace Regular

theorem offsetOf_hostAddr (w : m.Regular) (found : m.find a = some r) {n : Nat}
    (inside : r.offset a + n ≤ r.size) :
    r.backing.offsetOf (r.mapping.hostAddr a) n =
      if r.backing.isGuarded (r.offset a) n then
        .error (.invalidHostAddress (r.mapping.hostAddr a))
      else .ok (r.offset a) := by
  have host := w.toNat_hostAddr found
  have sub : (r.mapping.hostAddr a).toNat - r.backing.base.toNat = r.offset a := by omega
  rw [Region.size] at inside
  rw [Backing.offsetOf, sub]
  congr 1
  rw [eq_iff_iff]
  constructor
  · rintro (h | h | h)
    · omega
    · omega
    · exact h
  · exact fun h => .inr (.inr h)

/-- Bytes of one region can be read on the host exactly when none is guarded. -/
theorem readHost_hostAddr (w : m.Regular) (found : m.find a = some r) {n : Nat}
    (inside : r.offset a + n ≤ r.size) :
    m.readHost (r.mapping.hostAddr a) n =
      if r.backing.isGuarded (r.offset a) n then
        .error (.invalidHostAddress (r.mapping.hostAddr a))
      else .ok (r.backing.bytes.read (r.offset a) n) := by
  simp only [readHost, w.findHost_hostAddr found, Backing.read, w.offsetOf_hostAddr found inside]
  split <;> rfl

/-- Bytes of one region that may be written can be written on the host exactly when none is
guarded. -/
theorem writeHost_hostAddr (w : m.Regular) (found : m.find a = some r)
    (writable : r.perms.write = true) {data : List UInt8}
    (inside : r.offset a + data.length ≤ r.size) :
    m.writeHost (r.mapping.hostAddr a) data =
      if r.backing.isGuarded (r.offset a) data.length then
        .error (.invalidHostAddress (r.mapping.hostAddr a))
      else .ok (m.setRegion (r.written (r.mapping.hostAddr a) data)) := by
  have host := w.toNat_hostAddr found
  have sub : (r.mapping.hostAddr a).toNat - r.backing.base.toNat = r.offset a := by omega
  simp only [writeHost, w.findHost_hostAddr found, writable, Bool.not_true, Bool.and_false,
    Bool.false_eq_true, if_false, Backing.write, w.offsetOf_hostAddr found inside, Region.written,
    sub]
  split <;> rfl

/-- Bytes of one page are guarded with the first of them. -/
theorem isGuarded_of_fits (w : m.Regular) (found : m.find a = some r) {n : Nat}
    (fits : a.toNat % pageSize + n ≤ pageSize) :
    r.backing.isGuarded (r.offset a) n = m.isGuarded a := by
  have regular := w.regular_of_find found
  rw [MemoryMap.isGuarded_of_find found,
    Backing.isGuarded_of_fits (regular.offset_mod (w.find_iff.1 found).2 ▸ fits)]

/-- Bytes of one page are accessible when the first of them is. -/
theorem isHostAccessible_of_fits (w : m.Regular) {n : Nat} (pos : 0 < n)
    (fits : a.toNat % pageSize + n ≤ pageSize) :
    m.isHostAccessible a n access = m.usable a access := by
  cases found : m.find a with
  | none => simp [isHostAccessible, usable, allows, translate, found]
  | some r =>
    have inside := (w.regular_of_find found).offset_add_le (w.find_iff.1 found).2 fits
    rw [isHostAccessible, found, Option.any_some, usable, allows_of_find found]
    dsimp only
    rw [w.isGuarded_of_fits found fits, Nat.max_eq_left pos, decide_eq_true inside, Bool.and_true]

theorem isHostAccessible_one (w : m.Regular) :
    m.isHostAccessible a 1 access = m.usable a access :=
  w.isHostAccessible_of_fits Nat.one_pos (Nat.mod_lt _ (by decide))

/-- Bytes of one page can be read on the host exactly when it is not guarded. -/
theorem readHost_page (w : m.Regular) (found : m.find a = some r) {n : Nat}
    (fits : a.toNat % pageSize + n ≤ pageSize) :
    m.readHost (r.mapping.hostAddr a) n =
      if m.isGuarded a then .error (.invalidHostAddress (r.mapping.hostAddr a))
      else .ok (r.backing.bytes.read (r.offset a) n) := by
  have inside := (w.regular_of_find found).offset_add_le (w.find_iff.1 found).2 fits
  rw [w.readHost_hostAddr found inside, w.isGuarded_of_fits found fits]

/-- Bytes of one page can be written on the host exactly when it is not guarded. -/
theorem writeHost_page (w : m.Regular) (found : m.find a = some r)
    (writable : r.perms.write = true) {data : List UInt8}
    (fits : a.toNat % pageSize + data.length ≤ pageSize) :
    (m.isGuarded a = true ∧ ∃ e, m.writeHost (r.mapping.hostAddr a) data = .error e) ∨
      (m.isGuarded a = false ∧ ∃ m', m.writeHost (r.mapping.hostAddr a) data = .ok m') := by
  have inside := (w.regular_of_find found).offset_add_le (w.find_iff.1 found).2 fits
  rw [w.writeHost_hostAddr found writable inside, w.isGuarded_of_fits found fits]
  cases m.isGuarded a
  · exact .inr ⟨rfl, _, rfl⟩
  · exact .inl ⟨rfl, _, rfl⟩

end Regular

theorem piece_eq (found : m.find a = some r) (allowed : r.perms.allows access = true)
    (denied : GuestAddr → MemoryError) : ∃ pos, m.piece a access denied =
      .ok ⟨(r.mapping.hostAddr a, r.size - r.offset a), pos⟩ := by
  have translated : m.translate a = some r.mapping := translate_eq_some_iff.2 ⟨r, found, rfl⟩
  have allowed : r.mapping.perms.allows access = true := allowed
  unfold piece
  split
  · rename_i none
    rw [translated] at none
    cases none
  · rename_i mapping there
    cases translated.symm.trans there
    rw [if_pos allowed]
    exact ⟨translate_rest_pos translated, rfl⟩

/-- A piece is what is left of a region that allows the access. -/
theorem exists_of_piece {denied : GuestAddr → MemoryError} {p : { p : HostAddr × Nat // 0 < p.2 }}
    (h : m.piece a access denied = .ok p) :
    ∃ r, m.find a = some r ∧ r.perms.allows access = true ∧
      p.1 = (r.mapping.hostAddr a, r.size - r.offset a) := by
  unfold piece at h
  split at h
  · cases h
  · rename_i mapping translated
    obtain ⟨r, found, rfl⟩ := translate_eq_some_iff.1 translated
    split at h
    · rename_i allowed
      cases h
      exact ⟨r, found, allowed, rfl⟩
    · cases h

/-- Bytes of one page that may be read are those of the region. -/
theorem Regular.read_eq (w : m.Regular) (found : m.find a = some r)
    (allowed : r.perms.allows .read = true) (free : m.isGuarded a = false) {n : Nat} (pos : 0 < n)
    (fits : a.toNat % pageSize + n ≤ pageSize) :
    m.read a n = .ok (r.backing.bytes.read (r.offset a) n) := by
  obtain ⟨atBase, held⟩ := w.find_iff.1 found
  have inside := (w.regular atBase).offset_add_le held fits
  have whole : min (r.size - r.offset a) n = n := by omega
  have bytes := w.readHost_page found fits
  rw [free, if_neg Bool.false_ne_true] at bytes
  obtain ⟨_, piece⟩ := piece_eq found allowed .notReadable
  rw [read, if_neg (Nat.ne_of_gt pos), piece]
  dsimp only
  rw [whole, bytes, Nat.sub_self, read, if_pos rfl]
  dsimp only
  rw [List.append_nil]

/-- What a write at a host address comes to when it goes through. -/
theorem writeHost_eq_ok_iff {host : HostAddr} {data : List UInt8} :
    m.writeHost host data = .ok m' ↔ ∃ r, m.findHost host = some r ∧
      r.Admits host data.length ∧ m' = m.setRegion (r.written host data) := by
  rw [writeHost]
  constructor
  · intro h
    split at h
    · cases h
    · rename_i r found
      split at h
      · cases h
      · rename_i writable
        obtain ⟨b, written, h⟩ := bind_eq_ok h
        obtain ⟨offset, there, h'⟩ := bind_eq_ok written
        rw [Backing.offsetOf] at there
        split at there
        · cases there
        · rename_i inside
          simp only [not_or, Bool.not_eq_true] at inside writable
          obtain ⟨lo, fits, unguarded⟩ := inside
          cases there
          cases h'
          cases h
          exact ⟨r, found, ⟨writable, by omega, by omega, unguarded⟩, rfl⟩
  · rintro ⟨r, found, ⟨writable, lo, fits, unguarded⟩, rfl⟩
    have offset : r.backing.offsetOf host data.length =
        .ok (host.toNat - r.backing.base.toNat) := by
      rw [Backing.offsetOf, unguarded]
      exact if_neg (by simp only [Bool.false_eq_true, or_false]; omega)
    simp only [found, writable, Backing.write, offset, Bool.false_eq_true, if_false]
    rfl

/-! ## Maps that differ in one region -/

theorem find_setRegion (w : m.Regular) (found : m.regions.get? r.base.toNat = some r)
    (frame : r'.frame = r.frame) :
    (m.setRegion r').find a = if r.holds a then some r' else m.find a := by
  have same := sameFrames_setRegion found frame
  injection frame with base _ _ size
  refine w.find_replaced (same.regular w) found (fun x here => ?_) (fun k => ?_) a
  · cases here
    exact ⟨base, size⟩
  · rw [get?_setRegion, base]

/-- What replacing a region makes of the region of a host address. -/
theorem Regular.findHost_setRegion (w : m.Regular)
    (there : m.regions.get? r.base.toNat = some r) (frame : r'.frame = r.frame)
    {host : HostAddr} {x : Region} (found : m.findHost host = some x) :
    (m.setRegion r').findHost host = some (if x.base.toNat = r.base.toNat then r' else x) := by
  have frames := sameFrames_setRegion there frame
  obtain ⟨y, found', frame'⟩ := frames.findHost_frame w found
  have base : r'.base = r.base := congrArg Region.Frame.base frame
  have base' : y.base = x.base := congrArg Region.Frame.base frame'
  have old := (w.findHost_iff.1 found).1
  have key := ((frames.regular w).findHost_iff.1 found').1
  rw [get?_setRegion, base, base'] at key
  rw [found', ← key]
  split
  · rfl
  · exact old

/-- The guards of the other regions stay as they were. -/
theorem isGuarded_setRegion (w : m.Regular) (found : m.regions.get? r.base.toNat = some r)
    (frame : r'.frame = r.frame) :
    (m.setRegion r').isGuarded a =
      if r.holds a then r'.backing.guarded.contains (r.offset a / pageSize)
      else m.isGuarded a := by
  have base : r'.base = r.base := congrArg Region.Frame.base frame
  have there := find_setRegion (a := a) w found frame
  split
  · rename_i held
    rw [if_pos held] at there
    rw [isGuarded_of_find there, Region.offset, Region.offset, base]
  · rename_i free
    rw [if_neg free] at there
    rw [isGuarded, isGuarded, there]

/-- No page of a region has a guard in `m'` that it did not have in `m`. -/
structure Loosens (m m' : MemoryMap) : Prop extends SameFrames m m' where
  looser : ∀ {k r r'}, m.regions.get? k = some r → m'.regions.get? k = some r' →
    ∀ page, r'.backing.guarded.contains page = true → r.backing.guarded.contains page = true

/-- The maps differ in contents only. -/
structure SameGuards (m m' : MemoryMap) : Prop extends Loosens m m' where
  guards : ∀ a, m'.isGuarded a = m.isGuarded a

/-- `m'` is `m` without the guard of the page of `a`. -/
structure Mended (m : MemoryMap) (a : GuestAddr) (m' : MemoryMap) : Prop
    extends Loosens m m' where
  guards : ∀ b, m'.isGuarded b = (m.isGuarded b && decide (b.page ≠ a.page))

theorem Loosens.refl (m : MemoryMap) : Loosens m m := by
  refine ⟨.refl m, fun found found' page h => ?_⟩
  rw [found] at found'
  cases found'
  exact h

theorem Loosens.trans {m'' : MemoryMap} (h : Loosens m m') (h' : Loosens m' m'') :
    Loosens m m'' := by
  refine ⟨h.toSameFrames.trans h'.toSameFrames, fun found found'' page guarded => ?_⟩
  obtain ⟨r', found', -⟩ := h'.toSameFrames.exists_frame found''
  exact h.looser found found' page (h'.looser found' found'' page guarded)

theorem loosens_setRegion (found : m.regions.get? r.base.toNat = some r)
    (frame : r'.frame = r.frame)
    (looser : ∀ page, r'.backing.guarded.contains page = true →
      r.backing.guarded.contains page = true) : Loosens m (m.setRegion r') := by
  refine ⟨sameFrames_setRegion found frame, fun {k x x'} hx hx' page h => ?_⟩
  have base : r'.base = r.base := congrArg Region.Frame.base frame
  rw [get?_setRegion, base] at hx'
  split at hx'
  · rename_i here
    rw [here, found] at hx
    cases hx
    cases hx'
    exact looser page h
  · rw [hx] at hx'
    cases hx'
    exact h

/-- What the host can access stays accessible when guards go. -/
theorem Loosens.isHostAccessible (h : Loosens m m') (w : m.Regular) {n : Nat}
    (usable : m.isHostAccessible a n access = true) : m'.isHostAccessible a n access = true := by
  cases found : m.find a with
  | none =>
    rw [MemoryMap.isHostAccessible, found] at usable
    cases usable
  | some r =>
    obtain ⟨r', found', frame⟩ := h.toSameFrames.find_frame w found
    have atBase := (w.find_iff.1 found).1
    have atBase' := ((h.toSameFrames.regular w).find_iff.1 found').1
    injection frame with base perms host size
    rw [base] at atBase'
    rw [MemoryMap.isHostAccessible, found, Option.any_some, Bool.and_eq_true, Bool.and_eq_true,
      Bool.not_eq_true'] at usable
    obtain ⟨⟨allowed, inside⟩, free⟩ := usable
    have offset : r'.offset a = r.offset a := by rw [Region.offset, Region.offset, base]
    have free' : r'.backing.isGuarded (r.offset a) n = false := by
      rw [← Bool.not_eq_true, Backing.isGuarded, PageSet.meets_iff] at free ⊢
      rintro ⟨page, lo, hi, mem⟩
      exact free ⟨page, lo, hi, h.looser atBase atBase' page mem⟩
    rw [MemoryMap.isHostAccessible, found', Option.any_some, offset, perms, allowed, Region.size,
      size]
    dsimp only
    rw [free', Bool.true_and, Bool.not_false, Bool.and_true]
    exact inside

theorem SameGuards.refl (m : MemoryMap) : SameGuards m m := ⟨.refl m, fun _ => rfl⟩

theorem SameGuards.trans {m'' : MemoryMap} (h : SameGuards m m') (h' : SameGuards m' m'') :
    SameGuards m m'' :=
  ⟨h.toLoosens.trans h'.toLoosens, fun a => (h'.guards a).trans (h.guards a)⟩

theorem SameGuards.trans_mended {m'' : MemoryMap} (h : SameGuards m m') (h' : Mended m' a m'') :
    Mended m a m'' := by
  refine ⟨h.toLoosens.trans h'.toLoosens, fun b => ?_⟩
  rw [h'.guards, h.guards]

theorem Mended.trans_sameGuards {m'' : MemoryMap} (h : Mended m a m') (h' : SameGuards m' m'') :
    Mended m a m'' :=
  ⟨h.toLoosens.trans h'.toLoosens, fun b => (h'.guards b).trans (h.guards b)⟩

/-- Any address of the page names it. -/
theorem Mended.of_page (h : Mended m a m') (same : b.page = a.page) : Mended m b m' :=
  ⟨h.toLoosens, fun c => by rw [same, h.guards]⟩

theorem SameGuards.usable (h : SameGuards m m') (w : m.Regular) :
    m'.usable a access = m.usable a access := by
  rw [MemoryMap.usable, MemoryMap.usable, h.toSameFrames.allows w, h.guards]

theorem SameGuards.mends (h : SameGuards m m') (w : m.Regular) :
    m'.mends a access = m.mends a access := by
  rw [MemoryMap.mends, MemoryMap.mends, h.toSameFrames.allows w, h.guards,
    h.toSameFrames.keepsPage w]

theorem Mended.mends (h : Mended m a m') (w : m.Regular) (good : m.mends b access = true) :
    m'.mends b access = true := by
  rw [MemoryMap.mends, Bool.and_eq_true] at good ⊢
  rw [h.toSameFrames.allows w, h.toSameFrames.keepsPage w, h.guards]
  refine ⟨good.1, ?_⟩
  cases guarded : m.isGuarded b with
  | false => rfl
  | true =>
    rw [guarded, Bool.not_true, Bool.false_or] at good
    rw [good.2, Bool.or_true]

/-- A page that was mended is usable if its region allows the access, and the others are as
usable as before. -/
theorem Mended.usable (h : Mended m a m') (w : m.Regular) :
    m'.usable b access =
      if b.page = a.page then m.allows b access else m.usable b access := by
  rw [MemoryMap.usable, MemoryMap.usable, h.toSameFrames.allows w, h.guards]
  split
  · rename_i same
    simp [same]
  · rename_i other
    simp [other]

/-! ## The operations -/

theorem Regular.sameGuards_setBytes (w : m.Regular)
    (found : m.regions.get? r.base.toNat = some r) (bytes : ByteStore) :
    SameGuards m (m.setRegion { r with backing := { r.backing with bytes } }) := by
  have frame : Region.frame { r with backing := { r.backing with bytes } } = r.frame := rfl
  refine ⟨loosens_setRegion found frame fun _ h => h, fun a => ?_⟩
  rw [isGuarded_setRegion w found frame]
  split
  · rename_i held
    rw [isGuarded_of_find (w.find_iff.2 ⟨found, held⟩)]
  · rfl

theorem Regular.sameGuards_writeHost (w : m.Regular) {host : HostAddr} {data : List UInt8}
    (h : m.writeHost host data = .ok m') : SameGuards m m' := by
  obtain ⟨r, found, -, rfl⟩ := writeHost_eq_ok_iff.1 h
  exact w.sameGuards_setBytes (w.findHost_iff.1 found).1 _

theorem Regular.sameGuards_write (w : m.Regular) (addr : GuestAddr) (data : List UInt8) :
    SameGuards m (m.write addr data).2 := by
  fun_induction m.write addr data with
  | case1 => exact .refl _
  | case2 => exact .refl _
  | case3 => exact .refl _
  | case4 m addr data _ host avail _ _ n m' written ih =>
    have same := w.sameGuards_writeHost written
    exact same.trans (ih (same.toSameFrames.regular w))

theorem Regular.sameFrames_guardRange (w : m.Regular) (addr : GuestAddr) (size : UInt64) :
    SameFrames m (m.guardRange addr size).2 := by
  simp only [guardRange]
  split
  · exact .refl m
  · rename_i r found
    obtain ⟨base, size', kind, missing⟩ :=
      r.backing.frame_of_guard (r.offset addr) (min size.toNat (r.size - r.offset addr))
    refine sameFrames_setRegion (w.find_iff.1 found).1 ?_
    simp only [Region.frame, base, size', kind, missing]

/-- Mending a page lifts the guard of that page of the region and changes nothing else, if the host
has the page. -/
theorem Regular.resolveFault_of_guarded (w : m.Regular) (found : m.find a = some r)
    (legal : r.perms.allows access = true) (guarded : m.isGuarded a = true) :
    m.resolveFault a access =
      if m.keepsPage a then (true, m.setRegion (r.mendedAt a)) else (false, m) := by
  obtain ⟨atBase, held⟩ := w.find_iff.1 found
  have inside : r.offset a < r.backing.size := by
    have h := Region.holds_iff.1 held
    simp only [Region.stop, Region.offset, Region.size] at *
    omega
  have blocked : r.backing.isGuarded (r.offset a) 1 = true := by
    rw [isGuarded, found] at guarded
    exact guarded
  simp only [resolveFault, found, legal, blocked, Bool.and_true, if_true,
    Backing.unguard_page r.perms inside, keepsPage_of_find found]
  cases r.backing.keeps (r.offset a / pageSize) <;> rfl

/-- While the host has all pages it succeeds. -/
theorem WellFormed.resolveFault_eq_true (w : m.WellFormed) (found : m.find a = some r)
    (legal : r.perms.allows access = true) (guarded : m.isGuarded a = true) :
    m.resolveFault a access = (true, m.setRegion (r.mendedAt a)) := by
  rw [w.resolveFault_of_guarded found legal guarded, w.keepsPage, if_pos rfl]

theorem Regular.mended_mendedAt (w : m.Regular) (found : m.find a = some r) :
    Mended m a (m.setRegion (r.mendedAt a)) := by
  obtain ⟨atBase, held⟩ := w.find_iff.1 found
  have regular := w.regular atBase
  have looser : ∀ page, (r.mendedAt a).backing.guarded.contains page = true →
      r.backing.guarded.contains page = true :=
    fun page h => (Region.guarded_mendedAt.1 h).1
  refine ⟨loosens_setRegion atBase Region.frame_mendedAt looser, fun c => ?_⟩
  rw [isGuarded_setRegion w atBase Region.frame_mendedAt]
  split
  · rename_i holds
    rw [isGuarded_of_find (w.find_iff.2 ⟨atBase, holds⟩), Bool.eq_iff_iff,
      Region.guarded_mendedAt, Bool.and_eq_true, decide_eq_true_eq]
    exact and_congr_right fun _ => not_congr (regular.same_page_iff held holds)
  · rename_i free
    have other : c.page ≠ a.page := fun same => free (regular.holds_of_page held same)
    simp [other]

/-- A page without a guard is mended already. -/
theorem Regular.mended_of_free (w : m.Regular) (free : m.isGuarded a = false) : Mended m a m := by
  refine ⟨.refl m, fun b => ?_⟩
  by_cases same : b.page = a.page
  · rw [w.isGuarded_page same, free, Bool.false_and]
  · rw [decide_eq_true same, Bool.and_true]

theorem resolveFault_eq_false (h : m.allows a access = false ∨ m.isGuarded a = false) :
    m.resolveFault a access = (false, m) := by
  unfold resolveFault
  split
  · rfl
  · rename_i r found
    rw [allows_of_find found, isGuarded, found] at h
    simp only [Option.any_some] at h
    rcases h with h | h <;> simp [h]

/-- An access that is mended finds no guard on its page afterwards. -/
theorem Regular.mended_resolveFault (w : m.Regular) (h : m.mends a access = true) :
    Mended m a (m.resolveFault a access).2 := by
  obtain ⟨r, found, legal⟩ := exists_find_of_allows (allows_of_mends h)
  cases guarded : m.isGuarded a with
  | true =>
    rw [mends, guarded, Bool.and_eq_true] at h
    rw [w.resolveFault_of_guarded found legal guarded, show m.keepsPage a = true from h.2,
      if_pos rfl]
    exact w.mended_mendedAt found
  | false =>
    rw [resolveFault_eq_false (.inr guarded)]
    exact w.mended_of_free guarded

/-- What mending the page of `a` makes of its region: no guard on this page, and the others as
they were. -/
theorem Regular.find_resolveFault (w : m.Regular) (found : m.find a = some r)
    (h : m.mends a access = true) :
    ∃ r', (m.resolveFault a access).2.find a = some r' ∧ r'.frame = r.frame ∧
      ∀ page, r'.backing.guarded.contains page = true ↔
        r.backing.guarded.contains page = true ∧ page ≠ r.offset a / pageSize := by
  obtain ⟨atBase, held⟩ := w.find_iff.1 found
  have legal : r.perms.allows access = true := allows_of_find found ▸ allows_of_mends h
  cases guarded : m.isGuarded a with
  | true =>
    rw [mends, guarded, Bool.and_eq_true] at h
    refine ⟨r.mendedAt a, ?_, Region.frame_mendedAt, fun page => Region.guarded_mendedAt⟩
    rw [w.resolveFault_of_guarded found legal guarded, show m.keepsPage a = true from h.2,
      if_pos rfl, find_setRegion w atBase Region.frame_mendedAt, if_pos held]
  | false =>
    rw [resolveFault_eq_false (.inr guarded)]
    refine ⟨r, found, rfl, fun page => ⟨fun there => ⟨there, ?_⟩, And.left⟩⟩
    rintro rfl
    rw [isGuarded_of_find found, there] at guarded
    cases guarded

/-- Mending either does what it should or nothing. -/
theorem Regular.resolveFault_or (w : m.Regular) (a : GuestAddr) (access : Access) :
    m.resolveFault a access = (false, m) ∨ ∃ r, m.find a = some r ∧
      r.perms.allows access = true ∧ m.isGuarded a = true ∧
      m.resolveFault a access = (true, m.setRegion (r.mendedAt a)) := by
  by_cases h : m.allows a access = true ∧ m.isGuarded a = true
  · obtain ⟨r, found, legal⟩ := exists_find_of_allows h.1
    rw [w.resolveFault_of_guarded found legal h.2]
    split
    · exact .inr ⟨r, found, legal, h.2, rfl⟩
    · exact .inl rfl
  · refine .inl (resolveFault_eq_false ?_)
    rw [← Bool.not_eq_true, ← Bool.not_eq_true]
    exact Decidable.not_and_iff_not_or_not.1 h

theorem Regular.loosens_resolveFault (w : m.Regular) : Loosens m (m.resolveFault a access).2 := by
  rcases w.resolveFault_or a access with same | ⟨r, found, -, -, done⟩
  · rw [same]
    exact .refl m
  · rw [done]
    exact (w.mended_mendedAt found).toLoosens

end MemoryMap

end GuestExec
