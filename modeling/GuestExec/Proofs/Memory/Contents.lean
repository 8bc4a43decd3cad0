import GuestExec.Proofs.Memory.Guards

/-!
# Which bytes change

`ModifiesOnly P` relates two maps whose contents differ at most at addresses that
satisfy `P` and whose region allows writing. Mending a page changes no byte at
all; a write on the host changes bytes of its range.
-/

namespace GuestExec

/-! ## Ranges of addresses -/

/-- `n` is the number of one of the `len` addresses from `a` on, modulo 2^64. -/
def GuestAddr.Spans (a : GuestAddr) (len n : Nat) : Prop :=
  ∃ i < len, (a + UInt64.ofNat i).toNat = n

namespace GuestAddr

variable {a : GuestAddr} {len n : Nat}

theorem spans_of_le (short : a.toNat + len ≤ 0x1_0000_0000_0000_0000) (lo : a.toNat ≤ n)
    (hi : n < a.toNat + len) : a.Spans len n := by
  refine ⟨n - a.toNat, by omega, ?_⟩
  rw [toNat_add_of_lt short (by omega)]
  omega

theorem Spans.mono {len' : Nat} (h : a.Spans len n) (le : len ≤ len') : a.Spans len' n := by
  obtain ⟨i, inside, eq⟩ := h
  exact ⟨i, Nat.lt_of_lt_of_le inside le, eq⟩

/-- The end of a range is part of it. -/
theorem Spans.of_add {skip : Nat} (h : (a + UInt64.ofNat skip).Spans len n) :
    a.Spans (skip + len) n := by
  obtain ⟨i, inside, rfl⟩ := h
  refine ⟨skip + i, Nat.add_lt_add_left inside skip, ?_⟩
  rw [toNat_add_ofNat, toNat_add_ofNat, toNat_add_ofNat]
  omega

end GuestAddr

namespace MemoryMap

variable {m m' m'' : MemoryMap} {a : GuestAddr} {r : Region} {access : Access}
  {P Q : Nat → Prop}

/-! ## The relation -/

/-- The maps have the same frames, and a byte that differs has an address with `P` and lies in a
region that allows writing. -/
structure ModifiesOnly (P : Nat → Prop) (m m' : MemoryMap) : Prop extends SameFrames m m' where
  bytes : ∀ {k r r'}, m.regions.get? k = some r → m'.regions.get? k = some r' → ∀ offset,
    r'.backing.bytes.get offset = r.backing.bytes.get offset ∨
      (r.perms.write = true ∧ P (r.base.toNat + offset))

namespace ModifiesOnly

theorem refl (P : Nat → Prop) (m : MemoryMap) : ModifiesOnly P m m := by
  refine ⟨.refl m, fun found found' offset => .inl ?_⟩
  rw [found] at found'
  cases found'
  rfl

theorem trans (h : ModifiesOnly P m m') (h' : ModifiesOnly P m' m'') : ModifiesOnly P m m'' := by
  refine ⟨h.toSameFrames.trans h'.toSameFrames, fun {k r r''} found found'' offset => ?_⟩
  obtain ⟨r', found', -⟩ := h'.toSameFrames.exists_frame found''
  obtain ⟨r₀, found₀, frame⟩ := h.toSameFrames.exists_frame found'
  rw [found] at found₀
  cases found₀
  injection frame with base perms
  rcases h'.bytes found' found'' offset with same | wrote
  · exact same ▸ h.bytes found found' offset
  · rw [base, perms] at wrote
    exact .inr wrote

theorem mono (h : ModifiesOnly P m m') (sub : ∀ n, P n → Q n) : ModifiesOnly Q m m' :=
  ⟨h.toSameFrames, fun found found' offset =>
    (h.bytes found found' offset).imp id fun ⟨writable, here⟩ => ⟨writable, sub _ here⟩⟩

end ModifiesOnly

/-! ## The operations -/

/-- Another state of one region, with bytes that differ only as `P` allows. -/
theorem modifiesOnly_setRegion {r' : Region} (found : m.regions.get? r.base.toNat = some r)
    (frame : r'.frame = r.frame)
    (bytes : ∀ offset, r'.backing.bytes.get offset = r.backing.bytes.get offset ∨
      (r.perms.write = true ∧ P (r.base.toNat + offset))) :
    ModifiesOnly P m (m.setRegion r') := by
  refine ⟨sameFrames_setRegion found frame, fun {k x x'} there there' offset => ?_⟩
  have base : r'.base = r.base := congrArg Region.Frame.base frame
  rw [get?_setRegion, base] at there'
  split at there'
  · rename_i here
    rw [here, found] at there
    cases there
    cases there'
    exact bytes offset
  · rw [there] at there'
    cases there'
    exact .inl rfl

/-- Lifting guards leaves the rest of a block as it is. -/
theorem eq_of_unguard {b b' : Backing} {offset len : Nat} {perms : Perms}
    (h : b.unguard offset len perms = .ok b') :
    b' = { b with guarded := b'.guarded, protection := b'.protection } := by
  simp only [Backing.unguard] at h
  split at h
  · obtain ⟨b₁, shielded, h⟩ := bind_eq_ok h
    rw [Backing.hostProtect] at shielded
    split at shielded
    · cases shielded
    · cases shielded
      cases h
      rfl
  · cases h
    rfl

/-- Mending a page changes no byte. -/
theorem Regular.modifiesOnly_resolveFault (w : m.Regular) (P : Nat → Prop) (a : GuestAddr)
    (access : Access) : ModifiesOnly P m (m.resolveFault a access).2 := by
  unfold resolveFault
  split
  · exact .refl P m
  · rename_i r found
    dsimp only
    split
    · split
      · rename_i b lifted
        rw [eq_of_unguard lifted]
        exact modifiesOnly_setRegion (w.find_iff.1 found).1 rfl fun _ => .inl rfl
      · exact .refl P m
    · exact .refl P m

/-- `m'` is `m` without the guard of the page of `a`: no other guard goes, no byte changes, and the
host protects every other page as before. -/
structure Lifted (m : MemoryMap) (a : GuestAddr) (m' : MemoryMap) : Prop
    extends Mended m a m', ModifiesOnly (fun _ => False) m m' where
  heap : m'.heap = m.heap
  protection : ∀ {k r r'}, m.regions.get? k = some r → m'.regions.get? k = some r' → ∀ page,
    r'.backing.protection.get page = r.backing.protection.get page ∨
      (r.holds a = true ∧ page = r.offset a / pageSize ∧
        r'.backing.protection.get page = r.perms)

/-- Mending a page for an access that its region allows. -/
theorem Regular.lifted_resolveFault (w : m.Regular) (h : m.mends a access = true) :
    Lifted m a (m.resolveFault a access).2 := by
  have bytes := w.modifiesOnly_resolveFault (fun _ => False) a access
  have mended := w.mended_resolveFault h
  obtain ⟨r, found, legal⟩ := exists_find_of_allows (allows_of_mends h)
  cases guarded : m.isGuarded a with
  | true =>
    rw [mends, guarded, Bool.and_eq_true] at h
    have lifted : m.resolveFault a access = (true, m.setRegion (r.mendedAt a)) := by
      rw [w.resolveFault_of_guarded found legal guarded, show m.keepsPage a = true from h.2,
        if_pos rfl]
    rw [lifted] at bytes mended ⊢
    refine ⟨mended, bytes.bytes, rfl, fun {k x x'} there there' page => ?_⟩
    have base : (r.mendedAt a).base = r.base := rfl
    rw [get?_setRegion, base] at there'
    split at there'
    · rename_i here
      obtain ⟨atBase, held⟩ := w.find_iff.1 found
      rw [here, atBase] at there
      cases there
      cases there'
      exact (Region.protection_mendedAt page).imp id fun mended => ⟨held, mended⟩
    · rw [there] at there'
      cases there'
      exact .inl rfl
  | false =>
    rw [resolveFault_eq_false (.inr guarded)] at bytes mended ⊢
    refine ⟨mended, bytes.bytes, rfl, fun {k x x'} there there' page => .inl ?_⟩
    rw [there] at there'
    cases there'
    rfl

/-- After that the host lets the access through. -/
theorem Regular.isHostAccessible_resolveFault (w : m.Regular) (h : m.mends a access = true) :
    (m.resolveFault a access).2.isHostAccessible a 1 access = true := by
  have mended := w.mended_resolveFault h
  rw [(mended.toSameFrames.regular w).isHostAccessible_one, mended.usable w, if_pos rfl,
    allows_of_mends h]

/-- A write on the host in the region of `a` changes bytes of its range. -/
theorem Regular.modifiesOnly_writeHost (w : m.Regular) (found : m.find a = some r)
    (writable : r.perms.write = true) {data : List UInt8}
    (short : a.toNat + data.length ≤ 0x1_0000_0000_0000_0000)
    (written : m.writeHost (r.mapping.hostAddr a) data = .ok m') :
    ModifiesOnly (a.Spans data.length) m m' := by
  obtain ⟨atBase, held⟩ := w.find_iff.1 found
  obtain ⟨lo, -⟩ := Region.holds_iff.1 held
  have host := w.toNat_hostAddr found
  obtain ⟨x, there, -, rfl⟩ := writeHost_eq_ok_iff.1 written
  rw [w.findHost_hostAddr found] at there
  cases there
  refine modifiesOnly_setRegion atBase rfl fun offset => ?_
  rw [Region.written, ByteStore.get_write]
  split
  · rename_i range
    refine .inr ⟨writable, GuestAddr.spans_of_le short ?_ ?_⟩ <;>
    · simp only [Region.offset] at host
      omega
  · exact .inl rfl

end MemoryMap

end GuestExec
