import GuestExec.Proofs.Memory.Faithful
import GuestExec.Proofs.Memory.Identity

/-!
# Regions past the end

A map measures its regions in numbers and finds them by addresses of 64 bits, and
no check keeps the numbers within the addresses. Where a region runs past 2^64
its last bytes have no address: those that come after the highest address belong
to another region or to none. An access that starts below gets them all the same,
since it makes one piece of all that the region holds from there on. Identity
blocks end in time, because the host's addresses do.
-/

namespace GuestExec.MemoryMap

/-- What addresses reach of the regions of a map, and what accesses get from them. -/
structure Addressed (m : MemoryMap) : Prop where
  /-- A byte of a region is found at its address exactly when the number of the byte is one. -/
  reached : ∀ r ∈ m.regions.values, ∀ o < r.size,
    (m.translate (r.base + UInt64.ofNat o) = some r.mapping ↔
      r.base.toNat + o < 0x1_0000_0000_0000_0000)
  /-- The host address of a byte lies as far into the region's memory as the byte into the
  region. -/
  hostAddr : ∀ r ∈ m.regions.values, ∀ o < r.size,
    (r.mapping.hostAddr (r.base + UInt64.ofNat o)).toNat = r.backing.base.toNat + o
  /-- No identity block runs past the end. -/
  identity : ∀ r ∈ m.regions.values, r.backing.isIdentity = true →
    r.base.toNat + r.size ≤ 0x1_0000_0000_0000_0000
  /-- One region serves each piece of an access, but translation leads to that region only where
  the addresses of the piece have not wrapped around. -/
  served : ∀ a access denied p, m.piece a access denied = .ok p →
    ∃ r ∈ m.regions.values, p.1.1 = r.mapping.hostAddr a ∧ ∀ i < p.1.2,
      p.1.1.toNat + i < r.backing.base.toNat + r.size ∧
        (m.translate (a + UInt64.ofNat i) = some r.mapping ↔
          a.toNat + i < 0x1_0000_0000_0000_0000)

variable {m : MemoryMap} {a : GuestAddr} {r : Region} {access : Access}
  {denied : GuestAddr → MemoryError}

namespace Regular

/-- The regions are told apart by what translation answers. -/
theorem translate_eq_mapping_iff (w : m.Regular) (mem : r ∈ m.regions.values) :
    m.translate a = some r.mapping ↔ r.Contains a := by
  rw [translate_eq_some_iff]
  constructor
  · rintro ⟨r', found, same⟩
    obtain ⟨mem', inside⟩ := w.find_iff_contains.1 found
    have base : r'.base = r.base := congrArg Mapping.guestBase same
    have there := w.mem_values.1 mem'
    rw [base, w.mem_values.1 mem] at there
    cases there
    exact inside
  · exact fun inside => ⟨r, w.find_iff_contains.2 ⟨mem, inside⟩, rfl⟩

/-- A byte of a region whose number is no address has none. -/
theorem translate_add_iff (w : m.Regular) (mem : r ∈ m.regions.values) {o : Nat}
    (inside : o < r.size) : m.translate (r.base + UInt64.ofNat o) = some r.mapping ↔
      r.base.toNat + o < 0x1_0000_0000_0000_0000 := by
  have fits := (w.regular (w.mem_values.1 mem)).fits
  have := r.base.toNat_lt
  rw [w.translate_eq_mapping_iff mem, Region.Contains, GuestAddr.toNat_add_ofNat]
  omega

theorem toNat_hostAddr_add (w : m.Regular) (mem : r ∈ m.regions.values) {o : Nat}
    (inside : o < r.size) :
    (r.mapping.hostAddr (r.base + UInt64.ofNat o)).toNat = r.backing.base.toNat + o := by
  have regular := w.regular (w.mem_values.1 mem)
  have fits := regular.fits
  have host := regular.host
  have back : (r.base.word + UInt64.ofNat o) - r.base.word = UInt64.ofNat o := by
    rw [UInt64.add_comm, UInt64.add_sub_cancel]
  show (r.backing.base + ((r.base.word + UInt64.ofNat o) - r.base.word)).toNat = _
  rw [back, HostAddr.toNat_add, UInt64.toNat_ofNat']
  omega

end Regular

namespace Regular

theorem served_piece (w : m.Regular) {p : { p : HostAddr × Nat // 0 < p.2 }}
    (h : m.piece a access denied = .ok p) :
    ∃ r ∈ m.regions.values, p.1.1 = r.mapping.hostAddr a ∧ ∀ i < p.1.2,
      p.1.1.toNat + i < r.backing.base.toNat + r.size ∧
        (m.translate (a + UInt64.ofNat i) = some r.mapping ↔
          a.toNat + i < 0x1_0000_0000_0000_0000) := by
  obtain ⟨r, found, -, eq⟩ := exists_of_piece h
  obtain ⟨mem, lo, hi⟩ := w.find_iff_contains.1 found
  have host := w.toNat_hostAddr found
  obtain ⟨⟨h, avail⟩, pos⟩ := p
  obtain ⟨rfl, rfl⟩ := Prod.mk.inj eq
  refine ⟨r, mem, rfl, fun i inside => ?_⟩
  dsimp only [Region.offset] at inside host ⊢
  -- The piece starts so far into the region.
  have same : a + UInt64.ofNat i = r.base + UInt64.ofNat (a.toNat - r.base.toNat + i) := by
    apply GuestAddr.ext_toNat
    rw [GuestAddr.toNat_add_ofNat, GuestAddr.toNat_add_ofNat]
    congr 1
    omega
  have reached := w.translate_add_iff mem (o := a.toNat - r.base.toNat + i) (by omega)
  rw [same, reached]
  refine ⟨?_, ?_⟩ <;> omega

theorem addressed (w : m.Regular)
    (inPlace : ∀ k r, m.regions.get? k = some r → r.InPlace) : m.Addressed where
  reached _ mem _ inside := w.translate_add_iff mem inside
  hostAddr _ mem _ inside := w.toNat_hostAddr_add mem inside
  identity r mem identity := by
    have found := w.mem_values.1 mem
    rw [← inPlace _ r found identity]
    exact (w.regular found).host
  served _ _ _ _ h := w.served_piece h

end Regular

/-- Of every map that calls lead to, addresses reach the bytes whose numbers are addresses, and
accesses get all others that follow them in one region. -/
theorem addressed_after (calls : List Call) : (after calls).Addressed :=
  (regular_after calls).addressed fun _ _ found => inPlace_after calls found

/-- Two pages from the last page on. -/
def pastTheEnd : List Call := [.map ⟨0xfffffffffffff000⟩ 0x2000 .readWrite]

/-- The second page has no address, but an access of four bytes at the end of the first is one
piece. -/
theorem addressed_after_pastTheEnd :
    ∃ r ∈ (after pastTheEnd).regions.values, 0x1000 < r.size ∧
      (after pastTheEnd).translate (r.base + UInt64.ofNat 0x1000) ≠ some r.mapping ∧
      ∃ p, (after pastTheEnd).piece ⟨0xfffffffffffffffe⟩ .read .notReadable = .ok p ∧
        4 ≤ p.1.2 := by
  obtain ⟨r, regions, base, size⟩ : ∃ r, (after pastTheEnd).regions.values = [r] ∧
      r.base = ⟨0xfffffffffffff000⟩ ∧ r.size = 0x2000 := ⟨_, rfl, rfl, rfl⟩
  have mem : r ∈ (after pastTheEnd).regions.values := by
    rw [regions]
    exact List.mem_singleton_self r
  have reached := (addressed_after pastTheEnd).reached r mem 0x1000 (by omega)
  have past : 0x1_0000_0000_0000_0000 ≤ r.base.toNat + 0x1000 := by
    rw [base]
    decide
  refine ⟨r, mem, by omega, fun there => ?_, _, rfl, by decide⟩
  have := reached.1 there
  omega

end GuestExec.MemoryMap
