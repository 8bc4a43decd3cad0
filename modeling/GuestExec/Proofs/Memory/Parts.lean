import GuestExec.Proofs.Memory.Accesses

/-!
# Writes in parts

A write on the host may be made in two parts: if both go through, so does the whole,
and the map is the same. From this follows that a guest's write may be cut anywhere
within a region, not only where the region ends.
-/

namespace GuestExec

theorem ByteStore.write_append (s : ByteStore) (offset : Nat) (first rest : List UInt8) :
    s.write offset (first ++ rest) = (s.write offset first).write (offset + first.length) rest := by
  induction first generalizing s offset with
  | nil => rfl
  | cons b first ih =>
    rw [List.cons_append, write, write, ih, List.length_cons, Nat.add_right_comm, Nat.add_assoc]

/-- A range without guards that is followed by another one. -/
theorem Backing.isGuarded_add {b : Backing} {offset k n : Nat} (pos : 0 < k) (pos' : 0 < n)
    (free : b.isGuarded offset k = false) (free' : b.isGuarded (offset + k) n = false) :
    b.isGuarded offset (k + n) = false := by
  rw [← Bool.not_eq_true] at free free' ⊢
  rw [isGuarded_iff (by omega)]
  rintro ⟨i, inside, mem⟩
  by_cases head : i < k
  · exact free ((isGuarded_iff pos).2 ⟨i, head, mem⟩)
  · refine free' ((isGuarded_iff pos').2 ⟨i - k, by omega, ?_⟩)
    rwa [Nat.add_assoc, Nat.add_sub_cancel' (Nat.le_of_not_lt head)]

/-- Writes of a region that follow each other make up one. -/
theorem Region.written_append (r : Region) {host host' : HostAddr} (first rest : List UInt8)
    (lo : r.backing.base.toNat ≤ host.toNat) (next : host'.toNat = host.toNat + first.length) :
    (r.written host first).written host' rest = r.written host (first ++ rest) := by
  have start : host'.toNat - r.backing.base.toNat =
      host.toNat - r.backing.base.toNat + first.length := by omega
  simp only [written, start, ByteStore.write_append]

namespace MemoryMap

variable {m m₁ m₂ : MemoryMap} {a : GuestAddr} {r r' : Region} {access : Access} {len n : Nat}
  {data : List UInt8}

/-! ## Two writes on the host -/

/-- Of two states of a region the later one stays. -/
theorem setRegion_setRegion (m : MemoryMap) (same : r'.base = r.base) :
    (m.setRegion r).setRegion r' = m.setRegion r' := by
  have regions : ((m.setRegion r).setRegion r').regions = (m.setRegion r').regions :=
    AddressTable.ext_get? fun key => by
      rw [get?_setRegion, get?_setRegion, get?_setRegion, same]
      split <;> rfl
  simp only [setRegion] at regions ⊢
  rw [regions]

/-- Two writes on the host in one region, the second where the first one ends. -/
theorem Regular.writeHost_append (w : m.Regular) (found : m.find a = some r)
    (writable : r.perms.write = true) (first rest : List UInt8) (pos : 0 < first.length)
    (pos' : 0 < rest.length)
    (short : a.toNat + (first.length + rest.length) ≤ 0x1_0000_0000_0000_0000)
    (room : r.offset a + (first.length + rest.length) ≤ r.size)
    (h : m.writeHost (r.mapping.hostAddr a) first = .ok m₁)
    (h' : m₁.writeHost (r.mapping.hostAddr (a + UInt64.ofNat first.length)) rest = .ok m₂) :
    m.writeHost (r.mapping.hostAddr a) (first ++ rest) = .ok m₂ := by
  have regular := (w.sameGuards_writeHost h).toSameFrames.regular w
  have next := w.find_add found short room (i := first.length) (by omega)
  have offset := w.offset_add found short (i := first.length) (by omega)
  have host := w.toNat_hostAddr found
  have host' := w.toNat_hostAddr next
  have lo : r.backing.base.toNat ≤ (r.mapping.hostAddr a).toNat := by omega
  have follows : (r.mapping.hostAddr (a + UInt64.ofNat first.length)).toNat =
    (r.mapping.hostAddr a).toNat + first.length := by omega
  have one := r.written_append first rest lo follows
  rw [w.writeHost_hostAddr found writable (by omega)] at h
  split at h
  · cases h
  · rename_i free
    cases h
    have frame : (r.written (r.mapping.hostAddr a) first).frame = r.frame := rfl
    have there := find_setRegion (a := a + UInt64.ofNat first.length) w (w.find_iff.1 found).1 frame
    rw [if_pos (w.find_iff.1 next).2] at there
    have inside : (r.written (r.mapping.hostAddr a) first).offset (a + UInt64.ofNat first.length) +
        rest.length ≤ (r.written (r.mapping.hostAddr a) first).size := by
      show r.offset _ + rest.length ≤ r.size
      omega
    have second := regular.writeHost_hostAddr there writable inside
    have mapping : (r.written (r.mapping.hostAddr a) first).mapping = r.mapping := rfl
    have base : (r.written (r.mapping.hostAddr a) (first ++ rest)).base =
      (r.written (r.mapping.hostAddr a) first).base := rfl
    rw [mapping, h', one, setRegion_setRegion m base] at second
    split at second
    · cases second
    · rename_i free'
      have free' : r.backing.isGuarded (r.offset a + first.length) rest.length = false :=
        offset ▸ (Bool.not_eq_true _).mp free'
      have whole := Backing.isGuarded_add pos pos' ((Bool.not_eq_true _).mp free) free'
      rw [w.writeHost_hostAddr found writable (by rwa [List.length_append]), List.length_append,
        whole, second]
      rfl

/-! ## Pieces of a guest's write -/

theorem Regular.begins (w : m.Regular) (found : m.find a = some r)
    (allowed : r.perms.allows access = true) (pos : 0 < len) :
    m.Begins access a len r (min (r.size - r.offset a) len) := by
  have inside := Region.holds_iff.1 (w.find_iff.1 found).2
  rw [Region.stop] at inside
  refine ⟨found, allowed, ?_, Nat.min_le_right _ _, ?_, ?_⟩ <;>
  · rw [Region.offset]
    omega

/-- A write makes its first piece, and then the rest if that went through. -/
theorem Begins.write_eq (h : m.Begins .write a data.length r n) :
    m.write a data =
      match m.writeHost (r.mapping.hostAddr a) (data.take n) with
      | .error e => (.error e, m)
      | .ok m' => m'.write (a + UInt64.ofNat n) (data.drop n) := by
  obtain ⟨found, allowed, pos, le, room, stop⟩ := h
  have length : n = min (r.size - r.offset a) data.length := by omega
  obtain ⟨_, piece⟩ := piece_eq found allowed .notWritable
  have some : data ≠ [] := List.length_pos_iff.1 (by omega)
  cases written : m.writeHost (r.mapping.hostAddr a) (data.take n) <;>
  · rw [MemoryMap.write, if_neg some, piece]
    dsimp only
    rw [← length, written]

/-- Within its first piece an access goes on with the rest of it. -/
theorem Begins.within (h : m.Begins access a len r n) (w : m.Regular) (same : SameFrames m m₁)
    (short : a.toNat + len ≤ 0x1_0000_0000_0000_0000) {k : Nat} (before : k < n) :
    ∃ r₁, m₁.Begins access (a + UInt64.ofNat k) (len - k) r₁ (n - k) ∧ r₁.mapping = r.mapping := by
  obtain ⟨r₁, found, frame⟩ := same.find_frame w (h.find_add w short before)
  have offset := h.offset_add w short before
  have le := h.le
  have room := h.room
  have stop := h.stop
  injection frame with base perms host size
  have offset₁ : r₁.offset (a + UInt64.ofNat k) = r.offset a + k := by
    rw [Region.offset, base]
    exact offset
  have size₁ : r₁.size = r.size := size
  refine ⟨r₁, ⟨found, perms ▸ h.allowed, by omega, by omega, by omega, by omega⟩, ?_⟩
  simp only [Region.mapping, size₁, base, perms, host]

/-- A write that goes through in two parts, the first within a region, goes through as a whole. -/
theorem Regular.write_of_parts (w : m.Regular) (found : m.find a = some r)
    (writable : r.perms.write = true) (pos : 0 < n) (le : n ≤ data.length)
    (room : r.offset a + n ≤ r.size)
    (short : a.toNat + data.length ≤ 0x1_0000_0000_0000_0000)
    (head : m.writeHost (r.mapping.hostAddr a) (data.take n) = .ok m₁)
    (tail : m₁.write (a + UInt64.ofNat n) (data.drop n) = (.ok (), m₂)) :
    m.write a data = (.ok (), m₂) := by
  have begins : m.Begins .write a data.length r (min (r.size - r.offset a) data.length) :=
    w.begins found writable (by omega)
  generalize eq : min (r.size - r.offset a) data.length = p at begins
  rw [begins.write_eq]
  by_cases whole : n = p
  · rw [← whole, head]
    exact tail
  · -- The region goes on after the first part, so the second one begins with a piece of it.
    have frames := (w.sameGuards_writeHost head).toSameFrames
    obtain ⟨r₁, begins₁, mapping⟩ := begins.within w frames short (k := n) (by omega)
    rw [← List.length_drop] at begins₁
    rw [begins₁.write_eq, mapping] at tail
    split at tail
    · cases tail
    · rename_i m₃ written
      have length : (data.take n).length = n := List.length_take_of_le le
      have length' : ((data.drop n).take (p - n)).length = p - n :=
        List.length_take_of_le begins₁.le
      have joined := w.writeHost_append found writable (data.take n) ((data.drop n).take (p - n))
        (by omega) (by omega) (by omega) (by omega) head (by rw [length]; exact written)
      rw [← List.take_add, Nat.add_sub_cancel' (by omega)] at joined
      rw [joined]
      dsimp only
      rwa [GuestAddr.add_ofNat_add, List.drop_drop, Nat.add_sub_cancel' (by omega)] at tail

end MemoryMap

end GuestExec
