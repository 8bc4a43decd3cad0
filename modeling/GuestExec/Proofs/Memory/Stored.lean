import GuestExec.Proofs.Memory.Contents

/-!
# What a write leaves behind

`Shows m a bytes` says what guest memory has from `a` on, and `Stored m a data m'`
all there is to say about a write: `m'` holds `data` from `a` on and is `m`
everywhere else. A write on the host that goes through is one of these, and two
that follow each other in memory make up one.
-/

namespace GuestExec

/-- Two ranges that follow each other have no address in common. -/
theorem GuestAddr.not_spans_of_lt {a : GuestAddr} {i skip len : Nat} (before : i < skip)
    (short : skip + len ≤ 0x1_0000_0000_0000_0000) :
    ¬(a + UInt64.ofNat skip).Spans len (a + UInt64.ofNat i).toNat := by
  rintro ⟨j, inside, eq⟩
  rw [toNat_add_ofNat, toNat_add_ofNat, toNat_add_ofNat] at eq
  omega

@[simp] theorem ByteStore.length_read (s : ByteStore) (offset count : Nat) :
    (s.read offset count).length = count := by
  rw [read, List.length_map, List.length_range']

namespace MemoryMap

variable {m m' m'' : MemoryMap} {a : GuestAddr} {r : Region} {P : Nat → Prop}
  {data : List UInt8}

/-- The byte at `a`, if some region holds it. -/
def byte? (m : MemoryMap) (a : GuestAddr) : Option UInt8 :=
  (m.find a).map fun r => r.backing.bytes.get (r.offset a)

theorem byte?_of_find (found : m.find a = some r) :
    m.byte? a = some (r.backing.bytes.get (r.offset a)) := by
  rw [byte?, found, Option.map_some]

/-- Guest memory has `bytes` from `a` on, at addresses modulo 2^64. -/
def Shows (m : MemoryMap) (a : GuestAddr) (bytes : List UInt8) : Prop :=
  ∀ i (inside : i < bytes.length), m.byte? (a + UInt64.ofNat i) = some bytes[i]

theorem Shows.append {first rest : List UInt8} (h : m.Shows a first)
    (h' : m.Shows (a + UInt64.ofNat first.length) rest) : m.Shows a (first ++ rest) := by
  intro i inside
  rw [List.length_append] at inside
  by_cases head : i < first.length
  · rw [h i head, List.getElem_append_left head]
  · have later := h' (i - first.length) (by omega)
    rw [GuestAddr.add_ofNat_add, Nat.add_sub_cancel' (Nat.le_of_not_lt head)] at later
    rw [later, List.getElem_append_right (Nat.le_of_not_lt head)]

/-- Guest memory has one byte at each address. -/
theorem Shows.eq {bytes bytes' : List UInt8} (h : m.Shows a bytes) (h' : m.Shows a bytes')
    (length : bytes.length = bytes'.length) : bytes = bytes' :=
  List.ext_getElem length fun i inside inside' =>
    Option.some.inj ((h i inside).symm.trans (h' i inside'))

theorem ModifiesOnly.byte?_eq (h : ModifiesOnly P m m') (w : m.Regular) (other : ¬P a.toNat) :
    m'.byte? a = m.byte? a := by
  cases found : m.find a with
  | none => rw [byte?, byte?, found, h.toSameFrames.find_eq_none w found]
  | some r =>
    obtain ⟨r', found', frame⟩ := h.toSameFrames.find_frame w found
    obtain ⟨there, held⟩ := w.find_iff.1 found
    have there' := ((h.toSameFrames.regular w).find_iff.1 found').1
    have base : r'.base = r.base := congrArg Region.Frame.base frame
    have offset : r'.offset a = r.offset a := by rw [Region.offset, Region.offset, base]
    rw [byte?_of_find found, byte?_of_find found', offset]
    rcases h.bytes there (base ▸ there') (r.offset a) with same | ⟨-, here⟩
    · rw [same]
    · refine absurd ?_ other
      rwa [Region.offset, Nat.add_sub_cancel' (Region.holds_iff.1 held).1] at here

/-- `m'` is `m` with `data` from `a` on, at addresses modulo 2^64, and no other byte changed. -/
structure Stored (m : MemoryMap) (a : GuestAddr) (data : List UInt8) (m' : MemoryMap) : Prop
    extends ModifiesOnly (a.Spans data.length) m m' where
  holds : ∀ i (inside : i < data.length), m'.byte? (a + UInt64.ofNat i) = some data[i]

/-- The bytes of a region from `a` on are found at the addresses that follow `a`. -/
theorem Regular.find_add (w : m.Regular) (found : m.find a = some r) {len i : Nat}
    (short : a.toNat + len ≤ 0x1_0000_0000_0000_0000) (room : r.offset a + len ≤ r.size)
    (inside : i < len) : m.find (a + UInt64.ofNat i) = some r := by
  obtain ⟨atBase, held⟩ := w.find_iff.1 found
  have lo := (Region.holds_iff.1 held).1
  refine w.find_iff.2 ⟨atBase, Region.holds_iff.2 ?_⟩
  rw [Region.stop, GuestAddr.toNat_add_of_lt short inside]
  rw [Region.offset] at room
  omega

theorem Regular.offset_add (w : m.Regular) (found : m.find a = some r) {len i : Nat}
    (short : a.toNat + len ≤ 0x1_0000_0000_0000_0000) (inside : i < len) :
    r.offset (a + UInt64.ofNat i) = r.offset a + i := by
  have lo := (Region.holds_iff.1 (w.find_iff.1 found).2).1
  rw [Region.offset, Region.offset, GuestAddr.toNat_add_of_lt short inside]
  omega

/-- The bytes of a region from `a` on. -/
theorem Regular.shows_bytes (w : m.Regular) (found : m.find a = some r) {n : Nat}
    (short : a.toNat + n ≤ 0x1_0000_0000_0000_0000) (room : r.offset a + n ≤ r.size) :
    m.Shows a (r.backing.bytes.read (r.offset a) n) := by
  intro i inside
  rw [ByteStore.length_read] at inside
  rw [byte?_of_find (w.find_add found short room inside), w.offset_add found short inside]
  simp only [ByteStore.read, List.getElem_map, List.getElem_range', Nat.one_mul]

/-- What the host reads in the region of `a` is what the guest has there. -/
theorem Regular.shows_readHost (w : m.Regular) (found : m.find a = some r) {n : Nat}
    {bytes : List UInt8} (short : a.toNat + n ≤ 0x1_0000_0000_0000_0000)
    (room : r.offset a + n ≤ r.size) (got : m.readHost (r.mapping.hostAddr a) n = .ok bytes) :
    bytes.length = n ∧ m.Shows a bytes := by
  rw [w.readHost_hostAddr found room] at got
  split at got
  · cases got
  · cases got
    exact ⟨ByteStore.length_read _ _ n, w.shows_bytes found short room⟩

/-- A write on the host in the region of `a` that goes through. -/
theorem Regular.stored_writeHost (w : m.Regular) (found : m.find a = some r)
    (writable : r.perms.write = true) (short : a.toNat + data.length ≤ 0x1_0000_0000_0000_0000)
    (written : m.writeHost (r.mapping.hostAddr a) data = .ok m') : Stored m a data m' := by
  have modified := w.modifiesOnly_writeHost found writable short written
  refine ⟨modified, fun i inside => ?_⟩
  have atBase := (w.find_iff.1 found).1
  have host := w.toNat_hostAddr found
  obtain ⟨x, there, admits, rfl⟩ := writeHost_eq_ok_iff.1 written
  rw [w.findHost_hostAddr found] at there
  cases there
  have room : r.offset a + data.length ≤ r.size := by
    have fits := admits.fits
    rw [Region.size]
    omega
  have found_i := w.find_add found short room inside
  have frame : (r.written (r.mapping.hostAddr a) data).frame = r.frame := rfl
  have found' := find_setRegion (a := a + UInt64.ofNat i) w atBase frame
  rw [if_pos (w.find_iff.1 found_i).2] at found'
  have start : (r.mapping.hostAddr a).toNat - r.backing.base.toNat = r.offset a := by omega
  have offset : (r.written (r.mapping.hostAddr a) data).offset (a + UInt64.ofNat i) =
      r.offset a + i := w.offset_add found short inside
  rw [byte?_of_find found', offset, Region.written, start, ByteStore.get_write,
    if_pos ⟨Nat.le_add_right _ _, by omega⟩, Nat.add_sub_cancel_left, List.getD_eq_getElem?_getD,
    List.getElem?_eq_getElem inside, Option.getD_some]

/-- What was written on the host within a page is read there. -/
theorem Regular.read_of_writeHost (w : m.Regular) (found : m.find a = some r)
    (readable : r.perms.allows .read = true) (free : m.isGuarded a = false)
    (pos : 0 < data.length) (fits : a.toNat % pageSize + data.length ≤ pageSize)
    (written : m.writeHost (r.mapping.hostAddr a) data = .ok m') :
    m'.read a data.length = .ok data := by
  have same := w.sameGuards_writeHost written
  have host := w.toNat_hostAddr found
  obtain ⟨x, there, -, rfl⟩ := writeHost_eq_ok_iff.1 written
  rw [w.findHost_hostAddr found] at there
  cases there
  obtain ⟨atBase, held⟩ := w.find_iff.1 found
  have frame : (r.written (r.mapping.hostAddr a) data).frame = r.frame := rfl
  have found' := find_setRegion (a := a) w atBase frame
  rw [if_pos held] at found'
  have start : (r.mapping.hostAddr a).toNat - r.backing.base.toNat = r.offset a := by omega
  rw [(same.toSameFrames.regular w).read_eq found' readable ((same.guards a).trans free) pos
    fits, Region.written, start]
  exact congrArg Except.ok (ByteStore.read_write _ _ _)

/-- Two writes, the second where the first one ends. -/
theorem Stored.append {rest : List UInt8} (h : Stored m a data m') (w : m.Regular)
    (h' : Stored m' (a + UInt64.ofNat data.length) rest m'')
    (short : data.length + rest.length ≤ 0x1_0000_0000_0000_0000) :
    Stored m a (data ++ rest) m'' := by
  refine ⟨?_, ?_⟩
  · rw [List.length_append]
    refine (h.toModifiesOnly.mono fun n => ?_).trans (h'.toModifiesOnly.mono fun n => ?_)
    · exact fun span => span.mono (Nat.le_add_right _ _)
    · exact fun span => span.of_add
  · have kept : m''.Shows a data := fun i head => by
      rw [h'.toModifiesOnly.byte?_eq (h.toSameFrames.regular w)
        (GuestAddr.not_spans_of_lt head short), h.holds i head]
    exact kept.append h'.holds

end MemoryMap

end GuestExec
