import GuestExec.Proofs.Memory.Calls
import GuestExec.Proofs.Memory.Stored

/-!
# Reads and writes of any length

An access goes from one region to the next, and each piece is found by way of the
host's addresses. What it comes to is a matter of bytes all the same: it goes
through exactly when every byte is usable, a read then returns these bytes and a
write changes no others. One that breaks off does so where the first region with
an unusable byte of the range begins, or where the range does.

Both loops are followed once, by induction on their pieces (`readEnds`,
`writeEnds`).
-/

namespace GuestExec.MemoryMap

variable {m m' : MemoryMap} {a : GuestAddr} {r r' : Region} {access : Access}
  {denied : GuestAddr → MemoryError} {e : MemoryError} {len n k : Nat} {data : List UInt8}

/-! ## The pieces of an access -/

/-- An access to the `len` bytes from `a` on begins with `n` bytes of the region `r`. -/
structure Begins (m : MemoryMap) (access : Access) (a : GuestAddr) (len : Nat) (r : Region)
    (n : Nat) : Prop where
  found : m.find a = some r
  allowed : r.perms.allows access = true
  pos : 0 < n
  le : n ≤ len
  room : r.offset a + n ≤ r.size
  /-- The piece ends with the region unless the access does. -/
  stop : n < len → r.offset a + n = r.size

theorem begins_of_piece {host : HostAddr} {avail : Nat} {pos : 0 < avail}
    (h : m.piece a access denied = .ok ⟨(host, avail), pos⟩) (nonempty : 0 < len) :
    ∃ r, m.Begins access a len r (min avail len) ∧ host = r.mapping.hostAddr a := by
  obtain ⟨r, found, allowed, eq⟩ := exists_of_piece h
  obtain ⟨rfl, rfl⟩ := Prod.mk.inj eq
  refine ⟨r, ⟨found, allowed, ?_, Nat.min_le_right _ _, ?_, ?_⟩, rfl⟩ <;> omega

namespace Begins

variable (h : m.Begins access a len r n) (w : m.Regular)
  (short : a.toNat + len ≤ 0x1_0000_0000_0000_0000)

include h w short

theorem find_add {i : Nat} (inside : i < n) : m.find (a + UInt64.ofNat i) = some r :=
  w.find_add h.found (Nat.le_trans (Nat.add_le_add_left h.le _) short) h.room inside

theorem offset_add {i : Nat} (inside : i < n) :
    r.offset (a + UInt64.ofNat i) = r.offset a + i :=
  w.offset_add h.found short (Nat.lt_of_lt_of_le inside h.le)

/-- The piece is guarded when one of its bytes is. -/
theorem isGuarded_iff : r.backing.isGuarded (r.offset a) n = true ↔
    ∃ i < n, m.isGuarded (a + UInt64.ofNat i) = true := by
  rw [Backing.isGuarded_iff h.pos]
  refine exists_congr fun i => and_congr_right fun inside => ?_
  rw [isGuarded_of_find (h.find_add w short inside), h.offset_add w short inside]

/-- The bytes of the piece are usable unless a guard is in the way. -/
theorem usable_of_free (free : r.backing.isGuarded (r.offset a) n = false) {i : Nat}
    (inside : i < n) : m.usable (a + UInt64.ofNat i) access = true := by
  have unguarded : m.isGuarded (a + UInt64.ofNat i) = false := by
    rw [← Bool.not_eq_true]
    intro guarded
    rw [(h.isGuarded_iff w short).2 ⟨i, inside, guarded⟩] at free
    cases free
  rw [usable, allows_of_find (h.find_add w short inside), h.allowed, unguarded]
  rfl

omit w in
theorem short_rest : (a + UInt64.ofNat n).toNat + (len - n) ≤ 0x1_0000_0000_0000_0000 := by
  have le := h.le
  have wrapped := Nat.mod_le (a.toNat + n) 0x1_0000_0000_0000_0000
  rw [GuestAddr.toNat_add_ofNat]
  omega

/-- Where a region ends, no other one has begun already. -/
theorem base_eq (before : n < len) (found' : m.find (a + UInt64.ofNat n) = some r') :
    r'.base = a + UInt64.ofNat n := by
  obtain ⟨atBase, held⟩ := w.find_iff.1 h.found
  obtain ⟨atBase', held'⟩ := w.find_iff.1 found'
  obtain ⟨lo, hi⟩ := Region.holds_iff.1 held
  obtain ⟨lo', hi'⟩ := Region.holds_iff.1 held'
  have stop := h.stop before
  rw [GuestAddr.toNat_add_of_lt short before] at lo' hi'
  rw [Region.offset] at stop
  have least : r.stop ≤ r'.base.toNat := by
    rw [Region.stop] at hi hi' ⊢
    rcases Nat.lt_trichotomy r.base.toNat r'.base.toNat with below | same | above
    · have := w.apart atBase atBase' below
      rwa [Region.stop] at this
    · rw [same, atBase'] at atBase
      cases atBase
      omega
    · have := w.apart atBase' atBase above
      rw [Region.stop] at this
      omega
  refine GuestAddr.ext_toNat ?_
  rw [GuestAddr.toNat_add_of_lt short before]
  rw [Region.stop] at least
  omega

end Begins

/-! ## Where an access breaks off -/

/-- What keeps an access from going on at `a`, with `len` bytes left, and the error that says so:
no region, a region that does not allow it, or a guard in what the range has of the region. -/
inductive Obstacle (m : MemoryMap) (access : Access) (denied : GuestAddr → MemoryError)
    (a : GuestAddr) (len : Nat) : MemoryError → Prop where
  | unmapped : m.translate a = none → Obstacle m access denied a len (.invalidAddress a)
  | refused {mapping : Mapping} : m.translate a = some mapping →
    mapping.perms.allows access = false → Obstacle m access denied a len (denied a)
  | guarded {mapping : Mapping} {i : Nat} : m.translate a = some mapping →
    mapping.perms.allows access = true → i < len →
    m.translate (a + UInt64.ofNat i) = some mapping → m.isGuarded (a + UInt64.ofNat i) = true →
    Obstacle m access denied a len (.invalidHostAddress (mapping.hostAddr a))

/-- An access to the `len` bytes from `a` on ends with the error `e` before byte `k`. -/
structure Breaks (m : MemoryMap) (access : Access) (denied : GuestAddr → MemoryError)
    (a : GuestAddr) (len k : Nat) (e : MemoryError) : Prop where
  inside : k < len
  /-- The bytes before could be used. -/
  usable : ∀ i < k, m.usable (a + UInt64.ofNat i) access = true
  /-- The region of byte `k`, if there is one, begins with it, or else the range does. -/
  starts : 0 < k → ∀ mapping, m.translate (a + UInt64.ofNat k) = some mapping →
    mapping.guestBase = a + UInt64.ofNat k
  obstacle : m.Obstacle access denied (a + UInt64.ofNat k) (len - k) e

namespace Obstacle

/-- One of the bytes left cannot be used. -/
theorem exists_not_usable (h : m.Obstacle access denied a len e) (pos : 0 < len) :
    ∃ i < len, m.usable (a + UInt64.ofNat i) access = false := by
  cases h with
  | unmapped none =>
    refine ⟨0, pos, ?_⟩
    rw [GuestAddr.add_zero, MemoryMap.usable, allows, none]
    rfl
  | refused translated refused =>
    refine ⟨0, pos, ?_⟩
    rw [GuestAddr.add_zero, MemoryMap.usable, allows_of_translate translated, refused]
    rfl
  | @guarded mapping i _ _ inside _ guarded =>
    refine ⟨i, inside, ?_⟩
    rw [MemoryMap.usable, guarded, Bool.not_true, Bool.and_false]

theorem of_sameGuards (same : SameGuards m m') (w : m.Regular)
    (h : m'.Obstacle access denied a len e) : m.Obstacle access denied a len e := by
  have translate := same.toSameFrames.translate w
  cases h with
  | unmapped none => exact .unmapped (translate a ▸ none)
  | refused translated refused => exact .refused (translate a ▸ translated) refused
  | guarded translated allowed inside there guarded =>
    exact .guarded (translate a ▸ translated) allowed inside (translate _ ▸ there)
      (same.guards _ ▸ guarded)

end Obstacle

/-- What no region serves, or none that allows the access. -/
theorem obstacle_of_piece (h : m.piece a access denied = .error e) (len : Nat) :
    m.Obstacle access denied a len e := by
  unfold piece at h
  split at h
  · rename_i none
    cases h
    exact .unmapped none
  · rename_i mapping translated
    split at h
    · cases h
    · rename_i refused
      cases h
      exact .refused translated ((Bool.not_eq_true _).mp refused)

/-- A guard in a piece. -/
theorem Begins.obstacle (h : m.Begins access a len r n) (w : m.Regular)
    (short : a.toNat + len ≤ 0x1_0000_0000_0000_0000)
    (guarded : r.backing.isGuarded (r.offset a) n = true) :
    m.Obstacle access denied a len (.invalidHostAddress (r.mapping.hostAddr a)) := by
  obtain ⟨i, inside, there⟩ := (h.isGuarded_iff w short).1 guarded
  have here : m.translate a = some r.mapping := translate_eq_some_iff.2 ⟨r, h.found, rfl⟩
  have at_i : m.translate (a + UInt64.ofNat i) = some r.mapping :=
    translate_eq_some_iff.2 ⟨r, h.find_add w short inside, rfl⟩
  exact .guarded here h.allowed (Nat.lt_of_lt_of_le inside h.le) at_i there

namespace Breaks

theorem here (h : m.Obstacle access denied a len e) (pos : 0 < len) :
    m.Breaks access denied a len 0 e := by
  constructor
  · exact pos
  · intro i before
    exact absurd before (Nat.not_lt_zero i)
  · intro later
    exact absurd later (Nat.lt_irrefl 0)
  · rwa [GuestAddr.add_zero, Nat.sub_zero]

/-- A piece without guards, and an access after it that breaks off. -/
theorem later (b : m.Begins access a len r n) (w : m.Regular)
    (short : a.toNat + len ≤ 0x1_0000_0000_0000_0000)
    (free : r.backing.isGuarded (r.offset a) n = false)
    (h : m.Breaks access denied (a + UInt64.ofNat n) (len - n) k e) :
    m.Breaks access denied a len (n + k) e := by
  have inside := h.inside
  constructor
  · omega
  · intro i le
    by_cases head : i < n
    · exact b.usable_of_free w short free head
    · have tail := h.usable (i - n) (by omega)
      rwa [GuestAddr.add_ofNat_add, Nat.add_sub_cancel' (Nat.le_of_not_lt head)] at tail
  · intro _ mapping translated
    rcases Nat.eq_zero_or_pos k with rfl | pos
    · obtain ⟨r', found', rfl⟩ := translate_eq_some_iff.1 translated
      exact b.base_eq w short (by omega) found'
    · rw [← GuestAddr.add_ofNat_add] at translated ⊢
      exact h.starts pos mapping translated
  · rw [← GuestAddr.add_ofNat_add, Nat.sub_add_eq]
    exact h.obstacle

/-- Not every byte of the range can be used. -/
theorem not_usable (h : m.Breaks access denied a len k e) :
    ¬∀ i < len, m.usable (a + UInt64.ofNat i) access = true := by
  intro all
  have inside := h.inside
  obtain ⟨i, before, not⟩ := h.obstacle.exists_not_usable (by omega)
  rw [GuestAddr.add_ofNat_add, all (k + i) (by omega)] at not
  cases not

theorem of_sameGuards (same : SameGuards m m') (w : m.Regular)
    (h : m'.Breaks access denied a len k e) : m.Breaks access denied a len k e where
  inside := h.inside
  usable i before := (same.usable w).symm.trans (h.usable i before)
  starts pos mapping translated :=
    h.starts pos mapping ((same.toSameFrames.translate w _).trans translated)
  obstacle := h.obstacle.of_sameGuards same w

end Breaks

/-! ## Reads -/

/-- The ways a read can end. -/
inductive ReadEnds (m : MemoryMap) (a : GuestAddr) (len : Nat) :
    Except MemoryError (List UInt8) → Prop where
  | done {bytes : List UInt8} : (∀ i < len, m.usable (a + UInt64.ofNat i) .read = true) →
    bytes.length = len →
    (∀ i (inside : i < bytes.length), m.byte? (a + UInt64.ofNat i) = some bytes[i]) →
    ReadEnds m a len (.ok bytes)
  | broken {k : Nat} {e : MemoryError} : m.Breaks .read .notReadable a len k e →
    ReadEnds m a len (.error e)

/-- A piece without guards, and a read of what follows it. -/
theorem ReadEnds.append (b : m.Begins .read a len r n) (w : m.Regular)
    (short : a.toNat + len ≤ 0x1_0000_0000_0000_0000)
    (free : r.backing.isGuarded (r.offset a) n = false) {more : List UInt8}
    (rest : m.ReadEnds (a + UInt64.ofNat n) (len - n) (.ok more)) :
    m.ReadEnds a len (.ok (r.backing.bytes.read (r.offset a) n ++ more)) := by
  obtain ⟨usable, length, bytes⟩ | - := rest
  have le := b.le
  have head := ByteStore.length_read r.backing.bytes (r.offset a) n
  have shown : m.Shows a (r.backing.bytes.read (r.offset a) n) :=
    w.shows_bytes b.found (by omega) b.room
  refine .done (fun i inside => ?_) (by rw [List.length_append]; omega)
    (shown.append (by rw [head]; exact bytes))
  by_cases first : i < n
  · exact b.usable_of_free w short free first
  · have tail := usable (i - n) (by omega)
    rwa [GuestAddr.add_ofNat_add, Nat.add_sub_cancel' (Nat.le_of_not_lt first)] at tail

/-- What a read comes to, by induction on its pieces. -/
theorem Regular.readEnds (w : m.Regular) (a : GuestAddr) (len : Nat)
    (short : a.toNat + len ≤ 0x1_0000_0000_0000_0000) : m.ReadEnds a len (m.read a len) := by
  fun_induction m.read a len with
  | case1 a =>
    refine .done (fun i inside => absurd inside (Nat.not_lt_zero i)) rfl fun i inside => ?_
    exact absurd inside (Nat.not_lt_zero i)
  | case2 a len nonempty e refused =>
    exact .broken (.here (obstacle_of_piece refused len) (Nat.pos_of_ne_zero nonempty))
  | case3 a len nonempty host avail _ piece n e failed =>
    obtain ⟨r, b, rfl⟩ := begins_of_piece piece (Nat.pos_of_ne_zero nonempty)
    rw [w.readHost_hostAddr b.found b.room] at failed
    split at failed
    · rename_i guarded
      cases failed
      exact .broken (.here (b.obstacle w short guarded) (Nat.pos_of_ne_zero nonempty))
    · cases failed
  | case4 a len nonempty host avail _ piece n bytes got e failed ih =>
    obtain ⟨r, b, rfl⟩ := begins_of_piece piece (Nat.pos_of_ne_zero nonempty)
    have rest := ih (b.short_rest short)
    rw [w.readHost_hostAddr b.found b.room] at got
    split at got
    · cases got
    · rename_i free
      rw [failed] at rest
      obtain - | broken := rest
      exact .broken (broken.later b w short ((Bool.not_eq_true _).mp free))
  | case5 a len nonempty host avail _ piece n bytes got more rest ih =>
    obtain ⟨r, b, rfl⟩ := begins_of_piece piece (Nat.pos_of_ne_zero nonempty)
    have ends := ih (b.short_rest short)
    rw [w.readHost_hostAddr b.found b.room] at got
    split at got
    · cases got
    · rename_i free
      cases got
      rw [rest] at ends
      exact ends.append b w short ((Bool.not_eq_true _).mp free)

/-! ## Writes -/

/-- The ways a write can end, with the map that it leaves. -/
inductive WriteEnds (m : MemoryMap) (a : GuestAddr) (data : List UInt8) :
    Except MemoryError Unit × MemoryMap → Prop where
  | done {m' : MemoryMap} :
    (∀ i < data.length, m.usable (a + UInt64.ofNat i) .write = true) →
    Stored m a data m' → WriteEnds m a data (.ok (), m')
  | broken {m' : MemoryMap} {k : Nat} {e : MemoryError} :
    m.Breaks .write .notWritable a data.length k e →
    Stored m a (data.take k) m' → WriteEnds m a data (.error e, m')

/-- Nothing written. -/
theorem Stored.refl (m : MemoryMap) (a : GuestAddr) : Stored m a [] m :=
  ⟨.refl _ m, fun i inside => absurd inside (Nat.not_lt_zero i)⟩

theorem WriteEnds.here (h : m.Obstacle .write .notWritable a data.length e)
    (nonempty : data ≠ []) : m.WriteEnds a data (.error e, m) :=
  .broken (.here h (List.length_pos_iff.2 nonempty)) (.refl m a)

/-- A piece that was written, and a write of what follows it. -/
theorem WriteEnds.append {result : Except MemoryError Unit × MemoryMap}
    (b : m.Begins .write a data.length r n) (w : m.Regular)
    (short : a.toNat + data.length ≤ 0x1_0000_0000_0000_0000)
    (free : r.backing.isGuarded (r.offset a) n = false)
    (stored : Stored m a (data.take n) m') (same : SameGuards m m')
    (rest : m'.WriteEnds (a + UInt64.ofNat n) (data.drop n) result) :
    m.WriteEnds a data result := by
  have le := b.le
  have head : (data.take n).length = n := by
    rw [List.length_take]
    omega
  have tail : (data.drop (data.take n).length).length = data.length - n := by
    rw [head, List.length_drop]
  rw [← head] at rest
  cases rest with
  | done usable stored' =>
    refine .done (fun i inside => ?_) ?_
    · by_cases first : i < n
      · exact b.usable_of_free w short free first
      · have later := usable (i - n) (by omega)
        rwa [same.usable w, head, GuestAddr.add_ofNat_add,
          Nat.add_sub_cancel' (Nat.le_of_not_lt first)] at later
    · have all := stored.append w stored' (by omega)
      rwa [head, List.take_append_drop] at all
  | @broken m'' k e breaks stored' =>
    have inside := breaks.inside
    refine .broken (k := n + k) ?_ ?_
    · rw [head, List.length_drop] at breaks
      exact (breaks.of_sameGuards same w).later b w short free
    · have less := List.length_take_le k (data.drop (data.take n).length)
      have all := stored.append w stored' (by omega)
      rwa [head, ← List.take_add] at all

/-- What a write comes to, by induction on its pieces. -/
theorem Regular.writeEnds (w : m.Regular) (a : GuestAddr) (data : List UInt8)
    (short : a.toNat + data.length ≤ 0x1_0000_0000_0000_0000) :
    m.WriteEnds a data (m.write a data) := by
  fun_induction m.write a data with
  | case1 m a =>
    refine .done (fun i inside => ?_) (.refl m a)
    exact absurd inside (Nat.not_lt_zero i)
  | case2 m a data nonempty e refused => exact .here (obstacle_of_piece refused _) nonempty
  | case3 m a data nonempty host avail _ piece n e failed =>
    obtain ⟨r, b, rfl⟩ := begins_of_piece piece (List.length_pos_iff.2 nonempty)
    have head : (data.take n).length = n := by
      rw [List.length_take]
      omega
    rw [w.writeHost_hostAddr b.found b.allowed (by rw [head]; exact b.room), head] at failed
    split at failed
    · rename_i guarded
      cases failed
      exact .here (b.obstacle w short guarded) nonempty
    · cases failed
  | case4 m a data nonempty host avail _ piece n m' written ih =>
    obtain ⟨r, b, rfl⟩ := begins_of_piece piece (List.length_pos_iff.2 nonempty)
    have head : (data.take n).length = n := by
      rw [List.length_take]
      omega
    have same := w.sameGuards_writeHost written
    have rest := ih (same.toSameFrames.regular w) (by
      rw [List.length_drop]
      exact b.short_rest short)
    have le := b.le
    have stored := w.stored_writeHost b.found b.allowed (by omega) written
    rw [w.writeHost_hostAddr b.found b.allowed (by rw [head]; exact b.room), head] at written
    split at written
    · cases written
    · rename_i free
      exact rest.append b w short ((Bool.not_eq_true _).mp free) stored same

/-! ## Every map that calls lead to -/

/-- What reads and writes of the `len` bytes from `a` on come to, byte by byte. -/
structure Exact (m : MemoryMap) (a : GuestAddr) (len : Nat) : Prop where
  /-- A read goes through exactly when every byte lies in a region that allows reading, on a page
  without a guard. -/
  reads : (∃ bytes, m.read a len = .ok bytes) ↔
    ∀ i < len, m.usable (a + UInt64.ofNat i) .read = true
  /-- It returns the bytes of the memory behind these addresses, in order. -/
  bytes : ∀ bytes, m.read a len = .ok bytes → bytes.length = len ∧
    ∀ i (inside : i < bytes.length), m.byte? (a + UInt64.ofNat i) = some bytes[i]
  refuses : ∀ e, m.read a len = .error e → ∃ k, m.Breaks .read .notReadable a len k e
  /-- A write goes through exactly when every byte lies in a region that allows writing, on a page
  without a guard. -/
  writes : ∀ data : List UInt8, data.length = len →
    ((m.write a data).1 = .ok () ↔ ∀ i < len, m.usable (a + UInt64.ofNat i) .write = true)
  /-- It then leaves the data at these addresses and every other byte as it was. -/
  stored : ∀ data : List UInt8, data.length = len → (m.write a data).1 = .ok () →
    Stored m a data (m.write a data).2
  /-- One that fails has written the bytes before those where it breaks off. -/
  torn : ∀ data : List UInt8, data.length = len → ∀ e, (m.write a data).1 = .error e →
    ∃ k, m.Breaks .write .notWritable a len k e ∧ Stored m a (data.take k) (m.write a data).2
  /-- No write changes a guard. -/
  guards : ∀ data : List UInt8, SameGuards m (m.write a data).2

namespace Regular

theorem exact_read (w : m.Regular) (short : a.toNat + len ≤ 0x1_0000_0000_0000_0000) :
    ((∃ bytes, m.read a len = .ok bytes) ↔
      ∀ i < len, m.usable (a + UInt64.ofNat i) .read = true) ∧
    (∀ bytes, m.read a len = .ok bytes → bytes.length = len ∧
      ∀ i (inside : i < bytes.length), m.byte? (a + UInt64.ofNat i) = some bytes[i]) ∧
    ∀ e, m.read a len = .error e → ∃ k, m.Breaks .read .notReadable a len k e := by
  have ends := w.readEnds a len short
  generalize m.read a len = result at ends
  cases ends with
  | @done bytes usable length there =>
    refine ⟨⟨fun _ => usable, fun _ => ⟨bytes, rfl⟩⟩, fun bytes' same => ?_, fun e failed => ?_⟩
    · cases same
      exact ⟨length, there⟩
    · cases failed
  | @broken k e breaks =>
    refine ⟨⟨fun ok => ?_, fun usable => absurd usable breaks.not_usable⟩, fun bytes ok => ?_,
      fun e' same => ?_⟩
    · obtain ⟨bytes, ok⟩ := ok
      cases ok
    · cases ok
    · cases same
      exact ⟨k, breaks⟩

theorem exact_write (w : m.Regular) (short : a.toNat + data.length ≤ 0x1_0000_0000_0000_0000) :
    ((m.write a data).1 = .ok () ↔
      ∀ i < data.length, m.usable (a + UInt64.ofNat i) .write = true) ∧
    ((m.write a data).1 = .ok () → Stored m a data (m.write a data).2) ∧
    ∀ e, (m.write a data).1 = .error e → ∃ k, m.Breaks .write .notWritable a data.length k e ∧
      Stored m a (data.take k) (m.write a data).2 := by
  have ends := w.writeEnds a data short
  generalize m.write a data = result at ends
  cases ends with
  | done usable stored =>
    refine ⟨⟨fun _ => usable, fun _ => rfl⟩, fun _ => stored, fun e failed => ?_⟩
    cases failed
  | @broken m' k e breaks stored =>
    refine ⟨⟨fun ok => ?_, fun usable => absurd usable breaks.not_usable⟩, fun ok => ?_,
      fun e' same => ?_⟩
    · cases ok
    · cases ok
    · cases same
      exact ⟨k, breaks, stored⟩

end Regular

/-- Whatever calls led to a map, its reads and writes of addresses up to 2^64 are exact. -/
theorem exact_after (calls : List Call) (a : GuestAddr) (len : Nat)
    (short : a.toNat + len ≤ 0x1_0000_0000_0000_0000) : (after calls).Exact a len := by
  have w := regular_after calls
  obtain ⟨reads, bytes, refuses⟩ := w.exact_read short
  refine ⟨reads, bytes, refuses, ?_, ?_, ?_, fun data => w.sameGuards_write a data⟩
  · rintro data rfl
    exact (w.exact_write short).1
  · rintro data rfl
    exact (w.exact_write short).2.1
  · rintro data rfl
    exact (w.exact_write short).2.2

/-- Three regions side by side; the last one cannot be written. -/
def neighbours : List Call :=
  [.map ⟨0x10000⟩ 0x1000 .readWrite, .map ⟨0x11000⟩ 0x1000 .readWrite,
    .map ⟨0x12000⟩ 0x1000 { read := true }]

/-- A write across the first boundary goes through, one across the second breaks off. -/
theorem exact_after_neighbours :
    ((⟨0x10ffe⟩ : GuestAddr).toNat + 4 ≤ 0x1_0000_0000_0000_0000 ∧
      ((after neighbours).write ⟨0x10ffe⟩ [1, 2, 3, 4]).1 = .ok () ∧
      Stored (after neighbours) ⟨0x10ffe⟩ [1, 2, 3, 4]
        ((after neighbours).write ⟨0x10ffe⟩ [1, 2, 3, 4]).2) ∧
    ∃ e k, ((after neighbours).write ⟨0x11ffe⟩ [1, 2, 3, 4]).1 = .error e ∧
      (after neighbours).Breaks .write .notWritable ⟨0x11ffe⟩ 4 k e := by
  have first := exact_after neighbours ⟨0x10ffe⟩ 4 (by decide)
  have second := exact_after neighbours ⟨0x11ffe⟩ 4 (by decide)
  have done := (first.writes [1, 2, 3, 4] rfl).2 (by decide +kernel)
  have refused :
      (after neighbours).usable ((⟨0x11ffe⟩ : GuestAddr) + UInt64.ofNat 2) .write = false := by
    decide +kernel
  refine ⟨⟨by decide, done, first.stored _ rfl done⟩, ?_⟩
  cases result : ((after neighbours).write ⟨0x11ffe⟩ [1, 2, 3, 4]).1 with
  | ok =>
    have usable := (second.writes [1, 2, 3, 4] rfl).1 result 2 (by decide)
    rw [refused] at usable
    cases usable
  | error e =>
    obtain ⟨k, breaks, -⟩ := second.torn [1, 2, 3, 4] rfl e result
    exact ⟨e, k, rfl, breaks⟩

end GuestExec.MemoryMap
