import GuestExec.Proofs.Memory.Parts
import GuestExec.Proofs.Mmu.Agreement
import GuestExec.Proofs.Mmu.Plain

/-!
# Accesses of the unit and accesses of the map

The access unit cuts an access where a page ends and goes through the TLB; the map
cuts it where a region ends and asks for permissions every time. An access that goes
through the unit and may be made by its region goes through the map as well, with the
same result, and one that the map makes is found by a walk. Only reads need a
readable map: the TLB remembers of a page whether it may be written and nothing else.
-/

namespace GuestExec.Mmu

open MemoryMap (SameGuards)

variable {u : Mmu} {m m' : MemoryMap} {a : GuestAddr} {len : Nat} {access : Access}
  {lookup : Lookup} {mapping : Mapping} {bytes data : List UInt8}

/-! ## Which accesses go through -/

/-- A walk finds what the host could access. -/
theorem accessible_of_usable (pos : 0 < len)
    (usable : ∀ i < len, u.memory.usable (a + UInt64.ofNat i) access = true) :
    u.Accessible .walk a len access := by
  intro b mem
  obtain ⟨i, inside, rfl⟩ := exists_byte pos mem
  have here := usable i inside
  refine ⟨.inr ⟨rfl, here⟩, ?_⟩
  rw [MemoryMap.usable, Bool.and_eq_true, Bool.not_eq_true'] at here
  exact here.2

/-- In a readable map whatever goes through the unit could be accessed on the host. -/
theorem Sound.usable_of_accessible (s : u.Sound) (readable : u.memory.Readable)
    (isData : access ≠ .execute) (short : len ≤ pageSize)
    (accessible : u.Accessible lookup a len access) {i : Nat} (inside : i < len) :
    u.memory.usable (a + UInt64.ofNat i) access = true := by
  obtain ⟨j, -, mem, same⟩ := exists_start inside short
  obtain ⟨finds, free⟩ := accessible _ mem
  rw [MemoryMap.usable, s.memory.allows_page same, s.memory.isGuarded_page same, free,
    s.allows_of_finds readable isData finds]
  rfl

/-! ## Reads -/

/-- A read that goes through the unit, by the TLB or by a walk, is the map's. -/
theorem Sound.read_eq_map (s : u.Sound) (readable : u.memory.Readable) (short : len ≤ pageSize)
    (pos : 0 < len) (fits : a.toNat + len ≤ 0x1_0000_0000_0000_0000)
    (got : (u.read lookup a len).1 = some bytes) : u.memory.read a len = .ok bytes := by
  have accessible := (s.read_isSome lookup a len short (Nat.ne_of_gt pos)).1
    (Option.isSome_iff_exists.2 ⟨bytes, got⟩)
  obtain ⟨done, shows, -⟩ := s.memory.exact_read fits
  obtain ⟨bytes', read⟩ := done.2 fun i inside =>
    s.usable_of_accessible readable Access.noConfusion short accessible inside
  obtain ⟨length, shown⟩ := s.agrees.shows_read short pos got
  obtain ⟨length', shown'⟩ := shows bytes' read
  rw [read, MemoryMap.Shows.eq shown' shown (length'.trans length.symm)]

/-- A read that walks the map gives what the map gives. -/
theorem Sound.read_walk_iff (s : u.Sound) (readable : u.memory.Readable) (short : len ≤ pageSize)
    (pos : 0 < len) (fits : a.toNat + len ≤ 0x1_0000_0000_0000_0000) :
    (u.read .walk a len).1 = some bytes ↔ u.memory.read a len = .ok bytes := by
  refine ⟨s.read_eq_map readable short pos fits, fun read => ?_⟩
  have usable := (s.memory.exact_read fits).1.1 ⟨bytes, read⟩
  have done := (s.read_isSome .walk a len short (Nat.ne_of_gt pos)).2
    (accessible_of_usable pos usable)
  obtain ⟨bytes', got⟩ := Option.isSome_iff_exists.1 done
  have read' := s.read_eq_map readable short pos fits got
  rw [read] at read'
  cases read'
  exact got

/-! ## Writes -/

/-- The first piece, if it goes through, and what the map's write is left with. -/
theorem write_of_writePieces_cons (w : m.Regular) (translated : m.translate a = some mapping)
    (writable : m.allows a .write = true) {n : Nat} (onPage : a.toNat % pageSize + n ≤ pageSize)
    (pos : 0 < n) (le : n ≤ data.length) (fits : a.toNat + data.length ≤ 0x1_0000_0000_0000_0000)
    {rest : List (HostAddr × Nat)}
    (done : writePieces m data ((mapping.hostAddr a, n) :: rest) = (true, m')) :
    ∃ m₁, SameGuards m m₁ ∧ writePieces m₁ (data.drop n) rest = (true, m') ∧
      (m₁.write (a + UInt64.ofNat n) (data.drop n) = (.ok (), m') →
        m.write a data = (.ok (), m')) := by
  rcases writePieces_cons w translated writable data onPage (Nat.ne_of_gt pos) rest with
    ⟨-, refused⟩ | ⟨-, m₁, written, eq⟩
  · rw [refused] at done
    cases done
  · obtain ⟨r, found, rfl⟩ := MemoryMap.translate_eq_some_iff.1 translated
    have room := (w.regular_of_find found).offset_add_le (w.find_iff.1 found).2 onPage
    have legal := (MemoryMap.allows_of_find found).symm.trans writable
    exact ⟨m₁, w.sameGuards_writeHost written, eq.symm.trans done,
      w.write_of_parts found legal pos le room fits written⟩

/-- Writing the pieces of an access is the map's write, if it goes through. -/
theorem write_of_writePieces (w : m.Regular) (short : data.length ≤ pageSize)
    (pos : 0 < data.length) (fits : a.toNat + data.length ≤ 0x1_0000_0000_0000_0000)
    (writable : ∀ b ∈ starts a data.length, m.allows b .write = true)
    {list : List (HostAddr × Nat)} (split : Split m a data.length list)
    (done : writePieces m data list = (true, m')) : m.write a data = (.ok (), m') := by
  have nothing : ∀ (m : MemoryMap) (b : GuestAddr), m.write b [] = (.ok (), m) := fun m b => by
    rw [MemoryMap.write, if_pos rfl]
  have onHead := writable a (mem_starts.2 (.inl rfl))
  have onPage := fits_head a data.length
  cases split with
  | one whole head =>
    rw [whole] at onPage
    obtain ⟨m₁, -, rest, joined⟩ :=
      write_of_writePieces_cons w head onHead onPage pos (Nat.le_refl _) fits done
    cases rest
    apply joined
    rw [List.drop_length, nothing]
  | two straddles head rest =>
    have lt := (headLength_of_straddles straddles).2
    have length : (data.drop (headLength a data.length)).length =
      data.length - headLength a data.length := List.length_drop
    have onRest := writable _ (mem_starts.2 (.inr ⟨straddles, rfl⟩))
    obtain ⟨m₁, same, more, joined⟩ := write_of_writePieces_cons w head onHead onPage
      (headLength_pos a pos) (Nat.le_of_lt lt) fits done
    have frames := same.toSameFrames
    rw [← frames.translate w] at rest
    rw [← frames.allows w] at onRest
    rw [← length] at more
    have fits' : (next a data.length).toNat + (data.drop (headLength a data.length)).length ≤
        0x1_0000_0000_0000_0000 := by
      rw [next, GuestAddr.toNat_add_of_lt fits lt, length]
      omega
    obtain ⟨m₂, -, last, joined'⟩ := write_of_writePieces_cons (frames.regular w) rest onRest
      (length ▸ fits_rest straddles short) (by omega) (Nat.le_refl _) fits' more
    cases last
    refine joined (joined' ?_)
    rw [List.drop_length, nothing]

/-- A write that goes through the unit, by the TLB or by a walk, is the map's. -/
theorem Sound.write_eq_map (s : u.Sound) (short : data.length ≤ pageSize) (pos : 0 < data.length)
    (fits : a.toNat + data.length ≤ 0x1_0000_0000_0000_0000)
    (done : (u.write lookup a data).1 = true) :
    u.memory.write a data = (.ok (), (u.write lookup a data).2.memory) := by
  rcases s.pieces_cases lookup a data.length .write with
    ⟨finds, list, u', split, memory, -, eq⟩ | ⟨-, u', -, eq⟩
  · simp only [Mmu.write, eq, memory] at done ⊢
    exact write_of_writePieces s.memory short pos fits
      (fun b mem => (finds b mem).allows_write) split (Prod.ext done rfl)
  · simp only [Mmu.write, eq, Bool.false_eq_true] at done

/-- A write that walks the map does what the map does, if either goes through. -/
theorem Sound.write_walk_iff (s : u.Sound) (short : data.length ≤ pageSize)
    (pos : 0 < data.length) (fits : a.toNat + data.length ≤ 0x1_0000_0000_0000_0000) :
    ((u.write .walk a data).1 = true ∧ (u.write .walk a data).2.memory = m) ↔
      u.memory.write a data = (.ok (), m) := by
  constructor
  · rintro ⟨done, rfl⟩
    exact s.write_eq_map short pos fits done
  · intro written
    have usable := (s.memory.exact_write fits).1.1 (congrArg Prod.fst written)
    have done := (s.write_eq_true .walk a data short (Nat.ne_of_gt pos)).2
      (accessible_of_usable pos usable)
    have written' := s.write_eq_map short pos fits done
    exact ⟨done, congrArg Prod.snd (written'.symm.trans written)⟩

end GuestExec.Mmu
