import GuestExec.Proofs.Memory.Open
import GuestExec.Proofs.Mmu.Contents

/-!
# Accesses that walk the map

In an open map the TLB cannot be told: what it serves its region allows, so an
access through a sound unit gives what the same access gives to a unit that has
nothing in its TLB and walks the map (`plainRead`, `plainWrite`). Through the TLB
alone an access may also fail, and then it changes nothing.
-/

namespace GuestExec.Mmu

variable {u : Mmu} {m : MemoryMap} {a : GuestAddr} {len : Nat} {access : Access} {lookup : Lookup}

/-! ## Translations -/

/-- What the TLB serves in a readable map its region allows, as far as data goes. -/
theorem Sound.allows_of_finds (s : u.Sound) (o : u.memory.Readable) (data : access ≠ .execute)
    (finds : u.Finds lookup a access) : u.memory.allows a access = true := by
  rcases finds with serves | ⟨-, usable⟩
  · cases access with
    | read =>
      obtain ⟨other, allowed⟩ := s.tlb.allows_of_holds serves.1
      exact o.allows_read s.memory allowed
    | write => exact serves.2 rfl
    | execute => exact absurd rfl data
  · exact MemoryMap.allows_of_usable usable

theorem Sound.finds_walk_iff (s : u.Sound) (o : u.memory.Open) (data : access ≠ .execute) :
    u.Finds .walk a access ↔ u.memory.allows a access = true := by
  refine ⟨s.allows_of_finds o.readable data, fun allowed => .inr ⟨rfl, ?_⟩⟩
  rw [o.usable s.memory, allowed]

/-- The unit that has nothing in its TLB. -/
def cold (m : MemoryMap) : Mmu := ⟨.empty, m⟩

theorem sound_cold (w : m.Regular) : (cold m).Sound := ⟨w, Tlb.coherent_empty m⟩

/-! ## Pieces -/

/-- An access has its pieces one way only. -/
theorem Split.unique {list list' : List (HostAddr × Nat)} (h : Split m a len list)
    (h' : Split m a len list') : list = list' := by
  cases h with
  | one whole head =>
    cases h' with
    | one _ head' =>
      cases head.symm.trans head'
      rfl
    | two straddles => exact absurd whole straddles
  | two straddles head rest =>
    cases h' with
    | one whole => exact absurd whole straddles
    | two _ head' rest' =>
      cases head.symm.trans head'
      cases rest.symm.trans rest'
      rfl

/-- The pieces are those that the map says, or the TLB alone does not have them. -/
theorem Sound.pieces_eq_cold (s : u.Sound) (o : u.memory.Open) (lookup : Lookup) (a : GuestAddr)
    (len : Nat) (access : Access) (data : access ≠ .execute) :
    (Mmu.pieces lookup u a len access).1 = (Mmu.pieces .walk (cold u.memory) a len access).1 ∨
      (lookup = .cached ∧ (Mmu.pieces lookup u a len access).1 = none) := by
  have plain := sound_cold s.memory
  rcases s.pieces_cases lookup a len access with
    ⟨finds, list, u', split, -, -, eq⟩ | ⟨missed, u', -, eq⟩
  · rcases plain.pieces_cases .walk a len access with
      ⟨-, list', u'', split', -, -, eq'⟩ | ⟨missed, -⟩
    · rw [eq, eq', split.unique split']
      exact .inl rfl
    · exact absurd (fun b mem => (plain.finds_walk_iff o data).2
        (s.allows_of_finds o.readable data (finds b mem))) missed
  · rw [eq]
    cases lookup with
    | cached => exact .inr ⟨rfl, rfl⟩
    | walk =>
      rcases plain.pieces_cases .walk a len access with ⟨finds, -⟩ | ⟨-, u'', -, eq'⟩
      · exact absurd (fun b mem => (s.finds_walk_iff o data).2
          (plain.allows_of_finds o.readable data (finds b mem))) missed
      · rw [eq']
        exact .inl rfl

/-! ## Reading -/

/-- The bytes of an access that walks the map. -/
def plainRead (m : MemoryMap) (a : GuestAddr) (len : Nat) : Option (List UInt8) :=
  ((cold m).read .walk a len).1

theorem Sound.read_eq_plain (s : u.Sound) (o : u.memory.Open) (lookup : Lookup) (a : GuestAddr)
    (len : Nat) :
    (u.read lookup a len).1 = plainRead u.memory a len ∨
      (lookup = .cached ∧ (u.read lookup a len).1 = none) := by
  have kept := memory_pieces lookup u a len .read
  have same := memory_pieces .walk (cold u.memory) a len .read
  have pieces := s.pieces_eq_cold o lookup a len .read Access.noConfusion
  simp only [plainRead, Mmu.read, kept, same]
  rcases pieces with eq | ⟨cached, none⟩
  · exact .inl (by rw [eq]; rfl)
  · exact .inr ⟨cached, by rw [none]; rfl⟩

/-- A read that walks the map succeeds exactly where the map allows it. -/
theorem plainRead_isSome (w : m.Regular) (o : m.Open) (short : len ≤ pageSize) (pos : len ≠ 0) :
    (plainRead m a len).isSome = true ↔ ∀ b ∈ starts a len, m.allows b .read = true := by
  have plain := sound_cold w
  rw [plainRead, plain.read_isSome .walk a len short pos]
  refine forall₂_congr fun b mem => ?_
  rw [Ready, plain.finds_walk_iff o Access.noConfusion]
  exact and_iff_left (o.isGuarded w b)

/-! ## Writing -/

/-- Whether a write that walks the map succeeds, and what memory is after it. -/
def plainWrite (m : MemoryMap) (a : GuestAddr) (data : List UInt8) : Bool × MemoryMap :=
  (((cold m).write .walk a data).1, ((cold m).write .walk a data).2.memory)

theorem Sound.write_eq_plain (s : u.Sound) (o : u.memory.Open) (lookup : Lookup) (a : GuestAddr)
    (data : List UInt8) :
    ((u.write lookup a data).1, (u.write lookup a data).2.memory) = plainWrite u.memory a data ∨
      (lookup = .cached ∧ (u.write lookup a data).1 = false ∧
        (u.write lookup a data).2.memory = u.memory) := by
  have kept := memory_pieces lookup u a data.length .write
  have same := memory_pieces .walk (cold u.memory) a data.length .write
  have pieces := s.pieces_eq_cold o lookup a data.length .write Access.noConfusion
  simp only [plainWrite, Mmu.write]
  rcases eq : Mmu.pieces lookup u a data.length .write with ⟨list, u'⟩
  rcases eq' : Mmu.pieces .walk (cold u.memory) a data.length .write with ⟨list', u''⟩
  rw [eq] at kept pieces
  rw [eq'] at same pieces
  rcases pieces with rfl | ⟨cached, rfl⟩
  · refine .inl ?_
    cases list with
    | none => exact Prod.ext rfl (kept.trans same.symm)
    | some list =>
      dsimp only at kept same ⊢
      rw [kept, same]
      rfl
  · exact .inr ⟨cached, rfl, kept⟩

/-- A write that walks the map succeeds exactly where the map allows it. -/
theorem plainWrite_eq_true (w : m.Regular) (o : m.Open) (a : GuestAddr) (data : List UInt8)
    (short : data.length ≤ pageSize) (pos : data.length ≠ 0) :
    (plainWrite m a data).1 = true ↔ ∀ b ∈ starts a data.length, m.allows b .write = true := by
  have plain := sound_cold w
  show ((cold m).write .walk a data).1 = true ↔ _
  rw [plain.write_eq_true .walk a data short pos]
  refine forall₂_congr fun b mem => ?_
  rw [Ready, plain.finds_walk_iff o Access.noConfusion]
  exact and_iff_left (o.isGuarded w b)

/-- A write that fails changes nothing. -/
theorem plainWrite_of_false (w : m.Regular) (o : m.Open) (a : GuestAddr) (data : List UInt8)
    (short : data.length ≤ pageSize) (pos : data.length ≠ 0)
    (failed : (plainWrite m a data).1 = false) : plainWrite m a data = (false, m) := by
  refine Prod.ext failed ?_
  have kept := memory_pieces .walk (cold m) a data.length .write
  rcases (sound_cold w).pieces_cases .walk a data.length .write with
    ⟨finds, -⟩ | ⟨-, u', -, eq⟩
  · have done := (plainWrite_eq_true w o a data short pos).2 fun b mem =>
      (sound_cold w).allows_of_finds o.readable Access.noConfusion (finds b mem)
    rw [failed] at done
    cases done
  · rw [eq] at kept
    simp only [plainWrite, Mmu.write, eq]
    exact kept

theorem open_plainWrite (w : m.Regular) (o : m.Open) (a : GuestAddr) (data : List UInt8) :
    (plainWrite m a data).2.Regular ∧ (plainWrite m a data).2.Open := by
  have kept := memory_pieces .walk (cold m) a data.length .write
  simp only [plainWrite, Mmu.write]
  rcases eq : Mmu.pieces .walk (cold m) a data.length .write with ⟨_ | list, u'⟩
  · rw [eq] at kept
    dsimp only at kept ⊢
    rw [kept]
    exact ⟨w, o⟩
  · rw [eq] at kept
    dsimp only at kept ⊢
    rw [kept]
    have same := sameGuards_writePieces w data list
    exact ⟨same.toSameFrames.regular w, o.of_loosens same.toLoosens⟩

end GuestExec.Mmu
