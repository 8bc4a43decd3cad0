import GuestExec.Proofs.Memory.Stored
import GuestExec.Proofs.Mmu.Pieces

/-!
# Which bytes an access changes

Looking an access up changes no memory. A write through the access unit stores
all of its data or none, with one exception: a write that is `Torn` stores the
part that lies on the first page.
-/

namespace GuestExec

open MemoryMap (ModifiesOnly Stored)

namespace Mmu

variable {u u' : Mmu} {a : GuestAddr} {len : Nat}

/-! ## Looking up -/

@[simp] theorem memory_translateCached (u : Mmu) (a : GuestAddr) (access : Access) :
    (u.translateCached a access).2.memory = u.memory := rfl

@[simp] theorem memory_fill (u : Mmu) (a : GuestAddr) (mapping : Mapping) :
    (u.fill a mapping).memory = u.memory := rfl

@[simp] theorem memory_walk (u : Mmu) (a : GuestAddr) (access : Access) :
    (u.walk a access).2.memory = u.memory := by
  unfold walk
  split
  · rfl
  · split <;> rfl

@[simp] theorem memory_translate (u : Mmu) (a : GuestAddr) (access : Access) :
    (u.translate a access).2.memory = u.memory := by
  unfold translate
  split
  · rename_i eq
    exact congrArg (fun x => x.2.memory) eq.symm
  · rename_i eq
    rw [memory_walk]
    exact congrArg (fun x => x.2.memory) eq.symm

@[simp] theorem memory_translateBy (lookup : Lookup) (u : Mmu) (a : GuestAddr) (access : Access) :
    (translateBy lookup u a access).2.memory = u.memory := by
  cases lookup
  · exact memory_translateCached u a access
  · exact memory_translate u a access

@[simp] theorem memory_pieces (lookup : Lookup) (u : Mmu) (a : GuestAddr) (len : Nat)
    (access : Access) : (pieces lookup u a len access).2.memory = u.memory := by
  have first := memory_translateBy lookup u a access
  unfold pieces
  dsimp only
  split
  · rename_i eq
    rw [eq] at first
    exact first
  · rename_i u₁ eq
    rw [eq] at first
    split
    · exact first
    · have second := memory_translateBy lookup u₁ (a + UInt64.ofNat (headLength a len)) access
      split
      · rename_i eq'
        rw [eq'] at second
        exact second.trans first
      · rename_i eq'
        rw [eq'] at second
        exact second.trans first

@[simp] theorem memory_read (lookup : Lookup) (u : Mmu) (a : GuestAddr) (len : Nat) :
    (u.read lookup a len).2.memory = u.memory :=
  memory_pieces lookup u a len .read

@[simp] theorem memory_firstWalkMiss (u : Mmu) (a : GuestAddr) (len : Nat) (access : Access) :
    (u.firstWalkMiss a len access).2.memory = u.memory := by
  have first := memory_translate u a access
  unfold firstWalkMiss
  dsimp only
  split
  · rename_i eq
    rw [eq] at first
    exact first
  · rename_i u₁ eq
    rw [eq] at first
    split
    · exact first
    · have second := memory_translate u₁ (a + UInt64.ofNat (headLength a len)) access
      split
      · rename_i eq'
        rw [eq'] at second
        exact second.trans first
      · rename_i eq'
        rw [eq'] at second
        exact second.trans first

@[simp] theorem memory_firstCachedMiss (u : Mmu) (a : GuestAddr) (len : Nat) (access : Access) :
    (u.firstCachedMiss a len access).2.memory = u.memory := by
  unfold firstCachedMiss
  dsimp only
  split
  · rfl
  · split
    · rename_i eq
      exact congrArg (fun x => x.2.memory) eq.symm
    · rename_i eq
      exact congrArg (fun x => x.2.memory) eq.symm

/-! ## Writing -/

theorem headLength_pos (a : GuestAddr) (pos : 0 < len) : 0 < headLength a len := by
  have := Nat.mod_lt a.toNat (show 0 < pageSize by decide)
  rw [headLength, GuestAddr.toNat_pageOffset]
  omega

/-- The first piece is stored unless its page is guarded. -/
theorem stored_writePieces_cons {m : MemoryMap} (w : m.Regular) {mapping : Mapping}
    (translated : m.translate a = some mapping) (writable : m.allows a .write = true)
    (data : List UInt8) {n : Nat} (fits : a.toNat % pageSize + n ≤ pageSize) (pos : n ≠ 0)
    (rest : List (HostAddr × Nat)) :
    (m.isGuarded a = true ∧ writePieces m data ((mapping.hostAddr a, n) :: rest) = (false, m)) ∨
      (m.isGuarded a = false ∧ ∃ m', Stored m a (data.take n) m' ∧ MemoryMap.SameGuards m m' ∧
        writePieces m data ((mapping.hostAddr a, n) :: rest) =
          writePieces m' (data.drop n) rest) := by
  refine (writePieces_cons w translated writable data fits pos rest).imp_right ?_
  rintro ⟨free, m', written, eq⟩
  obtain ⟨r, found, rfl⟩ := MemoryMap.translate_eq_some_iff.1 translated
  rw [MemoryMap.allows_of_find found] at writable
  have room : a.toNat % pageSize + (data.take n).length ≤ pageSize := by
    have := List.length_take_le n data
    omega
  exact ⟨free, m', w.stored_writeHost found writable (GuestAddr.add_le_of_fits room) written,
    w.sameGuards_writeHost written, eq⟩

/-- Writing the pieces of an access stores everything, if none of its pages is guarded; nothing, if
the first one is; and the bytes of the first page, if only the second one is. -/
theorem writePieces_cases {m : MemoryMap} (w : m.Regular) (short : len ≤ pageSize)
    (pos : 0 < len) (writable : ∀ b ∈ starts a len, m.allows b .write = true)
    {list : List (HostAddr × Nat)} (split : Split m a len list) {data : List UInt8}
    (full : data.length = len) :
    ((∀ b ∈ starts a len, m.isGuarded b = false) ∧
        ∃ m', Stored m a data m' ∧ writePieces m data list = (true, m')) ∨
      (m.isGuarded a = true ∧ writePieces m data list = (false, m)) ∨
      (headLength a len ≠ len ∧ m.isGuarded a = false ∧ m.isGuarded (next a len) = true ∧
        ∃ m', Stored m a (data.take (headLength a len)) m' ∧
          writePieces m data list = (false, m')) := by
  have onHead := writable a (mem_starts.2 (.inl rfl))
  have fits := fits_head a len
  cases split with
  | one whole head =>
    rw [whole] at fits
    rcases stored_writePieces_cons w head onHead data fits (by omega) [] with
      ⟨guarded, refused⟩ | ⟨free, m', stored, -, written⟩
    · exact .inr (.inl ⟨guarded, refused⟩)
    · rw [List.take_of_length_le (Nat.le_of_eq full)] at stored
      refine .inl ⟨?_, m', stored, written⟩
      intro b mem
      rcases mem_starts.1 mem with rfl | ⟨straddles, -⟩
      · exact free
      · exact absurd whole straddles
  | @two first second straddles head rest =>
    have lt := (headLength_of_straddles straddles).2
    have begun := headLength_pos a pos
    have room := fits_rest straddles short
    have onRest := writable _ (mem_starts.2 (.inr ⟨straddles, rfl⟩))
    rcases stored_writePieces_cons w head onHead data fits (by omega)
      [(second.hostAddr (next a len), len - headLength a len)] with
      ⟨guarded, refused⟩ | ⟨free, m₁, stored, same, written⟩
    · exact .inr (.inl ⟨guarded, refused⟩)
    · have frames := same.toSameFrames
      rw [← frames.translate w] at rest
      rw [← frames.allows w] at onRest
      rcases stored_writePieces_cons (frames.regular w) rest onRest
        (data.drop (headLength a len)) room (by omega) [] with
        ⟨guarded, refused⟩ | ⟨free', m₂, stored', -, written'⟩
      · rw [same.guards] at guarded
        exact .inr (.inr ⟨straddles, free, guarded, m₁, stored, written.trans refused⟩)
      · rw [same.guards] at free'
        have taken : (data.take (headLength a len)).length = headLength a len := by
          rw [List.length_take, full]
          omega
        have left : (data.drop (headLength a len)).length = len - headLength a len := by
          rw [List.length_drop, full]
        rw [List.take_of_length_le (Nat.le_of_eq left)] at stored'
        have small : pageSize ≤ 0x1_0000_0000_0000_0000 := by decide
        have all := stored.append w (by rw [taken]; exact stored') (by omega)
        rw [List.take_append_drop] at all
        refine .inl ⟨?_, m₂, all, written.trans written'⟩
        intro b mem
        rcases mem_starts.1 mem with rfl | ⟨-, rfl⟩
        · exact free
        · exact free'

/-- A write goes half way: the first page is ready, but the second one is guarded and only the TLB
still translates it. -/
structure Torn (lookup : Lookup) (u : Mmu) (a : GuestAddr) (len : Nat) : Prop where
  straddles : headLength a len ≠ len
  head : u.Ready lookup a .write
  served : u.Serves (next a len) .write
  guarded : u.memory.isGuarded (next a len) = true

/-- A guarded page is translated by the TLB only. -/
theorem Finds.serves_of_guarded {lookup : Lookup} {access : Access}
    (h : u.Finds lookup a access) (guarded : u.memory.isGuarded a = true) : u.Serves a access := by
  refine h.resolve_right ?_
  rintro ⟨-, usable⟩
  rw [MemoryMap.usable, guarded, Bool.not_true, Bool.and_false] at usable
  cases usable

theorem Torn.not_accessible {lookup : Lookup} (h : u.Torn lookup a len) :
    ¬u.Accessible lookup a len .write := by
  intro all
  have free := (all _ (mem_starts.2 (.inr ⟨h.straddles, rfl⟩))).2
  rw [h.guarded] at free
  cases free

/-- A write succeeds and stores its data, or fails and stores nothing, or is torn. -/
theorem Sound.write_cases (s : u.Sound) (lookup : Lookup) (a : GuestAddr) {data : List UInt8}
    (short : data.length ≤ pageSize) (pos : 0 < data.length) :
    (u.Accessible lookup a data.length .write ∧ (u.write lookup a data).1 = true ∧
        Stored u.memory a data (u.write lookup a data).2.memory) ∨
      (u.Torn lookup a data.length ∧ (u.write lookup a data).1 = false ∧
        Stored u.memory a (data.take (headLength a data.length))
          (u.write lookup a data).2.memory) ∨
      (¬u.Accessible lookup a data.length .write ∧ ¬u.Torn lookup a data.length ∧
        (u.write lookup a data).1 = false ∧ (u.write lookup a data).2.memory = u.memory) := by
  have isHead : a ∈ starts a data.length := mem_starts.2 (.inl rfl)
  rcases s.pieces_cases lookup a data.length .write with
    ⟨finds, list, u', split, memory, -, eq⟩ | ⟨missed, u', -, eq⟩
  · rcases writePieces_cases s.memory short pos (fun b mem => (finds b mem).allows_write)
      split rfl with ⟨free, m', stored, written⟩ | ⟨guarded, written⟩ |
        ⟨straddles, free, guarded, m', stored, written⟩
    · have result : u.write lookup a data = (true, { u' with memory := m' }) := by
        simp only [Mmu.write, eq, memory, written]
      rw [result]
      exact .inl ⟨fun b mem => ⟨finds b mem, free b mem⟩, rfl, stored⟩
    · have result : u.write lookup a data = (false, { u' with memory := u.memory }) := by
        simp only [Mmu.write, eq, memory, written]
      have blocked : ¬u.Ready lookup a .write := by
        intro ready
        have free := ready.2
        rw [guarded] at free
        cases free
      rw [result]
      exact .inr (.inr ⟨fun all => blocked (all a isHead), fun torn => blocked torn.head, rfl, rfl⟩)
    · have result : u.write lookup a data = (false, { u' with memory := m' }) := by
        simp only [Mmu.write, eq, memory, written]
      have torn : u.Torn lookup a data.length :=
        { straddles, guarded, head := ⟨finds a isHead, free⟩
          served := (finds _ (mem_starts.2 (.inr ⟨straddles, rfl⟩))).serves_of_guarded guarded }
      rw [result]
      exact .inr (.inl ⟨torn, rfl, stored⟩)
  · have kept := memory_pieces lookup u a data.length .write
    rw [eq] at kept
    have result : u.write lookup a data = (false, u') := by simp only [Mmu.write, eq]
    rw [result]
    refine .inr (.inr ⟨fun all => missed fun b mem => (all b mem).1, fun torn => ?_, rfl, kept⟩)
    apply missed
    intro b mem
    rcases mem_starts.1 mem with rfl | ⟨-, rfl⟩
    · exact torn.head.1
    · exact .inl torn.served

/-- Nothing is written when there is nothing to write. -/
theorem memory_write_nil (lookup : Lookup) (u : Mmu) (a : GuestAddr) :
    (u.write lookup a []).2.memory = u.memory := by
  have whole : headLength a 0 = 0 := Nat.min_zero _
  have looked := memory_translateBy lookup u a .write
  simp only [Mmu.write, Mmu.pieces, List.length_nil, whole, if_true]
  split
  · rename_i missed
    split at missed <;> cases missed
    rename_i eq
    rw [eq] at looked
    exact looked
  · rename_i found
    split at found <;> cases found
    rename_i eq
    rw [eq] at looked
    exact looked

theorem Sound.modifiesOnly_write (s : u.Sound) (lookup : Lookup) (a : GuestAddr)
    {data : List UInt8} (short : data.length ≤ pageSize) :
    ModifiesOnly (a.Spans data.length) u.memory (u.write lookup a data).2.memory := by
  by_cases pos : 0 < data.length
  · rcases s.write_cases lookup a short pos with ⟨-, -, stored⟩ | ⟨-, -, stored⟩ | ⟨-, -, -, same⟩
    · exact stored.toModifiesOnly
    · refine stored.toModifiesOnly.mono fun n span => span.mono ?_
      rw [List.length_take]
      exact Nat.min_le_right _ _
    · exact same ▸ .refl _ _
  · have empty : data = [] := List.length_eq_zero_iff.1 (by omega)
    rw [empty, memory_write_nil]
    exact .refl _ _

end Mmu

end GuestExec
