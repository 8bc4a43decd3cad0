import GuestExec.Proofs.Mmu.Contents

/-!
# Access units that agree with their map

`Agrees` asks less of an access unit than `Sound` does: the entries of its TLB may
have any length and any reason, and the host may have lost pages. It is all that
an access needs to do what the map says. A hit is the answer of the map, a read
that goes through returns the bytes of guest memory, and a write that goes
through leaves its data there.
-/

namespace GuestExec

namespace Mmu

open MemoryMap (ModifiesOnly SameFrames Stored)
open Tlb (Hit)

variable {u : Mmu} {m : MemoryMap} {a : GuestAddr} {len : Nat} {access : Access}
  {lookup : Lookup} {mapping : Mapping} {bytes data : List UInt8}

/-! ## Reading and writing pieces -/

/-- The first piece, and what is read of the others. -/
theorem shows_readPieces_cons (w : m.Regular) (translated : m.translate a = some mapping) {n : Nat}
    (fits : a.toNat % pageSize + n ≤ pageSize) (pos : n ≠ 0) {rest : List (HostAddr × Nat)}
    (got : readPieces m ((mapping.hostAddr a, n) :: rest) = some bytes) :
    ∃ first more, first.length = n ∧ m.Shows a first ∧ readPieces m rest = some more ∧
      bytes = first ++ more := by
  obtain ⟨r, found, rfl⟩ := MemoryMap.translate_eq_some_iff.1 translated
  rw [readPieces, if_neg pos] at got
  split at got
  · cases got
  · rename_i first read
    obtain ⟨more, others, rfl⟩ := Option.map_eq_some_iff.1 got
    have room := (w.regular_of_find found).offset_add_le (w.find_iff.1 found).2 fits
    obtain ⟨length, shown⟩ := w.shows_readHost found (GuestAddr.add_le_of_fits fits) room read
    exact ⟨first, more, length, shown, others, rfl⟩

/-- What is read of the pieces of an access is what the guest has there. -/
theorem shows_readPieces (w : m.Regular) (short : len ≤ pageSize) (pos : 0 < len)
    {list : List (HostAddr × Nat)} (split : Split m a len list)
    (got : readPieces m list = some bytes) : bytes.length = len ∧ m.Shows a bytes := by
  have fits := fits_head a len
  cases split with
  | one whole head =>
    rw [whole] at fits
    obtain ⟨first, more, length, shown, none, rfl⟩ :=
      shows_readPieces_cons w head fits (by omega) got
    cases none
    rw [List.append_nil]
    exact ⟨length, shown⟩
  | two straddles head rest =>
    have lt := (headLength_of_straddles straddles).2
    have begun := headLength_pos a pos
    obtain ⟨first, more, length, shown, got', rfl⟩ :=
      shows_readPieces_cons w head fits (by omega) got
    obtain ⟨second, more, length', shown', none, rfl⟩ :=
      shows_readPieces_cons w rest (fits_rest straddles short) (by omega) got'
    cases none
    rw [next, ← length] at shown'
    rw [List.append_nil]
    exact ⟨by rw [List.length_append]; omega, shown.append shown'⟩

/-- Of a write that breaks off, too, nothing is found outside of its range. -/
theorem stored_writePieces (w : m.Regular) (short : len ≤ pageSize) (pos : 0 < len)
    (writable : ∀ b ∈ starts a len, m.allows b .write = true) {list : List (HostAddr × Nat)}
    (split : Split m a len list) (full : data.length = len) :
    ModifiesOnly (a.Spans len) m (writePieces m data list).2 ∧
      ((writePieces m data list).1 = true → Stored m a data (writePieces m data list).2) := by
  rcases writePieces_cases w short pos writable split full with
    ⟨-, m', stored, eq⟩ | ⟨-, eq⟩ | ⟨-, -, -, m', stored, eq⟩
  · rw [eq]
    exact ⟨full ▸ stored.toModifiesOnly, fun _ => stored⟩
  · rw [eq]
    exact ⟨.refl _ m, nofun⟩
  · rw [eq]
    refine ⟨stored.toModifiesOnly.mono fun n span => span.mono ?_, nofun⟩
    rw [List.length_take]
    omega

/-! ## Agreement -/

/-- The map is regular, and the TLB translates as it does. -/
structure Agrees (u : Mmu) : Prop where
  memory : u.memory.Regular
  tlb : u.tlb.Agrees u.memory

theorem Sound.agrees (s : u.Sound) : u.Agrees := ⟨s.memory, s.tlb.toAgrees⟩

theorem Agrees.setMemory (g : u.Agrees) (same : SameFrames u.memory m) :
    Agrees { u with memory := m } :=
  ⟨same.regular g.memory, g.tlb.congr (same.translate g.memory)⟩

theorem Agrees.fill (g : u.Agrees) (translated : u.memory.translate a = some mapping) :
    (u.fill a mapping).Agrees :=
  ⟨g.memory, g.tlb.insertPage g.memory translated⟩

/-- What a search for a translation of `a` comes to: whatever it finds, the map says the same. -/
structure Answers (u : Mmu) (a : GuestAddr) (access : Access) (result : Option Hit × Mmu) :
    Prop where
  memory : result.2.memory = u.memory
  agrees : result.2.Agrees
  hit : ∀ hit, result.1 = some hit → ∃ mapping, u.memory.translate a = some mapping ∧
    hit = hitOf mapping a ∧ (access.isWrite = true → mapping.writable = true)

/-- What is found for a write may be written. -/
theorem Answers.exists_mapping {result : Option Hit × Mmu} (h : u.Answers a access result)
    {hit : Hit} (found : result.1 = some hit) :
    ∃ mapping, u.memory.translate a = some mapping ∧ hit = hitOf mapping a ∧
      (access.isWrite = true → u.memory.allows a .write = true) := by
  obtain ⟨mapping, translated, same, writable⟩ := h.hit hit found
  exact ⟨mapping, translated, same,
    fun write => (MemoryMap.allows_of_translate translated).trans (writable write)⟩

theorem Agrees.answers_translateCached (g : u.Agrees) (a : GuestAddr) (access : Access) :
    u.Answers a access (u.translateCached a access) := by
  refine ⟨rfl, ⟨g.memory, g.tlb.lookup a⟩, fun hit answer => ?_⟩
  by_cases holds : u.tlb.Holds a
  · obtain ⟨mapping, translated, found⟩ := g.tlb.lookup_eq holds
    have answer : (some (hitOf mapping a)).filter (fun h => !access.isWrite || h.writable) =
      some hit := found ▸ answer
    obtain ⟨same, legal⟩ := Option.filter_eq_some_iff.1 answer
    cases same
    refine ⟨mapping, translated, rfl, fun write => ?_⟩
    rw [write, Bool.not_true, Bool.false_or] at legal
    exact legal
  · have answer : Option.filter (fun h => !access.isWrite || h.writable) (u.tlb.lookup a).1 =
      some hit := answer
    rw [Tlb.lookup_eq_none holds] at answer
    cases answer

theorem Agrees.answers_walk (g : u.Agrees) (a : GuestAddr) (access : Access) :
    u.Answers a access (u.walk a access) := by
  unfold walk
  split
  · exact ⟨rfl, g, nofun⟩
  · rename_i mapping translated
    split
    · rename_i usable
      rw [Bool.and_eq_true] at usable
      refine ⟨rfl, g.fill translated, fun hit answer => ?_⟩
      cases answer
      refine ⟨mapping, translated, rfl, fun write => ?_⟩
      cases access with
      | write => exact usable.1
      | _ => cases write
    · exact ⟨rfl, g, nofun⟩

theorem Agrees.answers (g : u.Agrees) (lookup : Lookup) (a : GuestAddr) (access : Access) :
    u.Answers a access (translateBy lookup u a access) := by
  have looked := g.answers_translateCached a access
  cases lookup with
  | cached => exact looked
  | walk =>
    rw [translateBy, translate]
    rcases eq : u.translateCached a access with ⟨_ | hit, u₁⟩
    · rw [eq] at looked
      have walked := looked.agrees.answers_walk a access
      exact ⟨walked.memory.trans looked.memory, walked.agrees, looked.memory ▸ walked.hit⟩
    · rw [eq] at looked
      exact looked

/-! ## Accesses -/

/-- The pieces found for an access lie where the map says, and only memory that allows writing is
found for a write. -/
theorem Agrees.pieces (g : u.Agrees) (lookup : Lookup) (a : GuestAddr) (len : Nat)
    (access : Access) :
    (Mmu.pieces lookup u a len access).2.Agrees ∧
      ∀ list, (Mmu.pieces lookup u a len access).1 = some list → Split u.memory a len list ∧
        (access.isWrite = true → ∀ b ∈ starts a len, u.memory.allows b .write = true) := by
  have first := g.answers lookup a access
  rcases eq : translateBy lookup u a access with ⟨_ | hit, u₁⟩
  · rw [eq] at first
    simp only [Mmu.pieces, eq]
    exact ⟨first.agrees, fun list found => by cases found⟩
  · rw [eq] at first
    obtain ⟨mapping, translated, rfl, writable⟩ := first.exists_mapping rfl
    by_cases whole : headLength a len = len
    · simp only [Mmu.pieces, eq, whole, if_true]
      refine ⟨first.agrees, fun list found => ?_⟩
      cases found
      refine ⟨.one whole translated, fun write b mem => ?_⟩
      rcases mem_starts.1 mem with rfl | ⟨straddles, -⟩
      · exact writable write
      · exact absurd whole straddles
    · have second := first.agrees.answers lookup (next a len) access
      rcases eq' : translateBy lookup u₁ (next a len) access with ⟨_ | hit', u₂⟩
      · rw [eq'] at second
        rw [next] at eq'
        simp only [Mmu.pieces, eq, whole, if_false, eq']
        exact ⟨second.agrees, fun list found => by cases found⟩
      · rw [eq'] at second
        obtain ⟨mapping', translated', rfl, writable'⟩ := second.exists_mapping rfl
        rw [first.memory] at translated' writable'
        rw [next] at eq'
        simp only [Mmu.pieces, eq, whole, if_false, eq']
        refine ⟨second.agrees, fun list found => ?_⟩
        cases found
        refine ⟨.two whole translated translated', fun write b mem => ?_⟩
        rcases mem_starts.1 mem with rfl | ⟨-, rfl⟩
        · exact writable write
        · exact writable' write

theorem Agrees.read (g : u.Agrees) (lookup : Lookup) (a : GuestAddr) (len : Nat) :
    (u.read lookup a len).2.Agrees :=
  (g.pieces lookup a len .read).1

/-- A read that goes through returns the bytes of guest memory. -/
theorem Agrees.shows_read (g : u.Agrees) (short : len ≤ pageSize) (pos : 0 < len)
    (got : (u.read lookup a len).1 = some bytes) : bytes.length = len ∧ u.memory.Shows a bytes := by
  have got : (Mmu.pieces lookup u a len .read).1.bind
    (readPieces (Mmu.pieces lookup u a len .read).2.memory) = some bytes := got
  obtain ⟨list, found, read⟩ := Option.bind_eq_some_iff.1 got
  rw [memory_pieces] at read
  exact shows_readPieces g.memory short pos ((g.pieces lookup a len .read).2 list found).1 read

/-- A write changes no bytes but those of its range, and if it goes through it leaves its data
there. -/
theorem Agrees.write (g : u.Agrees) (lookup : Lookup) (a : GuestAddr) (data : List UInt8)
    (short : data.length ≤ pageSize) (pos : 0 < data.length) :
    (u.write lookup a data).2.Agrees ∧
      ModifiesOnly (a.Spans data.length) u.memory (u.write lookup a data).2.memory ∧
      ((u.write lookup a data).1 = true →
        Stored u.memory a data (u.write lookup a data).2.memory) := by
  have found := g.pieces lookup a data.length .write
  have kept := memory_pieces lookup u a data.length .write
  rcases eq : Mmu.pieces lookup u a data.length .write with ⟨_ | list, u'⟩
  · rw [eq] at found kept
    simp only [Mmu.write, eq]
    exact ⟨found.1, kept ▸ .refl _ _, fun done => by cases done⟩
  · rw [eq] at found kept
    obtain ⟨split, writable⟩ := found.2 list rfl
    obtain ⟨modified, stored⟩ := stored_writePieces g.memory short pos (writable rfl) split rfl
    dsimp only at found kept
    simp only [Mmu.write, eq, kept]
    refine ⟨found.1.setMemory ?_, modified, stored⟩
    rw [kept]
    exact modified.toSameFrames

theorem Agrees.firstWalkMiss (g : u.Agrees) (a : GuestAddr) (len : Nat) (access : Access) :
    (u.firstWalkMiss a len access).2.Agrees := by
  have first := (g.answers .walk a access).agrees
  rw [translateBy] at first
  unfold Mmu.firstWalkMiss
  dsimp only
  split
  · rename_i eq
    rw [eq] at first
    exact first
  · rename_i u₁ eq
    rw [eq] at first
    split
    · exact first
    · have second := (first.answers .walk (a + UInt64.ofNat (headLength a len)) access).agrees
      rw [translateBy] at second
      split
      · rename_i eq'
        rw [eq'] at second
        exact second
      · rename_i eq'
        rw [eq'] at second
        exact second

end Mmu

end GuestExec
