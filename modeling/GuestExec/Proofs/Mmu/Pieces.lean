import GuestExec.Proofs.Mmu.Sound

/-!
# Accesses of one or two pages

An access that is no longer than a page touches at most two, and these lie in
different sets of the TLB. `starts` are the addresses at which it is translated.
It succeeds exactly when each of them finds a translation and none of their
pages is guarded (`Accessible`).
-/

namespace GuestExec.Mmu

open Tlb (setIndex)
open MemoryMap (SameFrames SameGuards)

variable {u u' u'' : Mmu} {a b : GuestAddr} {len : Nat} {access : Access} {lookup : Lookup}
  {mapping : Mapping}

/-! ## The two pages -/

/-- Where the second page of an access begins. -/
def next (a : GuestAddr) (len : Nat) : GuestAddr := a + UInt64.ofNat (headLength a len)

/-- Where the pieces of an access begin. -/
def starts (a : GuestAddr) (len : Nat) : List GuestAddr :=
  if headLength a len = len then [a] else [a, next a len]

theorem mem_starts : b ∈ starts a len ↔ b = a ∨ (headLength a len ≠ len ∧ b = next a len) := by
  unfold starts
  split <;> simp_all

theorem fits_head (a : GuestAddr) (len : Nat) :
    a.toNat % pageSize + headLength a len ≤ pageSize := by
  have := Nat.mod_lt a.toNat (show 0 < pageSize by decide)
  rw [headLength, GuestAddr.toNat_pageOffset]
  omega

theorem headLength_of_straddles (h : headLength a len ≠ len) :
    headLength a len = pageSize - a.toNat % pageSize ∧ headLength a len < len := by
  rw [headLength, GuestAddr.toNat_pageOffset] at *
  omega

theorem toNat_next (h : headLength a len ≠ len) :
    (next a len).toNat = (a.toNat + (pageSize - a.toNat % pageSize)) % 0x1_0000_0000_0000_0000 := by
  obtain ⟨eq, -⟩ := headLength_of_straddles h
  have small : headLength a len < 0x1_0000_0000_0000_0000 := by
    have : pageSize < 0x1_0000_0000_0000_0000 := by decide
    omega
  rw [next, GuestAddr.toNat_add, UInt64.toNat_ofNat', Nat.mod_eq_of_lt small, eq]

/-- The second page starts where the first one ends. -/
theorem next_mod (h : headLength a len ≠ len) : (next a len).toNat % pageSize = 0 := by
  rw [toNat_next h]
  simp only [pageSize]
  omega

theorem page_next (h : headLength a len ≠ len) :
    (next a len).page = (a.page + 1) % 0x10_0000_0000_0000 := by
  rw [GuestAddr.page, toNat_next h]
  simp only [GuestAddr.page, pageSize]
  omega

theorem page_next_ne (h : headLength a len ≠ len) : (next a len).page ≠ a.page := by
  have := a.toNat_lt
  rw [page_next h]
  simp only [GuestAddr.page, pageSize]
  omega

theorem setIndex_next_ne (h : headLength a len ≠ len) : setIndex (next a len) ≠ setIndex a := by
  have page := page_next h
  have := a.toNat_lt
  simp only [setIndex, ne_eq, Fin.mk.injEq]
  simp only [GuestAddr.page, pageSize] at *
  omega

theorem fits_rest (h : headLength a len ≠ len) (short : len ≤ pageSize) :
    (next a len).toNat % pageSize + (len - headLength a len) ≤ pageSize := by
  rw [next_mod h]
  omega

/-! ## The bytes of an access -/

/-- The bytes of the head lie on the first page. -/
theorem page_add_of_lt {i : Nat} (inside : i < headLength a len) :
    (a + UInt64.ofNat i).page = a.page := by
  have := a.toNat_lt
  have fits := fits_head a len
  rw [GuestAddr.page, GuestAddr.page, GuestAddr.toNat_add, UInt64.toNat_ofNat']
  simp only [pageSize] at *
  omega

/-- The bytes after the head lie on the second page. -/
theorem page_add_of_le {i : Nat} (straddles : headLength a len ≠ len)
    (beyond : headLength a len ≤ i) (inside : i < len) (short : len ≤ pageSize) :
    (a + UInt64.ofNat i).page = (next a len).page := by
  have := a.toNat_lt
  obtain ⟨eq, -⟩ := headLength_of_straddles straddles
  rw [page_next straddles, GuestAddr.page, GuestAddr.page, GuestAddr.toNat_add,
    UInt64.toNat_ofNat']
  simp only [pageSize] at *
  omega

/-- Every byte lies on the page of a piece that begins no later. -/
theorem exists_start {i : Nat} (inside : i < len) (short : len ≤ pageSize) :
    ∃ j, j ≤ i ∧ a + UInt64.ofNat j ∈ starts a len ∧
      (a + UInt64.ofNat i).page = (a + UInt64.ofNat j).page := by
  by_cases head : i < headLength a len
  · refine ⟨0, Nat.zero_le i, mem_starts.2 (.inl (GuestAddr.add_zero a)), ?_⟩
    rw [GuestAddr.add_zero, page_add_of_lt head]
  · have straddles : headLength a len ≠ len := by omega
    exact ⟨headLength a len, Nat.le_of_not_lt head, mem_starts.2 (.inr ⟨straddles, rfl⟩),
      page_add_of_le straddles (Nat.le_of_not_lt head) inside short⟩

/-- Every piece begins at a byte. -/
theorem exists_byte (pos : 0 < len) (mem : b ∈ starts a len) :
    ∃ i, i < len ∧ b = a + UInt64.ofNat i := by
  rcases mem_starts.1 mem with rfl | ⟨straddles, rfl⟩
  · exact ⟨0, pos, (GuestAddr.add_zero b).symm⟩
  · exact ⟨headLength a len, (headLength_of_straddles straddles).2, rfl⟩

/-! ## What the pieces are -/

/-- The pieces of an access in a map, given what it is translated to. -/
inductive Split (m : MemoryMap) (a : GuestAddr) (len : Nat) : List (HostAddr × Nat) → Prop where
  | one {first : Mapping} (whole : headLength a len = len) (head : m.translate a = some first) :
    Split m a len [(first.hostAddr a, len)]
  | two {first second : Mapping} (straddles : headLength a len ≠ len)
    (head : m.translate a = some first) (rest : m.translate (next a len) = some second) :
    Split m a len [(first.hostAddr a, headLength a len),
      (second.hostAddr (next a len), len - headLength a len)]

/-- Different pieces lie in different sets. -/
theorem setIndex_ne_of_starts {c : GuestAddr} (ha : a ∈ starts c len) (hb : b ∈ starts c len)
    (ne : a ≠ b) : setIndex a ≠ setIndex b := by
  rcases mem_starts.1 ha with rfl | ⟨straddles, rfl⟩ <;>
    rcases mem_starts.1 hb with rfl | ⟨straddles', rfl⟩
  · exact absurd rfl ne
  · exact Ne.symm (setIndex_next_ne straddles')
  · exact setIndex_next_ne straddles
  · exact absurd rfl ne

/-- `u'` finds the same pieces of the access as `u`, and has the same guards. -/
structure SameFinds (u : Mmu) (a : GuestAddr) (len : Nat) (access : Access) (u' : Mmu) : Prop where
  memory : SameGuards u.memory u'.memory
  sound : u'.Sound
  finds : ∀ b ∈ starts a len, u'.Finds .walk b access ↔ u.Finds .walk b access

theorem SameFinds.trans (h : u.SameFinds a len access u') (h' : u'.SameFinds a len access u'') :
    u.SameFinds a len access u'' :=
  ⟨h.memory.trans h'.memory, h'.sound, fun b mem => (h'.finds b mem).trans (h.finds b mem)⟩

theorem SameAnswers.sameFinds (s : u.Sound) (h : u.SameAnswers u') (a : GuestAddr) (len : Nat)
    (access : Access) : u.SameFinds a len access u' :=
  ⟨h.memory, h.sound, fun _ _ => h.finds s⟩

theorem Finds.allows_write (h : u.Finds lookup a .write) : u.memory.allows a .write = true := by
  rcases h with serves | ⟨-, usable⟩
  · exact serves.2 rfl
  · exact MemoryMap.allows_of_usable usable

theorem Finds.walk (h : u.Finds lookup a access) : u.Finds .walk a access :=
  h.imp id fun h => ⟨rfl, h.2⟩

/-- What was found stays found, and the other sets are as they were. -/
theorem Found.sameFinds (h : u.Found b u') (finds : u.Finds lookup b access)
    (mem : b ∈ starts a len) : u.SameFinds a len access u' := by
  refine ⟨h.memory ▸ .refl _, h.sound, fun d mem' => ?_⟩
  by_cases same : d = b
  · rw [same]
    refine iff_of_true (.inl ⟨h.here, fun write => ?_⟩) finds.walk
    rw [h.memory]
    cases access with
    | write => exact finds.allows_write
    | _ => cases write
  · rw [Finds, Finds, Serves, Serves, h.holds d (setIndex_ne_of_starts mem' mem same), h.memory]

theorem Found.finds_next (h : u.Found a u') (straddles : headLength a len ≠ len) :
    u'.Finds lookup (next a len) access ↔ u.Finds lookup (next a len) access := by
  rw [Finds, Finds, Serves, Serves, h.holds _ (setIndex_next_ne straddles), h.memory]

/-- Either every piece finds its translation, or some piece does not and nothing is returned. -/
theorem Sound.pieces_cases (s : u.Sound) (lookup : Lookup) (a : GuestAddr) (len : Nat)
    (access : Access) :
    ((∀ b ∈ starts a len, u.Finds lookup b access) ∧ ∃ list u', Split u.memory a len list ∧
        u'.memory = u.memory ∧ u.SameFinds a len access u' ∧
        Mmu.pieces lookup u a len access = (some list, u')) ∨
      ((¬∀ b ∈ starts a len, u.Finds lookup b access) ∧ ∃ u',
        u.SameFinds a len access u' ∧ Mmu.pieces lookup u a len access = (none, u')) := by
  rcases s.translateBy_cases lookup a access with
    ⟨finds, first, u₁, head, found, eq⟩ | ⟨missed, u₁, same, eq⟩
  · have same : u.SameFinds a len access u₁ := found.sameFinds finds (mem_starts.2 (.inl rfl))
    by_cases whole : headLength a len = len
    · refine .inl ⟨fun b mem => ?_, _, u₁, .one whole head, found.memory, same, ?_⟩
      · rcases mem_starts.1 mem with rfl | ⟨straddles, -⟩
        · exact finds
        · exact absurd whole straddles
      · simp only [Mmu.pieces, eq, whole, if_true]
        rfl
    · rcases found.sound.translateBy_cases lookup (next a len) access with
        ⟨finds', second, u₂, rest, found', eq'⟩ | ⟨missed', u₂, same', eq'⟩
      · have same' := found'.sameFinds finds' (mem_starts.2 (.inr ⟨whole, rfl⟩))
        rw [found.memory] at rest
        refine .inl ⟨fun b mem => ?_, _, u₂, .two whole head rest,
          found'.memory.trans found.memory, same.trans same', ?_⟩
        · rcases mem_starts.1 mem with rfl | ⟨-, rfl⟩
          · exact finds
          · exact (found.finds_next whole).1 finds'
        · rw [next] at eq'
          simp only [Mmu.pieces, eq, whole, if_false, eq']
          rfl
      · refine .inr ⟨fun all => missed' ?_, u₂,
          same.trans (same'.sameFinds found.sound a len access), ?_⟩
        · exact (found.finds_next whole).2 (all _ (mem_starts.2 (.inr ⟨whole, rfl⟩)))
        · rw [next] at eq'
          simp only [Mmu.pieces, eq, whole, if_false, eq']
  · refine .inr ⟨fun all => missed (all a (mem_starts.2 (.inl rfl))), u₁,
      same.sameFinds s a len access, ?_⟩
    simp only [Mmu.pieces, eq]

/-! ## Reading and writing pieces -/

/-- The access at `a` finds its translation, and its page is not guarded. -/
def Ready (lookup : Lookup) (u : Mmu) (a : GuestAddr) (access : Access) : Prop :=
  u.Finds lookup a access ∧ u.memory.isGuarded a = false

/-- Every piece of the access is ready. -/
def Accessible (lookup : Lookup) (u : Mmu) (a : GuestAddr) (len : Nat) (access : Access) : Prop :=
  ∀ b ∈ starts a len, u.Ready lookup b access

theorem SameAnswers.ready_iff (s : u.Sound) (h : u.SameAnswers u') :
    u'.Ready lookup a access ↔ u.Ready lookup a access := by
  rw [Ready, Ready, h.finds s, h.memory.guards]

theorem SameFinds.ready_iff (h : u.SameFinds a len access u') (mem : b ∈ starts a len) :
    u'.Ready .walk b access ↔ u.Ready .walk b access := by
  rw [Ready, Ready, h.finds b mem, h.memory.guards]

theorem readPieces_cons {m : MemoryMap} (w : m.Regular)
    (translated : m.translate a = some mapping) {n : Nat}
    (fits : a.toNat % pageSize + n ≤ pageSize) (pos : n ≠ 0) (rest : List (HostAddr × Nat)) :
    (readPieces m ((mapping.hostAddr a, n) :: rest)).isSome =
      (!m.isGuarded a && (readPieces m rest).isSome) := by
  obtain ⟨r, found, rfl⟩ := MemoryMap.translate_eq_some_iff.1 translated
  rw [readPieces, if_neg pos, w.readHost_page found fits]
  cases m.isGuarded a <;> simp

theorem readPieces_isSome {m : MemoryMap} (w : m.Regular) (short : len ≤ pageSize)
    (pos : len ≠ 0) {list : List (HostAddr × Nat)} (split : Split m a len list) :
    (readPieces m list).isSome = true ↔ ∀ b ∈ starts a len, m.isGuarded b = false := by
  cases split with
  | one whole head =>
    have fits := fits_head a len
    rw [whole] at fits
    rw [readPieces_cons w head fits pos, starts, if_pos whole]
    simp [readPieces]
  | two straddles head rest =>
    have lt := (headLength_of_straddles straddles).2
    have fits := fits_head a len
    have first : headLength a len ≠ 0 := by
      have := Nat.mod_lt a.toNat (show 0 < pageSize by decide)
      have := (headLength_of_straddles straddles).1
      omega
    rw [readPieces_cons w head fits first,
      readPieces_cons w rest (fits_rest straddles short) (by omega), starts, if_neg straddles]
    simp [readPieces]

/-- The first piece is written unless its page is guarded. -/
theorem writePieces_cons {m : MemoryMap} (w : m.Regular)
    (translated : m.translate a = some mapping) (writable : m.allows a .write = true)
    (data : List UInt8) {n : Nat} (fits : a.toNat % pageSize + n ≤ pageSize) (pos : n ≠ 0)
    (rest : List (HostAddr × Nat)) :
    (m.isGuarded a = true ∧ writePieces m data ((mapping.hostAddr a, n) :: rest) = (false, m)) ∨
      (m.isGuarded a = false ∧ ∃ m', m.writeHost (mapping.hostAddr a) (data.take n) = .ok m' ∧
        writePieces m data ((mapping.hostAddr a, n) :: rest) =
          writePieces m' (data.drop n) rest) := by
  obtain ⟨r, found, rfl⟩ := MemoryMap.translate_eq_some_iff.1 translated
  have room : a.toNat % pageSize + (data.take n).length ≤ pageSize := by
    have := List.length_take_le n data
    omega
  rw [writePieces, if_neg pos]
  rcases w.writeHost_page found ((MemoryMap.allows_of_find found).symm.trans writable) room with
    ⟨guarded, e, refused⟩ | ⟨free, m', written⟩
  · exact .inl ⟨guarded, by rw [refused]⟩
  · exact .inr ⟨free, m', written, by rw [written]⟩

theorem writePieces_eq_true {m : MemoryMap} (w : m.Regular) (short : len ≤ pageSize)
    (pos : len ≠ 0) (writable : ∀ b ∈ starts a len, m.allows b .write = true)
    {list : List (HostAddr × Nat)} (split : Split m a len list) (data : List UInt8) :
    (writePieces m data list).1 = true ↔ ∀ b ∈ starts a len, m.isGuarded b = false := by
  have onHead := writable a (mem_starts.2 (.inl rfl))
  cases split with
  | one whole head =>
    have fits := fits_head a len
    rw [whole] at fits
    rw [starts, if_pos whole]
    rcases writePieces_cons w head onHead data fits pos [] with
      ⟨guarded, refused⟩ | ⟨free, m', -, written⟩
    · simp [guarded, refused]
    · rw [written]
      simp [free, writePieces]
  | @two first second straddles head rest =>
    have lt := (headLength_of_straddles straddles).2
    have fits := fits_head a len
    have full : headLength a len ≠ 0 := by
      have := Nat.mod_lt a.toNat (show 0 < pageSize by decide)
      have := (headLength_of_straddles straddles).1
      omega
    have onRest := writable _ (mem_starts.2 (.inr ⟨straddles, rfl⟩))
    rw [starts, if_neg straddles]
    rcases writePieces_cons w head onHead data fits full
      [(second.hostAddr (next a len), len - headLength a len)] with
      ⟨guarded, refused⟩ | ⟨free, m', stored, written⟩
    · simp [guarded, refused]
    · rw [written]
      have same := w.sameGuards_writeHost stored
      have frames := same.toSameFrames
      rw [← frames.translate w] at rest
      rw [← frames.allows w] at onRest
      rcases writePieces_cons (frames.regular w) rest
        onRest (data.drop (headLength a len)) (fits_rest straddles short) (by omega) [] with
        ⟨guarded, refused⟩ | ⟨free', m'', -, written'⟩
      · rw [same.guards] at guarded
        simp [guarded, refused]
      · rw [same.guards] at free'
        rw [written']
        simp [free, free', writePieces]

/-! ## Accesses -/

/-- A read succeeds exactly when all its pieces are ready. -/
theorem Sound.read_isSome (s : u.Sound) (lookup : Lookup) (a : GuestAddr) (len : Nat)
    (short : len ≤ pageSize) (pos : len ≠ 0) :
    (u.read lookup a len).1.isSome = true ↔ u.Accessible lookup a len .read := by
  rcases s.pieces_cases lookup a len .read with
    ⟨finds, list, u', split, memory, -, eq⟩ | ⟨missed, u', -, eq⟩
  · have done := readPieces_isSome s.memory short pos split
    simp only [Mmu.read, eq, Option.bind_some, memory, done]
    exact ⟨fun free b mem => ⟨finds b mem, free b mem⟩, fun h b mem => (h b mem).2⟩
  · simp only [Mmu.read, eq, Option.bind_none, Option.isSome_none, Bool.false_eq_true, false_iff]
    exact fun h => missed fun b mem => (h b mem).1

theorem Sound.sameFinds_read (s : u.Sound) (lookup : Lookup) (a : GuestAddr) (len : Nat) :
    u.SameFinds a len .read (u.read lookup a len).2 := by
  rcases s.pieces_cases lookup a len .read with ⟨-, list, u', -, -, same, eq⟩ | ⟨-, u', same, eq⟩
  · simpa only [Mmu.read, eq] using same
  · simpa only [Mmu.read, eq] using same

/-- A write succeeds exactly when all its pieces are ready. -/
theorem Sound.write_eq_true (s : u.Sound) (lookup : Lookup) (a : GuestAddr) (data : List UInt8)
    (short : data.length ≤ pageSize) (pos : data.length ≠ 0) :
    (u.write lookup a data).1 = true ↔ u.Accessible lookup a data.length .write := by
  rcases s.pieces_cases lookup a data.length .write with
    ⟨finds, list, u', split, memory, -, eq⟩ | ⟨missed, u', -, eq⟩
  · have done := writePieces_eq_true s.memory short pos
      (fun b mem => (finds b mem).allows_write)
      split data
    simp only [Mmu.write, eq, memory, done]
    exact ⟨fun free b mem => ⟨finds b mem, free b mem⟩, fun h b mem => (h b mem).2⟩
  · simp only [Mmu.write, eq, Bool.false_eq_true, false_iff]
    exact fun h => missed fun b mem => (h b mem).1

theorem Sound.sameFinds_write (s : u.Sound) (lookup : Lookup) (a : GuestAddr)
    (data : List UInt8) : u.SameFinds a data.length .write (u.write lookup a data).2 := by
  rcases s.pieces_cases lookup a data.length .write with
    ⟨-, list, u', -, -, same, eq⟩ | ⟨-, u', same, eq⟩
  · have kept := sameGuards_writePieces same.sound.memory data list
    have set := same.sound.setContents kept
    simpa only [Mmu.write, eq] using same.trans (set.sameFinds same.sound a data.length .write)
  · simpa only [Mmu.write, eq] using same

/-! ## Accesses through the TLB alone -/

/-- The TLB alone translates the access at `a`. -/
def served (u : Mmu) (a : GuestAddr) (access : Access) : Bool :=
  (u.translateCached a access).1.isSome

theorem Sound.serves_iff (s : u.Sound) : u.Serves a access ↔ u.served a access = true := by
  unfold served
  rcases s.translateCached_cases a access with ⟨serves, mapping, -, hit⟩ | ⟨free, missed⟩
  · simp [serves, hit]
  · simp [free, missed]

theorem Sound.serves_page (s : u.Sound) (same : b.page = a.page) :
    u.Serves b access ↔ u.Serves a access := by
  rw [Serves, Serves, s.memory.allows_page same]
  exact and_congr_left' ⟨s.tlb.holds_page same.symm, s.tlb.holds_page same⟩

/-- A search finds all of a page or nothing of it. -/
theorem Sound.finds_page (s : u.Sound) (same : b.page = a.page) :
    u.Finds lookup b access ↔ u.Finds lookup a access := by
  rw [Finds, Finds, s.serves_page same, MemoryMap.usable, MemoryMap.usable,
    s.memory.allows_page same, s.memory.isGuarded_page same]

theorem Sound.served_page (s : u.Sound) (same : b.page = a.page) :
    u.served b access = u.served a access := by
  rw [Bool.eq_iff_iff, ← s.serves_iff, ← s.serves_iff, s.serves_page same]

theorem finds_cached : u.Finds .cached a access ↔ u.Serves a access := by
  simp [Finds]

theorem Sound.sameAnswers_pieces (s : u.Sound) (a : GuestAddr) (len : Nat) (access : Access) :
    u.SameAnswers (Mmu.pieces .cached u a len access).2 := by
  have first := s.translateCached a access
  rw [Mmu.pieces, Mmu.translateBy]
  split
  · rename_i eq
    rw [eq] at first
    exact first
  · rename_i hit u₁ eq
    rw [eq] at first
    split
    · exact first
    · have second := first.sound.translateCached (a + UInt64.ofNat (headLength a len)) access
      rw [Mmu.translateBy]
      split
      · rename_i eq
        rw [eq] at second
        exact first.trans second
      · rename_i eq
        rw [eq] at second
        exact first.trans second

theorem Sound.sameAnswers_read (s : u.Sound) (a : GuestAddr) (len : Nat) :
    u.SameAnswers (u.read .cached a len).2 :=
  s.sameAnswers_pieces a len .read

theorem Sound.sameAnswers_write (s : u.Sound) (a : GuestAddr) (data : List UInt8) :
    u.SameAnswers (u.write .cached a data).2 := by
  have found := s.sameAnswers_pieces a data.length .write
  rw [Mmu.write]
  split
  · rename_i eq
    rw [eq] at found
    exact found
  · rename_i list u' eq
    rw [eq] at found
    exact found.trans
      (found.sound.setContents (sameGuards_writePieces found.sound.memory data list))

/-- An access that the TLB could not make is blamed on `miss`. -/
def Blames (u : Mmu) (a : GuestAddr) (len : Nat) (access : Access) (miss : GuestAddr) : Prop :=
  ((headLength a len = len ∨ ¬u.Serves a access) ∧ miss = a) ∨
    (headLength a len ≠ len ∧ u.Serves a access ∧ miss = next a len)

theorem Sound.blames_firstCachedMiss (s : u.Sound) (a : GuestAddr) (len : Nat) (access : Access) :
    u.Blames a len access (u.firstCachedMiss a len access).1 := by
  rw [Mmu.firstCachedMiss]
  split
  · rename_i whole
    exact .inl ⟨.inl whole, rfl⟩
  · rename_i straddles
    rcases s.translateCached_cases a access with ⟨serves, mapping, -, hit⟩ | ⟨free, missed⟩
    · split
      · rename_i eq
        rw [eq] at hit
        cases hit
      · exact .inr ⟨straddles, serves, rfl⟩
    · split
      · exact .inl ⟨.inr free, rfl⟩
      · rename_i eq
        rw [eq] at missed
        cases missed

theorem SameAnswers.blames (h : u.SameAnswers u') (s : u.Sound) {miss : GuestAddr} :
    u'.Blames a len access miss ↔ u.Blames a len access miss := by
  rw [Blames, Blames, h.serves s]

end GuestExec.Mmu
