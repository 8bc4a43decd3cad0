import GuestExec.Proofs.Memory.Identity
import GuestExec.Proofs.Native.Code

/-!
# Code with breakpoints in it

A memory with breakpoints is `Overlaid` on the plain one: the same but for the
words at the breakpoints' addresses. Writing one word moves between overlays,
whether a breakpoint comes or the code behind it comes back; a write to both
memories that meets no breakpoint keeps them one over the other.
-/

namespace GuestExec.Native

open MemoryMap (SameFrames)

variable {plain m : MemoryMap} {live live' : List Breakpoint} {r r₀ : Region} {host : HostAddr}
  {b : Breakpoint} {n offset : Nat} {word : UInt32}

/-! ## Plain memory -/

/-- An identity-mapped memory on a host that has all its pages. -/
structure CodeMemory (m : MemoryMap) : Prop where
  wellFormed : m.WellFormed
  inPlace : ∀ {k r}, m.regions.get? k = some r → r.backing.base.toNat = r.base.toNat
  /-- Pages without a guard are protected as their regions say. -/
  shielded : ∀ {k r}, m.regions.get? k = some r → ∀ page < r.backing.pageCount,
    r.backing.guarded.contains page = false → r.backing.protection.get page = r.perms

theorem codeMemory_after {calls : List MemoryMap.Call}
    (identity : ∀ r ∈ (MemoryMap.after calls).regions.values, r.backing.isIdentity = true)
    (whole : ∀ r ∈ (MemoryMap.after calls).regions.values, r.backing.missing = .empty) :
    CodeMemory (MemoryMap.after calls) where
  wellFormed := ⟨MemoryMap.regular_after calls, fun found =>
    whole _ (AddressTable.mem_values.2 ⟨_, found⟩)⟩
  inPlace found := MemoryMap.inPlace_after calls found
    (identity _ (AddressTable.mem_values.2 ⟨_, found⟩))
  shielded found := MemoryMap.shielded_after calls found
    (identity _ (AddressTable.mem_values.2 ⟨_, found⟩))
    (whole _ (AddressTable.mem_values.2 ⟨_, found⟩))

/-- Blocks start and end between words. -/
theorem CodeMemory.aligned (c : CodeMemory m) {k : Nat} (found : m.regions.get? k = some r) :
    r.backing.base.toNat % 4 = 0 ∧ r.size % 4 = 0 := by
  have regular := c.wellFormed.regular found
  have base := regular.base
  have size := regular.size
  rw [c.inPlace found]
  simp only [pageSize] at base size
  omega

/-! ## Overlays -/

/-- The byte that a breakpoint has at the host address `n`. -/
def brkByte (n : Nat) : UInt8 := (toLeBytes 4 (brk stepImm).toNat).getD (n % 4) 0

/-- The host address `n` lies in the word of a breakpoint. -/
def Patched (live : List Breakpoint) (n : Nat) : Prop := ∃ b ∈ live, b.host.toNat = n / 4 * 4

/-- The region `r'` is `r` with breakpoints in it. -/
structure OverlaidRegion (live : List Breakpoint) (r r' : Region) : Prop where
  guarded : r'.backing.guarded = r.backing.guarded
  protection : ∀ page, r'.backing.protection.get page = r.backing.protection.get page
  patched : ∀ o < r.size, Patched live (r.backing.base.toNat + o) →
    r'.backing.bytes.get o = brkByte (r.backing.base.toNat + o)
  unpatched : ∀ o < r.size, ¬Patched live (r.backing.base.toNat + o) →
    r'.backing.bytes.get o = r.backing.bytes.get o

/-- The memory `m` is `plain` with breakpoints in it. -/
structure Overlaid (live : List Breakpoint) (plain m : MemoryMap) : Prop
    extends SameFrames plain m where
  overlaid : ∀ {k r r'}, plain.regions.get? k = some r → m.regions.get? k = some r' →
    OverlaidRegion live r r'

theorem patched_concat : Patched (live ++ [b]) n ↔ Patched live n ∨ b.host.toNat = n / 4 * 4 := by
  simp only [Patched, List.mem_append, List.mem_singleton, or_and_right, exists_or, exists_eq_left]

theorem patched_erase (held : b ∈ live) :
    Patched live n ↔ Patched (live.erase b) n ∨ b.host.toNat = n / 4 * 4 := by
  simp only [Patched, (List.perm_cons_erase held).mem_iff, List.mem_cons, or_and_right, exists_or,
    exists_eq_left]
  exact or_comm

theorem overlaid_self (m : MemoryMap) : Overlaid [] m m := by
  refine ⟨.refl m, fun found found' => ?_⟩
  rw [found] at found'
  cases found'
  exact ⟨rfl, fun _ => rfl, nofun, fun _ _ _ => rfl⟩

namespace OverlaidRegion

/-- Only the breakpoints within the region matter to it. -/
theorem congr (h : OverlaidRegion live r₀ r)
    (same : ∀ o < r₀.size, (Patched live' (r₀.backing.base.toNat + o) ↔
      Patched live (r₀.backing.base.toNat + o))) : OverlaidRegion live' r₀ r where
  guarded := h.guarded
  protection := h.protection
  patched o inside p := h.patched o inside ((same o inside).1 p)
  unpatched o inside p := h.unpatched o inside fun q => p ((same o inside).2 q)

/-- Another word in one place of the region with breakpoints. -/
theorem withCode (h : OverlaidRegion live r₀ r) (base : r₀.backing.base.toNat % 4 = 0)
    (aligned : offset % 4 = 0)
    (shielded : r₀.backing.protection.get (offset / pageSize) = r₀.perms)
    (elsewhere : ∀ n, n / 4 * 4 ≠ r₀.backing.base.toNat + offset →
      (Patched live' n ↔ Patched live n))
    (patched : Patched live' (r₀.backing.base.toNat + offset) →
      ∀ i < 4, (toLeBytes 4 word.toNat).getD i 0 = brkByte i)
    (unpatched : ¬Patched live' (r₀.backing.base.toNat + offset) →
      ∀ i < 4, (toLeBytes 4 word.toNat).getD i 0 = r₀.backing.bytes.get (offset + i)) :
    OverlaidRegion live' r₀ (r.withCode offset word r₀.perms) := by
  -- The bytes of the word are patched together, and the others as before.
  have together : ∀ o, offset ≤ o ∧ o < offset + 4 →
      (Patched live' (r₀.backing.base.toNat + o) ↔
        Patched live' (r₀.backing.base.toNat + offset)) := by
    intro o range
    have : (r₀.backing.base.toNat + o) / 4 * 4 = (r₀.backing.base.toNat + offset) / 4 * 4 := by
      omega
    rw [Patched, Patched, this]
  have others : ∀ o, ¬(offset ≤ o ∧ o < offset + 4) →
      (Patched live' (r₀.backing.base.toNat + o) ↔ Patched live (r₀.backing.base.toNat + o)) :=
    fun o outside => elsewhere _ (by omega)
  constructor
  · rw [Region.guarded_withCode]
    exact h.guarded
  · intro page
    rw [Region.protection_withCode, PageMap.get_assign]
    split
    · rename_i range
      rw [show page = offset / pageSize by omega, shielded]
    · exact h.protection page
  · intro o inside p
    rw [Region.get_withCode]
    split
    · rename_i range
      rw [patched ((together o range).1 p) _ (by omega), brkByte, brkByte]
      congr 1
      omega
    · rename_i outside
      exact h.patched o inside ((others o outside).1 p)
  · intro o inside p
    rw [Region.get_withCode]
    split
    · rename_i range
      rw [unpatched (fun q => p ((together o range).2 q)) _ (by omega),
        Nat.add_sub_cancel' range.1]
    · rename_i outside
      exact h.unpatched o inside fun q => p ((others o outside).2 q)

end OverlaidRegion

namespace Overlaid

theorem congr (h : Overlaid live plain m) (same : ∀ n, Patched live' n ↔ Patched live n) :
    Overlaid live' plain m :=
  ⟨h.toSameFrames, fun found found' => (h.overlaid found found').congr fun _ _ => same _⟩

/-- Another word in one place of the memory with breakpoints. -/
theorem withCode (h : Overlaid live plain m) (c : CodeMemory plain)
    (found₀ : plain.regions.get? r.base.toNat = some r₀)
    (found : m.regions.get? r.base.toNat = some r) (inside : offset < r₀.size)
    (aligned : offset % 4 = 0)
    (free : r₀.backing.guarded.contains (offset / pageSize) = false)
    (elsewhere : ∀ n, n / 4 * 4 ≠ r₀.backing.base.toNat + offset →
      (Patched live' n ↔ Patched live n))
    (patched : Patched live' (r₀.backing.base.toNat + offset) →
      ∀ i < 4, (toLeBytes 4 word.toNat).getD i 0 = brkByte i)
    (unpatched : ¬Patched live' (r₀.backing.base.toNat + offset) →
      ∀ i < 4, (toLeBytes 4 word.toNat).getD i 0 = r₀.backing.bytes.get (offset + i)) :
    Overlaid live' plain (m.setRegion (r.withCode offset word r₀.perms)) := by
  refine ⟨h.toSameFrames.trans (MemoryMap.sameFrames_setRegion found (r.frame_withCode _ _ _)),
    fun {k x x'} there there' => ?_⟩
  rw [MemoryMap.get?_setRegion, Region.base_withCode] at there'
  split at there'
  · rename_i same
    cases there'
    rw [same, found₀] at there
    cases there
    have count : offset / pageSize < r₀.backing.pageCount := by
      rw [Region.size] at inside
      simp only [Backing.pageCount, pageSize]
      omega
    exact (h.overlaid found₀ found).withCode (c.aligned found₀).1 aligned
      (c.shielded found₀ _ count free) elsewhere patched unpatched
  · rename_i other
    -- The word lies in another block.
    have apart := c.wellFormed.hostApart there found₀ other
    obtain ⟨base, size⟩ := c.aligned there
    exact (h.overlaid there there').congr fun o inRegion => elsewhere _ (by omega)

/-- Blocks are found in both memories alike. -/
theorem findHost (h : Overlaid live plain m) (c : CodeMemory plain)
    (found : plain.findHost host = some r₀) :
    ∃ r, m.findHost host = some r ∧ r.frame = r₀.frame ∧ OverlaidRegion live r₀ r := by
  obtain ⟨r, found', frame⟩ := h.toSameFrames.findHost_frame c.wellFormed.toRegular found
  have there := (c.wellFormed.findHost_iff.1 found).1
  have here := ((h.toSameFrames.wellFormed c.wellFormed).findHost_iff.1 found').1
  rw [show r.base = r₀.base from congrArg Region.Frame.base frame] at here
  exact ⟨r, found', frame, h.overlaid there here⟩

end Overlaid

/-! ## Code words -/

theorem codeWord_of_findHost (found : m.findHost host = some r) :
    codeWord m host =
      UInt32.ofNat (ofLeBytes (r.backing.bytes.read (host.toNat - r.backing.base.toNat) 4)) := by
  rw [codeWord, found]

theorem read_four (bytes : ByteStore) (offset : Nat) : bytes.read offset 4 =
    [bytes.get offset, bytes.get (offset + 1), bytes.get (offset + 2), bytes.get (offset + 3)] :=
  rfl

/-- The bytes of a code word are those it was read from. -/
theorem getD_codeWord (found : m.findHost host = some r) {i : Nat} (inside : i < 4) :
    (toLeBytes 4 (codeWord m host).toNat).getD i 0 =
      r.backing.bytes.get (host.toNat - r.backing.base.toNat + i) := by
  rw [codeWord_of_findHost found]
  generalize host.toNat - r.backing.base.toNat = offset
  have count : (r.backing.bytes.read offset 4).length = 4 := rfl
  have small := ofLeBytes_lt (r.backing.bytes.read offset 4)
  have back := toLeBytes_ofLeBytes (r.backing.bytes.read offset 4)
  rw [count] at small back
  rw [UInt32.toNat_ofNat', Nat.mod_eq_of_lt small, back, read_four]
  match i, inside with
  | 0, _ => rfl
  | 1, _ => rfl
  | 2, _ => rfl
  | 3, _ => rfl

theorem codeWord_eq (found : m.findHost host = some r)
    (bytes : ∀ i < 4, r.backing.bytes.get (host.toNat - r.backing.base.toNat + i) =
      (toLeBytes 4 word.toNat).getD i 0) : codeWord m host = word := by
  have read : r.backing.bytes.read (host.toNat - r.backing.base.toNat) 4 =
      toLeBytes 4 word.toNat := by
    rw [read_four, bytes 1 (by omega), bytes 2 (by omega), bytes 3 (by omega),
      show r.backing.bytes.get (host.toNat - r.backing.base.toNat) = _ from bytes 0 (by omega)]
    rfl
  have small : word.toNat < Nat.pow 256 4 := word.toNat_lt
  rw [codeWord_of_findHost found, read, ofLeBytes_toLeBytes, Nat.mod_eq_of_lt small,
    UInt32.ofNat_toNat]

theorem getD_brk {i : Nat} (inside : i < 4) :
    (toLeBytes 4 (brk stepImm).toNat).getD i 0 = brkByte i := by
  rw [brkByte, Nat.mod_eq_of_lt inside]

/-- The bytes of an aligned word are those of a breakpoint if one is at its address. -/
theorem patched_iff (aligned : host.toNat % 4 = 0) {i : Nat} (inside : i < 4) :
    Patched live (host.toNat + i) ↔ ∃ b ∈ live, b.host = host := by
  have word : (host.toNat + i) / 4 * 4 = host.toNat := by omega
  rw [Patched, word]
  exact exists_congr fun b => and_congr_right fun _ => ⟨HostAddr.ext_toNat, congrArg _⟩

namespace Overlaid

/-- The bytes of an aligned word, in both memories. -/
theorem exists_bytes (h : Overlaid live plain m) (c : CodeMemory plain)
    (aligned : host.toNat % 4 = 0) (found : plain.findHost host = some r₀) :
    ∃ r, m.findHost host = some r ∧ ∀ i < 4,
      ((∃ b ∈ live, b.host = host) →
        r.backing.bytes.get (host.toNat - r.backing.base.toNat + i) = brkByte i) ∧
      ((¬∃ b ∈ live, b.host = host) →
        r.backing.bytes.get (host.toNat - r.backing.base.toNat + i) =
          r₀.backing.bytes.get (host.toNat - r₀.backing.base.toNat + i)) := by
  obtain ⟨r, found', frame, region⟩ := h.findHost c found
  obtain ⟨there, lo, hi⟩ := c.wellFormed.findHost_iff.1 found
  obtain ⟨base, size⟩ := c.aligned there
  injection frame with _ _ hostBase
  refine ⟨r, found', fun i inside => ?_⟩
  have place : r₀.backing.base.toNat + (host.toNat - r₀.backing.base.toNat + i) =
      host.toNat + i := by omega
  have inRegion : host.toNat - r₀.backing.base.toNat + i < r₀.size := by omega
  have patched := region.patched _ inRegion
  have unpatched := region.unpatched _ inRegion
  rw [place, patched_iff aligned inside] at patched unpatched
  rw [hostBase]
  refine ⟨fun held => (patched held).trans ?_, unpatched⟩
  rw [brkByte, brkByte]
  congr 1
  omega

/-- A word without a breakpoint is the one of the plain memory. -/
theorem codeWord_free (h : Overlaid live plain m) (c : CodeMemory plain)
    (aligned : host.toNat % 4 = 0) (free : ¬∃ b ∈ live, b.host = host) :
    codeWord m host = codeWord plain host := by
  cases found : plain.findHost host with
  | none =>
    rw [codeWord, codeWord, h.toSameFrames.findHost_eq_none c.wellFormed.toRegular found, found]
  | some r₀ =>
    obtain ⟨r, found', bytes⟩ := h.exists_bytes c aligned found
    exact codeWord_eq found' fun i inside =>
      ((bytes i inside).2 free).trans (getD_codeWord found inside).symm

end Overlaid

/-! ## Writes -/

/-- A write of `data` at `host` meets no word with a breakpoint. -/
def Spares (live : List Breakpoint) (host : HostAddr) (data : List UInt8) : Prop :=
  ∀ b ∈ live, host.toNat + data.length ≤ b.host.toNat ∨ b.host.toNat + 4 ≤ host.toNat

instance (live : List Breakpoint) (host : HostAddr) (data : List UInt8) :
    Decidable (Spares live host data) :=
  inferInstanceAs (Decidable (∀ b ∈ live, _))

theorem Spares.not_patched {data : List UInt8} (s : Spares live host data) (lo : host.toNat ≤ n)
    (hi : n < host.toNat + data.length) : ¬Patched live n := by
  rintro ⟨b, mem, word⟩
  rcases s b mem with h | h <;> omega

theorem get_written (r : Region) (host : HostAddr) (data : List UInt8) (o : Nat) :
    (r.written host data).backing.bytes.get o =
      if host.toNat - r.backing.base.toNat ≤ o ∧
          o < host.toNat - r.backing.base.toNat + data.length then
        data.getD (o - (host.toNat - r.backing.base.toNat)) 0
      else r.backing.bytes.get o :=
  ByteStore.get_write _ _ _ _

theorem OverlaidRegion.written {data : List UInt8} (h : OverlaidRegion live r₀ r)
    (frame : r.frame = r₀.frame) (lo : r₀.backing.base.toNat ≤ host.toNat)
    (spares : Spares live host data) :
    OverlaidRegion live (r₀.written host data) (r.written host data) := by
  have base : r.backing.base = r₀.backing.base := congrArg Region.Frame.hostBase frame
  refine ⟨h.guarded, h.protection, fun o inside p => ?_, fun o inside p => ?_⟩
  · rw [get_written, base, if_neg]
    · exact h.patched o inside p
    · intro range
      rw [show (r₀.written host data).backing.base = r₀.backing.base from rfl] at p
      exact spares.not_patched (by omega) (by omega) p
  · rw [get_written, get_written, base]
    split
    · rfl
    · exact h.unpatched o inside p

/-- What a write to both memories comes to. -/
theorem Overlaid.writeHost_cases (h : Overlaid live plain m) (c : CodeMemory plain)
    (host : HostAddr) (data : List UInt8) :
    (plain.apply (.writeHost host data) = plain ∧ m.apply (.writeHost host data) = m) ∨
    ∃ r₀ r, plain.findHost host = some r₀ ∧ m.findHost host = some r ∧ r.frame = r₀.frame ∧
      OverlaidRegion live r₀ r ∧
      plain.apply (.writeHost host data) = plain.setRegion (r₀.written host data) ∧
      m.apply (.writeHost host data) = m.setRegion (r.written host data) := by
  have same := h.toSameFrames
  have wellFormed := same.wellFormed c.wellFormed
  rw [MemoryMap.apply, MemoryMap.apply]
  cases written : plain.writeHost host data with
  | ok plain' =>
    obtain ⟨r₀, found₀, admits, rfl⟩ := MemoryMap.writeHost_eq_ok_iff.1 written
    obtain ⟨r, found, frame, region⟩ := h.findHost c found₀
    have written' := MemoryMap.writeHost_eq_ok_iff.2
      ⟨r, found, admits.congr frame region.guarded, rfl⟩
    rw [written']
    exact .inr ⟨r₀, r, found₀, found, frame, region, rfl, rfl⟩
  | error e =>
    cases written' : m.writeHost host data with
    | error e' => exact .inl ⟨rfl, rfl⟩
    | ok m' =>
      obtain ⟨r, found, admits, rfl⟩ := MemoryMap.writeHost_eq_ok_iff.1 written'
      obtain ⟨r₀, found₀, frame⟩ := same.symm.findHost_frame wellFormed.toRegular found
      obtain ⟨x, found', -, region⟩ := h.findHost c found₀
      rw [found] at found'
      cases found'
      have admits₀ := admits.congr frame region.guarded.symm
      rw [MemoryMap.writeHost_eq_ok_iff.2 ⟨r₀, found₀, admits₀, rfl⟩] at written
      cases written

/-- A region with breakpoints and its plain one, each replaced by another like it. -/
theorem Overlaid.setRegion {r' r₀' : Region} (h : Overlaid live plain m)
    (found₀ : plain.regions.get? r₀.base.toNat = some r₀)
    (found : m.regions.get? r.base.toNat = some r) (frame₀ : r₀'.frame = r₀.frame)
    (frame : r'.frame = r.frame) (same : r.frame = r₀.frame) (region : OverlaidRegion live r₀' r') :
    Overlaid live (plain.setRegion r₀') (m.setRegion r') := by
  have before := MemoryMap.sameFrames_setRegion found₀ frame₀
  have after := MemoryMap.sameFrames_setRegion found frame
  refine ⟨(before.symm.trans h.toSameFrames).trans after, fun {k x x'} there there' => ?_⟩
  have base : r'.base = r₀'.base :=
    congrArg Region.Frame.base ((frame.trans same).trans frame₀.symm)
  rw [MemoryMap.get?_setRegion] at there there'
  rw [base] at there'
  split at there
  · rename_i here
    rw [if_pos here] at there'
    cases there
    cases there'
    exact region
  · rename_i other
    rw [if_neg other] at there'
    exact h.overlaid there there'

/-- A write to both memories that spares the breakpoints. -/
theorem Overlaid.writeHost {data : List UInt8} (h : Overlaid live plain m) (c : CodeMemory plain)
    (spares : Spares live host data) :
    Overlaid live (plain.apply (.writeHost host data)) (m.apply (.writeHost host data)) := by
  rcases h.writeHost_cases c host data with ⟨same₀, same⟩ |
    ⟨r₀, r, found₀, found, frame, region, written₀, written⟩
  · rw [same₀, same]
    exact h
  · obtain ⟨there₀, lo, -⟩ := c.wellFormed.findHost_iff.1 found₀
    have there := ((h.toSameFrames.wellFormed c.wellFormed).findHost_iff.1 found).1
    rw [written₀, written]
    exact h.setRegion there₀ there rfl rfl frame (region.written frame lo spares)

theorem CodeMemory.sameFrames_writeHost (c : CodeMemory m) (host : HostAddr) (data : List UInt8) :
    MemoryMap.SameFrames m (m.apply (.writeHost host data)) :=
  getD_ok (P := MemoryMap.SameFrames m) (.refl m) fun _ written =>
    (c.wellFormed.sameGuards_writeHost written).toSameFrames

theorem CodeMemory.writeHost (c : CodeMemory m) (host : HostAddr) (data : List UInt8) :
    CodeMemory (m.apply (.writeHost host data)) := by
  have frames := c.sameFrames_writeHost host data
  rw [MemoryMap.apply] at frames ⊢
  cases written : m.writeHost host data with
  | error e => exact c
  | ok m' =>
    rw [written] at frames
    obtain ⟨r, found, -, rfl⟩ := MemoryMap.writeHost_eq_ok_iff.1 written
    have there := (c.wellFormed.findHost_iff.1 found).1
    have inPlace := c.inPlace there
    have shielded := c.shielded there
    constructor
    · exact frames.wellFormed c.wellFormed
    all_goals
      intro k x found'
      change (m.setRegion (r.written host data)).regions.get? k = some x at found'
      rw [MemoryMap.get?_setRegion] at found'
      split at found'
    · cases found'
      exact inPlace
    · exact c.inPlace found'
    · cases found'
      exact shielded
    · exact c.shielded found'

/-- What a write makes of the region of a host address. -/
theorem CodeMemory.findHost_writeHost (c : CodeMemory m) {host' : HostAddr}
    (found : m.findHost host' = some r) (host : HostAddr) (data : List UInt8) :
    (m.apply (.writeHost host data)).findHost host' = some r ∨
      r.backing.base.toNat ≤ host.toNat ∧
        (m.apply (.writeHost host data)).findHost host' = some (r.written host data) := by
  rw [MemoryMap.apply]
  cases written : m.writeHost host data with
  | error e => exact .inl found
  | ok m' =>
    obtain ⟨x, there, -, rfl⟩ := MemoryMap.writeHost_eq_ok_iff.1 written
    obtain ⟨atBase, lo, -⟩ := c.wellFormed.findHost_iff.1 there
    have key := (c.wellFormed.findHost_iff.1 found).1
    have frame : (x.written host data).frame = x.frame := rfl
    have now := c.wellFormed.findHost_setRegion atBase frame found
    split at now
    · rename_i same
      rw [same, atBase] at key
      cases key
      exact .inr ⟨lo, now⟩
    · exact .inl now

/-! ## Protection -/

/-- How the host protects the page of a host address. -/
def pageProtection (m : MemoryMap) (host : HostAddr) : Option Perms :=
  (m.findHost host).map fun r =>
    r.backing.protection.get ((host.toNat - r.backing.base.toNat) / pageSize)

/-- Breakpoints leave the protection of all pages as it is. -/
theorem Overlaid.pageProtection (h : Overlaid live plain m) (c : CodeMemory plain)
    (host : HostAddr) : pageProtection m host = Native.pageProtection plain host := by
  cases found : plain.findHost host with
  | none =>
    rw [Native.pageProtection, Native.pageProtection,
      h.toSameFrames.findHost_eq_none c.wellFormed.toRegular found, found]
  | some r₀ =>
    obtain ⟨r, found', frame, region⟩ := h.findHost c found
    rw [Native.pageProtection, Native.pageProtection, found, found', Option.map_some,
      Option.map_some, region.protection,
      show r.backing.base = r₀.backing.base from congrArg Region.Frame.hostBase frame]

end GuestExec.Native
