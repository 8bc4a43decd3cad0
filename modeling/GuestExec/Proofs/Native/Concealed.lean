import GuestExec.Proofs.Memory.Accesses
import GuestExec.Proofs.Native.Shared
import GuestExec.Proofs.Native.Targets

/-!
# Arming beside other breakpoints

A core arms its step while others hold breakpoints in the same memory. Those away
from `pc` make no difference: the same addresses can run, and each has the same
breakpoint. One at `pc` does, since the word there is read like any other of the
guest's. Arming then takes the breakpoint for the instruction and guards what
comes behind it, wherever the instruction that it hides goes.
-/

namespace GuestExec

/-- Where the word that holds `a` begins. -/
def GuestAddr.wordBase (a : GuestAddr) : GuestAddr := ⟨a.word / 4 * 4⟩

theorem GuestAddr.toNat_wordBase (a : GuestAddr) : a.wordBase.toNat = a.toNat / 4 * 4 := by
  have lt := a.toNat_lt
  rw [wordBase, toNat, UInt64.toNat_mul, UInt64.toNat_div]
  simp only [toNat, UInt64.reduceToNat] at *
  exact Nat.mod_eq_of_lt (by omega)

@[simp] theorem GuestAddr.page_wordBase (a : GuestAddr) : a.wordBase.page = a.page := by
  rw [page, page, toNat_wordBase]
  simp only [pageSize]
  omega

namespace Native

open MemoryMap (SameGuards Shows)

variable {plain m : MemoryMap} {t : SiteTable} {live : List Breakpoint} {regs : Registers}
  {pc : UInt64} {word : UInt32} {a : GuestAddr} {bytes : List UInt8}

namespace SiteTable

/-- A site of the table lies on the word of `a`. -/
def hides (t : SiteTable) (plain : MemoryMap) (a : GuestAddr) : Bool :=
  (plain.translate a.wordBase).any fun mapping => t.contains (mapping.hostAddr a.wordBase)

/-- What is at `a` where the guest has the byte `b`. -/
def shown (t : SiteTable) (plain : MemoryMap) (a : GuestAddr) (b : UInt8) : UInt8 :=
  if t.hides plain a then brkByte a.toNat else b

/-- What is there from `a` on where the guest has `bytes`. -/
def shownAll (t : SiteTable) (plain : MemoryMap) (a : GuestAddr) (bytes : List UInt8) :
    List UInt8 :=
  bytes.mapIdx fun i b => t.shown plain (a + UInt64.ofNat i) b

/-- The memory `m` is `plain` with the breakpoints of the table in it. -/
structure Conceals (t : SiteTable) (plain m : MemoryMap) : Prop extends SameGuards plain m where
  bytes : ∀ a, m.byte? a = (plain.byte? a).map (t.shown plain a)

/-! ## Reading beside breakpoints -/

theorem shownAll_of_clear
    (clear : ∀ i < bytes.length, t.hides plain (a + UInt64.ofNat i) = false) :
    t.shownAll plain a bytes = bytes := by
  refine List.ext_getElem List.length_mapIdx fun i inside inside' => ?_
  simp only [shownAll, List.getElem_mapIdx, shown, clear i inside', Bool.false_eq_true, if_false]

/-- A word is hidden as a whole. -/
theorem hides_add (aligned : pc % 4 = 0) {i : Nat} (inside : i < 4) :
    t.hides plain ((⟨pc⟩ : GuestAddr) + UInt64.ofNat i) = t.hides plain ⟨pc⟩ := by
  have short := GuestAddr.add_le_of_fits (fits_of_aligned aligned)
  have aligned := congrArg UInt64.toNat aligned
  rw [UInt64.toNat_mod] at aligned
  have same : ((⟨pc⟩ : GuestAddr) + UInt64.ofNat i).wordBase = (⟨pc⟩ : GuestAddr).wordBase := by
    refine GuestAddr.ext_toNat ?_
    rw [GuestAddr.toNat_wordBase, GuestAddr.toNat_wordBase, GuestAddr.toNat_add_of_lt short inside]
    simp only [GuestAddr.toNat, UInt64.reduceToNat] at *
    omega
  rw [hides, hides, same]

theorem shownAll_of_hidden (aligned : pc % 4 = 0) (hidden : t.hides plain ⟨pc⟩ = true)
    (four : bytes.length = 4) :
    t.shownAll plain ⟨pc⟩ bytes = toLeBytes 4 (brk stepImm).toNat := by
  have short := GuestAddr.add_le_of_fits (fits_of_aligned aligned)
  refine List.ext_getElem (List.length_mapIdx.trans four) fun i inside inside' => ?_
  have word : i < 4 := inside'
  have start := congrArg UInt64.toNat aligned
  rw [UInt64.toNat_mod] at start
  simp only [shownAll, List.getElem_mapIdx, shown, hides_add aligned word, hidden, if_true]
  rw [brkByte, GuestAddr.toNat_add_of_lt short word, List.getElem_eq_getD 0]
  congr 1
  simp only [GuestAddr.toNat, UInt64.reduceToNat] at *
  omega

namespace Conceals

variable (h : t.Conceals plain m)

include h

theorem shows (there : plain.Shows a bytes) : m.Shows a (t.shownAll plain a bytes) := by
  intro i inside
  rw [shownAll, List.length_mapIdx] at inside
  rw [h.bytes, there i inside, Option.map_some]
  simp only [shownAll, List.getElem_mapIdx]

/-- A read goes through beside breakpoints when it does without, and gives what is there. -/
theorem read (w : plain.Regular) {n : Nat} (short : a.toNat + n ≤ 0x1_0000_0000_0000_0000) :
    (∀ bytes, plain.read a n = .ok bytes → m.read a n = .ok (t.shownAll plain a bytes)) ∧
      ∀ e, plain.read a n = .error e → ∃ e', m.read a n = .error e' := by
  have w' := h.toSameFrames.regular w
  obtain ⟨usable, there, -⟩ := w.exact_read short
  obtain ⟨usable', there', -⟩ := w'.exact_read short
  have same : (∃ bytes, m.read a n = .ok bytes) ↔ ∃ bytes, plain.read a n = .ok bytes := by
    rw [usable, usable']
    simp only [h.toSameGuards.usable w]
  constructor
  · intro bytes read
    obtain ⟨length, bytes_there⟩ := there bytes read
    obtain ⟨bytes', read'⟩ := same.2 ⟨bytes, read⟩
    obtain ⟨length', bytes_there'⟩ := there' bytes' read'
    have eq : bytes' = t.shownAll plain a bytes := Shows.eq bytes_there' (h.shows bytes_there)
      (length'.trans (length.symm.trans List.length_mapIdx.symm))
    rw [read', eq]
  · intro e failed
    cases read' : m.read a n with
    | error e' => exact ⟨e', rfl⟩
    | ok bytes' =>
      obtain ⟨bytes, read⟩ := same.1 ⟨bytes', read'⟩
      rw [read] at failed
      cases failed

end Conceals

end SiteTable

/-! ## Breakpoints that cores hold -/

/-- Regions are found in both memories alike. -/
theorem Overlaid.find (h : Overlaid live plain m) (w : plain.WellFormed) {r : Region}
    (found : plain.find a = some r) :
    ∃ r', m.find a = some r' ∧ r'.offset a = r.offset a ∧ OverlaidRegion live r r' := by
  obtain ⟨r', found', frame⟩ := h.toSameFrames.find_frame w.toRegular found
  have base : r'.base = r.base := congrArg Region.Frame.base frame
  have there := (w.find_iff.1 found).1
  have there' := ((h.toSameFrames.wellFormed w).find_iff.1 found').1
  exact ⟨r', found', by rw [Region.offset, Region.offset, base], h.overlaid there (base ▸ there')⟩

/-- Breakpoints move no guard. -/
theorem Overlaid.sameGuards (h : Overlaid live plain m) (w : plain.WellFormed) :
    SameGuards plain m := by
  refine ⟨⟨h.toSameFrames, fun found found' page guarded => ?_⟩, fun a => ?_⟩
  · exact (h.overlaid found found').guarded ▸ guarded
  · cases found : plain.find a with
    | none =>
      rw [MemoryMap.isGuarded, MemoryMap.isGuarded, found,
        h.toSameFrames.find_eq_none w.toRegular found]
    | some r =>
      obtain ⟨r', found', offset, region⟩ := h.find w found
      rw [MemoryMap.isGuarded_of_find found, MemoryMap.isGuarded_of_find found', offset,
        region.guarded]

/-- A site hides a byte when a breakpoint is held on its word. -/
theorem SharedCode.Invariant.hides_iff {s : SharedCode} (h : s.Invariant) {r : Region}
    (found : s.plain.find a = some r) :
    s.sites.hides s.plain a = true ↔ Patched s.live (r.backing.base.toNat + r.offset a) := by
  have w := h.code.wellFormed
  obtain ⟨there, held⟩ := w.find_iff.1 found
  obtain ⟨base, -⟩ := h.code.aligned there
  have inPlace := h.code.inPlace there
  have lo := (Region.holds_iff.1 held).1
  have found' : s.plain.find a.wordBase = some r :=
    (w.find_page (GuestAddr.page_wordBase a)).trans found
  have host := w.toNat_hostAddr found'
  have lo' := (Region.holds_iff.1 (w.find_iff.1 found').2).1
  have word := a.toNat_wordBase
  rw [SiteTable.hides, MemoryMap.translate, found', Option.map_some, Option.any_some,
    SiteTable.contains_iff, Patched]
  rw [Region.offset] at host ⊢
  have start : (r.backing.base.toNat + (a.toNat - r.base.toNat)) / 4 * 4 =
      (r.mapping.hostAddr a.wordBase).toNat := by omega
  rw [start]
  constructor
  · rintro ⟨site, mem, same⟩
    obtain ⟨b, held, at_site⟩ := h.exists_holder mem
    exact ⟨b, held, by rw [at_site, same]⟩
  · rintro ⟨b, held, same⟩
    obtain ⟨site, mem, at_host⟩ := h.counts.held b held
    exact ⟨site, mem, at_host.trans (HostAddr.ext_toNat same)⟩

/-- The memory that cores step through is the plain one with their breakpoints in it. -/
theorem SharedCode.Invariant.conceals {s : SharedCode} (h : s.Invariant) :
    s.sites.Conceals s.plain s.memory := by
  have w := h.code.wellFormed
  refine ⟨h.overlaid.sameGuards w, fun a => ?_⟩
  cases found : s.plain.find a with
  | none =>
    have none := h.overlaid.toSameFrames.find_eq_none w.toRegular found
    rw [MemoryMap.byte?, MemoryMap.byte?, found, none]
    rfl
  | some r =>
    obtain ⟨r', found', offset, region⟩ := h.overlaid.find w found
    obtain ⟨there, held⟩ := w.find_iff.1 found
    obtain ⟨lo, hi⟩ := Region.holds_iff.1 held
    have inside : r.offset a < r.size := by
      rw [Region.stop] at hi
      rw [Region.offset]
      omega
    have place : r.backing.base.toNat + r.offset a = a.toNat := by
      rw [h.code.inPlace there, Region.offset]
      omega
    rw [MemoryMap.byte?_of_find found, MemoryMap.byte?_of_find found', offset, Option.map_some,
      SiteTable.shown]
    congr 1
    split
    · rename_i hidden
      rw [region.patched _ inside ((h.hides_iff found).1 hidden), place]
    · rename_i clear
      exact region.unpatched _ inside fun patched => clear ((h.hides_iff found).2 patched)

/-! ## Arming beside breakpoints -/

namespace StepPatch

theorem nodup_targets (pc : UInt64) (s : Successors) : (targets pc s).Nodup := by
  obtain ⟨first, second⟩ := s
  have one : second.toList.Nodup := by cases second <;> simp
  have ahead : (second.toList.filter fun target => target != pc && target != first).Nodup :=
    List.Pairwise.filter _ one
  unfold targets
  dsimp only
  split
  · exact ahead
  · refine List.nodup_cons.2 ⟨fun mem => ?_, ahead⟩
    simp [List.mem_filter] at mem

theorem filterMap_singleton (m : MemoryMap) (a : UInt64) :
    [a].filterMap (breakpointAt m) = (breakpointAt m a).toList := by
  cases eq : breakpointAt m a with
  | none => rw [List.filterMap_cons_none eq, Option.toList_none, List.filterMap_nil]
  | some b => rw [List.filterMap_cons_some eq, Option.toList_some, List.filterMap_nil]

/-- The targets have the breakpoint of one address when it is all that can run of them. -/
theorem filterMap_targets_eq_iff {s : Successors} {b : UInt64} :
    (targets pc s).filterMap (breakpointAt m) = (breakpointAt m b).toList ↔
      ∀ a, Runnable m a → (a ∈ targets pc s ↔ a = b) := by
  rw [← filterMap_singleton]
  constructor
  · intro eq a runnable
    have guests : (∃ x ∈ (targets pc s).filterMap (breakpointAt m), x.guest = a) ↔
        a ∈ targets pc s ∧ Runnable m a := exists_breakpointAt_iff
    rw [eq, exists_breakpointAt_iff, List.mem_singleton] at guests
    exact ⟨fun mem => (guests.2 ⟨mem, runnable⟩).1, fun same => (guests.1 ⟨same, runnable⟩).1⟩
  · intro same
    have only (l : List UInt64) : l.filterMap (breakpointAt m) =
        (l.filter (Runnable m ·)).filterMap (breakpointAt m) := by
      rw [List.filterMap_filter]
      refine congrArg (List.filterMap · l) (funext fun a => ?_)
      by_cases h : Runnable m a <;> simp [breakpointAt, h]
    have one : [b].Nodup := List.nodup_cons.2 ⟨List.not_mem_nil, List.nodup_nil⟩
    have perm : ((targets pc s).filter (Runnable m ·)).Perm ([b].filter (Runnable m ·)) := by
      refine (List.perm_ext_iff_of_nodup ((nodup_targets pc s).filter _) (one.filter _)).2
        fun a => ?_
      simp only [List.mem_filter, decide_eq_true_eq, List.mem_singleton]
      exact and_congr_left (same a)
    have short := perm.filterMap (breakpointAt m)
    rw [← only, ← only, filterMap_singleton] at short
    rw [filterMap_singleton]
    cases eq : breakpointAt m b with
    | none =>
      rw [eq] at short
      exact short.eq_nil
    | some x =>
      rw [eq] at short
      exact List.perm_singleton.1 short

theorem armedFor_congr (same : SameGuards plain m) (w : plain.Regular) :
    armedFor m regs word = armedFor plain regs word := by
  have breakpoints : breakpointAt m = breakpointAt plain :=
    funext fun _ => breakpointAt_congr same w
  rw [armedFor, armedFor, breakpoints]

/-- A breakpoint that is taken for the instruction goes to what comes behind it. -/
theorem armedFor_brk :
    armedFor m regs (brk stepImm) = .patched ⟨(breakpointAt m (regs.pc + 4)).toList⟩ := by
  have next : successors regs.pc (brk stepImm) regs = { first := regs.pc + 4 } := rfl
  have other := add_four_ne regs.pc
  rw [armedFor, next, if_neg fun same => other (congrArg Successors.first same), targets,
    if_neg other]
  exact congrArg (fun placed => Armed.patched ⟨placed⟩) (filterMap_singleton m _)

/-- The instruction `word` comes to the same breakpoints as one that goes on to what is behind
it. -/
theorem armedFor_eq_next_iff :
    armedFor m regs word = .patched ⟨(breakpointAt m (regs.pc + 4)).toList⟩ ↔
      successors regs.pc word regs ≠ { first := regs.pc } ∧ ∀ a, Runnable m a →
        (a ∈ (successors regs.pc word regs).toList ∧ a ≠ regs.pc ↔ a = regs.pc + 4) := by
  rw [armedFor]
  split
  · rename_i back
    exact iff_of_false (fun same => by cases same) fun goes => goes.1 back
  · rename_i away
    simp only [Armed.patched.injEq, StepPatch.mk.injEq, filterMap_targets_eq_iff, mem_targets,
      ne_eq, away, not_false_eq_true, true_and]

/-- What the breakpoints of others make of arming. -/
structure ArmsAsShown (t : SiteTable) (plain m : MemoryMap) (regs : Registers) : Prop where
  /-- The word that decides is the one that they leave at `pc`. -/
  shown : ∀ bytes, plain.read ⟨regs.pc⟩ 4 = .ok bytes → (arm t m regs).1 =
    armedFor plain regs (UInt32.ofNat (ofLeBytes (t.shownAll plain ⟨regs.pc⟩ bytes)))
  /-- Without one at `pc` they make no difference. -/
  clear : (∀ i < 4, t.hides plain ((⟨regs.pc⟩ : GuestAddr) + UInt64.ofNat i) = false) →
    (arm t m regs).1 = (arm {} plain regs).1
  unreadable : (¬∃ word, Reads plain regs.pc word) → (arm t m regs).1 = (arm {} plain regs).1
  /-- One at `pc` hides the instruction: the step is armed for what comes behind it, which is wrong
  unless the instruction goes nowhere else. -/
  hidden : regs.pc % 4 = 0 → t.hides plain ⟨regs.pc⟩ = true → ∀ word, Reads plain regs.pc word →
    (arm t m regs).1 = .patched ⟨(breakpointAt plain (regs.pc + 4)).toList⟩ ∧
      ((arm t m regs).1 = (arm {} plain regs).1 ↔
        successors regs.pc word regs ≠ { first := regs.pc } ∧ ∀ a, Runnable plain a →
          (a ∈ (successors regs.pc word regs).toList ∧ a ≠ regs.pc ↔ a = regs.pc + 4))

/-- Arming goes by the memory that the breakpoints of others are in: it is as without them unless
one is on the instruction at `pc`, and is then for a breakpoint, not for the instruction. -/
theorem armsAsShown (w : plain.WellFormed) (h : t.Conceals plain m)
    (room : t.sites.length + 2 ≤ SiteTable.capacity)
    (short : regs.pc.toNat + 4 ≤ 0x1_0000_0000_0000_0000) : ArmsAsShown t plain m regs := by
  have w' := h.toSameFrames.wellFormed w
  obtain ⟨reads, refuses⟩ := h.read (a := ⟨regs.pc⟩) w.toRegular short
  have none : ({} : SiteTable).sites.length + 2 ≤ SiteTable.capacity := by decide
  have shown (bytes : List UInt8) (read : plain.read ⟨regs.pc⟩ 4 = .ok bytes) :
      (arm t m regs).1 =
        armedFor plain regs (UInt32.ofNat (ofLeBytes (t.shownAll plain ⟨regs.pc⟩ bytes))) := by
    rw [arm_of_read w' room (reads bytes read), armedFor_congr h.toSameGuards w.toRegular]
  have failed {e : MemoryError} (read : plain.read ⟨regs.pc⟩ 4 = .error e) :
      (arm t m regs).1 = (arm {} plain regs).1 := by
    obtain ⟨e', read'⟩ := refuses e read
    rw [arm_of_not_read read, arm_of_not_read read']
  have four {bytes : List UInt8} (read : plain.read ⟨regs.pc⟩ 4 = .ok bytes) : bytes.length = 4 :=
    ((w.toRegular.exact_read short).2.1 bytes read).1
  constructor
  · exact shown
  · intro clear
    cases read : plain.read ⟨regs.pc⟩ 4 with
    | error e => exact failed read
    | ok bytes =>
      rw [shown bytes read, arm_of_read w none read,
        SiteTable.shownAll_of_clear (four read ▸ clear)]
  · intro unreadable
    cases read : plain.read ⟨regs.pc⟩ 4 with
    | error e => exact failed read
    | ok bytes => exact absurd ⟨_, bytes, read, rfl⟩ unreadable
  · rintro aligned hides word ⟨bytes, read, rfl⟩
    have brk_word : UInt32.ofNat (ofLeBytes (toLeBytes 4 (brk stepImm).toNat)) = brk stepImm := rfl
    have armed : (arm t m regs).1 = .patched ⟨(breakpointAt plain (regs.pc + 4)).toList⟩ := by
      rw [shown bytes read, SiteTable.shownAll_of_hidden aligned hides (four read), brk_word,
        armedFor_brk]
    refine ⟨armed, ?_⟩
    rw [armed, arm_of_read w none read, eq_comm]
    exact armedFor_eq_next_iff

theorem codeMemory_wordPage (word : UInt32) : CodeMemory (wordPage word) := by
  have identity : ∀ r ∈ blankPage.regions.values, r.backing.isIdentity = true := by decide
  have whole : ∀ r ∈ blankPage.regions.values, r.backing.missing = .empty := by
    intro r mem
    obtain ⟨k, found⟩ := AddressTable.mem_values.1 mem
    exact wellFormed_blankPage.whole found
  exact (codeMemory_after identity whole).writeHost _ _

/-- A page that starts with a branch by 32 bytes; some core holds a breakpoint on it. -/
def heldBranch : SharedCode := (SharedCode.start (wordPage 0x14000008)).install 0x300000000

theorem invariant_heldBranch : heldBranch.Invariant :=
  SharedCode.invariant_of_reaches (codeMemory_wordPage _)
    (.step .start (.install 0x300000000))

/-- The registers of another core that is about to step the branch. -/
def atHeldBranch : Registers := { Registers.zero with pc := 0x300000000 }

/-- That core guards the address behind the branch, not the one that it goes to. -/
theorem armsAsShown_heldBranch :
    (arm heldBranch.sites heldBranch.memory atHeldBranch).1 =
        .patched ⟨[⟨0x300000004, ⟨0x300000004⟩⟩]⟩ ∧
      (arm {} heldBranch.plain atHeldBranch).1 =
        .patched ⟨[⟨0x300000020, ⟨0x300000020⟩⟩]⟩ := by
  have h := invariant_heldBranch
  have w := h.code.wellFormed
  have reads : Reads heldBranch.plain atHeldBranch.pc 0x14000008 := reads_wordPage.2 rfl
  have arms : ArmsAsShown heldBranch.sites heldBranch.plain heldBranch.memory atHeldBranch :=
    armsAsShown w h.conceals (by decide) (by decide)
  have behind : breakpointAt heldBranch.plain 0x300000004 =
      some ⟨0x300000004, ⟨0x300000004⟩⟩ := by decide
  have goes : armedFor heldBranch.plain atHeldBranch 0x14000008 =
      .patched ⟨[⟨0x300000020, ⟨0x300000020⟩⟩]⟩ := by decide
  obtain ⟨armed, -⟩ := arms.hidden rfl (by decide) _ reads
  obtain ⟨bytes, read, word⟩ := reads
  constructor
  · rw [armed]
    exact congrArg (fun b : Option Breakpoint => Armed.patched ⟨b.toList⟩) behind
  · rw [arm_of_read w (by decide) read, word, goes]

end StepPatch

end Native

end GuestExec
