import GuestExec.Native.Patch
import GuestExec.Proofs.Memory.Guards

/-!
# Code words

A breakpoint is a word written where the guest has code. `place_cases` says once
what placing one comes to: it is refused and nothing changes, it joins a site
that is there, or it makes a new site and writes a word. On a host that has all
pages the word is always written. Writing it moves no region and no guard, so
what could run before can run after. While there is room, which breakpoint comes
of it depends on the address and the map alone (`breakpointAt`).
-/

namespace GuestExec

/-- The region with another word at an offset, its page protected by `perms`. -/
def Region.withCode (r : Region) (offset : Nat) (word : UInt32) (perms : Perms) : Region :=
  { r with backing := { r.backing with
      protection := r.backing.protection.assign (offset / pageSize) (offset / pageSize + 1) perms
      bytes := r.backing.bytes.write offset (toLeBytes 4 word.toNat) } }

open MemoryMap (SameFrames SameGuards)

@[simp] theorem Region.base_withCode (r : Region) (offset : Nat) (word : UInt32) (perms : Perms) :
    (r.withCode offset word perms).base = r.base := by
  rw [withCode]

@[simp] theorem Region.guarded_withCode (r : Region) (offset : Nat) (word : UInt32)
    (perms : Perms) : (r.withCode offset word perms).backing.guarded = r.backing.guarded := by
  rw [withCode]

@[simp] theorem Region.frame_withCode (r : Region) (offset : Nat) (word : UInt32)
    (perms : Perms) : (r.withCode offset word perms).frame = r.frame := by
  rw [withCode, frame, frame]

theorem Region.protection_withCode (r : Region) (offset : Nat) (word : UInt32) (perms : Perms) :
    (r.withCode offset word perms).backing.protection =
      r.backing.protection.assign (offset / pageSize) (offset / pageSize + 1) perms := by
  rw [withCode]

theorem Region.get_withCode (r : Region) (offset : Nat) (word : UInt32) (perms : Perms) (o : Nat) :
    (r.withCode offset word perms).backing.bytes.get o =
      if offset ≤ o ∧ o < offset + 4 then (toLeBytes 4 word.toNat).getD (o - offset) 0
      else r.backing.bytes.get o := by
  have written := ByteStore.get_write r.backing.bytes offset (toLeBytes 4 word.toNat) o
  rw [length_toLeBytes] at written
  exact written

namespace Native

variable {m m' : MemoryMap} {t : SiteTable} {r : Region} {guest a : UInt64} {host : HostAddr}

/-! ## Writing -/

/-- A word is written, unless the host lost a page. -/
theorem writeCode_cases (found : m.findHost host = some r) (word : UInt32) (perms : Perms) :
    writeCode m host word perms =
        some (m.setRegion (r.withCode (host.toNat - r.backing.base.toNat) word perms)) ∨
      (r.backing.missing ≠ .empty ∧ writeCode m host word perms = none) := by
  by_cases whole : r.backing.missing = .empty
  · refine .inl ?_
    simp only [writeCode, found, Backing.hostProtect_of_whole whole]
    rfl
  · simp only [writeCode, found, Backing.hostProtect]
    split
    · rename_i refused
      split at refused
      · exact .inr ⟨whole, rfl⟩
      · cases refused
    · rename_i allowed
      split at allowed
      · cases allowed
      · cases allowed
        exact .inl rfl

/-- On a whole block it always is. -/
theorem writeCode_eq (w : m.WellFormed) (found : m.findHost host = some r) (word : UInt32)
    (perms : Perms) : writeCode m host word perms =
      some (m.setRegion (r.withCode (host.toNat - r.backing.base.toNat) word perms)) :=
  (writeCode_cases found word perms).resolve_right fun failed =>
    failed.1 (w.whole (w.findHost_iff.1 found).1)

/-- A word and the protection of its page change no guard. -/
theorem sameGuards_withCode (w : m.Regular) (found : m.regions.get? r.base.toNat = some r)
    (offset : Nat) (word : UInt32) (perms : Perms) :
    SameGuards m (m.setRegion (r.withCode offset word perms)) := by
  have frame := r.frame_withCode offset word perms
  refine ⟨MemoryMap.loosens_setRegion found frame fun page h => ?_, fun a => ?_⟩
  · rwa [Region.guarded_withCode] at h
  · rw [MemoryMap.isGuarded_setRegion w found frame, Region.guarded_withCode]
    split
    · rename_i held
      rw [MemoryMap.isGuarded_of_find (w.find_iff.2 ⟨found, held⟩)]
    · rfl

/-! ## Placing -/

/-- The guest could run the instruction at `guest` as things are. -/
structure Runnable (m : MemoryMap) (guest : UInt64) : Prop where
  aligned : guest % 4 = 0
  accessible : m.isHostAccessible ⟨guest⟩ 4 .execute = true

instance : Decidable (Runnable m guest) :=
  decidable_of_iff (guest % 4 = 0 ∧ m.isHostAccessible ⟨guest⟩ 4 .execute = true)
    ⟨fun h => ⟨h.1, h.2⟩, fun h => ⟨h.aligned, h.accessible⟩⟩

/-- An aligned instruction lies on one page. -/
theorem fits_of_aligned (aligned : guest % 4 = 0) :
    (⟨guest⟩ : GuestAddr).toNat % pageSize + 4 ≤ pageSize := by
  have aligned := congrArg UInt64.toNat aligned
  rw [UInt64.toNat_mod] at aligned
  simp only [GuestAddr.toNat, pageSize, UInt64.reduceToNat] at *
  omega

/-- Guards are all that decides whether code of one region can run. -/
theorem runnable_congr (same : SameGuards m m') (w : m.Regular) :
    Runnable m' guest ↔ Runnable m guest := by
  have accessible (aligned : guest % 4 = 0) : m'.isHostAccessible ⟨guest⟩ 4 .execute =
      m.isHostAccessible ⟨guest⟩ 4 .execute := by
    have fits := fits_of_aligned aligned
    rw [(same.toSameFrames.regular w).isHostAccessible_of_fits (by decide) fits,
      w.isHostAccessible_of_fits (by decide) fits, same.usable w]
  constructor
  · exact fun h => ⟨h.aligned, accessible h.aligned ▸ h.accessible⟩
  · exact fun h => ⟨h.aligned, (accessible h.aligned).trans h.accessible⟩

/-- What the region of a runnable instruction is like. -/
structure CodeIn (m : MemoryMap) (guest : UInt64) (r : Region) : Prop where
  found : m.find ⟨guest⟩ = some r
  fits : r.offset ⟨guest⟩ + 4 ≤ r.size
  unguarded : r.backing.isGuarded (r.offset ⟨guest⟩) 4 = false

theorem Runnable.exists_codeIn (h : Runnable m guest) : ∃ r, CodeIn m guest r := by
  have accessible := h.accessible
  cases found : m.find ⟨guest⟩ with
  | none =>
    rw [MemoryMap.isHostAccessible, found] at accessible
    cases accessible
  | some r =>
    rw [MemoryMap.isHostAccessible, found, Option.any_some, Bool.and_eq_true, Bool.and_eq_true,
      decide_eq_true_eq, Bool.not_eq_true'] at accessible
    obtain ⟨⟨-, fits⟩, unguarded⟩ := accessible
    exact ⟨r, found, by omega, unguarded⟩

/-- Code lies between words of its region. -/
theorem CodeIn.aligned (code : CodeIn m guest r) (w : m.Regular) (aligned : guest % 4 = 0) :
    r.offset ⟨guest⟩ % 4 = 0 := by
  have base := (w.regular_of_find code.found).base
  have held := (Region.holds_iff.1 (w.find_iff.1 code.found).2).1
  have aligned := congrArg UInt64.toNat aligned
  rw [UInt64.toNat_mod] at aligned
  simp only [Region.offset, GuestAddr.toNat, pageSize, UInt64.reduceToNat] at *
  omega

theorem CodeIn.unguarded_page (code : CodeIn m guest r) (aligned : r.offset ⟨guest⟩ % 4 = 0) :
    r.backing.guarded.contains (r.offset ⟨guest⟩ / pageSize) = false := by
  rw [← code.unguarded, Backing.isGuarded_of_fits]
  simp only [pageSize]
  omega

/-- Where the breakpoint for an address of the region goes. -/
def siteOf (r : Region) (guest : UInt64) : HostAddr := r.mapping.hostAddr ⟨guest⟩

/-- A site as it is made, in the region `r`. -/
def newSite (m : MemoryMap) (r : Region) (guest : UInt64) : PatchedSite :=
  { host := siteOf r guest
    original := codeWord m (siteOf r guest)
    perms := r.perms
    holders := 1 }

/-- What placing a breakpoint at `guest` comes to. -/
inductive Placed (t : SiteTable) (m : MemoryMap) (guest : UInt64) :
    Option Breakpoint × SiteTable × MemoryMap → Prop where
  | refused : ¬Runnable m guest ∨ SiteTable.capacity ≤ t.sites.length ∨
      (∃ r, CodeIn m guest r ∧ r.backing.missing ≠ .empty) → Placed t m guest (none, t, m)
  | shared {r : Region} : Runnable m guest → CodeIn m guest r → t.contains (siteOf r guest) = true →
    Placed t m guest (some ⟨guest, siteOf r guest⟩, t.share (siteOf r guest), m)
  | fresh {r : Region} : Runnable m guest → CodeIn m guest r →
    t.contains (siteOf r guest) = false → t.sites.length < SiteTable.capacity →
    Placed t m guest (some ⟨guest, siteOf r guest⟩, ⟨t.sites ++ [newSite m r guest]⟩,
      m.setRegion (r.withCode (r.offset ⟨guest⟩) (brk stepImm) r.perms))

theorem place_cases (w : m.Regular) (t : SiteTable) (guest : UInt64) :
    Placed t m guest (place t m guest) := by
  by_cases h : Runnable m guest
  · obtain ⟨r, code⟩ := h.exists_codeIn
    have translated : m.translate ⟨guest⟩ = some r.mapping := by
      rw [MemoryMap.translate, code.found]
      rfl
    have open' : (decide (guest % 4 ≠ 0) || !m.isHostAccessible ⟨guest⟩ 4 .execute) = false := by
      rw [h.accessible, h.aligned]
      rfl
    simp only [place, open', translated, Bool.false_eq_true, if_false]
    split
    · rename_i taken
      exact .shared h code taken
    · rename_i free
      split
      · rename_i full
        exact .refused (.inr (.inl full))
      · rename_i room
        have inside := w.findHost_hostAddr code.found
        have offset : (siteOf r guest).toNat - r.backing.base.toNat = r.offset ⟨guest⟩ := by
          have := w.toNat_hostAddr code.found
          rw [siteOf]
          omega
        have perms : r.mapping.perms = r.perms := rfl
        rcases writeCode_cases inside (brk stepImm) r.perms with written | ⟨missing, refused⟩
        · rw [← siteOf, offset] at written
          rw [perms, ← siteOf, written]
          exact .fresh h code ((Bool.not_eq_true _).mp free) (Nat.lt_of_not_le room)
        · rw [perms, refused]
          exact .refused (.inr (.inr ⟨r, code, missing⟩))
  · have shut : (decide (guest % 4 ≠ 0) || !m.isHostAccessible ⟨guest⟩ 4 .execute) = true := by
      rw [Bool.or_eq_true, decide_eq_true_eq, Bool.not_eq_true']
      rcases Decidable.em (guest % 4 = 0) with aligned | misaligned
      · exact .inr ((Bool.not_eq_true _).mp fun accessible => h ⟨aligned, accessible⟩)
      · exact .inl misaligned
    have eq : place t m guest = (none, t, m) := by
      rw [place]
      exact if_pos shut
    rw [eq]
    exact .refused (.inl h)

/-- On a host that has all pages, a breakpoint for which there is room is refused only where
nothing can run. -/
theorem not_runnable_of_refused (w : m.WellFormed) (room : t.sites.length < SiteTable.capacity)
    (why : ¬Runnable m guest ∨ SiteTable.capacity ≤ t.sites.length ∨
      ∃ r, CodeIn m guest r ∧ r.backing.missing ≠ .empty) : ¬Runnable m guest := by
  rcases why with shut | full | ⟨r, code, missing⟩
  · exact shut
  · exact absurd full (Nat.not_le_of_lt room)
  · exact absurd (w.whole (w.find_iff.1 code.found).1) missing

theorem sameGuards_place (w : m.Regular) (t : SiteTable) (guest : UInt64) :
    SameGuards m (place t m guest).2.2 := by
  have placed := place_cases w t guest
  generalize place t m guest = result at placed
  cases placed with
  | refused => exact .refl m
  | shared => exact .refl m
  | fresh _ code => exact sameGuards_withCode w (w.find_iff.1 code.found).1 _ _ _

/-! ## The breakpoint of an address -/

/-- The breakpoint that an address has if it can run. -/
def breakpointAt (m : MemoryMap) (guest : UInt64) : Option Breakpoint :=
  if Runnable m guest then
    (m.translate ⟨guest⟩).map fun mapping => ⟨guest, mapping.hostAddr ⟨guest⟩⟩
  else none

theorem CodeIn.breakpointAt_eq (code : CodeIn m guest r) (h : Runnable m guest) :
    breakpointAt m guest = some ⟨guest, siteOf r guest⟩ := by
  rw [breakpointAt, if_pos h, MemoryMap.translate, code.found]
  rfl

theorem breakpointAt_eq_some_iff : (∃ b, breakpointAt m guest = some b) ↔ Runnable m guest := by
  constructor
  · rintro ⟨b, eq⟩
    rw [breakpointAt] at eq
    split at eq
    · assumption
    · cases eq
  · intro h
    obtain ⟨r, code⟩ := h.exists_codeIn
    exact ⟨_, code.breakpointAt_eq h⟩

theorem guest_of_breakpointAt {b : Breakpoint} (h : breakpointAt m guest = some b) :
    b.guest = guest := by
  have runnable := breakpointAt_eq_some_iff.1 ⟨b, h⟩
  obtain ⟨r, code⟩ := runnable.exists_codeIn
  rw [code.breakpointAt_eq runnable] at h
  cases h
  rfl

/-- Maps with the same guards have the same breakpoints. -/
theorem breakpointAt_congr (same : SameGuards m m') (w : m.Regular) :
    breakpointAt m' guest = breakpointAt m guest := by
  simp only [breakpointAt, same.toSameFrames.translate w, runnable_congr same w]

/-- While there is room, placing a breakpoint gives the one that the address has. -/
theorem place_fst (w : m.WellFormed) (room : t.sites.length < SiteTable.capacity)
    (guest : UInt64) : (place t m guest).1 = breakpointAt m guest := by
  have placed := place_cases w.toRegular t guest
  generalize place t m guest = result at placed
  cases placed with
  | refused why =>
    rw [breakpointAt, if_neg (not_runnable_of_refused w room why)]
  | shared h code => exact (code.breakpointAt_eq h).symm
  | fresh h code => exact (code.breakpointAt_eq h).symm

theorem length_share (t : SiteTable) (host : HostAddr) :
    (t.share host).sites.length = t.sites.length := by
  rw [SiteTable.share, List.length_map]

theorem length_place (w : m.Regular) (t : SiteTable) (guest : UInt64) :
    (place t m guest).2.1.sites.length ≤ t.sites.length + 1 := by
  have placed := place_cases w t guest
  generalize place t m guest = result at placed
  cases placed with
  | refused => exact Nat.le_succ _
  | shared =>
    rw [length_share]
    exact Nat.le_succ _
  | fresh => simp

/-! ## Frames -/

theorem sameFrames_writeCode (w : m.Regular) {word : UInt32} {perms : Perms} {m' : MemoryMap}
    (h : writeCode m host word perms = some m') : SameFrames m m' := by
  cases found : m.findHost host with
  | none =>
    rw [writeCode, found] at h
    cases h
  | some r =>
    rcases writeCode_cases found word perms with written | ⟨-, refused⟩
    · rw [written] at h
      cases h
      exact MemoryMap.sameFrames_setRegion (w.findHost_iff.1 found).1 (r.frame_withCode _ _ _)
    · rw [refused] at h
      cases h

theorem sameFrames_place (w : m.Regular) (t : SiteTable) (guest : UInt64) :
    SameFrames m (place t m guest).2.2 :=
  (sameGuards_place w t guest).toSameFrames

theorem sameFrames_lift (w : m.Regular) (t : SiteTable) (b : Breakpoint) :
    SameFrames m (lift t m b).2 := by
  unfold lift
  split
  · exact .refl m
  · rename_i site t' _
    cases written : writeCode m b.host site.original site.perms with
    | none => exact .refl m
    | some m' => exact sameFrames_writeCode w written

namespace StepPatch

/-- Breakpoints at all `targets` that can run, after those placed before. -/
def placeAll (targets : List UInt64) (state : List Breakpoint × SiteTable × MemoryMap) :
    List Breakpoint × SiteTable × MemoryMap :=
  targets.foldl
    (fun (placed, t, m) target =>
      let (breakpoint, t, m) := place t m target
      (placed ++ breakpoint.toList, t, m)) state

theorem placeAll_cons (target : UInt64) (rest : List UInt64) (placed : List Breakpoint)
    (t : SiteTable) (m : MemoryMap) : placeAll (target :: rest) (placed, t, m) =
      placeAll rest (placed ++ (place t m target).1.toList, (place t m target).2.1,
        (place t m target).2.2) := rfl

end StepPatch

/-- The breakpoints that arming comes to. -/
def Armed.breakpoints : Armed → List Breakpoint
  | .patched p => p.breakpoints
  | .selfLoop => []

/-- What placing one breakpoint keeps, arming keeps. -/
theorem arm_induction {P : List Breakpoint → SiteTable → MemoryMap → Prop}
    (step : ∀ placed t m guest, P placed t m → P (placed ++ (place t m guest).1.toList)
      (place t m guest).2.1 (place t m guest).2.2) (h : P [] t m) (regs : Registers) :
    P (StepPatch.arm t m regs).1.breakpoints (StepPatch.arm t m regs).2.1
      (StepPatch.arm t m regs).2.2 := by
  have all (targets : List UInt64) (placed : List Breakpoint) {t : SiteTable} {m : MemoryMap}
      (h : P placed t m) : P (StepPatch.placeAll targets (placed, t, m)).1
        (StepPatch.placeAll targets (placed, t, m)).2.1
        (StepPatch.placeAll targets (placed, t, m)).2.2 := by
    induction targets generalizing t m placed with
    | nil => exact h
    | cons target rest ih => exact ih _ (step placed t m target h)
  unfold StepPatch.arm
  split
  · exact h
  · dsimp only
    split
    · exact h
    · exact all _ [] h

/-- What lifting one breakpoint keeps, disarming keeps. -/
theorem disarm_induction {P : List Breakpoint → SiteTable → MemoryMap → Prop}
    (step : ∀ b rest t m, P (b :: rest) t m → P rest (lift t m b).1 (lift t m b).2)
    {p : StepPatch} (h : P p.breakpoints t m) : P [] (p.disarm t m).1 (p.disarm t m).2 := by
  obtain ⟨breakpoints⟩ := p
  induction breakpoints generalizing t m with
  | nil => exact h
  | cons b rest ih => exact ih (step b rest t m h)

theorem add_four_ne (pc : UInt64) : pc + 4 ≠ pc := by
  intro same
  have zero : (4 : UInt64) = 0 := by
    rw [← UInt64.add_sub_cancel (a := 4) (b := pc), UInt64.add_comm, same, UInt64.sub_self]
  cases zero

/-- Stepping a `nop` places a breakpoint after it. -/
theorem arm_nop (t : SiteTable) {m : MemoryMap} {regs : Registers}
    (nop : m.read ⟨regs.pc⟩ 4 = .ok [0x1f, 0x20, 0x03, 0xd5]) :
    StepPatch.arm t m regs = (.patched ⟨(place t m (regs.pc + 4)).1.toList⟩,
      (place t m (regs.pc + 4)).2) := by
  have other := add_four_ne regs.pc
  have next : successors regs.pc (UInt32.ofNat (ofLeBytes [0x1f, 0x20, 0x03, 0xd5])) regs =
      { first := regs.pc + 4 } := rfl
  rw [StepPatch.arm, nop]
  dsimp only
  rw [next, if_neg fun same => other (congrArg Successors.first same), StepPatch.targets,
    if_neg other]
  rfl

theorem sameFrames_arm (w : m.Regular) (t : SiteTable) (regs : Registers) :
    SameFrames m (StepPatch.arm t m regs).2.2 :=
  arm_induction (P := fun _ _ m' => SameFrames m m')
    (fun _ t _ guest same => same.trans (sameFrames_place (same.regular w) t guest)) (.refl m)
    regs

theorem sameFrames_disarm (w : m.Regular) (p : StepPatch) (t : SiteTable) :
    SameFrames m (p.disarm t m).2 :=
  disarm_induction (P := fun _ _ m' => SameFrames m m')
    (fun b _ t _ same => same.trans (sameFrames_lift (same.regular w) t b)) (.refl m)

end Native

end GuestExec
