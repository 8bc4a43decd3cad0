import GuestExec.Proofs.Native.Holders
import GuestExec.Proofs.Native.Overlay

/-!
# Cores that step through the same code

Several cores place breakpoints in one memory and take them away again, in any
order; in between the guest writes elsewhere. The breakpoints that are held say
all there is to know: the table counts them, their words are breakpoints, and
every other word, as well as the protection of every page, is what it would be
had no core ever stepped.
-/

namespace GuestExec.Native

variable {plain m : MemoryMap} {t t' : SiteTable} {live live' : List Breakpoint}
  {b : Breakpoint} {r r₀ : Region} {host : HostAddr} {site site' : PatchedSite}

/-! ## What a site remembers -/

/-- The site can put back what the region `r` has at its address. -/
structure PatchedSite.Suits (site : PatchedSite) (r : Region) : Prop where
  aligned : site.host.toNat % 4 = 0
  perms : site.perms = r.perms
  unguarded : r.backing.guarded.contains
    ((site.host.toNat - r.backing.base.toNat) / pageSize) = false
  original : ∀ i < 4, (toLeBytes 4 site.original.toNat).getD i 0 =
    r.backing.bytes.get (site.host.toNat - r.backing.base.toNat + i)

/-- All sites can put back what `plain` has. -/
def SiteTable.Restores (t : SiteTable) (plain : MemoryMap) : Prop :=
  ∀ site ∈ t.sites, ∃ r, plain.findHost site.host = some r ∧ site.Suits r

theorem PatchedSite.Suits.of_holders (h : site.Suits r) {holders : Nat} :
    { site with holders }.Suits r :=
  ⟨h.aligned, h.perms, h.unguarded, h.original⟩

theorem PatchedSite.Suits.codeWord (h : site.Suits r) (found : m.findHost site.host = some r) :
    codeWord m site.host = site.original :=
  codeWord_eq found fun i inside => (h.original i inside).symm

/-- A write elsewhere in the region. -/
theorem PatchedSite.Suits.written {data : List UInt8} (h : site.Suits r)
    (lo : r.backing.base.toNat ≤ host.toNat) (here : r.backing.base.toNat ≤ site.host.toNat)
    (apart : host.toNat + data.length ≤ site.host.toNat ∨ site.host.toNat + 4 ≤ host.toNat) :
    site.Suits (r.written host data) := by
  refine ⟨h.aligned, h.perms, h.unguarded, fun i inside => ?_⟩
  rw [get_written, show (r.written host data).backing.base = r.backing.base from rfl,
    if_neg (by omega)]
  exact h.original i inside

/-- Another word at the address of a site: a breakpoint if one is held there, what the site
remembers if none is. -/
theorem PatchedSite.Suits.overlaid {word : UInt32} (suits : site.Suits r₀)
    (h : Overlaid live plain m) (c : CodeMemory plain)
    (found₀ : plain.findHost site.host = some r₀) (found : m.findHost site.host = some r)
    (elsewhere : ∀ n, n / 4 * 4 ≠ site.host.toNat → (Patched live' n ↔ Patched live n))
    (held : (∃ b ∈ live', b.host = site.host) → word = brk stepImm)
    (free : (¬∃ b ∈ live', b.host = site.host) → word = site.original) :
    Overlaid live' plain
      (m.setRegion (r.withCode (site.host.toNat - r.backing.base.toNat) word site.perms)) := by
  obtain ⟨x, found', frame, -⟩ := h.findHost c found₀
  rw [found] at found'
  cases found'
  have w := h.toSameFrames.wellFormed c.wellFormed
  obtain ⟨there₀, lo, hi⟩ := c.wellFormed.findHost_iff.1 found₀
  have there := (w.findHost_iff.1 found).1
  obtain ⟨base, -⟩ := c.aligned there₀
  have aligned := suits.aligned
  injection frame with base' _ hostBase
  have place : r₀.backing.base.toNat + (site.host.toNat - r₀.backing.base.toNat) =
      site.host.toNat := by omega
  have patched : Patched live' site.host.toNat ↔ ∃ b ∈ live', b.host = site.host :=
    patched_iff aligned (Nat.zero_lt_succ 3)
  rw [suits.perms, hostBase]
  refine h.withCode c (base' ▸ there₀) there (by omega) (by omega) suits.unguarded ?_ ?_ ?_
  · rw [place]
    exact elsewhere
  · rw [place, patched]
    intro here i
    rw [held here]
    exact getD_brk
  · rw [place, patched]
    intro here
    rw [free here]
    exact suits.original

namespace SiteTable

theorem Remembers.restores (h : Remembers t t') (restores : t.Restores plain) :
    t'.Restores plain := by
  intro site' mem'
  obtain ⟨site, mem, eq⟩ := h site' mem'
  obtain ⟨r, found, suits⟩ := restores site mem
  rw [eq]
  exact ⟨r, found, suits.of_holders⟩

/-- The sites remember what a write spares. -/
theorem Restores.writeHost {data : List UInt8} (h : t.Restores plain) (c : CodeMemory plain)
    (spares : ∀ site ∈ t.sites,
      host.toNat + data.length ≤ site.host.toNat ∨ site.host.toNat + 4 ≤ host.toNat) :
    t.Restores (plain.apply (.writeHost host data)) := by
  intro site mem
  obtain ⟨r, found, suits⟩ := h site mem
  have here := (c.wellFormed.findHost_iff.1 found).2.1
  rcases c.findHost_writeHost found host data with same | ⟨lo, written⟩
  · exact ⟨r, same, suits⟩
  · exact ⟨_, written, suits.written lo here (spares site mem)⟩

end SiteTable

/-! ## The system -/

/-- One memory that cores step through. -/
structure SharedCode where
  sites : SiteTable
  memory : MemoryMap
  /-- The breakpoints that are held, by whichever core. -/
  live : List Breakpoint
  /-- The memory as it would be had there been no breakpoints. -/
  plain : MemoryMap

namespace SharedCode

/-- A memory that no core has stepped through. -/
def start (m : MemoryMap) : SharedCode := { sites := {}, memory := m, live := [], plain := m }

def install (s : SharedCode) (guest : UInt64) : SharedCode :=
  let (b, sites, memory) := place s.sites s.memory guest
  { s with sites, memory, live := s.live ++ b.toList }

def remove (s : SharedCode) (b : Breakpoint) : SharedCode :=
  let (sites, memory) := lift s.sites s.memory b
  { s with sites, memory, live := s.live.erase b }

def arm (s : SharedCode) (regs : Registers) : SharedCode :=
  let (armed, sites, memory) := StepPatch.arm s.sites s.memory regs
  { s with sites, memory, live := s.live ++ armed.breakpoints }

def disarm (s : SharedCode) (p : StepPatch) : SharedCode :=
  let (sites, memory) := p.disarm s.sites s.memory
  { s with sites, memory, live := p.breakpoints.foldl List.erase s.live }

def write (s : SharedCode) (host : HostAddr) (data : List UInt8) : SharedCode :=
  { s with
    memory := s.memory.apply (.writeHost host data)
    plain := s.plain.apply (.writeHost host data) }

/-- What can happen to the memory: a core arms and disarms, or gets that far with one breakpoint,
and the guest writes to words without breakpoints. -/
inductive Step (s : SharedCode) : SharedCode → Prop where
  | install (guest : UInt64) : Step s (s.install guest)
  | remove (b : Breakpoint) : b ∈ s.live → Step s (s.remove b)
  | arm (regs : Registers) : Step s (s.arm regs)
  | disarm (p : StepPatch) : (∀ b, p.breakpoints.count b ≤ s.live.count b) → Step s (s.disarm p)
  | write (host : HostAddr) (data : List UInt8) : Spares s.live host data →
    Step s (s.write host data)

/-- The states that a memory can get into. -/
inductive Reaches (m : MemoryMap) : SharedCode → Prop where
  | start : Reaches m (start m)
  | step {s s' : SharedCode} : Reaches m s → Step s s' → Reaches m s'

/-- What all states have in common. -/
structure Invariant (s : SharedCode) : Prop where
  code : CodeMemory s.plain
  counts : s.sites.Counts s.live
  restores : s.sites.Restores s.plain
  overlaid : Overlaid s.live s.plain s.memory

theorem invariant_start (c : CodeMemory m) : (start m).Invariant :=
  ⟨c, SiteTable.counts_empty, nofun, overlaid_self m⟩

namespace Invariant

variable {s : SharedCode}

theorem wellFormed (h : s.Invariant) : s.memory.WellFormed :=
  h.overlaid.toSameFrames.wellFormed h.code.wellFormed

/-- Every site is held. -/
theorem exists_holder (h : s.Invariant) (mem : site ∈ s.sites.sites) :
    ∃ b ∈ s.live, b.host = site.host := by
  have pos := h.counts.positive site mem
  rw [h.counts.holders site mem] at pos
  exact holdersAt_pos.1 pos

/-- The region of runnable code has its like in the plain memory. -/
theorem exists_plain (h : s.Invariant) {guest : UInt64} (code : CodeIn s.memory guest r) :
    ∃ r₀, s.plain.findHost (siteOf r guest) = some r₀ ∧ r₀.frame = r.frame ∧
      OverlaidRegion s.live r₀ r := by
  have w := h.wellFormed
  obtain ⟨r₀, found₀, frame⟩ := h.overlaid.toSameFrames.symm.findHost_frame w.toRegular
    (w.findHost_hostAddr code.found)
  have there₀ := (h.code.wellFormed.findHost_iff.1 found₀).1
  rw [show r₀.base = r.base from congrArg Region.Frame.base frame] at there₀
  exact ⟨r₀, found₀, frame, h.overlaid.overlaid there₀ (w.find_iff.1 code.found).1⟩

/-- A new site remembers what the plain memory has. -/
theorem suits_newSite (h : s.Invariant) {guest : UInt64} (runnable : Runnable s.memory guest)
    (code : CodeIn s.memory guest r) (free : s.sites.contains (siteOf r guest) = false) :
    ∃ r₀, s.plain.findHost (siteOf r guest) = some r₀ ∧ (newSite s.memory r guest).Suits r₀ := by
  have w := h.wellFormed
  obtain ⟨r₀, found₀, frame, region⟩ := h.exists_plain code
  obtain ⟨base, -⟩ := h.code.aligned (h.code.wellFormed.findHost_iff.1 found₀).1
  have host := w.toNat_hostAddr code.found
  have aligned := code.aligned w.toRegular runnable.aligned
  have unguarded := code.unguarded_page aligned
  injection frame with _ perms hostBase
  rw [← siteOf, ← hostBase] at host
  rw [region.guarded] at unguarded
  have word : (siteOf r guest).toNat % 4 = 0 := by omega
  have unheld : ¬∃ b ∈ s.live, b.host = siteOf r guest := by
    rintro ⟨b, held, same⟩
    obtain ⟨site, mem, at_host⟩ := h.counts.held b held
    rw [SiteTable.contains_iff.2 ⟨site, mem, at_host.trans same⟩] at free
    cases free
  refine ⟨r₀, found₀, word, perms.symm, ?_, fun i inside => ?_⟩
  · rw [newSite, show (siteOf r guest).toNat - r₀.backing.base.toNat = r.offset ⟨guest⟩ by omega]
    exact unguarded
  · rw [newSite, h.overlaid.codeWord_free h.code word unheld]
    exact getD_codeWord found₀ inside

theorem install (h : s.Invariant) (guest : UInt64) : (s.install guest).Invariant := by
  have w := h.wellFormed
  have placed := place_cases w.toRegular s.sites guest
  rw [SharedCode.install]
  generalize place s.sites s.memory guest = result at placed
  cases placed with
  | refused =>
    show Invariant { s with live := s.live ++ [] }
    rw [List.append_nil]
    exact h
  | @shared r _ code there =>
    -- Someone holds the site, so the new breakpoint adds no word.
    obtain ⟨site, mem, same⟩ := SiteTable.contains_iff.1 there
    obtain ⟨b, held, host⟩ := h.exists_holder mem
    constructor
    · exact h.code
    · exact SiteTable.Counts.share (b := ⟨guest, siteOf r guest⟩) h.counts there
    · exact (SiteTable.remembers_adjust _ _ _).restores h.restores
    · refine h.overlaid.congr fun n => patched_concat.trans (or_iff_left_of_imp fun word => ?_)
      exact ⟨b, held, by rw [host, same]; exact word⟩
  | @fresh r runnable code free room =>
    obtain ⟨r₀, found₀, suits⟩ := h.suits_newSite runnable code free
    have host := w.toNat_hostAddr code.found
    rw [← siteOf] at host
    have offset : (siteOf r guest).toNat - r.backing.base.toNat = r.offset ⟨guest⟩ := by omega
    constructor
    · exact h.code
    · exact SiteTable.Counts.add (b := ⟨guest, siteOf r guest⟩) h.counts free room rfl rfl
    · intro site mem
      rcases List.mem_append.1 mem with old | new
      · exact h.restores site old
      · rw [List.mem_singleton.1 new]
        exact ⟨r₀, found₀, suits⟩
    · dsimp only
      rw [← offset]
      refine suits.overlaid h.overlaid h.code found₀ (w.findHost_hostAddr code.found)
        (fun n elsewhere => ?_) (fun _ => rfl) fun unheld => ?_
      · exact patched_concat.trans (or_iff_left elsewhere.symm)
      · exact absurd ⟨_, List.mem_append_right _ (List.mem_singleton_self _), rfl⟩ unheld

theorem remove (h : s.Invariant) (held : b ∈ s.live) : (s.remove b).Invariant := by
  have w := h.wellFormed
  have released := h.counts.release held
  rw [SharedCode.remove, lift]
  generalize s.sites.release b.host = result at released
  cases released with
  | kept counts remembers others =>
    obtain ⟨other, left, same⟩ := others
    constructor
    · exact h.code
    · exact counts
    · exact remembers.restores h.restores
    · refine h.overlaid.congr fun n => ((patched_erase held).trans ?_).symm
      exact or_iff_left_of_imp fun word => ⟨other, left, by rw [same]; exact word⟩
  | @gone _ site counts remembers mem host others =>
    obtain ⟨r₀, found₀, suits⟩ := h.restores site mem
    obtain ⟨r, found, -⟩ := h.overlaid.findHost h.code found₀
    dsimp only
    rw [← host] at others ⊢
    rw [writeCode_eq w found, Option.getD_some]
    constructor
    · exact h.code
    · exact counts
    · exact remembers.restores h.restores
    · refine suits.overlaid h.overlaid h.code found₀ found (fun n elsewhere => ?_)
        (fun ⟨other, left, same⟩ => absurd same (others other left)) fun _ => rfl
      rw [patched_erase held, ← host]
      exact (or_iff_left elsewhere.symm).symm

/-- Arming installs one breakpoint after the other. -/
theorem arm (h : s.Invariant) (regs : Registers) : (s.arm regs).Invariant := by
  refine arm_induction (P := fun placed t m => Invariant ⟨t, m, s.live ++ placed, s.plain⟩)
    (fun placed t m guest before => ?_) ?_ regs
  · have installed := before.install guest
    rw [SharedCode.install] at installed
    dsimp only at installed
    rw [List.append_assoc] at installed
    exact installed
  · rw [List.append_nil]
    exact h

/-- Disarming removes one breakpoint after the other. -/
theorem disarm (h : s.Invariant) {p : StepPatch}
    (held : ∀ b, p.breakpoints.count b ≤ s.live.count b) : (s.disarm p).Invariant := by
  have removed := disarm_induction (p := p) (P := fun rest t m => ∃ live : List Breakpoint,
    Invariant ⟨t, m, live, s.plain⟩ ∧ (∀ b, rest.count b ≤ live.count b) ∧
      rest.foldl List.erase live = p.breakpoints.foldl List.erase s.live)
    (fun b rest t m before => ?_) ⟨s.live, h, held, rfl⟩
  · obtain ⟨live, invariant, -, left⟩ := removed
    rw [SharedCode.disarm, ← left]
    exact invariant
  · obtain ⟨live, invariant, held, left⟩ := before
    have mem : b ∈ live := by
      have count := held b
      rw [List.count_cons_self] at count
      exact List.count_pos_iff.1 (by omega)
    refine ⟨live.erase b, invariant.remove mem, fun x => ?_, left⟩
    have count := held x
    rw [List.count_cons] at count
    rw [List.count_erase]
    omega

theorem write (h : s.Invariant) {data : List UInt8} (spares : Spares s.live host data) :
    (s.write host data).Invariant where
  code := h.code.writeHost host data
  counts := h.counts
  restores := by
    refine h.restores.writeHost h.code fun site mem => ?_
    obtain ⟨b, held, same⟩ := h.exists_holder mem
    exact same ▸ spares b held
  overlaid := h.overlaid.writeHost h.code spares

/-- Every step leaves the invariant as it is. -/
theorem step {s' : SharedCode} (h : s.Invariant) (step : Step s s') : s'.Invariant := by
  cases step with
  | install guest => exact h.install guest
  | remove b held => exact h.remove held
  | arm regs => exact h.arm regs
  | disarm p held => exact h.disarm held
  | write host data spares => exact h.write spares

end Invariant

theorem invariant_of_reaches {s : SharedCode} (c : CodeMemory m) (reached : Reaches m s) :
    s.Invariant := by
  induction reached with
  | start => exact invariant_start c
  | step _ step ih => exact ih.step step

/-- A page of code that starts with two `nop`s. -/
def codePage : List MemoryMap.Call :=
  [.mapIdentity ⟨0x300000000⟩ 0x1000 ⟨true, true, true⟩,
    .writeHost ⟨0x300000000⟩ [0x1f, 0x20, 0x03, 0xd5, 0x1f, 0x20, 0x03, 0xd5]]

/-- The breakpoint at the second `nop`. -/
def second : Breakpoint := ⟨0x300000004, ⟨0x300000004⟩⟩

/-- Two cores hold that breakpoint. -/
def joined : SharedCode :=
  ((start (MemoryMap.after codePage)).install second.guest).install second.guest

end SharedCode

end GuestExec.Native
