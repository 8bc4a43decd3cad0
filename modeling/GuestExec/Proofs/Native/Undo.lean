import GuestExec.Proofs.Memory.Eased
import GuestExec.Proofs.Native.Overlay
import GuestExec.Proofs.Native.Table

/-!
# Breakpoints are undone

A run starts from a table and a map, and places breakpoints. `Undoable` says that
letting the breakpoints it holds go leads back: to the very table, and to a map that
was eased by faults but has its code words, except those that were stored to. No
breakpoint of another run has to be known for that: its site was in the table, or it
is held along with the others.
-/

namespace GuestExec

open MemoryMap (Eases ModifiesOnly SameFrames)

/-! ## Words of a map -/

namespace MemoryMap

variable {m m' : MemoryMap} {r : Region} {host : HostAddr}

/-- A word of the region `r`: it lies a multiple of four bytes into its memory. -/
structure IsWord (m : MemoryMap) (host : HostAddr) (r : Region) : Prop where
  found : m.findHost host = some r
  aligned : (host.toNat - r.backing.base.toNat) % 4 = 0

theorem IsWord.exists_frame (h : IsWord m host r) (w : m.Regular) (same : SameFrames m m') :
    ∃ r', IsWord m' host r' ∧ r'.frame = r.frame := by
  obtain ⟨r', found, frame⟩ := same.findHost_frame w h.found
  have base : r'.backing.base = r.backing.base := congrArg Region.Frame.hostBase frame
  exact ⟨r', ⟨found, base ▸ h.aligned⟩, frame⟩

/-- A word of the map none of whose addresses is among `stored`. -/
def Spared (m : MemoryMap) (stored : Nat → Prop) (host : HostAddr) : Prop :=
  ∃ r, IsWord m host r ∧
    ∀ i < 4, ¬stored (r.base.toNat + (host.toNat - r.backing.base.toNat + i))

/-- Aligned addresses that are not stored to have such words. -/
theorem Regular.spared (w : m.Regular) {stored : Nat → Prop} {a : GuestAddr}
    (found : m.find a = some r) (aligned : a.word % 4 = 0)
    (unstored : ∀ i < 4, ¬stored (a.toNat + i)) : m.Spared stored (r.mapping.hostAddr a) := by
  have host := w.toNat_hostAddr found
  have held := (Region.holds_iff.1 (w.find_iff.1 found).2).1
  have base := (w.regular_of_find found).base
  have word : a.toNat % 4 = 0 := by
    have word := congrArg UInt64.toNat aligned
    rwa [UInt64.toNat_mod] at word
  have inside : r.offset a = a.toNat - r.base.toNat := rfl
  have offset : (r.mapping.hostAddr a).toNat - r.backing.base.toNat = r.offset a := by omega
  refine ⟨r, ⟨w.findHost_hostAddr found, ?_⟩, fun i short => ?_⟩
  · rw [pageSize] at base
    rw [offset]
    omega
  · rw [offset, show r.base.toNat + (r.offset a + i) = a.toNat + i by omega]
    exact unstored i short

end MemoryMap

open MemoryMap (IsWord Spared)

theorem Region.hostBase_withCode (r : Region) (offset : Nat) (word : UInt32) (perms : Perms) :
    (r.withCode offset word perms).backing.base = r.backing.base := by
  rw [withCode]

/-- A word of code leaves a page protected as its region says. -/
theorem Region.Shielded.withCode {r : Region} (h : r.Shielded) (offset : Nat) (word : UInt32) :
    (r.withCode offset word r.perms).Shielded := by
  intro identity whole page inside free
  have frame := r.frame_withCode offset word r.perms
  injection frame with _ perms _ size kind missing
  rw [Backing.isIdentity, kind] at identity
  rw [missing] at whole
  rw [Backing.pageCount, size] at inside
  rw [Region.guarded_withCode] at free
  rw [Region.protection_withCode, PageMap.get_assign, perms]
  split
  · rfl
  · exact h identity whole page inside free

theorem MemoryMap.eases_withCode {m : MemoryMap} {r : Region}
    (there : m.regions.get? r.base.toNat = some r) (offset : Nat) (word : UInt32) :
    Eases m (m.setRegion (r.withCode offset word r.perms)) :=
  eases_setRegion there (r.frame_withCode offset word r.perms)
    (fun page guarded => by rwa [Region.guarded_withCode] at guarded)
    fun old => old.withCode offset word

namespace Native

variable {m m' : MemoryMap} {r x : Region} {host host' : HostAddr} {Q : Nat → Prop}

/-- A word of code written to its place is the word there, and the other words stay. -/
theorem codeWord_withCode (w : m.Regular) (here : IsWord m host r) (value : UInt32)
    (perms : Perms) (there : IsWord m host' x) :
    codeWord (m.setRegion (r.withCode (host.toNat - r.backing.base.toNat) value perms)) host' =
      if host' = host then value else codeWord m host' := by
  obtain ⟨atBase, lo, -⟩ := w.findHost_iff.1 here.found
  obtain ⟨atBase', lo', -⟩ := w.findHost_iff.1 there.found
  have aligned := here.aligned
  have aligned' := there.aligned
  have found := w.findHost_setRegion atBase
    (r.frame_withCode (host.toNat - r.backing.base.toNat) value perms) there.found
  by_cases same : x.base.toNat = r.base.toNat
  · rw [same, atBase] at atBase'
    cases atBase'
    rw [if_pos rfl] at found
    refine codeWord_eq found fun i inside => ?_
    rw [Region.hostBase_withCode, Region.get_withCode]
    by_cases eq : host' = host
    · rw [if_pos (by rw [eq]; omega), if_pos eq, eq, Nat.add_sub_cancel_left]
    · have apart : host'.toNat ≠ host.toNat := fun h => eq (HostAddr.ext_toNat h)
      rw [if_neg (by omega), if_neg eq]
      exact (getD_codeWord there.found inside).symm
  · have other : host' ≠ host := by
      rintro rfl
      have eq := here.found.symm.trans there.found
      cases eq
      exact same rfl
    rw [if_neg same] at found
    rw [if_neg other, codeWord_of_findHost found, codeWord_of_findHost there.found]

/-- A word that is not stored to stays. -/
theorem codeWord_of_modifiesOnly (w : m.Regular) (modified : ModifiesOnly Q m m')
    (word : IsWord m host r)
    (unstored : ∀ i < 4, ¬Q (r.base.toNat + (host.toNat - r.backing.base.toNat + i))) :
    codeWord m' host = codeWord m host := by
  obtain ⟨r', found', frame⟩ := modified.toSameFrames.findHost_frame w word.found
  have there := (w.findHost_iff.1 word.found).1
  have there' := ((modified.toSameFrames.regular w).findHost_iff.1 found').1
  injection frame with base _ hostBase
  rw [base] at there'
  refine codeWord_eq found' fun i inside => ?_
  rw [hostBase]
  rcases modified.bytes there there' (host.toNat - r.backing.base.toNat + i) with same | ⟨-, stored⟩
  · exact same.trans (getD_codeWord word.found inside).symm
  · exact absurd stored (unstored i inside)

/-! ## What was patched -/

variable {t₀ t t' : SiteTable} {m₀ : MemoryMap} {stored : Nat → Prop} {new : List PatchedSite}
  {live live' : List Breakpoint} {b : Breakpoint}

/-- Since the table `t₀` and the map `m₀` the sites `new` were added and the breakpoints `live`
are held. -/
structure Patches (t₀ : SiteTable) (m₀ : MemoryMap) (stored : Nat → Prop)
    (new : List PatchedSite) (live : List Breakpoint) (t : SiteTable) (m : MemoryMap) : Prop where
  atop : t₀.Atop new live t
  eases : m₀.Eases m
  /-- New sites know how their pages are protected. -/
  placed : ∀ s ∈ new, ∃ r, IsWord m₀ s.host r ∧ s.perms = r.perms
  /-- New sites remember the words that nobody stored to. -/
  original : ∀ host, m₀.Spared stored host → ∀ s ∈ new, s.host = host →
    s.original = codeWord m₀ host
  /-- Where there is no new site the word is in its place. -/
  plain : ∀ host, m₀.Spared stored host → (∀ s ∈ new, s.host ≠ host) →
    codeWord m host = codeWord m₀ host

/-- Letting the breakpoints `live` go leads back to `t₀` and the code of `m₀`. -/
def Undoable (t₀ : SiteTable) (m₀ : MemoryMap) (stored : Nat → Prop) (live : List Breakpoint)
    (t : SiteTable) (m : MemoryMap) : Prop :=
  ∃ new, Patches t₀ m₀ stored new live t m

theorem undoable_refl (t : SiteTable) (m : MemoryMap) (stored : Nat → Prop) :
    Undoable t m stored [] t m :=
  ⟨[], .refl t, .refl m, List.forall_mem_nil _, fun _ _ => List.forall_mem_nil _, fun _ _ _ => rfl⟩

namespace Patches

theorem wellFormed (h : Patches t₀ m₀ stored new live t m) (w : m₀.WellFormed) : m.WellFormed :=
  h.eases.wellFormed w

theorem exists_isWord (h : Patches t₀ m₀ stored new live t m) (w : m₀.Regular)
    (spared : m₀.Spared stored host) : ∃ r, IsWord m host r := by
  obtain ⟨r, word, -⟩ := spared
  obtain ⟨r', word', -⟩ := word.exists_frame w h.eases.toSameFrames
  exact ⟨r', word'⟩

/-- The site of a new breakpoint remembers what was there. -/
theorem add (h : Patches t₀ m₀ stored new live t m) (w : m₀.Regular) (word : IsWord m host r)
    (b : Breakpoint) (at_host : b.host = host) (free : t.contains host = false) :
    Patches t₀ m₀ stored
      (new ++ [{ host, original := codeWord m host, perms := r.perms, holders := 0 }]) (b :: live)
      ⟨t.sites ++ [{ host, original := codeWord m host, perms := r.perms, holders := 1 }]⟩
      (m.setRegion (r.withCode (host.toNat - r.backing.base.toNat) (brk stepImm) r.perms)) := by
  have w' := h.eases.regular w
  have there := (w'.findHost_iff.1 word.found).1
  have unsited : ∀ s ∈ new, s.host ≠ host := fun s mem same => by
    rw [h.atop.contains_iff.2 (.inr ⟨s, mem, same⟩)] at free
    cases free
  constructor
  · exact h.atop.add { host, original := codeWord m host, perms := r.perms, holders := 1 }
      (at_host ▸ free) at_host.symm rfl
  · exact h.eases.trans (MemoryMap.eases_withCode there _ _)
  · intro s mem
    rcases List.mem_append.1 mem with old | added
    · exact h.placed s old
    · rw [List.mem_singleton.1 added]
      obtain ⟨r₀, word₀, frame⟩ := word.exists_frame w' h.eases.toSameFrames.symm
      exact ⟨r₀, word₀, (congrArg Region.Frame.perms frame).symm⟩
  · intro host' spared s mem same
    rcases List.mem_append.1 mem with old | added
    · exact h.original host' spared s old same
    · rw [List.mem_singleton.1 added] at same ⊢
      subst same
      exact h.plain host spared unsited
  · intro host' spared unsited'
    obtain ⟨x, there'⟩ := h.exists_isWord w spared
    have other : host' ≠ host := fun same =>
      unsited' _ (List.mem_append_right _ (List.mem_singleton_self _)) same.symm
    rw [codeWord_withCode w' word _ _ there', if_neg other]
    exact h.plain host' spared fun s mem => unsited' s (List.mem_append_left _ mem)

/-- A new site goes, and puts back what it remembers. -/
theorem remove {s : PatchedSite} (h : Patches t₀ m₀ stored new (b :: live) t m)
    (w : m₀.WellFormed) (isNew : s ∈ new) (at_host : s.host = b.host)
    (atop : t₀.Atop (new.filter (·.host != b.host)) live t') :
    Patches t₀ m₀ stored (new.filter (·.host != b.host)) live t'
      ((writeCode m b.host s.original s.perms).getD m) := by
  have w' := h.wellFormed w
  obtain ⟨r₀, word₀, perms⟩ := h.placed s isNew
  obtain ⟨r, word, frame⟩ := word₀.exists_frame w.toRegular h.eases.toSameFrames
  rw [at_host] at word
  have perms : s.perms = r.perms := perms.trans (congrArg Region.Frame.perms frame).symm
  have there := (w'.findHost_iff.1 word.found).1
  rw [writeCode_eq w' word.found, Option.getD_some, perms]
  constructor
  · exact atop
  · exact h.eases.trans (MemoryMap.eases_withCode there _ _)
  · exact fun s mem => h.placed s (List.mem_filter.1 mem).1
  · exact fun host spared s mem => h.original host spared s (List.mem_filter.1 mem).1
  · intro host spared unsited
    obtain ⟨x, there'⟩ := h.exists_isWord w.toRegular spared
    rw [codeWord_withCode w'.toRegular word _ _ there']
    split
    · rename_i here
      exact h.original host spared s isNew (at_host.trans here.symm)
    · rename_i other
      refine h.plain host spared fun s mem same => unsited s ?_ same
      exact List.mem_filter.2 ⟨mem, bne_iff_ne.2 fun at_b => other (same.symm.trans at_b)⟩

end Patches

/-- The table is `t₀` again, the map `m₀` was eased at most, and every word that is not stored to is
in its place. -/
structure Traceless (t₀ : SiteTable) (m₀ : MemoryMap) (stored : Nat → Prop) (t : SiteTable)
    (m : MemoryMap) : Prop where
  sites : t = t₀
  eases : m₀.Eases m
  words : ∀ host, m₀.Spared stored host → codeWord m host = codeWord m₀ host

theorem traceless_refl (t : SiteTable) (m : MemoryMap) (stored : Nat → Prop) :
    Traceless t m stored t m :=
  ⟨rfl, .refl m, fun _ _ => rfl⟩

/-! ## Protection -/

/-- Pages of identity blocks that have no guard are protected as their regions say. -/
theorem pageProtection_of_shielded {a : GuestAddr} (w : m.WellFormed) (shielded : m.Shielded)
    (found : m.find a = some r) (identity : r.backing.isIdentity = true)
    (free : m.isGuarded a = false) : pageProtection m (r.mapping.hostAddr a) = some r.perms := by
  obtain ⟨there, held⟩ := w.find_iff.1 found
  have host := w.toNat_hostAddr found
  have inside := Region.holds_iff.1 held
  have page : r.offset a / pageSize < r.backing.pageCount := by
    simp only [Region.stop, Region.offset, Region.size, Backing.pageCount, pageSize] at inside ⊢
    omega
  have offset : (r.mapping.hostAddr a).toNat - r.backing.base.toNat = r.offset a := by omega
  rw [MemoryMap.isGuarded_of_find found] at free
  rw [pageProtection, w.findHost_hostAddr found, Option.map_some, offset,
    shielded _ r there identity (w.whole there) _ page free]

/-- They are protected alike afterwards. -/
theorem Traceless.pageProtection (h : Traceless t₀ m₀ stored t m) (w : m₀.WellFormed)
    (shielded : m₀.Shielded) {a : GuestAddr} (found : m₀.find a = some r)
    (identity : r.backing.isIdentity = true) (free : m₀.isGuarded a = false) :
    pageProtection m (r.mapping.hostAddr a) = pageProtection m₀ (r.mapping.hostAddr a) := by
  obtain ⟨r', found', frame⟩ := h.eases.toSameFrames.find_frame w.toRegular found
  have mapping := Region.mapping_of_frame frame
  injection frame with _ perms _ _ kind
  have identity' : r'.backing.isIdentity = true := by
    rw [Backing.isIdentity, kind]
    exact identity
  have after := pageProtection_of_shielded (h.eases.wellFormed w) (h.eases.shielded shielded) found'
    identity' (h.eases.isGuarded w.toRegular found free)
  rw [mapping, perms] at after
  rw [after, pageProtection_of_shielded w shielded found identity free]

namespace Undoable

/-- With nothing held there is no trace. -/
theorem traceless (h : Undoable t₀ m₀ stored [] t m) : Traceless t₀ m₀ stored t m := by
  obtain ⟨new, h⟩ := h
  obtain ⟨same, none⟩ := h.atop.eq_of_nil
  subst none
  exact ⟨same, h.eases, fun host spared => h.plain host spared (List.forall_mem_nil _)⟩

theorem perm (h : Undoable t₀ m₀ stored live t m) (same : live.Perm live') :
    Undoable t₀ m₀ stored live' t m := by
  obtain ⟨new, h⟩ := h
  exact ⟨new, h.atop.perm same, h.eases, h.placed, h.original, h.plain⟩

/-- Faults mend pages and store to words. -/
theorem fault (h : Undoable t₀ m₀ stored live t m) (w : m₀.Regular) (eases : m.Eases m')
    (modified : ModifiesOnly stored m m') : Undoable t₀ m₀ stored live t m' := by
  obtain ⟨new, h⟩ := h
  refine ⟨new, h.atop, h.eases.trans eases, h.placed, h.original, fun host spared unsited => ?_⟩
  refine Eq.trans ?_ (h.plain host spared unsited)
  obtain ⟨r₀, word₀, unstored⟩ := spared
  obtain ⟨r, word, frame⟩ := word₀.exists_frame w h.eases.toSameFrames
  injection frame with base _ hostBase
  rw [← base, ← hostBase] at unstored
  exact codeWord_of_modifiesOnly (h.eases.regular w) modified word unstored

theorem eases (h : Undoable t₀ m₀ stored live t m) : m₀.Eases m := by
  obtain ⟨new, h⟩ := h
  exact h.eases

theorem wellFormed (h : Undoable t₀ m₀ stored live t m) (w : m₀.WellFormed) : m.WellFormed :=
  h.eases.wellFormed w

/-- Every site has a holder if the sites of the start have. -/
theorem held (h : Undoable t₀ m₀ stored live t m) (held : ∀ s ∈ t₀.sites, s.holders ≠ 0) :
    ∀ s ∈ t.sites, s.holders ≠ 0 := by
  obtain ⟨new, h⟩ := h
  exact h.atop.held held

/-- Whatever else eases the map, the table and the protection can still be undone. -/
theorem forget (h : Undoable t₀ m₀ stored live t m) (eases : m.Eases m') :
    Undoable t₀ m₀ (fun _ => True) live t m' := by
  obtain ⟨new, h⟩ := h
  have none (host : HostAddr) (spared : m₀.Spared (fun _ => True) host) : False := by
    obtain ⟨r, -, unstored⟩ := spared
    exact unstored 0 (by decide) trivial
  exact ⟨new, h.atop, h.eases.trans eases, h.placed, fun host spared => (none host spared).elim,
    fun host spared => (none host spared).elim⟩

theorem place (h : Undoable t₀ m₀ stored live t m) (w : m₀.Regular) (guest : UInt64) :
    Undoable t₀ m₀ stored ((place t m guest).1.toList ++ live) (place t m guest).2.1
      (place t m guest).2.2 := by
  obtain ⟨new, h⟩ := h
  have w' := h.eases.regular w
  have placed := place_cases w' t guest
  generalize Native.place t m guest = result at placed
  cases placed with
  | refused => exact ⟨new, h⟩
  | @shared r _ _ there =>
    exact ⟨new, h.atop.share (b := ⟨guest, siteOf r guest⟩) there, h.eases, h.placed, h.original,
      h.plain⟩
  | @fresh r runnable code free _ =>
    have host := w'.toNat_hostAddr code.found
    rw [← siteOf] at host
    have offset : (siteOf r guest).toNat - r.backing.base.toNat = r.offset ⟨guest⟩ := by omega
    have word : IsWord m (siteOf r guest) r :=
      ⟨w'.findHost_hostAddr code.found, offset ▸ code.aligned w' runnable.aligned⟩
    dsimp only
    rw [← offset]
    exact ⟨_, h.add w word ⟨guest, siteOf r guest⟩ rfl free⟩

/-- Sites with other holders stay, so only new sites are ever put back. -/
theorem lift (h : Undoable t₀ m₀ stored (b :: live) t m) (w : m₀.WellFormed)
    (held : ∀ s ∈ t₀.sites, s.holders ≠ 0) :
    Undoable t₀ m₀ stored live (lift t m b).1 (lift t m b).2 := by
  obtain ⟨new, h⟩ := h
  have released := h.atop.release held
  rw [Native.lift]
  generalize t.release b.host = result at released
  cases released with
  | kept atop => exact ⟨new, atop, h.eases, h.placed, h.original, h.plain⟩
  | @gone _ s isNew at_host atop => exact ⟨_, h.remove (s := s) w isNew at_host atop⟩

theorem arm (h : Undoable t₀ m₀ stored live t m) (w : m₀.Regular) (regs : Registers) :
    Undoable t₀ m₀ stored ((StepPatch.arm t m regs).1.breakpoints ++ live)
      (StepPatch.arm t m regs).2.1 (StepPatch.arm t m regs).2.2 := by
  refine arm_induction (P := fun placed t m => Undoable t₀ m₀ stored (placed ++ live) t m)
    (fun placed t m guest before => (before.place w guest).perm ?_) h regs
  rw [← List.append_assoc]
  exact List.perm_append_comm.append_right live

theorem disarm {p : StepPatch} (h : Undoable t₀ m₀ stored (p.breakpoints ++ live) t m)
    (w : m₀.WellFormed) (held : ∀ s ∈ t₀.sites, s.holders ≠ 0) :
    Undoable t₀ m₀ stored live (p.disarm t m).1 (p.disarm t m).2 :=
  disarm_induction (P := fun rest t m => Undoable t₀ m₀ stored (rest ++ live) t m)
    (fun _ _ _ _ before => before.lift w held) h

end Undoable

end Native

end GuestExec
