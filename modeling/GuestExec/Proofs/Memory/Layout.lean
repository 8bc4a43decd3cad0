import GuestExec.Memory.Map
import GuestExec.Proofs.Memory.Table

/-!
# Well-formed memory maps

A map is `Regular` when its regions are whole pages, no two of them share a
guest or a host address, and the table by host address is the inverse of the
table by guest address. Then a guest address lies in a region exactly when
`find` gives that region, and a host address lies in a region's memory exactly
when `findHost` does. It is `WellFormed` when the host has all pages of all
regions besides, so that it refuses no change of their protection.

What a guest does changes contents and guards but no region's `Frame`, so
`SameFrames` is what every run keeps; it fixes all translations.
-/

namespace GuestExec

/-! ## Addresses and pages -/

namespace GuestAddr

theorem ext_toNat {a b : GuestAddr} (h : a.toNat = b.toNat) : a = b := by
  cases a
  cases b
  exact congrArg mk (UInt64.toNat_inj.1 h)

theorem toNat_add_ofNat (a : GuestAddr) (i : Nat) :
    (a + UInt64.ofNat i).toNat = (a.toNat + i) % 0x1_0000_0000_0000_0000 := by
  rw [toNat_add, UInt64.toNat_ofNat', Nat.add_mod_mod]

theorem add_zero (a : GuestAddr) : a + UInt64.ofNat 0 = a := by
  show (⟨a.word + 0⟩ : GuestAddr) = a
  rw [UInt64.add_zero]

theorem add_ofNat_add (a : GuestAddr) (i j : Nat) :
    a + UInt64.ofNat i + UInt64.ofNat j = a + UInt64.ofNat (i + j) := by
  refine ext_toNat ?_
  rw [toNat_add_ofNat, toNat_add_ofNat, toNat_add_ofNat]
  omega

/-- The addresses of a range that does not wrap around follow each other. -/
theorem toNat_add_of_lt {a : GuestAddr} {len : Nat}
    (short : a.toNat + len ≤ 0x1_0000_0000_0000_0000) {i : Nat} (inside : i < len) :
    (a + UInt64.ofNat i).toNat = a.toNat + i := by
  rw [toNat_add_ofNat]
  exact Nat.mod_eq_of_lt (by omega)

/-- A range on one page does not wrap around. -/
theorem add_le_of_fits {a : GuestAddr} {len : Nat}
    (fits : a.toNat % pageSize + len ≤ pageSize) : a.toNat + len ≤ 0x1_0000_0000_0000_0000 := by
  have := a.toNat_lt
  simp only [pageSize] at fits
  omega

/-- The number of the page that holds `a`. -/
def page (a : GuestAddr) : Nat := a.toNat / pageSize

@[simp] theorem toNat_pageOffset (a : GuestAddr) : a.pageOffset.toNat = a.toNat % pageSize := by
  simp [pageOffset, toNat, pageSize]

theorem toNat_pageBase (a : GuestAddr) : a.pageBase.toNat = a.page * pageSize := by
  have le : a.word % 4096 ≤ a.word := by
    rw [UInt64.le_iff_toNat_le, UInt64.toNat_mod]
    exact Nat.mod_le _ _
  rw [pageBase, toNat, UInt64.toNat_sub_of_le _ _ le, UInt64.toNat_mod]
  simp only [page, toNat, pageSize, UInt64.reduceToNat]
  omega

@[simp] theorem page_pageBase (a : GuestAddr) : a.pageBase.page = a.page := by
  rw [page, toNat_pageBase, Nat.mul_div_cancel _ (by decide)]

end GuestAddr

theorem HostAddr.ext_toNat {a b : HostAddr} (h : a.toNat = b.toNat) : a = b := by
  cases a
  cases b
  exact congrArg mk (UInt64.toNat_inj.1 h)

/-! ## Regions -/

/-- What of a region stays while guests run. -/
structure Region.Frame where
  base : GuestAddr
  perms : Perms
  hostBase : HostAddr
  size : Nat
  kind : BackingKind
  missing : PageSet

namespace Region

/-- All of a region but its contents, its guards and the protection of its host pages. -/
def frame (r : Region) : Frame :=
  { base := r.base, perms := r.perms, hostBase := r.backing.base, size := r.backing.size
    kind := r.backing.kind, missing := r.backing.missing }

/-- Where a region lies, in the guest's memory and in the host's. -/
structure Extent where
  base : GuestAddr
  hostBase : HostAddr
  size : Nat

def extent (r : Region) : Extent :=
  { base := r.base, hostBase := r.backing.base, size := r.backing.size }

def Frame.extent (f : Frame) : Extent :=
  { base := f.base, hostBase := f.hostBase, size := f.size }

/-- The region is whole pages, and its memory lies within the host's addresses. -/
structure Regular (r : Region) : Prop where
  base : r.base.toNat % pageSize = 0
  size : r.size % pageSize = 0
  pos : 0 < r.size
  fits : r.size < 0x1_0000_0000_0000_0000
  host : r.backing.base.toNat + r.size ≤ 0x1_0000_0000_0000_0000

/-- The region is regular, and its memory whole. -/
structure Paged (r : Region) : Prop extends Regular r where
  whole : r.backing.missing = .empty

theorem holds_iff {r : Region} {a : GuestAddr} :
    r.holds a = true ↔ r.base.toNat ≤ a.toNat ∧ a.toNat < r.stop := by
  simp [holds]

theorem Regular.holds_of_page {r : Region} (regular : r.Regular) {a b : GuestAddr}
    (held : r.holds a = true) (same : b.page = a.page) : r.holds b = true := by
  have h := holds_iff.1 held
  have base := regular.base
  have size := regular.size
  simp only [stop, GuestAddr.page, pageSize] at h base size same
  rw [holds_iff, stop]
  omega

/-- Regions with one frame differ in nothing that translation reads. -/
theorem mapping_of_frame {r r' : Region} (h : r'.frame = r.frame) : r'.mapping = r.mapping := by
  injection h with base perms host size
  simp [mapping, Region.size, base, perms, host, size]

theorem Regular.of_extent {r r' : Region} (regular : r.Regular) (h : r'.extent = r.extent) :
    r'.Regular := by
  injection h with base host size
  constructor
  · rw [base]
    exact regular.base
  · rw [Region.size, size]
    exact regular.size
  · rw [Region.size, size]
    exact regular.pos
  · rw [Region.size, size]
    exact regular.fits
  · rw [Region.size, size, host]
    exact regular.host

end Region

namespace MemoryMap

/-- The regions lie apart, and both tables know where. -/
structure Regular (m : MemoryMap) : Prop where
  keyed : ∀ {k r}, m.regions.get? k = some r → r.base.toNat = k
  regular : ∀ {k r}, m.regions.get? k = some r → r.Regular
  apart : ∀ {k r k' r'}, m.regions.get? k = some r → m.regions.get? k' = some r' → k < k' →
    r.stop ≤ k'
  hosted : ∀ {h g}, m.byHost.get? h = some g ↔
    ∃ r, m.regions.get? g.toNat = some r ∧ r.backing.base.toNat = h
  hostApart : ∀ {k r k' r'}, m.regions.get? k = some r → m.regions.get? k' = some r' → k ≠ k' →
    r.backing.base.toNat + r.size ≤ r'.backing.base.toNat ∨
      r'.backing.base.toNat + r'.size ≤ r.backing.base.toNat

/-- What every operation keeps of a map while the host has all its pages. -/
structure WellFormed (m : MemoryMap) : Prop extends Regular m where
  whole : ∀ {k r}, m.regions.get? k = some r → r.backing.missing = .empty

variable {m m' m'' : MemoryMap} {a b : GuestAddr} {r : Region}

theorem regular_empty : (empty : MemoryMap).Regular := by
  have none : ∀ k, (empty : MemoryMap).regions.get? k = .none := AddressTable.get?_empty
  constructor <;> intros <;> simp_all [empty, AddressTable.get?_empty]

theorem wellFormed_empty : (empty : MemoryMap).WellFormed :=
  ⟨regular_empty, fun found => by cases found⟩

/-- A regular map whose regions were seen to have all pages. -/
theorem Regular.wellFormed (w : m.Regular)
    (h : m.regions.values.all (fun r => r.backing.missing.runs.isEmpty) = true) :
    m.WellFormed := by
  refine ⟨w, fun {k r} found => ?_⟩
  have runs := List.all_eq_true.1 h r (AddressTable.mem_values.2 ⟨k, found⟩)
  rw [List.isEmpty_iff] at runs
  exact congrArg PageSet.mk runs

theorem WellFormed.paged (w : m.WellFormed) {k : Nat} (found : m.regions.get? k = some r) :
    r.Paged :=
  ⟨w.regular found, w.whole found⟩

namespace Regular

/-- A region is found at an address exactly when it holds it. -/
theorem find_iff (w : m.Regular) :
    m.find a = some r ↔ m.regions.get? r.base.toNat = some r ∧ r.holds a = true := by
  rw [find, Option.filter_eq_some_iff, AddressTable.floor?_eq_some_iff]
  constructor
  · rintro ⟨⟨k, found, -, -⟩, held⟩
    exact ⟨(w.keyed found).symm ▸ found, held⟩
  · rintro ⟨found, held⟩
    obtain ⟨lo, hi⟩ := Region.holds_iff.1 held
    refine ⟨⟨r.base.toNat, found, lo, fun k r' found' le => ?_⟩, held⟩
    by_cases above : r.base.toNat < k
    · have := w.apart found found' above
      omega
    · omega

/-- The region `r` is replaced by another of the same extent, or taken out. -/
theorem find_replaced (w : m.Regular) (w' : m'.Regular)
    (found : m.regions.get? r.base.toNat = some r) {now : Option Region}
    (place : ∀ x, now = some x → x.base = r.base ∧ x.size = r.size)
    (regions : ∀ k, m'.regions.get? k = if k = r.base.toNat then now else m.regions.get? k)
    (a : GuestAddr) : m'.find a = if r.holds a then now else m.find a := by
  have same : ∀ x, now = some x → x.holds a = r.holds a := by
    intro x here
    obtain ⟨base, size⟩ := place x here
    rw [Region.holds, Region.holds, Region.stop, Region.stop, base, size]
  apply Option.ext
  intro x
  rw [w'.find_iff, regions]
  by_cases held : r.holds a = true
  · rw [if_pos held]
    constructor
    · rintro ⟨there, held'⟩
      split at there
      · exact there
      · rename_i other
        -- Two regions of `m` would hold `a`.
        have both := (w.find_iff.2 ⟨there, held'⟩).symm.trans (w.find_iff.2 ⟨found, held⟩)
        cases both
        exact absurd rfl other
    · intro here
      rw [if_pos (congrArg GuestAddr.toNat (place x here).1)]
      exact ⟨here, (same x here).trans held⟩
  · rw [if_neg held, w.find_iff]
    refine and_congr_left fun held' => ?_
    split
    · rename_i here
      refine ⟨fun there => absurd ((same x there).symm.trans held') held, fun there => ?_⟩
      rw [here, found] at there
      cases there
      exact absurd held' held
    · rfl

theorem regular_of_find (w : m.Regular) (found : m.find a = some r) : r.Regular :=
  w.regular (w.find_iff.1 found).1

/-- All addresses of a page lie in one region or in none. -/
theorem find_page (w : m.Regular) (same : b.page = a.page) : m.find b = m.find a := by
  apply Option.ext
  intro r
  rw [w.find_iff, w.find_iff]
  refine and_congr_right fun found => ⟨fun held => ?_, fun held => ?_⟩
  · exact (w.regular found).holds_of_page held same.symm
  · exact (w.regular found).holds_of_page held same

theorem translate_page (w : m.Regular) (same : b.page = a.page) :
    m.translate b = m.translate a := by
  rw [translate, translate, w.find_page same]

/-- The host address of an address that a region holds lies as far into its memory. -/
theorem toNat_hostAddr (w : m.Regular) (found : m.find a = some r) :
    (r.mapping.hostAddr a).toNat = r.backing.base.toNat + r.offset a := by
  obtain ⟨lo, hi⟩ := Region.holds_iff.1 (w.find_iff.1 found).2
  have host := (w.regular_of_find found).host
  have le : r.base.word ≤ a.word := UInt64.le_iff_toNat_le.2 lo
  have sub : (a - r.base : UInt64).toNat = r.offset a := UInt64.toNat_sub_of_le _ _ le
  rw [Mapping.hostAddr, HostAddr.toNat_add]
  show (r.backing.base.toNat + (a - r.base : UInt64).toNat) % 0x1_0000_0000_0000_0000 = _
  rw [sub]
  apply Nat.mod_eq_of_lt
  simp only [Region.stop, Region.offset] at *
  omega

/-- A region is found at a host address exactly when its memory holds it. -/
theorem findHost_iff (w : m.Regular) {host : HostAddr} :
    m.findHost host = some r ↔ m.regions.get? r.base.toNat = some r ∧
      r.backing.base.toNat ≤ host.toNat ∧ host.toNat < r.backing.base.toNat + r.size := by
  rw [findHost, Option.bind_eq_some_iff]
  constructor
  · rintro ⟨base, nearest, found⟩
    obtain ⟨h, hosted, le, -⟩ := AddressTable.floor?_eq_some_iff.1 nearest
    obtain ⟨atBase, inside⟩ := Option.filter_eq_some_iff.1 found
    obtain ⟨r', there, rfl⟩ := w.hosted.1 hosted
    rw [there] at atBase
    cases atBase
    rw [decide_eq_true_eq] at inside
    exact ⟨(w.keyed there).symm ▸ there, le, by omega⟩
  · rintro ⟨atBase, lo, hi⟩
    refine ⟨r.base, ?_, ?_⟩
    · refine AddressTable.floor?_eq_some_iff.2
        ⟨r.backing.base.toNat, w.hosted.2 ⟨r, atBase, rfl⟩, lo, fun h g other le => ?_⟩
      obtain ⟨r', found', rfl⟩ := w.hosted.1 other
      by_cases same : g.toNat = r.base.toNat
      · rw [same, atBase] at found'
        cases found'
        exact Nat.le_refl _
      · -- The memory of `r` reaches past `host`, so no other block starts in between.
        have pos := (w.regular found').pos
        rcases w.hostApart atBase found' (Ne.symm same) with h | h <;> omega
    · rw [atBase, Option.filter_eq_some_iff]
      exact ⟨rfl, by rw [decide_eq_true_eq]; omega⟩

/-- The host address of an address leads back to its region. -/
theorem findHost_hostAddr (w : m.Regular) (found : m.find a = some r) :
    m.findHost (r.mapping.hostAddr a) = some r := by
  obtain ⟨atBase, held⟩ := w.find_iff.1 found
  obtain ⟨lo, hi⟩ := Region.holds_iff.1 held
  have host := w.toNat_hostAddr found
  refine w.findHost_iff.2 ⟨atBase, ?_, ?_⟩ <;>
  · simp only [Region.stop, Region.offset] at *
    omega

end Regular

theorem WellFormed.paged_of_find (w : m.WellFormed) (found : m.find a = some r) : r.Paged :=
  w.paged (w.find_iff.1 found).1

theorem translate_eq_some_iff {mapping : Mapping} :
    m.translate a = some mapping ↔ ∃ r, m.find a = some r ∧ r.mapping = mapping := by
  rw [translate, Option.map_eq_some_iff]

/-! ## Maps whose regions lie alike -/

/-- The regions of both maps lie in the same places, of the guest and of the host. -/
structure SameExtents (m m' : MemoryMap) : Prop where
  regions : ∀ k, (m'.regions.get? k).map Region.extent = (m.regions.get? k).map Region.extent
  byHost : ∀ h, m'.byHost.get? h = m.byHost.get? h

theorem exists_map_eq {α β : Type} {f : α → β} {x y : Option α} (h : y.map f = x.map f) {b : α}
    (found : y = some b) : ∃ a, x = some a ∧ f b = f a := by
  rw [found, Option.map_some] at h
  obtain ⟨a, ha, e⟩ := Option.map_eq_some_iff.1 h.symm
  exact ⟨a, ha, e.symm⟩

namespace SameExtents

theorem symm (h : SameExtents m m') : SameExtents m' m :=
  ⟨fun k => (h.regions k).symm, fun host => (h.byHost host).symm⟩

theorem exists_extent (h : SameExtents m m') {k : Nat} {r' : Region}
    (found : m'.regions.get? k = some r') :
    ∃ r, m.regions.get? k = some r ∧ r'.extent = r.extent :=
  exists_map_eq (h.regions k) found

/-- Where the regions lie is all that makes a map regular. -/
theorem regular (h : SameExtents m m') (w : m.Regular) : m'.Regular := by
  constructor
  · intro k r' found
    obtain ⟨r, old, e⟩ := h.exists_extent found
    injection e with base
    rw [base]
    exact w.keyed old
  · intro k r' found
    obtain ⟨r, old, e⟩ := h.exists_extent found
    exact (w.regular old).of_extent e
  · intro k r' k₂ r₂' found found₂ lt
    obtain ⟨r, old, e⟩ := h.exists_extent found
    obtain ⟨r₂, old₂, -⟩ := h.exists_extent found₂
    injection e with base _ size
    rw [Region.stop, Region.size, base, size]
    exact w.apart old old₂ lt
  · intro host g
    rw [h.byHost, w.hosted]
    constructor
    · rintro ⟨r, old, rfl⟩
      obtain ⟨r', new, e⟩ := h.symm.exists_extent old
      injection e with _ hostBase
      exact ⟨r', new, by rw [hostBase]⟩
    · rintro ⟨r', new, rfl⟩
      obtain ⟨r, old, e⟩ := h.exists_extent new
      injection e with _ hostBase
      exact ⟨r, old, by rw [hostBase]⟩
  · intro k r' k₂ r₂' found found₂ ne
    obtain ⟨r, old, e⟩ := h.exists_extent found
    obtain ⟨r₂, old₂, e₂⟩ := h.exists_extent found₂
    injection e with _ host size
    injection e₂ with _ host₂ size₂
    simp only [Region.size, host, host₂, size, size₂]
    exact w.hostApart old old₂ ne

end SameExtents

/-! ## Maps with the same frames -/

/-- The maps differ in contents, guards and page protection only. -/
structure SameFrames (m m' : MemoryMap) : Prop where
  regions : ∀ k, (m'.regions.get? k).map Region.frame = (m.regions.get? k).map Region.frame
  byHost : m'.byHost = m.byHost

namespace SameFrames

theorem refl (m : MemoryMap) : SameFrames m m := ⟨fun _ => rfl, rfl⟩

theorem trans (h : SameFrames m m') (h' : SameFrames m' m'') : SameFrames m m'' :=
  ⟨fun k => (h'.regions k).trans (h.regions k), h'.byHost.trans h.byHost⟩

theorem symm (h : SameFrames m m') : SameFrames m' m :=
  ⟨fun k => (h.regions k).symm, h.byHost.symm⟩

/-- Each region of the one has its like in the other. -/
theorem exists_frame (h : SameFrames m m') {k : Nat} {r' : Region}
    (found : m'.regions.get? k = some r') :
    ∃ r, m.regions.get? k = some r ∧ r'.frame = r.frame :=
  exists_map_eq (h.regions k) found

theorem sameExtents (h : SameFrames m m') : SameExtents m m' := by
  refine ⟨fun k => ?_, fun host => by rw [h.byHost]⟩
  have e := congrArg (Option.map Region.Frame.extent) (h.regions k)
  rw [Option.map_map, Option.map_map] at e
  exact e

theorem regular (h : SameFrames m m') (w : m.Regular) : m'.Regular := h.sameExtents.regular w

theorem wellFormed (h : SameFrames m m') (w : m.WellFormed) : m'.WellFormed := by
  refine ⟨h.regular w.toRegular, fun found => ?_⟩
  obtain ⟨r, old, e⟩ := h.exists_frame found
  injection e with _ _ _ _ _ missing
  rw [missing]
  exact w.whole old

theorem find_frame (h : SameFrames m m') (w : m.Regular) (found : m.find a = some r) :
    ∃ r', m'.find a = some r' ∧ r'.frame = r.frame := by
  obtain ⟨atBase, held⟩ := w.find_iff.1 found
  obtain ⟨r', new, e⟩ := h.symm.exists_frame atBase
  refine ⟨r', ?_, e.symm⟩
  injection e with base _ _ size
  refine (h.regular w).find_iff.2 ⟨base ▸ new, ?_⟩
  rw [Region.holds_iff, Region.stop, Region.size, ← base, ← size] at *
  exact held

theorem find_eq_none (h : SameFrames m m') (w : m.Regular) (none : m.find a = none) :
    m'.find a = .none := by
  cases found : m'.find a with
  | none => rfl
  | some r =>
    obtain ⟨r', found', -⟩ := h.symm.find_frame (h.regular w) found
    rw [found'] at none
    cases none

theorem findHost_frame (h : SameFrames m m') (w : m.Regular) {host : HostAddr}
    (found : m.findHost host = some r) : ∃ r', m'.findHost host = some r' ∧ r'.frame = r.frame := by
  obtain ⟨atBase, inside⟩ := w.findHost_iff.1 found
  obtain ⟨r', new, e⟩ := h.symm.exists_frame atBase
  refine ⟨r', ?_, e.symm⟩
  injection e with base _ hostBase size
  refine (h.regular w).findHost_iff.2 ⟨base ▸ new, ?_⟩
  rw [Region.size, ← hostBase, ← size]
  exact inside

theorem findHost_eq_none (h : SameFrames m m') (w : m.Regular) {host : HostAddr}
    (none : m.findHost host = none) : m'.findHost host = .none := by
  cases found : m'.findHost host with
  | none => rfl
  | some r =>
    obtain ⟨r', found', -⟩ := h.symm.findHost_frame (h.regular w) found
    rw [found'] at none
    cases none

/-- Translations are a matter of frames. -/
theorem translate (h : SameFrames m m') (w : m.Regular) (a : GuestAddr) :
    m'.translate a = m.translate a := by
  apply Option.ext
  intro mapping
  rw [translate_eq_some_iff, translate_eq_some_iff]
  constructor
  · rintro ⟨r', found, rfl⟩
    obtain ⟨r, old, e⟩ := h.symm.find_frame (h.regular w) found
    exact ⟨r, old, Region.mapping_of_frame e⟩
  · rintro ⟨r, found, rfl⟩
    obtain ⟨r', new, e⟩ := h.find_frame w found
    exact ⟨r', new, Region.mapping_of_frame e⟩

end SameFrames

theorem get?_setRegion (m : MemoryMap) (r : Region) (k : Nat) :
    (m.setRegion r).regions.get? k = if k = r.base.toNat then some r else m.regions.get? k :=
  AddressTable.get?_insert _ _ _ _

/-- A region of the map replaced by one that lies in the same place. -/
theorem sameExtents_setRegion {r' : Region} (found : m.regions.get? r.base.toNat = some r)
    (extent : r'.extent = r.extent) : SameExtents m (m.setRegion r') := by
  refine ⟨fun k => ?_, fun _ => rfl⟩
  have base : r'.base = r.base := congrArg Region.Extent.base extent
  rw [get?_setRegion, base]
  split
  · rename_i here
    rw [here, found, Option.map_some, Option.map_some, extent]
  · rfl

/-- Other contents and guards for a region of the map. -/
theorem sameFrames_setRegion {r' : Region} (found : m.regions.get? r.base.toNat = some r)
    (frame : r'.frame = r.frame) : SameFrames m (m.setRegion r') := by
  refine ⟨fun k => ?_, rfl⟩
  have base : r'.base = r.base := congrArg Region.Frame.base frame
  rw [get?_setRegion, base]
  split
  · rename_i here
    rw [here, found, Option.map_some, Option.map_some, frame]
  · rfl

end MemoryMap

end GuestExec
