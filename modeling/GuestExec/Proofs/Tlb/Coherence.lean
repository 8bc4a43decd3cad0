import GuestExec.Proofs.Memory.Guards
import GuestExec.Proofs.Tlb.Slots

/-!
# Coherent TLBs

A TLB `Agrees` with a map when each of its valid entries translates as the map
does, whatever its length. It is `Coherent` if moreover every entry is a page and
was made for some access that the map allows, though it does not say for which.
Looking up keeps both, and so does adding the page that a walk of the map found:
nothing that was there contradicts it. After a change of the map it is enough to
drop the range that the change tells of.
-/

namespace GuestExec.Tlb

variable {t t' : Tlb} {m m' : MemoryMap} {a b : GuestAddr} {e x : Entry} {mapping : Mapping}
  {access : Access}

/-- The entry translates `a` as the map does. -/
def Entry.Agrees (e : Entry) (m : MemoryMap) (a : GuestAddr) : Prop :=
  ∃ mapping, m.translate a = some mapping ∧ e.hostAddr a = mapping.hostAddr a ∧
    e.writable = mapping.writable

/-- The entry is one whole page. -/
def Entry.IsPage (e : Entry) : Prop := e.guest.toNat % pageSize = 0 ∧ e.size.toNat = pageSize

/-- No valid entry is empty, and each translates all that it covers as the map does. -/
structure Agrees (t : Tlb) (m : MemoryMap) : Prop where
  sized : ∀ {i e}, t.Has i e → e.valid = true → e.size.toNat ≠ 0
  agrees : ∀ {i e}, t.Has i e → e.valid = true → ∀ a, e.covers a = true → e.Agrees m a

/-- Every valid entry is a page and translates as the map does, and the map allows some access
there. -/
structure Coherent (t : Tlb) (m : MemoryMap) : Prop where
  paged : ∀ {i e}, t.Has i e → e.valid = true → e.IsPage
  agrees : ∀ {i e}, t.Has i e → e.valid = true → ∀ a, e.covers a = true → e.Agrees m a
  permitted : ∀ {i e}, t.Has i e → e.valid = true → ∀ a, e.covers a = true →
    ∃ access, m.allows a access = true

theorem Entry.Renews.agrees (h : x.Renews e) (agrees : e.Agrees m a) : x.Agrees m a := by
  obtain ⟨mapping, translated, host, writable⟩ := agrees
  exact ⟨mapping, translated, (h.hostAddr a).trans host, h.writable.trans writable⟩

theorem Entry.IsPage.size_ne_zero (h : e.IsPage) : e.size.toNat ≠ 0 := by
  rw [h.2]
  decide

/-- All of a page is covered or nothing of it. -/
theorem Entry.IsPage.covers (h : e.IsPage) (same : b.page = a.page) (covers : e.covers a = true) :
    e.covers b = true := by
  obtain ⟨base, size⟩ := h
  rw [Entry.covers_iff, Entry.stop, size] at covers ⊢
  simp only [GuestAddr.page, pageSize] at *
  omega

theorem Coherent.toAgrees (c : t.Coherent m) : t.Agrees m :=
  ⟨fun h valid => (c.paged h valid).size_ne_zero, c.agrees⟩

/-- A TLB without valid entries is coherent with any map. -/
theorem coherent_of_none (none : ∀ {i e}, t.Has i e → e.valid = true → False) : t.Coherent m :=
  ⟨fun h valid => (none h valid).elim, fun h valid => (none h valid).elim,
    fun h valid => (none h valid).elim⟩

theorem coherent_empty (m : MemoryMap) : empty.Coherent m := by
  refine coherent_of_none fun h valid => ?_
  rw [has_empty h] at valid
  cases valid

/-- Entries stay good as long as the translations of what they cover stay. -/
theorem Agrees.mono (g : t.Agrees m)
    (kept : ∀ {i e}, t'.Has i e → e.valid = true → t.Has i e ∧ ∀ a mapping, e.covers a = true →
      m.translate a = some mapping → m'.translate a = some mapping) : t'.Agrees m' := by
  refine ⟨fun h valid => g.sized (kept h valid).1 valid, fun {i e} h valid a covers => ?_⟩
  obtain ⟨old, same⟩ := kept h valid
  obtain ⟨mapping, translated, agrees⟩ := g.agrees old valid a covers
  exact ⟨mapping, same a mapping covers translated, agrees⟩

theorem Coherent.mono (c : t.Coherent m)
    (kept : ∀ {i e}, t'.Has i e → e.valid = true → t.Has i e ∧ ∀ a mapping, e.covers a = true →
      m.translate a = some mapping → m'.translate a = some mapping) : t'.Coherent m' := by
  constructor
  case paged => exact fun h valid => c.paged (kept h valid).1 valid
  case agrees => exact (c.toAgrees.mono kept).agrees
  case permitted =>
    intro i e h valid a covers
    obtain ⟨old, same⟩ := kept h valid
    obtain ⟨mapping, translated, -⟩ := c.agrees old valid a covers
    obtain ⟨access, allowed⟩ := c.permitted old valid a covers
    rw [MemoryMap.allows_of_translate translated] at allowed
    exact ⟨access, MemoryMap.allows_of_translate (same a mapping covers translated) ▸ allowed⟩

/-- Translations that stay do no harm. -/
theorem Agrees.congr (g : t.Agrees m) (same : ∀ a, m'.translate a = m.translate a) :
    t.Agrees m' :=
  g.mono fun h _ => ⟨h, fun a _ _ translated => (same a).trans translated⟩

theorem Coherent.congr (c : t.Coherent m) (same : ∀ a, m'.translate a = m.translate a) :
    t.Coherent m' :=
  c.mono fun h _ => ⟨h, fun a _ _ translated => (same a).trans translated⟩

theorem Agrees.lookup (g : t.Agrees m) (a : GuestAddr) : (t.lookup a).2.Agrees m := by
  constructor
  case sized =>
    intro i x h valid
    obtain ⟨e, he, same⟩ := has_lookup h
    rw [same.size]
    exact g.sized he (same.valid ▸ valid)
  case agrees =>
    intro i x h valid b covers
    obtain ⟨e, he, same⟩ := has_lookup h
    exact same.agrees (g.agrees he (same.valid ▸ valid) b (same.covers b ▸ covers))

theorem Coherent.lookup (c : t.Coherent m) (a : GuestAddr) : (t.lookup a).2.Coherent m := by
  constructor
  case paged =>
    intro i x h valid
    obtain ⟨e, he, same⟩ := has_lookup h
    rw [Entry.IsPage, same.guest, same.size]
    exact c.paged he (same.valid ▸ valid)
  case agrees => exact (c.toAgrees.lookup a).agrees
  case permitted =>
    intro i x h valid b covers
    obtain ⟨e, he, same⟩ := has_lookup h
    exact c.permitted he (same.valid ▸ valid) b (same.covers b ▸ covers)

/-- What a TLB that agrees with the map answers is what the map says. -/
theorem Agrees.lookup_eq (g : t.Agrees m) (holds : t.Holds a) :
    ∃ mapping, m.translate a = some mapping ∧
      (t.lookup a).1 = some ⟨mapping.hostAddr a, mapping.writable⟩ := by
  rcases t.lookup_hit a with ⟨-, free⟩ | ⟨e, h, valid, covers, hit⟩
  · exact absurd holds free
  · obtain ⟨mapping, translated, host, writable⟩ := g.agrees h valid a covers
    exact ⟨mapping, translated, by rw [hit, host, writable]⟩

theorem Coherent.lookup_eq (c : t.Coherent m) (holds : t.Holds a) :
    ∃ mapping, m.translate a = some mapping ∧
      (t.lookup a).1 = some ⟨mapping.hostAddr a, mapping.writable⟩ :=
  c.toAgrees.lookup_eq holds

/-- A coherent TLB answers only where some access is allowed. -/
theorem Coherent.allows_of_holds (c : t.Coherent m) (holds : t.Holds a) :
    ∃ access, m.allows a access = true := by
  obtain ⟨e, has, valid, covers⟩ := holds
  exact c.permitted has valid a covers

theorem setIndex_of_page (same : b.page = a.page) : setIndex b = setIndex a := by
  rw [setIndex, setIndex]
  exact Fin.ext (congrArg (· % 64) same)

/-- The TLB answers for all of a page or for nothing of it. -/
theorem Coherent.holds_page (c : t.Coherent m) (same : b.page = a.page) (holds : t.Holds a) :
    t.Holds b := by
  obtain ⟨e, has, valid, covers⟩ := holds
  rw [← setIndex_of_page same] at has
  exact ⟨e, has, valid, (c.paged has valid).covers same covers⟩

/-! ## A page enters -/

/-- The TLB after `Mmu.fill` of the page of `a`, which lies in `mapping`. -/
def insertPage (t : Tlb) (a : GuestAddr) (mapping : Mapping) : Tlb :=
  t.insert a.pageBase (mapping.hostAddr a.pageBase) (UInt32.ofNat pageSize) mapping.writable

theorem toNat_pageSize : (UInt32.ofNat pageSize).toNat = pageSize := by decide

theorem page_of_range (lo : a.pageBase.toNat ≤ b.toNat)
    (hi : b.toNat < a.pageBase.toNat + pageSize) : b.page = a.page := by
  rw [GuestAddr.toNat_pageBase] at lo hi
  rw [GuestAddr.page] at lo hi ⊢
  simp only [GuestAddr.page, pageSize] at *
  omega

theorem range_of_page (same : b.page = a.page) :
    a.pageBase.toNat ≤ b.toNat ∧ b.toNat < a.pageBase.toNat + pageSize := by
  rw [GuestAddr.toNat_pageBase, ← same]
  simp only [GuestAddr.page, pageSize]
  omega

/-- An entry at the host address of its base translates as the mapping does. -/
theorem hostAddr_of_bases (guest : e.guest = a) (host : e.host = mapping.hostAddr a)
    (b : GuestAddr) : e.hostAddr b = mapping.hostAddr b := by
  have words : mapping.hostBase.word + (a.word - mapping.guestBase.word) + (b.word - a.word) =
      mapping.hostBase.word + (b.word - mapping.guestBase.word) := by grind
  rw [Entry.hostAddr, host, guest]
  exact congrArg HostAddr.mk words

/-- One address where entry and mapping agree fixes the entry's distance from guest to host. -/
theorem delta_of_agrees (agrees : e.hostAddr b = mapping.hostAddr b) (a : GuestAddr) :
    e.delta = (mapping.hostAddr a).word - a.word := by
  have words : e.host.word + (b.word - e.guest.word) =
      mapping.hostBase.word + (b.word - mapping.guestBase.word) := congrArg HostAddr.word agrees
  show e.host.word - e.guest.word =
    mapping.hostBase.word + (a.word - mapping.guestBase.word) - a.word
  grind

/-- An entry of a coherent TLB does not contradict a walk of the map. -/
theorem Coherent.not_contradicts (c : t.Coherent m) (w : m.Regular)
    (translated : m.translate a = some mapping) {i : Fin 64} (h : t.Has i e)
    (valid : e.valid = true) :
    contradicts a.pageBase (mapping.hostAddr a.pageBase) (UInt32.ofNat pageSize) mapping.writable e
      = false := by
  by_cases overlap :
      e.overlaps a.pageBase.toNat (a.pageBase.toNat + (UInt32.ofNat pageSize).toNat) = true
  · obtain ⟨lo, hi⟩ := (e.overlaps_iff _ _).1 overlap
    rw [toNat_pageSize] at lo
    have sized := (c.paged h valid).size_ne_zero
    -- The first address that both cover; there the entry agrees with the mapping.
    have meet : ∃ b, e.covers b = true ∧ b.page = a.page := by
      by_cases before : e.guest.toNat ≤ a.pageBase.toNat
      · exact ⟨a.pageBase, (e.covers_iff _).2 ⟨before, hi⟩, by simp⟩
      · refine ⟨e.guest, (e.covers_iff _).2 ⟨Nat.le_refl _, ?_⟩, ?_⟩
        · unfold Entry.stop
          omega
        · exact page_of_range (by omega) (by omega)
    obtain ⟨b, covers, same⟩ := meet
    obtain ⟨other, there, host, writable⟩ := c.agrees h valid b covers
    rw [w.translate_page same, translated] at there
    cases there
    have agrees : e.agrees a.pageBase (mapping.hostAddr a.pageBase) mapping.writable = true := by
      rw [Entry.agrees, delta_of_agrees host a.pageBase, writable]
      simp
    rw [contradicts, agrees, Bool.not_true, Bool.and_false]
  · rw [contradicts, Bool.eq_false_iff.2 overlap, Bool.and_false, Bool.false_and]

theorem pageSize_ne_zero : UInt32.ofNat pageSize ≠ 0 := by decide

/-- An entry covers the page that was placed in it. -/
theorem Placed.covers_page {host : HostAddr} {writable : Bool}
    (p : Placed t a.pageBase host (UInt32.ofNat pageSize) writable x) (same : b.page = a.page) :
    x.covers b = true := by
  have le := p.size_le
  have range := range_of_page same
  rw [toNat_pageSize] at le
  rw [Entry.covers_iff, Entry.stop, p.guest_eq]
  omega

/-- A page that is placed over pages is a page. -/
theorem Placed.isPage {host : HostAddr} {writable : Bool}
    (p : Placed t a.pageBase host (UInt32.ofNat pageSize) writable x)
    (pages : ∀ {i e}, t.Has i e → e.valid = true → e.IsPage) : x.IsPage := by
  have base : x.guest.toNat % pageSize = 0 := by
    rw [p.guest_eq, GuestAddr.toNat_pageBase, Nat.mul_mod_left]
  refine ⟨base, ?_⟩
  cases p with
  | fresh _ _ size => rw [size, toNat_pageSize]
  | grown e has old _ _ _ _ size =>
    rw [size]
    split
    · exact toNat_pageSize
    · exact (pages has old).2

/-- Beyond the page an entry covers what it covered before, and translates it as before. -/
theorem Placed.covers_or {host : HostAddr} {writable : Bool}
    (p : Placed t a.pageBase host (UInt32.ofNat pageSize) writable x) (covers : x.covers b = true) :
    b.page = a.page ∨ ∃ e, t.Has (setIndex a.pageBase) e ∧ e.valid = true ∧ e.covers b = true ∧
      x.hostAddr b = e.hostAddr b ∧ x.writable = e.writable := by
  refine (p.covers covers).imp_left fun inside => ?_
  rw [toNat_pageSize] at inside
  exact page_of_range inside.1 inside.2

/-- A page that a walk of the map found enters in agreement with the map. -/
theorem Agrees.insertPage (g : t.Agrees m) (w : m.Regular)
    (translated : m.translate a = some mapping) : (t.insertPage a mapping).Agrees m := by
  obtain ⟨x, placed, -, only, -⟩ := insert_spec t a.pageBase (mapping.hostAddr a.pageBase)
    mapping.writable pageSize_ne_zero
  have onPage : ∀ b, b.page = a.page → m.translate b = some mapping := fun b same => by
    rw [w.translate_page same, translated]
  -- An older entry with these bases keeps its writability. It covers its own base, so the map
  -- gives both the same.
  have writable : x.writable = mapping.writable := by
    cases placed with
    | fresh _ _ _ _ writable => exact writable
    | grown e has old base target _ _ _ _ writable =>
      have sized := g.sized has old
      have covers : e.covers a.pageBase = true := by
        rw [Entry.covers_iff, Entry.stop, base]
        omega
      obtain ⟨other, there, -, same⟩ := g.agrees has old _ covers
      rw [onPage _ (by simp)] at there
      cases there
      rw [writable, same]
  constructor
  case sized =>
    intro i y h valid
    rcases only h valid with old | ⟨-, rfl⟩
    · exact g.sized old valid
    · have le := placed.size_le
      rw [toNat_pageSize, pageSize] at le
      omega
  case agrees =>
    intro i y h valid b covers
    rcases only h valid with old | ⟨-, rfl⟩
    · exact g.agrees old valid b covers
    · rcases placed.covers_or covers with same | ⟨e, has, old, covered, host, writable⟩
      · exact ⟨mapping, onPage b same,
          hostAddr_of_bases placed.guest_eq placed.host_eq b, writable⟩
      · obtain ⟨other, there, agree, same⟩ := g.agrees has old b covered
        exact ⟨other, there, host.trans agree, writable.trans same⟩

theorem Coherent.insertPage (c : t.Coherent m) (w : m.Regular)
    (translated : m.translate a = some mapping) (allowed : m.allows a access = true) :
    (t.insertPage a mapping).Coherent m := by
  obtain ⟨x, placed, -, only, -⟩ := insert_spec t a.pageBase (mapping.hostAddr a.pageBase)
    mapping.writable pageSize_ne_zero
  constructor
  case paged =>
    intro i y h valid
    rcases only h valid with old | ⟨-, rfl⟩
    · exact c.paged old valid
    · exact placed.isPage fun has old => c.paged has old
  case agrees => exact (c.toAgrees.insertPage w translated).agrees
  case permitted =>
    intro i y h valid b covers
    rcases only h valid with old | ⟨-, rfl⟩
    · exact c.permitted old valid b covers
    · rcases placed.covers_or covers with same | ⟨e, has, old, covered, -, -⟩
      · exact ⟨access, (w.allows_page same).trans allowed⟩
      · exact c.permitted has old b covered

/-- The page that was added is there. -/
theorem holds_insertPage (same : b.page = a.page) : (t.insertPage a mapping).Holds b := by
  obtain ⟨x, placed, there, -, -⟩ := insert_spec t a.pageBase (mapping.hostAddr a.pageBase)
    mapping.writable pageSize_ne_zero
  have set : setIndex b = setIndex a.pageBase :=
    setIndex_of_page (by rw [same, GuestAddr.page_pageBase])
  exact ⟨x, set ▸ there, placed.valid, placed.covers_page same⟩

/-- Nothing else was added. -/
theorem Holds.of_insertPage (h : (t.insertPage a mapping).Holds b) :
    b.page = a.page ∨ t.Holds b := by
  obtain ⟨x, placed, -, only, -⟩ := insert_spec t a.pageBase (mapping.hostAddr a.pageBase)
    mapping.writable pageSize_ne_zero
  obtain ⟨y, has, valid, covers⟩ := h
  rcases only has valid with old | ⟨set, rfl⟩
  · exact .inr ⟨y, old, valid, covers⟩
  · rcases placed.covers_or covers with same | ⟨e, old, valid, covered, -, -⟩
    · exact .inl same
    · exact .inr ⟨e, set ▸ old, valid, covered⟩

/-- Nothing leaves the other sets. -/
theorem Holds.insertPage (c : t.Coherent m) (w : m.Regular)
    (translated : m.translate a = some mapping) (h : t.Holds b)
    (other : setIndex b ≠ setIndex a) : (t.insertPage a mapping).Holds b := by
  obtain ⟨x, -, -, -, kept⟩ := insert_spec t a.pageBase (mapping.hostAddr a.pageBase)
    mapping.writable pageSize_ne_zero
  obtain ⟨e, has, valid, covers⟩ := h
  have set : setIndex a.pageBase = setIndex a := setIndex_of_page (by simp)
  exact ⟨e, kept (set ▸ other) has valid (c.not_contradicts w translated has valid), valid, covers⟩

/-! ## Ranges leave -/

/-- After a change of the map, a TLB that dropped the range it tells of is coherent again. -/
theorem Coherent.invalidateRange (c : t.Coherent m) {change : MappingChange}
    (kept : m.Extends m' fun a => ¬change.Touches a) :
    (t.invalidateRange change.addr change.size).2.Coherent m' := by
  refine c.mono fun {i e} h valid => ?_
  obtain ⟨has, spared⟩ := (has_purge valid).1 h
  refine ⟨has, fun a mapping covers translated => kept a mapping (fun touched => ?_) translated⟩
  obtain ⟨lo, hi⟩ := (e.covers_iff a).1 covers
  have apart : ¬e.overlaps change.addr.toNat (change.addr.toNat + change.size.toNat) = true := by
    rw [valid, Bool.true_and] at spared
    rw [spared]
    exact Bool.false_ne_true
  rw [Entry.overlaps_iff] at apart
  obtain ⟨above, below⟩ := touched
  omega

theorem coherent_invalidateAll (t : Tlb) (m : MemoryMap) : t.invalidateAll.Coherent m := by
  refine coherent_of_none fun h valid => ?_
  obtain ⟨x, -, rfl⟩ := has_mapSlots.1 h
  cases valid

end GuestExec.Tlb
