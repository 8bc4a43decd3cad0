import GuestExec.Proofs.Tlb.Calls
import GuestExec.Proofs.Tlb.Slots
import GuestExec.Proofs.Word.Counter

/-!
# TLBs never contradict themselves

`Consistent` is what every TLB is that calls alone have filled: translations that
overlap agree, in whatever sets they are, and each is kept once, in the set of
its base. What calls do to the valid entries comes down to two moves: entries
are dropped or renewed (`Consistent.of_renews`), and one way is filled after
everything that contradicts its new translation was dropped (`Consistent.fill`).
No entry was accessed in the future until the clock comes around (`Past`).
-/

namespace GuestExec.Tlb

variable {t t' : Tlb} {i j : Fin 64} {way now : Nat} {e x y : Entry} {guest : GuestAddr}

/-- Where the two translate the same address, they translate it alike. -/
def Entry.Compatible (x y : Entry) : Prop :=
  x.overlaps y.guest.toNat y.stop = true → x.delta = y.delta ∧ x.writable = y.writable

/-- Not two valid entries with the same bases. -/
def Entry.Distinct (x y : Entry) : Prop :=
  x.valid = true → y.valid = true → ¬(x.guest = y.guest ∧ x.host = y.host)

/-- The representation of a TLB is sound: no two valid entries contradict each other or have the
same bases, and each is in the set of its base and not empty. -/
structure Consistent (t : Tlb) : Prop where
  compatible : ∀ {i j x y}, t.Has i x → t.Has j y → x.valid = true → y.valid = true →
    x.Compatible y
  sized : ∀ {i e}, t.Has i e → e.valid = true → e.size ≠ 0
  home : ∀ {i e}, t.Has i e → e.valid = true → i = setIndex e.guest
  distinct : t.slots.Pairwise Entry.Distinct

/-- No entry was accessed later than the clock shows. -/
def Past (t : Tlb) : Prop := ∀ i e, t.Has i e → e.last ≤ t.clock.toNat

/-! ## Two entries -/

theorem Entry.Compatible.symm (h : x.Compatible y) : y.Compatible x := by
  intro overlap
  rw [overlaps_iff] at overlap
  obtain ⟨delta, writable⟩ := h ((overlaps_iff _ _ _).2 ⟨overlap.2, overlap.1⟩)
  exact ⟨delta.symm, writable.symm⟩

theorem Entry.Compatible.refl (e : Entry) : e.Compatible e := fun _ => ⟨rfl, rfl⟩

theorem Entry.Distinct.symm (h : x.Distinct y) : y.Distinct x :=
  fun validY validX same => h validX validY ⟨same.1.symm, same.2.symm⟩

theorem Entry.Renews.compatible {e' x' : Entry} (h : x.Renews e) (h' : x'.Renews e')
    (compatible : e.Compatible e') : x.Compatible x' := by
  rw [Compatible, overlaps, stop, stop, delta, delta, h.guest, h.host, h.size, h.writable, h'.guest,
    h'.host, h'.size, h'.writable]
  exact compatible

/-- An entry with the bases of `e` is as distinct from others as `e` is. -/
theorem Entry.Distinct.of_same (guest : x.guest = e.guest) (host : x.host = e.host)
    (old : e.valid = true) (h : y.Distinct e) : y.Distinct x := by
  intro valid _ same
  exact h valid old ⟨same.1.trans guest, same.2.trans host⟩

/-- An entry that an insertion spares says what the insertion says, where both speak. -/
theorem agrees_of_spared {host : HostAddr} {size : UInt32} {writable : Bool}
    (spared : contradicts guest host size writable e = false)
    (valid : e.valid = true)
    (overlap : e.overlaps guest.toNat (guest.toNat + size.toNat) = true) :
    e.delta = host.word - guest.word ∧ e.writable = writable := by
  rw [contradicts, valid, overlap, Bool.true_and, Bool.true_and, Bool.not_eq_false', Entry.agrees,
    Bool.and_eq_true, beq_iff_eq, beq_iff_eq] at spared
  exact spared

theorem toNat_pos_of_ne_zero {size : UInt32} (h : size ≠ 0) : 0 < size.toNat := by
  rw [Nat.pos_iff_ne_zero]
  exact fun zero => h (UInt32.toNat_inj.1 zero)

/-! ## Lists of slots -/

theorem slots_congr (h : t'.sets = t.sets) : t'.slots = t.slots := by
  rw [slots, slots, h]

theorem slots_mapSlots (f : Entry → Entry) : (t.mapSlots f).slots = t.slots.map f := by
  simp only [slots, mapSlots, Vector.toList_map, List.flatMap_map, List.map_flatMap]

/-- Entries of different sets have different bases, so each set can be looked at alone. -/
theorem distinct_slots_iff (home : ∀ {i e}, t.Has i e → e.valid = true → i = setIndex e.guest) :
    t.slots.Pairwise Entry.Distinct ↔
      ∀ i : Fin 64, (t.sets.get i).toList.Pairwise Entry.Distinct := by
  rw [slots, List.pairwise_flatMap]
  constructor
  · rintro ⟨inside, -⟩ i
    exact inside _ (Vector.mem_toList_iff.2 (Vector.getElem_mem i.isLt))
  · intro inside
    refine ⟨fun ways mem => ?_, List.pairwise_iff_getElem.2 fun i j hi hj lt x hx y hy => ?_⟩
    · obtain ⟨i, hi, rfl⟩ := Vector.mem_iff_getElem.1 (Vector.mem_toList_iff.1 mem)
      exact inside ⟨i, hi⟩
    · rw [Vector.length_toList] at hi hj
      intro validX validY same
      have first : (⟨i, hi⟩ : Fin 64) = setIndex x.guest :=
        home (by simpa [Has, get_eq_getElem] using hx) validX
      have second : (⟨j, hj⟩ : Fin 64) = setIndex y.guest :=
        home (by simpa [Has, get_eq_getElem] using hy) validY
      rw [same.1, ← second] at first
      exact Nat.ne_of_lt lt (Fin.mk.inj first)

theorem pairwise_set {list : List Entry} (h : list.Pairwise Entry.Distinct)
    (apart : ∀ {k y}, k ≠ way → list[k]? = some y → y.Distinct x) :
    (list.set way x).Pairwise Entry.Distinct := by
  rw [List.pairwise_iff_getElem] at h ⊢
  intro i j hi hj lt
  rw [List.length_set] at hi hj
  rw [List.getElem_set, List.getElem_set]
  split
  · rw [if_neg (by omega)]
    exact (apart (by omega) (List.getElem?_eq_getElem hj)).symm
  · split
    · exact apart (by omega) (List.getElem?_eq_getElem hi)
    · exact h i j hi hj lt

theorem apart_of_pairwise {list : List Entry} {k l : Nat} (h : list.Pairwise Entry.Distinct)
    (ne : k ≠ l) (hx : list[k]? = some x) (hy : list[l]? = some y) : x.Distinct y := by
  rw [List.pairwise_iff_getElem] at h
  obtain ⟨hk, rfl⟩ := List.getElem?_eq_some_iff.1 hx
  obtain ⟨hl, rfl⟩ := List.getElem?_eq_some_iff.1 hy
  rcases Nat.lt_or_gt_of_ne ne with lt | gt
  · exact h k l hk hl lt
  · exact (h l k hl hk gt).symm

theorem distinct_setWay (home : ∀ {i e}, t.Has i e → e.valid = true → i = setIndex e.guest)
    (distinct : t.slots.Pairwise Entry.Distinct) (set : i = setIndex x.guest)
    (apart : ∀ {k y}, k ≠ way → (t.sets.get i).toList[k]? = some y → y.Distinct x) :
    (t.setWay i way x).slots.Pairwise Entry.Distinct := by
  rw [distinct_slots_iff home] at distinct
  rw [distinct_slots_iff]
  · intro j
    rw [sets_setWay]
    split
    · exact pairwise_set (distinct i) apart
    · exact distinct j
  · intro j y has valid
    rcases has_setWay has with old | ⟨rfl, rfl⟩
    · exact home old valid
    · exact set

/-! ## Entries are dropped or renewed -/

theorem consistent_empty : empty.Consistent := by
  have none : ∀ {i e}, empty.Has i e → e.valid = true → False := by
    intro i e has valid
    rw [has_empty has] at valid
    cases valid
  refine ⟨fun has _ valid => (none has valid).elim, fun has valid => (none has valid).elim,
    fun has valid => (none has valid).elim, ?_⟩
  refine List.pairwise_of_forall_mem_list fun x mem y _ valid => ?_
  obtain ⟨i, has⟩ := mem_slots.1 mem
  exact (none has valid).elim

theorem Consistent.of_renews (c : t.Consistent)
    (renewed : ∀ {i x}, t'.Has i x → x.valid = true → ∃ e, t.Has i e ∧ x.Renews e)
    (distinct : t'.slots.Pairwise Entry.Distinct) : t'.Consistent := by
  refine ⟨fun hx hy validX validY => ?_, fun has valid => ?_, fun has valid => ?_, distinct⟩
  · obtain ⟨e, he, sameX⟩ := renewed hx validX
    obtain ⟨e', he', sameY⟩ := renewed hy validY
    exact sameX.compatible sameY
      (c.compatible he he' (sameX.valid ▸ validX) (sameY.valid ▸ validY))
  · obtain ⟨e, he, same⟩ := renewed has valid
    rw [same.size]
    exact c.sized he (same.valid ▸ valid)
  · obtain ⟨e, he, same⟩ := renewed has valid
    rw [same.guest]
    exact c.home he (same.valid ▸ valid)

/-- Only the slots count. -/
theorem Consistent.congr (c : t.Consistent) (sets : t'.sets = t.sets) : t'.Consistent := by
  refine c.of_renews (fun has _ => ⟨_, (has_congr sets).1 has, .refl _⟩) ?_
  rw [slots_congr sets]
  exact c.distinct

/-- A TLB whose slots are kept or dropped stays consistent. -/
theorem Consistent.mapSlots {f : Entry → Entry} (c : t.Consistent)
    (kept : ∀ e, f e = e ∨ f e = e.drop) : (t.mapSlots f).Consistent := by
  have same : ∀ {e}, (f e).valid = true → f e = e := by
    intro e valid
    rcases kept e with same | dropped
    · exact same
    · rw [dropped] at valid
      cases valid
  refine c.of_renews (fun has valid => ?_) ?_
  · obtain ⟨e, he, rfl⟩ := has_mapSlots.1 has
    refine ⟨e, he, ?_⟩
    rw [same valid]
    exact .refl e
  · rw [slots_mapSlots, List.pairwise_map]
    refine c.distinct.imp fun {x y} distinct validX validY => ?_
    rw [same validX, same validY]
    rw [same validX] at validX
    rw [same validY] at validY
    exact distinct validX validY

theorem Consistent.purge (c : t.Consistent) (doomed : Entry → Bool) :
    (t.purge doomed).Consistent := by
  refine c.mapSlots fun e => ?_
  by_cases picked : doomed e = true
  · exact .inr (if_pos picked)
  · exact .inl (if_neg picked)

theorem Consistent.invalidateAll (c : t.Consistent) : t.invalidateAll.Consistent :=
  (c.mapSlots fun _ => .inr rfl).congr rfl

theorem Consistent.invalidateRange (c : t.Consistent) (guest : GuestAddr) (size : UInt64) :
    (t.invalidateRange guest size).2.Consistent :=
  (c.purge _).congr rfl

theorem Consistent.lookup (c : t.Consistent) (a : GuestAddr) : (t.lookup a).2.Consistent := by
  rcases lookup_sets t a with same | ⟨way, e, there, valid, sets⟩
  · exact c.congr same
  · have has := has_of_getElem? there
    refine c.of_renews (fun h _ => has_lookup h) ?_
    rw [slots_congr sets]
    have home : setIndex a = setIndex e.guest := c.home has valid
    refine distinct_setWay c.home c.distinct home fun ne other => ?_
    exact (apart_of_pairwise ((distinct_slots_iff c.home).1 c.distinct _) ne other there).of_same
      rfl rfl valid

/-! ## A way is filled -/

section fill

variable {host : HostAddr} {size : UInt32} {writable : Bool}

theorem Placed.delta_eq (p : Placed t guest host size writable x) :
    x.delta = host.word - guest.word := by
  rw [Entry.delta, p.host_eq, p.guest_eq]

/-- What is placed is as writable as the insertion says. -/
theorem Placed.writable_eq (p : Placed t guest host size writable x) (c : t.Consistent)
    (pos : size ≠ 0)
    (spared : ∀ {i e}, t.Has i e → e.valid = true →
      contradicts guest host size writable e = false) : x.writable = writable := by
  cases p with
  | fresh _ _ _ _ same => exact same
  | grown e has old base target _ _ _ _ same =>
    have room := toNat_pos_of_ne_zero (c.sized has old)
    have room' := toNat_pos_of_ne_zero pos
    have meet : e.overlaps guest.toNat (guest.toNat + size.toNat) = true := by
      rw [Entry.overlaps_iff, Entry.stop, base]
      omega
    rw [same]
    exact (agrees_of_spared (spared has old) old meet).2

/-- The new entry contradicts none of those that the purge has left. -/
theorem Placed.compatible (p : Placed t guest host size writable x) (c : t.Consistent)
    (pos : size ≠ 0)
    (spared : ∀ {i e}, t.Has i e → e.valid = true →
      contradicts guest host size writable e = false)
    (has : t.Has j y) (valid : y.valid = true) : x.Compatible y := by
  intro overlap
  rcases p.overlaps overlap with ⟨lo, hi⟩ | ⟨e, there, old, meet, base, target, same⟩
  · rw [p.delta_eq, p.writable_eq c pos spared]
    obtain ⟨delta, same⟩ :=
      agrees_of_spared (spared has valid) valid ((y.overlaps_iff _ _).2 ⟨hi, lo⟩)
    exact ⟨delta.symm, same.symm⟩
  · -- Here `y` meets what `x` was before, and that is compatible with it.
    obtain ⟨delta, agree⟩ := c.compatible there has old valid meet
    rw [same, Entry.delta, base, target]
    exact ⟨delta, agree⟩

theorem Fills.apart {way' : Nat} (f : Fills t guest host size writable now way x)
    (distinct : (t.sets.get (setIndex guest)).toList.Pairwise Entry.Distinct) (ne : way' ≠ way)
    (there : (t.sets.get (setIndex guest)).toList[way']? = some y) : y.Distinct x := by
  cases f with
  | grown here old => exact (apart_of_pairwise distinct ne there here).of_same rfl rfl old
  | fresh _ free => exact fun valid _ same => free (has_of_getElem? there) valid same

theorem Placed.size_ne_zero (p : Placed t guest host size writable x) (pos : size ≠ 0) :
    x.size ≠ 0 := by
  intro zero
  have le := p.size_le
  have room := toNat_pos_of_ne_zero pos
  rw [zero] at le
  exact absurd (Nat.lt_of_lt_of_le room le) (Nat.lt_irrefl 0)

theorem Consistent.fill (c : t.Consistent) (pos : size ≠ 0)
    (spared : ∀ {i e}, t.Has i e → e.valid = true →
      contradicts guest host size writable e = false)
    (fills : Fills t guest host size writable now way x)
    (sets : t'.sets = (t.setWay (setIndex guest) way x).sets) : t'.Consistent := by
  have placed := fills.placed
  have cases : ∀ {j y}, t'.Has j y → t.Has j y ∨ (j = setIndex guest ∧ y = x) :=
    fun has => has_setWay ((has_congr sets).1 has)
  constructor
  case compatible =>
    intro i j y z hy hz validY validZ
    rcases cases hy with oldY | ⟨-, rfl⟩ <;> rcases cases hz with oldZ | ⟨-, rfl⟩
    · exact c.compatible oldY oldZ validY validZ
    · exact (placed.compatible c pos spared oldY validY).symm
    · exact placed.compatible c pos spared oldZ validZ
    · exact .refl _
  case sized =>
    intro j y has valid
    rcases cases has with old | ⟨-, rfl⟩
    · exact c.sized old valid
    · exact placed.size_ne_zero pos
  case home =>
    intro j y has valid
    rcases cases has with old | ⟨here, rfl⟩
    · exact c.home old valid
    · rw [here, placed.guest_eq]
  case distinct =>
    rw [slots_congr sets]
    refine distinct_setWay c.home c.distinct (by rw [placed.guest_eq]) fun ne there => ?_
    exact fills.apart ((distinct_slots_iff c.home).1 c.distinct _) ne there

theorem Consistent.insert (c : t.Consistent) (guest : GuestAddr) (host : HostAddr) (size : UInt32)
    (writable : Bool) : (t.insert guest host size writable).Consistent := by
  by_cases pos : size = 0
  · rw [Tlb.insert, if_pos pos]
    exact c
  · obtain ⟨way, x, fills, sets⟩ := insert_sets t guest host writable pos
    exact (c.purge _).fill pos (fun has valid => ((has_purge valid).1 has).2) fills sets

end fill

/-! ## The clock -/

theorem past_empty : empty.Past := by
  intro i e has
  rw [has_empty has]
  exact Nat.le_refl 0

/-- What a call does to the slots of the one that it was is no access, or one that is made now. -/
theorem Past.mono (p : t.Past) (later : t.clock.toNat ≤ t'.clock.toNat)
    (accessed : ∀ {i x}, t'.Has i x → (∃ e, t.Has i e ∧ x.last = e.last) ∨
      x.last = t'.clock.toNat) : t'.Past := by
  intro i x has
  rcases accessed has with ⟨e, old, same⟩ | now
  · rw [same]
    exact Nat.le_trans (p i e old) later
  · exact Nat.le_of_eq now

/-- Entries that are dropped keep their times. -/
theorem last_of_has_purge {doomed : Entry → Bool} (has : (t.purge doomed).Has i x) :
    ∃ e, t.Has i e ∧ x.last = e.last := by
  obtain ⟨e, he, rfl⟩ := has_mapSlots.1 has
  refine ⟨e, he, ?_⟩
  split <;> rfl

theorem Past.lookup (p : t.Past) (later : t.clock.toNat ≤ (t.clock + 1).toNat) (a : GuestAddr) :
    (t.lookup a).2.Past := by
  have clock := clock_lookup t a
  refine p.mono (clock ▸ later) fun {j x} has => ?_
  rcases lookup_sets t a with same | ⟨way, e, there, -, sets⟩
  · exact .inl ⟨x, (has_congr same).1 has, rfl⟩
  · rcases has_setWay ((has_congr sets).1 has) with old | ⟨-, rfl⟩
    · exact .inl ⟨x, old, rfl⟩
    · rw [clock]
      exact .inr rfl

theorem Past.insert (p : t.Past) (later : t.clock.toNat ≤ (t.clock + 1).toNat) (guest : GuestAddr)
    (host : HostAddr) {size : UInt32} (writable : Bool) (pos : size ≠ 0) :
    (t.insert guest host size writable).Past := by
  have clock := clock_insert t guest host writable pos
  refine p.mono (clock ▸ later) fun {j y} has => ?_
  obtain ⟨way, x, fills, sets⟩ := insert_sets t guest host writable pos
  rcases has_setWay ((has_congr sets).1 has) with old | ⟨-, rfl⟩
  · exact .inl (last_of_has_purge old)
  · rw [clock]
    exact .inr fills.last

/-! ## Calls -/

theorem Consistent.apply (c : t.Consistent) (call : Call) : (t.apply call).Consistent := by
  cases call with
  | insert x => exact c.insert x.guest x.host x.size x.writable
  | lookup addr => exact c.lookup addr
  | invalidateAll => exact c.invalidateAll
  | invalidateRange guest size => exact c.invalidateRange guest size

theorem Consistent.foldl (c : t.Consistent) (calls : List Call) :
    (calls.foldl Tlb.apply t).Consistent := by
  induction calls generalizing t with
  | nil => exact c
  | cons call rest ih => exact ih (c.apply call)

/-- Whatever a TLB is asked for, in whatever order, it never contradicts itself. -/
theorem consistent_after (calls : List Call) : (after calls).Consistent :=
  consistent_empty.foldl calls

/-- A call that does not bring the clock around makes no access of the future. -/
theorem Past.apply (p : t.Past) (room : t.clock.toNat + 1 < 0x1_0000_0000_0000_0000) (call : Call) :
    (t.apply call).Past ∧ (t.apply call).clock.toNat ≤ t.clock.toNat + 1 := by
  have next := toNat_add_one room
  have later : t.clock.toNat ≤ (t.clock + 1).toNat := next ▸ Nat.le_succ _
  cases call with
  | insert x =>
    by_cases empty : x.size = 0
    · have same : t.apply (.insert x) = t := if_pos empty
      rw [same]
      exact ⟨p, Nat.le_succ _⟩
    · refine ⟨p.insert later x.guest x.host x.writable empty, Nat.le_of_eq ?_⟩
      rw [← next]
      exact congrArg UInt64.toNat (clock_insert t x.guest x.host x.writable empty)
  | lookup a =>
    refine ⟨p.lookup later a, Nat.le_of_eq ?_⟩
    rw [← next]
    exact congrArg UInt64.toNat (clock_lookup t a)
  | invalidateAll =>
    have past : t.invalidateAll.Past := by
      refine p.mono (Nat.le_refl _) fun {j x} has => ?_
      obtain ⟨e, he, rfl⟩ := has_mapSlots.1 has
      exact .inl ⟨e, he, rfl⟩
    exact ⟨past, Nat.le_succ _⟩
  | invalidateRange guest size =>
    have past : (t.invalidateRange guest size).2.Past :=
      p.mono (Nat.le_refl _) fun has => .inl (last_of_has_purge has)
    exact ⟨past, Nat.le_succ _⟩

/-- Accesses stay in the past as long as the clock has room for all calls. -/
theorem Past.foldl (p : t.Past) (calls : List Call)
    (room : t.clock.toNat + calls.length < 0x1_0000_0000_0000_0000) :
    (calls.foldl Tlb.apply t).Past := by
  induction calls generalizing t with
  | nil => exact p
  | cons call rest ih =>
    rw [List.length_cons] at room
    obtain ⟨past, clock⟩ := p.apply (by omega) call
    exact ih past (by omega)

/-- Whatever a TLB is asked for, in whatever order, it never contradicts itself, and in less than
2^64 calls no access gets ahead of the clock. -/
theorem representation_after (calls : List Call) :
    (after calls).Consistent ∧
      (calls.length < 0x1_0000_0000_0000_0000 → (after calls).Past) :=
  ⟨consistent_after calls, fun few => past_empty.foldl calls ((Nat.zero_add _).symm ▸ few)⟩

/-- Two pages of one region, found side by side, of which the first is used again. -/
def neighbours : List Call :=
  [.insert ⟨⟨0x40000⟩, ⟨0x100000⟩, 0x1000, true⟩, .insert ⟨⟨0x41000⟩, ⟨0x101000⟩, 0x2000, true⟩,
    .lookup ⟨0x40008⟩]

theorem representation_after_neighbours :
    neighbours.length < 0x1_0000_0000_0000_0000 ∧ (after neighbours).Consistent ∧
      (after neighbours).Past := by
  have few : neighbours.length < 0x1_0000_0000_0000_0000 := by decide
  obtain ⟨consistent, past⟩ := representation_after neighbours
  exact ⟨few, consistent, past few⟩

/-- Lookups that miss only let the time pass. -/
theorem foldl_lookup {a : GuestAddr} (free : ¬t.Holds a) (n : Nat) :
    ((List.replicate n (.lookup a)).foldl Tlb.apply t).sets = t.sets ∧
      ((List.replicate n (.lookup a)).foldl Tlb.apply t).clock = t.clock + UInt64.ofNat n := by
  induction n with
  | zero => exact ⟨rfl, (UInt64.add_zero _).symm⟩
  | succ n ih =>
    rw [List.replicate_succ', List.foldl_append]
    obtain ⟨sets, clock⟩ := ih
    generalize (List.replicate n (Call.lookup a)).foldl Tlb.apply t = t' at sets clock
    have missed : ¬t'.Holds a := by
      rintro ⟨e, has, hit⟩
      exact free ⟨e, (has_congr sets).1 has, hit⟩
    refine ⟨(sets_lookup missed).trans sets, ?_⟩
    rw [add_ofNat_succ, ← clock]
    exact clock_lookup t' a

/-- A page that is looked up once. -/
def touchedOnce : List Call :=
  [.insert ⟨⟨0x40000⟩, ⟨0x100000⟩, 0x1000, true⟩, .lookup ⟨0x40000⟩]

/-- Then another one, which is not there, is looked up until the clock has come around: the page was
accessed later than it shows. -/
theorem not_past_touchedOnce :
    ¬(after (touchedOnce ++
      List.replicate 0xffff_ffff_ffff_fffe (.lookup ⟨0x41000⟩))).Past := by
  have free : ¬(after touchedOnce).Holds ⟨0x41000⟩ := by
    have missed : ((after touchedOnce).lookup ⟨0x41000⟩).1 = none := by decide +kernel
    rcases lookup_hit (after touchedOnce) ⟨0x41000⟩ with ⟨-, free⟩ | ⟨e, -, -, -, hit⟩
    · exact free
    · cases missed.symm.trans hit
  have page : (after touchedOnce).slots.any (fun e => e.last == 2) = true := by decide +kernel
  obtain ⟨e, slot, last⟩ := List.any_eq_true.1 page
  obtain ⟨i, has⟩ := mem_slots.1 slot
  obtain ⟨sets, clock⟩ := foldl_lookup free 0xffff_ffff_ffff_fffe
  rw [after, List.foldl_append]
  intro past
  have le := past i e ((has_congr sets).2 has)
  have around : (after touchedOnce).clock + UInt64.ofNat 0xffff_ffff_ffff_fffe = 0 := by
    decide +kernel
  rw [eq_of_beq last, show (List.foldl Tlb.apply empty touchedOnce) = after touchedOnce from rfl,
    clock, around] at le
  exact absurd le (by decide)

end GuestExec.Tlb
