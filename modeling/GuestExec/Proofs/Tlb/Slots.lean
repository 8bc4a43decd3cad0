import GuestExec.Tlb.Basic

/-!
# The slots of a TLB

`Has` is the view of a TLB's contents without their order: every operation says
what it does to it. Times, counts and statistics are not part of the view. A
lookup of an address hits when the address's own set has a valid entry that
covers it, which is `Holds`.
-/

namespace GuestExec.Tlb

variable {t : Tlb} {i j : Fin 64} {way : Nat} {e x : Entry} {a b : GuestAddr}

/-- `Vector.get` in the form that the lemmas on vectors are about. -/
theorem get_eq_getElem {α : Type} {n k : Nat} (xs : Vector α n) (h : k < n) :
    xs.get ⟨k, h⟩ = xs[k] :=
  rfl

/-- `e` is a slot of set `i`. -/
def Has (t : Tlb) (i : Fin 64) (e : Entry) : Prop := e ∈ (t.sets.get i).toList

theorem has_congr {t' : Tlb} (h : t'.sets = t.sets) : t'.Has i e ↔ t.Has i e := by
  rw [Has, Has, h]

theorem mem_slots : e ∈ t.slots ↔ ∃ i, t.Has i e := by
  simp only [slots, Has, List.mem_flatMap, Vector.mem_toList_iff]
  constructor
  · rintro ⟨ways, mem, h⟩
    obtain ⟨i, hi, rfl⟩ := Vector.mem_iff_getElem.1 mem
    exact ⟨⟨i, hi⟩, h⟩
  · rintro ⟨i, h⟩
    exact ⟨t.sets.get i, Vector.getElem_mem i.isLt, h⟩

theorem lt_of_getElem?_ways (h : (t.sets.get i).toList[way]? = some e) : way < 8 := by
  obtain ⟨lt, -⟩ := List.getElem?_eq_some_iff.1 h
  rwa [Vector.length_toList] at lt

theorem has_of_getElem? (h : (t.sets.get i).toList[way]? = some e) : t.Has i e :=
  List.mem_of_getElem? h

theorem has_empty (h : empty.Has i e) : e = Entry.empty := by
  simpa [Has, empty, get_eq_getElem _ i.isLt] using h

/-! ## One slot replaced, all slots mapped -/

theorem sets_setWay (t : Tlb) (i j : Fin 64) (way : Nat) (e : Entry) :
    ((t.setWay i way e).sets.get j).toList =
      if j = i then (t.sets.get i).toList.set way e else (t.sets.get j).toList := by
  simp only [setWay, get_eq_getElem _ i.isLt, get_eq_getElem _ j.isLt, Fin.getElem_fin,
    Vector.getElem_set, Fin.ext_iff]
  split
  · rename_i here
    rw [if_pos here.symm]
    simp
  · rename_i ne
    rw [if_neg (Ne.symm ne)]

theorem has_setWay (h : (t.setWay i way e).Has j x) : t.Has j x ∨ (j = i ∧ x = e) := by
  rw [Has, sets_setWay] at h
  split at h
  · rename_i here
    subst here
    exact (List.mem_or_eq_of_mem_set h).imp id fun eq => ⟨rfl, eq⟩
  · exact .inl h

theorem has_setWay_self (h : way < 8) : (t.setWay i way e).Has i e := by
  rw [Has, sets_setWay, if_pos rfl]
  exact List.mem_set (by simpa using h) e

theorem has_setWay_of_ne (h : j ≠ i) : (t.setWay i way e).Has j x ↔ t.Has j x := by
  rw [Has, sets_setWay, if_neg h, Has]

/-- A slot outlives the change of another. -/
theorem Has.setWay (h : t.Has j x) (i : Fin 64) (way : Nat) (e : Entry) :
    (t.setWay i way e).Has j x ∨ (j = i ∧ (t.sets.get i).toList[way]? = some x) := by
  by_cases here : j = i
  · subst here
    obtain ⟨k, hk, rfl⟩ := List.getElem_of_mem h
    by_cases same : k = way
    · subst same
      exact .inr ⟨rfl, List.getElem?_eq_getElem hk⟩
    · refine .inl ?_
      rw [Has, sets_setWay, if_pos rfl]
      exact List.mem_iff_getElem.2 ⟨k, by simpa using hk, List.getElem_set_ne (Ne.symm same) _⟩
  · exact .inl ((has_setWay_of_ne here).2 h)

theorem has_mapSlots {f : Entry → Entry} : (t.mapSlots f).Has i x ↔ ∃ e, t.Has i e ∧ f e = x := by
  simp [Has, mapSlots, get_eq_getElem _ i.isLt]

/-- What a purge leaves valid is what it does not pick. -/
theorem has_purge {doomed : Entry → Bool} (valid : x.valid = true) :
    (t.purge doomed).Has i x ↔ t.Has i x ∧ doomed x = false := by
  rw [purge, has_mapSlots]
  constructor
  · rintro ⟨e, h, rfl⟩
    by_cases picked : doomed e = true
    · rw [if_pos picked] at valid
      cases valid
    · rw [if_neg picked]
      exact ⟨h, by simpa using picked⟩
  · rintro ⟨h, spared⟩
    exact ⟨x, h, by simp [spared]⟩

/-! ## Lookups -/

theorem Entry.covers_eq_overlaps (e : Entry) (a : GuestAddr) :
    e.covers a = e.overlaps a.toNat (a.toNat + 1) := by
  rw [Bool.eq_iff_iff, covers_iff, overlaps_iff]
  omega

/-- `x` is `e` but for its time and its count. -/
structure Entry.Renews (x e : Entry) : Prop where
  guest : x.guest = e.guest
  host : x.host = e.host
  size : x.size = e.size
  valid : x.valid = e.valid
  writable : x.writable = e.writable

theorem Entry.Renews.refl (e : Entry) : e.Renews e := ⟨rfl, rfl, rfl, rfl, rfl⟩

theorem Entry.renews_touch (e : Entry) (now : Nat) : (e.touch now).Renews e :=
  ⟨rfl, rfl, rfl, rfl, rfl⟩

theorem Entry.Renews.covers (h : x.Renews e) (a : GuestAddr) : x.covers a = e.covers a := by
  rw [Entry.covers, Entry.covers, Entry.stop, Entry.stop, h.guest, h.size]

theorem Entry.Renews.hostAddr (h : x.Renews e) (a : GuestAddr) : x.hostAddr a = e.hostAddr a := by
  rw [Entry.hostAddr, Entry.hostAddr, h.guest, h.host]

/-- The TLB answers for `a`. -/
def Holds (t : Tlb) (a : GuestAddr) : Prop :=
  ∃ e, t.Has (setIndex a) e ∧ e.valid = true ∧ e.covers a = true

theorem find?_at_findIdx {p : Entry → Bool} {list : List Entry} (h : list.find? p = some e) :
    list[list.findIdx p]? = some e ∧ list.findIdx p < list.length := by
  have mem := List.mem_of_find?_eq_some h
  have sat := List.find?_some h
  have lt := List.findIdx_lt_length_of_exists ⟨e, mem, sat⟩
  refine ⟨?_, lt⟩
  rw [← List.find?_eq_getElem?_findIdx]
  exact h

/-- A lookup that hits finds an entry of the address's set; one that misses has none to find. -/
theorem lookup_hit (t : Tlb) (a : GuestAddr) :
    ((t.lookup a).1 = none ∧ ¬t.Holds a) ∨
      ∃ e, t.Has (setIndex a) e ∧ e.valid = true ∧ e.covers a = true ∧
        (t.lookup a).1 = some ⟨e.hostAddr a, e.writable⟩ := by
  simp only [lookup]
  split
  · rename_i e found
    have sat := List.find?_some found
    rw [Bool.and_eq_true] at sat
    exact .inr ⟨e, List.mem_of_find?_eq_some found, sat.1, sat.2, rfl⟩
  · rename_i missed
    refine .inl ⟨rfl, ?_⟩
    rintro ⟨e, mem, valid, covers⟩
    exact List.find?_eq_none.1 missed e mem (by simp [valid, covers])

theorem lookup_eq_none (free : ¬t.Holds a) : (t.lookup a).1 = none := by
  rcases t.lookup_hit a with ⟨missed, -⟩ | ⟨e, h, valid, covers, -⟩
  · exact missed
  · exact absurd ⟨e, h, valid, covers⟩ free

/-- A lookup that misses changes no slot. -/
theorem sets_lookup (free : ¬t.Holds a) : (t.lookup a).2.sets = t.sets := by
  simp only [lookup]
  split
  · rename_i e found
    have sat := List.find?_some found
    rw [Bool.and_eq_true] at sat
    exact absurd ⟨e, List.mem_of_find?_eq_some found, sat.1, sat.2⟩ free
  · rfl

/-- A lookup changes one slot at most, and of it only the time and the count. -/
theorem lookup_sets (t : Tlb) (a : GuestAddr) :
    (t.lookup a).2.sets = t.sets ∨
      ∃ way e, (t.sets.get (setIndex a)).toList[way]? = some e ∧ e.valid = true ∧
        (t.lookup a).2.sets = (t.setWay (setIndex a) way (e.touch (t.clock + 1).toNat)).sets := by
  simp only [lookup]
  split
  · rename_i e found
    have sat := List.find?_some found
    rw [Bool.and_eq_true] at sat
    exact .inr ⟨_, e, (find?_at_findIdx found).1, sat.1, rfl⟩
  · exact .inl rfl

theorem clock_lookup (t : Tlb) (a : GuestAddr) : (t.lookup a).2.clock = t.clock + 1 := by
  simp only [lookup]
  split <;> rfl

theorem has_lookup (h : (t.lookup a).2.Has i x) : ∃ e, t.Has i e ∧ x.Renews e := by
  rcases lookup_sets t a with same | ⟨way, e, there, -, sets⟩
  · exact ⟨x, (has_congr same).1 h, .refl x⟩
  · rcases has_setWay ((has_congr sets).1 h) with old | ⟨rfl, rfl⟩
    · exact ⟨x, old, .refl x⟩
    · exact ⟨e, has_of_getElem? there, e.renews_touch _⟩

theorem Has.lookup (h : t.Has i e) (a : GuestAddr) : ∃ x, (t.lookup a).2.Has i x ∧ x.Renews e := by
  rcases lookup_sets t a with same | ⟨way, hit, there, -, sets⟩
  · exact ⟨e, (has_congr same).2 h, .refl e⟩
  · rcases h.setWay (setIndex a) way (hit.touch (t.clock + 1).toNat) with old | ⟨rfl, here⟩
    · exact ⟨e, (has_congr sets).2 old, .refl e⟩
    · have same : hit = e := Option.some.inj (there.symm.trans here)
      subst same
      exact ⟨_, (has_congr sets).2 (has_setWay_self (lt_of_getElem?_ways there)),
        hit.renews_touch _⟩

theorem holds_lookup : (t.lookup a).2.Holds b ↔ t.Holds b := by
  constructor
  · rintro ⟨x, h, valid, covers⟩
    obtain ⟨e, he, same⟩ := has_lookup h
    exact ⟨e, he, same.valid ▸ valid, same.covers b ▸ covers⟩
  · rintro ⟨e, h, valid, covers⟩
    obtain ⟨x, hx, same⟩ := h.lookup a
    exact ⟨x, hx, same.valid.trans valid, (same.covers b).trans covers⟩

/-! ## Insertions -/

theorem leastEntry_lt (now : Nat) {list : List Entry} {position victim bound : Nat} {best : Entry}
    (inside : position + list.length ≤ bound) (chosen : victim < bound) :
    leastEntry now list position victim best < bound := by
  induction list generalizing position victim best with
  | nil => exact chosen
  | cons e rest ih =>
    rw [List.length_cons] at inside
    unfold leastEntry
    split
    · exact ih (by omega) (by omega)
    · exact ih (by omega) chosen

theorem selectVictim_lt {ways : List Entry} (now : Nat) (h : ways ≠ []) :
    selectVictim ways now < ways.length := by
  rw [selectVictim.eq_def]
  split
  · rename_i free found
    exact (List.findIdx?_eq_some_iff_getElem.1 found).1
  · cases ways with
    | nil => exact absurd rfl h
    | cons e rest =>
      exact leastEntry_lt now (by rw [List.length_cons]; omega) (by rw [List.length_cons]; omega)

section place

variable {guest : GuestAddr} {host : HostAddr} {size : UInt32} {writable : Bool} {now : Nat}

/-- `x` was put into the TLB `t` for the translation of `[guest, guest + size)` to `host`: it is
new, or an older entry with these bases that may have grown. -/
inductive Placed (t : Tlb) (guest : GuestAddr) (host : HostAddr) (size : UInt32) (writable : Bool)
    (x : Entry) : Prop where
  | fresh (guest : x.guest = guest) (host : x.host = host) (size : x.size = size)
      (valid : x.valid = true) (writable : x.writable = writable)
  | grown (e : Entry) (has : t.Has (setIndex guest) e) (old : e.valid = true)
      (base : e.guest = guest) (target : e.host = host) (guest : x.guest = guest)
      (host : x.host = host) (size : x.size = if e.size < size then size else e.size)
      (valid : x.valid = true) (writable : x.writable = e.writable)

theorem Placed.valid (p : Placed t guest host size writable x) : x.valid = true := by
  cases p <;> assumption

theorem Placed.guest_eq (p : Placed t guest host size writable x) : x.guest = guest := by
  cases p <;> assumption

theorem Placed.host_eq (p : Placed t guest host size writable x) : x.host = host := by
  cases p <;> assumption

theorem Placed.size_le (p : Placed t guest host size writable x) :
    size.toNat ≤ x.size.toNat := by
  cases p with
  | fresh _ _ eq => exact Nat.le_of_eq (congrArg UInt32.toNat eq.symm)
  | grown e _ _ _ _ _ _ eq =>
    rw [eq]
    split
    · exact Nat.le_refl _
    · rename_i ge
      exact Nat.le_of_not_lt fun lt => ge (UInt32.lt_iff_toNat_lt.2 lt)

/-- Where what was placed goes past the new range it is as it was. -/
theorem Placed.overlaps {lo hi : Nat} (p : Placed t guest host size writable x)
    (overlap : x.overlaps lo hi = true) :
    (guest.toNat < hi ∧ lo < guest.toNat + size.toNat) ∨
      ∃ e, t.Has (setIndex guest) e ∧ e.valid = true ∧ e.overlaps lo hi = true ∧
        x.guest = e.guest ∧ x.host = e.host ∧ x.writable = e.writable := by
  rw [Entry.overlaps_iff, Entry.stop, p.guest_eq] at overlap
  cases p with
  | fresh _ _ eq =>
    rw [eq] at overlap
    exact .inl overlap
  | grown e has old base target _ _ eq _ same =>
    rw [eq] at overlap
    split at overlap
    · exact .inl overlap
    · refine .inr ⟨e, has, old, ?_, by rw [base, ‹x.guest = guest›],
        by rw [target, ‹x.host = host›], same⟩
      rw [Entry.overlaps_iff, Entry.stop, base]
      exact overlap

theorem Placed.covers (p : Placed t guest host size writable x) (covers : x.covers b = true) :
    (guest.toNat ≤ b.toNat ∧ b.toNat < guest.toNat + size.toNat) ∨
      ∃ e, t.Has (setIndex guest) e ∧ e.valid = true ∧ e.covers b = true ∧
        x.hostAddr b = e.hostAddr b ∧ x.writable = e.writable := by
  rw [Entry.covers_eq_overlaps] at covers
  rcases p.overlaps covers with inside | ⟨e, has, old, overlap, base, target, same⟩
  · exact .inl ⟨by omega, inside.2⟩
  · refine .inr ⟨e, has, old, ?_, ?_, same⟩
    · rw [Entry.covers_eq_overlaps, overlap]
    · rw [Entry.hostAddr, Entry.hostAddr, base, target]

/-- What `place` writes into a way of the set of `guest`: the entry with these bases that it found
there, whose size only grows, or a new one if the set has no such entry. -/
inductive Fills (t : Tlb) (guest : GuestAddr) (host : HostAddr) (size : UInt32) (writable : Bool)
    (now : Nat) : Nat → Entry → Prop where
  | grown {way : Nat} {e : Entry} (there : (t.sets.get (setIndex guest)).toList[way]? = some e)
    (old : e.valid = true) (base : e.guest = guest) (target : e.host = host) :
    Fills t guest host size writable now way
      { e with size := if e.size < size then size else e.size, last := now }
  | fresh {way : Nat} (inside : way < 8)
    (free : ∀ {e}, t.Has (setIndex guest) e → e.valid = true → ¬(e.guest = guest ∧ e.host = host)) :
    Fills t guest host size writable now way
      { guest, host, size, valid := true, writable, last := now, count := 1 }

theorem Fills.lt (f : Fills t guest host size writable now way x) : way < 8 := by
  cases f with
  | grown there => exact lt_of_getElem?_ways there
  | fresh inside => exact inside

theorem Fills.placed (f : Fills t guest host size writable now way x) :
    Placed t guest host size writable x := by
  cases f with
  | grown there old base target =>
    exact .grown _ (has_of_getElem? there) old base target base target rfl old rfl
  | fresh => exact .fresh rfl rfl rfl rfl rfl

theorem Fills.last (f : Fills t guest host size writable now way x) : x.last = now := by
  cases f <;> rfl

/-- `place` fills one way of the set of `guest`. -/
theorem place_sets (t : Tlb) (guest : GuestAddr) (host : HostAddr) (size : UInt32)
    (writable : Bool) (now : Nat) :
    ∃ way x, Fills t guest host size writable now way x ∧
      (t.place guest host size writable now).sets = (t.setWay (setIndex guest) way x).sets := by
  rw [place]
  split
  · rename_i e found
    have sat := List.find?_some found
    simp only [Bool.and_eq_true, beq_iff_eq] at sat
    obtain ⟨⟨valid, base⟩, target⟩ := sat
    exact ⟨_, _, .grown (find?_at_findIdx found).1 valid base target, rfl⟩
  · rename_i missed
    have full : (t.sets.get (setIndex guest)).toList ≠ [] := fun none => by
      simpa using congrArg List.length none
    have lt := selectVictim_lt now full
    rw [Vector.length_toList] at lt
    refine ⟨_, _, .fresh lt fun {e} has valid same => ?_, ?_⟩
    · exact List.find?_eq_none.1 missed e has (by simp [valid, same.1, same.2])
    · dsimp only
      split <;> rfl

theorem clock_place (t : Tlb) (guest : GuestAddr) (host : HostAddr) (size : UInt32)
    (writable : Bool) (now : Nat) : (t.place guest host size writable now).clock = t.clock := by
  rw [place]
  split
  · rfl
  · dsimp only
    split <;> rfl

theorem clock_insert (t : Tlb) (guest : GuestAddr) (host : HostAddr) {size : UInt32}
    (writable : Bool) (pos : size ≠ 0) :
    (t.insert guest host size writable).clock = t.clock + 1 := by
  rw [insert, if_neg pos]
  exact clock_place _ guest host size writable _

/-- An insertion drops what contradicts it and then fills one way of the set of `guest`. -/
theorem insert_sets (t : Tlb) (guest : GuestAddr) (host : HostAddr) {size : UInt32}
    (writable : Bool) (pos : size ≠ 0) :
    ∃ way x, Fills (t.purge (contradicts guest host size writable)) guest host size writable
        (t.clock + 1).toNat way x ∧
      (t.insert guest host size writable).sets =
        ((t.purge (contradicts guest host size writable)).setWay (setIndex guest) way x).sets := by
  rw [insert, if_neg pos]
  obtain ⟨way, x, fills, sets⟩ := place_sets
    { t.purge (contradicts guest host size writable) with
      clock := t.clock + 1
      stats := { t.stats with
        conflicts := t.stats.conflicts + t.slots.countP (contradicts guest host size writable)
        inserts := t.stats.inserts + 1 } } guest host size writable (t.clock + 1).toNat
  refine ⟨way, x, ?_, sets⟩
  cases fills with
  | grown there old base target => exact .grown there old base target
  | fresh inside free => exact .fresh inside free

theorem Placed.of_purge {doomed : Entry → Bool}
    (p : Placed (t.purge doomed) guest host size writable x) :
    Placed t guest host size writable x := by
  cases p with
  | fresh g h s v w => exact .fresh g h s v w
  | grown e has old base target g h s v w =>
    exact .grown e ((has_purge old).1 has).1 old base target g h s v w

/-- What an insertion leaves: in one slot of the set of `guest` the new translation, in the others
what was valid there and does not contradict it. -/
theorem insert_spec (t : Tlb) (guest : GuestAddr) (host : HostAddr) {size : UInt32}
    (writable : Bool) (pos : size ≠ 0) :
    ∃ x, Placed t guest host size writable x ∧
      (t.insert guest host size writable).Has (setIndex guest) x ∧
      (∀ {j y}, (t.insert guest host size writable).Has j y → y.valid = true →
        t.Has j y ∨ (j = setIndex guest ∧ y = x)) ∧
      ∀ {j y}, j ≠ setIndex guest → t.Has j y → y.valid = true →
        contradicts guest host size writable y = false →
        (t.insert guest host size writable).Has j y := by
  obtain ⟨way, x, fills, sets⟩ := insert_sets t guest host writable pos
  refine ⟨x, fills.placed.of_purge, (has_congr sets).2 (has_setWay_self fills.lt),
    fun h valid => ?_, fun ne h valid spared => ?_⟩
  · rcases has_setWay ((has_congr sets).1 h) with h | h
    · exact .inl ((has_purge valid).1 h).1
    · exact .inr h
  · exact (has_congr sets).2 ((has_setWay_of_ne ne).2 ((has_purge valid).2 ⟨h, spared⟩))

end place

end GuestExec.Tlb
