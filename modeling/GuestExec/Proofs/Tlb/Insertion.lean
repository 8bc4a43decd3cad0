import GuestExec.Proofs.Tlb.Latest
import GuestExec.Proofs.Tlb.Places
import GuestExec.Proofs.Tlb.Victim

/-!
# What an insertion does to the whole cache

First every entry that contradicts the new translation is dropped, wherever it is. Then one place
in the set of the new base changes: where an entry with the same bases is left, it is renewed, and
otherwise one way makes room. Nothing else changes.
-/

namespace GuestExec.Tlb

namespace Translation

/-- The distance from guest to host address, modulo 2^64. -/
def delta (x : Translation) : UInt64 := x.host.word - x.guest.word

/-- The entry is valid and translates some address of the range of `x`, but not as `x` does. -/
structure Contradicts (x : Translation) (e : Entry) : Prop where
  valid : e.valid = true
  meets : ∃ a, e.covers a = true ∧ x.Covers a
  differs : e.delta ≠ x.delta ∨ e.writable ≠ x.writable

/-- The entry is valid and begins where `x` does, on either side. -/
structure SameBases (x : Translation) (e : Entry) : Prop where
  valid : e.valid = true
  guest : e.guest = x.guest
  host : e.host = x.host

/-- The entry that is made for `x` at time `now`. -/
def fresh (x : Translation) (now : Nat) : Entry :=
  { guest := x.guest, host := x.host, size := x.size, valid := true, writable := x.writable,
    last := now, count := 1 }

/-- An entry with the bases of `x` after `x` was inserted at time `now`. -/
def renew (x : Translation) (now : Nat) (e : Entry) : Entry :=
  { e with size := max e.size x.size, last := now }

end Translation

/-- Which of the eight `ways` makes room at time `now`: the first that is not valid, and when all
are valid the one of the lowest rank, of these the first. -/
structure MakesRoom (ways : Fin 8 → Entry) (now : Nat) (victim : Fin 8) : Prop where
  free : (∃ way, (ways way).valid = false) →
    (ways victim).valid = false ∧ ∀ way < victim, (ways way).valid = true
  least : (∀ way, (ways way).valid = true) →
    ∀ way, toLex ((ways victim).rank now, victim) ≤ toLex ((ways way).rank now, way)

/-- `rest` is what the entries of `t` are once those that contradict `x` have been dropped. -/
structure Spared (t : Tlb) (x : Translation) (rest : Place → Entry) : Prop where
  dropped : ∀ p, x.Contradicts (t.entryAt p) → rest p = (t.entryAt p).drop
  kept : ∀ p, ¬x.Contradicts (t.entryAt p) → rest p = t.entryAt p

/-- `t'` is `t` after the insertion of `x`, which has spared `rest`. -/
structure Inserted (t : Tlb) (x : Translation) (rest : Place → Entry) (t' : Tlb) : Prop where
  spared : t.Spared x rest
  clock : t'.clock = t.clock + 1
  renewed : ∀ p, p.1 = setIndex x.guest → x.SameBases (rest p) →
    t'.entryAt = Function.update rest p (x.renew (t.clock + 1).toNat (rest p)) ∧
      t'.stats = { t.stats with
        inserts := t.stats.inserts + 1
        conflicts := t.stats.conflicts + {p | x.Contradicts (t.entryAt p)}.ncard }
  placed : (∀ way, ¬x.SameBases (rest (setIndex x.guest, way))) →
    ∃ victim, MakesRoom (fun way => rest (setIndex x.guest, way)) (t.clock + 1).toNat victim ∧
      t'.entryAt = Function.update rest (setIndex x.guest, victim)
        (x.fresh (t.clock + 1).toNat) ∧
      t'.stats = { t.stats with
        inserts := t.stats.inserts + 1
        conflicts := t.stats.conflicts + {p | x.Contradicts (t.entryAt p)}.ncard
        evictions := t.stats.evictions +
          if (rest (setIndex x.guest, victim)).valid = true then 1 else 0 }

variable {t : Tlb} {x : Translation} {e : Entry} {now : Nat} {way : Fin 8} {a : GuestAddr}

/-! ## What is dropped -/

theorem contradicts_iff (pos : x.size ≠ 0) (sized : e.valid = true → e.size ≠ 0) :
    contradicts x.guest x.host x.size x.writable e = true ↔ x.Contradicts e := by
  have differs : (!e.agrees x.guest x.host x.writable) = true ↔
      e.delta ≠ x.delta ∨ e.writable ≠ x.writable := by
    rw [Entry.agrees, Translation.delta, Bool.not_eq_true', Bool.and_eq_false_iff,
      beq_eq_false_iff_ne, beq_eq_false_iff_ne]
  rw [contradicts, Bool.and_eq_true, Bool.and_eq_true, differs]
  constructor
  · rintro ⟨⟨valid, overlap⟩, differs⟩
    exact ⟨valid, (Entry.overlaps_iff_shares (sized valid) (toNat_pos_of_ne_zero pos)).1 overlap,
      differs⟩
  · rintro ⟨valid, meets, differs⟩
    exact ⟨⟨valid, (Entry.overlaps_iff_shares (sized valid) (toNat_pos_of_ne_zero pos)).2 meets⟩,
      differs⟩

theorem entryAt_purge (doomed : Entry → Bool) (p : Place) :
    (t.purge doomed).entryAt p = if doomed (t.entryAt p) then (t.entryAt p).drop else t.entryAt p :=
  entryAt_mapSlots _ p

theorem Consistent.spared_purge (c : t.Consistent) (pos : x.size ≠ 0) :
    t.Spared x (t.purge (contradicts x.guest x.host x.size x.writable)).entryAt := by
  have iff : ∀ p, _ := fun p =>
    contradicts_iff (e := t.entryAt p) pos (c.sized (t.has_entryAt p))
  refine ⟨fun p contradicts => ?_, fun p spared => ?_⟩
  · rw [entryAt_purge, if_pos ((iff p).2 contradicts)]
  · rw [entryAt_purge, if_neg fun contradicts => spared ((iff p).1 contradicts)]

theorem Consistent.countP_contradicts (c : t.Consistent) (pos : x.size ≠ 0) :
    t.slots.countP (contradicts x.guest x.host x.size x.writable) =
      {p | x.Contradicts (t.entryAt p)}.ncard := by
  rw [countP_slots]
  congr 1
  ext p
  exact contradicts_iff pos (c.sized (t.has_entryAt p))

/-! ## What is placed -/

theorem sameBases_iff :
    (e.valid && e.guest == x.guest && e.host == x.host) = true ↔ x.SameBases e := by
  rw [Bool.and_eq_true, Bool.and_eq_true, beq_iff_eq, beq_iff_eq]
  exact ⟨fun ⟨⟨valid, guest⟩, host⟩ => ⟨valid, guest, host⟩,
    fun ⟨valid, guest, host⟩ => ⟨⟨valid, guest⟩, host⟩⟩

/-- No two entries of a set have the same bases. -/
theorem Consistent.eq_of_sameBases (c : t.Consistent) {i : Fin 64} {k : Fin 8}
    (same : x.SameBases (t.entryAt (i, way))) (same' : x.SameBases (t.entryAt (i, k))) :
    k = way := by
  by_contra ne
  have distinct := apart_of_pairwise ((distinct_slots_iff c.home).1 c.distinct i)
    (fun eq => ne (Fin.ext eq)) (getElem?_ways t i k) (getElem?_ways t i way)
  exact distinct same'.valid same.valid
    ⟨same'.guest.trans same.guest.symm, same'.host.trans same.host.symm⟩

theorem renew_eq (x : Translation) (now : Nat) (e : Entry) :
    x.renew now e = { e with size := if e.size < x.size then x.size else e.size, last := now } := by
  have larger : max e.size x.size = if e.size < x.size then x.size else e.size := by
    show (if e.size ≤ x.size then x.size else e.size) = _
    by_cases less : e.size < x.size
    · rw [if_pos less, if_pos (UInt32.le_of_lt less)]
    · rw [if_neg less]
      split
      · rename_i le
        exact UInt32.le_antisymm (UInt32.not_lt.1 less) le
      · rfl
  rw [Translation.renew, larger]

/-- The one entry with the same bases is renewed. -/
theorem place_renewed (same : x.SameBases (t.entryAt (setIndex x.guest, way)))
    (only : ∀ k, x.SameBases (t.entryAt (setIndex x.guest, k)) → k = way) (now : Nat) :
    (t.place x.guest x.host x.size x.writable now).entryAt =
        Function.update t.entryAt (setIndex x.guest, way)
          (x.renew now (t.entryAt (setIndex x.guest, way))) ∧
      (t.place x.guest x.host x.size x.writable now).stats = t.stats := by
  rw [place]
  split
  · rename_i e found
    obtain ⟨k, index, rfl, matched⟩ := exists_way_of_find? found
    obtain rfl := only k (sameBases_iff.1 matched)
    refine ⟨?_, rfl⟩
    rw [renew_eq, ← entryAt_setWay, ← index]
    rfl
  · rename_i missed
    have mem := has_entryAt t (setIndex x.guest, way)
    exact absurd (sameBases_iff.2 same) (List.find?_eq_none.1 missed _ mem)

/-- The victim makes room. -/
theorem makesRoom_selectVictim (t : Tlb) (i : Fin 64) (now : Nat) :
    ∃ victim : Fin 8, selectVictim (t.sets.get i).toList now = victim ∧
      MakesRoom (fun way => t.entryAt (i, way)) now victim := by
  have nonempty : (t.sets.get i).toList ≠ [] := fun none => by
    simpa using congrArg List.length none
  have lt := selectVictim_lt now nonempty
  rw [Vector.length_toList] at lt
  refine ⟨⟨_, lt⟩, rfl, fun ⟨way, dropped⟩ => ?_, fun full way => ?_⟩
  · obtain ⟨⟨e, there, invalid⟩, before⟩ :=
      selectVictim_free ⟨_, has_entryAt t (i, way), dropped⟩ now
    rw [getElem?_ways t i ⟨_, lt⟩] at there
    refine ⟨(Option.some.inj there) ▸ invalid, fun k less => ?_⟩
    exact before k _ less (getElem?_ways t i k)
  · have valid : ∀ e ∈ (t.sets.get i).toList, e.valid = true := by
      intro e mem
      obtain ⟨k, rfl⟩ := has_iff.1 mem
      exact full k
    obtain ⟨e, there, least⟩ := leaves_selectVictim valid nonempty now
    rw [getElem?_ways t i ⟨_, lt⟩] at there
    obtain rfl := Option.some.inj there
    obtain ⟨le, first⟩ := least way _ (getElem?_ways t i way)
    rw [Prod.Lex.toLex_le_toLex]
    refine le.lt_or_eq.imp_right fun tie => ⟨tie, not_lt.1 fun before => ?_⟩
    exact (first before).ne tie

/-- Where no entry with the same bases is left, the victim is overwritten. -/
theorem place_fresh (new : ∀ way, ¬x.SameBases (t.entryAt (setIndex x.guest, way))) (now : Nat) :
    ∃ victim, MakesRoom (fun way => t.entryAt (setIndex x.guest, way)) now victim ∧
      (t.place x.guest x.host x.size x.writable now).entryAt =
        Function.update t.entryAt (setIndex x.guest, victim) (x.fresh now) ∧
      (t.place x.guest x.host x.size x.writable now).stats = { t.stats with
        evictions := t.stats.evictions +
          if (t.entryAt (setIndex x.guest, victim)).valid = true then 1 else 0 } := by
  obtain ⟨victim, picked, room⟩ := makesRoom_selectVictim t (setIndex x.guest) now
  refine ⟨victim, room, ?_⟩
  rw [place]
  split
  · rename_i e found
    obtain ⟨k, -, rfl, matched⟩ := exists_way_of_find? found
    exact absurd (sameBases_iff.1 matched) (new k)
  · have picked : selectVictim t.sets[setIndex x.guest].toList now = victim := picked
    have evicted : t.sets[setIndex x.guest].toList[victim.val]? =
        some (t.entryAt (setIndex x.guest, victim)) := getElem?_ways t _ victim
    dsimp only
    rw [picked, evicted, Option.any_some, ← entryAt_setWay]
    by_cases valid : (t.entryAt (setIndex x.guest, victim)).valid = true
    · rw [if_pos valid, if_pos valid]
      exact ⟨rfl, rfl⟩
    · rw [if_neg valid, if_neg valid]
      exact ⟨rfl, rfl⟩

/-! ## Insertions -/

/-- An insertion drops and counts what contradicts it, and then places its translation. -/
theorem exists_insert_eq (t : Tlb) (pos : x.size ≠ 0) :
    ∃ p : Tlb, p.sets = (t.purge (contradicts x.guest x.host x.size x.writable)).sets ∧
      p.clock = t.clock + 1 ∧
      p.stats = { t.stats with
        inserts := t.stats.inserts + 1
        conflicts :=
          t.stats.conflicts + t.slots.countP (contradicts x.guest x.host x.size x.writable) } ∧
      t.apply (.insert x) = p.place x.guest x.host x.size x.writable (t.clock + 1).toNat := by
  have eq : t.apply (.insert x) = _ := if_neg pos
  exact ⟨_, by rfl, by rfl, by rfl, eq⟩

theorem Consistent.inserted (c : t.Consistent) (pos : x.size ≠ 0) :
    ∃ rest, t.Inserted x rest (t.apply (.insert x)) := by
  obtain ⟨p, sets, -, stats, eq⟩ := exists_insert_eq t pos
  have purged : p.Consistent := (c.purge _).congr sets
  rw [c.countP_contradicts pos] at stats
  refine ⟨p.entryAt, ?_, clock_insert t x.guest x.host x.writable pos, ?_, ?_⟩
  · rw [entryAt_congr sets]
    exact c.spared_purge pos
  · rintro ⟨i, way⟩ rfl same
    rw [eq, ← stats]
    exact place_renewed same (fun k same' => purged.eq_of_sameBases same same') _
  · intro new
    obtain ⟨victim, room, entries, counted⟩ := place_fresh new (t.clock + 1).toNat
    rw [stats] at counted
    rw [eq]
    exact ⟨victim, room, entries, counted⟩

/-- What an insertion into the cache does to all of it, after any sequence of calls. What
contradicts the new translation is dropped, wherever it is, and counted. Then the entry with the
same bases is renewed, or the new one is placed where there is room. All else stays, and whatever
address of the new range is looked up in the set of its base hits with the new translation. -/
theorem insert_exact (calls : List Call) (x : Translation) (pos : x.size ≠ 0) :
    ∃ rest, (after calls).Inserted x rest (after (calls ++ [.insert x])) ∧
      ∀ a, x.Covers a → setIndex a = setIndex x.guest →
        x.host.toNat + x.size.toNat ≤ 0x1_0000_0000_0000_0000 →
        ∃ hit, ((after (calls ++ [.insert x])).lookup a).1 = some hit ∧
          hit.host.toNat = x.host.toNat + (a.toNat - x.guest.toNat) ∧
          hit.writable = x.writable := by
  obtain ⟨rest, inserted⟩ := (consistent_after calls).inserted pos
  refine ⟨rest, ?_, fun a covers set fits => ?_⟩
  · rw [after_concat]
    exact inserted
  · exact ⟨_, lookup_insert calls covers set, Translation.toNat_hostAddr covers fits, rfl⟩

/-- Eight pages fill the first set, and all but the fourth are used again. A range of two pages in
the last set reaches into the first. -/
def fullSet : List Call :=
  (List.range 8).map (fun i => .insert ⟨⟨0x40000 * UInt64.ofNat i⟩, ⟨0x100000⟩, 0x1000, false⟩) ++
    ([0, 1, 2, 4, 5, 6, 7].map fun i => .lookup ⟨0x40000 * i⟩) ++
    [.insert ⟨⟨0x1ff000⟩, ⟨0x700000⟩, 0x2000, true⟩]

/-- The page takes the place of the fourth one, and the longer range has to go. -/
theorem insert_exact_fullSet :
    let page : Translation := ⟨⟨0x200000⟩, ⟨0x900000⟩, 0x1000, true⟩
    let t := after (fullSet ++ [.insert page])
    page.size ≠ 0 ∧ t.entryAt (0, 3) = page.fresh 17 ∧ (t.entryAt (63, 0)).valid = false ∧
      ∃ rest, (after fullSet).Inserted page rest t ∧
        ∃ hit, (t.lookup ⟨0x200010⟩).1 = some hit ∧ hit.host.toNat = 0x900010 ∧
          hit.writable = true := by
  intro page t
  have pos : page.size ≠ 0 := by decide
  obtain ⟨rest, inserted, hits⟩ := insert_exact fullSet page pos
  refine ⟨pos, by decide +kernel, by decide +kernel, rest, inserted, ?_⟩
  exact hits ⟨0x200010⟩ ⟨by decide, by decide⟩ (by decide) (by decide)

end GuestExec.Tlb
