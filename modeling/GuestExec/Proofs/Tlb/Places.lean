import GuestExec.Proofs.Tlb.Consistent
import Mathlib.Data.Set.Card

/-!
# The entries of a TLB, place by place

A place is a set and a way of it. `entryAt` says what is where, dropped entries included, so that
what a call does to the whole cache can be said place by place: nothing moves.
-/

namespace GuestExec.Tlb

/-- A set and a way of it. -/
abbrev Place := Fin 64 × Fin 8

/-- The entry in a place, valid or not. -/
def entryAt (t : Tlb) (p : Place) : Entry := (t.sets.get p.1).get p.2

variable {t t' : Tlb} {i : Fin 64} {way : Fin 8} {p : Place} {e : Entry} {a guest : GuestAddr}

theorem entryAt_congr (h : t'.sets = t.sets) : t'.entryAt = t.entryAt := by
  funext p
  rw [entryAt, entryAt, h]

theorem getElem?_ways (t : Tlb) (i : Fin 64) (way : Fin 8) :
    (t.sets.get i).toList[way.val]? = some (t.entryAt (i, way)) := by
  rw [List.getElem?_eq_getElem (by simp), Vector.getElem_toList]
  rfl

theorem has_iff : t.Has i e ↔ ∃ way, t.entryAt (i, way) = e := by
  constructor
  · intro has
    obtain ⟨k, lt, rfl⟩ := List.getElem_of_mem has
    rw [Vector.length_toList] at lt
    refine ⟨⟨k, lt⟩, ?_⟩
    rw [Vector.getElem_toList]
    rfl
  · rintro ⟨way, rfl⟩
    exact has_of_getElem? (getElem?_ways t i way)

theorem has_entryAt (t : Tlb) (p : Place) : t.Has p.1 (t.entryAt p) := has_iff.2 ⟨p.2, rfl⟩

/-- What is found in a set is in a way of it. -/
theorem exists_way_of_find? {q : Entry → Bool}
    (found : (t.sets.get i).toList.find? q = some e) :
    ∃ way : Fin 8, (t.sets.get i).toList.findIdx q = way ∧ t.entryAt (i, way) = e ∧ q e = true := by
  obtain ⟨there, lt⟩ := find?_at_findIdx found
  rw [Vector.length_toList] at lt
  refine ⟨⟨_, lt⟩, rfl, ?_, List.find?_some found⟩
  exact Option.some.inj ((getElem?_ways t i ⟨_, lt⟩).symm.trans there)

theorem entryAt_mapSlots (f : Entry → Entry) (p : Place) :
    (t.mapSlots f).entryAt p = f (t.entryAt p) := by
  simp [entryAt, mapSlots, get_eq_getElem _ p.1.isLt, get_eq_getElem _ p.2.isLt]

theorem entryAt_setWay (t : Tlb) (i : Fin 64) (way : Fin 8) (e : Entry) :
    (t.setWay i way e).entryAt = Function.update t.entryAt (i, way) e := by
  funext ⟨j, k⟩
  simp only [entryAt, setWay, get_eq_getElem _ j.isLt, get_eq_getElem _ k.isLt, Fin.getElem_fin,
    Vector.getElem_set, Function.update_apply, Prod.mk.injEq, Fin.ext_iff]
  by_cases same : i.val = j.val
  · simp [same, Vector.getElem_setIfInBounds, eq_comm]
  · simp [same, Ne.symm same]

/-- A list in which everything stands once counts whatever it is asked for. -/
theorem countP_eq_ncard {α : Type} {list : List α} (nodup : list.Nodup) (all : ∀ x, x ∈ list)
    (q : α → Bool) : list.countP q = {x | q x = true}.ncard := by
  classical
  have same : {x | q x = true} = ((list.filter q).toFinset : Set α) := by
    ext x
    simp [all x]
  rw [same, Set.ncard_coe_finset, List.toFinset_card_of_nodup (nodup.filter q),
    List.countP_eq_length_filter]

theorem toList_eq_map_get {α : Type} {n : Nat} (xs : Vector α n) :
    xs.toList = (List.finRange n).map xs.get := by
  refine List.ext_getElem (by simp) fun k lt _ => ?_
  rw [Vector.length_toList] at lt
  rw [Vector.getElem_toList, List.getElem_map, List.getElem_finRange]
  rfl

theorem slots_eq_map (t : Tlb) :
    t.slots = (List.finRange 64 ×ˢ List.finRange 8).map t.entryAt := by
  rw [slots, toList_eq_map_get, List.flatMap_map]
  simp only [toList_eq_map_get, SProd.sprod, List.product, List.map_flatMap, List.map_map]
  rfl

/-- Slots are counted place by place. -/
theorem countP_slots (t : Tlb) (q : Entry → Bool) :
    t.slots.countP q = {p : Place | q (t.entryAt p) = true}.ncard := by
  rw [slots_eq_map, List.countP_map]
  refine countP_eq_ncard ((List.nodup_finRange 64).product (List.nodup_finRange 8)) (fun p => ?_) _
  exact List.mem_product.2 ⟨List.mem_finRange p.1, List.mem_finRange p.2⟩

/-! ## Ranges -/

/-- Ranges that are not empty overlap where they share an address: the later of the two begins is
one, wherever the ranges end. -/
theorem Entry.overlaps_iff_shares (sized : e.size ≠ 0) {n : Nat} (pos : 0 < n) :
    e.overlaps guest.toNat (guest.toNat + n) = true ↔
      ∃ a : GuestAddr, e.covers a = true ∧ guest.toNat ≤ a.toNat ∧ a.toNat < guest.toNat + n := by
  have room := toNat_pos_of_ne_zero sized
  simp only [overlaps_iff, covers_iff, stop]
  constructor
  · rintro ⟨below, above⟩
    rcases Nat.le_total e.guest.toNat guest.toNat with before | behind
    · exact ⟨guest, ⟨before, above⟩, Nat.le_refl _, by omega⟩
    · exact ⟨e.guest, ⟨Nat.le_refl _, by omega⟩, behind, below⟩
  · rintro ⟨a, ⟨lo, hi⟩, above, below⟩
    omega

end GuestExec.Tlb
