/-!
# Rosters

Things that go by the number of their creation.
-/

namespace GuestExec

/-- Things by their number in the order of creation; one that is gone leaves its number unused. -/
structure Roster (α : Type) where
  members : Array (Option α) := #[]
deriving Inhabited

namespace Roster

variable {α : Type} {r : Roster α} {i j : Nat} {a b : α}

def add (r : Roster α) (a : α) : Nat × Roster α := (r.members.size, ⟨r.members.push (some a)⟩)

def get? (r : Roster α) (i : Nat) : Option α := r.members[i]?.join

def set (r : Roster α) (i : Nat) (a : α) : Roster α := ⟨r.members.setIfInBounds i (some a)⟩

def drop (r : Roster α) (i : Nat) : Roster α := ⟨r.members.setIfInBounds i none⟩

/-- Member `i`, if there is one, replaced by its image. -/
def modify (r : Roster α) (i : Nat) (f : α → α) : Roster α :=
  match r.get? i with
  | some a => r.set i (f a)
  | none => r

theorem get?_add (r : Roster α) (a : α) (i : Nat) :
    (r.add a).2.get? i = if i = (r.add a).1 then some a else r.get? i := by
  simp only [add, get?, Array.getElem?_push]
  split <;> simp_all

theorem get?_size (r : Roster α) : r.get? r.members.size = none := by
  rw [get?, Array.getElem?_eq_none (Nat.le_refl _)]
  rfl

theorem get?_set (r : Roster α) (i j : Nat) (a : α) (h : i < r.members.size) :
    (r.set i a).get? j = if j = i then some a else r.get? j := by
  simp only [set, get?, Array.getElem?_setIfInBounds, h, if_true]
  by_cases e : i = j
  · simp [e]
  · simp [e, Ne.symm e]

theorem get?_drop (r : Roster α) (i j : Nat) :
    (r.drop i).get? j = if j = i then none else r.get? j := by
  simp only [drop, get?, Array.getElem?_setIfInBounds]
  by_cases e : i = j
  · subst e
    by_cases h : i < r.members.size <;> simp [h]
  · simp [e, Ne.symm e]

theorem lt_of_get? (h : r.get? i = some a) : i < r.members.size := by
  rw [get?] at h
  by_cases lt : i < r.members.size
  · exact lt
  · rw [Array.getElem?_eq_none (Nat.le_of_not_lt lt)] at h
    cases h

theorem get?_set_of_get? (h : r.get? i = some a) :
    (r.set i b).get? j = if j = i then some b else r.get? j :=
  get?_set r i j b (lt_of_get? h)

theorem get?_set_self (h : r.get? i = some a) (b : α) : (r.set i b).get? i = some b := by
  rw [get?_set_of_get? h, if_pos rfl]

theorem get?_modify (f : α → α) :
    (r.modify i f).get? j = if j = i then (r.get? i).map f else r.get? j := by
  unfold modify
  split
  · rename_i a found
    rw [get?_set_of_get? found, found, Option.map_some]
  · rename_i free
    split
    · rename_i here
      rw [here, free, Option.map_none]
    · rfl

theorem modify_set (h : r.get? i = some a) (b : α) (f : α → α) :
    (r.set i b).modify i f = r.set i (f b) := by
  rw [modify, get?_set_self h]
  simp only [set, Array.setIfInBounds_setIfInBounds]

@[simp] theorem size_add (r : Roster α) (a : α) :
    (r.add a).2.members.size = r.members.size + 1 := Array.size_push _

@[simp] theorem size_set (r : Roster α) (i : Nat) (a : α) :
    (r.set i a).members.size = r.members.size := Array.size_setIfInBounds

@[simp] theorem size_drop (r : Roster α) (i : Nat) : (r.drop i).members.size = r.members.size :=
  Array.size_setIfInBounds

end Roster

end GuestExec
