/-!
# Tables ordered by address

`AddressTable α` holds at most one value for each key, in ascending order of
keys. Besides the value at a key it finds the one at the greatest key not above
a given number (`floor?`), which is how an address finds the range it lies in.
-/

namespace GuestExec

/-- `(key, value)` put at its place in an ascending list, over a pair with the same key. -/
def insertAscending {α : Type} (key : Nat) (value : α) : List (Nat × α) → List (Nat × α)
  | [] => [(key, value)]
  | pair :: rest =>
    if key < pair.1 then (key, value) :: pair :: rest
    else if key = pair.1 then (key, value) :: rest
    else pair :: insertAscending key value rest

theorem mem_insertAscending_key {α : Type} {key : Nat} {value : α} {list : List (Nat × α)}
    {pair : Nat × α} (h : pair ∈ insertAscending key value list) :
    pair = (key, value) ∨ pair ∈ list := by
  induction list with
  | nil => simpa [insertAscending] using h
  | cons head rest ih =>
    rw [insertAscending] at h
    split at h
    · simpa using h
    · split at h
      · rcases List.mem_cons.1 h with h | h
        · exact .inl h
        · exact .inr (List.mem_cons_of_mem _ h)
      · rcases List.mem_cons.1 h with h | h
        · exact .inr (h ▸ List.mem_cons_self)
        · exact (ih h).imp id (List.mem_cons_of_mem _)

theorem pairwise_insertAscending {α : Type} (key : Nat) (value : α) {list : List (Nat × α)}
    (sorted : list.Pairwise (·.1 < ·.1)) :
    (insertAscending key value list).Pairwise (·.1 < ·.1) := by
  induction list with
  | nil => simp [insertAscending]
  | cons head rest ih =>
    obtain ⟨above, tail⟩ := List.pairwise_cons.1 sorted
    rw [insertAscending]
    split
    · next lt =>
      refine List.pairwise_cons.2 ⟨fun pair mem => ?_, sorted⟩
      rcases List.mem_cons.1 mem with rfl | mem
      · exact lt
      · exact Nat.lt_trans lt (above pair mem)
    · next notLt =>
      split
      · next eq => exact List.pairwise_cons.2 ⟨fun pair mem => eq ▸ above pair mem, tail⟩
      · next ne =>
        refine List.pairwise_cons.2 ⟨fun pair mem => ?_, ih tail⟩
        rcases mem_insertAscending_key mem with rfl | mem
        · exact Nat.lt_of_le_of_ne (Nat.le_of_not_lt notLt) (Ne.symm ne)
        · exact above pair mem

/-- Values by key, in ascending order of keys. -/
structure AddressTable (α : Type) where
  entries : List (Nat × α)
  sorted : entries.Pairwise (·.1 < ·.1)

namespace AddressTable

variable {α : Type}

def empty : AddressTable α := ⟨[], .nil⟩

instance : Inhabited (AddressTable α) := ⟨empty⟩

def size (t : AddressTable α) : Nat := t.entries.length

/-- The values, in ascending order of their keys. -/
def values (t : AddressTable α) : List α := t.entries.map (·.2)

/-- The value at `key`. -/
def get? (t : AddressTable α) (key : Nat) : Option α :=
  (t.entries.find? (·.1 == key)).map (·.2)

/-- The value at the greatest key that is not above `key`. -/
def floor? (t : AddressTable α) (key : Nat) : Option α :=
  (t.entries.filter (·.1 ≤ key)).getLast?.map (·.2)

/-- Sets the value at `key`. -/
def insert (t : AddressTable α) (key : Nat) (value : α) : AddressTable α :=
  ⟨insertAscending key value t.entries, pairwise_insertAscending key value t.sorted⟩

/-- Keeps the pairs that satisfy `keep`. -/
def filter (t : AddressTable α) (keep : Nat → α → Bool) : AddressTable α :=
  ⟨t.entries.filter fun pair => keep pair.1 pair.2, t.sorted.filter _⟩

/-- Removes the value at `key`. -/
def erase (t : AddressTable α) (key : Nat) : AddressTable α :=
  t.filter fun k _ => k != key

end AddressTable

end GuestExec
