import GuestExec.Memory.AddressTable

/-!
# Address tables as finite maps

`get?` is the one view of an `AddressTable`: every operation says what it does
to `get?`, and `floor?_eq_some_iff` describes the greatest key not above a
number through it. After this module nobody looks at the list of pairs.
-/

namespace GuestExec.AddressTable

variable {α : Type} {t : AddressTable α}

theorem mem_insertAscending {key : Nat} {value : α} {list : List (Nat × α)}
    (sorted : list.Pairwise (·.1 < ·.1)) {pair : Nat × α} :
    pair ∈ insertAscending key value list ↔
      pair = (key, value) ∨ (pair ∈ list ∧ pair.1 ≠ key) := by
  induction list with
  | nil => simp [insertAscending]
  | cons head rest ih =>
    obtain ⟨above, tail⟩ := List.pairwise_cons.1 sorted
    have beyond : ∀ p ∈ rest, key ≤ head.1 → p.1 ≠ key := fun p mem le => by
      have := above p mem
      omega
    unfold insertAscending
    split
    · rename_i lt
      rw [List.mem_cons]
      refine or_congr_right ⟨fun mem => ⟨mem, ?_⟩, fun h => h.1⟩
      rcases List.mem_cons.1 mem with rfl | mem
      · omega
      · exact beyond pair mem (Nat.le_of_lt lt)
    · split
      · rename_i eq
        rw [List.mem_cons]
        refine or_congr_right ⟨fun mem => ?_, fun kept => ?_⟩
        · exact ⟨List.mem_cons_of_mem _ mem, beyond pair mem (Nat.le_of_eq eq)⟩
        · obtain ⟨mem, ne⟩ := kept
          rcases List.mem_cons.1 mem with rfl | mem
          · exact absurd eq.symm ne
          · exact mem
      · rename_i ne
        rw [List.mem_cons, ih tail]
        constructor
        · rintro (rfl | rfl | ⟨mem, h⟩)
          · exact .inr ⟨List.mem_cons_self, Ne.symm ne⟩
          · exact .inl rfl
          · exact .inr ⟨List.mem_cons_of_mem _ mem, h⟩
        · rintro (rfl | ⟨mem, h⟩)
          · exact .inr (.inl rfl)
          · rcases List.mem_cons.1 mem with rfl | mem
            · exact .inl rfl
            · exact .inr (.inr ⟨mem, h⟩)

/-- Two pairs of an ascending list with one key are one pair. -/
theorem eq_of_mem_entries {p q : Nat × α} (hp : p ∈ t.entries) (hq : q ∈ t.entries)
    (h : p.1 = q.1) : p = q := by
  obtain ⟨entries, sorted⟩ := t
  simp only at hp hq
  induction entries with
  | nil => cases hp
  | cons head rest ih =>
    obtain ⟨above, tail⟩ := List.pairwise_cons.1 sorted
    rcases List.mem_cons.1 hp with hp | hp <;> rcases List.mem_cons.1 hq with hq | hq
    · rw [hp, hq]
    · have := above q hq
      rw [hp] at h
      omega
    · have := above p hp
      rw [hq] at h
      omega
    · exact ih tail hp hq

theorem get?_eq_some_iff {key : Nat} {value : α} :
    t.get? key = some value ↔ (key, value) ∈ t.entries := by
  rw [get?, Option.map_eq_some_iff]
  constructor
  · rintro ⟨pair, found, rfl⟩
    have hk : pair.1 = key := by simpa using List.find?_some found
    exact hk ▸ List.mem_of_find?_eq_some found
  · intro mem
    cases found : t.entries.find? (·.1 == key) with
    | none => exact absurd (List.find?_eq_none.1 found _ mem) (by simp)
    | some pair =>
      have hk : pair.1 = key := by simpa using List.find?_some found
      exact ⟨pair, rfl, congrArg Prod.snd
        (eq_of_mem_entries (List.mem_of_find?_eq_some found) mem hk)⟩

theorem get?_empty (key : Nat) : (empty : AddressTable α).get? key = none := rfl

theorem get?_insert (t : AddressTable α) (key : Nat) (value : α) (k : Nat) :
    (t.insert key value).get? k = if k = key then some value else t.get? k := by
  apply Option.ext
  intro v
  rw [get?_eq_some_iff, insert, mem_insertAscending t.sorted]
  by_cases h : k = key
  · simp [h, eq_comm]
  · simp [h, get?_eq_some_iff]

/-- Tables with the same values at all keys are the same. -/
theorem ext_get? {t t' : AddressTable α} (h : ∀ key, t.get? key = t'.get? key) : t = t' := by
  have nodup : ∀ t : AddressTable α, t.entries.Nodup := fun t =>
    List.Pairwise.imp (fun lt same => Nat.ne_of_lt lt (congrArg Prod.fst same)) t.sorted
  have perm : t.entries.Perm t'.entries :=
    (List.perm_ext_iff_of_nodup (nodup t) (nodup t')).2 fun ⟨key, value⟩ => by
      rw [← get?_eq_some_iff, ← get?_eq_some_iff, h]
  have same : t.entries = t'.entries :=
    perm.eq_of_pairwise (fun p q _ _ lt gt => absurd lt (Nat.lt_asymm gt)) t.sorted t'.sorted
  cases t
  cases t'
  congr

theorem get?_filter (t : AddressTable α) (keep : Nat → α → Bool) (key : Nat) :
    (t.filter keep).get? key = (t.get? key).filter (keep key) := by
  apply Option.ext
  intro v
  rw [get?_eq_some_iff, filter, List.mem_filter, Option.filter_eq_some_iff, get?_eq_some_iff]

theorem get?_erase (t : AddressTable α) (key k : Nat) :
    (t.erase key).get? k = if k = key then none else t.get? k := by
  rw [erase, get?_filter]
  by_cases h : k = key
  · simp [h]
  · cases found : t.get? k <;> simp [h, Option.filter]

theorem mem_values {value : α} : value ∈ t.values ↔ ∃ key, t.get? key = some value := by
  simp only [values, List.mem_map, get?_eq_some_iff]
  constructor
  · rintro ⟨⟨k, v⟩, mem, rfl⟩
    exact ⟨k, mem⟩
  · rintro ⟨k, mem⟩
    exact ⟨_, mem, rfl⟩

/-- The last pair of an ascending list has the greatest key. -/
theorem getLast?_greatest {list : List (Nat × α)} (sorted : list.Pairwise (·.1 < ·.1))
    {last : Nat × α} (h : list.getLast? = some last) {pair : Nat × α} (mem : pair ∈ list) :
    pair.1 ≤ last.1 := by
  obtain ⟨front, rfl⟩ := List.getLast?_eq_some_iff.1 h
  rcases List.mem_append.1 mem with mem | mem
  · exact Nat.le_of_lt ((List.pairwise_append.1 sorted).2.2 pair mem last (by simp))
  · exact Nat.le_of_eq (congrArg Prod.fst (List.mem_singleton.1 mem))

/-- The value at the greatest key that is not above `bound`. -/
theorem floor?_eq_some_iff {bound : Nat} {value : α} :
    t.floor? bound = some value ↔ ∃ key, t.get? key = some value ∧ key ≤ bound ∧
      ∀ k v, t.get? k = some v → k ≤ bound → k ≤ key := by
  have sorted := t.sorted.filter fun pair => decide (pair.1 ≤ bound)
  have inside : ∀ {k : Nat} {v : α}, (k, v) ∈ t.entries.filter (·.1 ≤ bound) ↔
      t.get? k = some v ∧ k ≤ bound := by
    intro k v
    rw [List.mem_filter, get?_eq_some_iff, decide_eq_true_eq]
  rw [floor?, Option.map_eq_some_iff]
  constructor
  · rintro ⟨⟨key, v⟩, last, rfl⟩
    obtain ⟨found, le⟩ := inside.1 (List.mem_of_getLast? last)
    exact ⟨key, found, le, fun k v' h hk => getLast?_greatest sorted last (inside.2 ⟨h, hk⟩)⟩
  · rintro ⟨key, found, le, greatest⟩
    have mem := inside.2 ⟨found, le⟩
    cases h : (t.entries.filter (·.1 ≤ bound)).getLast? with
    | none =>
      rw [List.getLast?_eq_none_iff.1 h] at mem
      cases mem
    | some last =>
      obtain ⟨lastFound, lastLe⟩ := inside.1 (List.mem_of_getLast? h)
      have := getLast?_greatest sorted h mem
      have := greatest last.1 last.2 lastFound lastLe
      have same := eq_of_mem_entries (get?_eq_some_iff.1 lastFound) (get?_eq_some_iff.1 found)
        (by simp only at *; omega)
      exact ⟨last, rfl, congrArg Prod.snd same⟩

end GuestExec.AddressTable
