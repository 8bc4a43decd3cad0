import GuestExec.Native.Frame

/-!
# Numbers and records in a signal frame

A number that is written into the reserved area is read back, and numbers beside
it stay. The record of floating-point state that a walk found lies in the area,
and whatever is written into its body, another walk finds the same records.
-/

namespace GuestExec.Native

namespace ReservedArea

/-- The byte at `i`; zero past the end. -/
def byte (area : ReservedArea) (i : Nat) : UInt8 := area[i]?.getD 0

variable {area area' : ReservedArea} {offset offset' count count' i : Nat}

/-! ## Numbers -/

theorem byte_set_ne (area : ReservedArea) {j : Nat} (other : i ≠ j) (b : UInt8) :
    byte (area.setIfInBounds i b) j = byte area j := by
  rw [byte, byte, Vector.getElem?_setIfInBounds_ne other]

theorem byte_set_self (area : ReservedArea) (inside : i < reservedSize) (b : UInt8) :
    byte (area.setIfInBounds i b) i = b := by
  have there : (area.setIfInBounds i b)[i]? = some b :=
    Vector.getElem?_setIfInBounds_self.trans (if_pos inside)
  rw [byte, there, Option.getD_some]

theorem byte_write_of_outside {bytes : List UInt8}
    (outside : i < offset ∨ offset + bytes.length ≤ i) :
    byte (write area offset bytes) i = byte area i := by
  induction bytes generalizing area offset with
  | nil => rfl
  | cons b rest ih =>
    rw [List.length_cons] at outside
    have other : offset ≠ i := by omega
    rw [write, ih (by omega), byte_set_ne area other b]

/-- Bytes that are written are there. -/
theorem map_byte_write (area : ReservedArea) (offset : Nat) (bytes : List UInt8)
    (fits : offset + bytes.length ≤ reservedSize) :
    (List.range' offset bytes.length).map (write area offset bytes).byte = bytes := by
  induction bytes generalizing area offset with
  | nil => rfl
  | cons b rest ih =>
    rw [List.length_cons] at fits
    have here : byte (write (area.setIfInBounds offset b) (offset + 1) rest) offset = b := by
      rw [byte_write_of_outside (.inl (Nat.lt_succ_self offset)), byte_set_self area (by omega) b]
    rw [List.length_cons, List.range'_succ, List.map_cons, write, here, ih _ _ (by omega)]

theorem number_congr (same : ∀ i, offset ≤ i → i < offset + count → byte area' i = byte area i) :
    number area' offset count = number area offset count := by
  refine congrArg ofLeBytes (List.map_congr_left fun i member => ?_)
  obtain ⟨le, lt⟩ := List.mem_range'_1.1 member
  exact same i le lt

theorem number_lt (area : ReservedArea) (offset count : Nat) :
    number area offset count < Nat.pow 256 count := by
  refine Nat.lt_of_lt_of_eq (ofLeBytes_lt _) ?_
  rw [List.length_map, List.length_range']

/-- A number is read as it was written, cut to its bytes. -/
theorem number_setNumber (fits : offset + count ≤ reservedSize) (n : Nat) :
    number (setNumber area offset count n) offset count = n % Nat.pow 256 count := by
  have there := map_byte_write area offset (toLeBytes count n) (by rwa [length_toLeBytes])
  rw [length_toLeBytes] at there
  rw [← ofLeBytes_toLeBytes]
  exact congrArg ofLeBytes there

theorem byte_setNumber (outside : i < offset ∨ offset + count ≤ i) (n : Nat) :
    byte (setNumber area offset count n) i = byte area i :=
  byte_write_of_outside (by rwa [length_toLeBytes])

/-- A number beside the one that is written stays. -/
theorem number_setNumber_apart (apart : offset' + count' ≤ offset ∨ offset + count ≤ offset')
    (n : Nat) :
    number (setNumber area offset count n) offset' count' = number area offset' count' :=
  number_congr fun i _ _ => byte_setNumber (by omega) n

theorem write_self (area : ReservedArea) (offset count : Nat) :
    write area offset ((List.range' offset count).map area.byte) = area := by
  induction count generalizing offset with
  | zero => rfl
  | succ count ih =>
    have same : area.setIfInBounds offset (area.byte offset) = area := by
      ext j inside
      rw [Vector.getElem_setIfInBounds inside]
      split
      · rename_i here
        subst here
        rw [byte, Vector.getElem?_eq_getElem inside]
        rfl
      · rfl
    rw [List.range'_succ, List.map_cons, write, same, ih]

/-- Nothing changes when a number is written where it stands. -/
theorem setNumber_number (area : ReservedArea) (offset count : Nat) :
    setNumber area offset count (number area offset count) = area := by
  have bytes := toLeBytes_ofLeBytes ((List.range' offset count).map area.byte)
  rw [List.length_map, List.length_range'] at bytes
  exact (congrArg (write area offset) bytes).trans (write_self area offset count)

end ReservedArea

/-! ## Records -/

open ReservedArea (byte number)

variable {area area' : ReservedArea} {offset start : Nat} {found : FoundRecords}

/-- The areas differ at most in the body of the record of floating-point state at `start`. -/
def SameAround (start : Nat) (area area' : ReservedArea) : Prop :=
  ∀ i, i < start + 8 ∨ start + fpRecordSize ≤ i → byte area' i = byte area i

/-- What one record adds to what was found. -/
def FoundRecords.add (found : FoundRecords) (area : ReservedArea) (offset : Nat) : FoundRecords :=
  if number area offset 4 = fpMagic ∧ fpRecordSize ≤ number area (offset + 4) 4 then
    { found with fp := some offset }
  else if number area offset 4 = esrMagic ∧ esrRecordSize ≤ number area (offset + 4) 4 then
    { found with syndrome := some (UInt64.ofNat (number area (offset + 8) 8)) }
  else found

/-- The walk ends at `offset`: no record lies there. -/
def EndsAt (area : ReservedArea) (offset : Nat) : Prop :=
  reservedSize < offset + 8 ∨ number area offset 4 = 0 ∨ number area (offset + 4) 4 = 0 ∨
    reservedSize < offset + number area (offset + 4) 4

theorem walkRecords_of_endsAt (ends : EndsAt area offset) :
    walkRecords area offset found = found := by
  rw [walkRecords]
  split
  · rfl
  · rename_i inside
    exact dif_pos (ends.resolve_left inside)

theorem walkRecords_of_not_endsAt (goesOn : ¬ EndsAt area offset) :
    walkRecords area offset found =
      walkRecords area (offset + number area (offset + 4) 4) (found.add area offset) := by
  obtain ⟨inside, goesOn⟩ := not_or.1 goesOn
  rw [walkRecords, if_neg inside]
  exact dif_neg goesOn

/-- Induction along a walk. -/
theorem walk_induction (area : ReservedArea) {P : Nat → FoundRecords → Prop}
    (ends : ∀ offset found, EndsAt area offset → P offset found)
    (next : ∀ offset found, ¬ EndsAt area offset →
      P (offset + number area (offset + 4) 4) (found.add area offset) → P offset found)
    (offset : Nat) (found : FoundRecords) : P offset found := by
  by_cases stops : EndsAt area offset
  · exact ends offset found stops
  · exact next offset found stops (walk_induction area ends next _ _)
termination_by reservedSize - offset
decreasing_by
  simp only [EndsAt, not_or] at stops
  omega

theorem fp_add (found : FoundRecords) (area : ReservedArea) (offset : Nat) :
    (found.add area offset).fp = found.fp ∨
      ((found.add area offset).fp = some offset ∧ fpRecordSize ≤ number area (offset + 4) 4) := by
  rw [FoundRecords.add]
  split
  · rename_i isFp
    exact .inr ⟨rfl, isFp.2⟩
  · split <;> exact .inl rfl

/-- The record of floating-point state that a walk finds lies in the area. -/
theorem fits_of_fp_walkRecords (h : (walkRecords area offset found).fp = some start) :
    found.fp = some start ∨ (offset ≤ start ∧ start + fpRecordSize ≤ reservedSize) := by
  revert h
  refine walk_induction area
    (P := fun offset found => (walkRecords area offset found).fp = some start →
      found.fp = some start ∨ (offset ≤ start ∧ start + fpRecordSize ≤ reservedSize))
    ?_ ?_ offset found
  · intro offset found ends h
    rw [walkRecords_of_endsAt ends] at h
    exact .inl h
  · intro offset found goesOn ih h
    rw [walkRecords_of_not_endsAt goesOn] at h
    simp only [EndsAt, not_or] at goesOn
    rcases ih h with old | ⟨le, fits⟩
    · rcases fp_add found area offset with same | ⟨new, size⟩
      · exact .inl (same ▸ old)
      · cases new.symm.trans old
        exact .inr ⟨Nat.le_refl start, by omega⟩
    · exact .inr ⟨by omega, fits⟩

namespace SameAround

/-- The record at `offset` begins the same in both areas. -/
theorem header (same : SameAround start area area')
    (clear : offset ≤ start ∨ start + fpRecordSize ≤ offset) :
    number area' offset 4 = number area offset 4 ∧
      number area' (offset + 4) 4 = number area (offset + 4) 4 :=
  ⟨ReservedArea.number_congr fun i _ _ => same i (by omega),
    ReservedArea.number_congr fun i _ _ => same i (by omega)⟩

theorem endsAt_iff (same : SameAround start area area')
    (clear : offset ≤ start ∨ start + fpRecordSize ≤ offset) :
    EndsAt area' offset ↔ EndsAt area offset := by
  obtain ⟨magic, size⟩ := same.header clear
  rw [EndsAt, EndsAt, magic, size]

/-- It adds the same to what was found, unless it ends in the body that differs. -/
theorem add_eq (same : SameAround start area area')
    (clear : offset ≤ start ∨ start + fpRecordSize ≤ offset)
    (apart : number area offset 4 = esrMagic → esrRecordSize ≤ number area (offset + 4) 4 →
      offset + esrRecordSize ≤ start ∨ start + fpRecordSize ≤ offset) :
    found.add area' offset = found.add area offset := by
  obtain ⟨magic, size⟩ := same.header clear
  rw [FoundRecords.add, FoundRecords.add, magic, size]
  split
  · rfl
  · split
    · rename_i isEsr
      have apart := apart isEsr.1 isEsr.2
      have word : number area' (offset + 8) 8 = number area (offset + 8) 8 :=
        ReservedArea.number_congr fun i _ _ => same i (by rw [esrRecordSize] at apart; omega)
      rw [word]
    · rfl

/-- Beyond the body that differs, walks agree. -/
theorem walkRecords_of_past (same : SameAround start area area')
    (past : start + fpRecordSize ≤ offset) :
    walkRecords area' offset found = walkRecords area offset found := by
  revert past
  refine walk_induction area
    (P := fun offset found => start + fpRecordSize ≤ offset →
      walkRecords area' offset found = walkRecords area offset found) ?_ ?_ offset found
  · intro offset found ends past
    rw [walkRecords_of_endsAt ends, walkRecords_of_endsAt ((same.endsAt_iff (.inr past)).2 ends)]
  · intro offset found goesOn ih past
    have goesOn' := mt (same.endsAt_iff (.inr past)).1 goesOn
    rw [walkRecords_of_not_endsAt goesOn, walkRecords_of_not_endsAt goesOn',
      same.add_eq (.inr past) fun _ _ => .inr past, (same.header (.inr past)).2]
    exact ih (Nat.le_trans past (Nat.le_add_right _ _))

/-- A walk that finds its floating-point state in the record whose body differs agrees too. -/
theorem walkRecords_eq (same : SameAround start area area') (before : offset ≤ start)
    (fresh : found.fp ≠ some start) (h : (walkRecords area offset found).fp = some start) :
    walkRecords area' offset found = walkRecords area offset found := by
  revert before fresh h
  refine walk_induction area
    (P := fun offset found => offset ≤ start → found.fp ≠ some start →
      (walkRecords area offset found).fp = some start →
      walkRecords area' offset found = walkRecords area offset found) ?_ ?_ offset found
  · intro offset found ends _ fresh h
    rw [walkRecords_of_endsAt ends] at h
    exact absurd h fresh
  · intro offset found goesOn ih before fresh h
    have goesOn' := mt (same.endsAt_iff (.inl before)).1 goesOn
    rw [walkRecords_of_not_endsAt goesOn] at h
    rw [walkRecords_of_not_endsAt goesOn, walkRecords_of_not_endsAt goesOn',
      (same.header (.inl before)).2]
    rcases fits_of_fp_walkRecords h with here | ⟨next, -⟩
    · -- This is the record; the walk goes on behind it.
      rcases fp_add found area offset with kept | ⟨new, size⟩
      · exact absurd (kept ▸ here) fresh
      · cases new.symm.trans here
        have isFp : number area start 4 ≠ esrMagic := by
          intro isEsr
          rw [FoundRecords.add, isEsr] at here
          exact fresh (by simpa [fpMagic, esrMagic, apply_ite FoundRecords.fp] using here)
        rw [same.add_eq (.inl before) fun isEsr => absurd isEsr isFp]
        exact same.walkRecords_of_past (Nat.add_le_add_left size start)
    · have apart : esrRecordSize ≤ number area (offset + 4) 4 → offset + esrRecordSize ≤ start :=
        fun size => Nat.le_trans (Nat.add_le_add_left size offset) next
      rw [same.add_eq (.inl before) fun _ size => .inl (apart size)]
      refine ih next (fun here => ?_) h
      rcases fp_add found area offset with kept | ⟨new, size⟩
      · exact fresh (kept ▸ here)
      · cases new.symm.trans here
        rw [fpRecordSize] at size
        omega

end SameAround

end GuestExec.Native
