import GuestExec.Proofs.Native.Records

/-!
# The chain of records in a frame

The records of the reserved area follow each other, each with its own size in front,
up to a header that ends the chain or to the end of the area. `Chain` says where they
begin. Whatever the area holds, there is one such chain, its records lie in the area
one behind the other (`bounds_of_not_endsAt`, `Chain.pairwise`), and the walk finds the last
record of each kind in it (`Chain.walkRecords_eq`). Nothing of the chain moves when
the body of a record of floating-point state in it changes.
-/

namespace GuestExec.Native

open ReservedArea (byte number)

variable {area area' : ReservedArea} {offset o start : Nat} {offsets : List Nat}

/-- The size that the record at `offset` states. -/
def recordSize (area : ReservedArea) (offset : Nat) : Nat := number area (offset + 4) 4

/-- The record at `offset` says that it holds the floating-point state, and is long enough. -/
def IsFp (area : ReservedArea) (offset : Nat) : Prop :=
  number area offset 4 = fpMagic ∧ fpRecordSize ≤ recordSize area offset

instance (area : ReservedArea) : DecidablePred (IsFp area) :=
  fun _ => inferInstanceAs (Decidable (_ ∧ _))

/-- The record at `offset` says that it holds a syndrome, and is long enough. -/
def IsEsr (area : ReservedArea) (offset : Nat) : Prop :=
  number area offset 4 = esrMagic ∧ esrRecordSize ≤ recordSize area offset

instance (area : ReservedArea) : DecidablePred (IsEsr area) :=
  fun _ => inferInstanceAs (Decidable (_ ∧ _))

/-- The syndrome in the record at `offset`. -/
def syndromeAt (area : ReservedArea) (offset : Nat) : UInt64 :=
  UInt64.ofNat (number area (offset + 8) 8)

/-- The records from `offset` on begin at `offsets`. -/
inductive Chain (area : ReservedArea) : Nat → List Nat → Prop where
  | nil {offset : Nat} (ends : EndsAt area offset) : Chain area offset []
  | cons {offset : Nat} {rest : List Nat} (record : ¬EndsAt area offset)
    (next : Chain area (offset + recordSize area offset) rest) : Chain area offset (offset :: rest)

theorem exists_chain (area : ReservedArea) (offset : Nat) :
    ∃ offsets, Chain area offset offsets := by
  refine walk_induction area (P := fun offset _ => ∃ offsets, Chain area offset offsets) ?_ ?_
    offset {}
  · intro offset _ ends
    exact ⟨[], .nil ends⟩
  · intro offset _ record ⟨rest, next⟩
    exact ⟨offset :: rest, .cons record next⟩

/-- A record is not empty and ends in the area. -/
theorem bounds_of_not_endsAt (record : ¬EndsAt area offset) :
    0 < recordSize area offset ∧ offset + recordSize area offset ≤ reservedSize := by
  simp only [EndsAt, not_or] at record
  rw [recordSize]
  omega

theorem not_isEsr_of_isFp (isFp : IsFp area offset) : ¬IsEsr area offset := by
  intro isEsr
  exact absurd (isFp.1.symm.trans isEsr.1) (by decide)

theorem add_of_isFp (isFp : IsFp area offset) (found : FoundRecords) :
    found.add area offset = { found with fp := some offset } :=
  if_pos isFp

theorem add_of_isEsr (isEsr : IsEsr area offset) (found : FoundRecords) :
    found.add area offset = { found with syndrome := some (syndromeAt area offset) } := by
  have other : ¬IsFp area offset := fun isFp => not_isEsr_of_isFp isFp isEsr
  exact (if_neg other).trans (if_pos isEsr)

theorem add_of_other (other : ¬IsFp area offset) (other' : ¬IsEsr area offset)
    (found : FoundRecords) : found.add area offset = found :=
  (if_neg other).trans (if_neg other')

namespace Chain

/-- The area alone says where its records begin. -/
theorem unique {offsets' : List Nat} (chain : Chain area offset offsets)
    (chain' : Chain area offset offsets') : offsets' = offsets := by
  induction chain generalizing offsets' with
  | nil ends =>
    cases chain' with
    | nil => rfl
    | cons record => exact absurd ends record
  | cons record next ih =>
    cases chain' with
    | nil ends => exact absurd ends record
    | cons _ next' => rw [ih next']

theorem le_of_mem (chain : Chain area offset offsets) (member : o ∈ offsets) : offset ≤ o := by
  induction chain with
  | nil => cases member
  | cons record next ih =>
    rcases List.mem_cons.1 member with rfl | later
    · exact Nat.le_refl _
    · have le := ih later
      omega

theorem record_of_mem (chain : Chain area offset offsets) (member : o ∈ offsets) :
    ¬EndsAt area o := by
  induction chain with
  | nil => cases member
  | cons record next ih =>
    rcases List.mem_cons.1 member with rfl | later
    · exact record
    · exact ih later

theorem pairwise (chain : Chain area offset offsets) :
    offsets.Pairwise fun o o' => o + recordSize area o ≤ o' := by
  induction chain with
  | nil => exact .nil
  | cons record next ih => exact .cons (fun o member => next.le_of_mem member) ih

theorem length_le (chain : Chain area offset offsets) : offsets.length ≤ reservedSize - offset := by
  induction chain with
  | nil => exact Nat.zero_le _
  | cons record next ih =>
    have bounds := bounds_of_not_endsAt record
    rw [List.length_cons]
    omega

/-! ## What the walk finds -/

/-- The walk finds the last record of each kind. -/
theorem walkRecords_eq (chain : Chain area offset offsets) (found : FoundRecords) :
    walkRecords area offset found =
      { fp := (offsets.filter (IsFp area)).getLast?.or found.fp
        syndrome := ((offsets.filter (IsEsr area)).getLast?.map (syndromeAt area)).or
          found.syndrome } := by
  induction chain generalizing found with
  | nil ends => exact walkRecords_of_endsAt ends
  | @cons offset rest record next ih =>
    refine (walkRecords_of_not_endsAt record).trans ((ih _).trans ?_)
    by_cases isFp : IsFp area offset
    · simp [add_of_isFp isFp, isFp, not_isEsr_of_isFp isFp, List.getLast?_cons]
    · by_cases isEsr : IsEsr area offset
      · simp [add_of_isEsr isEsr, isFp, isEsr, List.getLast?_cons]
      · simp [add_of_other isFp isEsr, isFp, isEsr]

/-! ## Changes in a body -/

/-- Behind the body that differs the chain is the same. -/
theorem of_past (chain : Chain area offset offsets) (same : SameAround start area area')
    (past : start + fpRecordSize ≤ offset) : Chain area' offset offsets := by
  induction chain with
  | nil ends => exact .nil ((same.endsAt_iff (.inr past)).2 ends)
  | cons record next ih =>
    have size := (same.header (.inr past)).2
    refine .cons (mt (same.endsAt_iff (.inr past)).1 record) ?_
    rw [recordSize, size]
    exact ih (Nat.le_trans past (Nat.le_add_right _ _))

/-- A chain stays when the body of a record of floating-point state in it changes. -/
theorem sameAround (chain : Chain area offset offsets) (same : SameAround start area area')
    (member : start ∈ offsets) (isFp : IsFp area start) : Chain area' offset offsets := by
  induction chain with
  | nil => cases member
  | cons record next ih =>
    have before := (cons record next).le_of_mem member
    have size := (same.header (.inl before)).2
    refine .cons (mt (same.endsAt_iff (.inl before)).1 record) ?_
    rw [recordSize, size]
    rcases List.mem_cons.1 member with rfl | later
    · exact next.of_past same (Nat.add_le_add_left isFp.2 start)
    · exact ih later

end Chain

/-! ## Parsing -/

/-- What the walk of a whole area finds is the last of each kind in its chain. -/
theorem walkRecords_of_chain (chain : Chain area 0 offsets) :
    walkRecords area 0 {} =
      { fp := (offsets.filter (IsFp area)).getLast?
        syndrome := (offsets.filter (IsEsr area)).getLast?.map (syndromeAt area) } := by
  rw [chain.walkRecords_eq, Option.or_none, Option.or_none]

/-- The record of floating-point state that the walk finds is in the chain. -/
theorem Chain.mem_of_fp (chain : Chain area 0 offsets)
    (found : (walkRecords area 0 {}).fp = some start) : start ∈ offsets ∧ IsFp area start := by
  rw [walkRecords_of_chain chain] at found
  have member := List.mem_filter.1 (List.mem_of_getLast? found)
  exact ⟨member.1, of_decide_eq_true member.2⟩

end GuestExec.Native
