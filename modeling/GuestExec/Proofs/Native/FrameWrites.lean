import GuestExec.Proofs.Native.Chain
import GuestExec.Proofs.Native.Frames

/-!
# Writes to a frame

Whatever is written through a frame, one register after the other or all at once,
the bytes of its reserved area stay but for the body of the record of floating-point
state in use. No header of the chain lies in there, nor does a syndrome, so another
walk finds the records where they were (`Kept.walked`, `Kept.chain`).

A frame that was loaded gives back what it was loaded with, and a frame that is saved
and loaded again is as it was, but for the upper half of pstate.
-/

namespace GuestExec.Native

open ReservedArea (byte)

/-- A write to a frame. -/
inductive FrameWrite where
  | reg (i : Nat) (value : UInt64)
  | sp (value : UInt64)
  | pc (value : UInt64)
  | pstate (value : UInt64)
  | vector (i : Nat) (value : BitVec 128)
  | fpcr (value : UInt32)
  | fpsr (value : UInt32)
  | load (regs : Registers)

namespace FrameView

variable {v v' v'' : FrameView} {start : Nat} {offsets : List Nat} {regs : Registers}

/-- The frame after a write. -/
def apply (v : FrameView) : FrameWrite → FrameView
  | .reg i value => v.setReg i value
  | .sp value => v.setSp value
  | .pc value => v.setPc value
  | .pstate value => v.setPstate value
  | .vector i value => v.setVector i value
  | .fpcr value => v.setFpcr value
  | .fpsr value => v.setFpsr value
  | .load regs => v.loadFrom regs

/-- The frame after writes, the first one first. -/
def applyAll (v : FrameView) (writes : List FrameWrite) : FrameView := writes.foldl apply v

/-! ## What writes keep -/

/-- `i` is not in the body of the floating-point state. -/
def OutsideFp (v : FrameView) (i : Nat) : Prop :=
  ∀ start, v.records.fp = some start → i < start + 8 ∨ start + fpRecordSize ≤ i

/-- `v'` is `v` but for registers. -/
structure Kept (v v' : FrameView) : Prop where
  records : v'.records = v.records
  faultAddress : v'.frame.faultAddress = v.frame.faultAddress
  bytes : ∀ i, v.OutsideFp i → byte v'.frame.reserved i = byte v.frame.reserved i

namespace Kept

theorem refl (v : FrameView) : Kept v v := ⟨rfl, rfl, fun _ _ => rfl⟩

theorem trans (h : Kept v v') (h' : Kept v' v'') : Kept v v'' := by
  refine ⟨h'.records.trans h.records, h'.faultAddress.trans h.faultAddress, fun i outside => ?_⟩
  have outside' : v'.OutsideFp i := by
    rw [OutsideFp, h.records]
    exact outside
  exact (h'.bytes i outside').trans (h.bytes i outside)

/-- A write of general registers keeps the whole reserved area. -/
theorem of_reserved (records : v'.records = v.records)
    (faultAddress : v'.frame.faultAddress = v.frame.faultAddress)
    (reserved : v'.frame.reserved = v.frame.reserved) : Kept v v' :=
  ⟨records, faultAddress, fun i _ => congrArg (byte · i) reserved⟩

theorem of_sameButFp (same : SameButFp v v') : Kept v v' := by
  obtain ⟨reserved, eq, around, none⟩ := same.frame
  refine ⟨same.records, by rw [eq], fun i outside => ?_⟩
  rw [eq]
  cases fp : v.records.fp with
  | none => exact congrArg (byte · i) (none fp)
  | some start => exact around start fp i (outside start fp)

theorem setGeneral (v : FrameView) (regs : Registers) : Kept v (v.setGeneral regs) :=
  .of_reserved rfl rfl rfl

theorem loadFrom (v : FrameView) (regs : Registers) : Kept v (v.loadFrom regs) :=
  (setGeneral v regs).trans (.of_sameButFp (v.sameButFp_loadFrom regs))

theorem apply (v : FrameView) (write : FrameWrite) : Kept v (v.apply write) := by
  cases write with
  | reg i value => exact .of_reserved rfl rfl rfl
  | sp value => exact .of_reserved rfl rfl rfl
  | pc value => exact .of_reserved rfl rfl rfl
  | pstate value => exact .of_reserved rfl rfl rfl
  | vector i value => exact .of_sameButFp (.setVector v i value)
  | fpcr value => exact .of_sameButFp (.setFpcr v value)
  | fpsr value => exact .of_sameButFp (.setFpsr v value)
  | load regs => exact .loadFrom v regs

theorem applyAll (v : FrameView) (writes : List FrameWrite) : Kept v (v.applyAll writes) := by
  induction writes generalizing v with
  | nil => exact .refl v
  | cons write rest ih => exact (apply v write).trans (ih (v.apply write))

/-- With floating-point state the areas agree around its body. -/
theorem sameAround (h : Kept v v') (fp : v.records.fp = some start) :
    SameAround start v.frame.reserved v'.frame.reserved := by
  intro i outside
  refine h.bytes i fun start' fp' => ?_
  cases fp.symm.trans fp'
  exact outside

/-- Without it they are the same. -/
theorem reserved (h : Kept v v') (fp : v.records.fp = none) :
    v'.frame.reserved = v.frame.reserved := by
  refine Vector.ext fun i inside => ?_
  have same := h.bytes i fun start fp' => nomatch fp.symm.trans fp'
  simpa [byte, inside] using same

theorem chain (h : Kept v v') (walked : v.Walked) (chain : Chain v.frame.reserved 0 offsets) :
    Chain v'.frame.reserved 0 offsets := by
  cases fp : v.records.fp with
  | none => rwa [h.reserved fp]
  | some start =>
    have found : (walkRecords v.frame.reserved 0 {}).fp = some start := by
      rw [← fp]
      exact congrArg (fun v => v.records.fp) walked
    obtain ⟨member, isFp⟩ := chain.mem_of_fp found
    exact chain.sameAround (h.sameAround fp) member isFp

theorem walked (h : Kept v v') (walked : v.Walked) : v'.Walked := by
  -- The frame with the new general registers and the old area lies between the two.
  have between : FrameView.Walked
      { v' with frame := { v'.frame with reserved := v.frame.reserved } } :=
    walked.of_eq rfl h.records
  refine between.sameButFp ⟨rfl, v'.frame.reserved, rfl, fun start fp => ?_, fun fp => ?_⟩
  · exact h.sameAround (h.records ▸ fp)
  · exact h.reserved (h.records ▸ fp)

end Kept

/-- The records of a frame are the last of their kinds in its chain, which lies in the
area, and stay where they are whatever is written through the frame. -/
theorem records_exact (frame : SignalFrame) (writes : List FrameWrite) :
    let v := ofFrame frame
    let v' := v.applyAll writes
    ∃ offsets, (∀ offsets', Chain frame.reserved 0 offsets' ↔ offsets' = offsets) ∧
      offsets.length ≤ reservedSize ∧
      (∀ o ∈ offsets, o + recordSize frame.reserved o ≤ reservedSize) ∧
      (offsets.Pairwise fun o o' => o + recordSize frame.reserved o ≤ o') ∧
      v.records.fp = (offsets.filter (IsFp frame.reserved)).getLast? ∧
      v.records.syndrome =
        (offsets.filter (IsEsr frame.reserved)).getLast?.map (syndromeAt frame.reserved) ∧
      Chain v'.frame.reserved 0 offsets ∧
      v'.records = v.records ∧ (ofFrame v'.frame).records = v.records ∧
      ∀ i, (∀ start, v.records.fp = some start → i < start + 8 ∨ start + fpRecordSize ≤ i) →
        byte v'.frame.reserved i = byte frame.reserved i := by
  intro v v'
  have kept : Kept v v' := .applyAll v writes
  have walked : v'.Walked := kept.walked (walked_ofFrame frame)
  obtain ⟨offsets, chain⟩ := exists_chain frame.reserved 0
  have found : v.records = _ := walkRecords_of_chain chain
  refine ⟨offsets, fun offsets' => ⟨chain.unique, ?_⟩, chain.length_le, ?_, chain.pairwise,
    congrArg FoundRecords.fp found, congrArg FoundRecords.syndrome found,
    kept.chain (walked_ofFrame frame) chain, kept.records, ?_, kept.bytes⟩
  · rintro rfl
    exact chain
  · intro o member
    exact (bounds_of_not_endsAt (chain.record_of_mem member)).2
  · exact (congrArg FrameView.records walked).trans kept.records

/-! ## Register by register -/

theorem reg_setReg_self (v : FrameView) (i : Fin 31) (value : UInt64) :
    (v.setReg i value).reg i = value := by
  have inside : (i : Nat) < 31 := i.isLt
  simp [reg, setReg, inside]

theorem reg_setReg_ne (v : FrameView) {i j : Nat} (other : i ≠ j) (value : UInt64) :
    (v.setReg i value).reg j = v.reg j := by
  have kept : (v.frame.x.setIfInBounds i value)[j]? = v.frame.x[j]? :=
    Vector.getElem?_setIfInBounds_ne other
  exact congrArg (Option.getD · 0) kept

/-- A general register that is loaded, or was right before, is right. -/
theorem reg_foldl_setReg (regs : Registers) (list : List (Fin 31)) (i : Fin 31)
    (filled : i ∈ list ∨ v.reg i = regs.x.get i) :
    (list.foldl (fun v (i : Fin 31) => v.setReg i (regs.x.get i)) v).reg i = regs.x.get i := by
  induction list generalizing v with
  | nil => exact filled.resolve_left (by simp)
  | cons k rest ih =>
    refine ih ?_
    by_cases here : k = i
    · subst here
      exact .inr (reg_setReg_self v k _)
    · rcases filled with member | right
      · exact .inl ((List.mem_cons.1 member).resolve_left (Ne.symm here))
      · refine .inr (Eq.trans ?_ right)
        exact reg_setReg_ne v (fun same => here (Fin.ext same)) _

/-- Writes of general registers leave the rest of the frame. -/
theorem foldl_setReg_eq (v : FrameView) (regs : Registers) (list : List (Fin 31)) :
    ∃ x, list.foldl (fun v (i : Fin 31) => v.setReg i (regs.x.get i)) v =
      { v with frame := { v.frame with x } } := by
  induction list generalizing v with
  | nil => exact ⟨v.frame.x, rfl⟩
  | cons i rest ih => exact ih (v.setReg i (regs.x.get i))

theorem foldl_setReg_finRange (v : FrameView) (regs : Registers) :
    (List.finRange 31).foldl (fun v (i : Fin 31) => v.setReg i (regs.x.get i)) v =
      { v with frame := { v.frame with x := regs.x } } := by
  obtain ⟨x, eq⟩ := foldl_setReg_eq v regs (List.finRange 31)
  suffices x = regs.x by rw [eq, this]
  refine Vector.ext fun i inside => ?_
  have filled := reg_foldl_setReg (v := v) regs (List.finRange 31) ⟨i, inside⟩
    (.inl (List.mem_finRange _))
  rw [eq] at filled
  calc x[i] = x[i]?.getD 0 := by rw [Vector.getElem?_eq_getElem inside, Option.getD_some]
    _ = regs.x[i] := filled

/-- The writes that load registers into a frame. -/
def loads (regs : Registers) : List FrameWrite :=
  (List.finRange 31).map (fun (i : Fin 31) => .reg i (regs.x.get i)) ++
    [.sp regs.sp, .pc regs.pc, .pstate regs.pstate.toUInt64] ++
    (List.finRange 32).map (fun (i : Fin 32) => .vector i (regs.v.get i)) ++
    [.fpcr regs.fpcr, .fpsr regs.fpsr]

/-- Loading writes one register after the other. -/
theorem loadFrom_eq_applyAll (v : FrameView) (regs : Registers) :
    v.loadFrom regs = v.applyAll (loads regs) := by
  simp only [applyAll, loads, List.foldl_append, List.foldl_map, apply]
  rw [foldl_setReg_finRange]
  rfl

/-! ## There and back -/

/-- What a frame with floating-point state holds is what is saved of it. -/
theorem Holds.saveTo_eq (holds : v.Holds regs) (fp : v.records.fp = some start) (d : Registers) :
    v.saveTo d = { d with
      x := regs.x, sp := regs.sp, pc := regs.pc, pstate := regs.pstate
      v := regs.v, fpcr := regs.fpcr, fpsr := regs.fpsr } := by
  have vectors : (Vector.ofFn fun i : Fin 32 => (v.vector? i).getD 0) = regs.v := by
    refine Vector.ext fun i inside => ?_
    rw [Vector.getElem_ofFn inside, holds.vectors ⟨i, inside⟩]
    rfl
  rw [FrameView.saveTo_eq fp, vectors, holds.x, holds.sp, holds.pc, holds.pstate, holds.fpcr,
    holds.fpsr, UInt32.toUInt32_toUInt64]

/-- A loaded frame gives back the registers it was loaded with, and a saved one takes its
own back, but for the upper half of pstate. -/
theorem round_trips (frame : SignalFrame) (c d : Registers) :
    let v := ofFrame frame
    (v.loadFrom c).saveTo d =
      (if v.records.fp.isSome then
        { d with
          x := c.x, sp := c.sp, pc := c.pc, pstate := c.pstate
          v := c.v, fpcr := c.fpcr, fpsr := c.fpsr }
      else { d with x := c.x, sp := c.sp, pc := c.pc, pstate := c.pstate }) ∧
    v.loadFrom (v.saveTo d) =
      { v with frame := { frame with pstate := frame.pstate.toUInt32.toUInt64 } } ∧
    v.loadFrom c = v.applyAll (loads c) ∧
    (v.loadFrom c).frame.faultAddress = frame.faultAddress ∧
    (v.loadFrom c).records = v.records ∧ ofFrame (v.loadFrom c).frame = v.loadFrom c := by
  intro v
  have kept : Kept v (v.loadFrom c) := .loadFrom v c
  refine ⟨?_, v.loadFrom_saveTo d (v.saveTo d).tpidr, v.loadFrom_eq_applyAll c,
    kept.faultAddress, kept.records, kept.walked (walked_ofFrame frame)⟩
  split
  · rename_i there
    obtain ⟨start, hasFp⟩ := exists_hasFp there
    have fp := (congrArg FoundRecords.fp kept.records).trans hasFp.fp
    exact (holds_loadFrom hasFp c).saveTo_eq fp d
  · rename_i without
    have none : v.records.fp = none := Option.not_isSome_iff_eq_none.1 without
    rw [saveTo_of_none (kept.records ▸ none), loadFrom_of_none none]
    simp only [setGeneral, UInt32.toUInt32_toUInt64]

end FrameView

end GuestExec.Native
