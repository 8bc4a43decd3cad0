import GuestExec.Native.Script
import GuestExec.Proofs.Native.Records

/-!
# Frames carry the guest's registers

What is loaded into a frame with floating-point state is what such a frame gives
when it is saved, so a frame hands its registers to any other through the guest's
registers (`carries_loadFrom`). A frame that is saved and loaded again at once is
the same, with or without floating-point state, but for the upper half of pstate.
-/

namespace GuestExec.Native.FrameView

variable {v v' v'' : FrameView} {frame : SignalFrame}
  {start start' position position' count count' i j n : Nat} {regs : Registers} {skip : UInt64}

/-! ## Floating-point state -/

/-- The frame has floating-point state, in a record that lies in the area. -/
structure HasFp (v : FrameView) (start : Nat) : Prop where
  fp : v.records.fp = some start
  fits : start + fpRecordSize ≤ reservedSize

theorem exists_hasFp (there : (ofFrame frame).records.fp.isSome = true) :
    ∃ start, (ofFrame frame).HasFp start := by
  obtain ⟨start, found⟩ := Option.isSome_iff_exists.1 there
  rcases fits_of_fp_walkRecords found with never | ⟨-, fits⟩
  · cases never
  · exact ⟨start, found, fits⟩

/-- `v'` is `v` but for the body of its floating-point state. -/
structure SameButFp (v v' : FrameView) : Prop where
  records : v'.records = v.records
  frame : ∃ reserved, v'.frame = { v.frame with reserved } ∧
    (∀ start, v.records.fp = some start → SameAround start v.frame.reserved reserved) ∧
    (v.records.fp = none → reserved = v.frame.reserved)

namespace SameButFp

theorem refl (v : FrameView) : SameButFp v v :=
  ⟨rfl, v.frame.reserved, rfl, fun _ _ _ _ => rfl, fun _ => rfl⟩

theorem trans (h : SameButFp v v') (h' : SameButFp v' v'') : SameButFp v v'' := by
  obtain ⟨reserved, eq, around, none⟩ := h.frame
  obtain ⟨reserved', eq', around', none'⟩ := h'.frame
  rw [h.records, eq] at around' none'
  refine ⟨h'.records.trans h.records, reserved', ?_, fun start fp i outside => ?_, fun fp => ?_⟩
  · rw [eq', eq]
  · exact (around' start fp i outside).trans (around start fp i outside)
  · exact (none' fp).trans (none fp)

theorem hasFp (h : SameButFp v v') (hasFp : v.HasFp start) : v'.HasFp start :=
  ⟨h.records ▸ hasFp.fp, hasFp.fits⟩

theorem setFpField (v : FrameView) (body : 8 ≤ position) (within : position + count ≤ fpRecordSize)
    (n : Nat) : SameButFp v (v.setFpField position count n) := by
  unfold FrameView.setFpField
  split
  · exact .refl v
  · rename_i start fp
    refine ⟨rfl, _, rfl, fun start' fp' i outside => ?_, fun none => ?_⟩
    · cases fp.symm.trans fp'
      exact ReservedArea.byte_setNumber (by omega) n
    · cases fp.symm.trans none

theorem setVector (v : FrameView) (i : Nat) (value : BitVec 128) :
    SameButFp v (v.setVector i value) := by
  unfold FrameView.setVector
  split
  · exact .setFpField v (by omega) (by rw [fpRecordSize]; omega) _
  · exact .refl v

theorem foldl_setVector (v : FrameView) (regs : Registers) (list : List (Fin 32)) :
    SameButFp v (list.foldl (fun v (i : Fin 32) => v.setVector i (regs.v.get i)) v) := by
  induction list generalizing v with
  | nil => exact .refl v
  | cons i rest ih => exact (setVector v i (regs.v.get i)).trans (ih _)

theorem setFpcr (v : FrameView) (value : UInt32) : SameButFp v (v.setFpcr value) :=
  .setFpField v (by decide) (by decide) value.toNat

theorem setFpsr (v : FrameView) (value : UInt32) : SameButFp v (v.setFpsr value) :=
  .setFpField v (by decide) (by decide) value.toNat

end SameButFp

/-- Another walk finds the same records. -/
def Walked (v : FrameView) : Prop := ofFrame v.frame = v

theorem walked_ofFrame (frame : SignalFrame) : (ofFrame frame).Walked := rfl

theorem Walked.of_eq (h : v.Walked) (reserved : v'.frame.reserved = v.frame.reserved)
    (records : v'.records = v.records) : v'.Walked := by
  have found : walkRecords v.frame.reserved 0 {} = v.records := congrArg FrameView.records h
  rw [Walked, ofFrame, reserved, found, ← records]

theorem Walked.sameButFp (h : v.Walked) (same : SameButFp v v') : v'.Walked := by
  obtain ⟨reserved, eq, around, none⟩ := same.frame
  have found : walkRecords v.frame.reserved 0 {} = v.records := congrArg FrameView.records h
  have records : walkRecords v'.frame.reserved 0 {} = v.records := by
    rw [eq, ← found]
    rcases fp : v.records.fp with _ | start
    · rw [none fp]
    · exact (around start fp).walkRecords_eq (Nat.zero_le start) nofun (found ▸ fp)
  rw [Walked, ofFrame, records, ← same.records]

/-! ## Fields of the floating-point state -/

theorem fpField_setFpField (h : v.HasFp start) (within : position + count ≤ fpRecordSize)
    (n : Nat) :
    (v.setFpField position count n).fpField position count = some (n % Nat.pow 256 count) := by
  have fits := h.fits
  simp only [setFpField, fpField, h.fp, Option.map_some]
  rw [ReservedArea.number_setNumber (by omega)]

theorem fpField_setFpField_apart (v : FrameView)
    (apart : position' + count' ≤ position ∨ position + count ≤ position') (n : Nat) :
    (v.setFpField position count n).fpField position' count' = v.fpField position' count' := by
  unfold setFpField
  split
  · rfl
  · rename_i start fp
    simp only [fpField, fp, Option.map_some]
    rw [ReservedArea.number_setNumber_apart (by omega)]

/-- Nothing changes when a field is written as it is. -/
theorem setFpField_fpField (v : FrameView) (position count : Nat) :
    v.setFpField position count ((v.fpField position count).getD 0) = v := by
  unfold setFpField
  split
  · rfl
  · rename_i start fp
    simp only [fpField, fp, Option.map_some, Option.getD_some]
    rw [ReservedArea.setNumber_number]

theorem fpField_lt (v : FrameView) (position count : Nat) :
    (v.fpField position count).getD 0 < Nat.pow 256 count := by
  unfold fpField
  cases v.records.fp with
  | none => exact Nat.pow_pos (by decide)
  | some start => exact ReservedArea.number_lt _ _ _

theorem vector?_setVector (h : v.HasFp start) (inside : i < 32) (value : BitVec 128) :
    (v.setVector i value).vector? i = some value := by
  rw [vector?, setVector, if_pos inside, if_pos inside,
    fpField_setFpField h (by rw [fpRecordSize]; omega), Option.map_some]
  have cut : value.toNat % Nat.pow 256 16 = value.toNat := Nat.mod_eq_of_lt value.isLt
  rw [cut, BitVec.ofNat_toNat, BitVec.setWidth_eq]

theorem vector?_setVector_ne (v : FrameView) (other : i ≠ j) (value : BitVec 128) :
    (v.setVector i value).vector? j = v.vector? j := by
  unfold setVector
  split
  · unfold vector?
    split
    · rw [fpField_setFpField_apart v (by omega)]
    · rfl
  · rfl

theorem vector?_setFpField_apart (v : FrameView) (before : position + count ≤ 16) (n i : Nat) :
    (v.setFpField position count n).vector? i = v.vector? i := by
  unfold vector?
  split
  · rw [fpField_setFpField_apart v (by omega)]
  · rfl

theorem fpcr_setFpcr (h : v.HasFp start) (value : UInt32) : (v.setFpcr value).fpcr = value := by
  have cut : value.toNat % Nat.pow 256 4 = value.toNat := Nat.mod_eq_of_lt value.toNat_lt
  rw [fpcr, setFpcr, fpField_setFpField h (by decide), cut, Option.getD_some, UInt32.ofNat_toNat]

theorem fpsr_setFpsr (h : v.HasFp start) (value : UInt32) : (v.setFpsr value).fpsr = value := by
  have cut : value.toNat % Nat.pow 256 4 = value.toNat := Nat.mod_eq_of_lt value.toNat_lt
  rw [fpsr, setFpsr, fpField_setFpField h (by decide), cut, Option.getD_some, UInt32.ofNat_toNat]

theorem fpcr_setFpsr (v : FrameView) (value : UInt32) : (v.setFpsr value).fpcr = v.fpcr := by
  rw [fpcr, fpcr, setFpsr, fpField_setFpField_apart v (by decide)]

theorem setFpcr_fpcr (v : FrameView) : v.setFpcr v.fpcr = v := by
  have read : v.fpcr.toNat = (v.fpField 12 4).getD 0 :=
    UInt32.toNat_ofNat_of_lt' (v.fpField_lt 12 4)
  rw [setFpcr, read, setFpField_fpField]

theorem setFpsr_fpsr (v : FrameView) : v.setFpsr v.fpsr = v := by
  have read : v.fpsr.toNat = (v.fpField 8 4).getD 0 := UInt32.toNat_ofNat_of_lt' (v.fpField_lt 8 4)
  rw [setFpsr, read, setFpField_fpField]

theorem setVector_vector? (v : FrameView) (i : Nat) :
    v.setVector i ((v.vector? i).getD 0) = v := by
  unfold setVector
  split
  · rename_i inside
    have read : ((v.vector? i).getD 0).toNat = (v.fpField (16 + 16 * i) 16).getD 0 := by
      have lt := v.fpField_lt (16 + 16 * i) 16
      rw [vector?, if_pos inside]
      cases field : v.fpField (16 + 16 * i) 16 with
      | none => rfl
      | some n =>
        rw [field] at lt
        exact Nat.mod_eq_of_lt lt
    rw [read, setFpField_fpField]
  · rfl

/-! ## Loading -/

/-- A vector register that is loaded, or was right before, is right. -/
theorem vector?_foldl_setVector (h : v.HasFp start) (regs : Registers) (list : List (Fin 32))
    (i : Fin 32) (filled : i ∈ list ∨ v.vector? i = some (regs.v.get i)) :
    (list.foldl (fun v (i : Fin 32) => v.setVector i (regs.v.get i)) v).vector? i =
      some (regs.v.get i) := by
  induction list generalizing v with
  | nil => exact filled.resolve_left (by simp)
  | cons k rest ih =>
    refine ih ((SameButFp.setVector v k (regs.v.get k)).hasFp h) ?_
    by_cases here : k = i
    · subst here
      exact .inr (vector?_setVector h k.isLt _)
    · rcases filled with member | right
      · exact .inl ((List.mem_cons.1 member).resolve_left (Ne.symm here))
      · refine .inr (Eq.trans ?_ right)
        exact vector?_setVector_ne v (fun same => here (Fin.ext same)) _

/-- The frame with the guest's general registers. -/
def setGeneral (v : FrameView) (regs : Registers) : FrameView :=
  { v with frame := { v.frame with
    x := regs.x, sp := regs.sp, pc := regs.pc, pstate := regs.pstate.toUInt64 } }

/-- The frame with the guest's vector registers. -/
def setVectors (v : FrameView) (regs : Registers) : FrameView :=
  (List.finRange 32).foldl (fun v (i : Fin 32) => v.setVector i (regs.v.get i)) v

theorem loadFrom_eq (v : FrameView) (regs : Registers) :
    v.loadFrom regs = (((v.setGeneral regs).setVectors regs).setFpcr regs.fpcr).setFpsr regs.fpsr :=
  rfl

theorem sameButFp_loadFrom (v : FrameView) (regs : Registers) :
    SameButFp (v.setGeneral regs) (v.loadFrom regs) :=
  ((SameButFp.foldl_setVector (v.setGeneral regs) regs (List.finRange 32)).trans
    (.setFpcr _ regs.fpcr)).trans (.setFpsr _ regs.fpsr)

/-- The frame holds these registers of the guest. -/
structure Holds (v : FrameView) (regs : Registers) : Prop where
  x : v.frame.x = regs.x
  sp : v.frame.sp = regs.sp
  pc : v.frame.pc = regs.pc
  pstate : v.frame.pstate = regs.pstate.toUInt64
  vectors : ∀ i : Fin 32, v.vector? i = some (regs.v.get i)
  fpcr : v.fpcr = regs.fpcr
  fpsr : v.fpsr = regs.fpsr

theorem holds_loadFrom (h : v.HasFp start) (regs : Registers) : (v.loadFrom regs).Holds regs := by
  obtain ⟨reserved, eq, -⟩ := (v.sameButFp_loadFrom regs).frame
  have general : (v.setGeneral regs).HasFp start := ⟨h.fp, h.fits⟩
  have filled : ((v.setGeneral regs).setVectors regs).HasFp start :=
    (SameButFp.foldl_setVector _ regs (List.finRange 32)).hasFp general
  have controlled := (SameButFp.setFpcr _ regs.fpcr).hasFp filled
  refine ⟨by rw [eq]; rfl, by rw [eq]; rfl, by rw [eq]; rfl, by rw [eq]; rfl, fun i => ?_, ?_, ?_⟩
  · have there := vector?_foldl_setVector general regs (List.finRange 32) i
      (.inl (List.mem_finRange i))
    rw [loadFrom_eq, setFpsr, vector?_setFpField_apart _ (by decide), setFpcr,
      vector?_setFpField_apart _ (by decide)]
    exact there
  · rw [loadFrom_eq, fpcr_setFpsr, fpcr_setFpcr filled]
  · rw [loadFrom_eq, fpsr_setFpsr controlled]

/-! ## From frame to frame -/

/-- The frame with pstate cut to its lower half. -/
def cutPstate (v : FrameView) : FrameView := v.setPstate v.frame.pstate.toUInt32.toUInt64

/-- `v'` has the registers of `v`, with pstate cut to its lower half and `pc` moved by `skip`. -/
structure Carries (v v' : FrameView) (skip : UInt64) : Prop where
  x : v'.frame.x = v.frame.x
  sp : v'.frame.sp = v.frame.sp
  pc : v'.frame.pc = v.frame.pc + skip
  pstate : v'.frame.pstate = v.frame.pstate.toUInt32.toUInt64
  vectors : ∀ i, v'.vector? i = v.vector? i
  fpcr : v'.fpcr = v.fpcr
  fpsr : v'.fpsr = v.fpsr

theorem exists_vector? (fp : v.records.fp = some start) (i : Fin 32) :
    ∃ value, v.vector? i = some value := by
  simp only [vector?, fpField, fp, i.isLt, if_true, Option.map_some]
  exact ⟨_, rfl⟩

/-- What is saved of a frame with floating-point state. -/
theorem saveTo_eq (fp : v.records.fp = some start) (regs : Registers) :
    v.saveTo regs = { regs with
      x := v.frame.x, sp := v.frame.sp, pc := v.frame.pc, pstate := v.frame.pstate.toUInt32
      v := Vector.ofFn fun i => (v.vector? i).getD 0, fpcr := v.fpcr, fpsr := v.fpsr } := by
  obtain ⟨value, there⟩ := exists_vector? fp 0
  have some : (v.vector? 0).isSome = true := by
    rw [show v.vector? 0 = some value from there]
    rfl
  rw [saveTo, if_pos some]

/-- Without floating-point state only general registers are saved. -/
theorem saveTo_of_none (fp : v.records.fp = none) (regs : Registers) :
    v.saveTo regs = { regs with
      x := v.frame.x, sp := v.frame.sp, pc := v.frame.pc, pstate := v.frame.pstate.toUInt32 } := by
  have without : (v.vector? 0).isSome = false := by
    rw [vector?, if_pos (by decide), fpField, fp]
    rfl
  rw [saveTo, without]
  rfl

/-- A frame hands its registers to another one through the guest's. -/
theorem carries_loadFrom (h : v.HasFp start) (h' : v'.HasFp start') (regs : Registers)
    (skip : UInt64) (svc : UInt32) (tpidr : UInt64) :
    v.Carries (v'.loadFrom { v.saveTo regs with pc := v.frame.pc + skip, svc, tpidr }) skip := by
  have holds := holds_loadFrom h' { v.saveTo regs with pc := v.frame.pc + skip, svc, tpidr }
  rw [saveTo_eq h.fp] at holds ⊢
  refine ⟨holds.x, holds.sp, holds.pc, holds.pstate, fun i => ?_, holds.fpcr, holds.fpsr⟩
  by_cases inside : i < 32
  · obtain ⟨value, there⟩ := exists_vector? h.fp ⟨i, inside⟩
    refine (holds.vectors ⟨i, inside⟩).trans ?_
    have read : (Vector.ofFn fun i : Fin 32 => (v.vector? i).getD 0).get ⟨i, inside⟩ = value :=
      (Vector.getElem_ofFn inside).trans (congrArg (·.getD 0) there)
    exact (congrArg some read).trans there.symm
  · rw [vector?, vector?, if_neg inside, if_neg inside]

theorem setVectors_self (same : ∀ i : Fin 32, regs.v.get i = (v.vector? i).getD 0) :
    v.setVectors regs = v := by
  suffices ∀ list : List (Fin 32),
      list.foldl (fun v (i : Fin 32) => v.setVector i (regs.v.get i)) v = v from
    this (List.finRange 32)
  intro list
  induction list with
  | nil => rfl
  | cons i rest ih => rw [List.foldl_cons, same, setVector_vector?, ih]

/-- Without floating-point state only the general registers are loaded. -/
theorem loadFrom_of_none (fp : v.records.fp = none) (regs : Registers) :
    v.loadFrom regs = v.setGeneral regs := by
  obtain ⟨reserved, eq, -, none⟩ := (v.sameButFp_loadFrom regs).frame
  have records := (v.sameButFp_loadFrom regs).records
  rw [none fp] at eq
  rcases loaded : v.loadFrom regs with ⟨frame, found⟩
  rw [loaded] at eq records
  subst eq records
  rfl

/-- Another walk through a loaded frame finds what it holds. -/
theorem Walked.loadFrom (h : v.Walked) (regs : Registers) : (v.loadFrom regs).Walked :=
  have general : (v.setGeneral regs).Walked := h.of_eq rfl rfl
  general.sameButFp (v.sameButFp_loadFrom regs)

/-- What writes of general registers and of floating-point state keep, an edit keeps. -/
theorem edit_induction {P : FrameView → Prop}
    (general : ∀ v v' : FrameView, v'.records = v.records →
      v'.frame.reserved = v.frame.reserved → v'.frame.faultAddress = v.frame.faultAddress →
      P v → P v')
    (fp : ∀ v v', SameButFp v v' → P v → P v') (h : P v) (e : RegisterEdit) : P (v.edit e) := by
  have fold {α : Type} (list : List α) {f : FrameView → α → FrameView} {v : FrameView}
      (step : ∀ v a, P v → P (f v a)) (h : P v) : P (list.foldl f v) := by
    induction list generalizing v with
    | nil => exact h
    | cons first rest ih => exact ih (step v first h)
  have option {α : Type} (value : Option α) {f : FrameView → α → FrameView} {v : FrameView}
      (step : ∀ v a, P v → P (f v a)) (h : P v) : P ((value.map (f v)).getD v) := by
    cases value with
    | none => exact h
    | some a => exact step v a h
  have registers := fold e.x (f := fun v (p : Nat × UInt64) => v.setReg p.1 p.2)
    (fun v _ => general v _ rfl rfl rfl) h
  have vectors := fold e.v (f := fun v (p : Nat × BitVec 128) => v.setVector p.1 p.2)
    (fun v p => fp v _ (.setVector v p.1 p.2)) registers
  have sp := option e.sp (f := setSp) (fun v _ => general v _ rfl rfl rfl) vectors
  have pc := option e.pc (f := setPc) (fun v _ => general v _ rfl rfl rfl) sp
  have pstate := option e.pstate (f := fun v p => v.setPstate p.toUInt64)
    (fun v _ => general v _ rfl rfl rfl) pc
  have fpcr := option e.fpcr (f := setFpcr) (fun v value => fp v _ (.setFpcr v value)) pstate
  exact option e.fpsr (f := setFpsr) (fun v value => fp v _ (.setFpsr v value)) fpcr

/-- So does one through an edited frame. -/
theorem Walked.edit (h : v.Walked) (e : RegisterEdit) : (v.edit e).Walked :=
  edit_induction (P := Walked) (fun _ _ records reserved _ h => h.of_eq reserved records)
    (fun _ _ same h => h.sameButFp same) h e

/-- A frame that is saved and loaded again keeps all but the upper half of pstate. -/
theorem loadFrom_saveTo (v : FrameView) (regs : Registers) (tpidr : UInt64) :
    v.loadFrom { v.saveTo regs with tpidr } = v.cutPstate := by
  cases fp : v.records.fp with
  | none =>
    rw [loadFrom_of_none fp, saveTo_of_none fp]
    rfl
  | some start =>
    rw [saveTo_eq fp, loadFrom_eq, setVectors_self]
    · exact (congrArg (setFpsr · _) (setFpcr_fpcr v.cutPstate)).trans (setFpsr_fpsr v.cutPstate)
    · intro i
      exact Vector.getElem_ofFn i.isLt

end GuestExec.Native.FrameView
