import GuestExec.Proofs.Fault.Alignment

/-!
# How a handled trap can end a run

A trap ends a run with an abort or a fatal error, and only the fatal error leaves
a record of the fault. Before a retry the registers are as they were.
-/

namespace GuestExec.Vcpu

variable {c c' : Vcpu} {info : FaultInfo} {result : FaultOutcome × Vcpu}

/-- The reasons for which a trap can end a run. -/
def faultReasons : List HaltReason := [.dataAbort, .prefetchAbort, .fatalError]

/-- What may come of a trap of `c`. -/
structure Handled (c : Vcpu) (result : FaultOutcome × Vcpu) : Prop where
  reason : ∀ reason, result.1 = .halt reason → reason ∈ faultReasons
  record : result.1 ≠ .halt .fatalError → result.2.record = c.record
  regs : result.1 = .retry → result.2.regs = c.regs

/-- Use of the access unit does not count. -/
theorem Handled.of_eq (h : Handled c' result) (regs : c'.regs = c.regs)
    (record : c'.record = c.record) : Handled c result :=
  ⟨h.reason, fun goesOn => (h.record goesOn).trans record,
    fun retried => (h.regs retried).trans regs⟩

theorem handled_onUnrecoverable (c : Vcpu) (kind : FaultKind) (info : FaultInfo) :
    Handled c (c.onUnrecoverable kind info) := by
  refine ⟨?_, fun goesOn => absurd rfl goesOn, nofun⟩
  intro reason h
  cases h
  decide

theorem handled_deliver (c : Vcpu) (info : FaultInfo) (status : UInt64) :
    Handled c (c.deliver info status) := by
  unfold deliver
  dsimp only
  split
  · refine ⟨?_, fun _ => rfl, nofun⟩
    intro reason h
    cases h
    cases info.access <;> decide
  · exact ⟨nofun, fun _ => rfl, nofun⟩

theorem handled_onAccess (c : Vcpu) (info : FaultInfo) : Handled c (c.onAccess info) := by
  unfold onAccess
  dsimp only
  split
  · exact handled_deliver c info _
  · split
    · exact handled_deliver c info _
    · split
      · exact ⟨nofun, fun _ => rfl, fun _ => rfl⟩
      · exact (handled_onUnrecoverable _ .access info).of_eq rfl rfl

theorem record_onAlignment (c : Vcpu) (info : FaultInfo) :
    (c.onAlignment info).2.record = c.record := by
  unfold onAlignment
  split
  · rfl
  · dsimp only
    split
    · split <;> rfl
    · split <;> rfl

/-- An access that is not made in software leaves the registers as they were. -/
theorem regs_onAlignment (failed : (c.onAlignment info).1 = none) :
    (c.onAlignment info).2.regs = c.regs := by
  unfold onAlignment at failed ⊢
  split
  · rfl
  · rename_i s described
    simp only [described] at failed ⊢
    split
    · rename_i write
      rw [if_pos write] at failed
      split
      · rename_i done
        rw [if_pos done] at failed
        cases failed
      · rfl
    · rename_i read
      rw [if_neg read] at failed
      split
      · rfl
      · rename_i bytes eq
        rw [eq] at failed
        cases failed

/-- A misaligned access was made in software. -/
theorem handled_emulated {outcome : FaultOutcome} (eq : c.onAlignment info = (some outcome, c')) :
    Handled c (outcome, c') := by
  have record := record_onAlignment c info
  rw [eq_emulated_of_onAlignment (congrArg Prod.fst eq)]
  rw [eq] at record
  exact ⟨nofun, fun _ => record, nofun⟩

theorem handled_onStraddling (c : Vcpu) (info : FaultInfo) (s : Syndrome) :
    Handled c (c.onStraddling info s) := by
  unfold onStraddling
  dsimp only
  split
  · exact (handled_onUnrecoverable _ .alignment info).of_eq rfl rfl
  · rename_i miss _
    have mended := (handled_onAccess ({ c with mmu := (c.mmu.firstWalkMiss info.address
      s.accessSize (if s.isWrite then .write else .read)).2 })
      { info with address := miss, access := if s.isWrite then .write else .read }).of_eq
      (c := c) rfl rfl
    split
    · rename_i c₁ eq
      rw [eq] at mended
      have record : c₁.record = c.record := mended.record FaultOutcome.noConfusion
      have regs : c₁.regs = c.regs := mended.regs rfl
      split
      · rename_i eq
        exact (handled_emulated eq).of_eq regs record
      · rename_i c₂ eq
        have failed : (c₁.onAlignment info).1 = none := by rw [eq]
        have regs' := regs_onAlignment failed
        have record' := record_onAlignment c₁ info
        rw [eq] at regs' record'
        exact (handled_onUnrecoverable _ .alignment info).of_eq (regs'.trans regs)
          (record'.trans record)
    · rename_i eq
      rw [eq] at mended
      exact mended

theorem handled_handle (c : Vcpu) (kind : FaultKind) (info : FaultInfo) :
    Handled c (c.handle kind info) := by
  cases kind with
  | alignment =>
    rcases eq : c.onAlignment info with ⟨_ | outcome, c₁⟩
    · have failed : (c.onAlignment info).1 = none := by rw [eq]
      have regs := regs_onAlignment failed
      have record := record_onAlignment c info
      rw [eq] at regs record
      cases described : emulable info with
      | some s =>
        simp only [handle, eq, described]
        exact (handled_onStraddling c₁ info s).of_eq regs record
      | none =>
        have told := handled_onAccess c₁ info
        simp only [handle, eq, described]
        rcases mended : c₁.onAccess info with ⟨outcome, c₂⟩
        rw [mended] at told
        cases outcome with
        | retry =>
          exact (handled_onUnrecoverable _ .alignment info).of_eq ((told.regs rfl).trans regs)
            ((told.record FaultOutcome.noConfusion).trans record)
        | _ => exact told.of_eq regs record
    · simp only [handle, eq]
      exact handled_emulated eq
  | access => exact handled_onAccess c info
  | breakpoint => exact handled_onUnrecoverable c .breakpoint info
  | undefinedInstruction => exact handled_onUnrecoverable c .undefinedInstruction info
  | unknown => exact handled_onUnrecoverable c .unknown info

end GuestExec.Vcpu
