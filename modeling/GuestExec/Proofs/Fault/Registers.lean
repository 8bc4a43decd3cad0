import GuestExec.Proofs.Fault.Emulated
import GuestExec.Proofs.Fault.Reasons

/-!
# What a fault may change in the registers

Handling a fault tries up to three things in turn: the access in software, the
page in its way, the access once more. `Marks` lists what may be left of it in
the registers, one constructor for each outcome; an attempt that failed leaves
nothing behind for the next one to see.
-/

namespace GuestExec

theorem Registers.setReg_eq (r : Registers) (i : Nat) (value : UInt64) :
    ∃ x : Vector UInt64 31, (∀ j (h : j < 31), j ≠ i → x[j] = r.x[j]) ∧
      r.setReg i value = { r with x } := by
  unfold setReg
  split
  · exact ⟨r.x.set i value, fun j h other => Vector.getElem_set_ne _ _ (Ne.symm other), rfl⟩
  · exact ⟨r.x, fun _ _ _ => rfl, rfl⟩

namespace Vcpu

variable {c c' : Vcpu} {kind : FaultKind} {info : FaultInfo} {result : FaultOutcome × Vcpu}

/-- What a fault of `c` may leave in the registers, outcome by outcome. -/
inductive Marks (c : Vcpu) (kind : FaultKind) (info : FaultInfo) : FaultOutcome × Vcpu → Prop where
  /-- The same instruction runs again, in the same registers. -/
  | retried {c' : Vcpu} (access : kind = .access) (regs : c'.regs = c.regs) :
    Marks c kind info (.retry, c')
  | stored {c' : Vcpu} {s : Syndrome} (alignment : kind = .alignment)
    (described : emulable info = some s) (write : s.isWrite = true)
    (regs : c'.regs = { c.regs with pc := c.regs.pc + 4 }) : Marks c kind info (.emulated, c')
  /-- Of the general registers only the one that the syndrome names may have a new value. -/
  | loaded {c' : Vcpu} {s : Syndrome} {x : Vector UInt64 31} (alignment : kind = .alignment)
    (described : emulable info = some s) (read : s.isWrite = false)
    (others : ∀ i (h : i < 31), i ≠ s.register → x[i] = c.regs.x[i])
    (regs : c'.regs = { c.regs with x, pc := c.regs.pc + 4 }) : Marks c kind info (.emulated, c')
  | redirected {c' : Vcpu} {esr far : UInt64} (vector : c.regs.vbar ≠ 0)
    (regs : c'.regs = { c.regs with
      esr, far
      elr := c.regs.pc
      spsr := c.regs.pstate.toUInt64
      pc := c.regs.vbar + 0x400 }) : Marks c kind info (.redirected, c')
  | aborted {c' : Vcpu} {reason : HaltReason} {esr far : UInt64}
    (abort : reason ∈ [.dataAbort, .prefetchAbort]) (vector : c.regs.vbar = 0)
    (regs : c'.regs = { c.regs with esr, far }) : Marks c kind info (.halt reason, c')
  | fatal {c' : Vcpu} {record : FaultRecord} (kept : c'.record = some record)
    (pc : record.pc = c.regs.pc) (sp : record.sp = c.regs.sp) (regs : c'.regs = c.regs) :
    Marks c kind info (.halt .fatalError, c')

/-- Only the registers count: what was tried before may have changed all else. -/
theorem Marks.of_eq (h : Marks c' kind info result) (same : c'.regs = c.regs) :
    Marks c kind info result := by
  cases h with
  | retried access regs => exact .retried access (regs.trans same)
  | stored alignment described write regs => exact .stored alignment described write (same ▸ regs)
  | loaded alignment described read others regs =>
    exact .loaded alignment described read (same ▸ others) (same ▸ regs)
  | redirected vector regs => exact .redirected (same ▸ vector) (same ▸ regs)
  | aborted abort vector regs => exact .aborted abort (same ▸ vector) (same ▸ regs)
  | fatal kept pc sp regs => exact .fatal kept (same ▸ pc) (same ▸ sp) (regs.trans same)

/-! ## The parts of the handler -/

theorem marks_onUnrecoverable (c : Vcpu) (kind kind' : FaultKind) (info info' : FaultInfo) :
    Marks c kind info (c.onUnrecoverable kind' info') :=
  .fatal rfl rfl rfl rfl

theorem marks_deliver (c : Vcpu) (kind : FaultKind) (info info' : FaultInfo) (status : UInt64) :
    Marks c kind info (c.deliver info' status) := by
  unfold deliver
  dsimp only
  split
  · rename_i none
    exact .aborted (by cases info'.access <;> decide) none rfl
  · rename_i vector
    exact .redirected vector rfl

/-- A retry leaves the registers as they were. -/
theorem regs_of_retry {info' : FaultInfo} (eq : c.onAccess info' = (.retry, c')) :
    c'.regs = c.regs := by
  have kept := (handled_onAccess c info').regs (congrArg Prod.fst eq)
  rw [eq] at kept
  exact kept

/-- So does an attempt in software that fails. -/
theorem regs_of_failed (eq : c.onAlignment info = (none, c')) : c'.regs = c.regs := by
  have kept := regs_onAlignment (congrArg Prod.fst eq)
  rw [eq] at kept
  exact kept

/-- An access that is not retried, for the sake of whatever fault it was made. -/
theorem marks_onAccess (kind : FaultKind) (info : FaultInfo) {info' : FaultInfo}
    {outcome : FaultOutcome} (eq : c.onAccess info' = (outcome, c')) (ended : outcome ≠ .retry) :
    Marks c kind info (outcome, c') := by
  rw [← eq]
  have ended : (c.onAccess info').1 ≠ .retry := by rwa [eq]
  unfold onAccess at ended ⊢
  dsimp only at ended ⊢
  split
  · exact marks_deliver c kind info info' _
  · rename_i mapping translated
    simp only [translated] at ended
    split
    · exact marks_deliver c kind info info' _
    · rename_i legal
      rw [if_neg legal] at ended
      split
      · rename_i usable
        rw [if_pos usable] at ended
        exact absurd rfl ended
      · exact (marks_onUnrecoverable _ kind .access info info').of_eq rfl

/-- An access that was made in software. -/
theorem marks_onAlignment (info : FaultInfo) {outcome : FaultOutcome}
    (eq : c.onAlignment info = (some outcome, c')) :
    Marks c .alignment info (outcome, c') := by
  unfold onAlignment at eq
  split at eq
  · cases eq
  · rename_i s described
    dsimp only at eq
    split at eq
    · rename_i write
      split at eq
      · cases eq
        exact .stored rfl described write rfl
      · cases eq
    · rename_i read
      split at eq
      · cases eq
      · rename_i bytes _
        cases eq
        obtain ⟨x, others, same⟩ := c.regs.setReg_eq s.register (loadedValue s bytes)
        exact .loaded rfl described (by simpa using read) others
          (congrArg (fun regs : Registers => { regs with pc := regs.pc + 4 }) same)

theorem marks_onStraddling (c : Vcpu) (info : FaultInfo) (s : Syndrome) :
    Marks c .alignment info (c.onStraddling info s) := by
  unfold onStraddling
  dsimp only
  split
  · exact (marks_onUnrecoverable _ .alignment .alignment info info).of_eq rfl
  · split
    · rename_i c₁ retried
      have regs := regs_of_retry retried
      split
      · rename_i again
        exact (marks_onAlignment info again).of_eq regs
      · rename_i c₂ failed
        exact (marks_onUnrecoverable c₂ .alignment .alignment info info).of_eq
          ((regs_of_failed failed).trans regs)
    · rename_i outcome c₁ other eq
      exact (marks_onAccess .alignment info eq other).of_eq rfl

/-! ## The handler -/

/-- Whatever comes of a fault, the registers change as its outcome says and not otherwise. -/
theorem marks_handle (c : Vcpu) (kind : FaultKind) (info : FaultInfo) :
    Marks c kind info (c.handle kind info) := by
  cases kind with
  | alignment =>
    rcases tried : c.onAlignment info with ⟨_ | outcome, c₁⟩
    · have regs := regs_of_failed tried
      cases described : emulable info with
      | some s =>
        simp only [handle, tried, described]
        exact (marks_onStraddling c₁ info s).of_eq regs
      | none =>
        simp only [handle, tried, described]
        split
        · rename_i c₂ retried
          exact (marks_onUnrecoverable c₂ .alignment .alignment info info).of_eq
            ((regs_of_retry retried).trans regs)
        · rename_i other eq
          exact (marks_onAccess .alignment info eq other).of_eq regs
    · simp only [handle, tried]
      exact marks_onAlignment info tried
  | access =>
    rcases eq : c.onAccess info with ⟨outcome, c'⟩
    rw [handle, eq]
    by_cases again : outcome = .retry
    · subst again
      exact .retried rfl (regs_of_retry eq)
    · exact marks_onAccess .access info eq again
  | breakpoint => exact marks_onUnrecoverable c .breakpoint .breakpoint info info
  | undefinedInstruction =>
    exact marks_onUnrecoverable c .undefinedInstruction .undefinedInstruction info info
  | unknown => exact marks_onUnrecoverable c .unknown .unknown info info

end Vcpu

end GuestExec
