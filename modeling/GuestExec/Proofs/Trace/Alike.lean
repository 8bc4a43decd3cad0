import GuestExec.Trace.Run
import GuestExec.Proofs.Core.Enter

/-!
# Traced runs of alike activations

No round looks at the thread's lock, its host thread or the state that the core
shows. So runs that begin with alike activations take the same course, and what
they end with is alike again.
-/

namespace GuestExec.Activation.Alike

variable {a b : Activation}

theorem symm (h : a.Alike b) : b.Alike a := ⟨h.cpu.symm, h.queue.symm, h.interrupt.symm⟩

theorem withMmu (h : a.Alike b) (mmu : Mmu) :
    (Trace.withMmu a mmu).Alike (Trace.withMmu b mmu) := by
  refine ⟨?_, h.queue, h.interrupt⟩
  show ({ b.cpu with mmu } : Vcpu) = { a.cpu with mmu }
  rw [h.cpu]

theorem setRegs (h : a.Alike b) (regs : Registers) : (a.setRegs regs).Alike (b.setRegs regs) := by
  refine ⟨?_, h.queue, h.interrupt⟩
  show ({ b.cpu with regs } : Vcpu) = { a.cpu with regs }
  rw [h.cpu]

end GuestExec.Activation.Alike

namespace GuestExec.Trace

open Activation (Alike)

variable {program : Program} {mode : RunMode} {owner : UInt64} {t t' : Tracer} {a a' b : Activation}

/-- The same attempt, and activations that are alike. -/
def SameAttempt (x y : Attempt × Activation) : Prop := y.1 = x.1 ∧ x.2.Alike y.2

theorem sameAttempt_trap (h : a.Alike b) (owner : UInt64) (kind : FaultKind) (info : FaultInfo) :
    SameAttempt (trap owner a kind info) (trap owner b kind info) := by
  have handled : b.cpu.handle kind info = a.cpu.handle kind info := by rw [h.cpu]
  exact ⟨congrArg Attempt.ofFault (congrArg Prod.fst handled), congrArg Prod.snd handled, h.queue,
    h.interrupt⟩

theorem sameAttempt_missFault (h : a.Alike b) (owner : UInt64) (addr : GuestAddr) (len : Nat)
    (access : Access) :
    SameAttempt (missFault owner a addr len access) (missFault owner b addr len access) := by
  rw [missFault, missFault, h.cpu]
  exact sameAttempt_trap (h.withMmu _) owner .access _

theorem sameAttempt_load (h : a.Alike b) (t : Tracer) (owner : UInt64) (addr : GuestAddr)
    (rt size : UInt8) (signed : Bool) :
    SameAttempt (load t owner a addr rt size signed) (load t owner b addr rt size signed) := by
  rw [load, load, h.cpu]
  split
  · exact sameAttempt_trap h owner .alignment _
  · dsimp only
    rcases a.cpu.mmu.read .cached addr (min size.toNat 8) with ⟨_ | bytes, mmu⟩
    · exact sameAttempt_missFault (h.withMmu mmu) owner addr _ .read
    · have regs : (withMmu b mmu).cpu.regs = (withMmu a mmu).cpu.regs :=
        congrArg Vcpu.regs (h.withMmu mmu).cpu
      dsimp only
      rw [regs]
      exact ⟨rfl, (h.withMmu mmu).setRegs _⟩

theorem sameAttempt_store (h : a.Alike b) (t : Tracer) (owner : UInt64) (addr : GuestAddr)
    (rt size : UInt8) :
    SameAttempt (store t owner a addr rt size) (store t owner b addr rt size) := by
  rw [store, store, h.cpu]
  split
  · exact sameAttempt_trap h owner .alignment _
  · dsimp only
    rcases a.cpu.mmu.write .cached addr
      (storeBytes (min size.toNat 8) (a.cpu.regs.reg rt.toNat)) with ⟨_ | _, mmu⟩
    · exact sameAttempt_missFault (h.withMmu mmu) owner addr _ .write
    · have regs : (withMmu b mmu).cpu.regs = (withMmu a mmu).cpu.regs :=
        congrArg Vcpu.regs (h.withMmu mmu).cpu
      dsimp only
      rw [regs]
      exact ⟨rfl, (h.withMmu mmu).setRegs _⟩

theorem sameAttempt_perform (h : a.Alike b) (t : Tracer) (owner : UInt64) (op : Op) :
    SameAttempt (perform t owner a op) (perform t owner b op) := by
  cases op with
  | load rt rn offset size signed =>
    rw [perform, perform, h.cpu]
    exact sameAttempt_load h t owner _ rt size signed
  | store rt rn offset size =>
    rw [perform, perform, h.cpu]
    exact sameAttempt_store h t owner _ rt size
  | undefined word =>
    rw [perform, perform, h.cpu]
    exact sameAttempt_trap h owner .undefinedInstruction _
  | _ =>
    rw [perform, perform, h.cpu]
    exact ⟨rfl, h.setRegs _⟩

theorem sameAttempt_executeOne (h : a.Alike b) (program : Program) (owner : UInt64) (t : Tracer) :
    (executeOne program owner t b).1 = (executeOne program owner t a).1 ∧
      (executeOne program owner t b).2.1 = (executeOne program owner t a).2.1 ∧
      (executeOne program owner t a).2.2.Alike (executeOne program owner t b).2.2 := by
  rw [executeOne, executeOne, h.cpu]
  dsimp only
  split
  · obtain ⟨same, alike⟩ := sameAttempt_perform h (t.fetch program ⟨a.cpu.regs.pc⟩).2 owner
      (t.fetch program ⟨a.cpu.regs.pc⟩).1
    exact ⟨same, rfl, alike⟩
  · obtain ⟨same, alike⟩ := sameAttempt_trap h owner .access
      { address := ⟨a.cpu.regs.pc⟩, access := .execute }
    exact ⟨same, rfl, alike⟩

/-- A round of alike activations comes to the same. -/
theorem round_alike (h : a.Alike b) (program : Program) (mode : RunMode) (t : Tracer) :
    ∃ b', round program mode t b = ((round program mode t a).1, (round program mode t a).2.1, b') ∧
      (round program mode t a).2.2.Alike b' := by
  have drained : b.drain.1 = a.drain.1 := congrArg InvalidationQueue.requests h.queue
  have interrupted : b.drain.2.takeInterrupt.1 = a.drain.2.takeInterrupt.1 := h.interrupt
  have ready : ((a.drain.2.takeInterrupt.2).waitUnlocked mode.owner).Alike
      ((b.drain.2.takeInterrupt.2).waitUnlocked mode.owner) := ⟨h.cpu, rfl, rfl⟩
  obtain ⟨attempt, tracer, alike⟩ := sameAttempt_executeOne ready program mode.owner
    (t.forgetAll a.drain.1)
  rw [round, round]
  dsimp only
  rw [drained, interrupted]
  split
  · exact ⟨_, rfl, h.cpu, rfl, rfl⟩
  · revert attempt tracer alike
    generalize executeOne program mode.owner (t.forgetAll a.drain.1)
      ((a.drain.2.takeInterrupt.2).waitUnlocked mode.owner) = x
    generalize executeOne program mode.owner (t.forgetAll a.drain.1)
      ((b.drain.2.takeInterrupt.2).waitUnlocked mode.owner) = y
    obtain ⟨outcome, t₁, a₁⟩ := x
    obtain ⟨outcome', t₂, b₁⟩ := y
    rintro rfl rfl alike
    cases outcome' with
    | halt reason executed => cases executed <;> exact ⟨b₁, rfl, alike⟩
    | _ => exact ⟨b₁, rfl, alike⟩

/-- Runs of alike activations take the same course. -/
theorem run_alike {rounds : Nat} {reason : HaltReason} (h : a.Alike b)
    (ran : run program mode rounds t a = some (reason, t', a')) :
    ∃ b', run program mode rounds t b = some (reason, t', b') ∧ a'.Alike b' := by
  induction rounds generalizing t a b with
  | zero => cases ran
  | succ rounds ih =>
    obtain ⟨b₁, eq, alike⟩ := round_alike h program mode t
    rw [run] at ran ⊢
    rw [eq]
    rcases outcome : round program mode t a with ⟨_ | reason', t₁, a₁⟩
    · rw [outcome] at ran alike
      exact ih alike ran
    · rw [outcome] at ran alike
      cases ran
      exact ⟨b₁, rfl, alike⟩

end GuestExec.Trace
