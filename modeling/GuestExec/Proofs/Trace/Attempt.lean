import GuestExec.Trace.Run
import GuestExec.Proofs.Fault.Sound

/-!
# What one attempt can do

After some use of the access unit an attempt at an instruction either hands a
trap to the fault policy or comes to an end of its own with new registers.
`attempted_executeOne` says so once for every instruction.
-/

namespace GuestExec.Trace

open Mmu (Follows Sound)

variable {owner : UInt64} {a : Activation} {result : Attempt × Activation}

/-- Ways for an attempt to end without a trap. -/
inductive Attempt.Ends : Attempt → Prop where
  | completed : Ends .completed
  | supervisorCall : Ends (.halt .supervisorCall true)
  | breakpoint : Ends (.halt .instructionBreakpoint false)

/-- `u` is what some use of the activation's access unit left. -/
def Used (a : Activation) (u : Mmu) : Prop := a.cpu.mmu.Sound → a.cpu.mmu.Follows u

theorem used_self (a : Activation) : Used a a.cpu.mmu := fun s => s.follows

inductive Attempted (owner : UInt64) (a : Activation) : Attempt × Activation → Prop where
  | trapped {u : Mmu} (used : Used a u) (kind : FaultKind) (info : FaultInfo) :
    Attempted owner a (trap owner (withMmu a u) kind info)
  | made {u : Mmu} (used : Used a u) {attempt : Attempt} (ends : attempt.Ends) (regs : Registers) :
    Attempted owner a (attempt, (withMmu a u).setRegs regs)

theorem attempted_missFault {u : Mmu} (used : Used a u) (owner : UInt64) (addr : GuestAddr)
    (len : Nat) (access : Access) :
    Attempted owner a (missFault owner (withMmu a u) addr len access) := by
  refine .trapped (fun s => ?_) .access _
  have follows := used s
  exact follows.trans (follows.sound.firstCachedMiss addr len access).follows

theorem attempted_load (t : Tracer) (owner : UInt64) (a : Activation) (addr : GuestAddr)
    (rt size : UInt8) (signed : Bool) : Attempted owner a (load t owner a addr rt size signed) := by
  unfold load
  split
  · exact .trapped (used_self a) .alignment _
  · dsimp only
    have used : Used a (a.cpu.mmu.read .cached addr (min size.toNat 8)).2 :=
      fun s => s.read .cached addr _
    split
    · rename_i eq
      rw [eq] at used
      exact attempted_missFault used owner addr _ .read
    · rename_i eq
      rw [eq] at used
      exact .made used .completed _

theorem attempted_store (t : Tracer) (owner : UInt64) (a : Activation) (addr : GuestAddr)
    (rt size : UInt8) : Attempted owner a (store t owner a addr rt size) := by
  unfold store
  split
  · exact .trapped (used_self a) .alignment _
  · dsimp only
    have used : Used a (a.cpu.mmu.write .cached addr
        (storeBytes (min size.toNat 8) (a.cpu.regs.reg rt.toNat))).2 :=
      fun s => s.write .cached addr _
    split
    · rename_i eq
      rw [eq] at used
      exact attempted_missFault used owner addr _ .write
    · rename_i eq
      rw [eq] at used
      exact .made used .completed _

theorem attempted_perform (t : Tracer) (owner : UInt64) (a : Activation) (op : Op) :
    Attempted owner a (perform t owner a op) := by
  cases op with
  | load rt rn offset size signed => exact attempted_load t owner a _ rt size signed
  | store rt rn offset size => exact attempted_store t owner a _ rt size
  | undefined word => exact .trapped (used_self a) .undefinedInstruction _
  | svc imm => exact .made (used_self a) .supervisorCall _
  | brk imm => exact .made (used_self a) .breakpoint _
  | _ => exact .made (used_self a) .completed _

/-- What an attempt leaves of the tracer: at most an operation more is remembered. -/
theorem attempted_executeOne (program : Program) (owner : UInt64) (t : Tracer) (a : Activation) :
    Attempted owner a
        ((executeOne program owner t a).1, (executeOne program owner t a).2.2) ∧
      ((executeOne program owner t a).2.1 = t ∨
        (executeOne program owner t a).2.1 = (t.fetch program ⟨a.cpu.regs.pc⟩).2) := by
  unfold executeOne
  dsimp only
  split
  · exact ⟨attempted_perform _ owner a _, .inr rfl⟩
  · exact ⟨.trapped (used_self a) .access _, .inl rfl⟩

/-- Whatever an attempt does, the access unit stays sound. -/
theorem Attempted.follows (h : Attempted owner a result) (s : a.cpu.mmu.Sound) :
    a.cpu.mmu.Follows result.2.cpu.mmu := by
  cases h with
  | @trapped u used kind info =>
    have follows := used s
    exact follows.trans (Vcpu.follows_handle (c := (withMmu a u).cpu) follows.sound kind info)
  | made used ends regs => exact used s

/-- Nobody asks the thread to stop meanwhile. -/
theorem Attempted.interrupt (h : Attempted owner a result) :
    result.2.params.interrupt = a.params.interrupt := by
  cases h <;> rfl

end GuestExec.Trace
