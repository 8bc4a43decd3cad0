import GuestExec.Proofs.Fault.Eased
import GuestExec.Proofs.Trace.Course

/-!
# Traced runs ease the map

Each attempt at an instruction eases a regular map, so each round does, and the run.
-/

namespace GuestExec.Trace

open MemoryMap (Eases)

variable {program : Program} {mode : RunMode} {t t' : Tracer} {a a' : Activation}

theorem eases_trap (w : a.cpu.mmu.memory.Regular) (owner : UInt64) (kind : FaultKind)
    (info : FaultInfo) : Eases a.cpu.mmu.memory (trap owner a kind info).2.cpu.mmu.memory :=
  Vcpu.eases_handle w kind info

theorem eases_missFault {u : Mmu} (w : a.cpu.mmu.memory.Regular)
    (used : Eases a.cpu.mmu.memory u.memory) (owner : UInt64) (addr : GuestAddr) (len : Nat)
    (access : Access) :
    Eases a.cpu.mmu.memory (missFault owner (withMmu a u) addr len access).2.cpu.mmu.memory := by
  have kept := Mmu.memory_firstCachedMiss u addr len access
  have trapped := eases_trap (a := withMmu a (u.firstCachedMiss addr len access).2)
    (kept ▸ used.regular w) owner .access
    { address := (u.firstCachedMiss addr len access).1, access }
  exact used.trans (kept ▸ trapped)

theorem eases_load (w : a.cpu.mmu.memory.Regular) (t : Tracer) (owner : UInt64)
    (addr : GuestAddr) (rt size : UInt8) (signed : Bool) :
    Eases a.cpu.mmu.memory (load t owner a addr rt size signed).2.cpu.mmu.memory := by
  unfold load
  split
  · exact eases_trap w owner .alignment _
  · have kept := Mmu.memory_read .cached a.cpu.mmu addr (min size.toNat 8)
    dsimp only
    split
    · rename_i eq
      rw [eq] at kept
      exact eases_missFault w (kept ▸ .refl _) owner addr _ .read
    · rename_i eq
      rw [eq] at kept
      change Eases a.cpu.mmu.memory _
      exact kept ▸ .refl _

theorem eases_store (w : a.cpu.mmu.memory.Regular) (t : Tracer) (owner : UInt64)
    (addr : GuestAddr) (rt size : UInt8) :
    Eases a.cpu.mmu.memory (store t owner a addr rt size).2.cpu.mmu.memory := by
  unfold store
  split
  · exact eases_trap w owner .alignment _
  · have wrote := Mmu.eases_write w .cached addr
      (storeBytes (min size.toNat 8) (a.cpu.regs.reg rt.toNat))
    dsimp only
    split
    · rename_i eq
      rw [eq] at wrote
      exact eases_missFault w wrote owner addr _ .write
    · rename_i eq
      rw [eq] at wrote
      exact wrote

theorem eases_perform (w : a.cpu.mmu.memory.Regular) (t : Tracer) (owner : UInt64) (op : Op) :
    Eases a.cpu.mmu.memory (perform t owner a op).2.cpu.mmu.memory := by
  cases op with
  | load rt rn offset size signed => exact eases_load w t owner _ rt size signed
  | store rt rn offset size => exact eases_store w t owner _ rt size
  | undefined word => exact eases_trap w owner .undefinedInstruction _
  | _ => exact .refl _

theorem eases_executeOne (w : a.cpu.mmu.memory.Regular) (program : Program) (owner : UInt64)
    (t : Tracer) :
    Eases a.cpu.mmu.memory (executeOne program owner t a).2.2.cpu.mmu.memory := by
  unfold executeOne
  dsimp only
  split
  · exact eases_perform w _ owner _
  · exact eases_trap w owner .access _

theorem eases_round (w : a.cpu.mmu.memory.Regular) (program : Program) (mode : RunMode)
    (t : Tracer) : Eases a.cpu.mmu.memory (round program mode t a).2.2.cpu.mmu.memory := by
  cases waiting : a.params.interrupt with
  | true =>
    rw [round_of_interrupt waiting]
    exact .refl _
  | false =>
    rw [round_of_free waiting]
    exact eases_executeOne (a := ready a mode.owner) w program mode.owner _

theorem eases_run {rounds : Nat} {reason : HaltReason} (w : a.cpu.mmu.memory.Regular)
    (ran : run program mode rounds t a = some (reason, t', a')) :
    Eases a.cpu.mmu.memory a'.cpu.mmu.memory := by
  induction rounds generalizing t a with
  | zero => cases ran
  | succ rounds ih =>
    have first := eases_round w program mode t
    rw [run] at ran
    split at ran
    · rename_i eq
      rw [eq] at first
      cases ran
      exact first
    · rename_i eq
      rw [eq] at first
      exact first.trans (ih (first.regular w) ran)

theorem eases_execute {c : TraceCore} {memory : MemoryMap} {ref : ThreadRef} {thread : GuestThread}
    {hostTid : Int32} {rounds : Nat} {reason : HaltReason} {left : Core.Left Tracer}
    (w : memory.Regular)
    (executed : c.execute program memory ref thread mode hostTid rounds = some (reason, left)) :
    Eases memory left.memory := by
  rw [TraceCore.execute] at executed
  split at executed
  · cases executed
    exact .refl _
  · rename_i e entered
    have same : e.activation.cpu.mmu.memory = memory := congrArg Mmu.memory (Core.mmu_enter entered)
    rw [← same] at w ⊢
    split at executed
    · cases executed
      exact .refl _
    · obtain ⟨⟨reason', t, a⟩, ran, executed⟩ := Option.map_eq_some_iff.1 executed
      cases executed
      exact eases_run w ran

end GuestExec.Trace
