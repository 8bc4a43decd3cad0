import GuestExec.Proofs.Core.Enter
import GuestExec.Proofs.Trace.Attempt

/-!
# Tracing and the access unit

Each round of a traced run keeps the access unit sound, and so does the run.
-/

namespace GuestExec.Trace

open Mmu (Follows Sound)

variable {program : Program} {mode : RunMode} {owner : UInt64} {t t' : Tracer} {a a' : Activation}

theorem follows_round (s : a.cpu.mmu.Sound) (program : Program) (mode : RunMode) (t : Tracer) :
    a.cpu.mmu.Follows (round program mode t a).2.2.cpu.mmu := by
  have executed := (attempted_executeOne program mode.owner (t.forgetAll a.drain.1)
    ((a.drain.2.takeInterrupt.2).waitUnlocked mode.owner)).1.follows s
  unfold round
  dsimp only
  split
  · exact s.follows
  · split <;>
    · rename_i eq
      rw [eq] at executed
      exact executed

theorem follows_run {rounds : Nat} {reason : HaltReason} (s : a.cpu.mmu.Sound)
    (h : run program mode rounds t a = some (reason, t', a')) :
    a.cpu.mmu.Follows a'.cpu.mmu := by
  induction rounds generalizing t a with
  | zero => cases h
  | succ rounds ih =>
    have first := follows_round s program mode t
    rw [run] at h
    split at h
    · rename_i eq
      rw [eq] at first
      cases h
      exact first
    · rename_i eq
      rw [eq] at first
      exact first.trans (ih first.sound h)

/-- A run from a coherent TLB leaves one. -/
theorem follows_execute {c : TraceCore} {memory : MemoryMap} {ref : ThreadRef}
    {thread : GuestThread} {hostTid : Int32} {rounds : Nat} {reason : HaltReason}
    {left : Core.Left Tracer} (s : Mmu.Sound ⟨c.tlb, memory⟩)
    (h : c.execute program memory ref thread mode hostTid rounds = some (reason, left)) :
    Mmu.Follows ⟨c.tlb, memory⟩ ⟨left.core.tlb, left.memory⟩ := by
  rw [TraceCore.execute] at h
  split at h
  · cases h
    exact s.follows
  · rename_i e entered
    have mmu := Core.mmu_enter entered
    rw [← mmu] at s ⊢
    split at h
    · cases h
      exact s.follows
    · obtain ⟨⟨reason', t, a⟩, ran, h⟩ := Option.map_eq_some_iff.1 h
      cases h
      exact follows_run s ran

end GuestExec.Trace
