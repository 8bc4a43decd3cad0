import GuestExec.Core
import GuestExec.Trace.Tracer

/-!
# Cores that trace
-/

namespace GuestExec

namespace Trace

instance : CodeCache Tracer := ⟨Tracer.forget⟩

/-- A core that runs trace programs. -/
abbrev TraceCore := Core Tracer

/-- A core for `program`; its configuration says whether alignment is strict. -/
def TraceCore.new (index : Nat) (config : CoreConfig) (program : Nat) : Except VmError TraceCore :=
  Core.new index config (Tracer.new program config.strictAlignment)

/-- Runs or steps a thread for at most `rounds` rounds; nothing if they do not suffice. A thread
that runs elsewhere stays as it is. -/
def TraceCore.execute (c : TraceCore) (program : Program) (memory : MemoryMap) (ref : ThreadRef)
    (thread : GuestThread) (mode : RunMode) (hostTid : Int32) (rounds : Nat) :
    Option (HaltReason × Core.Left Tracer) :=
  match c.enter memory ref thread mode.owner hostTid with
  | none => some (.breakLoop, { core := c, thread, memory, notices := [c.refusal thread] })
  | some entered =>
    if entered.interrupted then
      some (.breakLoop, c.leave ref entered entered.activation c.backend .breakLoop)
    else
      (run program mode rounds c.backend entered.activation).map fun (reason, tracer, a) =>
        (reason, c.leave ref entered a tracer reason)

end Trace

end GuestExec
