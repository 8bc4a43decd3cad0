import GuestExec.Error

/-!
# Configuration of a core
-/

namespace GuestExec

/-- Smallest signal stack, in bytes. -/
def minSignalStack : Nat := 16384

structure CoreConfig where
  /-- Bytes of the signal stack of a core's host thread. -/
  signalStackSize : UInt64 := 65536
  /-- Host CPU to which the core's host thread is bound. -/
  hostCpu : Option UInt64 := none
  /-- Spins on a held lock before the host CPU is yielded. -/
  lockSpinLimit : UInt32 := 1000
  /-- Report the recovered faults after every run. -/
  logRecoveredFaults : Bool := false
  /-- Misaligned data accesses fault; traced code only. -/
  strictAlignment : Bool := false
deriving DecidableEq, Repr, Inhabited

namespace CoreConfig

/-- The first rule that the configuration breaks. -/
def validate (c : CoreConfig) : Except ConfigError Unit :=
  if c.signalStackSize.toNat < minSignalStack then
    .error (.invalid
      s!"signal_stack_size must be at least {minSignalStack} bytes, got {c.signalStackSize}")
  else if c.signalStackSize.toNat % pageSize ≠ 0 then
    .error (.invalid "signal_stack_size must be a multiple of the page size")
  else if c.lockSpinLimit = 0 then .error (.invalid "lock_spin_limit must be non-zero")
  else .ok ()

end CoreConfig

end GuestExec
