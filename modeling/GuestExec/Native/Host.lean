import GuestExec.Error
import GuestExec.Config.Basic

/-!
# The host under native cores

What the host gives to a thread that runs native cores: a signal stack, CPUs to
run on, signals to other threads.
-/

namespace GuestExec.Native

/-- An installed signal stack. -/
structure SignalStack where
  base : Nat
  size : Nat
deriving DecidableEq, Repr

namespace SignalStack

/-- Stacks of this size and beyond are never available. -/
def limit : Nat := 0x4000_0000_0000_0000

/-- Installs a stack of `size` bytes, which the host maps at `base`. A thread that is running on a
signal stack cannot change it. -/
def install (size : Nat) (base : Nat) (onSignalStack : Bool) : Except PlatformError SignalStack :=
  if size < minSignalStack then
    .error (.initialization
      s!"signal stack of {size} bytes is below the {minSignalStack} byte minimum")
  else if limit ≤ size then .error (.refused "mmap" .noMemory)
  else if onSignalStack then .error (.refused "sigaltstack" .notPermitted)
  else .ok { base, size }

/-- `addr` lies on the stack. -/
def contains (s : SignalStack) (addr : Nat) : Bool :=
  decide (s.base ≤ addr) && decide (addr < s.base + s.size)

end SignalStack

/-- CPUs of the host have numbers below this. -/
def cpuLimit : Nat := 1023

/-- Binds the calling thread to a CPU. -/
def pinThread (cpu : Nat) : Except PlatformError Unit :=
  if cpu < cpuLimit then .ok () else .error (.refused "sched_setaffinity" .invalidArgument)

/-- The host thread that makes all calls. -/
def ownTid : Int32 := 1

/-- Sends a signal to the thread `tid` of this process. -/
def signalThread (tid : Int32) : Except PlatformError Unit :=
  if tid ≤ 0 then .error (.refused "tgkill" .invalidArgument)
  else if tid = ownTid then .ok ()
  else .error (.refused "tgkill" .noProcess)

end GuestExec.Native
