import GuestExec.Addr

/-!
# Errors

What can go wrong outside the guest: mapping memory, preparing the host,
reading a configuration, scheduling a thread. A guest's own faults are not
errors; they end a run with a `HaltReason`. Each cause has one constructor and
one text.
-/

namespace GuestExec

/-- Why the host refuses a request. -/
inductive Errno where
  | notPermitted
  | noEntry
  | noProcess
  | noMemory
  | alreadyExists
  | invalidArgument
  | nameTooLong
deriving DecidableEq, Repr

namespace Errno

/-- The host's number for the cause. -/
def number : Errno → Int
  | notPermitted => 1
  | noEntry => 2
  | noProcess => 3
  | noMemory => 12
  | alreadyExists => 17
  | invalidArgument => 22
  | nameTooLong => 36

/-- The host's words for the cause, with its number. -/
def describe (e : Errno) : String :=
  let words := match e with
    | notPermitted => "Operation not permitted"
    | noEntry => "No such file or directory"
    | noProcess => "No such process"
    | noMemory => "Cannot allocate memory"
    | alreadyExists => "File exists"
    | invalidArgument => "Invalid argument"
    | nameTooLong => "File name too long"
  s!"{words} (os error {e.number})"

end Errno

/-- A thread or core is in the wrong state for the call. -/
inductive CoreError where
  | invalidState (message current expected : String)
deriving DecidableEq, Repr

inductive MemoryError where
  | accessViolation (addr : GuestAddr) (reason : String)
  | invalidAddress (addr : GuestAddr)
  | invalidHostAddress (host : HostAddr)
  | mappingFailed (reason : String) (addr : Option GuestAddr)
  | overlap (addr : GuestAddr) (size : UInt64)
  | allocationFailed (size : UInt64)
  | misaligned (addr : GuestAddr) (required : UInt64)
  | protectionFailed (reason : String) (addr : Option GuestAddr)
deriving DecidableEq, Repr

inductive ExecutionError where
  | threadBusy (thread : UInt64) (reason : String)
deriving DecidableEq, Repr

/-- The host refused a request. -/
inductive PlatformError where
  | systemCall (call : String) (errno : Option Int)
  | signalInstall (signal errno : Int)
  | unsupportedHost (reason : String)
  | initialization (reason : String)
deriving DecidableEq, Repr

/-- The host refused the system call `call`. -/
def PlatformError.refused (call : String) (errno : Errno) : PlatformError :=
  .systemCall call (some errno.number)

inductive ConfigError where
  | invalid (reason : String)
  | parse (reason : String)
  | serialize (reason : String)
  | unreadable (path reason : String)
deriving DecidableEq, Repr

/-- Any of the above, with the operations it passed through. -/
inductive VmError where
  | core (error : CoreError)
  | memory (error : MemoryError)
  | execution (error : ExecutionError)
  | platform (error : PlatformError)
  | config (error : ConfigError)
  /-- `error` arose while `operation` of `component` was under way. -/
  | during (error : VmError) (component operation : String)
deriving DecidableEq, Repr

def CoreError.message : CoreError → String
  | .invalidState message current expected =>
    s!"Invalid state: {message} (current: {current}, expected: {expected})"

namespace MemoryError

def notReadable (addr : GuestAddr) : MemoryError :=
  .accessViolation addr "region is not readable"

def notWritable (addr : GuestAddr) : MemoryError :=
  .accessViolation addr "region is not writable"

/-- The host page itself refuses the write. -/
def hostWriteProtected (addr : GuestAddr) : MemoryError :=
  .accessViolation addr "host page is write-protected"

/-- The region's host address is fixed. -/
def cannotMove (addr : GuestAddr) : MemoryError :=
  .mappingFailed "identity-mapped regions cannot move" (some addr)

/-- The host did not map the block at `addr`. -/
def mapRefused (addr : GuestAddr) (errno : Errno) : MemoryError :=
  .mappingFailed ("mmap failed: " ++ errno.describe) (some addr)

/-- The host did not change the protection of a page. -/
def protectRefused (errno : Errno) : MemoryError :=
  .protectionFailed ("mprotect failed: " ++ errno.describe) none

def message : MemoryError → String
  | .accessViolation addr reason => s!"Access violation at {addr}: {reason}"
  | .invalidAddress addr => s!"Invalid address {addr}"
  | .invalidHostAddress host => s!"Invalid host address {host}"
  | .mappingFailed reason _ => s!"Mapping failed: {reason}"
  | .overlap addr size => s!"Region [{addr}, +{hexText size.toNat}) overlaps an existing mapping"
  | .allocationFailed size => s!"Allocation of {hexText size.toNat} bytes failed"
  | .misaligned addr required => s!"Address {addr} is not aligned to {hexText required.toNat}"
  | .protectionFailed reason _ => s!"Protection change failed: {reason}"

end MemoryError

namespace ExecutionError

def runningElsewhere (thread : UInt64) : ExecutionError :=
  .threadBusy thread "already running on another core"

def message : ExecutionError → String
  | .threadBusy thread reason => s!"Thread {thread} is busy: {reason}"

end ExecutionError

/-- An error number as diagnostics show it: known or not. -/
def errnoText : Option Int → String
  | some n => s!"Some({n})"
  | none => "None"

def PlatformError.message : PlatformError → String
  | .systemCall call errno => s!"System call '{call}' failed (errno {errnoText errno})"
  | .signalInstall signal errno => s!"Failed to install handler for signal {signal}: errno {errno}"
  | .unsupportedHost reason => s!"Unsupported host: {reason}"
  | .initialization reason => s!"Initialization failed: {reason}"

def ConfigError.message : ConfigError → String
  | .invalid reason => s!"Invalid configuration: {reason}"
  | .parse reason => s!"Failed to parse configuration: {reason}"
  | .serialize reason => s!"Failed to serialize configuration: {reason}"
  | .unreadable path reason => s!"Cannot read configuration file {path}: {reason}"

def VmError.message : VmError → String
  | .core error => "Core error: " ++ error.message
  | .memory error => "Memory error: " ++ error.message
  | .execution error => "Execution error: " ++ error.message
  | .platform error => "Platform error: " ++ error.message
  | .config error => "Configuration error: " ++ error.message
  | .during error component operation =>
    s!"[{component}::{operation}] operation failed: " ++ error.message

/-- The error, and what it becomes on the way out through each operation of a component. -/
def VmError.outward (error : VmError) : List (String × String) → List VmError
  | [] => [error]
  | (component, operation) :: rest =>
    error :: outward (.during error component operation) rest

end GuestExec
