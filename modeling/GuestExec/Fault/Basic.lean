import GuestExec.Addr
import GuestExec.Halt
import GuestExec.Perms
import GuestExec.Fault.Syndrome

/-!
# Faults of the guest

What a trap reports, what handling it can lead to, and the books kept about it.
-/

namespace GuestExec

inductive FaultKind where
  | alignment
  | access
  | breakpoint
  | undefinedInstruction
  | unknown
deriving DecidableEq, Repr, Inhabited

namespace FaultKind

def name : FaultKind → String
  | .alignment => "alignment"
  | .access => "access"
  | .breakpoint => "breakpoint"
  | .undefinedInstruction => "undefined"
  | .unknown => "unknown"

def all : List FaultKind := [.alignment, .access, .breakpoint, .undefinedInstruction, .unknown]

def ofName? (s : String) : Option FaultKind := all.find? (·.name == s)

theorem ofName?_name (k : FaultKind) : ofName? k.name = some k := by cases k <;> decide

end FaultKind

structure FaultInfo where
  address : GuestAddr
  access : Access
  syndrome : Option UInt64 := none
deriving DecidableEq, Repr

inductive FaultOutcome where
  /-- Mended; the same instruction runs again. -/
  | retry
  /-- The access was made in software; the next instruction runs. -/
  | emulated
  /-- The guest took an exception; its vector runs. -/
  | redirected
  | halt (reason : HaltReason)
deriving DecidableEq, Repr

/-- The instruction that faulted counts as executed. -/
def FaultOutcome.completesInstruction : FaultOutcome → Bool
  | .emulated | .redirected => true
  | _ => false

/-- What is kept of a fault from which there is no way on. -/
structure FaultRecord where
  kind : FaultKind
  pc : UInt64
  sp : UInt64
  info : FaultInfo
deriving DecidableEq, Repr

/-- How many faults ended how, counted without a bound. -/
structure FaultStats where
  alignmentEmulated : Nat := 0
  accessRetried : Nat := 0
  exceptionsDelivered : Nat := 0
  abortsHalted : Nat := 0
  fatal : Nat := 0
deriving DecidableEq, Repr, Inhabited

/-- Faults after which the guest went on. -/
def FaultStats.recovered (s : FaultStats) : Nat :=
  s.alignmentEmulated + s.accessRetried + s.exceptionsDelivered

end GuestExec
