/-!
# The guest's registers

`Registers` is what one guest thread owns of a core: general and vector
registers, control state, and the record of its last exception. Register number
31 names the zero register, which reads as zero and swallows writes.
-/

namespace GuestExec

/-- The registers of one guest thread. -/
structure Registers where
  /-- X0 to X30. -/
  x : Vector UInt64 31
  sp : UInt64
  pc : UInt64
  pstate : UInt32
  fpcr : UInt32
  fpsr : UInt32
  /-- V0 to V31. -/
  v : Vector (BitVec 128) 32
  /-- Thread pointer that the guest may write. -/
  tpidr : UInt64
  /-- Thread pointer that only the supervisor writes. -/
  tpidrro : UInt64
  /-- Syndrome of the last exception. -/
  esr : UInt64
  /-- Fault address of the last exception. -/
  far : UInt64
  /-- Return address of the last exception. -/
  elr : UInt64
  /-- Status saved by the last exception. -/
  spsr : UInt64
  /-- Base of the exception vector; zero when there is none. -/
  vbar : UInt64
  /-- Number of the last supervisor call. -/
  svc : UInt32
deriving DecidableEq, Repr

namespace Registers

/-- All registers zero. -/
def zero : Registers :=
  { x := Vector.replicate 31 0, sp := 0, pc := 0, pstate := 0, fpcr := 0, fpsr := 0
    v := Vector.replicate 32 0, tpidr := 0, tpidrro := 0, esr := 0, far := 0, elr := 0
    spsr := 0, vbar := 0, svc := 0 }

instance : Inhabited Registers := ⟨zero⟩

/-- General register `i`; anything past X30 reads as zero. -/
def reg (r : Registers) (i : Nat) : UInt64 :=
  if h : i < 31 then r.x[i] else 0

/-- Writes general register `i`; a write past X30 is lost. -/
def setReg (r : Registers) (i : Nat) (value : UInt64) : Registers :=
  if h : i < 31 then { r with x := r.x.set i value } else r

/-- The link register, X30. -/
def lr (r : Registers) : UInt64 := r.x[30]

/-- Arguments of a supervisor call, X0 to X7. -/
def svcArguments (r : Registers) : Vector UInt64 8 :=
  Vector.ofFn fun i => r.x[i]

/-- Writes the results of a supervisor call to X0 to X7. -/
def setSvcArguments (r : Registers) (args : Vector UInt64 8) : Registers :=
  { r with x := Vector.ofFn fun i => if h : i.val < 8 then args[i.val] else r.x[i] }

end Registers

end GuestExec
