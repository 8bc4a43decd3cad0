/-!
# Exception syndromes

The word in which the processor describes an exception. From the top: the class
(6 bits), the instruction length, and for a data abort, if the syndrome is
valid, the access: log of its size (2), sign extension, register (5), register
width; then, lower, direction and status code (6).
-/

namespace GuestExec

/-- A syndrome word. -/
structure Syndrome where
  word : UInt64
deriving DecidableEq, Repr, Inhabited

namespace Syndrome

/-! ## Classes and status codes -/

def instructionAbortLower : UInt64 := 0x20
def instructionAbortSame : UInt64 := 0x21
def dataAbortLower : UInt64 := 0x24
def dataAbortSame : UInt64 := 0x25
def breakpointClass : UInt64 := 0x3c

/-- No translation at the last level. -/
def translationFault : UInt64 := 0x07

/-- No permission at the last level. -/
def permissionFault : UInt64 := 0x0f

def alignmentFault : UInt64 := 0x21

/-- Marks a 32-bit instruction. -/
def longInstruction : UInt64 := 0x2000000

/-- Marks a write. -/
def writeBit : UInt64 := 0x40

/-! ## Fields -/

/-- The bits `[low, low + width)`. -/
def field (s : Syndrome) (low width : UInt64) : UInt64 :=
  (s.word >>> low) &&& ((1 <<< width) - 1)

def flag (s : Syndrome) (bit : UInt64) : Bool := s.field bit 1 == 1

def exceptionClass (s : Syndrome) : UInt64 := s.field 26 6

def isDataAbort (s : Syndrome) : Bool :=
  s.exceptionClass == dataAbortLower || s.exceptionClass == dataAbortSame

def isInstructionAbort (s : Syndrome) : Bool :=
  s.exceptionClass == instructionAbortLower || s.exceptionClass == instructionAbortSame

/-- The fields that describe the access are valid. -/
def isValid (s : Syndrome) : Bool := s.flag 24

/-- Bytes accessed: 1, 2, 4 or 8. -/
def accessSize (s : Syndrome) : Nat := 1 <<< (s.field 22 2).toNat

def signExtends (s : Syndrome) : Bool := s.flag 21

/-- The register loaded or stored. -/
def register (s : Syndrome) : Nat := (s.field 16 5).toNat

/-- A load fills all 64 bits of the register. -/
def sixtyFour (s : Syndrome) : Bool := s.flag 15

def isWrite (s : Syndrome) : Bool := s.flag 6

def statusCode (s : Syndrome) : UInt64 := s.field 0 6

def isAlignmentFault (s : Syndrome) : Bool := s.statusCode == alignmentFault

/-- The number of zero bits below the lowest set bit of `n`, found within `fuel` bits. -/
def trailingZeros (n : Nat) : (fuel : Nat) → Nat
  | 0 => 0
  | fuel + 1 => if n % 2 = 1 then 0 else trailingZeros (n / 2) fuel + 1

/-- The syndrome of a misaligned access of `size` bytes by a 64-bit load or store. -/
def alignment (size : UInt64) (signExtends : Bool) (register : UInt8) (isWrite : Bool) :
    Syndrome :=
  let log := UInt64.ofNat (trailingZeros size.toNat 64) &&& 3
  let valid : UInt64 := 0x1000000
  let extension : UInt64 := if signExtends then 0x200000 else 0
  let width : UInt64 := 0x8000
  let direction := if isWrite then writeBit else 0
  ⟨(dataAbortLower <<< 26) ||| longInstruction ||| valid ||| (log <<< 22) ||| extension |||
    ((register.toUInt64 &&& 0x1f) <<< 16) ||| width ||| direction ||| alignmentFault⟩

/-- The syndrome of an exception of class `cls` with `low` in the low bits. -/
def ofClass (cls low : UInt64) : Syndrome :=
  ⟨(cls <<< 26) ||| longInstruction ||| low⟩

end Syndrome

end GuestExec
