import GuestExec.Registers
import GuestExec.Word.Bytes

/-!
# A64 branches and breakpoints

Which addresses an instruction may go to next, read off its encoding, and the
encoding of the breakpoint instruction.
-/

namespace GuestExec.Native

/-- The instruction `brk #imm`. -/
def brk (imm : UInt16) : UInt32 := (0xd4200000 : UInt32) ||| (imm.toUInt32 <<< 5)

/-- The immediate of a `brk`. -/
def brkImm? (word : UInt32) : Option UInt16 :=
  if word &&& 0xffe0001f = 0xd4200000 then some ((word >>> 5) &&& 0xffff).toUInt16 else none

/-- The immediate of the breakpoints that stepping places. -/
def stepImm : UInt16 := 0xe000

/-- The high bits of the immediate of a supervisor call, which guest code holds as a `brk`. -/
def svcTag : UInt16 := 0xf000

/-- The bits of such an immediate that number the call. -/
def svcMask : UInt16 := 0x0fff

/-- The word that stands for `svc #imm` in guest code. -/
def svcTrap (imm : UInt16) : UInt32 := brk (svcTag ||| (imm &&& svcMask))

/-- Where an instruction may go next. -/
structure Successors where
  first : UInt64
  /-- The way a conditional branch takes if it is not taken. -/
  second : Option UInt64 := none
deriving DecidableEq, Repr

/-- The bits `[low, low + width)` of an instruction as a signed number of words, in bytes. -/
def displacement (word : UInt32) (low : UInt32) (width : Nat) : UInt64 :=
  signExtend width (word >>> low).toUInt64 <<< 2

/-- Where the instruction `word` at `pc` may go, the registers being `regs`. -/
def successors (pc : UInt64) (word : UInt32) (regs : Registers) : Successors :=
  let next := pc + 4
  if word &&& 0x7c000000 = 0x14000000 then
    -- B, BL
    { first := pc + displacement word 0 26 }
  else if word &&& 0xff000010 = 0x54000000 ∨ word &&& 0x7e000000 = 0x34000000 then
    -- B.cond, CBZ, CBNZ
    { first := pc + displacement word 5 19, second := some next }
  else if word &&& 0x7e000000 = 0x36000000 then
    -- TBZ, TBNZ
    { first := pc + displacement word 5 14, second := some next }
  else if word &&& 0xff9ffc1f = 0xd61f0000 then
    -- BR, BLR, RET
    { first := regs.reg ((word >>> 5) &&& 0x1f).toNat }
  else { first := next }

end GuestExec.Native
