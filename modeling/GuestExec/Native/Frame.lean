import GuestExec.Registers
import GuestExec.Word.Bytes

/-!
# Signal frames

When a signal interrupts the guest, the host saves its registers in a frame:
general registers in fixed places, then a reserved area of 4096 bytes with a
chain of records, each `magic`, `size` and a body. Two records matter: the one
with the floating-point state and the one with the syndrome. A frame may lack
either. `FrameView` is a frame whose records have been found.
-/

namespace GuestExec.Native

/-- Size of the reserved area. -/
def reservedSize : Nat := 4096

/-- Marks a record of floating-point state: fpsr, fpcr and 32 vector registers. -/
def fpMagic : Nat := 0x46508001

/-- Marks a record that holds a syndrome. -/
def esrMagic : Nat := 0x45535201

/-- Length of a record of floating-point state. -/
def fpRecordSize : Nat := 528

/-- Length of a record that holds a syndrome. -/
def esrRecordSize : Nat := 16

/-- The bytes of the reserved area. -/
abbrev ReservedArea := Vector UInt8 4096

namespace ReservedArea

def zeros : ReservedArea := Vector.replicate 4096 0

/-- The little-endian number in `count` bytes from `offset` on. -/
def number (area : ReservedArea) (offset count : Nat) : Nat :=
  ofLeBytes ((List.range' offset count).map fun i => area[i]?.getD 0)

/-- Writes bytes from `offset` on; those past the end are lost. -/
def write (area : ReservedArea) (offset : Nat) : List UInt8 → ReservedArea
  | [] => area
  | b :: rest => ReservedArea.write (area.setIfInBounds offset b) (offset + 1) rest

/-- Writes the low `count` bytes of a number from `offset` on. -/
def setNumber (area : ReservedArea) (offset count n : Nat) : ReservedArea :=
  ReservedArea.write area offset (toLeBytes count n)

end ReservedArea

/-- A record to be put into the reserved area. -/
structure FrameRecord where
  /-- Where it begins, if not where the one before it ends. -/
  start : Option Nat := none
  magic : Nat
  size : Nat
  body : List UInt8 := []
deriving DecidableEq, Repr

/-- An area that holds the given records. -/
def ReservedArea.ofRecords (records : List FrameRecord) : ReservedArea :=
  (records.foldl
    (fun (area, next) r =>
      let start := r.start.getD next
      let area := ReservedArea.setNumber area start 4 r.magic
      let area := ReservedArea.setNumber area (start + 4) 4 r.size
      (ReservedArea.write area (start + 8) r.body, start + r.size))
    (ReservedArea.zeros, 0)).1

/-- The registers of an interrupted thread, as the host saved them. -/
structure SignalFrame where
  faultAddress : UInt64
  /-- X0 to X30. -/
  x : Vector UInt64 31
  sp : UInt64
  pc : UInt64
  pstate : UInt64
  reserved : ReservedArea
deriving DecidableEq

/-- What the walk of the records found. -/
structure FoundRecords where
  /-- Where the last record of floating-point state begins. -/
  fp : Option Nat := none
  /-- The last syndrome. -/
  syndrome : Option UInt64 := none
deriving DecidableEq, Repr, Inhabited

/-- Walks the records from `offset` on, as far as a record with magic and size lies in the area. -/
def walkRecords (area : ReservedArea) (offset : Nat) (found : FoundRecords) : FoundRecords :=
  if reservedSize < offset + 8 then found
  else
    let magic := ReservedArea.number area offset 4
    let size := ReservedArea.number area (offset + 4) 4
    if _ : magic = 0 ∨ size = 0 ∨ reservedSize < offset + size then found
    else
      let found :=
        if magic = fpMagic ∧ fpRecordSize ≤ size then { found with fp := some offset }
        else if magic = esrMagic ∧ esrRecordSize ≤ size then
          { found with
            syndrome := some (UInt64.ofNat (ReservedArea.number area (offset + 8) 8)) }
        else found
      walkRecords area (offset + size) found
termination_by reservedSize - offset
decreasing_by omega

/-- A frame with its records found. -/
structure FrameView where
  frame : SignalFrame
  records : FoundRecords
deriving DecidableEq

namespace FrameView

def ofFrame (frame : SignalFrame) : FrameView :=
  { frame, records := walkRecords frame.reserved 0 {} }

/-- General register `i`; anything past X30 reads as zero. -/
def reg (v : FrameView) (i : Nat) : UInt64 := v.frame.x[i]?.getD 0

def setReg (v : FrameView) (i : Nat) (value : UInt64) : FrameView :=
  { v with frame := { v.frame with x := v.frame.x.setIfInBounds i value } }

def setPc (v : FrameView) (value : UInt64) : FrameView :=
  { v with frame := { v.frame with pc := value } }

def setSp (v : FrameView) (value : UInt64) : FrameView :=
  { v with frame := { v.frame with sp := value } }

def setPstate (v : FrameView) (value : UInt64) : FrameView :=
  { v with frame := { v.frame with pstate := value } }

/-- Writes a number into the record of floating-point state, `position` bytes from its start. -/
def setFpField (v : FrameView) (position count n : Nat) : FrameView :=
  match v.records.fp with
  | none => v
  | some start =>
    { v with frame := { v.frame with
        reserved := ReservedArea.setNumber v.frame.reserved (start + position) count n } }

/-- A number in the record of floating-point state, `position` bytes from its start. -/
def fpField (v : FrameView) (position count : Nat) : Option Nat :=
  v.records.fp.map fun start => ReservedArea.number v.frame.reserved (start + position) count

/-- Vector register `i`; none without floating-point state. -/
def vector? (v : FrameView) (i : Nat) : Option (BitVec 128) :=
  if i < 32 then (v.fpField (16 + 16 * i) 16).map (BitVec.ofNat 128) else none

def setVector (v : FrameView) (i : Nat) (value : BitVec 128) : FrameView :=
  if i < 32 then v.setFpField (16 + 16 * i) 16 value.toNat else v

def fpsr (v : FrameView) : UInt32 := UInt32.ofNat ((v.fpField 8 4).getD 0)

def setFpsr (v : FrameView) (value : UInt32) : FrameView := v.setFpField 8 4 value.toNat

def fpcr (v : FrameView) : UInt32 := UInt32.ofNat ((v.fpField 12 4).getD 0)

def setFpcr (v : FrameView) (value : UInt32) : FrameView := v.setFpField 12 4 value.toNat

/-- The guest's registers after the frame is saved over `regs`; without floating-point
state those of `regs` stay. -/
def saveTo (v : FrameView) (regs : Registers) : Registers :=
  let regs := { regs with
    x := v.frame.x, sp := v.frame.sp, pc := v.frame.pc, pstate := v.frame.pstate.toUInt32 }
  if (v.vector? 0).isSome then
    { regs with
      v := Vector.ofFn fun i => (v.vector? i).getD 0
      fpcr := v.fpcr
      fpsr := v.fpsr }
  else regs

/-- The frame loaded with the guest's registers. -/
def loadFrom (v : FrameView) (regs : Registers) : FrameView :=
  let v := { v with frame := { v.frame with
    x := regs.x, sp := regs.sp, pc := regs.pc, pstate := regs.pstate.toUInt64 } }
  let v := (List.finRange 32).foldl (fun v i => v.setVector i regs.v[i]) v
  (v.setFpcr regs.fpcr).setFpsr regs.fpsr

end FrameView

end GuestExec.Native
