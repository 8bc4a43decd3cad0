import GuestExec.Addr
import GuestExec.Memory.AddressTable

/-!
# Trace programs

A trace program gives guest code as a list of operations instead of machine
words: one operation per address. An address without one holds an undefined
instruction.
-/

namespace GuestExec.Trace

/-- An operation. Register number 31 is the zero register; offsets and signed
displacements are in bytes. -/
inductive Op where
  | nop
  | mov (rd : UInt8) (imm : UInt64)
  | addImm (rd rn : UInt8) (imm : UInt64)
  | subImm (rd rn : UInt8) (imm : UInt64)
  | add (rd rn rm : UInt8)
  /-- Loads `size` bytes at `rn + offset` into `rt`. -/
  | load (rt rn : UInt8) (offset : Int64) (size : UInt8) (signed : Bool)
  /-- Stores the low `size` bytes of `rt` at `rn + offset`. -/
  | store (rt rn : UInt8) (offset : Int64) (size : UInt8)
  /-- Branches by `offset` if `rt` is not zero. -/
  | cbnz (rt : UInt8) (offset : Int64)
  | b (offset : Int64)
  | svc (imm : UInt16)
  | brk (imm : UInt16)
  | undefined (word : UInt32)
deriving DecidableEq, Repr, Inhabited

/-- Operations by address. -/
structure Program where
  ops : AddressTable Op
deriving Inhabited

namespace Program

/-- The operations `ops`, four bytes apart from `base` on. -/
def ofOps (base : GuestAddr) (ops : List Op) : Program :=
  ⟨ops.zipIdx.foldl (fun table (op, i) =>
    table.insert (base + UInt64.ofNat (4 * i)).toNat op) .empty⟩

/-- Puts one operation at `addr`. -/
def patch (p : Program) (addr : GuestAddr) (op : Op) : Program :=
  ⟨p.ops.insert addr.toNat op⟩

def get? (p : Program) (addr : GuestAddr) : Option Op := p.ops.get? addr.toNat

/-- What runs at `addr`. -/
def opAt (p : Program) (addr : GuestAddr) : Op := (p.get? addr).getD (.undefined 0)

def size (p : Program) : Nat := p.ops.size

end Program

end GuestExec.Trace
