import GuestExec.Activation
import GuestExec.Trace.Program

/-!
# Running a trace program

The tracer executes operations one at a time and traps as the hardware would: a
data access goes through the TLB alone, so a page that is not in it, or not
writable, or guarded, faults and the fault policy decides. With strict alignment
a misaligned access faults before it is made.

Between any two instructions lies a safe point, where queued requests are
carried out, a request to stop is obeyed, and the thread's lock is waited for.

An operation is looked up once and then remembered, so a patch of the program
shows only after a request to forget the code it covers.
-/

namespace GuestExec.Trace

/-- What one attempt at an instruction came to. -/
inductive Attempt where
  | completed
  /-- A fault was mended; the instruction runs again. -/
  | retry
  /-- The run ends; `executed` says whether the instruction counts as executed. -/
  | halt (reason : HaltReason) (executed : Bool)
deriving DecidableEq, Repr

def Attempt.ofFault : FaultOutcome → Attempt
  | .retry => .retry
  | .emulated | .redirected => .completed
  | .halt reason => .halt reason false

/-- A core's tracer. -/
structure Tracer where
  /-- Which program it runs. -/
  program : Nat
  /-- Operations looked up so far, by address. -/
  decoded : AddressTable Op
  /-- Misaligned data accesses fault. -/
  strictAlignment : Bool
  /-- Instructions executed so far, counted without a bound. -/
  retired : Nat
deriving Inhabited

namespace Tracer

def new (program : Nat) (strictAlignment : Bool) : Tracer :=
  { program, decoded := .empty, strictAlignment, retired := 0 }

/-- Forgets the operations that the request covers. -/
def forget (t : Tracer) (request : Invalidation) : Tracer :=
  { t with decoded := t.decoded.filter fun pc _ => !request.covers ⟨UInt64.ofNat pc⟩ }

/-- Carries out requests, the oldest first. -/
def forgetAll (t : Tracer) (requests : List Invalidation) : Tracer :=
  requests.foldl forget t

/-- The operation at `pc`: the one remembered, else the program's, which is then remembered. -/
def fetch (t : Tracer) (program : Program) (pc : GuestAddr) : Op × Tracer :=
  match t.decoded.get? pc.toNat with
  | some op => (op, t)
  | none =>
    let op := program.opAt pc
    (op, { t with decoded := t.decoded.insert pc.toNat op })

def retire (t : Tracer) : Tracer := { t with retired := t.retired + 1 }

/-- An access of `size` bytes at `addr` faults for its alignment. -/
def alignmentFaults (t : Tracer) (size : UInt8) (addr : GuestAddr) : Bool :=
  t.strictAlignment && !addr.isAligned size.toUInt64

end Tracer

/-- Hands a trap to the fault policy. -/
def trap (owner : UInt64) (a : Activation) (kind : FaultKind) (info : FaultInfo) :
    Attempt × Activation :=
  let (outcome, a) := a.dispatchFault owner kind info
  (.ofFault outcome, a)

/-- The same processor with the access unit `mmu`. -/
def withMmu (a : Activation) (mmu : Mmu) : Activation :=
  { a with cpu := { a.cpu with mmu } }

/-- The fault of a data access that the TLB could not serve. -/
def missFault (owner : UInt64) (a : Activation) (addr : GuestAddr) (len : Nat) (access : Access) :
    Attempt × Activation :=
  let (miss, mmu) := a.cpu.mmu.firstCachedMiss addr len access
  trap owner (withMmu a mmu) .access { address := miss, access }

/-- Register `rt` takes the `size` bytes at `addr`. -/
def load (t : Tracer) (owner : UInt64) (a : Activation) (addr : GuestAddr) (rt size : UInt8)
    (signed : Bool) : Attempt × Activation :=
  if t.alignmentFaults size addr then
    let syndrome := Syndrome.alignment size.toUInt64 signed rt false
    trap owner a .alignment { address := addr, access := .read, syndrome := some syndrome.word }
  else
    let len := min size.toNat 8
    match a.cpu.mmu.read .cached addr len with
    | (none, mmu) => missFault owner (withMmu a mmu) addr len .read
    | (some bytes, mmu) =>
      let a := withMmu a mmu
      let regs := a.cpu.regs.setReg rt.toNat (loadWord signed bytes)
      (.completed, a.setRegs { regs with pc := regs.pc + 4 })

/-- The low `size` bytes of register `rt` go to `addr`. -/
def store (t : Tracer) (owner : UInt64) (a : Activation) (addr : GuestAddr) (rt size : UInt8) :
    Attempt × Activation :=
  if t.alignmentFaults size addr then
    let syndrome := Syndrome.alignment size.toUInt64 false rt true
    trap owner a .alignment { address := addr, access := .write, syndrome := some syndrome.word }
  else
    let len := min size.toNat 8
    match a.cpu.mmu.write .cached addr (storeBytes len (a.cpu.regs.reg rt.toNat)) with
    | (false, mmu) => missFault owner (withMmu a mmu) addr len .write
    | (true, mmu) =>
      let a := withMmu a mmu
      (.completed, a.setRegs { a.cpu.regs with pc := a.cpu.regs.pc + 4 })

/-- The instruction at `pc` can be fetched. -/
def fetchable (m : MemoryMap) (pc : GuestAddr) : Bool :=
  (m.translate pc).any (·.perms.execute) && m.isHostAccessible pc 4 .execute

/-- Executes `op`, fetched from the current `pc`. -/
def perform (t : Tracer) (owner : UInt64) (a : Activation) (op : Op) : Attempt × Activation :=
  let regs := a.cpu.regs
  let pc := regs.pc
  let read := fun (i : UInt8) => regs.reg i.toNat
  let write := fun (i : UInt8) (value : UInt64) =>
    (Attempt.completed, a.setRegs { regs.setReg i.toNat value with pc := pc + 4 })
  let jump := fun (target : UInt64) => (Attempt.completed, a.setRegs { regs with pc := target })
  match op with
  | .nop => jump (pc + 4)
  | .mov rd imm => write rd imm
  | .addImm rd rn imm => write rd (read rn + imm)
  | .subImm rd rn imm => write rd (read rn - imm)
  | .add rd rn rm => write rd (read rn + read rm)
  | .load rt rn offset size signed =>
    load t owner a ⟨read rn + offset.toUInt64⟩ rt size signed
  | .store rt rn offset size => store t owner a ⟨read rn + offset.toUInt64⟩ rt size
  | .cbnz rt offset => jump (if read rt ≠ 0 then pc + offset.toUInt64 else pc + 4)
  | .b offset => jump (pc + offset.toUInt64)
  | .svc imm =>
    (.halt .supervisorCall true, a.setRegs { regs with svc := imm.toUInt32, pc := pc + 4 })
  | .brk imm =>
    (.halt .instructionBreakpoint false,
      a.setRegs { regs with esr := (Syndrome.ofClass Syndrome.breakpointClass imm.toUInt64).word })
  | .undefined word =>
    trap owner a .undefinedInstruction
      { address := ⟨pc⟩, access := .execute, syndrome := some word.toUInt64 }

/-- Makes one attempt at the instruction at `pc`. -/
def executeOne (program : Program) (owner : UInt64) (t : Tracer) (a : Activation) :
    Attempt × Tracer × Activation :=
  let pc : GuestAddr := ⟨a.cpu.regs.pc⟩
  if fetchable a.cpu.mmu.memory pc then
    let (op, t) := t.fetch program pc
    let (attempt, a) := perform t owner a op
    (attempt, t, a)
  else
    let (attempt, a) := trap owner a .access { address := pc, access := .execute }
    (attempt, t, a)

/-- What one round of the run loop came to: the run goes on, or ended. -/
inductive Round where
  | continues
  | ended (reason : HaltReason)
deriving DecidableEq, Repr

/-- One round: a safe point, then an attempt at one instruction. -/
def round (program : Program) (mode : RunMode) (t : Tracer) (a : Activation) :
    Round × Tracer × Activation :=
  let (requests, a) := a.drain
  let t := t.forgetAll requests
  let (interrupted, a) := a.takeInterrupt
  if interrupted then (.ended .breakLoop, t, a)
  else
    let a := a.waitUnlocked mode.owner
    match executeOne program mode.owner t a with
    | (.completed, t, a) =>
      (if mode.step then .ended .stepThread else .continues, t.retire, a)
    | (.retry, t, a) => (.continues, t, a)
    | (.halt reason true, t, a) =>
      (.ended (if mode.step then reason ||| .stepThread else reason), t.retire, a)
    | (.halt reason false, t, a) => (.ended reason, t, a)

/-- Runs until the run ends, for at most `rounds` rounds. -/
def run (program : Program) (mode : RunMode) :
    (rounds : Nat) → Tracer → Activation → Option (HaltReason × Tracer × Activation)
  | 0, _, _ => none
  | rounds + 1, t, a =>
    match round program mode t a with
    | (.ended reason, t, a) => some (reason, t, a)
    | (.continues, t, a) => run program mode rounds t a

end GuestExec.Trace
