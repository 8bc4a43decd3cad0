import GuestExec.Fault.Basic
import GuestExec.Mmu
import GuestExec.Registers
import GuestExec.Word.Bytes

/-!
# How faults are handled

`Vcpu.handle` decides what follows a trap. A misaligned access with a valid
syndrome is made in software; if a page is in the way, that page is mended once.
An access that its region allows is mended and retried; one that it does not
allow goes to the guest as an exception, or ends the run if the guest has no
vector. Everything else is fatal.
-/

namespace GuestExec

/-- A virtual processor: the guest's registers, its way to memory, and the
books on its faults. -/
structure Vcpu where
  regs : Registers
  mmu : Mmu
  stats : FaultStats
  /-- The last fatal fault. -/
  record : Option FaultRecord
deriving Inhabited

namespace Vcpu

/-- Offset in the guest's vector of the entry for a synchronous exception. -/
def syncVectorOffset : UInt64 := 0x400

/-- The syndrome of an access that can be made in software. -/
def emulable (info : FaultInfo) : Option Syndrome :=
  (info.syndrome.map Syndrome.mk).filter fun s => s.isDataAbort && s.isValid

/-- Ends the run and keeps the place of the fault. -/
def onUnrecoverable (c : Vcpu) (kind : FaultKind) (info : FaultInfo) : FaultOutcome × Vcpu :=
  (.halt .fatalError,
    { c with
      record := some { kind, pc := c.regs.pc, sp := c.regs.sp, info }
      stats := { c.stats with fatal := c.stats.fatal + 1 } })

/-- Hands the fault to the guest, or ends the run if it has no vector. -/
def deliver (c : Vcpu) (info : FaultInfo) (status : UInt64) : FaultOutcome × Vcpu :=
  let (cls, halt) := match info.access with
    | .execute => (Syndrome.instructionAbortLower, HaltReason.prefetchAbort)
    | _ => (Syndrome.dataAbortLower, HaltReason.dataAbort)
  let direction := if info.access.isWrite then Syndrome.writeBit else 0
  let regs := { c.regs with
    esr := (Syndrome.ofClass cls (status ||| direction)).word
    far := info.address.word }
  if regs.vbar = 0 then
    (.halt halt,
      { c with regs, stats := { c.stats with abortsHalted := c.stats.abortsHalted + 1 } })
  else
    (.redirected,
      { c with
        regs := { regs with
          elr := regs.pc
          spsr := regs.pstate.toUInt64
          pc := regs.vbar + syncVectorOffset }
        stats := { c.stats with exceptionsDelivered := c.stats.exceptionsDelivered + 1 } })

/-- Mends the page of an allowed access and fills the TLB, or hands the fault to the guest. -/
def onAccess (c : Vcpu) (info : FaultInfo) : FaultOutcome × Vcpu :=
  let memory := c.mmu.memory
  match memory.translate info.address with
  | none => c.deliver info Syndrome.translationFault
  | some mapping =>
    if !mapping.perms.allows info.access then c.deliver info Syndrome.permissionFault
    else
      let (mended, memory) := memory.resolveFault info.address info.access
      let c := { c with mmu := { c.mmu with memory } }
      if mended || memory.isHostAccessible info.address 1 info.access then
        (.retry,
          { c with
            mmu := c.mmu.fill info.address mapping
            stats := { c.stats with accessRetried := c.stats.accessRetried + 1 } })
      else c.onUnrecoverable .access info

/-- The value that a load of the bytes `bytes` puts into its register. -/
def loadedValue (s : Syndrome) (bytes : List UInt8) : UInt64 :=
  let value := loadWord s.signExtends bytes
  if s.sixtyFour then value else value &&& 0xffffffff

/-- The access succeeded in software: the next instruction is due. -/
def advance (c : Vcpu) (regs : Registers) : FaultOutcome × Vcpu :=
  (.emulated,
    { c with
      regs := { regs with pc := regs.pc + 4 }
      stats := { c.stats with alignmentEmulated := c.stats.alignmentEmulated + 1 } })

/-- Makes a misaligned access in software; no outcome if the syndrome does not
describe it or the access fails. -/
def onAlignment (c : Vcpu) (info : FaultInfo) : Option FaultOutcome × Vcpu :=
  match emulable info with
  | none => (none, c)
  | some s =>
    let size := s.accessSize
    if s.isWrite then
      let data := storeBytes size (c.regs.reg s.register)
      let (done, mmu) := c.mmu.write .walk info.address data
      let c := { c with mmu }
      if done then
        let (outcome, c) := c.advance c.regs
        (some outcome, c)
      else (none, c)
    else
      let (bytes, mmu) := c.mmu.read .walk info.address size
      let c := { c with mmu }
      match bytes with
      | none => (none, c)
      | some bytes =>
        let (outcome, c) := c.advance (c.regs.setReg s.register (loadedValue s bytes))
        (some outcome, c)

/-- A software access failed: mends the first page in its way and tries once
more. It never asks for a retry, which would trap in the same place for ever. -/
def onStraddling (c : Vcpu) (info : FaultInfo) (s : Syndrome) : FaultOutcome × Vcpu :=
  let access := if s.isWrite then Access.write else Access.read
  let (miss, mmu) := c.mmu.firstWalkMiss info.address s.accessSize access
  let c := { c with mmu }
  match miss with
  | none => c.onUnrecoverable .alignment info
  | some miss =>
    match c.onAccess { info with address := miss, access } with
    | (.retry, c) =>
      match c.onAlignment info with
      | (some outcome, c) => (outcome, c)
      | (none, c) => c.onUnrecoverable .alignment info
    | (outcome, c) => (outcome, c)

/-- Decides what follows a trap. -/
def handle (c : Vcpu) (kind : FaultKind) (info : FaultInfo) : FaultOutcome × Vcpu :=
  match kind with
  | .alignment =>
    match c.onAlignment info with
    | (some outcome, c) => (outcome, c)
    | (none, c) =>
      match emulable info with
      | some s => c.onStraddling info s
      | none =>
        match c.onAccess info with
        -- The access is legal but cannot be made in software: a retry would only trap again.
        | (.retry, c) => c.onUnrecoverable .alignment info
        | (outcome, c) => (outcome, c)
  | .access => c.onAccess info
  | _ => c.onUnrecoverable kind info

end Vcpu

end GuestExec
