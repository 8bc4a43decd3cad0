import GuestExec.Activation
import GuestExec.Native.Frame
import GuestExec.Native.Patch

/-!
# Trap handlers of a native run

The guest's instructions run on the host's own processor; the host sees the
guest only in signal handlers. `onEnter` loads the guest into the frame it is
called with, `onFault` and `onInterrupt` save the frame, decide, and either load
the guest again or land on the host, which ends the run: the frame then leads to
the host's own code and holds the guest no more. A signal that comes at another
time is not the session's, and is passed on to whoever handled it before.
-/

namespace GuestExec.Native

/-- Signals that a native run uses. -/
inductive HostSignal where
  | illegal
  | trap
  | bus
  | segv
  /-- Loads the guest. -/
  | enter
  /-- Stops the guest. -/
  | interrupt
deriving DecidableEq, Repr, Inhabited

namespace HostSignal

def number : HostSignal → Int
  | illegal => 4
  | trap => 5
  | bus => 7
  | segv => 11
  | enter => 12
  | interrupt => 23

def all : List HostSignal := [illegal, trap, bus, segv, enter, interrupt]

def ofNumber? (n : Int) : Option HostSignal := all.find? fun s => s.number == n

/-- Faults of the guest's instructions. -/
def isFault : HostSignal → Bool
  | enter | interrupt => false
  | _ => true

end HostSignal

/-- A bus error of this code is a misaligned access. -/
def misalignedCode : Int := 1

/-- A native run under way. -/
structure Session where
  activation : Activation
  /-- Step breakpoints of all runs. -/
  sites : SiteTable
  /-- The processor's thread pointer. -/
  threadPointer : UInt64
  /-- The host's own thread pointer. -/
  hostThreadPointer : UInt64
  /-- The guest is in the processor. -/
  inGuest : Bool
  /-- Breakpoints of this run, if it steps. -/
  patch : Option StepPatch
  /-- Where the host goes on after the run. -/
  returnAddress : UInt64 := 0
  /-- Where the session itself lies. -/
  address : UInt64 := 0

/-- Where a handler leads. -/
inductive Landing where
  /-- Back to what the signal interrupted. -/
  | guest
  | host (reason : HaltReason)
deriving DecidableEq, Repr

namespace Session

def memory (s : Session) : MemoryMap := s.activation.cpu.mmu.memory

def regs (s : Session) : Registers := s.activation.cpu.regs

def setRegs (s : Session) (regs : Registers) : Session :=
  { s with activation := s.activation.setRegs regs }

def setMemory (s : Session) (memory : MemoryMap) : Session :=
  { s with activation := { s.activation with cpu := { s.activation.cpu with
      mmu := { s.activation.cpu.mmu with memory } } } }

/-- Takes the step's breakpoints away. -/
def disarm (s : Session) : Session :=
  match s.patch with
  | none => s
  | some patch =>
    let (sites, memory) := patch.disarm s.sites s.memory
    { s.setMemory memory with sites, patch := none }

/-- The frame that leads to the host, which is handed the session. -/
def toHost (s : Session) (v : FrameView) : FrameView :=
  (v.setPc s.returnAddress).setReg 0 s.address

/-- Ends the run: the guest's code is as it was, and the host goes on. -/
def exit (s : Session) (v : FrameView) (reason : HaltReason) : Landing × FrameView × Session :=
  (.host reason, s.toHost v, { s.disarm with inGuest := false })

/-- The handler returns to the guest, loaded into the frame again. -/
def resume (s : Session) (v : FrameView) : FrameView × Session :=
  (v.loadFrom s.regs, { s with threadPointer := s.regs.tpidr })

/-- Saves the frame and the thread pointer as the guest's registers; the host's pointer is back. -/
def save (s : Session) (v : FrameView) : Session :=
  { s.setRegs { v.saveTo s.regs with tpidr := s.threadPointer } with
    threadPointer := s.hostThreadPointer }

/-- Loads the guest, unless a request to stop is waiting or the step has nothing to run. While
the guest is in the processor the signal means nothing. -/
def onEnter (s : Session) (step : Bool) (v : FrameView) : Landing × FrameView × Session :=
  if s.inGuest then (.guest, v, s)
  else
    let (interrupted, activation) := s.activation.takeInterrupt
    let s := { s with activation }
    if interrupted then s.exit v .breakLoop
    else
      let load := fun (s : Session) =>
        let (v, s) := s.resume v
        (Landing.guest, v,
          { s with inGuest := true, activation := { s.activation with state := .running } })
      if step then
        match StepPatch.arm s.sites s.memory s.regs with
        | (.selfLoop, sites, memory) => { s.setMemory memory with sites }.exit v .stepThread
        | (.patched patch, sites, memory) =>
          load { s.setMemory memory with sites, patch := some patch }
      else load s

/-- Where the outcome of a fault leads. -/
def afterFault (step : Bool) : FaultOutcome → Landing
  | .halt reason => .host reason
  | outcome => if step && outcome.completesInstruction then .host .stepThread else .guest

/-- Hands a fault to the policy. -/
def dispatch (s : Session) (mode : RunMode) (kind : FaultKind) (info : FaultInfo) :
    Landing × Session :=
  let (outcome, activation) := s.activation.dispatchFault mode.owner kind info
  (afterFault mode.step outcome, { s with activation })

/-- A trap instruction at the guest's `pc`: the end of a step, another run's breakpoint, a
supervisor call, the guest's own breakpoint, or none of these. -/
def onTrap (s : Session) (mode : RunMode) : Landing × Session :=
  let regs := s.regs
  let pc := regs.pc
  if s.patch.any (·.hits pc) then (.host .stepThread, s)
  else
    let word := codeWord s.memory ⟨pc⟩
    match brkImm? word with
    | none =>
      s.dispatch mode .unknown
        { address := ⟨pc⟩, access := .execute, syndrome := some word.toUInt64 }
    | some imm =>
      if imm = stepImm && s.sites.contains ⟨pc⟩ then (.guest, s)
      else if imm &&& ~~~svcMask = svcTag then
        let reason := HaltReason.supervisorCall
        (.host (if mode.step then reason ||| .stepThread else reason),
          s.setRegs { regs with svc := (imm &&& svcMask).toUInt32, pc := pc + 4 })
      else
        (.host .instructionBreakpoint,
          s.setRegs
            { regs with esr := (Syndrome.ofClass Syndrome.breakpointClass imm.toUInt64).word })

/-- What a fault signal reports. Without a syndrome, a fault at `pc` itself is a fetch. -/
def classify (s : Session) (signal : HostSignal) (code : Int) (v : FrameView) :
    FaultKind × FaultInfo :=
  let pc : GuestAddr := ⟨v.frame.pc⟩
  if signal = .illegal then
    let word := codeWord s.memory ⟨pc.word⟩
    (.undefinedInstruction, { address := pc, access := .execute, syndrome := some word.toUInt64 })
  else
    let address : GuestAddr := ⟨v.frame.faultAddress⟩
    let syndrome := v.records.syndrome
    let access := match syndrome.map Syndrome.mk with
      | some s =>
        if s.isInstructionAbort then .execute else if s.isWrite then .write else .read
      | none => if address = pc then .execute else .read
    let kind :=
      if signal = .bus && code == misalignedCode then FaultKind.alignment else FaultKind.access
    (kind, { address, access, syndrome })

/-- A fault of the guest's instructions. -/
def onFault (s : Session) (mode : RunMode) (signal : HostSignal) (code : Int) (v : FrameView) :
    Landing × FrameView × Session :=
  if s.inGuest then
    let s := s.save v
    let (landing, s) :=
      if signal = .trap then s.onTrap mode
      else
        let (kind, info) := s.classify signal code v
        s.dispatch mode kind info
    match landing with
    | .guest =>
      let (v, s) := s.resume v
      (.guest, v, s)
    | .host reason => s.exit v reason
  else (.guest, v, s)

/-- Stops the guest if it was asked to stop. Outside of the guest the request is left to wait. -/
def onInterrupt (s : Session) (v : FrameView) : Landing × FrameView × Session :=
  if s.inGuest then
    let (interrupted, activation) := s.activation.takeInterrupt
    let s := { s with activation }
    if interrupted then (s.save v).exit v .breakLoop else (.guest, v, s)
  else (.guest, v, s)

/-- The handler of `signal`. -/
def deliver (s : Session) (mode : RunMode) (signal : HostSignal) (code : Int) (v : FrameView) :
    Landing × FrameView × Session :=
  match signal with
  | .enter => s.onEnter mode.step v
  | .interrupt => s.onInterrupt v
  | signal => s.onFault mode signal code v

end Session

end GuestExec.Native
