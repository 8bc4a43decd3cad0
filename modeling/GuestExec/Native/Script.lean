import GuestExec.Core
import GuestExec.Native.Host
import GuestExec.Native.Session
import GuestExec.RegisterEdit

/-!
# Scripted native runs

What guest code does to a core is a sequence of traps. A `Script` gives that
sequence, and what the host does meanwhile; `run` calls the handlers accordingly.
When the script ends and the guest still runs, the host stops it.
-/

namespace GuestExec.Native

/-- What the host does before a handler is called. -/
inductive HostAction where
  /-- Asks the thread to stop. -/
  | interrupt
  /-- Asks the core to forget code. -/
  | invalidate (request : Invalidation)
  /-- Lets this many more cores enter, each inside the one before, and lose their enter signals. -/
  | crowd (cores : Nat)
deriving DecidableEq, Repr

/-- One signal that the guest runs into. -/
structure Trap where
  actions : List HostAction
  /-- Registers that the guest has changed since it was loaded. -/
  edit : RegisterEdit
  /-- The thread pointer, if the guest has changed it. -/
  threadPointer : Option UInt64
  faultAddress : UInt64
  syndrome : Option UInt64
  signal : HostSignal
  code : Int
  /-- Another run steps the instruction here while the handler runs. -/
  otherStep : Option UInt64

/-- What happens during a run. -/
structure Script where
  /-- Before the guest is loaded. -/
  enter : List HostAction
  /-- The enter signal never arrives. -/
  lost : Bool
  /-- Frames have no floating-point state. -/
  withoutFp : Bool
  traps : List Trap
  /-- Guest memory to look at after every handler call. -/
  peek : Option GuestAddr
  /-- Where the host goes on after the run, and where it keeps the session. -/
  returnAddress : UInt64 := 0x400000
  sessionAddress : UInt64 := 0x7fff0000

/-- What shows after a handler call. -/
structure TrailItem where
  landing : Landing
  threadPointer : UInt64
  state : CoreState
  /-- A request to stop is waiting. -/
  pending : Bool
  /-- The registers in the frame. -/
  frame : Registers
  peeked : Option (Except MemoryError (List UInt8))

/-- Bytes that a look at guest memory shows. -/
def peekLength : Nat := 32

/-- The backend of a native core. -/
structure NativeBackend where
  /-- Bytes of the signal stack that the core wants. -/
  signalStackSize : UInt64
deriving DecidableEq, Repr, Inhabited

/-- Native code is not remembered: the processor's caches are told when code changes. -/
instance : CodeCache NativeBackend := ⟨fun b _ => b⟩

/-- What native cores of one process share. -/
structure NativeHost where
  sites : SiteTable := {}
  /-- The host thread's signal stack, once installed. -/
  stack : Option SignalStack := none
  /-- Runs under way. -/
  sessions : Nat := 0
deriving DecidableEq, Repr, Inhabited

/-- So many runs can be under way at a time. -/
def maxSessions : Nat := 64

/-- The host's thread pointer. -/
def hostThreadPointer : UInt64 := 0x77770000

/-- Prepares the host thread: its signal stack is installed once and stays. -/
def NativeHost.prepare (h : NativeHost) (b : NativeBackend) : Except PlatformError NativeHost :=
  match h.stack with
  | some _ => .ok h
  | none =>
    match SignalStack.install b.signalStackSize.toNat 0 false with
    | .error e => .error e
    | .ok stack => .ok { h with stack := some stack }

/-- Reports of cores that enter one inside another, `sessions` runs being under way: the innermost
first, and no further in than there is room. Core `100 + n` runs thread `n`. -/
def crowdNotices (sessions : Nat) : (cores : Nat) → List Notice
  | 0 => []
  | n + 1 =>
    let inner :=
      if sessions < maxSessions then crowdNotices (sessions + 1) n else [Notice.tooManyRuns]
    inner ++ [.fatalHalt (100 + (n + 1)) (UInt64.ofNat (n + 1))]

/-- Does what a script says about the host. -/
def performAction (sessions : Nat) (s : Session) : HostAction → List Notice × Session
  | .interrupt =>
    ([], { s with activation := { s.activation with
      params := s.activation.params.requestInterrupt } })
  | .invalidate request =>
    ([], { s with activation := { s.activation with queue := s.activation.queue.push request } })
  | .crowd 0 => ([], s)
  | .crowd cores =>
    -- A core that leaves puts the host's thread pointer back.
    (crowdNotices sessions cores, { s with threadPointer := s.hostThreadPointer })

def performActions (sessions : Nat) (s : Session) (actions : List HostAction) :
    List Notice × Session :=
  actions.foldl
    (fun (notices, s) action =>
      let (more, s) := performAction sessions s action
      (notices ++ more, s))
    ([], s)

/-! ## Frames -/

/-- A frame of zeros, with a record of floating-point state unless `withoutFp`. -/
def SignalFrame.blank (withoutFp : Bool) : SignalFrame :=
  let area := ReservedArea.zeros
  { faultAddress := 0, x := Vector.replicate 31 0, sp := 0, pc := 0, pstate := 0
    reserved :=
      if withoutFp then area
      else ReservedArea.setNumber (ReservedArea.setNumber area 0 4 fpMagic) 4 4 fpRecordSize }

/-- The frame with a syndrome record after its floating-point state, or without one. -/
def SignalFrame.setSyndrome (f : SignalFrame) (withoutFp : Bool) (syndrome : Option UInt64) :
    SignalFrame :=
  let start := if withoutFp then 0 else fpRecordSize
  let (magic, size, word) := match syndrome with
    | none => (0, 0, 0)
    | some word => (esrMagic, esrRecordSize, word.toNat)
  let area := ReservedArea.setNumber f.reserved start 4 magic
  let area := ReservedArea.setNumber area (start + 4) 4 size
  { f with reserved := ReservedArea.setNumber area (start + 8) 8 word }

/-- The frame with the registers that an edit names replaced; those a frame does not hold are passed
over. -/
def FrameView.edit (v : FrameView) (e : RegisterEdit) : FrameView :=
  let v := e.x.foldl (fun v (i, value) => v.setReg i value) v
  let v := e.v.foldl (fun v (i, value) => v.setVector i value) v
  let v := (e.sp.map v.setSp).getD v
  let v := (e.pc.map v.setPc).getD v
  let v := (e.pstate.map fun p => v.setPstate p.toUInt64).getD v
  let v := (e.fpcr.map v.setFpcr).getD v
  (e.fpsr.map v.setFpsr).getD v

/-! ## Runs -/

/-- What shows of the session after a handler call. -/
def trailItem (peek : Option GuestAddr) (landing : Landing) (v : FrameView) (s : Session) :
    TrailItem :=
  { landing, threadPointer := s.threadPointer, state := s.activation.state
    pending := s.activation.params.interrupt
    frame := v.saveTo .zero
    peeked := peek.map fun addr => s.memory.read addr peekLength }

/-- Another run places its breakpoints for a step of the instruction at `pc`. -/
def armOther (s : Session) (pc : UInt64) : StepPatch × Session :=
  match StepPatch.arm s.sites s.memory { Registers.zero with pc } with
  | (.selfLoop, sites, memory) => (⟨[]⟩, { s.setMemory memory with sites })
  | (.patched patch, sites, memory) => (patch, { s.setMemory memory with sites })

/-- The other run is gone. -/
def disarmOther (s : Session) (patch : StepPatch) : Session :=
  let (sites, memory) := patch.disarm s.sites s.memory
  { s.setMemory memory with sites }

/-- The handler of one trap. -/
def deliverTrap (script : Script) (mode : RunMode) (sessions : Nat) (frame : SignalFrame)
    (s : Session) (t : Trap) : List Notice × TrailItem × SignalFrame × Session :=
  let (notices, s) := performActions sessions s t.actions
  let frame := { frame with faultAddress := t.faultAddress }
  let v := (FrameView.ofFrame (frame.setSyndrome script.withoutFp t.syndrome)).edit t.edit
  let s := { s with threadPointer := t.threadPointer.getD s.threadPointer }
  let (other, s) := match t.otherStep with
    | none => (({ breakpoints := [] } : StepPatch), s)
    | some pc => armOther s pc
  let (landing, v, s) := s.deliver mode t.signal t.code v
  (notices, trailItem script.peek landing v s, v.frame, disarmOther s other)

/-- Delivers traps until the run lands on the host. -/
def deliverTraps (script : Script) (mode : RunMode) (sessions : Nat) (frame : SignalFrame)
    (s : Session) : List Trap → HaltReason × List Notice × List TrailItem × Session
  | [] =>
    let s := (performAction sessions s .interrupt).2
    let v := FrameView.ofFrame (frame.setSyndrome script.withoutFp none)
    let (landing, v, s) := s.onInterrupt v
    let item := trailItem script.peek landing v s
    match landing with
    | .host reason => (reason, [], [item], s)
    | .guest => (.breakLoop, [], [item], s)
  | t :: rest =>
    let (notices, item, frame, s) := deliverTrap script mode sessions frame s t
    match item.landing with
    | .host reason => (reason, notices, [item], s)
    | .guest =>
      let (reason, more, trail, s) := deliverTraps script mode sessions frame s rest
      (reason, notices ++ more, item :: trail, s)

/-- From the enter signal to the end of the run. -/
def runSession (script : Script) (mode : RunMode) (sessions : Nat) (s : Session) :
    HaltReason × List Notice × List TrailItem × Session :=
  let (notices, s) := performActions sessions s script.enter
  if script.lost then (.fatalError, notices, [], s)
  else
    let v := FrameView.ofFrame (.blank script.withoutFp)
    let (landing, v, s) := s.onEnter mode.step v
    let item := trailItem script.peek landing v s
    match landing with
    | .host reason => (reason, notices, [item], s)
    | .guest =>
      let (reason, more, trail, s) := deliverTraps script mode sessions v.frame s script.traps
      (reason, notices ++ more, item :: trail, s)

/-- A session before its first handler: the host is in the processor. -/
def startSession (script : Script) (a : Activation) (sites : SiteTable) : Session :=
  { activation := a, sites, threadPointer := hostThreadPointer, hostThreadPointer
    inGuest := false, patch := none
    returnAddress := script.returnAddress, address := script.sessionAddress }

/-- What a native backend's part of a run leaves behind. -/
structure Switched where
  reason : HaltReason
  host : NativeHost
  activation : Activation
  trail : List TrailItem
  notices : List Notice

/-- The native backend's part of a run. -/
def switch (h : NativeHost) (b : NativeBackend) (script : Script) (mode : RunMode)
    (a : Activation) : Switched :=
  match h.prepare b with
  | .error e =>
    { reason := .fatalError, host := h, activation := a, trail := [], notices := [.setupFailed e] }
  | .ok h =>
    let (_, a) := a.drain
    let (interrupted, a) := a.takeInterrupt
    if interrupted then
      { reason := .breakLoop, host := h, activation := a, trail := [], notices := [] }
    else
      let a := a.waitUnlocked mode.owner
      if h.sessions < maxSessions then
        let s := startSession script a h.sites
        let (reason, notices, trail, s) := runSession script mode (h.sessions + 1) s
        { reason, host := { h with sites := s.sites }, activation := s.activation, trail, notices }
      else
        { reason := .fatalError, host := h, activation := a, trail := []
          notices := [.tooManyRuns] }

/-! ## Native cores -/

/-- A core that runs guest code on the host's processor. -/
abbrev NativeCore := Core NativeBackend

namespace NativeCore

def new (index : Nat) (config : CoreConfig) : Except VmError NativeCore :=
  Core.new index config { signalStackSize := config.signalStackSize }

/-- Prepares the calling host thread for the core and binds it to the core's CPU. -/
def prepare (c : NativeCore) (h : NativeHost) : Except VmError Unit × NativeHost :=
  match h.prepare c.backend with
  | .error e => (.error (.platform e), h)
  | .ok h =>
    match c.config.hostCpu with
    | none => (.ok (), h)
    | some cpu => ((pinThread cpu.toNat).mapError .platform, h)

/-- Runs or steps a thread. A thread that runs elsewhere stays as it is. -/
def execute (c : NativeCore) (h : NativeHost) (memory : MemoryMap) (ref : ThreadRef)
    (thread : GuestThread) (mode : RunMode) (script : Script) :
    HaltReason × List TrailItem × NativeHost × Core.Left NativeBackend :=
  match c.enter memory ref thread mode.owner ownTid with
  | none => (.breakLoop, [], h, { core := c, thread, memory, notices := [c.refusal thread] })
  | some entered =>
    if entered.interrupted then
      (.breakLoop, [], h, c.leave ref entered entered.activation c.backend .breakLoop)
    else
      let r := switch h c.backend script mode entered.activation
      let left := c.leave ref entered r.activation c.backend r.reason
      (r.reason, r.trail, r.host, { left with notices := r.notices ++ left.notices })

/-- Asks the thread to stop; if it runs, its host thread gets a signal. -/
def interrupt (c : NativeCore) (thread : GuestThread) : GuestThread × List Notice :=
  let params := thread.params.requestInterrupt
  let thread := { thread with params }
  if params.running && params.hostTid ≠ 0 then
    match signalThread params.hostTid with
    | .ok () => (thread, [])
    | .error e => (thread, [.interruptFailed c.index thread.id e])
  else (thread, [])

end NativeCore

end GuestExec.Native
