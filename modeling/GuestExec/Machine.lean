import GuestExec.Native.Script
import GuestExec.Roster
import GuestExec.Trace.Run

/-!
# Cores that share a memory map

A `Machine` is one memory map with the threads, programs and cores that use it.
Whoever subscribes to the map hears of every change that makes translations
stale, in the order of subscription and after the change took effect: a core
forgets what it took from the range, an observer notes what it sees.
-/

namespace GuestExec

open Native (NativeCore NativeHost Script TrailItem)
open Trace (Program TraceCore)

inductive Subscriber where
  | observer (id : Nat)
  | traceCore (index : Nat)
  | nativeCore (index : Nat)
deriving DecidableEq, Repr

/-- What an observer notes of a change. -/
structure Event where
  observer : Nat
  change : MappingChange
  /-- What the address of the change was mapped to at that moment. -/
  seen : Option Mapping
deriving DecidableEq, Repr

def Event.mapped (e : Event) : Bool := e.seen.isSome

structure Machine where
  memory : MemoryMap := .empty
  /-- In the order of subscription. -/
  subscribers : List Subscriber := []
  programs : Roster Program := {}
  threads : Roster GuestThread := {}
  traceCores : Roster TraceCore := {}
  nativeCores : Roster NativeCore := {}
  nativeHost : NativeHost := {}
deriving Inhabited

namespace Machine

/-- The lock token of the host thread that makes all calls. -/
def owner : UInt64 := 1

/-! ## Changes of the map -/

/-- One subscriber hears of a change. -/
def hear (change : MappingChange) (m : Machine) : Subscriber → List Event × Machine
  | .observer id =>
    ([{ observer := id, change, seen := m.memory.translate change.addr }], m)
  | .traceCore i =>
    ([], { m with traceCores := m.traceCores.modify i (·.mappingChanged change.addr change.size) })
  | .nativeCore i =>
    ([], { m with
      nativeCores := m.nativeCores.modify i (·.mappingChanged change.addr change.size) })

/-- All subscribers hear of a change. -/
def announce (m : Machine) (change : MappingChange) : List Event × Machine :=
  m.subscribers.foldl
    (fun (events, m) subscriber =>
      let (more, m) := m.hear change subscriber
      (events ++ more, m))
    ([], m)

def map (m : Machine) (addr : GuestAddr) (size : UInt64) (perms : Perms) :
    Except MemoryError Machine :=
  (m.memory.map addr size perms).map fun memory => { m with memory }

def mapIdentity (m : Machine) (addr : GuestAddr) (size : UInt64) (perms : Perms) :
    Except MemoryError Machine :=
  (m.memory.mapIdentity addr size perms).map fun memory => { m with memory }

def unmap (m : Machine) (addr : GuestAddr) : Except MemoryError (List Event × Machine) :=
  (m.memory.unmap addr).map fun (change, memory) => { m with memory }.announce change

def protect (m : Machine) (addr : GuestAddr) (perms : Perms) :
    Except MemoryError (List Event × Machine) :=
  (m.memory.protect addr perms).map fun (change, memory) => { m with memory }.announce change

def remap (m : Machine) (addr : GuestAddr) :
    Except MemoryError (HostAddr × List Event × Machine) :=
  (m.memory.remap addr).map fun (host, change, memory) =>
    (host, { m with memory }.announce change)

/-! ## Subscribers -/

def subscribe (m : Machine) (s : Subscriber) : Machine :=
  { m with subscribers := m.subscribers ++ [s] }

/-- All observers with this id are gone. -/
def unobserve (m : Machine) (id : Nat) : Machine :=
  { m with subscribers := m.subscribers.filter (· != .observer id) }

/-- Adds a core for a program; a core with `plain` memory hears of no change. -/
def addTraceCore (m : Machine) (index program : Nat) (config : CoreConfig) (plain : Bool) :
    Except VmError (Nat × Machine) :=
  (TraceCore.new index config program).map fun core =>
    let (i, traceCores) := m.traceCores.add core
    let m := { m with traceCores }
    (i, if plain then m else m.subscribe (.traceCore i))

def dropTraceCore (m : Machine) (i : Nat) : Machine :=
  { m with
    traceCores := m.traceCores.drop i
    subscribers := m.subscribers.filter (· != .traceCore i) }

/-- Adds a native core; one with `plain` memory hears of no change. -/
def addNativeCore (m : Machine) (index : Nat) (config : CoreConfig) (plain : Bool) :
    Except VmError (Nat × Machine) :=
  (NativeCore.new index config).map fun core =>
    let (i, nativeCores) := m.nativeCores.add core
    let m := { m with nativeCores }
    (i, if plain then m else m.subscribe (.nativeCore i))

def dropNativeCore (m : Machine) (i : Nat) : Machine :=
  { m with
    nativeCores := m.nativeCores.drop i
    subscribers := m.subscribers.filter (· != .nativeCore i) }

/-! ## Runs -/

/-- The machine after a trace core's run. -/
def settleTrace (m : Machine) (core thread : Nat) (left : Core.Left Trace.Tracer) : Machine :=
  { m with
    memory := left.memory
    traceCores := m.traceCores.set core left.core
    threads := m.threads.set thread left.thread }

/-- Runs or steps a thread on a trace core for at most `rounds` rounds; nothing if they do not
suffice, or if there is no such core or thread. -/
def runTrace (m : Machine) (core thread : Nat) (step : Bool) (rounds : Nat) :
    Option (HaltReason × List Notice × Machine) := do
  let c ← m.traceCores.get? core
  let t ← m.threads.get? thread
  let program ← m.programs.get? c.backend.program
  let (reason, left) ←
    c.execute program m.memory thread t { step, owner } Native.ownTid rounds
  return (reason, left.notices, m.settleTrace core thread left)

/-- The machine after a native core's run. -/
def settleNative (m : Machine) (core thread : Nat) (nativeHost : NativeHost)
    (left : Core.Left Native.NativeBackend) : Machine :=
  { m with
    memory := left.memory
    nativeHost
    nativeCores := m.nativeCores.set core left.core
    threads := m.threads.set thread left.thread }

/-- Runs or steps a thread on a native core. -/
def runNative (m : Machine) (core thread : Nat) (step : Bool) (script : Script) :
    Option (HaltReason × List TrailItem × List Notice × Machine) := do
  let c ← m.nativeCores.get? core
  let t ← m.threads.get? thread
  let (reason, trail, host, left) :=
    c.execute m.nativeHost m.memory thread t { step, owner } script
  return (reason, trail, left.notices, m.settleNative core thread host left)

/-! ## Threads -/

def addThread (m : Machine) (id : UInt64) (regs : Registers) : Nat × Machine :=
  let (i, threads) := m.threads.add (.new id regs)
  (i, { m with threads })

def dropThread (m : Machine) (i : Nat) : Machine := { m with threads := m.threads.drop i }

/-- Does something with thread `i`. -/
def onThread {α : Type} (m : Machine) (i : Nat) (f : GuestThread → α × GuestThread) :
    Option (α × Machine) := do
  let (a, t) := f (← m.threads.get? i)
  return (a, { m with threads := m.threads.set i t })

/-- Overwrites a thread's stored registers; gives the generation. -/
def storeRegisters (m : Machine) (i : Nat) (regs : Registers) : Option (Nat × Machine) :=
  m.onThread i fun t =>
    let t := t.store regs
    (t.generation, t)

def claim (m : Machine) (i : Nat) : Option (Bool × Machine) :=
  m.onThread i fun t =>
    let (claimed, params) := t.params.claim
    (claimed, { t with params })

def setRunning (m : Machine) (i : Nat) (running : Bool) : Option (Unit × Machine) :=
  m.onThread i fun t => ((), { t with params := { t.params with running } })

def setHostTid (m : Machine) (i : Nat) (hostTid : Int32) : Option (Unit × Machine) :=
  m.onThread i fun t => ((), { t with params := { t.params with hostTid } })

/-- Asks a thread to stop; gives whether a request waits now. -/
def interrupt (m : Machine) (i : Nat) : Option (Bool × Machine) :=
  m.onThread i fun t =>
    let params := t.params.requestInterrupt
    (params.interrupt, { t with params })

/-- Holds a thread back; gives whether it is locked now. -/
def lock (m : Machine) (i : Nat) : Option (Bool × Machine) :=
  m.onThread i fun t =>
    let t := Core.lockThread t owner
    (t.params.lock.isLocked, t)

/-- Gives one level of a thread's lock back through a trace core; gives whether it is locked now. -/
def unlock (m : Machine) (core i : Nat) : Option (Bool × List Notice × Machine) := do
  let c ← m.traceCores.get? core
  let (t, notices) := c.unlockThread (← m.threads.get? i) owner
  return (t.params.lock.isLocked, notices, { m with threads := m.threads.set i t })

/-- Changes a thread's registers through a trace core; gives the generation. -/
def updateRegisters (m : Machine) (core thread : Nat) (f : Registers → Registers) :
    Option (Nat × Machine) := do
  let c ← m.traceCores.get? core
  let t ← m.threads.get? thread
  let (c, t) := c.updateRegisters thread t f
  return (t.generation,
    { m with traceCores := m.traceCores.set core c, threads := m.threads.set thread t })

/-- A thread's registers as a trace core sees them. -/
def getRegisters (m : Machine) (core thread : Nat) : Option (Registers × Machine) := do
  let c ← m.traceCores.get? core
  let t ← m.threads.get? thread
  let (regs, c) := c.getRegisters thread t
  return (regs, { m with traceCores := m.traceCores.set core c })

/-! ## What cores remember -/

/-- Does something with trace core `i`. -/
def onTraceCore {α : Type} (m : Machine) (i : Nat) (f : TraceCore → α × TraceCore) :
    Option (α × Machine) := do
  let (a, c) := f (← m.traceCores.get? i)
  return (a, { m with traceCores := m.traceCores.set i c })

def invalidateCode (m : Machine) (i : Nat) (request : Invalidation) : Option (Unit × Machine) :=
  m.onTraceCore i fun c => ((), c.invalidateCode request)

def invalidateTlb (m : Machine) (i : Nat) : Option (Unit × Machine) :=
  m.onTraceCore i fun c => ((), c.invalidateTlb)

/-- Queues requests to a busy core. -/
def queueBusy (m : Machine) (i : Nat) (requests : List Invalidation) : Option (Unit × Machine) :=
  m.onTraceCore i fun c => ((), requests.foldl Core.queueBusy c)

/-- Looks an address up in a core's TLB. -/
def lookupTlb (m : Machine) (i : Nat) (addr : GuestAddr) : Option (Option Tlb.Hit × Machine) :=
  m.onTraceCore i fun c =>
    let (hit, tlb) := c.tlb.lookup addr
    (hit, { c with tlb })

/-! ## Native cores -/

/-- Prepares the host thread for a native core. -/
def prepareNative (m : Machine) (i : Nat) : Option (Except VmError Unit × Machine) := do
  let c ← m.nativeCores.get? i
  let (r, nativeHost) := NativeCore.prepare c m.nativeHost
  return (r, { m with nativeHost })

/-- Does something with native core `i`. -/
def onNativeCore (m : Machine) (i : Nat) (f : NativeCore → NativeCore) :
    Option (Unit × Machine) := do
  let c := f (← m.nativeCores.get? i)
  return ((), { m with nativeCores := m.nativeCores.set i c })

def invalidateNative (m : Machine) (i : Nat) (request : Invalidation) : Option (Unit × Machine) :=
  m.onNativeCore i (·.invalidateCode request)

def invalidateNativeTlb (m : Machine) (i : Nat) : Option (Unit × Machine) :=
  m.onNativeCore i (·.invalidateTlb)

/-- Asks a thread to stop through a native core; gives whether a request waits now. -/
def interruptNative (m : Machine) (core i : Nat) : Option (Bool × List Notice × Machine) := do
  let c ← m.nativeCores.get? core
  let (t, notices) := NativeCore.interrupt c (← m.threads.get? i)
  return (t.params.interrupt, notices, { m with threads := m.threads.set i t })

/-! ## Programs -/

def addProgram (m : Machine) (p : Program) : Nat × Machine :=
  let (i, programs) := m.programs.add p
  (i, { m with programs })

/-- Replaces one operation of a program. -/
def patch (m : Machine) (i : Nat) (addr : GuestAddr) (op : Trace.Op) : Machine :=
  { m with programs := m.programs.modify i (·.patch addr op) }

end Machine

end GuestExec
