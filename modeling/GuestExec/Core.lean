import GuestExec.Activation
import GuestExec.Config.Basic
import GuestExec.Notice
import GuestExec.Thread.ContextCache

/-!
# Cores

A core runs one thread at a time. It owns its TLB, its context cache, the books
on its faults and a backend that executes guest code. A run has three parts:
`enter` makes the thread active, the backend runs it, and `leave` stores the
registers back and brings core and thread to rest.
-/

namespace GuestExec

structure Core (β : Type) where
  index : Nat
  config : CoreConfig
  tlb : Tlb
  faults : FaultStats
  record : Option FaultRecord
  contexts : ContextCache
  state : CoreState
  queue : InvalidationQueue
  backend : β

/-- A backend that remembers decoded code can be told to forget it. -/
class CodeCache (β : Type) where
  forget : β → Invalidation → β

namespace Core

variable {β : Type}

/-- A core that has run nothing; its configuration must be valid. -/
def new (index : Nat) (config : CoreConfig) (backend : β) : Except VmError (Core β) :=
  match config.validate with
  | .error e => .error (.config e)
  | .ok () =>
    .ok { index, config, tlb := .empty, faults := {}, record := none, contexts := {}
          state := .idle, queue := {}, backend }

/-! ## Forgetting -/

/-- Queues a request that the busy core will carry out at its next safe point. -/
def queueBusy (c : Core β) (request : Invalidation) : Core β :=
  { c with queue := c.queue.push request }

/-- Queues a request to the idle core, which carries out all it has at once. -/
def invalidateCode [CodeCache β] (c : Core β) (request : Invalidation) : Core β :=
  let (requests, queue) := (c.queue.push request).drain
  { c with queue, backend := requests.foldl CodeCache.forget c.backend }

def invalidateTlb (c : Core β) : Core β :=
  { c with tlb := c.tlb.invalidateAll }

/-- Drops what a range of the map's translations left in the core. -/
def mappingChanged [CodeCache β] (c : Core β) (addr : GuestAddr) (size : UInt64) : Core β :=
  { c with tlb := (c.tlb.invalidateRange addr size).2 }.invalidateCode (.range addr size)

/-! ## A run's beginning and end -/

/-- A run under way: the thread, which the core has claimed, and the activation
that the backend works on. -/
structure Entered where
  thread : GuestThread
  contexts : ContextCache
  activation : Activation
  /-- A request to stop was waiting, so the guest does not run. -/
  interrupted : Bool

/-- Claims the thread and makes it active; nothing if it runs elsewhere. -/
def enter (c : Core β) (memory : MemoryMap) (ref : ThreadRef) (thread : GuestThread)
    (owner : UInt64) (hostTid : Int32) : Option Entered :=
  let (claimed, params) := thread.params.claim
  if claimed then
    let (regs, contexts) := c.contexts.activate ref thread
    let params := { params with hostTid }.acquire owner
    let (interrupted, params) := params.takeInterrupt
    some
      { thread, contexts, interrupted
        activation :=
          { cpu := { regs, mmu := { tlb := c.tlb, memory }, stats := c.faults, record := c.record }
            params := params.release owner
            state := .running
            queue := c.queue } }
  else none

/-- What a finished run leaves behind. -/
structure Left (β : Type) where
  core : Core β
  thread : GuestThread
  memory : MemoryMap
  notices : List Notice

/-- What is reported after a run that ended for `reason`. -/
def report (c : Core β) (threadId : UInt64) (reason : HaltReason) : List Notice :=
  let fatal :=
    if reason.isFatal then
      match c.record with
      | some record => [Notice.fatalFault c.index threadId record]
      | none => [Notice.fatalHalt c.index threadId]
    else []
  let summary :=
    if c.config.logRecoveredFaults then [Notice.faultSummary c.index c.faults c.tlb.stats] else []
  fatal ++ summary

/-- Brings core and thread to rest after a run that ended for `reason`. -/
def leave (c : Core β) (ref : ThreadRef) (e : Entered) (a : Activation) (backend : β)
    (reason : HaltReason) : Left β :=
  let thread := { e.thread with params := { a.params with running := false } }
  let (contexts, thread) := e.contexts.set ref thread a.cpu.regs
  let core :=
    { c with
      tlb := a.cpu.mmu.tlb, faults := a.cpu.stats, record := a.cpu.record
      contexts, state := .halted, queue := a.queue, backend }
  { core := { core with record := if reason.isFatal then none else core.record }
    thread, memory := a.cpu.mmu.memory, notices := core.report thread.id reason }

/-- The notice that the thread runs elsewhere. -/
def refusal (c : Core β) (thread : GuestThread) : Notice :=
  .refused c.index (.execution (.runningElsewhere thread.id))

/-! ## The thread's registers and lock -/

/-- The thread's registers, through the context cache. -/
def getRegisters (c : Core β) (ref : ThreadRef) (thread : GuestThread) : Registers × Core β :=
  let (regs, contexts) := c.contexts.get ref thread
  (regs, { c with contexts })

/-- Changes the thread's registers, through the context cache. -/
def updateRegisters (c : Core β) (ref : ThreadRef) (thread : GuestThread)
    (f : Registers → Registers) : Core β × GuestThread :=
  let (_, contexts, thread) := c.contexts.update ref thread f
  ({ c with contexts }, thread)

/-- Holds the thread back from running, one level deeper for a holder that has it already. -/
def lockThread (thread : GuestThread) (owner : UInt64) : GuestThread :=
  { thread with params := thread.params.acquire owner }

/-- Gives one level of the thread's lock back; reported if the caller does not hold it. -/
def unlockThread (c : Core β) (thread : GuestThread) (owner : UInt64) :
    GuestThread × List Notice :=
  let (held, lock) := thread.params.lock.release owner
  if held then ({ thread with params := { thread.params with lock } }, [])
  else
    (thread, [.refused c.index (.core (.invalidState s!"unlock of thread {thread.id}"
      "held by another host thread or unlocked" "held by the caller"))])

end Core

end GuestExec
