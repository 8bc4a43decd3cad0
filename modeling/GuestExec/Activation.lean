import GuestExec.Fault.Policy
import GuestExec.Invalidation
import GuestExec.Thread.Basic

/-!
# A thread active on a core

An `Activation` is what a backend works on while it runs a thread: the virtual
processor, the thread's shared flags, the state that the core shows, and the
requests queued for it.
-/

namespace GuestExec

/-- What a core shows of itself. -/
inductive CoreState where
  | idle
  | running
  /-- Handling a trap. -/
  | trapped
  | halted
deriving DecidableEq, Repr, Inhabited

namespace CoreState

def name : CoreState → String
  | .idle => "idle"
  | .running => "running"
  | .trapped => "trapped"
  | .halted => "halted"

def all : List CoreState := [.idle, .running, .trapped, .halted]

def ofName? (s : String) : Option CoreState := all.find? (·.name == s)

theorem ofName?_name (s : CoreState) : ofName? s.name = some s := by cases s <;> decide

end CoreState

structure Activation where
  cpu : Vcpu
  params : ThreadParams
  state : CoreState
  queue : InvalidationQueue
deriving Inhabited

/-- How a run was asked for. -/
structure RunMode where
  /-- One instruction only. -/
  step : Bool
  /-- Lock token of the calling host thread. -/
  owner : UInt64
deriving DecidableEq, Repr, Inhabited

namespace Activation

/-- Hands a trap to the fault policy. Meanwhile the core is trapped and the thread's lock held. -/
def dispatchFault (a : Activation) (owner : UInt64) (kind : FaultKind) (info : FaultInfo) :
    FaultOutcome × Activation :=
  let params := a.params.acquire owner
  let (outcome, cpu) := a.cpu.handle kind info
  let state := match outcome with
    | .halt _ => CoreState.halted
    | _ => CoreState.running
  (outcome, { a with cpu, params := params.release owner, state })

/-- Takes the requests queued so far. -/
def drain (a : Activation) : List Invalidation × Activation :=
  let (requests, queue) := a.queue.drain
  (requests, { a with queue })

/-- Takes a request to stop. -/
def takeInterrupt (a : Activation) : Bool × Activation :=
  let (interrupted, params) := a.params.takeInterrupt
  (interrupted, { a with params })

/-- Waits while another host thread holds the thread's lock. -/
def waitUnlocked (a : Activation) (owner : UInt64) : Activation :=
  { a with params := a.params.waitUnlocked owner }

/-- Replaces the registers. -/
def setRegs (a : Activation) (regs : Registers) : Activation :=
  { a with cpu := { a.cpu with regs } }

end Activation

end GuestExec
