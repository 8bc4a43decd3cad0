import GuestExec.Machine

/-!
# A machine on the bench

A `Bench` is a machine with parts of a core beside it that are worked by hand: a
virtual processor with a TLB that hears of no change of the map, tracers, the
breakpoints of steps, a core state and a queue of requests. It keeps what was
announced and reported.
-/

namespace GuestExec

open Native (StepPatch Script TrailItem)
open Trace (Tracer)

structure Bench where
  machine : Machine := {}
  regs : Registers := .zero
  tlb : Tlb := .empty
  faults : FaultStats := {}
  record : Option FaultRecord := none
  state : CoreState := .idle
  queue : InvalidationQueue := {}
  tracers : Roster Tracer := {}
  patches : Roster StepPatch := {}
  events : List Event := []
  notices : List Notice := []
deriving Inhabited

namespace Bench

def memory (b : Bench) : MemoryMap := b.machine.memory

def setMemory (b : Bench) (memory : MemoryMap) : Bench :=
  { b with machine := { b.machine with memory } }

/-- The machine after a change of its map, and what its observers noted. -/
def heard (b : Bench) (events : List Event) (machine : Machine) : Bench :=
  { b with machine, events := b.events ++ events }

/-- The machine after a call, and what was reported. -/
def reported (b : Bench) (notices : List Notice) (machine : Machine) : Bench :=
  { b with machine, notices := b.notices ++ notices }

/-- Forgets what was announced and reported. -/
def clearNews (b : Bench) : Bench := { b with events := [], notices := [] }

/-! ## The processor -/

/-- The processor on the machine's memory. -/
def cpu (b : Bench) : Vcpu :=
  { regs := b.regs, mmu := { tlb := b.tlb, memory := b.memory }, stats := b.faults
    record := b.record }

def setCpu (b : Bench) (c : Vcpu) : Bench :=
  { b with regs := c.regs, tlb := c.mmu.tlb, faults := c.stats, record := c.record }.setMemory
    c.mmu.memory

/-- Takes the record of the last fatal fault. -/
def takeRecord (b : Bench) : Option FaultRecord × Bench := (b.record, { b with record := none })

/-- A thread active on the processor. -/
def activation (b : Bench) (thread : GuestThread) : Activation :=
  { cpu := b.cpu, params := thread.params, state := b.state, queue := b.queue }

/-- The bench after a thread was active on it. -/
def settle (b : Bench) (ref : ThreadRef) (thread : GuestThread) (a : Activation) : Bench :=
  let b := { b with state := a.state, queue := a.queue }.setCpu a.cpu
  { b with machine := { b.machine with
      threads := b.machine.threads.set ref { thread with params := a.params } } }

/-- Hands a trap of a thread to the fault policy. -/
def dispatch (b : Bench) (ref : ThreadRef) (kind : FaultKind) (info : FaultInfo) :
    Option (FaultOutcome × Bench) := do
  let thread ← b.machine.threads.get? ref
  let (outcome, a) := (b.activation thread).dispatchFault Machine.owner kind info
  return (outcome, b.settle ref thread a)

/-! ## Tracers -/

/-- Runs or steps a thread on tracer `i` for at most `rounds` rounds. -/
def trace (b : Bench) (i : Nat) (ref : ThreadRef) (step : Bool) (rounds : Nat) :
    Option (HaltReason × Tracer × Bench) := do
  let tracer ← b.tracers.get? i
  let program ← b.machine.programs.get? tracer.program
  let thread ← b.machine.threads.get? ref
  let (reason, tracer, a) ←
    Trace.run program { step, owner := Machine.owner } rounds tracer (b.activation thread)
  return (reason, tracer, { b.settle ref thread a with tracers := b.tracers.set i tracer })

/-! ## Step breakpoints -/

/-- The machine with other breakpoints and the memory that they are in. -/
def setSites (b : Bench) (sites : Native.SiteTable) (memory : MemoryMap) : Bench :=
  { b with machine := { b.machine with
      memory, nativeHost := { b.machine.nativeHost with sites } } }

/-- Places breakpoints for a step of the processor; no patch for an instruction that branches to
itself. -/
def arm (b : Bench) : Option Nat × Bench :=
  match StepPatch.arm b.machine.nativeHost.sites b.memory b.regs with
  | (.selfLoop, sites, memory) => (none, b.setSites sites memory)
  | (.patched patch, sites, memory) =>
    let (i, patches) := b.patches.add patch
    (some i, { b.setSites sites memory with patches })

/-- Lets the breakpoints of patch `i` go. -/
def disarm (b : Bench) (i : Nat) : Option Bench := do
  let patch ← b.patches.get? i
  let (sites, memory) := patch.disarm b.machine.nativeHost.sites b.memory
  return { b.setSites sites memory with patches := b.patches.set i ⟨[]⟩ }

/-! ## Cores -/

/-- Runs or steps a thread on a trace core for at most `rounds` rounds. -/
def runTrace (b : Bench) (core thread : Nat) (step : Bool) (rounds : Nat) :
    Option (HaltReason × Bench) := do
  let (reason, notices, machine) ← b.machine.runTrace core thread step rounds
  return (reason, b.reported notices machine)

/-- How often a bench repeats one call at most. -/
def repeatLimit : Nat := 1000

/-- Steps a thread `count` times; gives the reasons and the stored program counters. -/
def takeSteps (b : Bench) (core thread : Nat) (rounds : Nat) :
    (count : Nat) → Option (List (HaltReason × UInt64) × Bench)
  | 0 => some ([], b)
  | count + 1 => do
    let (reason, b) ← b.runTrace core thread true rounds
    let pc := ((b.machine.threads.get? thread).map (·.stored.pc)).getD 0
    let (trail, b) ← b.takeSteps core thread rounds count
    return ((reason, pc) :: trail, b)

/-- Steps a thread `count` times, or as often as a bench repeats a call. -/
def stepTrace (b : Bench) (core thread : Nat) (rounds count : Nat) :
    Option (List (HaltReason × UInt64) × Bench) :=
  b.takeSteps core thread rounds (min count repeatLimit)

/-- Runs or steps a thread on a native core. -/
def runNative (b : Bench) (core thread : Nat) (step : Bool) (script : Script) :
    Option (HaltReason × List TrailItem × Bench) := do
  let (reason, trail, notices, machine) ← b.machine.runNative core thread step script
  return (reason, trail, b.reported notices machine)

end Bench

end GuestExec
