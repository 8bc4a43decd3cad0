import GuestExec.Machine
import GuestExec.Proofs.Memory.Mapping

/-!
# Calls on a machine

A `Call` is whatever a host thread can ask of a machine, in any order: changes of
the map, guards, accesses of the host, everything about threads, programs and
cores, and whole runs; the host may place its blocks where it likes and lose pages
in between. `after` is the machine that a sequence of calls leads to.
Every core hears of the changes of the map, and calls reach TLBs only through
the cores.
-/

namespace GuestExec

open Native (Script)
open Trace (Program Op)

/-- One call. Those that only read the map are left out: they change nothing. -/
inductive Call where
  | map (addr : GuestAddr) (size : UInt64) (perms : Perms)
  | mapIdentity (addr : GuestAddr) (size : UInt64) (perms : Perms)
  | unmap (addr : GuestAddr)
  | protect (addr : GuestAddr) (perms : Perms)
  | remap (addr : GuestAddr)
  | guard (addr : GuestAddr) (size : UInt64)
  | resolveFault (addr : GuestAddr) (access : Access)
  | write (addr : GuestAddr) (data : List UInt8)
  | writeHost (host : HostAddr) (data : List UInt8)
  /-- The host's allocator will try `next` for its next block. -/
  | placeNext (next : Nat)
  /-- The host takes the page of `addr` away and refuses to protect it from then on. -/
  | losePage (addr : GuestAddr)
  | observe (id : Nat)
  | unobserve (id : Nat)
  | addProgram (p : Program)
  | patch (program : Nat) (addr : GuestAddr) (op : Op)
  | addThread (id : UInt64) (regs : Registers)
  | dropThread (thread : Nat)
  | storeRegisters (thread : Nat) (regs : Registers)
  | claim (thread : Nat)
  | setRunning (thread : Nat) (running : Bool)
  | setHostTid (thread : Nat) (hostTid : Int32)
  | interrupt (thread : Nat)
  | lock (thread : Nat)
  | unlock (core thread : Nat)
  | updateRegisters (core thread : Nat) (f : Registers → Registers)
  | getRegisters (core thread : Nat)
  | addTraceCore (index program : Nat) (config : CoreConfig)
  | dropTraceCore (core : Nat)
  | runTrace (core thread : Nat) (step : Bool) (rounds : Nat)
  | invalidateCode (core : Nat) (request : Invalidation)
  | invalidateTlb (core : Nat)
  | queueBusy (core : Nat) (requests : List Invalidation)
  | lookupTlb (core : Nat) (addr : GuestAddr)
  | addNativeCore (index : Nat) (config : CoreConfig)
  | dropNativeCore (core : Nat)
  | prepareNative (core : Nat)
  | runNative (core thread : Nat) (step : Bool) (script : Script)
  | invalidateNative (core : Nat) (request : Invalidation)
  | invalidateNativeTlb (core : Nat)
  | interruptNative (core thread : Nat)

namespace Machine

def withMemory (m : Machine) (memory : MemoryMap) : Machine := { m with memory }

/-- The machine after one call; a call that fails, or a run that does not end within its rounds,
changes nothing. -/
def apply (m : Machine) : Call → Machine
  | .map addr size perms => (m.map addr size perms).toOption.getD m
  | .mapIdentity addr size perms => (m.mapIdentity addr size perms).toOption.getD m
  | .unmap addr => ((m.unmap addr).toOption.map (·.2)).getD m
  | .protect addr perms => ((m.protect addr perms).toOption.map (·.2)).getD m
  | .remap addr => ((m.remap addr).toOption.map (·.2.2)).getD m
  | .guard addr size => m.withMemory (m.memory.guardRange addr size).2
  | .resolveFault addr access => m.withMemory (m.memory.resolveFault addr access).2
  | .write addr data => m.withMemory (m.memory.write addr data).2
  | .writeHost host data => m.withMemory ((m.memory.writeHost host data).toOption.getD m.memory)
  | .placeNext next => m.withMemory { m.memory with heap := ⟨next⟩ }
  | .losePage addr => m.withMemory (m.memory.loseHostPage addr)
  | .observe id => m.subscribe (.observer id)
  | .unobserve id => m.unobserve id
  | .addProgram p => (m.addProgram p).2
  | .patch program addr op => m.patch program addr op
  | .addThread id regs => (m.addThread id regs).2
  | .dropThread thread => m.dropThread thread
  | .storeRegisters thread regs => ((m.storeRegisters thread regs).map (·.2)).getD m
  | .claim thread => ((m.claim thread).map (·.2)).getD m
  | .setRunning thread running => ((m.setRunning thread running).map (·.2)).getD m
  | .setHostTid thread hostTid => ((m.setHostTid thread hostTid).map (·.2)).getD m
  | .interrupt thread => ((m.interrupt thread).map (·.2)).getD m
  | .lock thread => ((m.lock thread).map (·.2)).getD m
  | .unlock core thread => ((m.unlock core thread).map (·.2.2)).getD m
  | .updateRegisters core thread f => ((m.updateRegisters core thread f).map (·.2)).getD m
  | .getRegisters core thread => ((m.getRegisters core thread).map (·.2)).getD m
  | .addTraceCore index program config =>
    ((m.addTraceCore index program config false).toOption.map (·.2)).getD m
  | .dropTraceCore core => m.dropTraceCore core
  | .runTrace core thread step rounds =>
    ((m.runTrace core thread step rounds).map (·.2.2)).getD m
  | .invalidateCode core request => ((m.invalidateCode core request).map (·.2)).getD m
  | .invalidateTlb core => ((m.invalidateTlb core).map (·.2)).getD m
  | .queueBusy core requests => ((m.queueBusy core requests).map (·.2)).getD m
  | .lookupTlb core addr => ((m.lookupTlb core addr).map (·.2)).getD m
  | .addNativeCore index config =>
    ((m.addNativeCore index config false).toOption.map (·.2)).getD m
  | .dropNativeCore core => m.dropNativeCore core
  | .prepareNative core => ((m.prepareNative core).map (·.2)).getD m
  | .runNative core thread step script =>
    ((m.runNative core thread step script).map (·.2.2.2)).getD m
  | .invalidateNative core request => ((m.invalidateNative core request).map (·.2)).getD m
  | .invalidateNativeTlb core => ((m.invalidateNativeTlb core).map (·.2)).getD m
  | .interruptNative core thread => ((m.interruptNative core thread).map (·.2.2)).getD m

/-- The machine after `calls`, made one after the other from the start. -/
def after (calls : List Call) : Machine := calls.foldl apply {}

theorem after_append (calls more : List Call) :
    after (calls ++ more) = more.foldl apply (after calls) :=
  List.foldl_append

theorem after_concat (calls : List Call) (call : Call) :
    after (calls ++ [call]) = (after calls).apply call :=
  after_append calls [call]

/-! ## What a run found -/

section Runs

variable {m m' : Machine} {core thread rounds : Nat} {step : Bool} {reason : HaltReason}
  {notices : List Notice}

/-- A traced run that ended went on a core, with a thread and the core's program. -/
theorem exists_of_runTrace (ran : m.runTrace core thread step rounds = some (reason, notices, m')) :
    ∃ c t program left, m.traceCores.get? core = some c ∧ m.threads.get? thread = some t ∧
      m.programs.get? c.backend.program = some program ∧
      c.execute program m.memory thread t ⟨step, owner⟩ Native.ownTid rounds =
        some (reason, left) ∧
      notices = left.notices ∧ m' = m.settleTrace core thread left := by
  obtain ⟨c, there, ran⟩ := Option.bind_eq_some_iff.1 ran
  obtain ⟨t, member, ran⟩ := Option.bind_eq_some_iff.1 ran
  obtain ⟨program, held, ran⟩ := Option.bind_eq_some_iff.1 ran
  obtain ⟨⟨reason', left⟩, executed, ran⟩ := Option.bind_eq_some_iff.1 ran
  cases ran
  exact ⟨c, t, program, left, there, member, held, executed, rfl, rfl⟩

/-- So did a native one. -/
theorem exists_of_runNative {script : Script} {trail : List Native.TrailItem}
    (ran : m.runNative core thread step script = some (reason, trail, notices, m')) :
    ∃ c t host left, m.nativeCores.get? core = some c ∧ m.threads.get? thread = some t ∧
      c.execute m.nativeHost m.memory thread t ⟨step, owner⟩ script =
        (reason, trail, host, left) ∧
      notices = left.notices ∧ m' = m.settleNative core thread host left := by
  obtain ⟨c, there, ran⟩ := Option.bind_eq_some_iff.1 ran
  obtain ⟨t, member, ran⟩ := Option.bind_eq_some_iff.1 ran
  cases ran
  exact ⟨c, t, _, _, there, member, rfl, rfl, rfl⟩

end Runs

/-- The TLB of the core that `s` stands for. -/
def tlbOf? (m : Machine) : Subscriber → Option Tlb
  | .observer _ => none
  | .traceCore i => (m.traceCores.get? i).map (·.tlb)
  | .nativeCore i => (m.nativeCores.get? i).map (·.tlb)

end Machine

end GuestExec
