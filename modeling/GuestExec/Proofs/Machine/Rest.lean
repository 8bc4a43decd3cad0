import GuestExec.Proofs.Machine.Repeated
import GuestExec.Proofs.Machine.Stepping

/-!
# Runs return thread and core to rest

After a run, or a step, on a trace core the thread runs nowhere and its lock is
what it was, the core is halted and keeps no record of a fault, and no request to
stop is left. `breakLoop` tells that one was waiting when the run was asked for,
and then nothing was executed. A thread that runs elsewhere is not touched. The
words that count bound this: a lock that is held 2^32 times over is lost by a run,
and a core that was left behind by 2^64 writes does not have the thread's registers.
-/

namespace GuestExec

namespace Machine

open Trace (Executed Program Tracer TraceCore executed_of_execute)

variable {m m' : Machine} {core thread : Nat} {step : Bool} {c : TraceCore} {th : GuestThread}
  {program : Program} {reason : HaltReason}

/-! ## Between runs -/

/-- Every lock is free or the host thread's, and no trace core keeps a record of a fault. -/
structure Resting (m : Machine) : Prop where
  locks : ∀ {i t}, m.threads.get? i = some t → t.params.lock.Mine owner
  records : ∀ {core c}, m.traceCores.get? core = some c → c.record = none

theorem resting_after (calls : List Call) : (after calls).Resting := by
  refine after_induction ⟨nofun, nofun⟩ ?_ calls
  intro m m' h evolves
  refine ⟨fun {i t'} there => ?_, fun {core c'} there => ?_⟩
  · rcases evolves.threads i t' there with ⟨t, before, continues⟩ | ⟨-, id, regs, rfl⟩
    · exact continues.mine (h.locks before)
    · exact ThreadLock.mine_initial owner
  · rcases evolves.traces core c' there with ⟨c, before, becomes⟩ | ⟨index, config, program, new⟩
    · rcases becomes.record with none | same
      · exact none
      · exact same.trans (h.records before)
    · exact (new_traceCore new).2.1

/-! ## Runs -/

/-- Thread and core are at rest in `m'` after a run of `th` that began in `m` on `c` and ended with
`reason`. The lock is what it was unless it is held with no level left to count; the registers are
what they were for the core. -/
structure Rests (m : Machine) (core thread : Nat) (c : TraceCore) (th : GuestThread)
    (reason : HaltReason) (m' : Machine) : Prop where
  thread_rests : ∃ th', m'.threads.get? thread = some th' ∧ th'.params.running = false ∧
    (th.params.lock.Counted → th'.params.lock = th.params.lock) ∧ th'.params.interrupt = false ∧
    (reason = .breakLoop → th'.stored = (c.getRegisters thread th).1)
  core_rests : ∃ c', m'.traceCores.get? core = some c' ∧ c'.state = .halted ∧ c'.record = none ∧
    (reason = .breakLoop → c'.backend.retired = c.backend.retired)
  stopped : reason = .breakLoop ↔ th.params.interrupt = true
  memory : reason = .breakLoop → m'.memory = m.memory
  others : ∀ i, i ≠ thread → m'.threads.get? i = m.threads.get? i

/-- What a run comes to, by what becomes of its core. -/
theorem exists_executed (core_eq : m.traceCores.get? core = some c)
    (thread_eq : m.threads.get? thread = some th) (ran : m.Runs core thread step reason m') :
    ∃ program left, m' = m.settleTrace core thread left ∧
      Executed c program m.memory thread th ⟨step, owner⟩ Native.ownTid reason left := by
  obtain ⟨rounds, notices, ran⟩ := ran
  obtain ⟨c', th', program, left, there, member, -, executed, -, rfl⟩ := exists_of_runTrace ran
  cases core_eq.symm.trans there
  cases thread_eq.symm.trans member
  exact ⟨program, left, rfl, executed_of_execute executed⟩

/-- What is settled shows. -/
theorem rests_of_leave {e : Core.Entered} {a : Activation} {t : Tracer}
    (core_eq : m.traceCores.get? core = some c) (thread_eq : m.threads.get? thread = some th)
    (lock : th.params.lock.Counted → a.params.lock = th.params.lock)
    (interrupt : a.params.interrupt = false)
    (record : reason.isFatal = false → a.cpu.record = none)
    (stopped : reason = .breakLoop ↔ th.params.interrupt = true)
    (kept : reason = .breakLoop → a.cpu.regs = (c.getRegisters thread th).1 ∧
      a.cpu.mmu.memory = m.memory ∧ t.retired = c.backend.retired) :
    Rests m core thread c th reason (m.settleTrace core thread (c.leave thread e a t reason)) := by
  refine ⟨⟨_, Roster.get?_set_self thread_eq _, ?_, ?_, ?_, ?_⟩,
    ⟨_, Roster.get?_set_self core_eq _, rfl, ?_, fun broken => (kept broken).2.2⟩, stopped,
    fun broken => (kept broken).2.1, ?_⟩
  · rw [Core.params_leave]
  · rw [Core.params_leave]
    exact lock
  · rw [Core.params_leave]
    exact interrupt
  · rw [Core.stored_leave]
    exact fun broken => (kept broken).1
  · cases fatal : reason.isFatal with
    | true => exact Core.record_leave_fatal c thread e a t fatal
    | false => rw [Core.record_leave c thread e a t fatal, record fatal]
  · intro i other
    exact (Roster.get?_set_of_get? thread_eq).trans (if_neg other)

theorem Resting.rests (resting : m.Resting) (core_eq : m.traceCores.get? core = some c)
    (thread_eq : m.threads.get? thread = some th) (idle : th.params.running = false)
    (ran : m.Runs core thread step reason m') : Rests m core thread c th reason m' := by
  have mine := resting.locks thread_eq
  obtain ⟨program, left, rfl, executed⟩ := exists_executed core_eq thread_eq ran
  cases executed with
  | refused running =>
    rw [idle] at running
    cases running
  | @stopped e _ entered waiting =>
    refine rests_of_leave core_eq thread_eq
      (fun counted => (Core.balanced_enter entered).eq_of_available ⟨mine, counted⟩)
      (Core.interrupt_enter entered) (fun _ => ?_) (iff_of_true rfl waiting)
      (fun _ => ⟨Core.regs_enter entered, ?_, rfl⟩)
    · rw [Core.record_enter entered]
      exact resting.records core_eq
    · rw [Core.mmu_enter entered]
  | @ran e rounds _ t a _ entered free done =>
    obtain ⟨balanced, interrupt, other, record⟩ :=
      Trace.leaves_run (Core.interrupt_enter entered) done
    refine rests_of_leave core_eq thread_eq
      (fun counted =>
        ((Core.balanced_enter entered).trans balanced).eq_of_available ⟨mine, counted⟩)
      interrupt (fun goesOn => ?_) (iff_of_false other ?_) fun broken => absurd broken other
    · rw [record goesOn, Core.record_enter entered]
      exact resting.records core_eq
    · rw [free]
      exact nofun

/-! ## Runs that return at once -/

/-- A thread that runs elsewhere is left alone, and so is everything else. -/
theorem runTrace_of_running (core_eq : m.traceCores.get? core = some c)
    (thread_eq : m.threads.get? thread = some th)
    (program_eq : m.programs.get? c.backend.program = some program)
    (running : th.params.running = true) (step : Bool) (rounds : Nat) :
    m.runTrace core thread step rounds = some (.breakLoop, [c.refusal th], m) := by
  have refused := Core.enter_eq_none c m.memory thread owner Native.ownTid running
  simp only [runTrace, core_eq, thread_eq, program_eq, Option.bind_eq_bind, Option.bind_some,
    TraceCore.execute, refused, settleTrace, Roster.set_self core_eq, Roster.set_self thread_eq]
  rfl

/-- A request to stop ends a run before it begins. -/
theorem exists_runTrace_of_interrupt (core_eq : m.traceCores.get? core = some c)
    (thread_eq : m.threads.get? thread = some th)
    (program_eq : m.programs.get? c.backend.program = some program)
    (idle : th.params.running = false) (waiting : th.params.interrupt = true) (step : Bool) :
    ∃ notices m', ∀ rounds, m.runTrace core thread step rounds =
      some (.breakLoop, notices, m') := by
  obtain ⟨e, entered, -, -, interrupted⟩ :=
    Core.exists_enter c m.memory thread owner Native.ownTid idle
  rw [waiting] at interrupted
  refine ⟨(c.leave thread e e.activation c.backend .breakLoop).notices,
    m.settleTrace core thread (c.leave thread e e.activation c.backend .breakLoop),
    fun rounds => ?_⟩
  simp only [runTrace, core_eq, thread_eq, program_eq, Option.bind_eq_bind, Option.bind_some,
    TraceCore.execute, entered, interrupted, if_true]
  rfl

/-- A run or a step leaves thread and core at rest, whatever was called before. A thread that runs
elsewhere is refused and nothing changes; a request to stop is answered at once. In fewer than 2^64
calls the registers that the core has of the thread are the ones that are stored with it. -/
theorem rests_of_runs (calls : List Call) (core_eq : (after calls).traceCores.get? core = some c)
    (thread_eq : (after calls).threads.get? thread = some th)
    (program_eq : (after calls).programs.get? c.backend.program = some program) (step : Bool) :
    (th.params.running = true → ∀ rounds, (after calls).runTrace core thread step rounds =
        some (.breakLoop, [c.refusal th], after calls)) ∧
      (th.params.running = false → th.params.interrupt = true →
        ∃ notices m', ∀ rounds, (after calls).runTrace core thread step rounds =
          some (.breakLoop, notices, m')) ∧
      (th.params.running = false → ∀ reason m', (after calls).Runs core thread step reason m' →
        Rests (after calls) core thread c th reason m') ∧
      (calls.length < 0x1_0000_0000_0000_0000 → (c.getRegisters thread th).1 = th.stored) := by
  refine ⟨?_, ?_, ?_, ?_⟩
  · intro running rounds
    exact runTrace_of_running core_eq thread_eq program_eq running step rounds
  · intro idle waiting
    exact exists_runTrace_of_interrupt core_eq thread_eq program_eq idle waiting step
  · intro idle reason m' ran
    exact (resting_after calls).rests core_eq thread_eq idle ran
  · intro few
    exact (((faithful_after calls few).traces core_eq).truthful thread_eq).get.1

/-- A thread that the host thread holds twice, about to load from a guarded page, and what else is
called then. -/
def heldTwice (more : List Call) : List Call :=
  [.map ⟨0x10000⟩ 0x1000 .readExecute, .map ⟨0x11000⟩ 0x1000 .readWrite,
    .guard ⟨0x11000⟩ 0x1000, .addProgram (.ofOps ⟨0x10000⟩ [.load 0 31 0x11000 8 false, .svc 0]),
    .addThread 1 { Registers.zero with pc := 0x10000 }, .addTraceCore 0 0 {}, .lock 0,
    .lock 0] ++ more

/-- The thread as it is then, and `params` shared about it. -/
def waitingThread (params : ThreadParams) : GuestThread :=
  { id := 1, stored := { Registers.zero with pc := 0x10000 }, stamp := 0, params }

theorem exists_traceCore (m : Machine) (core : Nat)
    (there : ((m.traceCores.get? core).bind fun c =>
      m.programs.get? c.backend.program).isSome = true) :
    ∃ c program, m.traceCores.get? core = some c ∧
      m.programs.get? c.backend.program = some program := by
  obtain ⟨program, found⟩ := Option.isSome_iff_exists.1 there
  obtain ⟨c, core_eq, program_eq⟩ := Option.bind_eq_some_iff.1 found
  exact ⟨c, program, core_eq, program_eq⟩

/-- The lock keeps both levels over a run that mends a page; a request to stop costs no instruction,
and the thread keeps its registers; one that runs elsewhere is refused. -/
theorem rests_of_runs_heldTwice :
    (∃ m' th', (after (heldTwice [])).Runs 0 0 false .supervisorCall m' ∧
        m'.threads.get? 0 = some th' ∧ th'.params.lock = { holder := owner, depth := 2 }) ∧
      (∃ m', (after (heldTwice [.interrupt 0])).Runs 0 0 false .breakLoop m' ∧
        m'.memory = (after (heldTwice [.interrupt 0])).memory ∧
        (m'.threads.get? 0).map (·.stored) = some { Registers.zero with pc := 0x10000 }) ∧
      ∃ notices, (after (heldTwice [.claim 0])).runTrace 0 0 true 0 =
        some (.breakLoop, notices, after (heldTwice [.claim 0])) := by
  refine ⟨?_, ?_, ?_⟩
  · obtain ⟨c, program, core_eq, program_eq⟩ :=
      exists_traceCore (after (heldTwice [])) 0 (by decide +kernel)
    have thread_eq : (after (heldTwice [])).threads.get? 0 =
        some (waitingThread { lock := { holder := owner, depth := 2 } }) := by decide +kernel
    have ends : ((after (heldTwice [])).runTrace 0 0 false 4).map (·.1) = some .supervisorCall := by
      decide +kernel
    obtain ⟨⟨reason, notices, m'⟩, ran, rfl⟩ := Option.map_eq_some_iff.1 ends
    have ran : (after (heldTwice [])).Runs 0 0 false .supervisorCall m' := ⟨4, notices, ran⟩
    obtain ⟨-, -, rests, -⟩ := rests_of_runs (heldTwice []) core_eq thread_eq program_eq false
    obtain ⟨th', there, -, lock, -⟩ := (rests rfl .supervisorCall m' ran).thread_rests
    exact ⟨m', th', ran, there, lock fun _ => by decide⟩
  · obtain ⟨c, program, core_eq, program_eq⟩ :=
      exists_traceCore (after (heldTwice [.interrupt 0])) 0 (by decide +kernel)
    have thread_eq : (after (heldTwice [.interrupt 0])).threads.get? 0 =
        some (waitingThread { lock := { holder := owner, depth := 2 }, interrupt := true }) := by
      decide +kernel
    obtain ⟨-, stops, rests, stored⟩ :=
      rests_of_runs (heldTwice [.interrupt 0]) core_eq thread_eq program_eq false
    obtain ⟨notices, m', ends⟩ := stops rfl rfl
    have ran : (after (heldTwice [.interrupt 0])).Runs 0 0 false .breakLoop m' :=
      ⟨0, notices, ends 0⟩
    have rest := rests rfl .breakLoop m' ran
    obtain ⟨th', there, -, -, -, kept⟩ := rest.thread_rests
    refine ⟨m', ran, rest.memory rfl, ?_⟩
    rw [there, Option.map_some, kept rfl, stored (by decide)]
    rfl
  · obtain ⟨c, program, core_eq, program_eq⟩ :=
      exists_traceCore (after (heldTwice [.claim 0])) 0 (by decide +kernel)
    have thread_eq : (after (heldTwice [.claim 0])).threads.get? 0 =
        some (waitingThread { lock := { holder := owner, depth := 2 }, running := true }) := by
      decide +kernel
    obtain ⟨refused, -⟩ :=
      rests_of_runs (heldTwice [.claim 0]) core_eq thread_eq program_eq true
    exact ⟨_, refused rfl 0⟩

/-! ## When a word that counts comes around -/

/-- A thread about to make a supervisor call, on which the host thread holds the lock. -/
def heldOnce : List Call :=
  [.map ⟨0x10000⟩ 0x1000 .readExecute, .addProgram (.ofOps ⟨0x10000⟩ [.svc 0]),
    .addThread 1 { Registers.zero with pc := 0x10000 }, .addTraceCore 0 0 {}, .lock 0]

/-- The host thread holds the lock 2^32 times over. -/
def heldAround : List Call := heldOnce ++ List.replicate 0xffff_ffff (.lock 0)

/-- The thread made its call on a core. -/
def leftOnce : List Call := heldOnce ++ [.runTrace 0 0 false 3]

/-- Its registers were written 2^64 times over since, and it is asked to stop. -/
def leftAround : List Call :=
  leftOnce ++ List.replicate 0x1_0000_0000_0000_0000 (.storeRegisters 0 .zero) ++ [.interrupt 0]

theorem after_heldAround : after heldAround = { after heldOnce with
    threads := (after heldOnce).threads.set 0
      (waitingThread { lock := { holder := owner } }) } := by
  have there : (after heldOnce).threads.get? 0 =
      some (waitingThread { lock := { holder := owner, depth := 1 } }) := by decide +kernel
  rw [heldAround, after_append, foldl_lock there rfl]
  rfl

/-- The thread that made its call, with other registers. -/
def leftThread (regs : Registers) : GuestThread :=
  { id := 1, stored := regs, stamp := 1
    params := { lock := { holder := owner, depth := 1 }, hostTid := 1 } }

theorem after_leftAround : after leftAround = Machine.apply { after leftOnce with
    threads := (after leftOnce).threads.set 0 (leftThread .zero) } (.interrupt 0) := by
  have there : (after leftOnce).threads.get? 0 =
      some (leftThread { Registers.zero with pc := 0x10004 }) := by decide +kernel
  rw [leftAround, after_concat, after_append, foldl_storeRegisters there,
    GuestThread.storeTimes_size]
  rfl

theorem exists_runs {α : Type} {rounds : Nat} {f : Machine → α} {a : α}
    (ends : (m.runTrace core thread step rounds).map (fun x => (x.1, f x.2.2)) = some (reason, a)) :
    ∃ m', m.Runs core thread step reason m' ∧ f m' = a := by
  obtain ⟨⟨reason, notices, m'⟩, ran, eq⟩ := Option.map_eq_some_iff.1 ends
  cases eq
  exact ⟨m', ⟨rounds, notices, ran⟩, rfl⟩

/-- A run loses a lock whose levels came around, and gives a thread whose stamp came around the
registers that it had before. -/
theorem not_rests_leftAround :
    (∃ th m' th', (after heldAround).threads.get? 0 = some th ∧
      th.params.lock.isLockedBy owner = true ∧
      (after heldAround).Runs 0 0 false .supervisorCall m' ∧
      m'.threads.get? 0 = some th' ∧ th'.params.lock.isLocked = false) ∧
    ∃ th m' th', (after leftAround).threads.get? 0 = some th ∧ th.params.interrupt = true ∧
      (after leftAround).Runs 0 0 false .breakLoop m' ∧
      m'.threads.get? 0 = some th' ∧ th'.stored ≠ th.stored := by
  constructor
  · have there : (after heldAround).threads.get? 0 =
        some (waitingThread { lock := { holder := owner } }) := by
      rw [after_heldAround]
      decide +kernel
    have ends : ((after heldAround).runTrace 0 0 false 3).map (fun x =>
        (x.1, (x.2.2.threads.get? 0).map (·.params.lock.isLocked))) =
        some (.supervisorCall, some false) := by
      rw [after_heldAround]
      decide +kernel
    generalize after heldAround = m at there ends ⊢
    obtain ⟨m', ran, eq⟩ := exists_runs
      (f := fun m => (m.threads.get? 0).map (·.params.lock.isLocked)) ends
    obtain ⟨th', left, free⟩ := Option.map_eq_some_iff.1 eq
    exact ⟨_, m', th', there, rfl, ran, left, free⟩
  · have there : (after leftAround).threads.get? 0 =
        some { leftThread .zero with
          params := { (leftThread .zero).params with interrupt := true } } := by
      rw [after_leftAround]
      decide +kernel
    have ends : ((after leftAround).runTrace 0 0 false 0).map (fun x =>
        (x.1, (x.2.2.threads.get? 0).map (·.stored))) =
        some (.breakLoop, some { Registers.zero with pc := 0x10004 }) := by
      rw [after_leftAround]
      decide +kernel
    generalize after leftAround = m at there ends ⊢
    obtain ⟨m', ran, eq⟩ := exists_runs (f := fun m => (m.threads.get? 0).map (·.stored)) ends
    obtain ⟨th', left, stored⟩ := Option.map_eq_some_iff.1 eq
    have other : { Registers.zero with pc := 0x10004 } ≠ Registers.zero := by decide
    exact ⟨_, m', th', there, rfl, ran, left, fun same => other (stored.symm.trans same)⟩

end Machine

end GuestExec
