import GuestExec.Proofs.Machine.Contexts
import GuestExec.Proofs.Machine.Straight
import GuestExec.Proofs.Trace.Effects

/-!
# The machine without its cores

A `World` is a machine without its cores: the map, and what each thread holds.
`World.Halts` says what a run does to it. That a trace core does the same to its
machine is `Prepared.halts_iff`: TLBs and memories of decoded code do not show, as
long as the map is open and the code is up to date. The run begins with the thread
as the core sees it (`TraceCore.view`), which is the thread as it is stored as
long as no stamp came around (`Machine.Faithful.view_eq`).
-/

namespace GuestExec

open Trace (Program Tracer TraceCore Undisturbed Advances Ends)

/-! ## Worlds -/

/-- What shows of a thread. -/
structure ThreadView where
  regs : Registers
  running : Bool
  /-- The thread was asked to stop. -/
  interrupt : Bool

def GuestThread.view (t : GuestThread) : ThreadView :=
  ⟨t.stored, t.params.running, t.params.interrupt⟩

/-- The thread as the core sees it. -/
def Trace.TraceCore.view (c : TraceCore) (ref : ThreadRef) (t : GuestThread) : ThreadView :=
  { t.view with regs := (c.getRegisters ref t).1 }

structure World where
  memory : MemoryMap
  threads : Nat → Option ThreadView

namespace World

def set (w : World) (i : Nat) (t : ThreadView) : World :=
  { w with threads := fun j => if j = i then some t else w.threads j }

def withMemory (w : World) (memory : MemoryMap) : World := { w with memory }

/-- A run or a step of thread `i`, which begins as `t`, of `n` instructions with this effect. A
thread that runs elsewhere stays as it is; one that was asked to stop does so first of all. -/
inductive Halts (effect : GuestView → Trace.Attempt × GuestView) (w : World) (i : Nat)
    (t : ThreadView) (step : Bool) : HaltReason → Nat → World → Prop where
  | elsewhere (running : t.running = true) : Halts effect w i t step .breakLoop 0 w
  | stopped (idle : t.running = false) (waiting : t.interrupt = true) :
    Halts effect w i t step .breakLoop 0 (w.set i { t with interrupt := false })
  | ended {reason : HaltReason} {n : Nat} {v : GuestView} (idle : t.running = false)
    (free : t.interrupt = false) (ends : Ends effect step ⟨t.regs, w.memory⟩ reason n v) :
    Halts effect w i t step reason n ((w.withMemory v.memory).set i { t with regs := v.regs })

/-- What the guest sees after `n` instructions of a run of a thread that begins as `t`. -/
def Sees (effect : GuestView → Trace.Attempt × GuestView) (w : World) (t : ThreadView)
    (step : Bool) (n : Nat) (v : GuestView) : Prop :=
  t.running = false ∧ t.interrupt = false ∧ Advances effect step ⟨t.regs, w.memory⟩ n v

end World

namespace Machine

variable {m m' : Machine} {core thread n : Nat} {step : Bool} {reason : HaltReason}
  {program : Program} {c : TraceCore} {th : GuestThread} {e : Core.Entered} {w : World}

def world (m : Machine) : World := ⟨m.memory, fun i => (m.threads.get? i).map (·.view)⟩

/-- A run of a thread on a core, or a step, ends with `reason` after `n` instructions and leaves
the world `w`. -/
def Halts (m : Machine) (core thread : Nat) (step : Bool) (reason : HaltReason) (n : Nat)
    (w : World) : Prop :=
  ∃ m', m.Runs core thread step reason m' ∧ m'.retired? core = (m.retired? core).map (· + n) ∧
    m'.world = w

/-- After `n` instructions of a run, or a step, the guest sees `v`. -/
def Sees (m : Machine) (core thread : Nat) (step : Bool) (n : Nat) (v : GuestView) : Prop :=
  ∃ program t a, m.HasRound core thread step program t a ∧
    (m.retired? core).map (· + n) = some t.retired ∧ a.cpu.view = v

/-! ## Worlds of machines -/

theorem threads_world (there : m.threads.get? thread = some th) :
    m.world.threads thread = some th.view := by
  show (m.threads.get? thread).map (·.view) = _
  rw [there, Option.map_some]

theorem exists_thread {t : ThreadView} (there : m.world.threads thread = some t) :
    ∃ th, m.threads.get? thread = some th ∧ th.view = t :=
  Option.map_eq_some_iff.1 there

/-- One thread is replaced. -/
theorem world_set (there : m.threads.get? thread = some th) (th' : GuestThread)
    (memory : m'.memory = w.memory) (threads : m'.threads = m.threads.set thread th')
    (same : w.threads = m.world.threads) : m'.world = w.set thread th'.view := by
  rw [world, memory]
  refine congrArg (World.mk w.memory) (funext fun j => ?_)
  rw [threads, Roster.get?_set_of_get? there, same]
  split <;> rfl

/-- A thread that stays as it is. -/
theorem world_set_self (there : w.threads thread = some th.view) :
    w.set thread th.view = w := by
  refine congrArg (World.mk w.memory) (funext fun j => ?_)
  split
  · rename_i here
    rw [here, there]
  · rfl

theorem world_settleTrace (there : m.threads.get? thread = some th)
    (left : Core.Left Tracer) :
    (m.settleTrace core thread left).world =
      (m.world.withMemory left.memory).set thread left.thread.view :=
  world_set there left.thread rfl rfl rfl

theorem retired?_of_get (there : m.traceCores.get? core = some c) :
    m.retired? core = some c.backend.retired := by
  rw [retired?, there, Option.map_some]

theorem retired?_settleTrace (there : m.traceCores.get? core = some c) (left : Core.Left Tracer) :
    (m.settleTrace core thread left).retired? core = some left.core.backend.retired :=
  retired?_of_get (Roster.get?_set_self there left.core)

theorem not_runs_of_no_thread (there : m.threads.get? thread = none) :
    ¬ m.Runs core thread step reason m' := by
  refine not_runs fun step rounds => ?_
  cases core_eq : m.traceCores.get? core <;>
    simp only [runTrace, core_eq, there, Option.bind_eq_bind, Option.bind_some, Option.bind_none]

/-- What shows of a thread that a run left. -/
theorem view_leave (c : TraceCore) (e : Core.Entered) (a : Activation) (tracer : Tracer)
    (reason : HaltReason) :
    (c.leave thread e a tracer reason).thread.view = ⟨a.cpu.regs, false, a.params.interrupt⟩ := by
  rw [GuestThread.view, Core.stored_leave, Core.params_leave]

/-! ## Cores that do not show -/

/-- The core is fit to run its program: the map is open, and whatever it remembers of the code is up
to date or about to be forgotten. -/
structure Prepared (m : Machine) (core : Nat) (c : TraceCore) (program : Program) : Prop where
  core_eq : m.traceCores.get? core = some c
  program_eq : m.programs.get? c.backend.program = some program
  sound : Mmu.Sound ⟨c.tlb, m.memory⟩
  opened : m.memory.Open
  fresh : c.backend.Fresh program fun pc => c.queue.Covers pc ∨ False
  sized : ∀ pc, (program.opAt pc).sized = true

theorem prepared_after (calls : List Call) (core_eq : (after calls).traceCores.get? core = some c)
    (program_eq : (after calls).programs.get? c.backend.program = some program)
    (refreshed : Refreshed core c.backend.program calls) (opened : (after calls).memory.Open)
    (sized : ∀ pc, (program.opAt pc).sized = true) :
    Prepared (after calls) core c program := by
  have remembers := (remembers_after core c.backend.program calls) c core_eq rfl
  refine ⟨core_eq, program_eq, (settled_after calls).sound_trace core_eq, opened, ?_, sized⟩
  exact (remembers.1 program program_eq).mono fun pc here =>
    here.imp id (refreshed.not_outdated pc)

/-- A core that is not ahead of the threads sees them as they are stored. -/
theorem Faithful.view_eq (faithful : m.Faithful) (core_eq : m.traceCores.get? core = some c)
    (there : m.threads.get? thread = some th) : c.view thread th = th.view := by
  have stored : (c.getRegisters thread th).1 = th.stored :=
    ((faithful.traces core_eq).truthful there).get.1
  rw [TraceCore.view, stored]
  rfl

/-- A run that begins is that of an undisturbed thread with the registers that the core sees. -/
theorem Prepared.undisturbed (h : Prepared m core c program)
    (opened : Opened m core thread c th program e) :
    Undisturbed program c.backend e.activation ∧
      e.activation.cpu.view = ⟨(c.view thread th).regs, m.memory⟩ := by
  have mmu := Core.mmu_enter opened.entered
  have regs := Core.regs_enter opened.entered
  refine ⟨⟨?_, ?_, ?_, Core.interrupt_enter opened.entered⟩, ?_⟩
  · rw [mmu]
    exact h.sound
  · rw [mmu]
    exact h.opened
  · rw [Trace.FreshWhenDrained, Core.queue_enter opened.entered]
    exact h.fresh
  · rw [Vcpu.view, mmu, regs]
    rfl

/-- What comes of a thread that is to run: it runs elsewhere, it was asked to stop or its run
begins. -/
theorem Prepared.enter_cases (h : Prepared m core c program)
    (there : m.threads.get? thread = some th) :
    (th.params.running = true ∧ ∃ notices m₁, m₁.world = m.world ∧
        m₁.retired? core = m.retired? core ∧
        ∀ step rounds, m.runTrace core thread step rounds = some (.breakLoop, notices, m₁)) ∨
      (th.params.running = false ∧ th.params.interrupt = true ∧ ∃ notices m₁,
        m₁.world = m.world.set thread { c.view thread th with interrupt := false } ∧
        m₁.retired? core = m.retired? core ∧
        ∀ step rounds, m.runTrace core thread step rounds = some (.breakLoop, notices, m₁)) ∨
      (th.params.running = false ∧ th.params.interrupt = false ∧
        ∃ e, Opened m core thread c th program e) := by
  have retired := retired?_of_get h.core_eq
  cases running : th.params.running with
  | true =>
    refine .inl ⟨rfl, [c.refusal th], m.settleTrace core thread
      { core := c, thread := th, memory := m.memory, notices := [c.refusal th] }, ?_, ?_, ?_⟩
    · rw [world_settleTrace there]
      exact world_set_self (threads_world there)
    · rw [retired?_settleTrace h.core_eq, retired]
    · intro step rounds
      have refused := Core.enter_eq_none c m.memory thread owner Native.ownTid running
      simp only [runTrace, h.core_eq, there, h.program_eq, Option.bind_eq_bind, Option.bind_some,
        TraceCore.execute, refused]
      rfl
  | false =>
    obtain ⟨e, entered, cpu, -, interrupted⟩ :=
      Core.exists_enter c m.memory thread owner Native.ownTid running
    cases waiting : th.params.interrupt with
    | true =>
      refine .inr (.inl ⟨rfl, rfl, (c.leave thread e e.activation c.backend .breakLoop).notices,
        m.settleTrace core thread (c.leave thread e e.activation c.backend .breakLoop), ?_, ?_, ?_⟩)
      · have regs := Core.regs_enter entered
        have memory : (c.leave thread e e.activation c.backend .breakLoop).memory = m.memory :=
          congrArg Mmu.memory (Core.mmu_enter entered)
        rw [world_settleTrace there, view_leave, regs, Core.interrupt_enter entered, memory,
          TraceCore.view, GuestThread.view, running]
        rfl
      · rw [retired?_settleTrace h.core_eq, retired]
        rfl
      · intro step rounds
        simp only [runTrace, h.core_eq, there, h.program_eq, Option.bind_eq_bind,
          Option.bind_some, TraceCore.execute, entered, interrupted, waiting, if_true]
        rfl
    | false =>
      exact .inr (.inr ⟨rfl, rfl, e, h.core_eq, there, h.program_eq, entered,
        interrupted.trans waiting⟩)

/-- A run that begins ends as the thread's instructions do. -/
theorem Prepared.halts_of_opened (h : Prepared m core c program)
    (opened : Opened m core thread c th program e) :
    m.Halts core thread step reason n w ↔
      ∃ v, Ends (program.effect c.backend.strictAlignment) step
          ⟨(c.view thread th).regs, m.memory⟩ reason n v ∧
        (m.world.withMemory v.memory).set thread ⟨v.regs, false, false⟩ = w := by
  obtain ⟨undisturbed, view⟩ := h.undisturbed opened
  have retired := retired?_of_get h.core_eq
  have world : ∀ {rounds t a}, Trace.run program ⟨step, owner⟩ rounds c.backend e.activation =
      some (reason, t, a) →
      (m.settleTrace core thread (c.leave thread e a t reason)).world =
        (m.world.withMemory a.cpu.view.memory).set thread ⟨a.cpu.view.regs, false, false⟩ := by
    intro rounds t a ran
    have free := (undisturbed.run h.sized ran).1.free
    rw [world_settleTrace opened.thread_eq, view_leave, free]
    rfl
  constructor
  · rintro ⟨m', runs, counted, rfl⟩
    obtain ⟨rounds, t, a, ran, rfl⟩ := opened.runs_iff.1 runs
    rw [retired?_settleTrace h.core_eq, retired] at counted
    refine ⟨a.cpu.view, ?_, (world ran).symm⟩
    rw [← view]
    exact (undisturbed.run_iff h.sized ⟨step, owner⟩ reason n _).1
      ⟨rounds, t, a, ran, Option.some.inj counted, rfl⟩
  · rintro ⟨v, ends, rfl⟩
    rw [← view] at ends
    obtain ⟨rounds, t, a, ran, counted, rfl⟩ :=
      (undisturbed.run_iff h.sized ⟨step, owner⟩ reason n v).2 ends
    refine ⟨_, opened.runs_iff.2 ⟨rounds, t, a, ran, rfl⟩, ?_, world ran⟩
    rw [retired?_settleTrace h.core_eq, retired]
    exact congrArg some counted

/-- A run leaves the map open, and it executed some number of instructions. -/
theorem Prepared.halts_of_runs (h : Prepared m core c program)
    (ran : m.Runs core thread step reason m') :
    m'.memory.Open ∧ ∃ n, m.Halts core thread step reason n m'.world := by
  have retired := retired?_of_get h.core_eq
  cases there : m.threads.get? thread with
  | none =>
    exact absurd ran (not_runs_of_no_thread there)
  | some th =>
    have breaks : ∀ {notices m₁}, m₁.memory = m.memory → m₁.retired? core = m.retired? core →
        (∀ step rounds, m.runTrace core thread step rounds = some (.breakLoop, notices, m₁)) →
        m'.memory.Open ∧ ∃ n, m.Halts core thread step reason n m'.world := by
      intro notices m₁ memory same breaks
      obtain ⟨rfl, rfl⟩ := (runs_of_breaks breaks).1 ran
      refine ⟨memory ▸ h.opened, 0, m', ran, ?_, rfl⟩
      rw [same, retired]
      rfl
    rcases h.enter_cases there with ⟨-, notices, m₁, world, same, ends⟩ |
      ⟨-, -, notices, m₁, world, same, ends⟩ | ⟨-, -, e, opened⟩
    · exact breaks (congrArg World.memory world) same ends
    · exact breaks (congrArg World.memory world) same ends
    · obtain ⟨rounds, t, a, looped, rfl⟩ := opened.runs_iff.1 ran
      obtain ⟨undisturbed, n, counted⟩ := (h.undisturbed opened).1.run h.sized looped
      refine ⟨undisturbed.opened, n, _, ran, ?_, rfl⟩
      rw [retired?_settleTrace h.core_eq, retired]
      exact congrArg some counted

/-- What ends at once. -/
theorem halts_of_breaks {notices : List Notice} {m₁ : Machine}
    (core_eq : m.traceCores.get? core = some c) (same : m₁.retired? core = m.retired? core)
    (breaks : ∀ step rounds,
      m.runTrace core thread step rounds = some (.breakLoop, notices, m₁)) :
    m.Halts core thread step reason n w ↔ reason = .breakLoop ∧ n = 0 ∧ m₁.world = w := by
  have retired := retired?_of_get core_eq
  constructor
  · rintro ⟨m', ran, counted, rfl⟩
    obtain ⟨rfl, rfl⟩ := (runs_of_breaks breaks).1 ran
    rw [same, retired] at counted
    have none : c.backend.retired = c.backend.retired + n := Option.some.inj counted
    exact ⟨rfl, by omega, rfl⟩
  · rintro ⟨rfl, rfl, rfl⟩
    refine ⟨m₁, (runs_of_breaks breaks).2 ⟨rfl, rfl⟩, ?_, rfl⟩
    rw [same, retired]
    rfl

theorem not_halts_of_no_thread (there : m.threads.get? thread = none) :
    ¬ m.Halts core thread step reason n w := by
  rintro ⟨m', ran, -⟩
  exact not_runs_of_no_thread there ran

theorem not_sees_of_no_thread {v : GuestView} (there : m.threads.get? thread = none) :
    ¬ m.Sees core thread step n v := by
  rintro ⟨program, t, a, ⟨c, th, e, opened, -⟩, -⟩
  cases there.symm.trans opened.thread_eq

/-- A run on a core does to the machine what a run of the thread that the core sees does to the
world without cores. -/
theorem Prepared.halts_iff (h : Prepared m core c program)
    (there : m.threads.get? thread = some th) :
    m.Halts core thread step reason n w ↔
      m.world.Halts (program.effect c.backend.strictAlignment) thread (c.view thread th) step
        reason n w := by
  rcases h.enter_cases there with ⟨running, notices, m₁, world, same, breaks⟩ |
    ⟨idle, waiting, notices, m₁, world, same, breaks⟩ | ⟨idle, free, e, opened⟩
  · rw [halts_of_breaks h.core_eq same breaks, world]
    constructor
    · rintro ⟨rfl, rfl, rfl⟩
      exact .elsewhere running
    · intro halts
      cases halts with
      | elsewhere => exact ⟨rfl, rfl, rfl⟩
      | stopped idle => cases running.symm.trans idle
      | ended idle => cases running.symm.trans idle
  · rw [halts_of_breaks h.core_eq same breaks, world]
    constructor
    · rintro ⟨rfl, rfl, rfl⟩
      exact .stopped idle waiting
    · intro halts
      cases halts with
      | elsewhere running => cases idle.symm.trans running
      | stopped => exact ⟨rfl, rfl, rfl⟩
      | ended _ free => cases waiting.symm.trans free
  · rw [h.halts_of_opened opened]
    have rest : ∀ regs, (⟨regs, false, false⟩ : ThreadView) = { c.view thread th with regs } :=
      fun regs => by rw [TraceCore.view, GuestThread.view, idle, free]
    constructor
    · rintro ⟨v, ends, rfl⟩
      rw [rest]
      exact .ended idle free ends
    · intro halts
      cases halts with
      | elsewhere running => cases idle.symm.trans running
      | stopped _ waiting => cases free.symm.trans waiting
      | @ended reason n v _ _ ends => exact ⟨v, ends, by rw [rest]⟩

/-- So do its instructions one by one. -/
theorem Prepared.sees_iff (h : Prepared m core c program)
    (there : m.threads.get? thread = some th) {v : GuestView} :
    m.Sees core thread step n v ↔
      m.world.Sees (program.effect c.backend.strictAlignment) (c.view thread th) step n v := by
  have retired := retired?_of_get h.core_eq
  constructor
  · rintro ⟨program', t, a, ⟨c', th', e, opened, reached⟩, counted, rfl⟩
    cases h.core_eq.symm.trans opened.core_eq
    cases there.symm.trans opened.thread_eq
    cases h.program_eq.symm.trans opened.program_eq
    obtain ⟨undisturbed, view⟩ := h.undisturbed opened
    rw [retired] at counted
    have advances := (undisturbed.reaches_iff h.sized ⟨step, owner⟩ n _).1
      ⟨t, a, reached, (Option.some.inj counted).symm, rfl⟩
    rw [view] at advances
    obtain ⟨idle, interrupted⟩ := Core.idle_enter opened.entered
    exact ⟨idle, interrupted.symm.trans opened.free, advances⟩
  · rintro ⟨idle, free, advances⟩
    rcases h.enter_cases there with ⟨running, -⟩ | ⟨-, waiting, -⟩ | ⟨-, -, e, opened⟩
    · cases idle.symm.trans running
    · cases free.symm.trans waiting
    · obtain ⟨undisturbed, view⟩ := h.undisturbed opened
      have advances : Advances _ step ⟨(c.view thread th).regs, m.memory⟩ n v := advances
      rw [← view] at advances
      obtain ⟨t, a, reached, counted, rfl⟩ :=
        (undisturbed.reaches_iff h.sized ⟨step, owner⟩ n v).2 advances
      refine ⟨program, t, a, ⟨c, th, e, opened, reached⟩, ?_, rfl⟩
      rw [retired, counted]
      rfl

end Machine

end GuestExec
