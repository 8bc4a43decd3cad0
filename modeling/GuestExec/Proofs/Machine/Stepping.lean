import GuestExec.Proofs.Machine.Coherence
import GuestExec.Proofs.Trace.Stepping

/-!
# Stepping a thread and running it

A thread that is stepped until a step ends with anything but `stepThread` alone
is where a run of it ends: its registers, memory, the core's TLB, the books on
faults and the count of instructions are the same.
-/

namespace GuestExec.Machine

open Trace (Program Tracer TraceCore run)

variable {m m' m₁ m₂ : Machine} {core thread k rounds : Nat} {step : Bool}
  {reason last : HaltReason}

/-- A run of a thread on a trace core, or a step, ends with `reason` and leaves `m'`. -/
def Runs (m : Machine) (core thread : Nat) (step : Bool) (reason : HaltReason) (m' : Machine) :
    Prop :=
  ∃ rounds notices, m.runTrace core thread step rounds = some (reason, notices, m')

/-- `k` steps lead from `m` to `m'`, and each ends with `stepThread` alone. -/
inductive Steps (core thread : Nat) : Nat → Machine → Machine → Prop where
  | none (m : Machine) : Steps core thread 0 m m
  | more {k : Nat} {m m₁ m' : Machine} (first : m.Runs core thread true .stepThread m₁)
    (rest : Steps core thread k m₁ m') : Steps core thread (k + 1) m m'

/-- What shows of a thread and a trace core. -/
structure Sight where
  /-- The thread's stored registers. -/
  regs : Registers
  /-- The map, with its contents and guards. -/
  memory : MemoryMap
  tlb : Tlb
  faults : FaultStats
  /-- Instructions that the core has executed so far. -/
  retired : Nat

def sight? (m : Machine) (core thread : Nat) : Option Sight := do
  let c ← m.traceCores.get? core
  let t ← m.threads.get? thread
  return { regs := t.stored, memory := m.memory, tlb := c.tlb, faults := c.faults
           retired := c.backend.retired }

/-- Instructions that the core has executed so far. -/
def retired? (m : Machine) (core : Nat) : Option Nat :=
  (m.traceCores.get? core).map (·.backend.retired)

/-! ## Runs that begin -/

/-- A run of the thread on the core begins with `e`. -/
structure Opened (m : Machine) (core thread : Nat) (c : TraceCore) (th : GuestThread)
    (program : Program) (e : Core.Entered) : Prop where
  core_eq : m.traceCores.get? core = some c
  thread_eq : m.threads.get? thread = some th
  program_eq : m.programs.get? c.backend.program = some program
  entered : c.enter m.memory thread th owner Native.ownTid = some e
  free : e.interrupted = false

variable {c : TraceCore} {th : GuestThread} {program : Program} {e : Core.Entered} {t : Tracer}
  {a : Activation}

theorem Opened.runTrace_eq (h : Opened m core thread c th program e) (step : Bool) (rounds : Nat) :
    m.runTrace core thread step rounds =
      (run program ⟨step, owner⟩ rounds c.backend e.activation).map fun (reason, t, a) =>
        (reason, (c.leave thread e a t reason).notices,
          m.settleTrace core thread (c.leave thread e a t reason)) := by
  simp only [runTrace, h.core_eq, h.thread_eq, h.program_eq, Option.bind_eq_bind, Option.bind_some,
    TraceCore.execute, h.entered, h.free, Bool.false_eq_true, if_false]
  cases run program ⟨step, owner⟩ rounds c.backend e.activation <;> rfl

theorem Opened.runs_iff (h : Opened m core thread c th program e) :
    m.Runs core thread step reason m' ↔ ∃ rounds t a,
      run program ⟨step, owner⟩ rounds c.backend e.activation = some (reason, t, a) ∧
        m.settleTrace core thread (c.leave thread e a t reason) = m' := by
  constructor
  · rintro ⟨rounds, notices, done⟩
    rw [h.runTrace_eq] at done
    obtain ⟨⟨reason', t, a⟩, ran, eq⟩ := Option.map_eq_some_iff.1 done
    cases eq
    exact ⟨rounds, t, a, ran, rfl⟩
  · rintro ⟨rounds, t, a, ran, rfl⟩
    refine ⟨rounds, (c.leave thread e a t reason).notices, ?_⟩
    rw [h.runTrace_eq, ran]
    rfl

/-- A run that does not begin ends at once, in the same way as a step, or there is none. -/
theorem opened_or (m : Machine) (core thread : Nat) :
    (∃ c th program e, Opened m core thread c th program e) ∨
      (∀ step rounds, m.runTrace core thread step rounds = none) ∨
      ∃ notices m', m'.retired? core = m.retired? core ∧
        ∀ step rounds, m.runTrace core thread step rounds = some (.breakLoop, notices, m') := by
  cases core_eq : m.traceCores.get? core with
  | none =>
    refine .inr (.inl fun step rounds => ?_)
    simp only [runTrace, core_eq, Option.bind_eq_bind, Option.bind_none]
  | some c =>
  cases thread_eq : m.threads.get? thread with
  | none =>
    refine .inr (.inl fun step rounds => ?_)
    simp only [runTrace, core_eq, thread_eq, Option.bind_eq_bind, Option.bind_some,
      Option.bind_none]
  | some th =>
  cases program_eq : m.programs.get? c.backend.program with
  | none =>
    refine .inr (.inl fun step rounds => ?_)
    simp only [runTrace, core_eq, thread_eq, program_eq, Option.bind_eq_bind, Option.bind_some,
      Option.bind_none]
  | some program =>
  have retired : ∀ left : Core.Left Tracer, left.core.backend = c.backend →
      (m.settleTrace core thread left).retired? core = m.retired? core := by
    intro left same
    have cores := Roster.get?_set_self core_eq left.core
    simp only [retired?, settleTrace, cores, core_eq, Option.map_some, same]
  cases entered : c.enter m.memory thread th owner Native.ownTid with
  | none =>
    refine .inr (.inr ⟨[c.refusal th], m.settleTrace core thread
      { core := c, thread := th, memory := m.memory, notices := [c.refusal th] }, ?_, ?_⟩)
    · exact retired { core := c, thread := th, memory := m.memory, notices := [c.refusal th] } rfl
    · intro step rounds
      simp only [runTrace, core_eq, thread_eq, program_eq, Option.bind_eq_bind, Option.bind_some,
        TraceCore.execute, entered]
      rfl
  | some e =>
    cases interrupted : e.interrupted with
    | false => exact .inl ⟨c, th, program, e, core_eq, thread_eq, program_eq, entered, interrupted⟩
    | true =>
      refine .inr (.inr ⟨(c.leave thread e e.activation c.backend .breakLoop).notices,
        m.settleTrace core thread (c.leave thread e e.activation c.backend .breakLoop), ?_, ?_⟩)
      · exact retired (c.leave thread e e.activation c.backend .breakLoop) rfl
      · intro step rounds
        simp only [runTrace, core_eq, thread_eq, program_eq, Option.bind_eq_bind, Option.bind_some,
          TraceCore.execute, entered, interrupted, if_true]
        rfl

/-! ## From one step to the next -/

/-- What shows of a processor and its tracer. -/
def Sight.of (t : Tracer) (cpu : Vcpu) : Sight :=
  { regs := cpu.regs, memory := cpu.mmu.memory, tlb := cpu.mmu.tlb, faults := cpu.stats
    retired := t.retired }

theorem Opened.sight (h : Opened m core thread c th program e) (t : Tracer) (a : Activation)
    (reason : HaltReason) :
    (m.settleTrace core thread (c.leave thread e a t reason)).sight? core thread =
      some (.of t a.cpu) := by
  have cores := Roster.get?_set_self h.core_eq (c.leave thread e a t reason).core
  have threads := Roster.get?_set_self h.thread_eq (c.leave thread e a t reason).thread
  simp only [sight?, settleTrace, cores, threads, Option.bind_eq_bind, Option.bind_some,
    Core.stored_leave]
  rfl

/-- After a step, the next run begins where the step stopped. -/
theorem Opened.next (h : Opened m core thread c th program e)
    (stepped : run program ⟨true, owner⟩ rounds c.backend e.activation =
      some (.stepThread, t, a)) :
    ∃ e', Opened (m.settleTrace core thread (c.leave thread e a t .stepThread)) core thread
        (c.leave thread e a t .stepThread).core (c.leave thread e a t .stepThread).thread
        program e' ∧
      a.Alike e'.activation := by
  obtain ⟨same, free, -⟩ := Trace.retired_run_step stepped
  obtain ⟨e', entered, alike, idle⟩ := Core.enter_leave h.entered free t
    (by decide : HaltReason.stepThread.isFatal = false) owner Native.ownTid
  have cores := Roster.get?_set_self h.core_eq (c.leave thread e a t .stepThread).core
  have threads := Roster.get?_set_self h.thread_eq (c.leave thread e a t .stepThread).thread
  refine ⟨e', ⟨cores, threads, ?_, entered, idle⟩, alike⟩
  show m.programs.get? t.program = some program
  rw [same]
  exact h.program_eq

/-- A run that ends is as many steps as it takes, the last of which ends with something else. -/
theorem Opened.steps_of_run (h : Opened m core thread c th program e)
    (ran : run program ⟨false, owner⟩ rounds c.backend e.activation = some (reason, t, a)) :
    ∃ k m₁ last m₂, Steps core thread k m m₁ ∧ m₁.Runs core thread true last m₂ ∧
      last ≠ .stepThread ∧ reason.EndsStep last ∧ m₂.sight? core thread = some (.of t a.cpu) := by
  induction rounds using Nat.strongRecOn generalizing m c th e t a with
  | ind rounds ih =>
    rcases Trace.run_step_of_run ran with
      ⟨rounds', t₁, a₁, fewer, stepped, rest⟩ | ⟨last, stepped, other, ends⟩
    · obtain ⟨e', opened, alike⟩ := h.next stepped
      obtain ⟨b, ran', alike'⟩ := Trace.run_alike alike rest
      obtain ⟨k, m₁, last, m₂, steps, final⟩ := ih rounds' fewer opened ran'
      rw [alike'.cpu] at final
      exact ⟨k + 1, m₁, last, m₂, .more (h.runs_iff.2 ⟨rounds, t₁, a₁, stepped, rfl⟩) steps, final⟩
    · exact ⟨0, m, last, _, .none m, h.runs_iff.2 ⟨rounds, t, a, stepped, rfl⟩, other, ends,
        h.sight t a last⟩

/-- Steps up to one that ends with something else make up a run. -/
theorem Opened.run_of_steps (h : Opened m core thread c th program e)
    (steps : Steps core thread k m m₁) (final : m₁.Runs core thread true last m₂)
    (other : last ≠ .stepThread) (ends : reason.EndsStep last) :
    ∃ rounds t a, run program ⟨false, owner⟩ rounds c.backend e.activation = some (reason, t, a) ∧
      m₂.sight? core thread = some (.of t a.cpu) := by
  induction steps generalizing c th e with
  | none m =>
    obtain ⟨rounds, t, a, stepped, rfl⟩ := h.runs_iff.1 final
    rcases Trace.run_of_run_step stepped with ⟨one, -⟩ | ⟨-, reason', ends', ran⟩
    · exact absurd one other
    · cases ends.unique ends'
      exact ⟨rounds, t, a, ran, h.sight t a last⟩
  | more first rest ih =>
    obtain ⟨rounds, t₁, a₁, stepped, rfl⟩ := h.runs_iff.1 first
    obtain ⟨e', opened, alike⟩ := h.next stepped
    obtain ⟨rounds', t, b, ran, sight⟩ := ih opened final
    obtain ⟨a, ran', alike'⟩ := Trace.run_alike alike.symm ran
    rcases Trace.run_of_run_step stepped with ⟨-, join⟩ | ⟨one, -⟩
    · obtain ⟨rounds'', joined⟩ := join ran'
      rw [← alike'.cpu] at sight
      exact ⟨rounds'', t, a, joined, sight⟩
    · exact absurd rfl one

/-! ## Stepping is running -/

/-- What ends at once in the same way for a run and a step. -/
theorem runs_of_breaks {notices : List Notice} (breaks : ∀ step rounds,
      m.runTrace core thread step rounds = some (.breakLoop, notices, m₁)) :
    m.Runs core thread step reason m' ↔ reason = .breakLoop ∧ m' = m₁ := by
  constructor
  · rintro ⟨rounds, notices', ran⟩
    rw [breaks] at ran
    cases ran
    exact ⟨rfl, rfl⟩
  · rintro ⟨rfl, rfl⟩
    exact ⟨0, notices, breaks step 0⟩

theorem not_runs (none : ∀ step rounds, m.runTrace core thread step rounds = .none) :
    ¬m.Runs core thread step reason m' := by
  rintro ⟨rounds, notices, ran⟩
  rw [none] at ran
  cases ran

theorem exists_run_iff_steps (m : Machine) (core thread : Nat) (reason : HaltReason)
    (seen : Sight) :
    (∃ m', m.Runs core thread false reason m' ∧ m'.sight? core thread = some seen) ↔
      ∃ k m₁ last m₂, Steps core thread k m m₁ ∧ m₁.Runs core thread true last m₂ ∧
        last ≠ .stepThread ∧ reason.EndsStep last ∧ m₂.sight? core thread = some seen := by
  rcases opened_or m core thread with
    ⟨c, th, program, e, h⟩ | none | ⟨notices, m₀, -, breaks⟩
  · constructor
    · rintro ⟨m', ran, sight⟩
      obtain ⟨rounds, t, a, done, rfl⟩ := h.runs_iff.1 ran
      rw [h.sight] at sight
      cases sight
      exact h.steps_of_run done
    · rintro ⟨k, m₁, last, m₂, steps, final, other, ends, sight⟩
      obtain ⟨rounds, t, a, ran, sight'⟩ := h.run_of_steps steps final other ends
      refine ⟨_, h.runs_iff.2 ⟨rounds, t, a, ran, rfl⟩, ?_⟩
      rw [h.sight, ← sight', sight]
  · constructor
    · rintro ⟨m', ran, -⟩
      exact absurd ran (not_runs none)
    · rintro ⟨k, m₁, last, m₂, steps, final, -⟩
      cases steps with
      | none => exact absurd final (not_runs none)
      | more first rest => exact absurd first (not_runs none)
  · constructor
    · rintro ⟨m', ran, sight⟩
      obtain ⟨rfl, rfl⟩ := (runs_of_breaks breaks).1 ran
      exact ⟨0, m, .breakLoop, m', .none m, (runs_of_breaks breaks).2 ⟨rfl, rfl⟩, by decide,
        ⟨by decide, .inl rfl⟩, sight⟩
    · rintro ⟨k, m₁, last, m₂, steps, final, -, ends, sight⟩
      cases steps with
      | none =>
        obtain ⟨rfl, rfl⟩ := (runs_of_breaks breaks).1 final
        have same := ends.unique ⟨by decide, .inl rfl⟩
        exact ⟨m₂, (runs_of_breaks breaks).2 ⟨same, rfl⟩, sight⟩
      | more first rest => exact nomatch ((runs_of_breaks breaks).1 first).1

/-- A step executes one instruction if its reason says so, and none otherwise. -/
theorem retired?_of_step (stepped : m.Runs core thread true reason m') :
    m'.retired? core =
      (m.retired? core).map (· + if reason.contains .stepThread then 1 else 0) := by
  rcases opened_or m core thread with
    ⟨c, th, program, e, h⟩ | none | ⟨notices, m₀, same, breaks⟩
  · obtain ⟨rounds, t, a, ran, rfl⟩ := h.runs_iff.1 stepped
    have cores := Roster.get?_set_self h.core_eq (c.leave thread e a t reason).core
    have count := (Trace.retired_run_step ran).2.2
    simp only [retired?, settleTrace, cores, h.core_eq, Option.map_some]
    exact congrArg some count
  · exact absurd stepped (not_runs none)
  · obtain ⟨rfl, rfl⟩ := (runs_of_breaks breaks).1 stepped
    rw [same]
    cases m.retired? core <;> rfl

theorem retired?_of_steps (steps : Steps core thread k m m₁) :
    m₁.retired? core = (m.retired? core).map (· + k) := by
  induction steps with
  | none m => cases m.retired? core <;> rfl
  | @more k m m₁ m' first rest ih =>
    rw [ih, retired?_of_step first, Option.map_map]
    refine congrArg (fun f => Option.map f (m.retired? core)) (funext fun count => ?_)
    show count + 1 + k = count + (k + 1)
    omega

theorem retired?_of_sight {seen : Sight} (h : m.sight? core thread = some seen) :
    m.retired? core = some seen.retired := by
  obtain ⟨c, there, h⟩ := Option.bind_eq_some_iff.1 h
  obtain ⟨th, -, h⟩ := Option.bind_eq_some_iff.1 h
  cases h
  rw [retired?, there]
  rfl

/-- Running a thread is stepping it. A run ends with `reason` after `n` instructions exactly when
steps that end with `stepThread` alone lead up to one that does not, which ends with `reason`, and
with `stepThread` besides if it executed its instruction. Both leave the same to be seen. A step
executes one instruction if it ends with `stepThread`, and none otherwise. -/
theorem run_iff_steps (m : Machine) (core thread : Nat) :
    (∀ reason n seen,
      (∃ m', m.Runs core thread false reason m' ∧ m'.sight? core thread = some seen ∧
        (m.retired? core).map (· + n) = some seen.retired) ↔
      ∃ k m₁ last m₂, Steps core thread k m m₁ ∧ m₁.Runs core thread true last m₂ ∧
        last ≠ .stepThread ∧ reason.EndsStep last ∧ m₂.sight? core thread = some seen ∧
        n = k + if last.contains .stepThread then 1 else 0) ∧
    ∀ reason m', m.Runs core thread true reason m' → m'.retired? core =
      (m.retired? core).map (· + if reason.contains .stepThread then 1 else 0) := by
  refine ⟨fun reason n seen => ?_, fun reason m' => retired?_of_step⟩
  -- The steps account for all that was executed.
  have counted : ∀ {k m₁ last m₂}, Steps core thread k m m₁ → m₁.Runs core thread true last m₂ →
      m₂.sight? core thread = some seen →
      ((m.retired? core).map (· + n) = some seen.retired ↔
        n = k + if last.contains .stepThread then 1 else 0) := by
    intro k m₁ last m₂ steps final sight
    rw [← retired?_of_sight sight, retired?_of_step final, retired?_of_steps steps]
    have known := retired?_of_sight sight
    rw [retired?_of_step final, retired?_of_steps steps] at known
    cases before : m.retired? core with
    | none =>
      rw [before] at known
      cases known
    | some count =>
      simp only [Option.map_some, Option.some.injEq]
      omega
  constructor
  · rintro ⟨m', ran, sight, count⟩
    obtain ⟨k, m₁, last, m₂, steps, final, other, ends, sight'⟩ :=
      (exists_run_iff_steps m core thread reason seen).1 ⟨m', ran, sight⟩
    exact ⟨k, m₁, last, m₂, steps, final, other, ends, sight', (counted steps final sight').1 count⟩
  · rintro ⟨k, m₁, last, m₂, steps, final, other, ends, sight', count⟩
    obtain ⟨m', ran, sight⟩ := (exists_run_iff_steps m core thread reason seen).2
      ⟨k, m₁, last, m₂, steps, final, other, ends, sight'⟩
    exact ⟨m', ran, sight, (counted steps final sight').2 count⟩

/-- A thread about to load from its own page and then to call its supervisor. -/
def loadAndCall : List Call :=
  [.map ⟨0x10000⟩ 0x1000 .all,
    .addProgram (.ofOps ⟨0x10000⟩ [.load 0 31 0x10000 8 false, .svc 3]),
    .addThread 1 { Registers.zero with pc := 0x10000 }, .addTraceCore 0 0 {}]

theorem run_iff_steps_loadAndCall :
    (∃ k m₁ last m₂, Steps 0 0 k (after loadAndCall) m₁ ∧ m₁.Runs 0 0 true last m₂ ∧
        last ≠ .stepThread ∧ HaltReason.supervisorCall.EndsStep last ∧
        2 = k + if last.contains .stepThread then 1 else 0) ∧
      ∃ m', (after loadAndCall).Runs 0 0 true .stepThread m' ∧ m'.retired? 0 = some 1 := by
  have whole : ((after loadAndCall).runTrace 0 0 false 3).map
      (fun x => (x.1, (x.2.2.sight? 0 0).map (·.retired))) = some (.supervisorCall, some 2) := by
    decide +kernel
  have single : ((after loadAndCall).runTrace 0 0 true 2).map (·.1) = some .stepThread := by
    decide +kernel
  have before : (after loadAndCall).retired? 0 = some 0 := by decide +kernel
  constructor
  · obtain ⟨⟨reason, notices, m'⟩, ran, eq⟩ := Option.map_eq_some_iff.1 whole
    obtain ⟨rfl, retired⟩ := Prod.mk.inj eq
    obtain ⟨seen, sight, retired⟩ := Option.map_eq_some_iff.1 retired
    have count : ((after loadAndCall).retired? 0).map (· + 2) = some seen.retired := by
      rw [before, retired]
      rfl
    obtain ⟨k, m₁, last, m₂, steps, final, other, ends, -, n⟩ :=
      ((run_iff_steps (after loadAndCall) 0 0).1 _ 2 seen).1 ⟨m', ⟨3, notices, ran⟩, sight, count⟩
    exact ⟨k, m₁, last, m₂, steps, final, other, ends, n⟩
  · obtain ⟨⟨reason, notices, m'⟩, ran, eq⟩ := Option.map_eq_some_iff.1 single
    cases eq
    refine ⟨m', ⟨2, notices, ran⟩, ?_⟩
    rw [(run_iff_steps (after loadAndCall) 0 0).2 _ m' ⟨2, notices, ran⟩, before]
    rfl

end GuestExec.Machine
