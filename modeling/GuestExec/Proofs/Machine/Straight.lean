import GuestExec.Proofs.Machine.Decode

/-!
# Runs that fetch straight from the program

A trace core remembers the operations that it decodes. Once every patch of its
program was followed by a request to forget it, that cannot be told: what a run
attempts is what the program holds, and it ends like the run of a core that
looks every operation up in the program.
-/

namespace GuestExec

open Trace (Program Tracer TraceCore Op)

/-! ## Runs by another loop -/

/-- A way to run a tracer for a number of rounds at most. -/
abbrev Trace.RunLoop :=
  Program → RunMode → Nat → Tracer → Activation → Option (HaltReason × Tracer × Activation)

/-- A run of a thread on a core with the loop `loop`. -/
def Trace.TraceCore.executeBy (loop : Trace.RunLoop) (c : TraceCore) (program : Program)
    (memory : MemoryMap) (ref : ThreadRef) (thread : GuestThread) (mode : RunMode)
    (hostTid : Int32) (rounds : Nat) : Option (HaltReason × Core.Left Tracer) :=
  match c.enter memory ref thread mode.owner hostTid with
  | none => some (.breakLoop, { core := c, thread, memory, notices := [c.refusal thread] })
  | some entered =>
    if entered.interrupted then
      some (.breakLoop, c.leave ref entered entered.activation c.backend .breakLoop)
    else
      (loop program mode rounds c.backend entered.activation).map fun (reason, tracer, a) =>
        (reason, c.leave ref entered a tracer reason)

namespace Machine

variable {m m' : Machine} {core thread p : Nat} {step : Bool} {rounds : Nat}

/-- Runs or steps a thread on a trace core with the loop `loop`. -/
def runBy (loop : Trace.RunLoop) (m : Machine) (core thread : Nat) (step : Bool) (rounds : Nat) :
    Option (HaltReason × List Notice × Machine) := do
  let c ← m.traceCores.get? core
  let t ← m.threads.get? thread
  let program ← m.programs.get? c.backend.program
  let (reason, left) ←
    c.executeBy loop program m.memory thread t { step, owner } Native.ownTid rounds
  return (reason, left.notices, m.settleTrace core thread left)

theorem runBy_run (m : Machine) (core thread : Nat) (step : Bool) (rounds : Nat) :
    m.runBy Trace.run core thread step rounds = m.runTrace core thread step rounds := rfl

/-- The machine with nothing in the core's memory of code. -/
def blank (m : Machine) (core : Nat) : Machine :=
  { m with traceCores := m.traceCores.modify core fun c => { c with backend := c.backend.blank } }

/-- A run's result, but for what its core remembers of the code. -/
def seen (core : Nat) : HaltReason × List Notice × Machine → HaltReason × List Notice × Machine :=
  fun (reason, notices, m) => (reason, notices, m.blank core)

theorem seen_straight {c : TraceCore} {th : GuestThread} {program : Program}
    (core_eq : m.traceCores.get? core = some c) (thread_eq : m.threads.get? thread = some th)
    (program_eq : m.programs.get? c.backend.program = some program)
    (fresh : c.backend.Fresh program fun pc => c.queue.Covers pc ∨ False) (step : Bool)
    (rounds : Nat) :
    (m.runBy Trace.straightRun core thread step rounds).map (seen core) =
      (m.runTrace core thread step rounds).map (seen core) := by
  simp only [runBy, runTrace, core_eq, thread_eq, program_eq, Option.bind_eq_bind,
    Option.bind_some, TraceCore.executeBy, TraceCore.execute]
  cases entered : c.enter m.memory thread th owner Native.ownTid with
  | none => rfl
  | some e =>
    cases interrupted : e.interrupted with
    | true => simp only [interrupted, if_true]
    | false =>
      have drained : Trace.FreshWhenDrained program c.backend e.activation fun _ => False := by
        rw [Trace.FreshWhenDrained, Core.queue_enter entered]
        exact fresh
      simp only [interrupted, Bool.false_eq_true, if_false, Trace.straightRun_eq drained]
      cases Trace.run program ⟨step, owner⟩ rounds c.backend e.activation with
      | none => rfl
      | some x =>
        obtain ⟨reason, t, a⟩ := x
        have blanked : ∀ tracer : Tracer,
            (m.settleTrace core thread (c.leave thread e a tracer reason)).blank core =
              m.settleTrace core thread (c.leave thread e a tracer.blank reason) := by
          intro tracer
          simp only [blank, settleTrace, Roster.modify_set core_eq]
          rfl
        show some (seen core (_, _, _)) = some (seen core (_, _, _))
        simp only [seen, blanked]
        rfl

/-! ## Histories -/

/-- Some patch of program `p` at `pc` was not followed by a request to the core that covers it. -/
def Outdated (core p : Nat) (calls : List Call) (pc : GuestAddr) : Prop :=
  ∃ before op later, calls = before ++ .patch p pc op :: later ∧
    ∀ mid call rest, later = mid ++ call :: rest →
      ∀ request ∈ (after (before ++ .patch p pc op :: mid)).requestsTo core call,
        request.covers pc = false

theorem Refreshed.not_outdated {calls : List Call} (h : Refreshed core p calls) (pc : GuestAddr) :
    ¬Outdated core p calls pc := by
  rintro ⟨before, op, later, eq, unheard⟩
  obtain ⟨mid, call, rest, eq', request, mem, covers⟩ := h before pc op later eq
  rw [unheard mid call rest eq' request mem] at covers
  cases covers

/-- A history that grows at its end. -/
theorem Outdated.concat {calls : List Call} {call : Call} {pc : GuestAddr}
    (h : (after calls).staleAfter core p (Outdated core p calls) call pc) :
    Outdated core p (calls ++ [call]) pc := by
  rcases h with ⟨⟨before, op, later, eq, unheard⟩, silent⟩ | ⟨op, rfl⟩
  · refine ⟨before, op, later ++ [call], by rw [eq, List.append_assoc]; rfl, ?_⟩
    intro mid next rest split request mem
    rcases List.eq_nil_or_concat rest with rfl | ⟨rest, last, rfl⟩
    · obtain ⟨rfl, rfl⟩ := List.append_inj' split rfl |>.imp id (List.singleton_inj.1 ·)
      rw [← eq] at mem
      exact silent request mem
    · have shorter : later ++ [call] = (mid ++ next :: rest) ++ [last] := by
        rw [split, List.concat_eq_append, List.append_assoc]
        rfl
      exact unheard mid next rest (List.append_inj' shorter rfl).1 request mem
  · exact ⟨calls, op, [], rfl, fun mid next rest split => nomatch (List.append_eq_nil_iff.1
      split.symm).2⟩

theorem remembers_append {calls : List Call}
    (h : (after calls).Remembers core p (Outdated core p calls)) (rest : List Call) :
    (after (calls ++ rest)).Remembers core p (Outdated core p (calls ++ rest)) := by
  induction rest generalizing calls with
  | nil => rwa [List.append_nil]
  | cons call rest ih =>
    have hears : ∀ c, (after calls).traceCores.get? core = some c →
        .traceCore core ∈ (after calls).subscribers :=
      fun c there => (settled_after calls).hears (tlbOf?_trace there)
    have next : (after (calls ++ [call])).Remembers core p (Outdated core p (calls ++ [call])) := by
      rw [after_concat]
      exact (h.apply hears call).mono fun pc => Outdated.concat
    have last := ih next
    rwa [List.append_assoc] at last

/-- What a core remembers is what its program holds, but for patches it was not told of. -/
theorem remembers_after (core p : Nat) (calls : List Call) :
    (after calls).Remembers core p (Outdated core p calls) :=
  have first : (after []).Remembers core p (Outdated core p []) := fun _ there => nomatch there
  remembers_append first calls

/-! ## The cache of decoded code is invisible -/

/-- A run, or a step, attempts `op` at `pc`. -/
def Executes (m : Machine) (core thread : Nat) (step : Bool) (pc : GuestAddr) (op : Op) : Prop :=
  ∃ program t a, m.HasRound core thread step program t a ∧ Trace.Issues program t a op ∧
    ⟨a.cpu.regs.pc⟩ = pc

/-- If every patch of the program that a core runs was followed by a request to the core that
covers it, a run attempts what the program holds, and its result is that of a run that fetches
straight from the program. -/
theorem executes_opAt (calls : List Call) {core p : Nat}
    (runs : ((after calls).traceCores.get? core).map (·.backend.program) = some p)
    (refreshed : Refreshed core p calls) :
    (∀ thread step pc op, (after calls).Executes core thread step pc op →
      ((after calls).programs.get? p).map (·.opAt pc) = some op) ∧
    ∀ thread step rounds,
      ((after calls).runTrace core thread step rounds).map (seen core) =
        ((after calls).runBy Trace.straightRun core thread step rounds).map (seen core) := by
  obtain ⟨c, there, rfl⟩ := Option.map_eq_some_iff.1 runs
  have remembers := (remembers_after core c.backend.program calls) c there rfl
  have fresh : ∀ program, (after calls).programs.get? c.backend.program = some program →
      c.backend.Fresh program fun pc => c.queue.Covers pc ∨ False :=
    fun program held => (remembers.1 program held).mono fun pc here =>
      here.imp id (refreshed.not_outdated pc)
  constructor
  · rintro thread step pc op ⟨program, t, a, ⟨c', th, e, opened, reached⟩, issues, rfl⟩
    cases there.symm.trans opened.core_eq
    have drained : Trace.FreshWhenDrained program c.backend e.activation fun _ => False := by
      rw [Trace.FreshWhenDrained, Core.queue_enter opened.entered]
      exact fresh program opened.program_eq
    rw [opened.program_eq, Option.map_some, issues.op_eq_opAt (reached.fresh drained) id]
  · intro thread step rounds
    cases thread_eq : (after calls).threads.get? thread with
    | none => simp only [runTrace, runBy, there, thread_eq, Option.bind_eq_bind, Option.bind_some,
        Option.bind_none]
    | some th =>
      cases program_eq : (after calls).programs.get? c.backend.program with
      | none => simp only [runTrace, runBy, there, thread_eq, program_eq, Option.bind_eq_bind,
          Option.bind_some, Option.bind_none]
      | some program =>
        exact (seen_straight there thread_eq program_eq (fresh program program_eq) step rounds).symm

/-- Whatever was patched, a core is up to date once it is asked to forget all its code. -/
theorem refreshed_clear (core p : Nat) (calls : List Call) :
    Refreshed core p (calls ++ [.invalidateCode core .all]) := by
  intro before pc op later split
  rcases List.eq_nil_or_concat later with rfl | ⟨mid, last, rfl⟩
  · cases (List.append_inj' split rfl).2
  · have shorter : calls ++ [.invalidateCode core .all] =
        (before ++ .patch p pc op :: mid) ++ [last] := by
      rw [split, List.concat_eq_append, List.append_assoc]
      rfl
    cases (List.append_inj' shorter rfl).2
    refine ⟨mid, .invalidateCode core .all, [], List.concat_eq_append, .all, ?_, rfl⟩
    rw [requestsTo, if_pos rfl]
    exact List.mem_singleton_self _

/-- A loop whose first operation is patched after it ran once. -/
def patchedLoop : List Call :=
  [.map ⟨0x10000⟩ 0x1000 .all, .addProgram (.ofOps ⟨0x10000⟩ [.nop, .svc 1, .b (-8)]),
    .addThread 1 { Registers.zero with pc := 0x10000 }, .addTraceCore 0 0 {},
    .runTrace 0 0 false 2, .patch 0 ⟨0x10000⟩ (.svc 2)] ++ [.invalidateCode 0 .all]

/-- What shows of a run that made a supervisor call. -/
def lastCall (x : HaltReason × List Notice × Machine) : HaltReason × Option UInt32 :=
  (x.1, (x.2.2.threads.get? 0).map (·.stored.svc))

theorem executes_opAt_patchedLoop :
    (∀ thread step op, (after patchedLoop).Executes 0 thread step ⟨0x10000⟩ op → op = .svc 2) ∧
      ((after patchedLoop).runBy Trace.straightRun 0 0 false 2).map lastCall =
        some (.supervisorCall, some 2) := by
  have runs : ((after patchedLoop).traceCores.get? 0).map (·.backend.program) = some 0 := by
    decide +kernel
  obtain ⟨held, straight⟩ := executes_opAt patchedLoop runs (refreshed_clear 0 0 _)
  constructor
  · intro thread step op executed
    have now : ((after patchedLoop).programs.get? 0).map (·.opAt ⟨0x10000⟩) = some (.svc 2) := by
      decide +kernel
    exact Option.some.inj ((held thread step _ op executed).symm.trans now)
  · have ran : ((after patchedLoop).runTrace 0 0 false 2).map lastCall =
        some (.supervisorCall, some 2) := by decide +kernel
    have same := congrArg (Option.map lastCall) (straight 0 false 2)
    rw [Option.map_map, Option.map_map] at same
    exact same.symm.trans ran

/-- Nobody told the core of the patch: it still runs what it remembers. -/
example : ((after (patchedLoop.dropLast)).runTrace 0 0 false 3).map lastCall =
    some (.supervisorCall, some 1) := by decide +kernel

end Machine

end GuestExec
