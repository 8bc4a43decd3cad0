import GuestExec.Proofs.Machine.Stepping
import GuestExec.Proofs.Trace.Contents

/-!
# What a run does to memory

A run of a thread on a trace core changes bytes where the guest may write and
only where one of the stores that it attempts goes. That holds at every point of
the run, so also for one that never ends.
-/

namespace GuestExec.Machine

open Trace (Program Tracer)

variable {m m' : Machine} {core thread : Nat} {step : Bool} {program : Program} {t : Tracer}
  {a : Activation}

/-- A round of a run, or of a step, of the thread on the core starts with `t` and `a`. -/
def HasRound (m : Machine) (core thread : Nat) (step : Bool) (program : Program) (t : Tracer)
    (a : Activation) : Prop :=
  ∃ c th e, Opened m core thread c th program e ∧
    Trace.Reaches program ⟨step, owner⟩ c.backend e.activation t a

/-- `memory` is the map at some point of a run or a step, or at its end. -/
inductive Passes (m : Machine) (core thread : Nat) (step : Bool) : MemoryMap → Prop where
  | during {program : Program} {t : Tracer} {a : Activation}
    (round : m.HasRound core thread step program t a) : Passes m core thread step a.cpu.mmu.memory
  | ended {reason : HaltReason} {m' : Machine} (ran : m.Runs core thread step reason m') :
    Passes m core thread step m'.memory

/-- A run or a step attempts a store, and `n` is one of the store's addresses. -/
def StoresTo (m : Machine) (core thread : Nat) (step : Bool) (n : Nat) : Prop :=
  ∃ program t a, m.HasRound core thread step program t a ∧ Trace.StoresAt program t a n

theorem Opened.sound {c : Trace.TraceCore} {th : GuestThread} {e : Core.Entered}
    (h : Opened m core thread c th program e) (settled : m.Settled) :
    e.activation.cpu.mmu.Sound := by
  rw [Core.mmu_enter h.entered]
  exact settled.sound_trace h.core_eq

theorem Opened.memory {c : Trace.TraceCore} {th : GuestThread} {e : Core.Entered}
    (h : Opened m core thread c th program e) : e.activation.cpu.mmu.memory = m.memory := by
  rw [Core.mmu_enter h.entered]

/-- A run that does not begin leaves memory alone. -/
theorem opened_or_memory {reason : HaltReason} (ran : m.Runs core thread step reason m') :
    (∃ c th program e, Opened m core thread c th program e) ∨ m'.memory = m.memory := by
  obtain ⟨rounds, notices, ran⟩ := ran
  obtain ⟨c, th, program, left, there, thread_eq, program_eq, executed, -, rfl⟩ :=
    exists_of_runTrace ran
  rw [Trace.TraceCore.execute] at executed
  split at executed
  · cases executed
    exact .inr rfl
  · rename_i e entered
    split at executed
    · cases executed
      refine .inr ?_
      show e.activation.cpu.mmu.memory = m.memory
      rw [Core.mmu_enter entered]
    · rename_i free
      exact .inl ⟨c, th, program, e, there, thread_eq, program_eq, entered,
        Bool.eq_false_iff.2 free⟩

/-- A run changes no byte of a region that does not allow writing, and none that is outside the
ranges of the stores it attempts, but for the one byte that a strict core writes for a store of
none. -/
theorem modifiesOnly_stores (calls : List Call) {memory : MemoryMap}
    (passes : (after calls).Passes core thread step memory) :
    (after calls).memory.ModifiesOnly ((after calls).StoresTo core thread step) memory := by
  have settled := settled_after calls
  cases passes with
  | @during program t a round =>
    obtain ⟨c, th, e, opened, reached⟩ := round
    have modified := reached.modifiesOnly (opened.sound settled)
    rw [opened.memory] at modified
    exact modified.mono fun n ⟨t₁, a₁, reached, here⟩ =>
      ⟨program, t₁, a₁, ⟨c, th, e, opened, reached⟩, here⟩
  | ended ran =>
    rcases opened_or_memory ran with ⟨c, th, program, e, opened⟩ | same
    · obtain ⟨rounds, t, a, done, rfl⟩ := opened.runs_iff.1 ran
      have modified := Trace.modifiesOnly_run (opened.sound settled) done
      rw [opened.memory] at modified
      exact modified.mono fun n ⟨t₁, a₁, reached, here⟩ =>
        ⟨program, t₁, a₁, ⟨c, th, e, opened, reached⟩, here⟩
    · exact same ▸ .refl _ _

/-- A store of eight bytes, three of them on the first of two pages, and a call of the
supervisor. -/
def straddlingStore : List Call :=
  [.map ⟨0x12000⟩ 0x1000 .readExecute, .map ⟨0x10000⟩ 0x2000 .readWrite,
    .addProgram (.ofOps ⟨0x12000⟩ [.mov 2 0x0807060504030201, .store 2 31 0x10ffd 8, .svc 0]),
    .addThread 1 { Registers.zero with pc := 0x12000 }, .addTraceCore 0 0 {}]

theorem modifiesOnly_stores_straddlingStore :
    ∃ m', (after straddlingStore).Runs 0 0 false .supervisorCall m' ∧
      (after straddlingStore).memory.ModifiesOnly ((after straddlingStore).StoresTo 0 0 false)
        m'.memory := by
  have ends : ((after straddlingStore).runTrace 0 0 false 6).map (·.1) =
      some .supervisorCall := by decide +kernel
  obtain ⟨⟨reason, notices, m'⟩, ran, rfl⟩ := Option.map_eq_some_iff.1 ends
  have runs : (after straddlingStore).Runs 0 0 false .supervisorCall m' := ⟨6, notices, ran⟩
  exact ⟨m', runs, modifiesOnly_stores straddlingStore (.ended runs)⟩

/-! ## A store of no bytes -/

/-- `n` is in the range of a store that a run or a step attempts. -/
def Fills (m : Machine) (core thread : Nat) (step : Bool) (n : Nat) : Prop :=
  ∃ program t a op, m.HasRound core thread step program t a ∧ Trace.Issues program t a op ∧
    op.Fills a.cpu.regs n

/-- A strict core, and a thread about to store no bytes. -/
def emptyStore : List Call :=
  [.map ⟨0x12000⟩ 0x1000 .readExecute, .map ⟨0x10000⟩ 0x1000 .readWrite,
    .addProgram (.ofOps ⟨0x12000⟩ [.store 2 31 0x10000 0]),
    .addThread 1 ({ Registers.zero with pc := 0x12000 }.setReg 2 0x41),
    .addTraceCore 0 0 { strictAlignment := true }]

/-- What a thread that begins to run on a core attempts to access. -/
def firstAccess (m : Machine) (core thread : Nat) : Option (GuestAddr × UInt8 × Access) := do
  let c ← m.traceCores.get? core
  let th ← m.threads.get? thread
  let program ← m.programs.get? c.backend.program
  let e ← c.enter m.memory thread th owner Native.ownTid
  let t := c.backend.forgetAll e.activation.queue.requests
  (t.fetch program ⟨e.activation.cpu.regs.pc⟩).1.dataAccess e.activation.cpu.regs

/-- A run that ends in its first round attempts no other access. -/
theorem HasRound.firstAccess {op : Trace.Op} (h : m.HasRound core thread step program t a)
    (ends : (m.runTrace core thread step 1).isSome = true) (issues : Trace.Issues program t a op) :
    m.firstAccess core thread = op.dataAccess a.cpu.regs := by
  obtain ⟨c, th, e, opened, reached⟩ := h
  rw [opened.runTrace_eq, Option.isSome_map] at ends
  obtain ⟨rfl, rfl⟩ := reached.eq_of_run_one ends
  simp only [Machine.firstAccess, opened.core_eq, opened.thread_eq, opened.program_eq,
    opened.entered, Option.bind_eq_bind, Option.bind_some, issues.op_eq]

/-- The step fills no byte and changes one. -/
theorem not_modifiesOnly_emptyStore :
    ∃ m', (after emptyStore).Runs 0 0 true .stepThread m' ∧
      ¬(after emptyStore).memory.ModifiesOnly ((after emptyStore).Fills 0 0 true) m'.memory := by
  obtain ⟨m', notices, ran, r, r', found, found', before, now⟩ : ∃ m' notices,
      (after emptyStore).runTrace 0 0 true 1 = some (.stepThread, notices, m') ∧
      ∃ r r', (after emptyStore).memory.regions.get? 0x10000 = some r ∧
        m'.memory.regions.get? 0x10000 = some r' ∧ r.backing.bytes = .zeros ∧
        r'.backing.bytes = ByteStore.zeros.write 0 [0x41] :=
    ⟨_, _, rfl, _, _, rfl, rfl, rfl, rfl⟩
  refine ⟨m', ⟨1, notices, ran⟩, fun modified => ?_⟩
  rcases modified.bytes found found' 0 with same | ⟨-, program, t, a, op, round, issues, filled⟩
  · rw [before, now] at same
    simp [ByteStore.get_write] at same
  · obtain ⟨addr, size, i, access, inside, -⟩ := filled
    have empty : ((after emptyStore).firstAccess 0 0).map (·.2.1) = some 0 := by decide +kernel
    rw [round.firstAccess (by rw [ran]; rfl) issues, access] at empty
    cases empty
    exact absurd inside (Nat.not_lt_zero i)

end GuestExec.Machine
