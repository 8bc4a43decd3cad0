import GuestExec.Proofs.Machine.Coreless

/-!
# Strict alignment does not show

A core that is strict about alignment traps on misaligned accesses and makes them
in software, and another makes them through its TLB. In an open map a guest
cannot tell the two apart, whatever either of them did before: at each
instruction it sees the same registers and memory, and a run ends for the same
reason, after as many instructions.
-/

namespace GuestExec.Machine

open Trace (Program TraceCore)

variable {m : Machine} {core i j thread : Nat} {step strict strict' : Bool} {program : Program}
  {calls : List Call}

/-- The core is as strict as this, runs this program and was told of every patch of it. -/
def Serves (calls : List Call) (core : Nat) (strict : Bool) (program : Program) : Prop :=
  ∃ c, (after calls).traceCores.get? core = some c ∧ c.config.strictAlignment = strict ∧
    (after calls).programs.get? c.backend.program = some program ∧
    Refreshed core c.backend.program calls

/-- A core that serves is fit to run its program in an open map. -/
theorem Serves.prepared (h : Serves calls core strict program)
    (sized : ∀ pc, (program.opAt pc).sized = true) (opened : (after calls).memory.Open) :
    ∃ c, Prepared (after calls) core c program ∧ c.backend.strictAlignment = strict := by
  obtain ⟨c, there, rfl, held, refreshed⟩ := h
  exact ⟨c, prepared_after calls there held refreshed opened sized,
    strict_after calls there⟩

/-- The registers of a thread as a trace core sees them. -/
def context? (m : Machine) (core thread : Nat) : Option Registers :=
  (m.getRegisters core thread).map (·.1)

/-- Two cores that see a thread with the same registers begin its run alike. -/
theorem view_eq_of_context? {c d : TraceCore} {th : GuestThread}
    (core_eq : m.traceCores.get? i = some c) (core_eq' : m.traceCores.get? j = some d)
    (there : m.threads.get? thread = some th) (start : m.context? i thread = m.context? j thread) :
    c.view thread th = d.view thread th := by
  have regs : (c.getRegisters thread th).1 = (d.getRegisters thread th).1 := by
    simpa only [context?, getRegisters, core_eq, core_eq', there, Option.bind_eq_bind,
      Option.bind_some, Option.map_some, Option.pure_def, Option.some.injEq] using start
  rw [TraceCore.view, TraceCore.view, regs]

/-- In fewer than 2^64 calls all cores see a thread with the same registers. -/
theorem context?_after (calls : List Call) (few : calls.length < 0x1_0000_0000_0000_0000)
    {c : TraceCore} {th : GuestThread} (core_eq : (after calls).traceCores.get? core = some c)
    (there : (after calls).threads.get? thread = some th) :
    (after calls).context? core thread = some th.stored := by
  have stored : (c.getRegisters thread th).1 = th.stored :=
    (((faithful_after calls few).traces core_eq).truthful there).get.1
  simp only [context?, getRegisters, core_eq, there, Option.bind_eq_bind, Option.bind_some,
    Option.map_some, Option.pure_def, stored]

/-- Two cores that run one program do the same with a thread that both see alike, if the program's
effect is the same on both. -/
theorem Serves.sees_and_halts_iff (h : Serves calls i strict program)
    (h' : Serves calls j strict' program) (sized : ∀ pc, (program.opAt pc).sized = true)
    (opened : (after calls).memory.Open) (same : program.effect strict = program.effect strict')
    (thread : Nat) (step : Bool)
    (start : (after calls).context? i thread = (after calls).context? j thread) :
    (∀ n v, (after calls).Sees i thread step n v ↔ (after calls).Sees j thread step n v) ∧
      ∀ reason n w,
        (after calls).Halts i thread step reason n w ↔
          (after calls).Halts j thread step reason n w := by
  obtain ⟨c, prepared, rfl⟩ := h.prepared sized opened
  obtain ⟨d, prepared', rfl⟩ := h'.prepared sized opened
  cases there : (after calls).threads.get? thread with
  | none =>
    exact ⟨fun n v => iff_of_false (not_sees_of_no_thread there) (not_sees_of_no_thread there),
      fun reason n w => iff_of_false (not_halts_of_no_thread there) (not_halts_of_no_thread there)⟩
  | some th =>
    have view := view_eq_of_context? prepared.core_eq prepared'.core_eq there start
    constructor
    · intro n v
      rw [prepared.sees_iff there, prepared'.sees_iff there, view, same]
    · intro reason n w
      rw [prepared.halts_iff there, prepared'.halts_iff there, view, same]

/-- A run on a strict core and one on a core that is not, which begin with the same registers, show
the guest the same after every number of instructions, and end in the same ways: for the same
reason, after as many instructions, with the same registers and memory. -/
theorem strict_iff_lax (calls : List Call) {program : Program}
    (strict : Serves calls i true program) (lax : Serves calls j false program)
    (encodable : ∀ pc, (program.opAt pc).encodable = true)
    (opened : (after calls).memory.Open) (thread : Nat) (step : Bool)
    (start : (after calls).context? i thread = (after calls).context? j thread) :
    (∀ n v, (after calls).Sees i thread step n v ↔ (after calls).Sees j thread step n v) ∧
      ∀ reason n w,
        (after calls).Halts i thread step reason n w ↔
          (after calls).Halts j thread step reason n w :=
  strict.sees_and_halts_iff lax (fun pc => Trace.Op.sized_of_encodable (encodable pc)) opened
    (Trace.Program.effect_eq encodable true false) thread step start

/-- A program that was never patched is up to date everywhere. -/
theorem serves_of_unpatched {p : Nat}
    (core_eq : ((after calls).traceCores.get? core).map
      (fun c => (c.config.strictAlignment, c.backend.program)) = some (strict, p))
    (held : (after calls).programs.get? p = some program)
    (unpatched : ∀ pc op, .patch p pc op ∉ calls) : Serves calls core strict program := by
  obtain ⟨c, there, eq⟩ := Option.map_eq_some_iff.1 core_eq
  cases eq
  refine ⟨c, there, rfl, held, fun before pc op later split => absurd ?_ (unpatched pc op)⟩
  rw [split]
  exact List.mem_append_right _ List.mem_cons_self

/-- Two pages that hold data and a third with code, and two cores: a store across the first two
pages, a signed load of half of it and a load off the end of the code. -/
def misalignedAccesses : List Call :=
  [.map ⟨0x12000⟩ 0x1000 .readExecute, .map ⟨0x10000⟩ 0x2000 .readWrite,
    .addProgram (.ofOps ⟨0x12000⟩
      [.mov 2 0x8070605040302010, .store 2 31 0x10ffd 8, .load 3 31 0x10ffe 4 true,
        .load 31 31 0x12fff 2 false]),
    .addThread 1 { Registers.zero with pc := 0x12000 },
    .addTraceCore 0 0 { strictAlignment := true }, .addTraceCore 1 0 {}]

theorem strict_iff_lax_misalignedAccesses : ∃ w : World,
    (after misalignedAccesses).Halts 0 0 false .dataAbort 3 w ∧
      (after misalignedAccesses).Halts 1 0 false .dataAbort 3 w ∧
      (w.threads 0).map (·.regs.far) = some 0x13000 := by
  have programs : ((after misalignedAccesses).programs.get? 0).map
      (·.ops.values.all Trace.Op.encodable) = some true := by decide +kernel
  obtain ⟨program, held, encodable⟩ := Option.map_eq_some_iff.1 programs
  have unpatched : ∀ pc op, .patch 0 pc op ∉ misalignedAccesses :=
    fun pc op mem => by simp [misalignedAccesses] at mem
  have strict : Serves misalignedAccesses 0 true program :=
    serves_of_unpatched (by decide +kernel) held unpatched
  have lax : Serves misalignedAccesses 1 false program :=
    serves_of_unpatched (by decide +kernel) held unpatched
  have opened : (after misalignedAccesses).memory.Open :=
    MemoryMap.open_of_values (by decide +kernel)
  have same := (strict_iff_lax misalignedAccesses strict lax
    (Trace.Program.opAt_of_values encodable rfl) opened 0 false (by decide +kernel)).2
  -- The run is made on the core that is not strict.
  have ends : ((after misalignedAccesses).runTrace 1 0 false 12).map (fun x =>
      (x.1, x.2.2.retired? 1, (x.2.2.world.threads 0).map (·.regs.far))) =
      some (.dataAbort, some 3, some 0x13000) := by decide +kernel
  obtain ⟨⟨reason, notices, m'⟩, ran, eq⟩ := Option.map_eq_some_iff.1 ends
  obtain ⟨rfl, counted, far⟩ := by simpa only [Prod.mk.injEq] using eq
  have start : (after misalignedAccesses).retired? 1 = some 0 := by decide +kernel
  have halts : (after misalignedAccesses).Halts 1 0 false .dataAbort 3 m'.world :=
    ⟨m', ⟨12, notices, ran⟩, by rw [counted, start]; rfl, rfl⟩
  exact ⟨m'.world, (same .dataAbort 3 m'.world).2 halts, halts, far⟩

end GuestExec.Machine
