import GuestExec.Proofs.Machine.Alignment

/-!
# Requests to cores

What a host asks of cores and of the map, and how it is answered: by a machine
through one of its cores (`Machine.serve`), and by a world, which has none
(`World.Answers`). A core that is fit to run its program answers as the world
does (`Prepared.serve_iff`), and cores that serve go on serving
(`exists_calls_of_serve`).
-/

namespace GuestExec

open Trace (Program Tracer TraceCore SameSetup)

/-- What a host asks for. Changes of the map are no matter of a core. -/
inductive Request where
  | run (thread : Nat) (step : Bool)
  | getContext (thread : Nat)
  | setContext (thread : Nat) (regs : Registers)
  | setSvcArguments (thread : Nat) (args : Vector UInt64 8)
  | map (addr : GuestAddr) (size : UInt64) (perms : Perms)
  | mapIdentity (addr : GuestAddr) (size : UInt64) (perms : Perms)
  | unmap (addr : GuestAddr)
  | protect (addr : GuestAddr) (perms : Perms)
  | remap (addr : GuestAddr)

inductive Answer where
  | halted (reason : HaltReason)
  | context (regs : Registers)
  | done
  /-- The region lies there now. -/
  | moved (host : HostAddr)
  | failed (error : MemoryError)
deriving DecidableEq

/-- The answer to a change of the map, and what follows it: nothing if it fails. -/
def respond {α σ : Type} (s : σ) (done : α → Answer × σ) : Except MemoryError α → Answer × σ
  | .ok a => done a
  | .error e => (.failed e, s)

namespace Machine

/-- A request is answered by a core, a run within so many rounds; nothing if they do not suffice or
there is no such core or thread. -/
def serve (m : Machine) (core rounds : Nat) : Request → Option (Answer × Machine)
  | .run thread step =>
    (m.runTrace core thread step rounds).map fun (reason, _, m) => (.halted reason, m)
  | .getContext thread => (m.getRegisters core thread).map fun (regs, m) => (.context regs, m)
  | .setContext thread regs =>
    (m.updateRegisters core thread fun _ => regs).map fun (_, m) => (.done, m)
  | .setSvcArguments thread args =>
    (m.updateRegisters core thread (·.setSvcArguments args)).map fun (_, m) => (.done, m)
  | .map addr size perms => some (respond m (fun m => (.done, m)) (m.map addr size perms))
  | .mapIdentity addr size perms =>
    some (respond m (fun m => (.done, m)) (m.mapIdentity addr size perms))
  | .unmap addr => some (respond m (fun (_, m) => (.done, m)) (m.unmap addr))
  | .protect addr perms => some (respond m (fun (_, m) => (.done, m)) (m.protect addr perms))
  | .remap addr => some (respond m (fun (host, _, m) => (.moved host, m)) (m.remap addr))

end Machine

namespace World

/-- A world's answers, and what they leave. -/
def Answers (effect : GuestView → Trace.Attempt × GuestView) (w : World) :
    Request → Answer → World → Prop
  | .run thread step, answer, w' =>
    ∃ t reason n, w.threads thread = some t ∧ w.Halts effect thread t step reason n w' ∧
      answer = .halted reason
  | .getContext thread, answer, w' =>
    ∃ t, w.threads thread = some t ∧ answer = .context t.regs ∧ w' = w
  | .setContext thread regs, answer, w' =>
    ∃ t, w.threads thread = some t ∧ answer = .done ∧ w' = w.set thread { t with regs }
  | .setSvcArguments thread args, answer, w' =>
    ∃ t, w.threads thread = some t ∧ answer = .done ∧
      w' = w.set thread { t with regs := t.regs.setSvcArguments args }
  | .map addr size perms, answer, w' =>
    respond w (fun memory => (.done, w.withMemory memory)) (w.memory.map addr size perms) =
      (answer, w')
  | .mapIdentity addr size perms, answer, w' =>
    respond w (fun memory => (.done, w.withMemory memory)) (w.memory.mapIdentity addr size perms) =
      (answer, w')
  | .unmap addr, answer, w' =>
    respond w (fun (_, memory) => (.done, w.withMemory memory)) (w.memory.unmap addr) =
      (answer, w')
  | .protect addr perms, answer, w' =>
    respond w (fun (_, memory) => (.done, w.withMemory memory)) (w.memory.protect addr perms) =
      (answer, w')
  | .remap addr, answer, w' =>
    respond w (fun (host, _, memory) => (.moved host, w.withMemory memory)) (w.memory.remap addr) =
      (answer, w')

end World

namespace Machine

variable {m m' : Machine} {core thread rounds : Nat} {strict : Bool} {program : Program}
  {c : TraceCore} {calls : List Call} {request : Request} {answer : Answer} {w w' : World}

/-! ## The same answers -/

/-- That a change is announced does not show. -/
theorem world_announce (m : Machine) (change : MappingChange) :
    (m.announce change).2.world = m.world := by
  rw [(told_announce m change).rest]
  rfl

/-- A change of the map is answered alike where what follows it looks alike. -/
theorem respond_iff {α β : Type} {x : Except MemoryError α} {y : Except MemoryError β}
    {f : α → Answer × Machine} {g : β → Answer × World} (k : β → α) (made : x = y.map k)
    (alike : ∀ b, (f (k b)).1 = (g b).1 ∧ (f (k b)).2.world = (g b).2) :
    (∃ m', some (respond m f x) = some (answer, m') ∧ m'.world = w) ↔
      respond m.world g y = (answer, w) := by
  subst made
  cases y with
  | error e =>
    constructor
    · rintro ⟨m', eq, rfl⟩
      cases eq
      rfl
    · intro eq
      cases eq
      exact ⟨m, rfl, rfl⟩
  | ok b =>
    obtain ⟨same, world⟩ := alike b
    constructor
    · rintro ⟨m', eq, rfl⟩
      have served : f (k b) = (answer, m') := Option.some.inj eq
      rw [served] at same world
      exact Prod.ext same.symm world.symm
    · intro eq
      have held : g b = (answer, w) := eq
      rw [held] at same world
      exact ⟨(f (k b)).2, congrArg some (Prod.ext same rfl), world⟩

/-- A core that is not ahead of the threads goes by the registers that are stored. -/
theorem getRegisters_iff (faithful : m.Faithful) (core_eq : m.traceCores.get? core = some c)
    {regs : Registers} :
    (∃ m', m.getRegisters core thread = some (regs, m') ∧ m'.world = w) ↔
      ∃ t, m.world.threads thread = some t ∧ regs = t.regs ∧ w = m.world := by
  cases there : m.threads.get? thread with
  | none =>
    simp only [getRegisters, core_eq, there, Option.bind_eq_bind, Option.bind_some,
      Option.bind_none, world, Option.map_none]
    constructor
    · rintro ⟨_, ⟨⟩, _⟩
    · rintro ⟨_, ⟨⟩, _⟩
  | some th =>
    have stored : (c.getRegisters thread th).1 = th.stored :=
      ((faithful.traces core_eq).truthful there).get.1
    have got : m.getRegisters core thread = some (th.stored,
        { m with traceCores := m.traceCores.set core (c.getRegisters thread th).2 }) := by
      simp only [getRegisters, core_eq, there, Option.bind_eq_bind, Option.bind_some]
      exact congrArg (fun regs => some (regs, _)) stored
    rw [got]
    constructor
    · rintro ⟨m', eq, rfl⟩
      cases eq
      exact ⟨th.view, threads_world there, rfl, rfl⟩
    · rintro ⟨t, found, rfl, rfl⟩
      cases (threads_world there).symm.trans found
      exact ⟨_, rfl, rfl⟩

/-- What is changed is the registers that are stored. -/
theorem updateRegisters_iff (faithful : m.Faithful) (core_eq : m.traceCores.get? core = some c)
    {f : Registers → Registers} :
    (∃ m' generation, m.updateRegisters core thread f = some (generation, m') ∧ m'.world = w) ↔
      ∃ t, m.world.threads thread = some t ∧
        w = m.world.set thread { t with regs := f t.regs } := by
  cases there : m.threads.get? thread with
  | none =>
    simp only [updateRegisters, core_eq, there, Option.bind_eq_bind, Option.bind_some,
      Option.bind_none, world, Option.map_none]
    constructor
    · rintro ⟨_, _, ⟨⟩, _⟩
    · rintro ⟨_, ⟨⟩, _⟩
  | some th =>
    have written : (c.updateRegisters thread th f).2 = th.store (f th.stored) :=
      (((faithful.traces core_eq).truthful there).update f).2.1
    obtain ⟨m₁, generation, done, world⟩ : ∃ m₁ generation,
        m.updateRegisters core thread f = some (generation, m₁) ∧
          m₁.world = m.world.set thread { th.view with regs := f th.stored } := by
      refine ⟨{ m with
          traceCores := m.traceCores.set core (c.updateRegisters thread th f).1
          threads := m.threads.set thread (c.updateRegisters thread th f).2 },
        (c.updateRegisters thread th f).2.generation, ?_, ?_⟩
      · simp only [updateRegisters, core_eq, there, Option.bind_eq_bind, Option.bind_some]
        rfl
      · rw [written]
        exact world_set there (th.store (f th.stored)) rfl rfl rfl
    rw [done]
    constructor
    · rintro ⟨m', generation', eq, rfl⟩
      cases eq
      exact ⟨th.view, threads_world there, world⟩
    · rintro ⟨t, found, rfl⟩
      cases (threads_world there).symm.trans found
      exact ⟨m₁, generation, rfl, world⟩

theorem serve_update_iff (faithful : m.Faithful) (core_eq : m.traceCores.get? core = some c)
    {f : Registers → Registers} :
    (∃ _ : Nat, ∃ m', (m.updateRegisters core thread f).map (fun (_, m) => (Answer.done, m)) =
        some (answer, m') ∧ m'.world = w) ↔
      ∃ t, m.world.threads thread = some t ∧ answer = .done ∧
        w = m.world.set thread { t with regs := f t.regs } := by
  rw [exists_const]
  constructor
  · rintro ⟨m', served, rfl⟩
    obtain ⟨⟨generation, m₁⟩, done, eq⟩ := Option.map_eq_some_iff.1 served
    cases eq
    obtain ⟨t, there, world⟩ := (updateRegisters_iff faithful core_eq).1
      ⟨m', generation, done, rfl⟩
    exact ⟨t, there, rfl, world⟩
  · rintro ⟨t, there, rfl, rfl⟩
    obtain ⟨m', generation, done, world⟩ :=
      (updateRegisters_iff faithful core_eq).2 ⟨t, there, rfl⟩
    exact ⟨m', by rw [done]; rfl, world⟩

/-- A core that is fit to run its program, and not ahead of the threads, answers every request as
the world does. -/
theorem Prepared.serve_iff (h : Prepared m core c program) (faithful : m.Faithful) :
    (∃ rounds m', m.serve core rounds request = some (answer, m') ∧ m'.world = w) ↔
      m.world.Answers (program.effect c.backend.strictAlignment) request answer w := by
  cases request with
  | run thread step =>
    constructor
    · rintro ⟨rounds, m', served, rfl⟩
      obtain ⟨⟨reason, notices, m₁⟩, ran, eq⟩ := Option.map_eq_some_iff.1 served
      cases eq
      obtain ⟨-, n, halts⟩ := h.halts_of_runs ⟨rounds, notices, ran⟩
      cases there : m.threads.get? thread with
      | none => exact absurd halts (not_halts_of_no_thread there)
      | some th =>
        rw [h.halts_iff there, faithful.view_eq h.core_eq there] at halts
        exact ⟨th.view, reason, n, threads_world there, halts, rfl⟩
    · rintro ⟨t, reason, n, found, halts, rfl⟩
      obtain ⟨th, there, rfl⟩ := exists_thread found
      rw [← faithful.view_eq h.core_eq there, ← h.halts_iff there] at halts
      obtain ⟨m', ⟨rounds, notices, ran⟩, -, world⟩ := halts
      exact ⟨rounds, m', by rw [serve, ran]; rfl, world⟩
  | getContext thread =>
    simp only [serve, exists_const]
    constructor
    · rintro ⟨m', served, rfl⟩
      obtain ⟨⟨regs, m₁⟩, got, eq⟩ := Option.map_eq_some_iff.1 served
      cases eq
      obtain ⟨t, there, rfl, world⟩ := (getRegisters_iff faithful h.core_eq).1 ⟨m₁, got, rfl⟩
      exact ⟨t, there, rfl, world⟩
    · rintro ⟨t, there, rfl, rfl⟩
      obtain ⟨m', got, world⟩ := (getRegisters_iff faithful h.core_eq).2 ⟨t, there, rfl, rfl⟩
      exact ⟨m', by rw [got]; rfl, world⟩
  | setContext thread regs => exact serve_update_iff faithful h.core_eq
  | setSvcArguments thread args => exact serve_update_iff faithful h.core_eq
  | map addr size perms =>
    simp only [serve, exists_const]
    exact respond_iff (fun memory => m.withMemory memory) rfl fun memory => ⟨rfl, rfl⟩
  | mapIdentity addr size perms =>
    simp only [serve, exists_const]
    exact respond_iff (fun memory => m.withMemory memory) rfl fun memory => ⟨rfl, rfl⟩
  | unmap addr =>
    simp only [serve, exists_const]
    exact respond_iff (fun x => (m.withMemory x.2).announce x.1) rfl
      fun x => ⟨rfl, world_announce _ x.1⟩
  | protect addr perms =>
    simp only [serve, exists_const]
    exact respond_iff (fun x => (m.withMemory x.2).announce x.1) rfl
      fun x => ⟨rfl, world_announce _ x.1⟩
  | remap addr =>
    simp only [serve, exists_const]
    exact respond_iff (fun x => (x.1, (m.withMemory x.2.2).announce x.2.1)) rfl
      fun x => ⟨rfl, world_announce _ x.2.1⟩

/-! ## Cores that go on serving -/

/-- Programs stay as they are, and cores keep their configuration and their program. -/
structure SameCores (m m' : Machine) : Prop where
  programs : m'.programs = m.programs
  cores : ∀ k c, m.traceCores.get? k = some c → ∃ c', m'.traceCores.get? k = some c' ∧
    c'.config = c.config ∧ c'.backend.program = c.backend.program

namespace SameCores

theorem refl (m : Machine) : SameCores m m := ⟨rfl, fun _ c there => ⟨c, there, rfl, rfl⟩⟩

theorem trans {m₁ : Machine} (h : SameCores m m₁) (h' : SameCores m₁ m') : SameCores m m' := by
  refine ⟨h'.programs.trans h.programs, fun k c there => ?_⟩
  obtain ⟨c₁, there₁, config₁, program₁⟩ := h.cores k c there
  obtain ⟨c', there', config', program'⟩ := h'.cores k c₁ there₁
  exact ⟨c', there', config'.trans config₁, program'.trans program₁⟩

/-- One core is replaced by one with its configuration and program. -/
theorem set (there : m.traceCores.get? core = some c) (c' : TraceCore)
    (config : c'.config = c.config) (program : c'.backend.program = c.backend.program)
    (programs : m'.programs = m.programs) (cores : m'.traceCores = m.traceCores.set core c') :
    SameCores m m' := by
  refine ⟨programs, fun k d before => ?_⟩
  rw [cores, Roster.get?_set_of_get? there]
  split
  · rename_i here
    subst here
    cases there.symm.trans before
    exact ⟨c', rfl, config, program⟩
  · exact ⟨d, before, rfl, rfl⟩

theorem hear (change : MappingChange) (m : Machine) (s : Subscriber) :
    SameCores m (m.hear change s).2 := by
  cases s with
  | traceCore i =>
    cases there : m.traceCores.get? i with
    | none =>
      have none : m.traceCores.modify i (·.mappingChanged change.addr change.size) =
          m.traceCores := by rw [Roster.modify, there]
      refine ⟨rfl, fun k c before => ⟨c, ?_, rfl, rfl⟩⟩
      rw [Machine.hear, none]
      exact before
    | some c =>
      refine set there (c.mappingChanged change.addr change.size) rfl ?_ rfl ?_
      · exact (SameSetup.forgetAll c.backend _).program
      · rw [Machine.hear, Roster.modify, there]
  | _ => exact ⟨rfl, fun _ c there => ⟨c, there, rfl, rfl⟩⟩

theorem announce (m : Machine) (change : MappingChange) :
    SameCores m (m.announce change).2 :=
  foldl_hear_induction (refl m) (fun m' s same => same.trans (hear change m' s)) _ _

theorem change (m : Machine) (memory : MemoryMap) (change : MappingChange) :
    SameCores m ((m.withMemory memory).announce change).2 :=
  have told := announce (m.withMemory memory) change
  ⟨told.programs, told.cores⟩

theorem respond {α : Type} {x : Except MemoryError α} {f : α → Answer × Machine}
    (served : some (respond m f x) = some (answer, m'))
    (same : ∀ a, x = .ok a → SameCores m (f a).2) : SameCores m m' := by
  cases x with
  | error e =>
    cases served
    exact refl m
  | ok a =>
    have eq : f a = (answer, m') := Option.some.inj served
    have kept := same a rfl
    rw [eq] at kept
    exact kept

end SameCores

theorem SameCores.updateRegisters {f : Registers → Registers} {x : Nat × Machine}
    (done : m.updateRegisters core thread f = some x) : SameCores m x.2 := by
  obtain ⟨c, there, done⟩ := Option.bind_eq_some_iff.1 done
  obtain ⟨t, -, done⟩ := Option.bind_eq_some_iff.1 done
  cases done
  exact .set there (c.updateRegisters thread t f).1 rfl rfl rfl rfl

theorem SameCores.runTrace {step : Bool} {reason : HaltReason} {notices : List Notice}
    (ran : m.runTrace core thread step rounds = some (reason, notices, m')) : SameCores m m' := by
  obtain ⟨c, t, program, left, there, member, -, executed, -, rfl⟩ := exists_of_runTrace ran
  exact .set there left.core (becomes_execute member executed).2.config
    (Trace.fresh_execute (fun _ => True) executed).1 rfl rfl

/-- A request leaves the cores with their configurations and programs. -/
theorem sameCores_serve (served : m.serve core rounds request = some (answer, m')) :
    SameCores m m' := by
  cases request with
  | run thread step =>
    obtain ⟨x, ran, eq⟩ := Option.map_eq_some_iff.1 served
    cases eq
    exact .runTrace ran
  | getContext thread =>
    obtain ⟨x, got, eq⟩ := Option.map_eq_some_iff.1 served
    cases eq
    obtain ⟨c, there, got⟩ := Option.bind_eq_some_iff.1 got
    obtain ⟨t, -, got⟩ := Option.bind_eq_some_iff.1 got
    cases got
    exact .set there (c.getRegisters thread t).2 rfl rfl rfl rfl
  | setContext thread regs =>
    obtain ⟨x, done, eq⟩ := Option.map_eq_some_iff.1 served
    cases eq
    exact .updateRegisters done
  | setSvcArguments thread args =>
    obtain ⟨x, done, eq⟩ := Option.map_eq_some_iff.1 served
    cases eq
    exact .updateRegisters done
  | map addr size perms =>
    refine .respond served fun m₁ mapped => ?_
    obtain ⟨memory, -, rfl⟩ := map_eq_ok mapped
    exact ⟨rfl, fun _ c there => ⟨c, there, rfl, rfl⟩⟩
  | mapIdentity addr size perms =>
    refine .respond served fun m₁ mapped => ?_
    obtain ⟨memory, -, rfl⟩ := map_eq_ok mapped
    exact ⟨rfl, fun _ c there => ⟨c, there, rfl, rfl⟩⟩
  | unmap addr =>
    refine .respond served fun x unmapped => ?_
    obtain ⟨⟨change, memory⟩, -, rfl⟩ := map_eq_ok unmapped
    exact .change m memory change
  | protect addr perms =>
    refine .respond served fun x changed => ?_
    obtain ⟨⟨change, memory⟩, -, rfl⟩ := map_eq_ok changed
    exact .change m memory change
  | remap addr =>
    refine .respond served fun x moved => ?_
    obtain ⟨⟨host, change, memory⟩, -, rfl⟩ := map_eq_ok moved
    exact .change m memory change

/-- A request to a core, as a call. -/
def callOf (core rounds : Nat) : Request → Call
  | .run thread step => .runTrace core thread step rounds
  | .getContext thread => .getRegisters core thread
  | .setContext thread regs => .updateRegisters core thread fun _ => regs
  | .setSvcArguments thread args => .updateRegisters core thread (·.setSvcArguments args)
  | .map addr size perms => .map addr size perms
  | .mapIdentity addr size perms => .mapIdentity addr size perms
  | .unmap addr => .unmap addr
  | .protect addr perms => .protect addr perms
  | .remap addr => .remap addr

theorem apply_of_serve (served : m.serve core rounds request = some (answer, m')) :
    m.apply (callOf core rounds request) = m' := by
  -- A change of the map that fails changes nothing.
  have changed : ∀ {α : Type} {x : Except MemoryError α} {f : α → Answer × Machine},
      some (respond m f x) = some (answer, m') → (x.toOption.map fun a => (f a).2).getD m = m' := by
    intro α x f eq
    cases x with
    | error e =>
      cases eq
      rfl
    | ok a => exact congrArg Prod.snd (Option.some.inj eq)
  cases request with
  | run thread step =>
    obtain ⟨x, ran, eq⟩ := Option.map_eq_some_iff.1 served
    cases eq
    rw [callOf, Machine.apply, ran]
    rfl
  | getContext thread =>
    obtain ⟨x, got, eq⟩ := Option.map_eq_some_iff.1 served
    cases eq
    rw [callOf, Machine.apply, got]
    rfl
  | setContext thread regs =>
    obtain ⟨x, done, eq⟩ := Option.map_eq_some_iff.1 served
    cases eq
    rw [callOf, Machine.apply, done]
    rfl
  | setSvcArguments thread args =>
    obtain ⟨x, done, eq⟩ := Option.map_eq_some_iff.1 served
    cases eq
    rw [callOf, Machine.apply, done]
    rfl
  | map addr size perms =>
    have done := changed served
    rw [callOf, Machine.apply, ← done, Option.map_id']
  | mapIdentity addr size perms =>
    have done := changed served
    rw [callOf, Machine.apply, ← done, Option.map_id']
  | unmap addr => exact changed served
  | protect addr perms => exact changed served
  | remap addr => exact changed served

theorem Refreshed.concat {p : Nat} {call : Call} (h : Refreshed core p calls)
    (other : ∀ pc op, call ≠ .patch p pc op) : Refreshed core p (calls ++ [call]) := by
  intro before pc op later split
  rcases List.eq_nil_or_concat later with rfl | ⟨front, last, rfl⟩
  · exact absurd (List.singleton_inj.1 (List.append_inj' split rfl).2) (other pc op)
  · have shorter : calls ++ [call] = (before ++ .patch p pc op :: front) ++ [last] := by
      rw [split, List.concat_eq_append, List.append_assoc]
      rfl
    obtain ⟨mid, next, rest, eq, covered⟩ := h before pc op front (List.append_inj' shorter rfl).1
    refine ⟨mid, next, rest ++ [last], ?_, covered⟩
    rw [List.concat_eq_append, eq, List.append_assoc]
    rfl

/-- After a request the machine is the one after one more call, and cores that serve go on
serving. -/
theorem exists_calls_of_serve
    (served : (after calls).serve core rounds request = some (answer, m')) :
    ∃ calls', after calls' = m' ∧ calls'.length = calls.length + 1 ∧
      ∀ k, Serves calls k strict program → Serves calls' k strict program := by
  have same := sameCores_serve served
  have next : after (calls ++ [callOf core rounds request]) = m' := by
    rw [after_concat]
    exact apply_of_serve served
  refine ⟨calls ++ [callOf core rounds request], next, List.length_append, ?_⟩
  rintro k ⟨c, there, rfl, held, refreshed⟩
  obtain ⟨c', there', config, program⟩ := same.cores k c there
  refine ⟨c', ?_, congrArg _ config, ?_, ?_⟩
  · rw [next]
    exact there'
  · rw [next, same.programs, program]
    exact held
  · rw [program]
    refine refreshed.concat fun pc op => ?_
    cases request <;> exact Call.noConfusion

end Machine

end GuestExec
