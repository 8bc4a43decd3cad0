import GuestExec.Proofs.Machine.Requests

/-!
# Threads that migrate

A schedule is a list of requests, each with the core that is to serve it. As
long as the map is open, a schedule on cores that run one program and are equally
strict gets the answers that a world without cores gives (`plays_iff`). So it
does not matter which core serves which request: the halt reasons, the contexts
and the memory are the same on any of them. That holds of fewer than 2^64 calls:
then the stamp of a thread comes around, and a core that was left behind takes the
thread for the one that it knew.
-/

namespace GuestExec

open Trace (Program)

/-- A change of the map asks for writing or executing only along with reading. -/
def Request.readable : Request → Bool
  | .map _ _ perms | .mapIdentity _ _ perms | .protect _ perms => perms.readable
  | _ => true

/-- Requests, each with the core that serves it. -/
abbrev Schedule := List (Nat × Request)

/-- The schedule's requests get these answers, one after the other. -/
inductive Machine.Plays : Machine → Schedule → List Answer → Machine → Prop where
  | nil (m : Machine) : Plays m [] [] m
  | cons {m m₁ m' : Machine} {core rounds : Nat} {request : Request} {answer : Answer}
    {schedule : Schedule} {answers : List Answer}
    (served : m.serve core rounds request = some (answer, m₁))
    (rest : Plays m₁ schedule answers m') :
    Plays m ((core, request) :: schedule) (answer :: answers) m'

/-- The requests get these answers of worlds without cores. -/
inductive World.Plays (effect : GuestView → Trace.Attempt × GuestView) :
    World → List Request → List Answer → World → Prop where
  | nil (w : World) : Plays effect w [] [] w
  | cons {w w₁ w' : World} {request : Request} {answer : Answer} {requests : List Request}
    {answers : List Answer} (served : w.Answers effect request answer w₁)
    (rest : Plays effect w₁ requests answers w') :
    Plays effect w (request :: requests) (answer :: answers) w'

/-- The map is open whenever a request of the schedule is made. -/
def Machine.StaysOpen (m : Machine) : Schedule → Prop
  | [] => True
  | (core, request) :: schedule => m.memory.Open ∧ ∀ rounds answer m',
      m.serve core rounds request = some (answer, m') → m'.StaysOpen schedule

/-- The map is open whenever one of the requests is made. -/
def World.StaysOpen (effect : GuestView → Trace.Attempt × GuestView) (w : World) :
    List Request → Prop
  | [] => True
  | request :: requests => w.memory.Open ∧ ∀ answer w',
      w.Answers effect request answer w' → w'.StaysOpen effect requests

namespace Machine

variable {m m' : Machine} {core rounds : Nat} {strict : Bool} {program : Program}
  {calls : List Call} {request : Request} {schedule schedule' : Schedule} {answer : Answer}
  {answers : List Answer} {w : World} {regs old : Registers} {s : ContextSlot} {n k : Nat}

/-! ## Schedules and worlds -/

/-- A core that serves answers as the world does, and goes on as a machine whose cores serve. -/
theorem Serves.serve_iff (h : Serves calls core strict program)
    (sized : ∀ pc, (program.opAt pc).sized = true) (opened : (after calls).memory.Open)
    (few : calls.length < 0x1_0000_0000_0000_0000) :
    (∃ rounds m', (after calls).serve core rounds request = some (answer, m') ∧ m'.world = w) ↔
      (after calls).world.Answers (program.effect strict) request answer w := by
  obtain ⟨c, prepared, rfl⟩ := h.prepared sized opened
  exact prepared.serve_iff (faithful_after calls few)

/-- Each request of a schedule is one call. -/
theorem fewer_of_cons {calls' : List Call} {first : Nat × Request}
    (few : calls.length + (first :: schedule).length < 0x1_0000_0000_0000_0000)
    (longer : calls'.length = calls.length + 1) :
    calls'.length + schedule.length < 0x1_0000_0000_0000_0000 := by
  rw [longer, Nat.add_assoc, Nat.add_comm 1]
  exact few

/-- The map stays open for a schedule if it does for its requests, whatever cores serve them. -/
theorem staysOpen_iff (serves : ∀ x ∈ schedule, Serves calls x.1 strict program)
    (sized : ∀ pc, (program.opAt pc).sized = true)
    (few : calls.length + schedule.length < 0x1_0000_0000_0000_0000) :
    (after calls).StaysOpen schedule ↔
      (after calls).world.StaysOpen (program.effect strict) (schedule.map (·.2)) := by
  induction schedule generalizing calls with
  | nil => exact Iff.rfl
  | cons first rest ih =>
    obtain ⟨core, request⟩ := first
    obtain ⟨here, others⟩ := List.forall_mem_cons.1 serves
    have now := Nat.lt_of_le_of_lt (Nat.le_add_right _ _) few
    refine and_congr_right fun opened => ?_
    have next : ∀ {rounds answer m'},
        (after calls).serve core rounds request = some (answer, m') →
        (m'.StaysOpen rest ↔ m'.world.StaysOpen (program.effect strict) (rest.map (·.2))) := by
      intro rounds answer m' served
      obtain ⟨calls', rfl, longer, go⟩ := exists_calls_of_serve served
      exact ih (fun x mem => go x.1 (others x mem)) (fewer_of_cons few longer)
    constructor
    · intro stays answer w answered
      obtain ⟨rounds, m', served, rfl⟩ := (here.serve_iff sized opened now).2 answered
      exact (next served).1 (stays rounds answer m' served)
    · intro stays rounds answer m' served
      exact (next served).2 (stays answer m'.world
        ((here.serve_iff sized opened now).1 ⟨rounds, m', served, rfl⟩))

/-- A schedule's answers are those of the world without cores, and so is what it leaves. -/
theorem plays_iff (serves : ∀ x ∈ schedule, Serves calls x.1 strict program)
    (sized : ∀ pc, (program.opAt pc).sized = true) (opened : (after calls).StaysOpen schedule)
    (few : calls.length + schedule.length < 0x1_0000_0000_0000_0000) :
    (∃ m', (after calls).Plays schedule answers m' ∧ m'.world = w) ↔
      (after calls).world.Plays (program.effect strict) (schedule.map (·.2)) answers w := by
  induction schedule generalizing calls answers with
  | nil =>
    constructor
    · rintro ⟨m', plays, rfl⟩
      cases plays
      exact .nil _
    · intro plays
      cases plays
      exact ⟨after calls, .nil _, rfl⟩
  | cons first rest ih =>
    obtain ⟨core, request⟩ := first
    obtain ⟨here, others⟩ := List.forall_mem_cons.1 serves
    have now := Nat.lt_of_le_of_lt (Nat.le_add_right _ _) few
    have next : ∀ {rounds answer answers m'},
        (after calls).serve core rounds request = some (answer, m') →
        ((∃ m₁, m'.Plays rest answers m₁ ∧ m₁.world = w) ↔
          m'.world.Plays (program.effect strict) (rest.map (·.2)) answers w) := by
      intro rounds answer answers m' served
      have stays := opened.2 rounds answer m' served
      obtain ⟨calls', rfl, longer, go⟩ := exists_calls_of_serve served
      exact ih (fun x mem => go x.1 (others x mem)) stays (fewer_of_cons few longer)
    constructor
    · rintro ⟨m', plays, rfl⟩
      cases plays with
      | cons served plays =>
        exact .cons ((here.serve_iff sized opened.1 now).1 ⟨_, _, served, rfl⟩)
          ((next served).1 ⟨m', plays, rfl⟩)
    · intro plays
      cases plays with
      | cons answered plays =>
        obtain ⟨rounds, m₁, served, rfl⟩ := (here.serve_iff sized opened.1 now).2 answered
        obtain ⟨m', plays, world⟩ := (next served).2 plays
        exact ⟨m', .cons served plays, world⟩

/-! ## Cores are interchangeable -/

/-- The same requests get the same answers on whatever cores serve them, so long as these are
equally strict and run one program; and the same contexts and memory are left. -/
theorem plays_iff_of_requests_eq (calls : List Call)
    (serves : ∀ x ∈ schedule, Serves calls x.1 strict program)
    (serves' : ∀ x ∈ schedule', Serves calls x.1 strict program)
    (sized : ∀ pc, (program.opAt pc).sized = true)
    (same : schedule'.map (·.2) = schedule.map (·.2))
    (opened : (after calls).StaysOpen schedule)
    (few : calls.length + schedule.length < 0x1_0000_0000_0000_0000) (answers : List Answer)
    (w : World) :
    (∃ m', (after calls).Plays schedule answers m' ∧ m'.world = w) ↔
      ∃ m', (after calls).Plays schedule' answers m' ∧ m'.world = w := by
  have length : schedule'.length = schedule.length := by
    rw [← List.length_map (f := (·.2)), same, List.length_map]
  have few' : calls.length + schedule'.length < 0x1_0000_0000_0000_0000 := length ▸ few
  have opened' : (after calls).StaysOpen schedule' := by
    rw [staysOpen_iff serves' sized few', same, ← staysOpen_iff serves sized few]
    exact opened
  rw [plays_iff serves sized opened few, plays_iff serves' sized opened' few', same]

/-! ## Maps that stay open -/

/-- A change of the map that fails leaves it open, and so does another if what follows it is. -/
theorem open_of_respond {α : Type} {x : Except MemoryError α} {f : α → Answer × World} {w' : World}
    (opened : w.memory.Open) (answered : respond w f x = (answer, w'))
    (done : ∀ a, x = .ok a → (f a).2.memory.Open) : w'.memory.Open := by
  cases x with
  | error e =>
    cases answered
    exact opened
  | ok a =>
    have kept := done a rfl
    have eq : f a = (answer, w') := answered
    rw [eq] at kept
    exact kept

/-- What is not a run leaves an open map open, unless it asks for memory that cannot be read. -/
theorem open_of_answers {effect : GuestView → Trace.Attempt × GuestView} {w' : World}
    (opened : w.memory.Open) (readable : request.readable = true)
    (quiet : ∀ thread step, request ≠ .run thread step)
    (answered : w.Answers effect request answer w') : w'.memory.Open := by
  cases request with
  | run thread step => exact absurd rfl (quiet thread step)
  | getContext thread =>
    obtain ⟨t, -, -, rfl⟩ := answered
    exact opened
  | setContext thread regs =>
    obtain ⟨t, -, -, rfl⟩ := answered
    exact opened
  | setSvcArguments thread args =>
    obtain ⟨t, -, -, rfl⟩ := answered
    exact opened
  | map addr size perms =>
    exact open_of_respond opened answered fun memory mapped => opened.map readable mapped
  | mapIdentity addr size perms =>
    exact open_of_respond opened answered fun memory mapped => opened.mapIdentity readable mapped
  | unmap addr => exact open_of_respond opened answered fun x unmapped => opened.unmap unmapped
  | protect addr perms =>
    exact open_of_respond opened answered fun x changed => opened.protect readable changed
  | remap addr => exact open_of_respond opened answered fun x moved => opened.remap moved

/-- No request closes an open map, unless it asks for memory that cannot be read. -/
theorem Serves.open_serve (h : Serves calls core strict program)
    (sized : ∀ pc, (program.opAt pc).sized = true) (opened : (after calls).memory.Open)
    (few : calls.length < 0x1_0000_0000_0000_0000) (readable : request.readable = true)
    (served : (after calls).serve core rounds request = some (answer, m')) : m'.memory.Open := by
  have answered := (h.serve_iff sized opened few).1 ⟨rounds, m', served, rfl⟩
  cases request with
  | run thread step =>
    obtain ⟨⟨reason, notices, m₁⟩, ran, eq⟩ := Option.map_eq_some_iff.1 served
    cases eq
    obtain ⟨c, prepared, -⟩ := h.prepared sized opened
    exact (prepared.halts_of_runs ⟨rounds, notices, ran⟩).1
  | _ => exact open_of_answers opened readable (fun _ _ => Request.noConfusion) answered

/-- An open map stays open while nobody asks for memory that cannot be read. -/
theorem staysOpen_of_readable (serves : ∀ x ∈ schedule, Serves calls x.1 strict program)
    (sized : ∀ pc, (program.opAt pc).sized = true) (opened : (after calls).memory.Open)
    (few : calls.length + schedule.length < 0x1_0000_0000_0000_0000)
    (readable : ∀ x ∈ schedule, x.2.readable = true) : (after calls).StaysOpen schedule := by
  induction schedule generalizing calls with
  | nil => trivial
  | cons first rest ih =>
    obtain ⟨here, others⟩ := List.forall_mem_cons.1 serves
    obtain ⟨first_readable, rest_readable⟩ := List.forall_mem_cons.1 readable
    refine ⟨opened, fun rounds answer m' served => ?_⟩
    have now := Nat.lt_of_le_of_lt (Nat.le_add_right _ _) few
    have kept := here.open_serve sized opened now first_readable served
    obtain ⟨calls', rfl, longer, go⟩ := exists_calls_of_serve served
    exact ih (fun x mem => go x.1 (others x mem)) kept (fewer_of_cons few longer) rest_readable

/-! ## A schedule on one core and on two -/

/-- A schedule with so many rounds for each run; nothing if they do not suffice. -/
def play (rounds : Nat) : Machine → Schedule → Option (List Answer × Machine)
  | m, [] => some ([], m)
  | m, (core, request) :: schedule => do
    let (answer, m) ← m.serve core rounds request
    let (answers, m) ← play rounds m schedule
    return (answer :: answers, m)

theorem plays_of_play (played : play rounds m schedule = some (answers, m')) :
    m.Plays schedule answers m' := by
  induction schedule generalizing m answers with
  | nil =>
    cases played
    exact .nil _
  | cons first rest ih =>
    obtain ⟨⟨answer, m₁⟩, served, played⟩ := Option.bind_eq_some_iff.1 played
    obtain ⟨⟨others, m₂⟩, played, eq⟩ := Option.bind_eq_some_iff.1 played
    cases eq
    exact .cons served (ih played)

/-- A loop that counts in X1 and stores the count across two pages, and two cores for it. -/
def countingLoop : List Call :=
  [.map ⟨0x12000⟩ 0x1000 .readExecute, .map ⟨0x10000⟩ 0x2000 .readWrite,
    .addProgram (.ofOps ⟨0x12000⟩
      [.addImm 1 1 1, .store 1 31 0x10ffd 8, .svc 3, .b (-12)]),
    .addThread 1 { Registers.zero with pc := 0x12000 }, .addTraceCore 0 0 {},
    .addTraceCore 1 0 {}]

/-- Two rounds of the loop, the second after the pages were made read-only. -/
def countTwice : List Request :=
  [.getContext 0, .run 0 false, .setSvcArguments 0 (.replicate 8 7),
    .protect ⟨0x10000⟩ { read := true }, .run 0 false]

/-- Every core serves the loop. -/
theorem serves_countingLoop : ∃ program, (∀ pc, (program.opAt pc).sized = true) ∧
    ∀ core < 2, Serves countingLoop core false program := by
  have programs : ((after countingLoop).programs.get? 0).map
      (·.ops.values.all Trace.Op.sized) = some true := by decide +kernel
  obtain ⟨program, held, sized⟩ := Option.map_eq_some_iff.1 programs
  refine ⟨program, Trace.Program.opAt_of_values sized rfl, fun core lt => ?_⟩
  have setups : ∀ core < 2, ((after countingLoop).traceCores.get? core).map
      (fun c => (c.config.strictAlignment, c.backend.program)) = some (false, 0) := by
    decide +kernel
  exact serves_of_unpatched (setups core lt) held
    fun pc op mem => by simp [countingLoop] at mem

theorem plays_iff_of_requests_eq_countTwice : ∃ answers w,
    (∃ m', (after countingLoop).Plays ([0, 0, 0, 0, 0].zip countTwice) answers m' ∧
      m'.world = w) ∧
    (∃ m', (after countingLoop).Plays ([1, 0, 1, 0, 1].zip countTwice) answers m' ∧
      m'.world = w) ∧
    answers = [.context { Registers.zero with pc := 0x12000 }, .halted .supervisorCall, .done,
      .done, .halted .dataAbort] ∧
    (w.threads 0).map (fun t => (t.regs.x[1], t.regs.far)) = some (8, 0x10ffd) := by
  obtain ⟨program, sized, cores⟩ := serves_countingLoop
  have opened : (after countingLoop).memory.Open := MemoryMap.open_of_values (by decide +kernel)
  have one : ∀ x ∈ [0, 0, 0, 0, 0].zip countTwice, x.1 < 2 := by decide
  have two : ∀ x ∈ [1, 0, 1, 0, 1].zip countTwice, x.1 < 2 := by decide
  have serves := fun x mem => cores x.1 (one x mem)
  have few : countingLoop.length + ([0, 0, 0, 0, 0].zip countTwice).length <
      0x1_0000_0000_0000_0000 := by decide
  have stays := staysOpen_of_readable serves sized opened few (by decide)
  -- The schedule is played on the first core.
  have ends : (play 30 (after countingLoop) ([0, 0, 0, 0, 0].zip countTwice)).map (fun x =>
      (x.1, (x.2.world.threads 0).map (fun t => (t.regs.x[1], t.regs.far)))) =
      some ([.context { Registers.zero with pc := 0x12000 }, .halted .supervisorCall, .done,
        .done, .halted .dataAbort], some (8, 0x10ffd)) := by decide +kernel
  obtain ⟨⟨answers, m'⟩, played, eq⟩ := Option.map_eq_some_iff.1 ends
  obtain ⟨told, left⟩ := Prod.ext_iff.1 eq
  have plays : ∃ m₁, (after countingLoop).Plays ([0, 0, 0, 0, 0].zip countTwice) answers m₁ ∧
      m₁.world = m'.world := ⟨m', plays_of_play played, rfl⟩
  have same := plays_iff_of_requests_eq countingLoop serves (fun x mem => cores x.1 (two x mem))
    sized rfl stays few answers m'.world
  exact ⟨answers, m'.world, plays, same.1 plays, told, left⟩

/-! ## When a stamp comes around -/

/-- The first core has the thread in its slot as it was `n` writes ago, the second has nothing in
its slot, and the thread's registers are `regs` now. -/
structure Lags (m : Machine) (s : ContextSlot) (n : Nat) (regs : Registers) : Prop where
  held : (m.traceCores.get? 0).bind (·.contexts.slot) = some s
  whose : s.thread = 0
  free : (m.traceCores.get? 1).map (·.contexts.slot) = some none
  thread : (m.threads.get? 0).map (fun t => (t.id, t.stamp, t.stored)) =
    some (s.threadId, s.stamp + UInt64.ofNat n, regs)
  opened : m.memory.Open

/-- A write through the second core is answered, and the first core lags behind by one more. -/
theorem Lags.serve (h : m.Lags s n old) (regs : Registers) :
    ∃ m' : Machine, (∀ rounds, m.serve 1 rounds (.setContext 0 regs) = some (.done, m')) ∧
      m'.Lags s (n + 1) regs := by
  obtain ⟨c, core_eq, empty⟩ := Option.map_eq_some_iff.1 h.free
  obtain ⟨t, there, now⟩ := Option.map_eq_some_iff.1 h.thread
  obtain ⟨id, stamp, -⟩ : t.id = s.threadId ∧ t.stamp = s.stamp + UInt64.ofNat n ∧
      t.stored = old := by simpa only [Prod.mk.injEq] using now
  have missed : c.contexts.fresh? 0 t = none := by
    rw [ContextCache.fresh?, empty]
    rfl
  have written : c.updateRegisters 0 t (fun _ => regs) =
      ({ c with contexts := c.contexts.countMiss }, t.store regs) := by
    rw [Core.updateRegisters, ContextCache.update, missed]
  refine ⟨{ m with
      traceCores := m.traceCores.set 1 { c with contexts := c.contexts.countMiss }
      threads := m.threads.set 0 (t.store regs) }, fun rounds => ?_, ?_, h.whose, ?_, ?_, h.opened⟩
  · simp only [Machine.serve, updateRegisters, core_eq, there, written, Option.bind_eq_bind,
      Option.bind_some, Option.pure_def, Option.map_some]
  · rw [Roster.get?_set_of_get? core_eq, if_neg (by decide)]
    exact h.held
  · rw [Roster.get?_set_self core_eq]
    exact congrArg some empty
  · rw [Roster.get?_set_self there, Option.map_some, add_ofNat_succ, ← stamp, ← id]
    rfl

/-- So are any number of writes. -/
theorem Lags.plays (h : m.Lags s k old) (regs : Registers) (n : Nat) :
    ∃ m' : Machine, m'.Lags s (k + n) (if n = 0 then old else regs) ∧
      (∀ rest, m'.StaysOpen rest →
        m.StaysOpen (List.replicate n (1, .setContext 0 regs) ++ rest)) ∧
      ∀ rest answers m'', m.Plays (List.replicate n (1, .setContext 0 regs) ++ rest) answers m'' ↔
        ∃ others, answers = List.replicate n .done ++ others ∧ m'.Plays rest others m'' := by
  induction n generalizing m k old with
  | zero =>
    exact ⟨m, h, fun rest stays => stays, fun rest answers m'' => by simp⟩
  | succ n ih =>
    obtain ⟨m₁, served, lags⟩ := h.serve regs
    obtain ⟨m', last, opens, plays⟩ := ih lags
    refine ⟨m', ?_, fun rest stays => ⟨h.opened, fun rounds answer m₂ serves => ?_⟩,
      fun rest answers m'' => ⟨fun played => ?_, ?_⟩⟩
    · rw [ite_self, Nat.add_assoc, Nat.add_comm 1] at last
      exact last
    · cases (served rounds).symm.trans serves
      exact opens rest stays
    · cases played with
      | cons serves played =>
        cases (served _).symm.trans serves
        obtain ⟨others, rfl, final⟩ := (plays rest _ m'').1 played
        exact ⟨others, rfl, final⟩
    · rintro ⟨others, rfl, played⟩
      exact .cons (served 0) ((plays rest _ m'').2 ⟨others, rfl, played⟩)

/-- Two cores without code; the first entered the thread, which was stopped at once. -/
def enteredOnFirst : List Call :=
  [.addProgram (.ofOps ⟨0x10000⟩ []), .addThread 7 .zero, .addTraceCore 0 0 {},
    .addTraceCore 1 0 {}, .interrupt 0, .runTrace 0 0 false 0]

/-- The thread is given other registers through the second core, as often as it takes for the stamp
to come around, and read through one of the cores. -/
def aroundTheStamp (core : Nat) : Schedule :=
  List.replicate 0x1_0000_0000_0000_0000 (1, .setContext 0 { Registers.zero with pc := 0x2000 }) ++
    [(core, .getContext 0)]

/-- The second core has what is stored with the thread. -/
theorem Lags.getRegisters_second (h : m.Lags s n regs) :
    (m.getRegisters 1 0).map (·.1) = some regs := by
  obtain ⟨c, core_eq, empty⟩ := Option.map_eq_some_iff.1 h.free
  obtain ⟨t, there, now⟩ := Option.map_eq_some_iff.1 h.thread
  have stored : t.stored = regs := (Prod.ext_iff.1 (Prod.ext_iff.1 now).2).2
  have missed : c.contexts.fresh? 0 t = none := by
    rw [ContextCache.fresh?, empty]
    rfl
  simp only [getRegisters, core_eq, there, Option.bind_eq_bind, Option.bind_some, Option.pure_def,
    Option.map_some, Core.getRegisters, ContextCache.get, missed, stored]

/-- After 2^64 writes the first core has what is in its slot. -/
theorem Lags.getRegisters_first (h : m.Lags s 0x1_0000_0000_0000_0000 regs) :
    (m.getRegisters 0 0).map (·.1) = some s.regs := by
  obtain ⟨c, core_eq, held⟩ := Option.bind_eq_some_iff.1 h.held
  obtain ⟨t, there, now⟩ := Option.map_eq_some_iff.1 h.thread
  obtain ⟨id, stamp, -⟩ : t.id = s.threadId ∧ t.stamp = s.stamp + _ ∧ t.stored = regs := by
    simpa only [Prod.mk.injEq] using now
  have fresh : c.contexts.fresh? 0 t = some s :=
    ContextCache.fresh?_eq_some.2
      ⟨held, id.symm, h.whose, (stamp.trans (add_ofNat_size s.stamp)).symm⟩
  simp only [getRegisters, core_eq, there, Option.bind_eq_bind, Option.bind_some, Option.pure_def,
    Option.map_some, Core.getRegisters, ContextCache.get, fresh]

/-- A read is answered with what the core has. -/
theorem plays_getContext (core : Nat) :
    m.Plays [(core, .getContext 0)] answers m' ↔
      ∃ got, m.getRegisters core 0 = some (got, m') ∧ answers = [.context got] := by
  constructor
  · intro plays
    cases plays with
    | cons served rest =>
      cases rest
      obtain ⟨⟨got, m₁⟩, read, eq⟩ := Option.map_eq_some_iff.1 served
      cases eq
      exact ⟨got, read, rfl⟩
  · rintro ⟨got, read, rfl⟩
    exact .cons (show m.serve core 0 (.getContext 0) = _ by rw [serve, read, Option.map_some])
      (.nil m')

/-- Once the stamp came around, the choice of the core shows. -/
theorem not_plays_iff_aroundTheStamp :
    (∃ program, (∀ pc, (program.opAt pc).sized = true) ∧
      ∀ core < 2, Serves enteredOnFirst core false program) ∧
    (aroundTheStamp 1).map (·.2) = (aroundTheStamp 0).map (·.2) ∧
    (after enteredOnFirst).StaysOpen (aroundTheStamp 0) ∧
    ∃ answers w,
      (∃ m', (after enteredOnFirst).Plays (aroundTheStamp 0) answers m' ∧ m'.world = w) ∧
      ¬ ∃ m', (after enteredOnFirst).Plays (aroundTheStamp 1) answers m' ∧ m'.world = w := by
  have programs : ((after enteredOnFirst).programs.get? 0).map
      (·.ops.values.all Trace.Op.sized) = some true := by decide +kernel
  obtain ⟨program, held, sized⟩ := Option.map_eq_some_iff.1 programs
  have setups : ∀ core < 2, ((after enteredOnFirst).traceCores.get? core).map
      (fun c => (c.config.strictAlignment, c.backend.program)) = some (false, 0) := by
    decide +kernel
  have serves : ∀ core < 2, Serves enteredOnFirst core false program := fun core lt =>
    serves_of_unpatched (setups core lt) held fun pc op mem => by simp [enteredOnFirst] at mem
  refine ⟨⟨program, Trace.Program.opAt_of_values sized rfl, serves⟩, ?_, ?_⟩
  · rw [aroundTheStamp, aroundTheStamp, List.map_append, List.map_append]
    rfl
  have start : (after enteredOnFirst).Lags
      { thread := 0, threadId := 7, stamp := 1, regs := .zero } 0 .zero :=
    ⟨by decide +kernel, rfl, by decide +kernel, by decide +kernel,
      MemoryMap.open_of_values (by decide +kernel)⟩
  obtain ⟨m', lags, opens, plays⟩ :=
    start.plays { Registers.zero with pc := 0x2000 } 0x1_0000_0000_0000_0000
  rw [Nat.zero_add, if_neg (by decide)] at lags
  obtain ⟨⟨_, m₁⟩, read, rfl⟩ := Option.map_eq_some_iff.1 lags.getRegisters_first
  have second := lags.getRegisters_second
  refine ⟨opens _ ⟨lags.opened, fun _ _ _ _ => trivial⟩, _, m₁.world,
    ⟨m₁, (plays _ _ m₁).2 ⟨_, rfl, (plays_getContext 0).2 ⟨_, read, rfl⟩⟩, rfl⟩, ?_⟩
  have other : Registers.zero ≠ { Registers.zero with pc := 0x2000 } := by decide
  rintro ⟨m₂, played, -⟩
  obtain ⟨others, same, played⟩ := (plays _ _ m₂).1 played
  obtain ⟨got, read', rfl⟩ := (plays_getContext 1).1 played
  have told : [Answer.context .zero] = [.context got] := List.append_cancel_left same
  cases told
  rw [read', Option.map_some] at second
  exact other (Option.some.inj second)

end Machine

end GuestExec
