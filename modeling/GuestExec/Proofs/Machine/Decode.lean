import GuestExec.Proofs.Machine.Contents
import GuestExec.Proofs.Trace.Decode

/-!
# Patched code and the cores that decoded it

A patch of a program shows on a core once the core is asked to forget what it
covers. Requests reach a core by calls of their own or with the changes of the
map that it hears of. If every patch was followed by such a request, a run
attempts what the program holds now, and is the run of a core that remembers
nothing.
-/

namespace GuestExec

open Trace (Program Tracer TraceCore Op)

/-! ## Requests -/

/-- The request to forget that goes with a change of the map. -/
def MappingChange.request (change : MappingChange) : Invalidation :=
  .range change.addr change.size

namespace Machine

variable {m m' : Machine} {core thread p i : Nat} {step : Bool} {program : Program}
  {stale stale' : GuestAddr → Prop}

/-- The change of the map that a call leads to. -/
def changeOf (m : Machine) : Call → Option MappingChange
  | .unmap addr => (m.memory.unmap addr).toOption.map (·.1)
  | .protect addr perms => (m.memory.protect addr perms).toOption.map (·.1)
  | .remap addr => (m.memory.remap addr).toOption.map (·.2.1)
  | _ => none

/-- The requests to forget that a call sends to a trace core. -/
def requestsTo (m : Machine) (core : Nat) : Call → List Invalidation
  | .invalidateCode i request => if i = core then [request] else []
  | .queueBusy i requests => if i = core then requests else []
  | call => (m.changeOf call).toList.map MappingChange.request

/-- Every patch of program `p` was followed by a request to the core that covers its address. -/
def Refreshed (core p : Nat) (calls : List Call) : Prop :=
  ∀ before pc op later, calls = before ++ .patch p pc op :: later →
    ∃ mid call rest, later = mid ++ call :: rest ∧
      ∃ request ∈ (after (before ++ .patch p pc op :: mid)).requestsTo core call,
        request.covers pc = true

end Machine

/-! ## What a core keeps -/

namespace Trace

variable {c c' c'' : TraceCore} {program : Program} {stale stale' stale'' : GuestAddr → Prop}

theorem Tracer.decoded_forgetAll {t : Tracer} (empty : t.decoded = .empty)
    (requests : List Invalidation) : (t.forgetAll requests).decoded = .empty := by
  induction requests generalizing t with
  | nil => exact empty
  | cons request rest ih =>
    refine ih ?_
    rw [Tracer.forget, empty]
    rfl

/-- A core changes so that of its memory of code at most the addresses with `stale'` are stale
where those with `stale` were. -/
structure TraceCore.Keeps (c : TraceCore) (stale stale' : GuestAddr → Prop) (c' : TraceCore) :
    Prop where
  program : c'.backend.program = c.backend.program
  fresh : ∀ program, (c.backend.Fresh program fun pc => c.queue.Covers pc ∨ stale pc) →
    c'.backend.Fresh program fun pc => c'.queue.Covers pc ∨ stale' pc
  empty : c.backend.decoded = .empty → c'.backend.decoded = .empty

namespace TraceCore.Keeps

theorem of_eq (backend : c'.backend = c.backend) (queue : c'.queue = c.queue) :
    c.Keeps stale stale c' :=
  ⟨by rw [backend], fun program h => by rw [backend, queue]; exact h, fun h => by rw [backend, h]⟩

theorem refl (c : TraceCore) (stale : GuestAddr → Prop) : c.Keeps stale stale c := of_eq rfl rfl

theorem trans (h : c.Keeps stale stale' c') (h' : c'.Keeps stale' stale'' c'') :
    c.Keeps stale stale'' c'' :=
  ⟨h'.program.trans h.program, fun program fresh => h'.fresh program (h.fresh program fresh),
    fun empty => h'.empty (h.empty empty)⟩

/-- The idle core carries a request out at once. -/
theorem invalidateCode (c : TraceCore) (stale : GuestAddr → Prop) (request : Invalidation) :
    c.Keeps stale (fun pc => stale pc ∧ request.covers pc = false)
      (c.invalidateCode request) := by
  have backend : (c.invalidateCode request).backend =
      c.backend.forgetAll (c.queue.push request).requests := rfl
  refine ⟨?_, fun program fresh => ?_, fun empty => ?_⟩
  · rw [backend]
    exact (SameSetup.forgetAll c.backend _).program
  · rw [backend]
    refine (fresh.forgetAll (c.queue.push request).requests).mono fun pc here => .inr ?_
    have uncovered : ¬(c.queue.push request).Covers pc := by
      rintro ⟨r, mem, covers⟩
      rw [here.2 r mem] at covers
      cases covers
    refine ⟨here.1.resolve_left fun old => uncovered (InvalidationQueue.covers_push (.inr old)), ?_⟩
    rw [← Bool.not_eq_true]
    exact fun covers => uncovered (InvalidationQueue.covers_push (.inl covers))
  · rw [backend]
    exact Tracer.decoded_forgetAll empty _

theorem mappingChanged (c : TraceCore) (stale : GuestAddr → Prop) (addr : GuestAddr)
    (size : UInt64) :
    c.Keeps stale (fun pc => stale pc ∧ (Invalidation.range addr size).covers pc = false)
      (c.mappingChanged addr size) := by
  have h := invalidateCode { c with tlb := (c.tlb.invalidateRange addr size).2 } stale
    (.range addr size)
  exact ⟨h.program, h.fresh, h.empty⟩

/-- A request that is queued will be carried out before anything is fetched. -/
theorem queueBusy (c : TraceCore) (stale : GuestAddr → Prop) (request : Invalidation) :
    c.Keeps stale (fun pc => stale pc ∧ request.covers pc = false) (c.queueBusy request) := by
  refine ⟨rfl, fun program fresh => fresh.mono fun pc here => ?_, id⟩
  rcases here with queued | here
  · exact .inl (InvalidationQueue.covers_push (.inr queued))
  · cases covers : request.covers pc with
    | true => exact .inl (InvalidationQueue.covers_push (.inl covers))
    | false => exact .inr ⟨here, rfl⟩

theorem mono (h : c.Keeps stale stale' c') (sub : ∀ pc, stale' pc → stale'' pc) :
    c.Keeps stale stale'' c' :=
  ⟨h.program, fun program fresh => (h.fresh program fresh).mono fun pc here =>
    here.imp id (sub pc), h.empty⟩

theorem queueAll (c : TraceCore) (stale : GuestAddr → Prop) (requests : List Invalidation) :
    c.Keeps stale (fun pc => stale pc ∧ ∀ request ∈ requests, request.covers pc = false)
      (requests.foldl Core.queueBusy c) := by
  induction requests generalizing c stale with
  | nil => exact (refl c stale).mono fun pc here => ⟨here, fun _ mem => nomatch mem⟩
  | cons request rest ih =>
    refine ((queueBusy c stale request).trans (ih (c.queueBusy request) _)).mono fun pc here => ?_
    exact ⟨here.1.1, List.forall_mem_cons.2 ⟨here.1.2, here.2⟩⟩

end TraceCore.Keeps

/-- A run leaves stale what was stale before and not about to be forgotten. -/
theorem fresh_execute (stale : GuestAddr → Prop) {memory : MemoryMap} {ref : ThreadRef}
    {thread : GuestThread} {mode : RunMode} {hostTid : Int32} {rounds : Nat}
    {reason : HaltReason} {left : Core.Left Tracer}
    (executed : c.execute program memory ref thread mode hostTid rounds = some (reason, left)) :
    left.core.backend.program = c.backend.program ∧
      ((c.backend.Fresh program fun pc => c.queue.Covers pc ∨ stale pc) →
        left.core.backend.Fresh program fun pc => left.core.queue.Covers pc ∨ stale pc) := by
  rw [TraceCore.execute] at executed
  split at executed
  · cases executed
    exact ⟨rfl, id⟩
  · rename_i e entered
    have queue := Core.queue_enter entered
    split at executed
    · cases executed
      refine ⟨rfl, fun fresh => ?_⟩
      show c.backend.Fresh program fun pc => e.activation.queue.Covers pc ∨ stale pc
      rw [queue]
      exact fresh
    · obtain ⟨⟨reason', t, a⟩, ran, executed⟩ := Option.map_eq_some_iff.1 executed
      cases executed
      refine ⟨(sameSetup_run ran).program, fun fresh => ?_⟩
      have drained : FreshWhenDrained program c.backend e.activation stale := by
        rw [FreshWhenDrained, queue]
        exact fresh
      exact (fresh_run drained ran).mono fun pc here => .inr here

end Trace

/-! ## What a machine keeps -/

namespace Machine

variable {m m' : Machine} {core thread p i : Nat} {step : Bool} {program : Program}
  {stale stale' : GuestAddr → Prop}

/-- What is stale after a call: what was stale and is not asked to be forgotten, and what is
patched. -/
def staleAfter (m : Machine) (core p : Nat) (stale : GuestAddr → Prop) (call : Call)
    (pc : GuestAddr) : Prop :=
  (stale pc ∧ ∀ request ∈ m.requestsTo core call, request.covers pc = false) ∨
    ∃ op, call = .patch p pc op

/-- If the core runs program `p`, it remembers what that program holds, but where a queued request
covers the address or it is stale. -/
def Remembers (m : Machine) (core p : Nat) (stale : GuestAddr → Prop) : Prop :=
  ∀ c, m.traceCores.get? core = some c → c.backend.program = p →
    (∀ program, m.programs.get? p = some program →
      c.backend.Fresh program fun pc => c.queue.Covers pc ∨ stale pc) ∧
    (m.programs.get? p = none → c.backend.decoded = .empty)

/-- No core comes into being when a change is announced. -/
theorem get?_announce_none (there : m.traceCores.get? core = none) (change : MappingChange) :
    (m.announce change).2.traceCores.get? core = none := by
  rw [(told_announce m change).traces core, there, Option.map_none]

namespace Remembers

theorem of_cores (h : m.Remembers core p stale) (programs : m'.programs = m.programs)
    (cores : ∀ c', m'.traceCores.get? core = some c' →
      ∃ c, m.traceCores.get? core = some c ∧ c.Keeps stale stale' c') :
    m'.Remembers core p stale' := by
  intro c' there' runs
  obtain ⟨c, there, keeps⟩ := cores c' there'
  obtain ⟨fresh, empty⟩ := h c there (keeps.program.symm.trans runs)
  rw [programs]
  exact ⟨fun program held => keeps.fresh program (fresh program held),
    fun free => keeps.empty (empty free)⟩

theorem of_eq (h : m.Remembers core p stale) (programs : m'.programs = m.programs)
    (cores : m'.traceCores.get? core = m.traceCores.get? core) : m'.Remembers core p stale :=
  h.of_cores programs fun c' there => ⟨c', cores ▸ there, .refl c' stale⟩

theorem mono (h : m.Remembers core p stale) (sub : ∀ pc, stale pc → stale' pc) :
    m.Remembers core p stale' :=
  h.of_cores rfl fun c there => ⟨c, there, (Trace.TraceCore.Keeps.refl c stale).mono sub⟩

/-- One trace core is replaced. -/
theorem setTrace (h : m.Remembers core p stale) {c : TraceCore}
    (there : m.traceCores.get? i = some c) (c' : TraceCore) (keeps : c.Keeps stale stale c')
    (programs : m'.programs = m.programs) (cores : m'.traceCores = m.traceCores.set i c') :
    m'.Remembers core p stale := by
  refine h.of_cores programs fun x there' => ?_
  rw [cores, Roster.get?_set_of_get? there] at there'
  split at there'
  · rename_i here
    cases there'
    exact ⟨c, here ▸ there, keeps⟩
  · exact ⟨x, there', .refl x stale⟩

/-! ### Changes of the map -/

theorem hear (h : m.Remembers core p stale) (change : MappingChange) (s : Subscriber) :
    (m.hear change s).2.Remembers core p stale := by
  cases s with
  | traceCore i =>
    refine h.of_cores rfl fun c' there => ?_
    rw [Machine.hear, Roster.get?_modify] at there
    split at there
    · rename_i here
      obtain ⟨c, old, rfl⟩ := Option.map_eq_some_iff.1 there
      exact ⟨c, here ▸ old, (Trace.TraceCore.Keeps.mappingChanged c stale _ _).mono
        fun pc here => here.1⟩
    · exact ⟨c', there, .refl c' stale⟩
  | _ => exact h.of_eq rfl rfl

theorem hear_self (h : m.Remembers core p stale) (change : MappingChange) :
    (m.hear change (.traceCore core)).2.Remembers core p
      fun pc => stale pc ∧ change.request.covers pc = false := by
  refine h.of_cores rfl fun c' there => ?_
  rw [Machine.hear, Roster.get?_modify, if_pos rfl] at there
  obtain ⟨c, old, rfl⟩ := Option.map_eq_some_iff.1 there
  exact ⟨c, old, .mappingChanged c stale _ _⟩

/-- A core that hears of a change forgets what it covers. -/
theorem announce (h : m.Remembers core p stale) (change : MappingChange)
    (hears : .traceCore core ∈ m.subscribers) :
    (m.announce change).2.Remembers core p
      fun pc => stale pc ∧ change.request.covers pc = false := by
  obtain ⟨front, rest, eq⟩ := List.append_of_mem hears
  rw [Machine.announce, eq, List.foldl_append, List.foldl_cons]
  have before := foldl_hear_induction (P := (·.Remembers core p stale)) h
    (fun _ s kept => kept.hear change s) front []
  exact foldl_hear_induction (P := (·.Remembers core p _)) (before.hear_self change)
    (fun _ s kept => kept.hear change s) rest _

/-! ### Programs and cores -/

theorem addTraceCore (h : m.Remembers core p stale) {index program : Nat} {config : CoreConfig}
    {plain : Bool} (added : m.addTraceCore index program config plain = .ok (i, m')) :
    m'.Remembers core p stale := by
  obtain ⟨c, new, added⟩ := map_eq_ok added
  have empty : c.backend.decoded = .empty := by
    rw [TraceCore.new, Core.new] at new
    split at new
    · cases new
    · cases new
      rfl
  have result : m'.programs = m.programs ∧ m'.traceCores = (m.traceCores.add c).2 := by
    cases added
    split <;> exact ⟨rfl, rfl⟩
  intro c' there runs
  rw [result.2, Roster.get?_add] at there
  rw [result.1]
  split at there
  · cases there
    refine ⟨fun program _ pc op remembered => ?_, fun _ => empty⟩
    rw [empty] at remembered
    cases remembered
  · exact h c' there runs

theorem dropTraceCore (h : m.Remembers core p stale) (i : Nat) :
    (m.dropTraceCore i).Remembers core p stale := by
  refine h.of_cores rfl fun c there => ?_
  rw [Machine.dropTraceCore, Roster.get?_drop] at there
  split at there
  · cases there
  · exact ⟨c, there, .refl c stale⟩

theorem addProgram (h : m.Remembers core p stale) (added : Program) :
    (m.addProgram added).2.Remembers core p stale := by
  intro c there runs
  obtain ⟨fresh, empty⟩ := h c there runs
  have programs : (m.addProgram added).2.programs.get? p =
      if p = (m.programs.add added).1 then some added else m.programs.get? p :=
    Roster.get?_add m.programs added p
  rw [programs]
  split
  · rename_i here
    have free : m.programs.get? p = none := by
      rw [here]
      exact Roster.get?_size m.programs
    refine ⟨fun program _ pc op remembered => ?_, fun held => nomatch held⟩
    rw [empty free] at remembered
    cases remembered
  · exact ⟨fresh, empty⟩

theorem patch (h : m.Remembers core p stale) (pc : GuestAddr) (op : Op) :
    (m.patch p pc op).Remembers core p fun pc' => stale pc' ∨ pc' = pc := by
  intro c there runs
  obtain ⟨fresh, empty⟩ := h c there runs
  have programs : (m.patch p pc op).programs.get? p =
      (m.programs.get? p).map (·.patch pc op) := by
    rw [Machine.patch, Roster.get?_modify, if_pos rfl]
  rw [programs]
  refine ⟨fun program held => ?_, fun free => ?_⟩
  · obtain ⟨old, before, rfl⟩ := Option.map_eq_some_iff.1 held
    exact ((fresh old before).patch pc op).mono fun pc' here => or_assoc.1 here
  · exact empty (Option.map_eq_none_iff.1 free)

theorem patch_other (h : m.Remembers core p stale) {q : Nat} (other : q ≠ p) (pc : GuestAddr)
    (op : Op) : (m.patch q pc op).Remembers core p stale := by
  intro c there runs
  have programs : (m.patch q pc op).programs.get? p = m.programs.get? p := by
    rw [Machine.patch, Roster.get?_modify, if_neg (Ne.symm other)]
  rw [programs]
  exact h c there runs

/-! ### Runs -/

theorem runTrace (h : m.Remembers core p stale) {rounds : Nat} {reason : HaltReason}
    {notices : List Notice} (ran : m.runTrace i thread step rounds = some (reason, notices, m')) :
    m'.Remembers core p stale := by
  obtain ⟨c, th, program, left, there, -, held, executed, -, rfl⟩ := exists_of_runTrace ran
  intro c' there' runs
  change (m.traceCores.set i left.core).get? core = some c' at there'
  rw [Roster.get?_set_of_get? there] at there'
  split at there'
  · rename_i here
    cases there'
    obtain ⟨same, fresh⟩ := Trace.fresh_execute stale executed
    rw [same] at runs
    obtain ⟨before, -⟩ := h c (here ▸ there) runs
    rw [runs] at held
    refine ⟨fun program' held' => ?_, fun free => ?_⟩
    · cases held.symm.trans held'
      exact fresh (before program held)
    · exact nomatch held.symm.trans free
  · exact h c' there' runs

/-! ### Every call -/

theorem getD (h : m.Remembers core p stale) {α : Type} {o : Option α} {f : α → Machine}
    (done : ∀ a, o = some a → (f a).Remembers core p stale) :
    ((o.map f).getD m).Remembers core p stale :=
  getD_map (P := fun m : Machine => m.Remembers core p stale) h done

theorem onThread (h : m.Remembers core p stale) {α : Type} {f : GuestThread → α × GuestThread}
    {a : α} (done : m.onThread i f = some (a, m')) : m'.Remembers core p stale := by
  obtain ⟨t, -, done⟩ := Option.bind_eq_some_iff.1 done
  cases done
  exact h.of_eq rfl rfl

/-- A core that is asked for something may forget; the others are left alone. -/
theorem onTraceCore (h : m.Remembers core p stale) {α : Type} {f : TraceCore → α × TraceCore}
    (asked : i = core → ∀ c : TraceCore, c.Keeps stale stale' (f c).2)
    (other : i ≠ core → ∀ pc, stale pc → stale' pc) :
    (((m.onTraceCore i f).map (·.2)).getD m).Remembers core p stale' := by
  cases there : m.traceCores.get? i with
  | none =>
    simp only [Machine.onTraceCore, there, Option.bind_eq_bind, Option.bind_none, Option.map_none,
      Option.getD_none]
    by_cases here : i = core
    · intro c there'
      rw [← here, there] at there'
      cases there'
    · exact h.mono (other here)
  | some c =>
    simp only [Machine.onTraceCore, there, Option.bind_eq_bind, Option.bind_some]
    refine of_cores h rfl fun c' there' => ?_
    change (m.traceCores.set i (f c).2).get? core = some c' at there'
    rw [Roster.get?_set_of_get? there] at there'
    split at there'
    · rename_i here
      cases there'
      exact ⟨c, here ▸ there, asked here.symm c⟩
    · rename_i apart
      exact ⟨c', there', (Trace.TraceCore.Keeps.refl c' stale).mono (other (Ne.symm apart))⟩

/-- A call that sends no request leaves stale what was stale. -/
theorem silent (h : m'.Remembers core p stale) {call : Call}
    (none : m.requestsTo core call = []) :
    m'.Remembers core p (staleAfter m core p stale call) := by
  refine h.mono fun pc here => .inl ⟨here, fun request mem => ?_⟩
  rw [none] at mem
  cases mem

/-- A change of the map reaches the core, if it exists. -/
theorem change (h : m.Remembers core p stale) (hears : ∀ c, m.traceCores.get? core = some c →
    .traceCore core ∈ m.subscribers) (memory : MemoryMap) {change : MappingChange} {call : Call}
    (requests : m.requestsTo core call = [change.request]) :
    ((m.withMemory memory).announce change).2.Remembers core p
      (staleAfter m core p stale call) := by
  have before : (m.withMemory memory).Remembers core p stale := h.of_eq rfl rfl
  cases there : m.traceCores.get? core with
  | some c =>
    refine (before.announce change (hears c there)).mono fun pc here => .inl ⟨here.1, ?_⟩
    rw [requests]
    exact fun request mem => List.mem_singleton.1 mem ▸ here.2
  | none =>
    have none : ((m.withMemory memory).announce change).2.traceCores.get? core = none :=
      get?_announce_none (m := m.withMemory memory) there change
    intro c there'
    rw [none] at there'
    cases there'

theorem apply (h : m.Remembers core p stale) (hears : ∀ c, m.traceCores.get? core = some c →
    .traceCore core ∈ m.subscribers) (call : Call) :
    (m.apply call).Remembers core p (staleAfter m core p stale call) := by
  cases call with
  | map | mapIdentity =>
    refine silent (getD_ok (P := fun m : Machine => m.Remembers core p stale) h ?_) rfl
    intro _ done
    obtain ⟨memory, -, rfl⟩ := map_eq_ok done
    exact h.of_eq rfl rfl
  | unmap addr =>
    simp only [Machine.apply, Machine.unmap]
    cases done : m.memory.unmap addr with
    | error e => exact h.silent (by simp only [requestsTo, changeOf, done]; rfl)
    | ok x => exact h.change hears x.2 (by simp only [requestsTo, changeOf, done]; rfl)
  | protect addr perms =>
    simp only [Machine.apply, Machine.protect]
    cases done : m.memory.protect addr perms with
    | error e => exact h.silent (by simp only [requestsTo, changeOf, done]; rfl)
    | ok x => exact h.change hears x.2 (by simp only [requestsTo, changeOf, done]; rfl)
  | remap addr =>
    simp only [Machine.apply, Machine.remap]
    cases done : m.memory.remap addr with
    | error e => exact h.silent (by simp only [requestsTo, changeOf, done]; rfl)
    | ok x => exact h.change hears x.2.2 (by simp only [requestsTo, changeOf, done]; rfl)
  | addProgram added => exact (h.addProgram added).silent rfl
  | patch q pc op =>
    by_cases same : q = p
    · subst same
      refine (h.patch pc op).mono fun pc' here => ?_
      rcases here with here | rfl
      · exact .inl ⟨here, fun _ mem => nomatch mem⟩
      · exact .inr ⟨op, rfl⟩
    · exact (h.patch_other same pc op).silent rfl
  | storeRegisters | claim | setRunning | setHostTid | interrupt | lock =>
    exact silent (h.getD fun _ done => h.onThread done) rfl
  | updateRegisters i thread f =>
    refine silent (h.getD fun _ done => ?_) rfl
    obtain ⟨c, there, done⟩ := Option.bind_eq_some_iff.1 done
    obtain ⟨t, -, done⟩ := Option.bind_eq_some_iff.1 done
    cases done
    exact h.setTrace there (c.updateRegisters thread t f).1 (.of_eq rfl rfl) rfl rfl
  | getRegisters i thread =>
    refine silent (h.getD fun _ done => ?_) rfl
    obtain ⟨c, there, done⟩ := Option.bind_eq_some_iff.1 done
    obtain ⟨t, -, done⟩ := Option.bind_eq_some_iff.1 done
    cases done
    exact h.setTrace there (c.getRegisters thread t).2 (.of_eq rfl rfl) rfl rfl
  | addTraceCore index program config =>
    refine silent (getD_toOption (P := fun m : Machine => m.Remembers core p stale) h ?_) rfl
    exact fun _ added => h.addTraceCore added
  | dropTraceCore i => exact (h.dropTraceCore i).silent rfl
  | runTrace => exact silent (h.getD fun _ done => h.runTrace done) rfl
  | invalidateCode i request =>
    refine h.onTraceCore (fun here c => ?_) fun apart pc here => .inl ⟨here, fun r mem => ?_⟩
    · refine (Trace.TraceCore.Keeps.invalidateCode c stale request).mono fun pc left =>
        .inl ⟨left.1, fun r mem => ?_⟩
      rw [requestsTo, if_pos here] at mem
      exact List.mem_singleton.1 mem ▸ left.2
    · rw [requestsTo, if_neg apart] at mem
      cases mem
  | queueBusy i requests =>
    refine h.onTraceCore (fun here c => ?_) fun apart pc here => .inl ⟨here, fun r mem => ?_⟩
    · refine (Trace.TraceCore.Keeps.queueAll c stale requests).mono fun pc left =>
        .inl ⟨left.1, fun r mem => ?_⟩
      rw [requestsTo, if_pos here] at mem
      exact left.2 r mem
    · rw [requestsTo, if_neg apart] at mem
      cases mem
  | invalidateTlb | lookupTlb =>
    exact silent (h.onTraceCore (fun _ c => .of_eq rfl rfl) fun _ _ => id) rfl
  | addNativeCore =>
    refine silent (getD_toOption (P := fun m : Machine => m.Remembers core p stale) h ?_) rfl
    intro _ added
    obtain ⟨c, -, added⟩ := map_eq_ok added
    cases added
    exact h.of_eq rfl rfl
  | prepareNative | invalidateNative | invalidateNativeTlb =>
    refine silent (h.getD fun _ done => ?_) rfl
    obtain ⟨c, -, done⟩ := Option.bind_eq_some_iff.1 done
    cases done
    exact h.of_eq rfl rfl
  | unlock | runNative | interruptNative =>
    refine silent (h.getD fun _ done => ?_) rfl
    obtain ⟨c, -, done⟩ := Option.bind_eq_some_iff.1 done
    obtain ⟨t, -, done⟩ := Option.bind_eq_some_iff.1 done
    cases done
    exact h.of_eq rfl rfl
  | _ => exact silent (m := m) (h.of_eq rfl rfl) rfl

end Remembers

end Machine

end GuestExec
