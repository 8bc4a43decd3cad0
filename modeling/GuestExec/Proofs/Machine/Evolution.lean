import GuestExec.Proofs.Native.Course
import GuestExec.Proofs.Thread.Coherence
import GuestExec.Proofs.Trace.Rest

/-!
# What a call makes of threads and cores

`evolves_apply` says once what any call can do to the threads and the cores of a
machine. A thread is written or stays as it is, and its lock stays with the host
thread. A core keeps what it remembers of a thread or remembers a thread as it
is. Invariants of threads and cores follow from that without another look at the
calls.
-/

namespace GuestExec

open Native (NativeCore)
open Trace (Tracer TraceCore)

/-! ## One thread and one core -/

/-- `t'` is the thread `t` after at most one write. -/
def GuestThread.Next (t t' : GuestThread) : Prop :=
  (t'.stamp = t.stamp ∧ t'.stored = t.stored) ∨ t'.stamp = t.stamp + 1

theorem GuestThread.Next.refl (t : GuestThread) : t.Next t := .inl ⟨rfl, rfl⟩

theorem GuestThread.next_store (t : GuestThread) (regs : Registers) : t.Next (t.store regs) :=
  .inr rfl

theorem GuestThread.Next.generation_le {t t' : GuestThread} (next : t.Next t') :
    t'.generation ≤ t.generation + 1 := by
  rcases next with ⟨same, -⟩ | written
  · exact Nat.le_succ_of_le (Nat.le_of_eq (congrArg UInt64.toNat same))
  · rw [generation, written, UInt64.toNat_add]
    exact Nat.mod_le _ _

/-- `t'` is the thread `t` at a later time, as long as no stamp has come around: written since, or
with the registers it had. -/
def GuestThread.Later (t t' : GuestThread) : Prop :=
  t.generation < t'.generation ∨ (t'.generation = t.generation ∧ t'.stored = t.stored)

theorem GuestThread.Later.refl (t : GuestThread) : t.Later t := .inr ⟨rfl, rfl⟩

theorem GuestThread.Later.trans {t t' t'' : GuestThread} (h : t.Later t') (h' : t'.Later t'') :
    t.Later t'' := by
  rcases h with lt | ⟨generation, stored⟩ <;> rcases h' with lt' | ⟨generation', stored'⟩
  · exact .inl (Nat.lt_trans lt lt')
  · exact .inl (generation' ▸ lt)
  · exact .inl (generation ▸ lt')
  · exact .inr ⟨generation'.trans generation, stored'.trans stored⟩

theorem GuestThread.Next.later {t t' : GuestThread} (next : t.Next t')
    (room : t.generation + 1 < 0x1_0000_0000_0000_0000) : t.Later t' := by
  rcases next with ⟨same, stored⟩ | written
  · exact .inr ⟨congrArg UInt64.toNat same, stored⟩
  · refine .inl ?_
    rw [generation, generation, written, toNat_add_one room]
    exact Nat.lt_succ_self _

theorem ContextCache.Truthful.later {c : ContextCache} {ref : ThreadRef} {t t' : GuestThread}
    (truthful : c.Truthful ref t) (later : t.Later t') : c.Truthful ref t' := by
  intro s slot thread
  obtain ⟨le, level⟩ := truthful s slot thread
  rcases later with lt | ⟨generation, stored⟩
  · refine ⟨Nat.le_of_lt (Nat.lt_of_le_of_lt le lt), fun same => ?_⟩
    rw [same] at le
    exact absurd lt (Nat.not_lt.2 le)
  · rw [UInt64.toNat_inj.1 generation, stored]
    exact ⟨le, level⟩

namespace Core

variable {β : Type} {c : Core β} {memory : MemoryMap} {ref : ThreadRef} {thread : GuestThread}
  {owner : UInt64} {hostTid : Int32} {e : Entered}

/-- A thread is entered with the registers that the core sees. -/
theorem regs_enter (h : c.enter memory ref thread owner hostTid = some e) :
    e.activation.cpu.regs = (c.getRegisters ref thread).1 := by
  simp only [enter] at h
  split at h
  · cases h
    exact ContextCache.activate_eq_get c.contexts ref thread
  · cases h

theorem thread_enter (h : c.enter memory ref thread owner hostTid = some e) :
    e.thread = thread := by
  simp only [enter] at h
  split at h
  · cases h
    rfl
  · cases h

theorem next_leave (c : Core β) (ref : ThreadRef) (e : Entered) (a : Activation) (backend : β)
    (reason : HaltReason) : e.thread.Next (c.leave ref e a backend reason).thread := by
  rw [thread_leave]
  exact .inr rfl

theorem balanced_enter (h : c.enter memory ref thread owner hostTid = some e) :
    ThreadLock.Balanced owner thread.params.lock e.activation.params.lock := by
  simp only [enter] at h
  split at h
  · cases h
    exact .held .refl
  · cases h

theorem record_enter (h : c.enter memory ref thread owner hostTid = some e) :
    e.activation.cpu.record = c.record := by
  simp only [enter] at h
  split at h
  · cases h
    rfl
  · cases h

/-- No record of a fatal fault is left behind. -/
theorem record_leave_fatal (c : Core β) (ref : ThreadRef) (e : Entered) (a : Activation)
    (backend : β) {reason : HaltReason} (fatal : reason.isFatal = true) :
    (c.leave ref e a backend reason).core.record = none := by
  unfold leave
  simp only [fatal, if_true]

/-- A core that was left holds the thread as it is. -/
theorem current_leave (h : c.enter memory ref thread owner hostTid = some e) (a : Activation)
    (backend : β) (reason : HaltReason) :
    ∃ s, (c.leave ref e a backend reason).core.contexts.slot = some s ∧
      s.Current ref (c.leave ref e a backend reason).thread := by
  obtain ⟨s, fresh⟩ := fresh?_enter h
  have found : e.contexts.fresh? ref
      { e.thread with params := { a.params with running := false } } = some s := fresh
  have whose := (ContextCache.fresh?_eq_some.1 found).2.2.1
  unfold leave
  dsimp only
  rw [ContextCache.set, ContextCache.update, found]
  exact ⟨_, rfl, whose, rfl, rfl⟩

end Core

theorem Core.next_unlock {β : Type} (c : Core β) (t : GuestThread) (owner : UInt64) :
    t.Next (c.unlockThread t owner).1 := by
  unfold unlockThread
  dsimp only
  split <;> exact .inl ⟨rfl, rfl⟩

theorem Core.mine_unlock {β : Type} (c : Core β) (t : GuestThread) (owner : UInt64)
    (mine : t.params.lock.Mine owner) : (c.unlockThread t owner).1.params.lock.Mine owner := by
  unfold unlockThread
  dsimp only
  split
  · exact mine.release
  · exact mine

namespace Native.NativeCore

theorem lock_interrupt (c : NativeCore) (t : GuestThread) :
    (c.interrupt t).1.params.lock = t.params.lock := by
  unfold interrupt
  dsimp only
  split
  · split <;> rfl
  · rfl

theorem next_interrupt (c : NativeCore) (t : GuestThread) : t.Next (c.interrupt t).1 := by
  unfold interrupt
  dsimp only
  split
  · split <;> exact .inl ⟨rfl, rfl⟩
  · exact .inl ⟨rfl, rfl⟩

end Native.NativeCore

theorem ContextCache.slot_get (c : ContextCache) (ref : ThreadRef) (t : GuestThread) :
    (c.get ref t).2.slot = c.slot := by
  unfold get
  split <;> rfl

theorem ContextCache.refreshed_update (c : ContextCache) (ref : ThreadRef) (t : GuestThread)
    (f : Registers → Registers) :
    c.Refreshed ref (c.update ref t f).2.2 (c.update ref t f).2.1 := by
  unfold update
  split
  · rename_i s fresh
    exact .inr ⟨_, rfl, (fresh?_eq_some.1 fresh).2.2.1, rfl, rfl⟩
  · exact .inl rfl

theorem ContextCache.exists_store_update (c : ContextCache) (ref : ThreadRef) (t : GuestThread)
    (f : Registers → Registers) : ∃ regs, (c.update ref t f).2.2 = t.store regs := by
  unfold update
  split <;> exact ⟨_, rfl⟩

/-! ## Members of a roster -/

namespace Roster

variable {α : Type} {r : Roster α} {i j : Nat} {a b x : α} {R : α → α → Prop}

theorem exists_of_set (there : r.get? i = some a) (refl : ∀ x, R x x) (step : R a b)
    (now : (r.set i b).get? j = some x) : ∃ y, r.get? j = some y ∧ R y x := by
  rw [get?_set_of_get? there] at now
  split at now
  · rename_i here
    cases now
    exact ⟨a, here ▸ there, step⟩
  · exact ⟨x, now, refl x⟩

theorem exists_of_modify {f : α → α} (refl : ∀ x, R x x) (step : ∀ x, R x (f x))
    (now : (r.modify i f).get? j = some x) : ∃ y, r.get? j = some y ∧ R y x := by
  rw [get?_modify] at now
  split at now
  · rename_i here
    obtain ⟨y, there, rfl⟩ := Option.map_eq_some_iff.1 now
    exact ⟨y, here ▸ there, step y⟩
  · exact ⟨x, now, refl x⟩

theorem get?_of_drop (now : (r.drop i).get? j = some x) : r.get? j = some x := by
  rw [get?_drop] at now
  split at now
  · cases now
  · exact now

theorem get?_of_add (now : (r.add a).2.get? j = some x) :
    (j = r.members.size ∧ x = a) ∨ r.get? j = some x := by
  rw [get?_add] at now
  split at now
  · rename_i here
    cases now
    exact .inl ⟨here, rfl⟩
  · exact .inr now

end Roster

/-! ## All threads and cores -/

namespace Machine

variable {m m' m'' : Machine} {i core thread : Nat} {t t' : GuestThread} {β : Type}

/-- `t'` is the thread `t` after at most one write, its lock still free or the host thread's. -/
structure Continues (t t' : GuestThread) : Prop where
  next : t.Next t'
  mine : t.params.lock.Mine owner → t'.params.lock.Mine owner

theorem Continues.refl (t : GuestThread) : Continues t t := ⟨.refl t, id⟩

/-- What a core may become while the threads become `threads`: a slot that it fills holds a thread
as it is. -/
structure Becomes (threads : Roster GuestThread) (c c' : Core β) : Prop where
  config : c'.config = c.config
  slot : c'.contexts.slot = c.contexts.slot ∨
    ∃ s i t, c'.contexts.slot = some s ∧ threads.get? i = some t ∧ s.Current i t

/-- A trace core is as strict, and there is no new record of a fault. -/
structure TraceBecomes (threads : Roster GuestThread) (c c' : TraceCore) : Prop extends
    Becomes threads c c' where
  strict : c'.backend.strictAlignment = c.backend.strictAlignment
  record : c'.record = none ∨ c'.record = c.record

theorem Becomes.refl (threads : Roster GuestThread) (c : Core β) : Becomes threads c c :=
  ⟨rfl, .inl rfl⟩

theorem TraceBecomes.refl (threads : Roster GuestThread) (c : TraceCore) :
    TraceBecomes threads c c :=
  ⟨.refl threads c, rfl, .inr rfl⟩

/-- What a call makes of the threads and the cores. -/
structure Evolves (m m' : Machine) : Prop where
  size : m.threads.members.size ≤ m'.threads.members.size
  threads : ∀ i t', m'.threads.get? i = some t' →
    (∃ t, m.threads.get? i = some t ∧ Continues t t') ∨
      (i = m.threads.members.size ∧ ∃ id regs, t' = .new id regs)
  traces : ∀ core c', m'.traceCores.get? core = some c' →
    (∃ c, m.traceCores.get? core = some c ∧ TraceBecomes m'.threads c c') ∨
      ∃ index config program, TraceCore.new index config program = .ok c'
  natives : ∀ core c', m'.nativeCores.get? core = some c' →
    (∃ c, m.nativeCores.get? core = some c ∧ Becomes m'.threads c c') ∨
      ∃ index config, NativeCore.new index config = .ok c'

namespace Evolves

/-- Members of the rosters that stay, and others that become something. -/
theorem of_members (size : m.threads.members.size ≤ m'.threads.members.size)
    (threads : ∀ i t', m'.threads.get? i = some t' →
      ∃ t, m.threads.get? i = some t ∧ Continues t t')
    (traces : ∀ core c', m'.traceCores.get? core = some c' →
      ∃ c, m.traceCores.get? core = some c ∧ TraceBecomes m'.threads c c')
    (natives : ∀ core c', m'.nativeCores.get? core = some c' →
      ∃ c, m.nativeCores.get? core = some c ∧ Becomes m'.threads c c') : Evolves m m' :=
  ⟨size, fun i t' there => .inl (threads i t' there),
    fun core c' there => .inl (traces core c' there),
    fun core c' there => .inl (natives core c' there)⟩

theorem of_cores (threads : m'.threads = m.threads)
    (traces : ∀ core c', m'.traceCores.get? core = some c' →
      ∃ c, m.traceCores.get? core = some c ∧ TraceBecomes m'.threads c c')
    (natives : ∀ core c', m'.nativeCores.get? core = some c' →
      ∃ c, m.nativeCores.get? core = some c ∧ Becomes m'.threads c c') : Evolves m m' :=
  of_members (Nat.le_of_eq (by rw [threads])) (fun _ t there => ⟨t, threads ▸ there, .refl t⟩)
    traces natives

theorem of_eq (threads : m'.threads = m.threads) (traces : m'.traceCores = m.traceCores)
    (natives : m'.nativeCores = m.nativeCores) : Evolves m m' :=
  of_cores threads (fun _ c there => ⟨c, traces ▸ there, .refl _ c⟩)
    fun _ c there => ⟨c, natives ▸ there, .refl _ c⟩

/-- One thread goes on, and cores become something with it. -/
theorem setThread (there : m.threads.get? i = some t) (continues : Continues t t')
    (threads : m'.threads = m.threads.set i t')
    (traces : ∀ core c', m'.traceCores.get? core = some c' →
      ∃ c, m.traceCores.get? core = some c ∧ TraceBecomes m'.threads c c')
    (natives : ∀ core c', m'.nativeCores.get? core = some c' →
      ∃ c, m.nativeCores.get? core = some c ∧ Becomes m'.threads c c') : Evolves m m' := by
  refine of_members (Nat.le_of_eq (by rw [threads, Roster.size_set])) ?_ traces natives
  intro j u now
  rw [threads] at now
  exact Roster.exists_of_set there Continues.refl continues now

theorem onlyThread (there : m.threads.get? i = some t) (continues : Continues t t') :
    Evolves m { m with threads := m.threads.set i t' } :=
  setThread there continues rfl (fun _ c now => ⟨c, now, .refl _ c⟩)
    fun _ c now => ⟨c, now, .refl _ c⟩

theorem onThread {α : Type} {f : GuestThread → α × GuestThread} {a : α}
    (done : m.onThread i f = some (a, m')) (continues : ∀ t, Continues t (f t).2) :
    Evolves m m' := by
  obtain ⟨t, there, done⟩ := Option.bind_eq_some_iff.1 done
  cases done
  exact onlyThread there (continues t)

theorem onTraceCore {α : Type} {f : TraceCore → α × TraceCore} {a : α}
    (done : m.onTraceCore i f = some (a, m')) (becomes : ∀ c, TraceBecomes m.threads c (f c).2) :
    Evolves m m' := by
  obtain ⟨c, there, done⟩ := Option.bind_eq_some_iff.1 done
  cases done
  exact of_cores rfl
    (fun _ _ now => Roster.exists_of_set there (TraceBecomes.refl _) (becomes c) now)
    fun _ c now => ⟨c, now, .refl _ c⟩

end Evolves

/-! ### Changes of the map -/

theorem traceBecomes_invalidateCode (threads : Roster GuestThread) (c : TraceCore)
    (request : Invalidation) : TraceBecomes threads c (c.invalidateCode request) :=
  ⟨⟨rfl, .inl rfl⟩, (Trace.SameSetup.forgetAll c.backend (c.queue.push request).requests).strict,
    .inr rfl⟩

theorem traceBecomes_queueAll (threads : Roster GuestThread) (c : TraceCore)
    (requests : List Invalidation) :
    TraceBecomes threads c (requests.foldl Core.queueBusy c) := by
  suffices ∀ d, TraceBecomes threads c d →
      TraceBecomes threads c (requests.foldl Core.queueBusy d) from this c (.refl _ c)
  induction requests with
  | nil => exact fun d becomes => becomes
  | cons request rest ih =>
    exact fun d becomes => ih (d.queueBusy request)
      ⟨⟨becomes.config, becomes.slot⟩, becomes.strict, becomes.record⟩

theorem Becomes.trans {threads : Roster GuestThread} {c c' c'' : Core β}
    (h : Becomes threads c c') (h' : Becomes threads c' c'') : Becomes threads c c'' := by
  refine ⟨h'.config.trans h.config, ?_⟩
  rcases h'.slot with same | new
  · rw [same]
    exact h.slot
  · exact .inr new

theorem TraceBecomes.trans {threads : Roster GuestThread} {c c' c'' : TraceCore}
    (h : TraceBecomes threads c c') (h' : TraceBecomes threads c' c'') :
    TraceBecomes threads c c'' := by
  refine ⟨h.toBecomes.trans h'.toBecomes, h'.strict.trans h.strict, ?_⟩
  rcases h'.record with none | same
  · exact .inl none
  · rw [same]
    exact h.record

/-- Threads stay, and every core becomes something. -/
structure Tells (m m' : Machine) : Prop where
  threads : m'.threads = m.threads
  traces : ∀ core c', m'.traceCores.get? core = some c' →
    ∃ c, m.traceCores.get? core = some c ∧ TraceBecomes m.threads c c'
  natives : ∀ core c', m'.nativeCores.get? core = some c' →
    ∃ c, m.nativeCores.get? core = some c ∧ Becomes m.threads c c'

namespace Tells

theorem refl (m : Machine) : Tells m m :=
  ⟨rfl, fun _ c there => ⟨c, there, .refl _ c⟩, fun _ c there => ⟨c, there, .refl _ c⟩⟩

theorem trans (h : Tells m m') (h' : Tells m' m'') : Tells m m'' := by
  refine ⟨h'.threads.trans h.threads, ?_, ?_⟩
  · intro core c'' there
    obtain ⟨c', there', second⟩ := h'.traces core c'' there
    obtain ⟨c, before, first⟩ := h.traces core c' there'
    exact ⟨c, before, first.trans (h.threads ▸ second)⟩
  · intro core c'' there
    obtain ⟨c', there', second⟩ := h'.natives core c'' there
    obtain ⟨c, before, first⟩ := h.natives core c' there'
    exact ⟨c, before, first.trans (h.threads ▸ second)⟩

theorem hear (m : Machine) (change : MappingChange) (s : Subscriber) :
    Tells m (m.hear change s).2 := by
  cases s with
  | observer id => exact .refl m
  | traceCore k =>
    refine ⟨rfl, fun core c' now => ?_, fun core c now => ⟨c, now, .refl _ c⟩⟩
    refine Roster.exists_of_modify (TraceBecomes.refl _) (fun c => ?_) now
    have becomes := traceBecomes_invalidateCode m.threads
      { c with tlb := (c.tlb.invalidateRange change.addr change.size).2 }
      (.range change.addr change.size)
    exact ⟨⟨becomes.config, becomes.slot⟩, becomes.strict, becomes.record⟩
  | nativeCore k =>
    refine ⟨rfl, fun core c now => ⟨c, now, .refl _ c⟩, fun core c' now => ?_⟩
    exact Roster.exists_of_modify (f := (·.mappingChanged change.addr change.size))
      (Becomes.refl _) (fun c => ⟨rfl, .inl rfl⟩) now

theorem announce (m : Machine) (change : MappingChange) : Tells m (m.announce change).2 :=
  foldl_hear_induction (.refl m) (fun m' s told => told.trans (hear m' change s)) _ _

end Tells

theorem Evolves.change (m : Machine) (memory : MemoryMap) (change : MappingChange) :
    Evolves m ((m.withMemory memory).announce change).2 := by
  have told := Tells.announce (m.withMemory memory) change
  refine of_cores told.threads ?_ ?_
  · rw [told.threads]
    exact told.traces
  · rw [told.threads]
    exact told.natives

/-! ### Runs -/

section Runs

variable {c : Core β} {memory : MemoryMap} {e : Core.Entered} {threads : Roster GuestThread}

/-- What a run leaves: the thread written, and in the slot. -/
theorem becomes_leave {hostTid : Int32} (entered : c.enter memory thread t owner hostTid = some e)
    (there : threads.get? thread = some t) {a : Activation}
    (balanced : ThreadLock.Balanced owner e.activation.params.lock a.params.lock) (backend : β)
    (reason : HaltReason) :
    Continues t (c.leave thread e a backend reason).thread ∧
      Becomes (threads.set thread (c.leave thread e a backend reason).thread) c
        (c.leave thread e a backend reason).core := by
  obtain ⟨s, slot, current⟩ := Core.current_leave entered a backend reason
  have next := Core.next_leave c thread e a backend reason
  rw [Core.thread_enter entered] at next
  have whole := (Core.balanced_enter entered).trans balanced
  refine ⟨⟨next, fun mine => ?_⟩, rfl,
    .inr ⟨s, thread, _, slot, Roster.get?_set_self there _, current⟩⟩
  rw [Core.params_leave]
  exact whole.mine mine

end Runs

theorem becomes_execute {c : TraceCore} {program : Trace.Program} {memory : MemoryMap}
    {step : Bool} {hostTid : Int32} {rounds : Nat} {reason : HaltReason} {left : Core.Left Tracer}
    {threads : Roster GuestThread} (there : threads.get? thread = some t)
    (executed : c.execute program memory thread t ⟨step, owner⟩ hostTid rounds =
      some (reason, left)) :
    Continues t left.thread ∧ TraceBecomes (threads.set thread left.thread) c left.core := by
  rw [TraceCore.execute] at executed
  split at executed
  · cases executed
    exact ⟨.refl t, .refl _ c⟩
  · rename_i e entered
    have record := Core.record_enter entered
    split at executed
    · cases executed
      obtain ⟨continues, becomes⟩ := becomes_leave entered there .refl c.backend .breakLoop
      exact ⟨continues, becomes, rfl, .inr record⟩
    · obtain ⟨⟨reason', tracer, a⟩, ran, executed⟩ := Option.map_eq_some_iff.1 executed
      cases executed
      obtain ⟨balanced, -, -, kept⟩ := Trace.leaves_run (Core.interrupt_enter entered) ran
      obtain ⟨continues, becomes⟩ := becomes_leave entered there balanced tracer reason
      refine ⟨continues, becomes, (Trace.sameSetup_run ran).strict, ?_⟩
      cases fatal : reason.isFatal with
      | true => exact .inl (Core.record_leave_fatal c thread e a tracer fatal)
      | false =>
        rw [Core.record_leave c thread e a tracer fatal, kept fatal, record]
        exact .inr rfl

theorem becomes_executeNative {c : NativeCore} {threads : Roster GuestThread}
    (there : threads.get? thread = some t) (h : Native.NativeHost) (memory : MemoryMap)
    (step : Bool) (script : Native.Script) :
    Continues t (c.execute h memory thread t ⟨step, owner⟩ script).2.2.2.thread ∧
      Becomes (threads.set thread (c.execute h memory thread t ⟨step, owner⟩ script).2.2.2.thread)
        c (c.execute h memory thread t ⟨step, owner⟩ script).2.2.2.core := by
  unfold NativeCore.execute
  split
  · exact ⟨.refl t, .refl _ c⟩
  · rename_i e entered
    split
    · exact becomes_leave entered there .refl c.backend .breakLoop
    · exact becomes_leave entered there
        (Native.balanced_switch h c.backend script ⟨step, owner⟩ e.activation) c.backend _

namespace Evolves

theorem runTrace {step : Bool} {rounds : Nat} {reason : HaltReason} {notices : List Notice}
    (ran : m.runTrace core thread step rounds = some (reason, notices, m')) : Evolves m m' := by
  obtain ⟨c, t, program, left, there, member, -, executed, -, rfl⟩ := exists_of_runTrace ran
  obtain ⟨continues, becomes⟩ := becomes_execute member executed
  exact setThread member continues rfl
    (fun _ _ now => Roster.exists_of_set there (TraceBecomes.refl _) becomes now)
    fun _ c now => ⟨c, now, .refl _ c⟩

theorem runNative {step : Bool} {script : Native.Script} {reason : HaltReason}
    {trail : List Native.TrailItem} {notices : List Notice}
    (ran : m.runNative core thread step script = some (reason, trail, notices, m')) :
    Evolves m m' := by
  obtain ⟨c, t, host, left, there, member, executed, -, rfl⟩ := exists_of_runNative ran
  obtain ⟨continues, becomes⟩ := becomes_executeNative (c := c) member m.nativeHost m.memory step
    script
  rw [executed] at continues becomes
  exact setThread member continues rfl (fun _ c now => ⟨c, now, .refl _ c⟩)
    fun _ _ now => Roster.exists_of_set there (Becomes.refl _) becomes now

/-! ### Every call -/

theorem addThread (m : Machine) (id : UInt64) (regs : Registers) :
    Evolves m (m.addThread id regs).2 := by
  refine ⟨Nat.le_of_lt (Nat.lt_of_lt_of_eq (Nat.lt_succ_self _) (Roster.size_add _ _).symm), ?_,
    fun core c there => .inl ⟨c, there, .refl _ c⟩, fun core c there => .inl ⟨c, there, .refl _ c⟩⟩
  intro j t' now
  rcases Roster.get?_of_add now with ⟨here, new⟩ | there
  · exact .inr ⟨here, id, regs, new⟩
  · exact .inl ⟨t', there, .refl t'⟩

theorem dropThread (m : Machine) (i : Nat) : Evolves m (m.dropThread i) :=
  of_members (Nat.le_of_eq (Roster.size_drop _ _).symm)
    (fun _ t now => ⟨t, Roster.get?_of_drop now, .refl t⟩)
    (fun _ c now => ⟨c, now, .refl _ c⟩) fun _ c now => ⟨c, now, .refl _ c⟩

theorem onNativeCore {f : NativeCore → NativeCore} {x : Unit}
    (done : m.onNativeCore core f = some (x, m')) (becomes : ∀ c, Becomes m.threads c (f c)) :
    Evolves m m' := by
  obtain ⟨c, there, done⟩ := Option.bind_eq_some_iff.1 done
  cases done
  exact .of_cores rfl (fun _ c now => ⟨c, now, .refl _ c⟩)
    fun _ _ now => Roster.exists_of_set there (Becomes.refl _) (becomes c) now

theorem addTraceCore {index program : Nat} {config : CoreConfig}
    (added : m.addTraceCore index program config false = .ok (i, m')) : Evolves m m' := by
  obtain ⟨c, new, added⟩ := map_eq_ok added
  cases added
  refine ⟨Nat.le_refl _, fun j t there => .inl ⟨t, there, .refl t⟩, ?_,
    fun core c there => .inl ⟨c, there, .refl _ c⟩⟩
  intro core c' now
  rcases Roster.get?_of_add now with ⟨-, rfl⟩ | there
  · exact .inr ⟨index, config, program, new⟩
  · exact .inl ⟨c', there, .refl _ c'⟩

theorem addNativeCore {index : Nat} {config : CoreConfig}
    (added : m.addNativeCore index config false = .ok (i, m')) : Evolves m m' := by
  obtain ⟨c, new, added⟩ := map_eq_ok added
  cases added
  refine ⟨Nat.le_refl _, fun j t there => .inl ⟨t, there, .refl t⟩,
    fun core c there => .inl ⟨c, there, .refl _ c⟩, ?_⟩
  intro core c' now
  rcases Roster.get?_of_add now with ⟨-, rfl⟩ | there
  · exact .inr ⟨index, config, new⟩
  · exact .inl ⟨c', there, .refl _ c'⟩

theorem updateRegisters {f : Registers → Registers} {generation : Nat}
    (done : m.updateRegisters core thread f = some (generation, m')) : Evolves m m' := by
  obtain ⟨c, there, done⟩ := Option.bind_eq_some_iff.1 done
  obtain ⟨t, member, done⟩ := Option.bind_eq_some_iff.1 done
  cases done
  obtain ⟨regs, stored⟩ := c.contexts.exists_store_update thread t f
  have now : (c.updateRegisters thread t f).2 = t.store regs := stored
  have slot := c.contexts.refreshed_update thread t f
  have here := Roster.get?_set_self member (c.updateRegisters thread t f).2
  have becomes : TraceBecomes (m.threads.set thread (c.updateRegisters thread t f).2) c
      (c.updateRegisters thread t f).1 := by
    refine ⟨⟨rfl, ?_⟩, rfl, .inr rfl⟩
    rcases slot with same | ⟨s, filled, current⟩
    · exact .inl same
    · exact .inr ⟨s, thread, _, filled, here, current⟩
  have continues : Continues t (c.updateRegisters thread t f).2 := by
    rw [now]
    exact ⟨t.next_store regs, id⟩
  exact setThread member continues rfl
    (fun _ _ now => Roster.exists_of_set there (TraceBecomes.refl _) becomes now)
    fun _ c now => ⟨c, now, .refl _ c⟩

end Evolves

theorem evolves_apply (m : Machine) (call : Call) : Evolves m (m.apply call) := by
  have unchanged : Evolves m m := .of_eq rfl rfl rfl
  cases call with
  | map | mapIdentity =>
    exact getD_ok unchanged fun _ done => by
      obtain ⟨memory, -, rfl⟩ := map_eq_ok done
      exact .of_eq rfl rfl rfl
  | unmap | protect =>
    exact getD_toOption unchanged fun _ done => by
      obtain ⟨⟨change, memory⟩, -, rfl⟩ := map_eq_ok done
      exact .change m memory change
  | remap addr =>
    exact getD_toOption unchanged fun _ done => by
      obtain ⟨⟨host, change, memory⟩, -, rfl⟩ := map_eq_ok done
      exact .change m memory change
  | addThread id regs => exact .addThread m id regs
  | dropThread thread => exact .dropThread m thread
  | storeRegisters thread regs =>
    exact getD_map unchanged fun _ done => .onThread done fun t => ⟨t.next_store regs, id⟩
  | claim | setRunning | setHostTid | interrupt =>
    exact getD_map unchanged fun _ done => .onThread done fun _ => ⟨.inl ⟨rfl, rfl⟩, id⟩
  | lock thread =>
    exact getD_map unchanged fun _ done =>
      .onThread done fun t => ⟨.inl ⟨rfl, rfl⟩, fun _ => ThreadLock.mine_acquire _ owner⟩
  | unlock core thread =>
    exact getD_map unchanged fun _ done => by
      obtain ⟨c, -, done⟩ := Option.bind_eq_some_iff.1 done
      obtain ⟨t, member, done⟩ := Option.bind_eq_some_iff.1 done
      cases done
      exact .onlyThread member ⟨Core.next_unlock c t owner, Core.mine_unlock c t owner⟩
  | updateRegisters core thread f =>
    exact getD_map unchanged fun _ done => .updateRegisters done
  | getRegisters core thread =>
    exact getD_map unchanged fun _ done => by
      obtain ⟨c, there, done⟩ := Option.bind_eq_some_iff.1 done
      obtain ⟨t, -, done⟩ := Option.bind_eq_some_iff.1 done
      cases done
      refine .of_cores rfl (fun _ _ now => Roster.exists_of_set there (TraceBecomes.refl _) ?_ now)
        fun _ c now => ⟨c, now, .refl _ c⟩
      exact ⟨⟨rfl, .inl (ContextCache.slot_get c.contexts thread t)⟩, rfl, .inr rfl⟩
  | addTraceCore index program config =>
    exact getD_toOption unchanged fun _ done => .addTraceCore done
  | dropTraceCore core =>
    exact .of_cores rfl (fun _ c now => ⟨c, Roster.get?_of_drop now, .refl _ c⟩)
      fun _ c now => ⟨c, now, .refl _ c⟩
  | runTrace core thread step rounds => exact getD_map unchanged fun _ done => .runTrace done
  | invalidateCode core request =>
    exact getD_map unchanged fun _ done =>
      .onTraceCore done fun c => traceBecomes_invalidateCode _ c request
  | queueBusy core requests =>
    exact getD_map unchanged fun _ done =>
      .onTraceCore done fun c => traceBecomes_queueAll _ c requests
  | invalidateTlb | lookupTlb =>
    exact getD_map unchanged fun _ done =>
      .onTraceCore done fun c => ⟨⟨rfl, .inl rfl⟩, rfl, .inr rfl⟩
  | addNativeCore index config =>
    exact getD_toOption unchanged fun _ done => .addNativeCore done
  | dropNativeCore core =>
    exact .of_cores rfl (fun _ c now => ⟨c, now, .refl _ c⟩)
      fun _ c now => ⟨c, Roster.get?_of_drop now, .refl _ c⟩
  | prepareNative core =>
    exact getD_map unchanged fun _ done => by
      obtain ⟨c, -, done⟩ := Option.bind_eq_some_iff.1 done
      cases done
      exact .of_eq rfl rfl rfl
  | runNative core thread step script =>
    exact getD_map unchanged fun _ done => .runNative done
  | invalidateNative | invalidateNativeTlb =>
    exact getD_map unchanged fun _ done => .onNativeCore done fun _ => ⟨rfl, .inl rfl⟩
  | interruptNative core thread =>
    exact getD_map unchanged fun _ done => by
      obtain ⟨c, -, done⟩ := Option.bind_eq_some_iff.1 done
      obtain ⟨t, member, done⟩ := Option.bind_eq_some_iff.1 done
      cases done
      exact .onlyThread member ⟨c.next_interrupt t, fun mine => c.lock_interrupt t ▸ mine⟩
  | _ => exact .of_eq rfl rfl rfl

/-- Calls keep a property of machines that whatever evolves from a machine with it has. -/
theorem foldl_induction {P : Machine → Prop} (step : ∀ m m', P m → Evolves m m' → P m') (h : P m)
    (calls : List Call) : P (calls.foldl Machine.apply m) := by
  induction calls generalizing m with
  | nil => exact h
  | cons call rest ih => exact ih (step m _ h (evolves_apply m call))

/-- A property of machines and the number of calls made so far, as long as that number fits a
word. -/
theorem foldl_counted {P : Nat → Machine → Prop} {n : Nat}
    (step : ∀ n m m', n + 1 < 0x1_0000_0000_0000_0000 → P n m → Evolves m m' → P (n + 1) m')
    (h : P n m) (calls : List Call) (few : n + calls.length < 0x1_0000_0000_0000_0000) :
    P (n + calls.length) (calls.foldl Machine.apply m) := by
  induction calls generalizing n m with
  | nil => exact h
  | cons call rest ih =>
    have count : n + (call :: rest).length = n + 1 + rest.length := by
      rw [List.length_cons, Nat.add_assoc, Nat.add_comm rest.length]
    rw [count] at few ⊢
    have room : n + 1 < 0x1_0000_0000_0000_0000 := Nat.lt_of_le_of_lt (Nat.le_add_right _ _) few
    exact ih (step n m _ room h (evolves_apply m call)) few

/-- Such a property holds after any sequence of calls if it holds at first. -/
theorem after_induction {P : Machine → Prop} (initial : P {})
    (step : ∀ m m', P m → Evolves m m' → P m') (calls : List Call) : P (after calls) :=
  foldl_induction step initial calls

end Machine

end GuestExec
