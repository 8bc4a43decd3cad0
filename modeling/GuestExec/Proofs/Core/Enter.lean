import GuestExec.Core

/-!
# Entering and leaving a core

What `enter` hands to the backend, and what `leave` takes back from it. A core
that was left and is entered again for the same thread goes on where it stopped:
the activation is `Alike` the one that was left.
-/

namespace GuestExec

/-- What a backend can tell of two activations: processor, queue and the request to stop. -/
structure Activation.Alike (a b : Activation) : Prop where
  cpu : b.cpu = a.cpu
  queue : b.queue = a.queue
  interrupt : b.params.interrupt = a.params.interrupt

namespace ContextCache

variable {c : ContextCache} {ref : ThreadRef} {t : GuestThread} {s : ContextSlot}

/-- The thread that was made active is in the slot. -/
theorem fresh?_activate (c : ContextCache) (ref : ThreadRef) (t : GuestThread) :
    ∃ s, (c.activate ref t).2.fresh? ref t = some s := by
  unfold activate
  split
  · rename_i s fresh
    exact ⟨s, fresh⟩
  · refine ⟨_, Option.filter_eq_some_iff.2 ⟨rfl, ?_⟩⟩
    simp [ContextSlot.isFresh]

/-- Registers that were stored through the slot are the ones to go on with. -/
theorem activate_set (fresh : c.fresh? ref t = some s) (regs : Registers) :
    ((c.set ref t regs).1.activate ref (c.set ref t regs).2).1 = regs := by
  have whose := (Option.filter_eq_some_iff.1 fresh).2
  have same : ({ s with regs, stamp := t.stamp + 1 } : ContextSlot).isFresh ref
      (t.store regs) = true := by
    simp only [ContextSlot.isFresh, Bool.and_eq_true, beq_iff_eq, GuestThread.store] at whose ⊢
    exact ⟨whose.1, trivial⟩
  have renewed : (c.set ref t regs).1.fresh? ref (c.set ref t regs).2 =
      some { s with regs, stamp := t.stamp + 1 } := by
    rw [set, update, fresh]
    exact Option.filter_eq_some_iff.2 ⟨rfl, same⟩
  rw [activate, renewed]

end ContextCache

namespace Core

variable {β : Type} {c : Core β} {memory : MemoryMap} {ref : ThreadRef} {thread : GuestThread}
  {owner : UInt64} {hostTid : Int32} {e : Entered}

theorem mmu_enter (h : c.enter memory ref thread owner hostTid = some e) :
    e.activation.cpu.mmu = ⟨c.tlb, memory⟩ := by
  simp only [enter] at h
  split at h
  · cases h
    rfl
  · cases h

theorem queue_enter (h : c.enter memory ref thread owner hostTid = some e) :
    e.activation.queue = c.queue := by
  simp only [enter] at h
  split at h
  · cases h
    rfl
  · cases h

/-- The thread that was entered is in the slot of the context cache. -/
theorem fresh?_enter (h : c.enter memory ref thread owner hostTid = some e) :
    ∃ s, e.contexts.fresh? ref e.thread = some s := by
  simp only [enter] at h
  split at h
  · cases h
    exact ContextCache.fresh?_activate c.contexts ref thread
  · cases h

/-- A request to stop is taken on entering. -/
theorem interrupt_enter (h : c.enter memory ref thread owner hostTid = some e) :
    e.activation.params.interrupt = false := by
  simp only [enter] at h
  split at h
  · cases h
    rfl
  · cases h

/-- A thread that is entered ran nowhere, and whether a request to stop waited for it is known. -/
theorem idle_enter (h : c.enter memory ref thread owner hostTid = some e) :
    thread.params.running = false ∧ e.interrupted = thread.params.interrupt := by
  simp only [enter] at h
  split at h
  · rename_i claimed
    cases h
    exact ⟨Bool.not_eq_true' _ ▸ claimed, rfl⟩
  · cases h

/-- A thread that runs nowhere else can be entered. -/
theorem exists_enter (c : Core β) (memory : MemoryMap) (ref : ThreadRef) (owner : UInt64)
    (hostTid : Int32) (idle : thread.params.running = false) :
    ∃ e, c.enter memory ref thread owner hostTid = some e ∧
      e.activation.cpu = { regs := (c.contexts.activate ref thread).1, mmu := ⟨c.tlb, memory⟩
                           stats := c.faults, record := c.record } ∧
      e.activation.queue = c.queue ∧ e.interrupted = thread.params.interrupt := by
  simp only [enter, ThreadParams.claim, idle]
  exact ⟨_, rfl, rfl, rfl, rfl⟩

/-- One that runs elsewhere cannot. -/
theorem enter_eq_none (c : Core β) (memory : MemoryMap) (ref : ThreadRef) (owner : UInt64)
    (hostTid : Int32) (running : thread.params.running = true) :
    c.enter memory ref thread owner hostTid = none := by
  simp only [enter, ThreadParams.claim, running, Bool.not_true, Bool.false_eq_true, if_false]

theorem record_leave (c : Core β) (ref : ThreadRef) (e : Entered) (a : Activation) (backend : β)
    {reason : HaltReason} (goesOn : reason.isFatal = false) :
    (c.leave ref e a backend reason).core.record = a.cpu.record := by
  unfold leave
  simp only [goesOn, Bool.false_eq_true, if_false]

/-- A run writes the thread's registers once. -/
theorem thread_leave (c : Core β) (ref : ThreadRef) (e : Entered) (a : Activation) (backend : β)
    (reason : HaltReason) : (c.leave ref e a backend reason).thread =
      { e.thread with params := { a.params with running := false } }.store a.cpu.regs := by
  unfold leave
  dsimp only
  rw [ContextCache.set, ContextCache.update]
  split <;> rfl

theorem params_leave (c : Core β) (ref : ThreadRef) (e : Entered) (a : Activation) (backend : β)
    (reason : HaltReason) :
    (c.leave ref e a backend reason).thread.params = { a.params with running := false } :=
  congrArg GuestThread.params (c.thread_leave ref e a backend reason)

/-- The thread's registers are the ones the run ended with. -/
theorem stored_leave (c : Core β) (ref : ThreadRef) (e : Entered) (a : Activation) (backend : β)
    (reason : HaltReason) : (c.leave ref e a backend reason).thread.stored = a.cpu.regs :=
  congrArg GuestThread.stored (c.thread_leave ref e a backend reason)

/-- A run that was left is taken up again as it was. -/
theorem enter_leave (h : c.enter memory ref thread owner hostTid = some e) {a : Activation}
    (free : a.params.interrupt = false) (backend : β) {reason : HaltReason}
    (goesOn : reason.isFatal = false) (owner' : UInt64) (hostTid' : Int32) :
    ∃ e', (c.leave ref e a backend reason).core.enter a.cpu.mmu.memory ref
        (c.leave ref e a backend reason).thread owner' hostTid' = some e' ∧
      a.Alike e'.activation ∧ e'.interrupted = false := by
  have params := params_leave c ref e a backend reason
  obtain ⟨e', entered, cpu, queue, interrupted⟩ := exists_enter
    (c.leave ref e a backend reason).core a.cpu.mmu.memory ref owner' hostTid'
    (congrArg ThreadParams.running params)
  refine ⟨e', entered, ⟨?_, queue, ?_⟩, ?_⟩
  · obtain ⟨s, fresh⟩ := fresh?_enter h
    have regs : ((c.leave ref e a backend reason).core.contexts.activate ref
        (c.leave ref e a backend reason).thread).1 = a.cpu.regs :=
      ContextCache.activate_set (t := { e.thread with
        params := { a.params with running := false } }) fresh a.cpu.regs
    rw [cpu, regs, record_leave c ref e a backend goesOn]
    rfl
  · rw [interrupt_enter entered, free]
  · rw [interrupted, params]
    exact free

end Core

end GuestExec
