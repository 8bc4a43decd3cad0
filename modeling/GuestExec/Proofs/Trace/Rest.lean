import GuestExec.Proofs.Fault.Reasons
import GuestExec.Proofs.Thread.Lock
import GuestExec.Proofs.Trace.Course

/-!
# How a traced run leaves its thread

No round keeps a level of the thread's lock or lets a request to stop pass
unseen, and only a fatal error leaves a record of a fault. So it is with a run:
one that began without a request to stop never ends with `breakLoop`.
-/

namespace GuestExec.Trace

open ThreadLock (Balanced)
open Vcpu (faultReasons Handled handled_handle)

variable {program : Program} {mode : RunMode} {owner : UInt64} {t t' : Tracer} {a a' : Activation}
  {reason : HaltReason}

/-! ## One attempt -/

theorem Attempted.balanced {result : Attempt × Activation} (h : Attempted owner a result) :
    Balanced owner a.params.lock result.2.params.lock := by
  cases h with
  | trapped used kind info => exact .held .refl
  | made used ends regs => exact .refl

/-- What an attempt leaves if the run goes on, or ends with `reason`. -/
structure Attempt.Leaves (a : Activation) (step : Bool) (result : Attempt × Activation) : Prop where
  goesOn : result.1.round step = .continues → result.2.cpu.record = a.cpu.record
  ends : ∀ reason, result.1.round step = .ended reason → reason ≠ .breakLoop ∧
    (reason.isFatal = false → result.2.cpu.record = a.cpu.record)

theorem leaves_trapped {u : Mmu} (owner : UInt64) (a : Activation) (kind : FaultKind)
    (info : FaultInfo) (step : Bool) :
    Attempt.Leaves a step (trap owner (withMmu a u) kind info) := by
  have known : ∀ reason ∈ faultReasons, reason ≠ .breakLoop := by decide
  have handled : Handled a.cpu ((withMmu a u).cpu.handle kind info) :=
    (handled_handle (withMmu a u).cpu kind info).of_eq rfl rfl
  obtain ⟨told, kept, -⟩ := handled
  have record : ∀ {outcome}, ((withMmu a u).cpu.handle kind info).1 = outcome →
      outcome ≠ .halt .fatalError →
      (trap owner (withMmu a u) kind info).2.cpu.record = a.cpu.record := by
    rintro outcome rfl other
    exact kept other
  have attempt : (trap owner (withMmu a u) kind info).1 =
    .ofFault ((withMmu a u).cpu.handle kind info).1 := rfl
  cases outcome : ((withMmu a u).cpu.handle kind info).1 with
  | halt r =>
    rw [outcome] at attempt
    refine ⟨?_, ?_⟩
    · rw [attempt]
      exact nofun
    · intro reason ended
      rw [attempt] at ended
      cases ended
      refine ⟨known r (told r outcome), fun goesOn => record outcome ?_⟩
      rintro ⟨⟩
      exact absurd goesOn (by decide)
  | retry =>
    rw [outcome] at attempt
    refine ⟨fun _ => record outcome nofun, ?_⟩
    rw [attempt]
    exact nofun
  | _ =>
    rw [outcome] at attempt
    refine ⟨fun _ => record outcome nofun, ?_⟩
    intro reason ended
    rw [attempt] at ended
    cases step with
    | false => cases ended
    | true =>
      cases ended
      exact ⟨by decide, fun _ => record outcome nofun⟩

theorem Attempted.leaves {result : Attempt × Activation} (h : Attempted owner a result)
    (step : Bool) : Attempt.Leaves a step result := by
  cases h with
  | trapped used kind info => exact leaves_trapped owner a kind info step
  | made used ends regs =>
    refine ⟨fun _ => rfl, fun reason ended => ⟨?_, fun _ => rfl⟩⟩
    cases ends <;> cases step <;> cases ended <;> decide

/-! ## One round -/

/-- What a round makes of an activation: the lock is used and given back, no request to stop is
left, and what was one before ends the round. -/
structure RoundLeaves (owner : UInt64) (a : Activation) (result : Round × Tracer × Activation) :
    Prop where
  lock : Balanced owner a.params.lock result.2.2.params.lock
  interrupt : result.2.2.params.interrupt = false
  goesOn : result.1 = .continues → result.2.2.cpu.record = a.cpu.record
  ends : ∀ reason, result.1 = .ended reason → (reason = .breakLoop ↔ a.params.interrupt = true) ∧
    (reason.isFatal = false → result.2.2.cpu.record = a.cpu.record)

theorem leaves_round (program : Program) (mode : RunMode) (t : Tracer) (a : Activation) :
    RoundLeaves mode.owner a (round program mode t a) := by
  cases waiting : a.params.interrupt with
  | true =>
    rw [round_of_interrupt waiting]
    refine ⟨.refl, rfl, nofun, fun reason ended => ?_⟩
    cases ended
    exact ⟨iff_of_true rfl waiting, fun _ => rfl⟩
  | false =>
    have attempted := (attempted_executeOne program mode.owner (t.forgetAll a.queue.requests)
      (ready a mode.owner)).1
    have leaves := attempted.leaves mode.step
    rw [round_of_free waiting]
    refine ⟨(Balanced.waited .refl).trans attempted.balanced, attempted.interrupt, leaves.goesOn,
      fun reason ended => ?_⟩
    obtain ⟨other, record⟩ := leaves.ends reason ended
    exact ⟨iff_of_false other (by rw [waiting]; exact nofun), record⟩

/-! ## Whole runs -/

/-- Before each round of a run the lock is given back and the books are as at its beginning. -/
structure Tidy (owner : UInt64) (a a' : Activation) : Prop where
  lock : Balanced owner a.params.lock a'.params.lock
  interrupt : a'.params.interrupt = false
  record : a'.cpu.record = a.cpu.record

theorem Reaches.tidy (h : Reaches program mode t a t' a') (free : a.params.interrupt = false) :
    Tidy mode.owner a a' := by
  induction h with
  | start => exact ⟨.refl, free, rfl⟩
  | @round t₁ t₂ a₁ a₂ _ eq ih =>
    have next := leaves_round program mode t₁ a₁
    rw [eq] at next
    exact ⟨ih.lock.trans next.lock, next.interrupt, (next.goesOn rfl).trans ih.record⟩

/-- What a run leaves that nobody interrupts. -/
theorem leaves_run {rounds : Nat} (free : a.params.interrupt = false)
    (ran : run program mode rounds t a = some (reason, t', a')) :
    Balanced mode.owner a.params.lock a'.params.lock ∧ a'.params.interrupt = false ∧
      reason ≠ .breakLoop ∧ (reason.isFatal = false → a'.cpu.record = a.cpu.record) := by
  obtain ⟨t₁, a₁, reached, last⟩ := exists_run_iff.1 ⟨rounds, ran⟩
  have before := reached.tidy free
  have final := leaves_round program mode t₁ a₁
  rw [last] at final
  obtain ⟨stopped, record⟩ := final.ends reason rfl
  refine ⟨before.lock.trans final.lock, final.interrupt, ?_, ?_⟩
  · intro broken
    have waiting := stopped.1 broken
    rw [before.interrupt] at waiting
    cases waiting
  · intro goesOn
    exact (record goesOn).trans before.record

/-! ## The core -/

/-- What becomes of a core that is asked to run a thread: it refuses one that runs elsewhere, leaves
it at once if a request to stop waits for it, and else runs it. -/
inductive Executed (c : TraceCore) (program : Program) (memory : MemoryMap) (ref : ThreadRef)
    (thread : GuestThread) (mode : RunMode) (hostTid : Int32) :
    HaltReason → Core.Left Tracer → Prop where
  | refused (running : thread.params.running = true) :
    Executed c program memory ref thread mode hostTid .breakLoop
      { core := c, thread, memory, notices := [c.refusal thread] }
  | stopped {e : Core.Entered} (idle : thread.params.running = false)
    (entered : c.enter memory ref thread mode.owner hostTid = some e)
    (waiting : thread.params.interrupt = true) :
    Executed c program memory ref thread mode hostTid .breakLoop
      (c.leave ref e e.activation c.backend .breakLoop)
  | ran {e : Core.Entered} {rounds : Nat} {reason : HaltReason} {t : Tracer} {a : Activation}
    (idle : thread.params.running = false)
    (entered : c.enter memory ref thread mode.owner hostTid = some e)
    (free : thread.params.interrupt = false)
    (ran : run program mode rounds c.backend e.activation = some (reason, t, a)) :
    Executed c program memory ref thread mode hostTid reason (c.leave ref e a t reason)

theorem executed_of_execute {c : TraceCore} {memory : MemoryMap} {ref : ThreadRef}
    {thread : GuestThread} {hostTid : Int32} {rounds : Nat} {left : Core.Left Tracer}
    (h : c.execute program memory ref thread mode hostTid rounds = some (reason, left)) :
    Executed c program memory ref thread mode hostTid reason left := by
  rw [TraceCore.execute] at h
  split at h
  · rename_i refused
    cases h
    refine .refused (Bool.not_eq_false _ ▸ fun idle => ?_)
    obtain ⟨e, entered, -⟩ := Core.exists_enter c memory ref mode.owner hostTid idle
    rw [refused] at entered
    cases entered
  · rename_i e entered
    obtain ⟨idle, told⟩ := Core.idle_enter entered
    split at h
    · rename_i waiting
      cases h
      exact .stopped idle entered (told ▸ waiting)
    · rename_i free
      obtain ⟨⟨reason', t, a⟩, ran, h⟩ := Option.map_eq_some_iff.1 h
      cases h
      exact .ran idle entered (told ▸ Bool.eq_false_iff.2 free) ran

end GuestExec.Trace
