import GuestExec.Proofs.Machine.States
import GuestExec.Proofs.Trace.Retry

/-!
# The course of a run

A round is a safe point and then one attempt at the instruction at `pc`; what the
attempt comes to decides what the round does (`round_of_free`). A run ends where
a round that is reached ends it (`exists_run_iff`). `Issues` names the operation
that a round attempts.
-/

namespace GuestExec.Trace

variable {program : Program} {mode : RunMode} {owner : UInt64} {t t' t₁ : Tracer}
  {a a' a₁ : Activation} {reason : HaltReason}

/-! ## One round -/

/-- The activation as it leaves a safe point. -/
def ready (a : Activation) (owner : UInt64) : Activation :=
  (a.drain.2.takeInterrupt.2).waitUnlocked owner

@[simp] theorem cpu_ready (a : Activation) (owner : UInt64) : (ready a owner).cpu = a.cpu := rfl

@[simp] theorem queue_ready (a : Activation) (owner : UInt64) : (ready a owner).queue = {} := rfl

@[simp] theorem interrupt_ready (a : Activation) (owner : UInt64) :
    (ready a owner).params.interrupt = false := rfl

/-- What an attempt makes of its round. -/
def Attempt.round (step : Bool) : Attempt → Round
  | .completed => if step then .ended .stepThread else .continues
  | .retry => .continues
  | .halt reason true => .ended (if step then reason ||| .stepThread else reason)
  | .halt reason false => .ended reason

/-- The attempt executed its instruction. -/
def Attempt.executes : Attempt → Bool
  | .completed => true
  | .retry => false
  | .halt _ executed => executed

/-- The tracer counts an instruction that was executed. -/
def Attempt.count (attempt : Attempt) (t : Tracer) : Tracer :=
  if attempt.executes then t.retire else t

theorem round_of_interrupt (waiting : a.params.interrupt = true) (program : Program)
    (mode : RunMode) (t : Tracer) :
    round program mode t a =
      (.ended .breakLoop, t.forgetAll a.queue.requests, a.drain.2.takeInterrupt.2) := by
  have taken : a.drain.2.takeInterrupt.1 = true := waiting
  unfold round
  dsimp only
  rw [taken, if_pos rfl]
  rfl

/-- The attempt that a round makes unless a request to stop is waiting. -/
def tried (program : Program) (owner : UInt64) (t : Tracer) (a : Activation) :
    Attempt × Tracer × Activation :=
  executeOne program owner (t.forgetAll a.queue.requests) (ready a owner)

theorem round_of_free (free : a.params.interrupt = false) (program : Program) (mode : RunMode)
    (t : Tracer) :
    round program mode t a =
      ((tried program mode.owner t a).1.round mode.step,
        (tried program mode.owner t a).1.count (tried program mode.owner t a).2.1,
        (tried program mode.owner t a).2.2) := by
  have taken : a.drain.2.takeInterrupt.1 = false := free
  unfold round
  dsimp only
  rw [taken, if_neg Bool.false_ne_true]
  rcases made : tried program mode.owner t a with ⟨attempt, t', a'⟩
  have made : executeOne program mode.owner (t.forgetAll a.drain.1)
      ((a.drain.2.takeInterrupt.2).waitUnlocked mode.owner) = (attempt, t', a') := made
  rw [made]
  cases attempt with
  | halt reason executed => cases executed <;> rfl
  | _ => rfl

/-- The round that starts with `t` and `a` attempts `op`. -/
structure Issues (program : Program) (t : Tracer) (a : Activation) (op : Op) : Prop where
  /-- No request to stop is waiting. -/
  free : a.params.interrupt = false
  fetch : fetchable a.cpu.mmu.memory ⟨a.cpu.regs.pc⟩ = true
  /-- What is fetched after the queued requests were carried out. -/
  op_eq : ((t.forgetAll a.queue.requests).fetch program ⟨a.cpu.regs.pc⟩).1 = op

/-! ## What a round keeps of the tracer -/

/-- The tracer runs the same program and is as strict about alignment. -/
structure SameSetup (t t' : Tracer) : Prop where
  program : t'.program = t.program
  strict : t'.strictAlignment = t.strictAlignment

namespace SameSetup

theorem refl (t : Tracer) : SameSetup t t := ⟨rfl, rfl⟩

theorem trans (h : SameSetup t t') (h' : SameSetup t' t₁) : SameSetup t t₁ :=
  ⟨h'.program.trans h.program, h'.strict.trans h.strict⟩

theorem forgetAll (t : Tracer) (requests : List Invalidation) :
    SameSetup t (t.forgetAll requests) := by
  induction requests generalizing t with
  | nil => exact refl t
  | cons request rest ih => exact ⟨(ih (t.forget request)).program, (ih (t.forget request)).strict⟩

theorem fetch (t : Tracer) (program : Program) (pc : GuestAddr) :
    SameSetup t (t.fetch program pc).2 := by
  unfold Tracer.fetch
  split <;> exact ⟨rfl, rfl⟩

theorem count (attempt : Attempt) (t : Tracer) : SameSetup t (attempt.count t) := by
  unfold Attempt.count
  split <;> exact ⟨rfl, rfl⟩

theorem executeOne (program : Program) (owner : UInt64) (t : Tracer) (a : Activation) :
    SameSetup t (executeOne program owner t a).2.1 := by
  rcases (attempted_executeOne program owner t a).2 with same | fetched
  · rw [same]
    exact refl t
  · rw [fetched]
    exact fetch t program _

theorem round (program : Program) (mode : RunMode) (t : Tracer) (a : Activation) :
    SameSetup t (round program mode t a).2.1 := by
  have drained := forgetAll t a.queue.requests
  cases free : a.params.interrupt with
  | true =>
    rw [round_of_interrupt free]
    exact drained
  | false =>
    rw [round_of_free free]
    exact (drained.trans (executeOne program mode.owner _ (ready a mode.owner))).trans (count _ _)

end SameSetup

/-! ## Rounds one after the other -/

namespace Reaches

theorem cons (first : GuestExec.Trace.round program mode t a = (.continues, t', a'))
    (rest : Reaches program mode t' a' t₁ a₁) : Reaches program mode t a t₁ a₁ := by
  induction rest with
  | start => exact .round .start first
  | round _ eq ih => exact .round ih eq

theorem trans (h : Reaches program mode t a t' a') (rest : Reaches program mode t' a' t₁ a₁) :
    Reaches program mode t a t₁ a₁ := by
  induction rest with
  | start => exact h
  | round _ eq ih => exact .round ih eq

/-- A run that ends in its first round reaches nothing else. -/
theorem eq_of_run_one (h : Reaches program mode t a t' a')
    (ends : (run program mode 1 t a).isSome = true) : t' = t ∧ a' = a := by
  induction h with
  | start => exact ⟨rfl, rfl⟩
  | round _ eq ih =>
    obtain ⟨rfl, rfl⟩ := ih
    simp only [run, eq, Option.isSome_none, Bool.false_eq_true] at ends

theorem sameSetup (h : Reaches program mode t a t' a') : SameSetup t t' := by
  induction h with
  | start => exact .refl t
  | @round t₁ t₂ a₁ a₂ _ eq ih =>
    have next := SameSetup.round program mode t₁ a₁
    rw [eq] at next
    exact ih.trans next

end Reaches

/-- A run ends with the first round that ends. -/
theorem exists_run_iff : (∃ rounds, run program mode rounds t a = some (reason, t', a')) ↔
    ∃ t₁ a₁, Reaches program mode t a t₁ a₁ ∧
      round program mode t₁ a₁ = (.ended reason, t', a') := by
  constructor
  · rintro ⟨rounds, ran⟩
    induction rounds generalizing t a with
    | zero => cases ran
    | succ rounds ih =>
      rw [run] at ran
      split at ran
      · rename_i eq
        cases ran
        exact ⟨t, a, .start, eq⟩
      · rename_i eq
        obtain ⟨t₁, a₁, rest, last⟩ := ih ran
        exact ⟨t₁, a₁, .cons eq rest, last⟩
  · rintro ⟨t₁, a₁, reached, last⟩
    -- The rounds are added at the front, the last one found first.
    suffices ∀ {t₂ a₂}, Reaches program mode t a t₂ a₂ → ∀ rounds,
        run program mode rounds t₂ a₂ = some (reason, t', a') →
        ∃ rounds, run program mode rounds t a = some (reason, t', a') by
      refine this reached 1 ?_
      rw [run, last]
    intro t₂ a₂ reached
    induction reached with
    | start => exact fun rounds ran => ⟨rounds, ran⟩
    | round _ eq ih =>
      intro rounds ran
      refine ih (rounds + 1) ?_
      rw [run, eq]
      exact ran

theorem sameSetup_run {rounds : Nat} (ran : run program mode rounds t a = some (reason, t', a')) :
    SameSetup t t' := by
  obtain ⟨t₁, a₁, reached, last⟩ := exists_run_iff.1 ⟨rounds, ran⟩
  have final := SameSetup.round program mode t₁ a₁
  rw [last] at final
  exact reached.sameSetup.trans final

end GuestExec.Trace
