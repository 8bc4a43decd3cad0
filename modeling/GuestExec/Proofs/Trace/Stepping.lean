import GuestExec.Proofs.Fault.Reasons
import GuestExec.Proofs.Trace.Alike
import GuestExec.Proofs.Trace.Attempt

/-!
# Single steps of a traced run

A round of a step is a round of a run, but for what it ends with. So a step that
ends with `stepThread` alone is the beginning of the run, and one that ends with
anything else is all that is left of it.
-/

namespace GuestExec

namespace HaltReason

variable {r r' last : HaltReason}

theorem contains_stepThread_iff : r.contains .stepThread = true ↔ r.bits.toNat % 2 = 1 := by
  rw [contains, beq_iff_eq, ← UInt64.toNat_inj, UInt64.toNat_and]
  show r.bits.toNat &&& 1 = 1 ↔ _
  rw [Nat.and_one_is_mod]

theorem toNat_or_stepThread : (r ||| .stepThread).bits.toNat = r.bits.toNat ||| 1 :=
  UInt64.toNat_or r.bits 1

theorem contains_or_stepThread : (r ||| .stepThread).contains .stepThread = true := by
  rw [contains_stepThread_iff, toNat_or_stepThread]
  exact Nat.or_mod_two_eq_one.2 (.inr rfl)

theorem or_stepThread_inj (h : r.contains .stepThread = false)
    (h' : r'.contains .stepThread = false) (same : r ||| .stepThread = r' ||| .stepThread) :
    r = r' := by
  rw [← Bool.not_eq_true, contains_stepThread_iff] at h h'
  have halves := congrArg (fun x : HaltReason => x.bits.toNat / 2) same
  simp only [toNat_or_stepThread, Nat.or_div_two, Nat.reduceDiv, Nat.or_zero] at halves
  have bits : r.bits.toNat = r'.bits.toNat := by omega
  exact congrArg mk (UInt64.toNat_inj.1 bits)

/-- A step that ends with `last` is the last of a run that ends with `r`. -/
structure EndsStep (r last : HaltReason) : Prop where
  plain : r.contains .stepThread = false
  eq : last = r ∨ last = r ||| .stepThread

theorem EndsStep.unique (h : r.EndsStep last) (h' : r'.EndsStep last) : r = r' := by
  have clash : ∀ {x y : HaltReason}, x.contains .stepThread = false → x ≠ y ||| .stepThread := by
    rintro x y plain rfl
    rw [contains_or_stepThread] at plain
    cases plain
  rcases h.eq with rfl | eq <;> rcases h'.eq with eq' | eq'
  · exact eq'
  · exact absurd eq' (clash h.plain)
  · exact absurd (eq'.symm.trans eq) (clash h'.plain)
  · exact or_stepThread_inj h.plain h'.plain (eq.symm.trans eq')

end HaltReason

/-! ## Reasons to halt -/

/-- A run that ends with this outcome does not end because a step is complete. -/
def FaultOutcome.Plain (outcome : FaultOutcome) : Prop :=
  ∀ reason, outcome = .halt reason → reason.contains .stepThread = false

theorem Vcpu.plain_handle (c : Vcpu) (kind : FaultKind) (info : FaultInfo) :
    (c.handle kind info).1.Plain := by
  have known : ∀ reason ∈ faultReasons, reason.contains .stepThread = false := by decide
  intro reason h
  exact known reason ((handled_handle c kind info).reason reason h)

namespace Trace

variable {program : Program} {owner : UInt64} {t t' t₁ : Tracer} {a a' a₁ : Activation}
  {reason last : HaltReason} {rounds : Nat}

/-- What an attempt may come to: an instruction that counts as executed and ends the run is a
supervisor call. -/
def Attempt.Plain : Attempt → Prop
  | .halt reason true => reason = .supervisorCall
  | .halt reason false => reason.contains .stepThread = false
  | _ => True

theorem plain_ofFault {outcome : FaultOutcome} (h : outcome.Plain) :
    (Attempt.ofFault outcome).Plain := by
  cases outcome with
  | halt reason => exact h reason rfl
  | _ => trivial

theorem Attempt.Ends.plain {attempt : Attempt} (h : attempt.Ends) : attempt.Plain := by
  cases h with
  | completed => trivial
  | supervisorCall => rfl
  | breakpoint => exact (by decide : HaltReason.instructionBreakpoint.contains .stepThread = false)

theorem Attempted.plain {result : Attempt × Activation} (h : Attempted owner a result) :
    result.1.Plain := by
  cases h with
  | trapped used kind info => exact plain_ofFault (Vcpu.plain_handle _ kind info)
  | made used ends regs => exact ends.plain

/-- The tracer runs the same program and has executed as many instructions. -/
structure SameCount (t t' : Tracer) : Prop where
  program : t'.program = t.program
  retired : t'.retired = t.retired

theorem sameCount_forgetAll (t : Tracer) (requests : List Invalidation) :
    SameCount t (t.forgetAll requests) := by
  induction requests generalizing t with
  | nil => exact ⟨rfl, rfl⟩
  | cons request rest ih => exact ⟨(ih (t.forget request)).program, (ih (t.forget request)).retired⟩

theorem sameCount_fetch (t : Tracer) (program : Program) (pc : GuestAddr) :
    SameCount t (t.fetch program pc).2 := by
  unfold Tracer.fetch
  split <;> exact ⟨rfl, rfl⟩

theorem sameCount_executeOne (program : Program) (owner : UInt64) (t : Tracer) (a : Activation) :
    SameCount t (executeOne program owner t a).2.1 := by
  rcases (attempted_executeOne program owner t a).2 with same | fetched
  · rw [same]
    exact ⟨rfl, rfl⟩
  · rw [fetched]
    exact sameCount_fetch t program _

/-! ## A round of a run and of a step -/

/-- What one round comes to in a run, and in a step. -/
inductive Paced (program : Program) (owner : UInt64) (t : Tracer) (a : Activation) (t' : Tracer)
    (a' : Activation) : Prop where
  | goesOn (whole : round program ⟨false, owner⟩ t a = (.continues, t', a'))
    (single : round program ⟨true, owner⟩ t a = (.continues, t', a')) (count : SameCount t t')
  | stepped (whole : round program ⟨false, owner⟩ t a = (.continues, t', a'))
    (single : round program ⟨true, owner⟩ t a = (.ended .stepThread, t', a'))
    (count : SameCount t.retire t')
  | ended (reason : HaltReason)
    (whole : round program ⟨false, owner⟩ t a = (.ended reason, t', a'))
    (single : round program ⟨true, owner⟩ t a = (.ended reason, t', a'))
    (plain : reason.contains .stepThread = false) (count : SameCount t t')
  | called (whole : round program ⟨false, owner⟩ t a = (.ended .supervisorCall, t', a'))
    (single : round program ⟨true, owner⟩ t a =
      (.ended (.supervisorCall ||| .stepThread), t', a')) (count : SameCount t.retire t')

/-- A round of a run and one of a step differ only in what they end with; no request to stop is
left. -/
theorem exists_paced (program : Program) (owner : UInt64) (t : Tracer) (a : Activation) :
    ∃ t' a', Paced program owner t a t' a' ∧ a'.params.interrupt = false := by
  have forgotten := sameCount_forgetAll t a.drain.1
  by_cases interrupted : a.drain.2.takeInterrupt.1 = true
  · refine ⟨t.forgetAll a.drain.1, a.drain.2.takeInterrupt.2, .ended .breakLoop ?_ ?_ ?_ forgotten,
      rfl⟩
    · simp only [round, interrupted, if_true]
    · simp only [round, interrupted, if_true]
    · decide
  · have attempted := (attempted_executeOne program owner (t.forgetAll a.drain.1)
      ((a.drain.2.takeInterrupt.2).waitUnlocked owner)).1
    have plain := attempted.plain
    have free := attempted.interrupt
    have count := sameCount_executeOne program owner (t.forgetAll a.drain.1)
      ((a.drain.2.takeInterrupt.2).waitUnlocked owner)
    rcases attempt : executeOne program owner (t.forgetAll a.drain.1)
      ((a.drain.2.takeInterrupt.2).waitUnlocked owner) with ⟨outcome, t', a'⟩
    rw [attempt] at plain free count
    have program' := count.program.trans forgotten.program
    have retired := count.retired.trans forgotten.retired
    cases outcome with
    | completed =>
      refine ⟨t'.retire, a', .stepped ?_ ?_ ⟨program', congrArg (· + 1) retired⟩, free⟩ <;>
      · simp only [round, interrupted, attempt]
        rfl
    | retry =>
      refine ⟨t', a', .goesOn ?_ ?_ ⟨program', retired⟩, free⟩ <;>
      · simp only [round, interrupted, attempt]
        rfl
    | halt reason executed =>
      cases executed with
      | true =>
        cases plain
        refine ⟨t'.retire, a', .called ?_ ?_ ⟨program', congrArg (· + 1) retired⟩, free⟩ <;>
        · simp only [round, interrupted, attempt]
          rfl
      | false =>
        refine ⟨t', a', .ended reason ?_ ?_ plain ⟨program', retired⟩, free⟩ <;>
        · simp only [round, interrupted, attempt]
          rfl

/-! ## Runs and steps -/

/-- The first step of a run that ends: it completes one instruction and the rest of the run takes
fewer rounds, or it is all of the run. -/
theorem run_step_of_run
    (ran : run program ⟨false, owner⟩ rounds t a = some (reason, t', a')) :
    (∃ rounds' t₁ a₁, rounds' < rounds ∧
        run program ⟨true, owner⟩ rounds t a = some (.stepThread, t₁, a₁) ∧
        run program ⟨false, owner⟩ rounds' t₁ a₁ = some (reason, t', a')) ∨
      ∃ last, run program ⟨true, owner⟩ rounds t a = some (last, t', a') ∧
        last ≠ .stepThread ∧ reason.EndsStep last := by
  induction rounds generalizing t a with
  | zero => cases ran
  | succ rounds ih =>
    obtain ⟨t₁, a₁, paced, -⟩ := exists_paced program owner t a
    rw [run] at ran ⊢
    cases paced with
    | goesOn whole single =>
      rw [whole] at ran
      rw [single]
      rcases ih ran with ⟨rounds', t₂, a₂, fewer, stepped, rest⟩ | last
      · exact .inl ⟨rounds', t₂, a₂, Nat.lt_succ_of_lt fewer, stepped, rest⟩
      · exact .inr last
    | stepped whole single =>
      rw [whole] at ran
      rw [single]
      exact .inl ⟨rounds, t₁, a₁, Nat.lt_succ_self rounds, rfl, ran⟩
    | ended reason whole single plain =>
      rw [whole] at ran
      rw [single]
      cases ran
      refine .inr ⟨reason, rfl, ?_, plain, .inl rfl⟩
      rintro rfl
      cases plain
    | called whole single =>
      rw [whole] at ran
      rw [single]
      cases ran
      exact .inr ⟨_, rfl, by decide, by decide, .inr rfl⟩

/-- A step that ends is the beginning of the run, or all of it. -/
theorem run_of_run_step (stepped : run program ⟨true, owner⟩ rounds t a = some (last, t₁, a₁)) :
    (last = .stepThread ∧ ∀ {rounds' x}, run program ⟨false, owner⟩ rounds' t₁ a₁ = some x →
        ∃ rounds'', run program ⟨false, owner⟩ rounds'' t a = some x) ∨
      (last ≠ .stepThread ∧ ∃ reason, reason.EndsStep last ∧
        run program ⟨false, owner⟩ rounds t a = some (reason, t₁, a₁)) := by
  induction rounds generalizing t a with
  | zero => cases stepped
  | succ rounds ih =>
    obtain ⟨t₂, a₂, paced, -⟩ := exists_paced program owner t a
    rw [run] at stepped ⊢
    cases paced with
    | goesOn whole single =>
      rw [single] at stepped
      rw [whole]
      rcases ih stepped with ⟨one, rest⟩ | last
      · refine .inl ⟨one, fun ran => ?_⟩
        obtain ⟨rounds'', ran⟩ := rest ran
        refine ⟨rounds'' + 1, ?_⟩
        rw [run, whole]
        exact ran
      · exact .inr last
    | stepped whole single =>
      rw [single] at stepped
      cases stepped
      refine .inl ⟨rfl, fun {rounds' x} ran => ⟨rounds' + 1, ?_⟩⟩
      rw [run, whole]
      exact ran
    | ended reason whole single plain =>
      rw [single] at stepped
      rw [whole]
      cases stepped
      refine .inr ⟨?_, _, ⟨plain, .inl rfl⟩, rfl⟩
      rintro rfl
      cases plain
    | called whole single =>
      rw [single] at stepped
      rw [whole]
      cases stepped
      exact .inr ⟨by decide, _, ⟨by decide, .inr rfl⟩, rfl⟩

/-- A step executes one instruction if its reason says so, and none otherwise. -/
theorem retired_run_step (stepped : run program ⟨true, owner⟩ rounds t a = some (last, t₁, a₁)) :
    t₁.program = t.program ∧ a₁.params.interrupt = false ∧
      t₁.retired = t.retired + if last.contains .stepThread then 1 else 0 := by
  induction rounds generalizing t a with
  | zero => cases stepped
  | succ rounds ih =>
    obtain ⟨t₂, a₂, paced, free⟩ := exists_paced program owner t a
    rw [run] at stepped
    cases paced with
    | goesOn whole single count =>
      rw [single] at stepped
      rw [← count.program, ← count.retired]
      exact ih stepped
    | stepped whole single count =>
      rw [single] at stepped
      cases stepped
      exact ⟨count.program, free, count.retired⟩
    | ended reason whole single plain count =>
      rw [single] at stepped
      cases stepped
      rw [plain]
      exact ⟨count.program, free, count.retired⟩
    | called whole single count =>
      rw [single] at stepped
      cases stepped
      exact ⟨count.program, free, count.retired⟩

end Trace

end GuestExec
