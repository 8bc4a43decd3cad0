import GuestExec.Proofs.Trace.Plain
import GuestExec.Proofs.Trace.Stepping

/-!
# Runs as the guest sees them

What a guest sees of a run is what its instructions do one after the other:
`Advances` tells of a run under way and `Ends` of one that is over. That a run in
an open map comes to the same is the matter of this module. Its rounds are
instructions or attempts made again, of which at most two stand before an
instruction.
-/

namespace GuestExec.Trace

variable {program : Program} {mode : RunMode} {owner : UInt64} {t t' t₁ : Tracer}
  {a a' a₁ : Activation} {reason : HaltReason} {n : Nat} {v : GuestView} {step : Bool}
  {attempt : Attempt}

/-! ## Instructions one after the other -/

/-- What a guest that saw `v₀` sees `n` instructions later, with the run still going on. -/
inductive Advances (effect : GuestView → Attempt × GuestView) (step : Bool) (v₀ : GuestView) :
    Nat → GuestView → Prop where
  | start : Advances effect step v₀ 0 v₀
  | next {n : Nat} {v v' : GuestView} : Advances effect step v₀ n v →
    effect v = (.completed, v') → step = false → Advances effect step v₀ (n + 1) v'

/-- Of a guest that saw `v₀`, the run ends for `reason` after `n` instructions, and then it
sees `v`. -/
def Ends (effect : GuestView → Attempt × GuestView) (step : Bool) (v₀ : GuestView)
    (reason : HaltReason) (n : Nat) (v : GuestView) : Prop :=
  ∃ k v₁ attempt, Advances effect step v₀ k v₁ ∧ effect v₁ = (attempt, v) ∧
    attempt.round step = .ended reason ∧ n = k + attempt.executes.toNat

theorem Attempt.round_eq_continues :
    attempt.round step = .continues ↔ attempt = .completed ∧ step = false ∨ attempt = .retry := by
  cases attempt with
  | completed => cases step <;> simp [Attempt.round]
  | retry => simp [Attempt.round]
  | halt reason executed => cases executed <;> simp [Attempt.round]

theorem Attempt.retired_count (attempt : Attempt) (t : Tracer) :
    (attempt.count t).retired = t.retired + attempt.executes.toNat := by
  unfold Attempt.count
  cases attempt.executes <;> rfl

/-! ## One round -/

/-- Nobody asks the thread to stop, its map is open, and the tracer remembers nothing that the
program does not hold, or is about to forget it. -/
structure Undisturbed (program : Program) (t : Tracer) (a : Activation) : Prop where
  sound : a.cpu.mmu.Sound
  opened : a.cpu.mmu.memory.Open
  fresh : FreshWhenDrained program t a fun _ => False
  free : a.params.interrupt = false

/-- What the attempt of a round comes to, as far as the guest sees it. -/
def seenTried (program : Program) (owner : UInt64) (t : Tracer) (a : Activation) :
    Attempt × GuestView :=
  seen ((tried program owner t a).1, (tried program owner t a).2.2)

theorem tried_of_empty (empty : a.queue = {}) (program : Program) (owner : UInt64) (t : Tracer) :
    tried program owner t a = executeOne program owner t (ready a owner) := by
  rw [tried, empty]
  rfl

theorem retired_tried (program : Program) (owner : UInt64) (t : Tracer) (a : Activation) :
    (tried program owner t a).2.1.retired = t.retired :=
  (sameCount_executeOne program owner _ _).retired.trans
    (sameCount_forgetAll t a.queue.requests).retired

namespace Undisturbed

/-- A round does what the instruction does, or makes its access again. -/
theorem tried (h : Undisturbed program t a) (sized : ∀ pc, (program.opAt pc).sized = true)
    (owner : UInt64) :
    seenTried program owner t a = program.effect t.strictAlignment a.cpu.view ∨
      (seenTried program owner t a = (.retry, a.cpu.view) ∧ ∃ addr size access,
        Attempts program (t.forgetAll a.queue.requests) (ready a owner).cpu addr size access) := by
  have made := seen_executeOne (a := ready a owner) h.sound h.opened h.fresh.drain sized owner
  rw [(SameSetup.forgetAll t a.queue.requests).strict] at made
  exact made

/-- A round leaves the thread undisturbed. -/
theorem round (h : Undisturbed program t a) (sized : ∀ pc, (program.opAt pc).sized = true)
    (mode : RunMode) :
    Undisturbed program (round program mode t a).2.1 (round program mode t a).2.2 := by
  refine ⟨(follows_round h.sound program mode t).sound, ?_,
    (h.fresh.round mode).mono fun pc here => .inr here, ?_⟩
  · have opened : (seenTried program mode.owner t a).2.memory.Open := by
      rcases h.tried sized mode.owner with made | ⟨made, -⟩
      · rw [made]
        exact open_effect program _ h.sound.memory h.opened
      · rw [made]
        exact h.opened
    rw [round_of_free h.free]
    exact opened
  · rw [round_of_free h.free]
    exact (attempted_executeOne program mode.owner _ (ready a mode.owner)).1.interrupt

/-! ## Rounds one after the other -/

/-- The guest sees instructions only. -/
theorem reaches (h : Undisturbed program t a) (sized : ∀ pc, (program.opAt pc).sized = true)
    (reached : Reaches program mode t a t' a') :
    Undisturbed program t' a' ∧ ∃ n, t'.retired = t.retired + n ∧
      Advances (program.effect t.strictAlignment) mode.step a.cpu.view n a'.cpu.view := by
  induction reached with
  | start => exact ⟨h, 0, rfl, .start⟩
  | @round t₁ t₂ a₁ a₂ before eq ih =>
    obtain ⟨undisturbed, n, retired, advances⟩ := ih
    have next := undisturbed.round sized mode
    rw [eq] at next
    refine ⟨next, ?_⟩
    rw [round_of_free undisturbed.free] at eq
    have goesOn := Attempt.round_eq_continues.1 (congrArg Prod.fst eq)
    have count : t₂.retired =
        t₁.retired + (Trace.tried program mode.owner t₁ a₁).1.executes.toNat := by
      rw [← congrArg (fun x => x.2.1.retired) eq]
      exact (Attempt.retired_count _ _).trans
        (congrArg (· + _) (retired_tried program mode.owner t₁ a₁))
    have view : (seenTried program mode.owner t₁ a₁).2 = a₂.cpu.view :=
      congrArg (fun x => x.2.2.cpu.view) eq
    have made := undisturbed.tried sized mode.owner
    rw [before.sameSetup.strict] at made
    rcases goesOn with ⟨completed, whole⟩ | retry
    · have first : (seenTried program mode.owner t₁ a₁).1 = .completed := completed
      rcases made with made | ⟨made, -⟩
      · refine ⟨n + 1, ?_, advances.next ?_ whole⟩
        · rw [count, retired, completed]
          rfl
        · rw [← made]
          exact Prod.ext first view
      · rw [made] at first
        cases first
    · have first : (seenTried program mode.owner t₁ a₁).1 = .retry := retry
      refine ⟨n, by rw [count, retired, retry]; rfl, ?_⟩
      have same : a₂.cpu.view = a₁.cpu.view := by
        rw [← view]
        rcases made with made | ⟨made, -⟩
        · rw [made] at first ⊢
          exact effect_of_retry undisturbed.sound.memory undisturbed.opened first
        · rw [made]
      rw [same]
      exact advances

/-- A run leaves the thread undisturbed, and no fewer instructions executed. -/
theorem run (h : Undisturbed program t a) (sized : ∀ pc, (program.opAt pc).sized = true)
    {rounds : Nat} (ran : run program mode rounds t a = some (reason, t', a')) :
    Undisturbed program t' a' ∧ ∃ n, t'.retired = t.retired + n := by
  obtain ⟨t₁, a₁, reached, last⟩ := exists_run_iff.1 ⟨rounds, ran⟩
  obtain ⟨undisturbed, n, retired, -⟩ := h.reaches sized reached
  have final := undisturbed.round sized mode
  rw [last] at final
  refine ⟨final, n + (Trace.tried program mode.owner t₁ a₁).1.executes.toNat, ?_⟩
  rw [round_of_free undisturbed.free] at last
  have count := congrArg (fun x => x.2.1.retired) last
  dsimp only at count
  rw [Attempt.retired_count, retired_tried] at count
  omega

/-- A round that makes its access again leaves all else as it was. -/
theorem goesOn_of_retry (h : Undisturbed program t a)
    (sized : ∀ pc, (program.opAt pc).sized = true) (mode : RunMode)
    (retry : seenTried program mode.owner t a = (.retry, a.cpu.view)) :
    ∃ t' a', Trace.round program mode t a = (.continues, t', a') ∧
      Trace.tried program mode.owner t a = (.retry, t', a') ∧ Undisturbed program t' a' ∧
      a'.cpu.view = a.cpu.view ∧ a'.queue = {} ∧ t'.retired = t.retired ∧
      t'.strictAlignment = t.strictAlignment := by
  have next := h.round sized mode
  have queue := queue_round program mode t a
  have strict := (SameSetup.round program mode t a).strict
  have retired := retired_tried program mode.owner t a
  have eq := round_of_free h.free program mode t
  rw [eq] at next queue strict
  rcases made : Trace.tried program mode.owner t a with ⟨attempt, t', a'⟩
  rw [seenTried, made] at retry
  rw [made] at eq next queue strict retired
  obtain rfl : attempt = .retry := congrArg Prod.fst retry
  exact ⟨t', a', eq, rfl, next, congrArg Prod.snd retry, queue, retired, strict⟩

/-- An access is made again at most twice before the instruction has its effect. -/
theorem settles (h : Undisturbed program t a) (sized : ∀ pc, (program.opAt pc).sized = true)
    (mode : RunMode) :
    ∃ t' a', Reaches program mode t a t' a' ∧ t'.retired = t.retired ∧
      seenTried program mode.owner t' a' = program.effect t.strictAlignment a.cpu.view := by
  rcases h.tried sized mode.owner with made | ⟨retry, addr, size, access, attempts⟩
  · exact ⟨t, a, .start, rfl, made⟩
  obtain ⟨t₁, a₁, round₁, tried₁, h₁, view₁, queue₁, retired₁, strict₁⟩ :=
    h.goesOn_of_retry sized mode retry
  have made₁ := h₁.tried sized mode.owner
  rw [strict₁, view₁] at made₁
  rcases made₁ with made | ⟨retry, -⟩
  · exact ⟨t₁, a₁, .round .start round₁, retired₁, made⟩
  obtain ⟨t₂, a₂, round₂, tried₂, h₂, view₂, queue₂, retired₂, strict₂⟩ :=
    h₁.goesOn_of_retry sized mode (view₁ ▸ retry)
  have made₂ := h₂.tried sized mode.owner
  rw [strict₂, strict₁, view₂, view₁] at made₂
  rcases made₂ with made | ⟨retry, -⟩
  · exact ⟨t₂, a₂, .round (.round .start round₁) round₂, retired₂.trans retired₁, made⟩
  -- A third attempt is not made again: an open map has no guards to get stuck at.
  have free : ¬Stuck (t.forgetAll a.queue.requests) (ready a mode.owner).cpu.mmu addr size access :=
    fun stuck => by
      have guarded : a.cpu.mmu.memory.isGuarded addr = true := stuck.guarded
      rw [h.opened.isGuarded h.sound.memory] at guarded
      cases guarded
  rw [tried_of_empty queue₁] at tried₂
  have third := attempts.third_ne_retry free tried₁ (cpu_ready a₁ mode.owner) tried₂
    (cpu_ready a₂ mode.owner)
  rw [← tried_of_empty queue₂] at third
  exact absurd (congrArg Prod.fst retry) third

theorem exists_reaches (h : Undisturbed program t a)
    (sized : ∀ pc, (program.opAt pc).sized = true)
    (advances : Advances (program.effect t.strictAlignment) mode.step a.cpu.view n v) :
    ∃ t' a', Reaches program mode t a t' a' ∧ t'.retired = t.retired + n ∧ a'.cpu.view = v := by
  induction advances with
  | start => exact ⟨t, a, .start, rfl, rfl⟩
  | @next n v v' _ effect whole ih =>
    obtain ⟨t₁, a₁, reached, retired, rfl⟩ := ih
    have undisturbed := (h.reaches sized reached).1
    rw [← reached.sameSetup.strict] at effect
    obtain ⟨t₂, a₂, again, same, made⟩ := undisturbed.settles sized mode
    rw [effect] at made
    have completed : (Trace.tried program mode.owner t₂ a₂).1 = .completed :=
      congrArg Prod.fst made
    have eq := round_of_free ((undisturbed.reaches sized again).1.free) program mode t₂
    rw [completed, whole] at eq
    refine ⟨_, _, .round (reached.trans again) eq, ?_, congrArg Prod.snd made⟩
    rw [Attempt.retired_count, retired_tried, same, retired]
    rfl

/-- The states of a run are what the instructions lead to. -/
theorem reaches_iff (h : Undisturbed program t a) (sized : ∀ pc, (program.opAt pc).sized = true)
    (mode : RunMode) (n : Nat) (v : GuestView) :
    (∃ t' a', Reaches program mode t a t' a' ∧ t'.retired = t.retired + n ∧ a'.cpu.view = v) ↔
      Advances (program.effect t.strictAlignment) mode.step a.cpu.view n v := by
  refine ⟨fun ⟨t', a', reached, retired, view⟩ => ?_, h.exists_reaches sized⟩
  obtain ⟨-, k, counted, advances⟩ := h.reaches sized reached
  obtain rfl : k = n := by omega
  exact view ▸ advances

/-- A run ends as its instructions do. -/
theorem run_iff (h : Undisturbed program t a) (sized : ∀ pc, (program.opAt pc).sized = true)
    (mode : RunMode) (reason : HaltReason) (n : Nat) (v : GuestView) :
    (∃ rounds t' a', Trace.run program mode rounds t a = some (reason, t', a') ∧
        t'.retired = t.retired + n ∧ a'.cpu.view = v) ↔
      Ends (program.effect t.strictAlignment) mode.step a.cpu.view reason n v := by
  constructor
  · rintro ⟨rounds, t', a', ran, retired, rfl⟩
    obtain ⟨t₁, a₁, reached, last⟩ := exists_run_iff.1 ⟨rounds, ran⟩
    obtain ⟨undisturbed, k, counted, advances⟩ := h.reaches sized reached
    rw [round_of_free undisturbed.free] at last
    have ended := congrArg Prod.fst last
    have made := undisturbed.tried sized mode.owner
    rw [reached.sameSetup.strict] at made
    rcases made with made | ⟨made, -⟩
    · refine ⟨k, a₁.cpu.view, (Trace.tried program mode.owner t₁ a₁).1, advances, ?_, ended, ?_⟩
      · rw [← made]
        exact Prod.ext rfl (congrArg (fun x => x.2.2.cpu.view) last)
      · have count := congrArg (fun x => x.2.1.retired) last
        dsimp only at count
        rw [Attempt.retired_count, retired_tried] at count
        omega
    · have retry : (Trace.tried program mode.owner t₁ a₁).1 = .retry := congrArg Prod.fst made
      rw [retry] at ended
      cases ended
  · rintro ⟨k, v₁, attempt, advances, effect, ended, rfl⟩
    obtain ⟨t₁, a₁, reached, retired, rfl⟩ := h.exists_reaches sized advances
    have undisturbed := (h.reaches sized reached).1
    rw [← reached.sameSetup.strict] at effect
    obtain ⟨t₂, a₂, again, same, made⟩ := undisturbed.settles sized mode
    rw [effect] at made
    have outcome : (Trace.tried program mode.owner t₂ a₂).1 = attempt := congrArg Prod.fst made
    have eq := round_of_free ((undisturbed.reaches sized again).1.free) program mode t₂
    rw [outcome, ended] at eq
    obtain ⟨rounds, ran⟩ := exists_run_iff.2 ⟨t₂, a₂, reached.trans again, eq⟩
    refine ⟨rounds, _, _, ran, ?_, congrArg Prod.snd made⟩
    rw [Attempt.retired_count, retired_tried, same, retired, Nat.add_assoc]

end Undisturbed

end GuestExec.Trace
