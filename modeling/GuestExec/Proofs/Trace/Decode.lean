import GuestExec.Proofs.Memory.Table
import GuestExec.Proofs.Trace.Course

/-!
# The memory of decoded operations

A tracer is `Fresh` for a program up to `stale` when all it remembers is what the
program holds, but at addresses that are `stale`. A patch makes its address stale,
and carrying out a request makes fresh what the request covers. A run of a tracer
that is fresh once the queued requests are carried out attempts what the program
holds, and is the run of a tracer that never remembers anything (`straightRun`).
-/

namespace GuestExec

namespace InvalidationQueue

/-- Some queued request covers `pc`. -/
def Covers (q : InvalidationQueue) (pc : GuestAddr) : Prop :=
  ∃ request ∈ q.requests, request.covers pc = true

variable {q : InvalidationQueue} {request : Invalidation} {pc : GuestAddr}

/-- A queue that overflows covers everything. -/
theorem covers_push (h : request.covers pc = true ∨ q.Covers pc) : (q.push request).Covers pc := by
  unfold push
  split
  · exact ⟨.all, List.mem_singleton_self _, rfl⟩
  · rcases h with covers | ⟨old, mem, covers⟩
    · exact ⟨request, List.mem_append_right _ (List.mem_singleton_self _), covers⟩
    · exact ⟨old, List.mem_append_left _ mem, covers⟩

end InvalidationQueue

namespace Trace

variable {program : Program} {mode : RunMode} {owner : UInt64} {t t' t₁ : Tracer}
  {a a' a₁ : Activation} {op : Op} {pc : GuestAddr} {stale stale' : GuestAddr → Prop}
  {rounds : Nat} {request : Invalidation}

/-! ## What is remembered -/

/-- What the tracer remembers is what the program holds, but at stale addresses. -/
def Tracer.Fresh (t : Tracer) (program : Program) (stale : GuestAddr → Prop) : Prop :=
  ∀ pc op, t.decoded.get? pc.toNat = some op → op = program.opAt pc ∨ stale pc

namespace Tracer.Fresh

theorem mono (h : t.Fresh program stale) (sub : ∀ pc, stale pc → stale' pc) :
    t.Fresh program stale' :=
  fun pc op remembered => (h pc op remembered).imp id (sub pc)

/-- A patch makes its own address stale. -/
theorem patch (h : t.Fresh program stale) (at_ : GuestAddr) (op : Op) :
    t.Fresh (program.patch at_ op) fun pc => stale pc ∨ pc = at_ := by
  intro pc op' remembered
  by_cases here : pc = at_
  · exact .inr (.inr here)
  · have other : pc.toNat ≠ at_.toNat := fun same => here (GuestAddr.ext_toNat same)
    have kept : (program.patch at_ op).opAt pc = program.opAt pc := by
      simp only [Program.opAt, Program.get?, Program.patch, AddressTable.get?_insert,
        if_neg other]
    rw [kept]
    exact (h pc op' remembered).imp id .inl

theorem forget (h : t.Fresh program stale) (request : Invalidation) :
    (t.forget request).Fresh program fun pc => stale pc ∧ request.covers pc = false := by
  intro pc op remembered
  rw [Tracer.forget, AddressTable.get?_filter, Option.filter_eq_some_iff] at remembered
  obtain ⟨remembered, kept⟩ := remembered
  have word : (⟨UInt64.ofNat pc.toNat⟩ : GuestAddr) = pc := by
    rw [GuestAddr.toNat, UInt64.ofNat_toNat]
  rw [word, Bool.not_eq_true'] at kept
  exact (h pc op remembered).imp id fun stale => ⟨stale, kept⟩

theorem forgetAll (h : t.Fresh program stale) (requests : List Invalidation) :
    (t.forgetAll requests).Fresh program fun pc =>
      stale pc ∧ ∀ request ∈ requests, request.covers pc = false := by
  induction requests generalizing t stale with
  | nil => exact h.mono fun pc here => ⟨here, fun _ mem => nomatch mem⟩
  | cons request rest ih =>
    refine (ih (h.forget request)).mono fun pc here => ⟨here.1.1, fun r mem => ?_⟩
    rcases List.mem_cons.1 mem with rfl | mem
    · exact here.1.2
    · exact here.2 r mem

/-- Carrying out the queue leaves stale what was stale without it. -/
theorem drain {q : InvalidationQueue} (h : t.Fresh program fun pc => q.Covers pc ∨ stale pc) :
    (t.forgetAll q.requests).Fresh program stale := by
  refine (h.forgetAll q.requests).mono fun pc here => here.1.resolve_left ?_
  rintro ⟨request, mem, covers⟩
  rw [here.2 request mem] at covers
  cases covers

theorem fetch (h : t.Fresh program stale) (pc : GuestAddr) :
    (t.fetch program pc).2.Fresh program stale := by
  intro pc' op remembered
  unfold Tracer.fetch at remembered
  split at remembered
  · exact h pc' op remembered
  · rw [AddressTable.get?_insert] at remembered
    split at remembered
    · rename_i same
      cases remembered
      rw [GuestAddr.ext_toNat same]
      exact .inl rfl
    · exact h pc' op remembered

/-- What is fetched from an address that is not stale is what the program holds there. -/
theorem fetch_eq (h : t.Fresh program stale) (good : ¬stale pc) :
    (t.fetch program pc).1 = program.opAt pc := by
  unfold Tracer.fetch
  split
  · rename_i op remembered
    exact (h pc op remembered).resolve_right good
  · rfl

theorem count (h : t.Fresh program stale) (attempt : Attempt) :
    (attempt.count t).Fresh program stale := by
  unfold Attempt.count
  split
  · exact h
  · exact h

theorem executeOne (h : t.Fresh program stale) (owner : UInt64) (a : Activation) :
    (executeOne program owner t a).2.1.Fresh program stale := by
  rcases (attempted_executeOne program owner t a).2 with same | fetched
  · rw [same]
    exact h
  · rw [fetched]
    exact h.fetch _

end Tracer.Fresh

/-! ## Along a run -/

/-- Nothing enters the queue during a round: it is empty after. -/
theorem queue_round (program : Program) (mode : RunMode) (t : Tracer) (a : Activation) :
    (round program mode t a).2.2.queue = {} := by
  cases free : a.params.interrupt with
  | true =>
    rw [round_of_interrupt free]
    rfl
  | false =>
    rw [round_of_free free]
    have made := (attempted_executeOne program mode.owner (t.forgetAll a.queue.requests)
      (ready a mode.owner)).1
    show (executeOne program mode.owner (t.forgetAll a.queue.requests)
      (ready a mode.owner)).2.2.queue = {}
    generalize executeOne program mode.owner (t.forgetAll a.queue.requests)
      (ready a mode.owner) = result at made
    obtain ⟨attempt, t', a'⟩ := result
    cases made <;> rfl

/-- A tracer whose stale addresses are about to be forgotten. -/
def FreshWhenDrained (program : Program) (t : Tracer) (a : Activation)
    (stale : GuestAddr → Prop) : Prop :=
  t.Fresh program fun pc => a.queue.Covers pc ∨ stale pc

theorem FreshWhenDrained.round (h : FreshWhenDrained program t a stale) (mode : RunMode) :
    (round program mode t a).2.1.Fresh program stale := by
  have drained := h.drain
  cases free : a.params.interrupt with
  | true =>
    rw [round_of_interrupt free]
    exact drained
  | false =>
    rw [round_of_free free]
    exact (drained.executeOne mode.owner (ready a mode.owner)).count _

theorem Reaches.fresh (reached : Reaches program mode t a t' a')
    (h : FreshWhenDrained program t a stale) : FreshWhenDrained program t' a' stale := by
  induction reached with
  | start => exact h
  | @round t₁ t₂ a₁ a₂ _ eq ih =>
    have next := ih.round mode
    rw [eq] at next
    exact next.mono fun pc here => .inr here

theorem fresh_run {reason : HaltReason} (h : FreshWhenDrained program t a stale)
    (ran : run program mode rounds t a = some (reason, t', a')) : t'.Fresh program stale := by
  obtain ⟨t₁, a₁, reached, last⟩ := exists_run_iff.1 ⟨rounds, ran⟩
  have final := (reached.fresh h).round mode
  rw [last] at final
  exact final

/-- Each operation that is attempted is the one that the program holds, unless it is stale. -/
theorem Issues.op_eq_opAt (issues : Issues program t a op)
    (h : FreshWhenDrained program t a stale) (good : ¬stale ⟨a.cpu.regs.pc⟩) :
    op = program.opAt ⟨a.cpu.regs.pc⟩ := by
  rw [← issues.op_eq]
  exact h.drain.fetch_eq good

/-! ## Without a memory -/

/-- The tracer, having forgotten all it remembered. -/
def Tracer.blank (t : Tracer) : Tracer := { t with decoded := .empty }

@[simp] theorem Tracer.blank_blank (t : Tracer) : t.blank.blank = t.blank := rfl

theorem Tracer.fetch_blank (t : Tracer) (program : Program) (pc : GuestAddr) :
    (t.blank.fetch program pc).1 = program.opAt pc := rfl

/-- A round of a tracer that fetches straight from the program. -/
def straightRound (program : Program) (mode : RunMode) (t : Tracer) (a : Activation) :
    Round × Tracer × Activation :=
  let (outcome, t, a) := round program mode t.blank a
  (outcome, t.blank, a)

/-- A run of a tracer that fetches straight from the program. -/
def straightRun (program : Program) (mode : RunMode) :
    (rounds : Nat) → Tracer → Activation → Option (HaltReason × Tracer × Activation)
  | 0, _, _ => none
  | rounds + 1, t, a =>
    match straightRound program mode t a with
    | (.ended reason, t, a) => some (reason, t, a)
    | (.continues, t, a) => straightRun program mode rounds t a

@[simp] theorem Tracer.blank_forgetAll (t : Tracer) (requests : List Invalidation) :
    (t.forgetAll requests).blank = t.blank := by
  induction requests generalizing t with
  | nil => rfl
  | cons request rest ih => exact ih (t.forget request)

@[simp] theorem Tracer.blank_fetch (t : Tracer) (program : Program) (pc : GuestAddr) :
    (t.fetch program pc).2.blank = t.blank := by
  unfold Tracer.fetch
  split <;> rfl

theorem Tracer.blank_count (attempt : Attempt) (t : Tracer) :
    (attempt.count t).blank = attempt.count t.blank := by
  unfold Attempt.count
  split <;> rfl

/-- An operation is performed with no regard to what is remembered. -/
theorem perform_blank (t : Tracer) (owner : UInt64) (a : Activation) (op : Op) :
    perform t.blank owner a op = perform t owner a op := by
  cases op <;> rfl

theorem perform_of_blank_eq (same : t'.blank = t.blank) (owner : UInt64) (a : Activation)
    (op : Op) : perform t' owner a op = perform t owner a op := by
  rw [← perform_blank t', same, perform_blank]

/-- An attempt of a fresh tracer is one of a tracer that remembers nothing. -/
theorem executeOne_straight (h : t.Fresh program fun _ => False) (same : t'.blank = t.blank)
    (blank : t'.decoded = .empty) (owner : UInt64) (a : Activation) :
    (executeOne program owner t' a).1 = (executeOne program owner t a).1 ∧
      (executeOne program owner t' a).2.1.blank = (executeOne program owner t a).2.1.blank ∧
      (executeOne program owner t' a).2.2 = (executeOne program owner t a).2.2 := by
  cases fetch : fetchable a.cpu.mmu.memory ⟨a.cpu.regs.pc⟩ with
  | true =>
    have held : (t'.fetch program ⟨a.cpu.regs.pc⟩).1 = (t.fetch program ⟨a.cpu.regs.pc⟩).1 := by
      rw [h.fetch_eq id, Tracer.fetch, blank]
      rfl
    have kept : (t'.fetch program ⟨a.cpu.regs.pc⟩).2.blank =
        (t.fetch program ⟨a.cpu.regs.pc⟩).2.blank := by
      rw [Tracer.blank_fetch, Tracer.blank_fetch, same]
    rw [executeOne_of_fetchable program owner t fetch,
      executeOne_of_fetchable program owner t' fetch, held, perform_of_blank_eq kept]
    exact ⟨rfl, kept, rfl⟩
  | false =>
    rw [executeOne_of_not_fetchable program owner t fetch,
      executeOne_of_not_fetchable program owner t' fetch]
    exact ⟨rfl, same, rfl⟩

theorem straightRound_eq (h : FreshWhenDrained program t a fun _ => False) (mode : RunMode) :
    straightRound program mode t a =
      ((round program mode t a).1, (round program mode t a).2.1.blank,
        (round program mode t a).2.2) := by
  unfold straightRound
  cases free : a.params.interrupt with
  | true =>
    rw [round_of_interrupt free, round_of_interrupt free]
    simp only [Tracer.blank_forgetAll, Tracer.blank_blank]
  | false =>
    have empty : ∀ requests, (t.blank.forgetAll requests).decoded = .empty := by
      intro requests
      induction requests with
      | nil => rfl
      | cons request rest ih => exact ih
    have same : (t.blank.forgetAll a.queue.requests).blank =
        (t.forgetAll a.queue.requests).blank := by
      simp only [Tracer.blank_forgetAll, Tracer.blank_blank]
    obtain ⟨attempt, tracer, activation⟩ := executeOne_straight h.drain same (empty _) mode.owner
      (ready a mode.owner)
    rw [round_of_free free, round_of_free free]
    dsimp only [tried]
    rw [attempt, activation, Tracer.blank_count, Tracer.blank_count, tracer]

/-- The run of a tracer that is fresh when drained is that of one that fetches straight from the
program. -/
theorem straightRun_eq (h : FreshWhenDrained program t a fun _ => False) (mode : RunMode)
    (rounds : Nat) :
    straightRun program mode rounds t a =
      (run program mode rounds t a).map fun (reason, t, a) => (reason, t.blank, a) := by
  have again : ∀ t, straightRound program mode t.blank = straightRound program mode t := by
    intro t
    rfl
  induction rounds generalizing t a with
  | zero => rfl
  | succ rounds ih =>
    have next := h.round mode
    have course : ∀ t a, straightRun program mode rounds t.blank a =
        straightRun program mode rounds t a := by
      intro t a
      cases rounds with
      | zero => rfl
      | succ rounds => simp only [straightRun, again]
    rw [straightRun, run, straightRound_eq h]
    rcases eq : round program mode t a with ⟨_ | reason, t₁, a₁⟩
    · rw [eq] at next
      dsimp only
      rw [course]
      exact ih (next.mono fun pc here => .inr here)
    · rfl

end Trace

end GuestExec
