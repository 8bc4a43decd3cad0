import GuestExec.Proofs.Fault.Reasons

/-!
# The books on faults

Every fault is entered under its outcome, and most are entered once. A misaligned
access that memory allows and that cannot be made as it is goes through the handler of
access faults first, which enters a retry; the access is then made again or the run
ends, and that is entered too. So one fault may count twice (`MendsFirst`), and the
retries among the recovered faults include some that ended a run.
-/

namespace GuestExec

/-- The run ends. -/
def FaultOutcome.halts : FaultOutcome → Bool
  | .halt _ => true
  | _ => false

namespace FaultStats

/-- The books after a fault that ended with `outcome`. Only aborts and fatal errors end a run. -/
def count (s : FaultStats) : FaultOutcome → FaultStats
  | .emulated => { s with alignmentEmulated := s.alignmentEmulated + 1 }
  | .retry => { s with accessRetried := s.accessRetried + 1 }
  | .redirected => { s with exceptionsDelivered := s.exceptionsDelivered + 1 }
  | .halt reason =>
    if reason = .fatalError then { s with fatal := s.fatal + 1 }
    else if reason = .dataAbort ∨ reason = .prefetchAbort then
      { s with abortsHalted := s.abortsHalted + 1 }
    else s

/-- How many entries there are. -/
def total (s : FaultStats) : Nat := s.recovered + s.abortsHalted + s.fatal

theorem total_count (s : FaultStats) {outcome : FaultOutcome}
    (known : ∀ reason, outcome = .halt reason → reason ∈ Vcpu.faultReasons) :
    (s.count outcome).total = s.total + 1 := by
  cases outcome with
  | halt reason =>
    have known := known reason rfl
    simp only [Vcpu.faultReasons, List.mem_cons, List.not_mem_nil, or_false] at known
    rcases known with rfl | rfl | rfl <;>
    · simp only [count, total, recovered, HaltReason.dataAbort, HaltReason.prefetchAbort,
        HaltReason.fatalError]
      simp +arith
  | _ =>
    simp only [count, total, recovered]
    omega

/-- Only faults after which the guest went on are entered as recovered. -/
theorem recovered_count (s : FaultStats) (outcome : FaultOutcome) :
    (s.count outcome).recovered = s.recovered + if outcome.halts then 0 else 1 := by
  cases outcome with
  | halt reason =>
    simp only [count, FaultOutcome.halts, if_true]
    split
    · rfl
    · split <;> rfl
  | _ =>
    simp only [count, recovered, FaultOutcome.halts, Bool.false_eq_true, if_false]
    omega

theorem exceptionsDelivered_count (s : FaultStats) (outcome : FaultOutcome) :
    (s.count outcome).exceptionsDelivered =
      s.exceptionsDelivered + if outcome = .redirected then 1 else 0 := by
  cases outcome with
  | halt reason =>
    simp only [count]
    split
    · rfl
    · split <;> rfl
  | _ => rfl

end FaultStats

namespace Vcpu

open Mmu (starts)

variable {c c₁ : Vcpu} {info : FaultInfo} {s : Syndrome} {miss : GuestAddr}
  {result : FaultOutcome × Vcpu}

/-! ## Entries -/

/-- The fault is entered once, under its outcome. -/
def Once (c : Vcpu) (result : FaultOutcome × Vcpu) : Prop :=
  result.2.stats = c.stats.count result.1

/-- The fault is entered as a retry, and once more as emulated or fatal. -/
structure Twice (c : Vcpu) (result : FaultOutcome × Vcpu) : Prop where
  outcome : result.1 = .emulated ∨ result.1 = .halt .fatalError
  stats : result.2.stats = (c.stats.count .retry).count result.1

theorem Once.congr (once : c₁.Once result) (same : c₁.stats = c.stats) : c.Once result := by
  rwa [Once, ← same]

theorem Twice.congr (twice : c₁.Twice result) (same : c₁.stats = c.stats) : c.Twice result :=
  ⟨twice.outcome, same ▸ twice.stats⟩

theorem Once.total (once : c.Once result) (handled : c.Handled result) :
    result.2.stats.total = c.stats.total + 1 := by
  rw [once, FaultStats.total_count _ handled.reason]

theorem Once.recovered (once : c.Once result) :
    result.2.stats.recovered = c.stats.recovered + if result.1.halts then 0 else 1 := by
  rw [once, FaultStats.recovered_count]

theorem Twice.total (twice : c.Twice result) (handled : c.Handled result) :
    result.2.stats.total = c.stats.total + 2 := by
  have retried := c.stats.total_count fun reason (h : FaultOutcome.retry = .halt reason) =>
    FaultOutcome.noConfusion h
  rw [twice.stats, FaultStats.total_count _ handled.reason, retried]

/-- The retry stays among the recovered faults even if the run ends. -/
theorem Twice.recovered (twice : c.Twice result) :
    result.2.stats.recovered = c.stats.recovered + if result.1.halts then 1 else 2 := by
  rw [twice.stats, FaultStats.recovered_count, FaultStats.recovered_count]
  cases result.1 <;> rfl

theorem once_onUnrecoverable (c : Vcpu) (kind : FaultKind) (info : FaultInfo) :
    c.Once (c.onUnrecoverable kind info) := rfl

theorem once_deliver (c : Vcpu) (info : FaultInfo) (status : UInt64) :
    c.Once (c.deliver info status) := by
  unfold deliver
  dsimp only
  split
  · rw [Once]
    cases info.access <;> rfl
  · rfl

theorem once_onAccess (c : Vcpu) (info : FaultInfo) : c.Once (c.onAccess info) := by
  unfold onAccess
  dsimp only
  split
  · exact once_deliver c info _
  · split
    · exact once_deliver c info _
    · split <;> rfl

/-- An access that is made in software is entered, one that fails is not. -/
theorem stats_onAlignment (c : Vcpu) (info : FaultInfo) :
    (c.onAlignment info).2.stats = (c.onAlignment info).1.elim c.stats c.stats.count := by
  unfold onAlignment
  split
  · rfl
  · dsimp only
    split
    · split <;> rfl
    · split <;> rfl

/-- After a retry the access is made once more. -/
theorem twice_again (retried : c₁.stats = c.stats.count .retry) (info : FaultInfo) :
    c.Twice (match c₁.onAlignment info with
      | (some outcome, c) => (outcome, c)
      | (none, c) => c.onUnrecoverable .alignment info) := by
  have again := stats_onAlignment c₁ info
  rw [retried] at again
  split
  · rename_i eq
    have emulated := eq_emulated_of_onAlignment (congrArg Prod.fst eq)
    rw [eq] at again
    exact ⟨.inl emulated, again⟩
  · rename_i eq
    rw [eq] at again
    exact ⟨.inr rfl, congrArg (FaultStats.count · (.halt .fatalError)) again⟩

/-- Mending a page is entered before what comes of the access. -/
theorem twice_mend (sound : c.mmu.Sound) (info : FaultInfo) (s : Syndrome)
    (mends : c.mmu.memory.mends miss (accessOf s) = true) : c.Twice (c.mend info s miss) := by
  obtain ⟨u', -, retried⟩ := onAccess_of_mends
    { info with address := miss, access := accessOf s } sound mends
  unfold mend
  rw [retried]
  exact twice_again rfl info

theorem once_mend (w : c.mmu.memory.Regular) (info : FaultInfo) (s : Syndrome)
    (h : c.mmu.memory.mends miss (accessOf s) = false) : c.Once (c.mend info s miss) := by
  have tried := once_onAccess c { info with address := miss, access := accessOf s }
  have never := onAccess_ne_retry { info with address := miss, access := accessOf s } w h
  unfold mend
  split
  · rename_i eq
    exact absurd (congrArg Prod.fst eq) never
  · rename_i eq
    rw [eq] at tried
    exact tried

theorem once_or_twice_mend (c : Vcpu) (info : FaultInfo) (s : Syndrome) (miss : GuestAddr) :
    c.Once (c.mend info s miss) ∨ c.Twice (c.mend info s miss) := by
  have tried := once_onAccess c { info with address := miss, access := accessOf s }
  unfold mend
  split
  · rename_i eq
    rw [eq] at tried
    exact .inr (twice_again tried info)
  · rename_i eq
    rw [eq] at tried
    exact .inl tried

theorem once_or_twice_onStraddling (c : Vcpu) (info : FaultInfo) (s : Syndrome) :
    c.Once (c.onStraddling info s) ∨ c.Twice (c.onStraddling info s) := by
  rcases searched : c.mmu.firstWalkMiss info.address s.accessSize (accessOf s) with ⟨_ | miss, u⟩
  · rw [onStraddling_of_found searched]
    exact .inl rfl
  · rw [onStraddling_eq_mend searched]
    exact (once_or_twice_mend { c with mmu := u } info s miss).imp (·.congr rfl) (·.congr rfl)

/-- Other misaligned accesses are never made, and a retry would only trap again. -/
theorem handle_of_undescribed (undescribed : emulable info = none) :
    c.handle .alignment info = match c.onAccess info with
      | (.retry, c) => c.onUnrecoverable .alignment info
      | (outcome, c) => (outcome, c) := by
  rcases accessed : c.onAccess info with ⟨outcome, c'⟩
  cases outcome <;> simp only [handle, onAlignment, undescribed, accessed]

/-- No fault is entered more often, and none is left out. -/
theorem once_or_twice_handle (c : Vcpu) (kind : FaultKind) (info : FaultInfo) :
    c.Once (c.handle kind info) ∨ c.Twice (c.handle kind info) := by
  cases kind with
  | alignment =>
    cases described : emulable info with
    | some s =>
      have stats := stats_onAlignment c info
      rcases eq : c.onAlignment info with ⟨_ | outcome, c₁⟩
      · have same : c₁.stats = c.stats := by rwa [eq] at stats
        rw [handle_eq_onStraddling described eq]
        exact (once_or_twice_onStraddling c₁ info s).imp (·.congr same) (·.congr same)
      · rw [eq] at stats
        simp only [handle, eq]
        exact .inl stats
    | none =>
      have tried := once_onAccess c info
      rw [handle_of_undescribed described]
      split
      · rename_i eq
        rw [eq] at tried
        exact .inr ⟨.inr rfl, congrArg (FaultStats.count · (.halt .fatalError)) tried⟩
      · rename_i eq
        rw [eq] at tried
        exact .inl tried
  | access => exact .inl (once_onAccess c info)
  | breakpoint => exact .inl rfl
  | undefinedInstruction => exact .inl rfl
  | unknown => exact .inl rfl

/-! ## Faults that are entered twice -/

/-- Byte `k` of a misaligned access is the first that no walk finds, for the sake of a guard only:
its page is mended, and the access made again. -/
structure MendedAt (c : Vcpu) (info : FaultInfo) (s : Syndrome) (k : Nat) : Prop where
  inside : k < s.accessSize
  mends : c.mmu.memory.mends (byteAt info k) (accessOf s) = true
  guarded : c.mmu.memory.isGuarded (byteAt info k) = true
  missed : c.mmu.served (byteAt info k) (accessOf s) = false
  before : ∀ i < k, c.mmu.served (byteAt info i) (accessOf s) = true ∨
    c.mmu.memory.usable (byteAt info i) (accessOf s) = true

theorem exists_mendedAt_iff (sound : c.mmu.Sound) : (∃ k, c.MendedAt info s k) ↔
    ∃ miss, FirstMiss c.mmu info.address s.accessSize (accessOf s) miss ∧
      c.mmu.memory.mends miss (accessOf s) = true := by
  have bounds := accessSize_bounds s
  have finds : ∀ b, c.mmu.Finds .walk b (accessOf s) ↔ c.mmu.served b (accessOf s) = true ∨
      c.mmu.memory.usable b (accessOf s) = true := fun b => by
    rw [Mmu.Finds, sound.serves_iff]
    simp
  simp only [firstMiss_iff sound bounds.1 (Nat.le_trans bounds.2 (by decide)), finds]
  constructor
  · rintro ⟨k, h⟩
    refine ⟨_, ⟨k, h.inside, rfl, ?_, h.before⟩, h.mends⟩
    exact fun found => not_finds sound h.missed (.inl h.guarded) ((finds _).2 found)
  · rintro ⟨_, ⟨k, inside, rfl, missed, before⟩, mends⟩
    rw [not_or, Bool.not_eq_true, Bool.not_eq_true, MemoryMap.usable,
      MemoryMap.allows_of_mends mends, Bool.true_and, Bool.not_eq_false'] at missed
    exact ⟨k, inside, mends, missed.2, missed.1, before⟩

/-- A misaligned access is treated as an access fault that is good for a retry, before it is decided
what comes of it: one that can be made in software if a guard is in its way, any other if its
address may be accessed. -/
def MendsFirst (c : Vcpu) (info : FaultInfo) : Prop :=
  match emulable info with
  | some s => ∃ k, c.MendedAt info s k
  | none => c.mmu.memory.mends info.address info.access = true

theorem mendsFirst_of_described (described : emulable info = some s) :
    c.MendsFirst info ↔ ∃ k, c.MendedAt info s k := by
  rw [MendsFirst, described]

theorem mendsFirst_of_none (undescribed : emulable info = none) :
    c.MendsFirst info ↔ c.mmu.memory.mends info.address info.access = true := by
  rw [MendsFirst, undescribed]

/-! ## Misaligned accesses that can be made in software -/

theorem twice_handle_of_described (sound : c.mmu.Sound) (described : emulable info = some s)
    (first : FirstMiss c.mmu info.address s.accessSize (accessOf s) miss)
    (mends : c.mmu.memory.mends miss (accessOf s) = true) :
    c.Twice (c.handle .alignment info) := by
  obtain ⟨u, same, eq⟩ := handle_eq_mend sound described first
  have twice := twice_mend (c := { c with mmu := u }) same.sound info s
    ((same.memory.mends sound.memory).trans mends)
  rw [eq]
  exact twice.congr rfl

theorem once_handle_of_described (sound : c.mmu.Sound) (described : emulable info = some s)
    (refused : ∀ miss, FirstMiss c.mmu info.address s.accessSize (accessOf s) miss →
      c.mmu.memory.mends miss (accessOf s) = false) : c.Once (c.handle .alignment info) := by
  rcases onAlignment_cases sound described with ⟨-, emulated⟩ | ⟨-, u', same, failed⟩
  · have stats := stats_onAlignment c info
    rw [emulated] at stats
    rw [handle]
    split
    · rename_i eq
      rw [eq] at stats emulated
      cases emulated
      exact stats
    · rename_i eq
      rw [eq] at emulated
      cases emulated
  · rw [handle_eq_onStraddling described failed]
    by_cases all : ∀ b ∈ starts info.address s.accessSize, c.mmu.Finds .walk b (accessOf s)
    · obtain ⟨u'', searched⟩ := firstWalkMiss_eq_none same.sound
        fun b mem => (same.finds b mem).2 (all b mem)
      rw [onStraddling_of_found (c := { c with mmu := u' }) searched]
      exact (once_onUnrecoverable _ .alignment info).congr rfl
    · obtain ⟨miss, first⟩ := exists_firstMiss all
      obtain ⟨u, same, eq⟩ := handle_eq_mend sound described first
      have once := once_mend (c := { c with mmu := u }) same.sound.memory info s
        ((same.memory.mends sound.memory).trans (refused miss first))
      rw [← handle_eq_onStraddling described failed, eq]
      exact once.congr rfl

/-! ## Every fault -/

theorem twice_handle (sound : c.mmu.Sound) (mends : c.MendsFirst info) :
    c.Twice (c.handle .alignment info) := by
  cases described : emulable info with
  | some s =>
    obtain ⟨miss, first, mends⟩ :=
      (exists_mendedAt_iff sound).1 ((mendsFirst_of_described described).1 mends)
    exact twice_handle_of_described sound described first mends
  | none =>
    obtain ⟨u', -, retried⟩ :=
      onAccess_of_mends info sound ((mendsFirst_of_none described).1 mends)
    rw [handle_of_undescribed described, retried]
    exact ⟨.inr rfl, rfl⟩

theorem once_handle (sound : c.mmu.Sound) {kind : FaultKind}
    (plain : ¬(kind = .alignment ∧ c.MendsFirst info)) : c.Once (c.handle kind info) := by
  cases kind with
  | alignment =>
    have never : ¬c.MendsFirst info := fun mends => plain ⟨rfl, mends⟩
    cases described : emulable info with
    | some s =>
      rw [mendsFirst_of_described described, exists_mendedAt_iff sound] at never
      refine once_handle_of_described sound described fun miss first => ?_
      rw [← Bool.not_eq_true]
      exact fun mends => never ⟨miss, first, mends⟩
    | none =>
      rw [mendsFirst_of_none described, Bool.not_eq_true] at never
      have once := once_onAccess c info
      have other := onAccess_ne_retry info sound.memory never
      rw [handle_of_undescribed described]
      split
      · rename_i eq
        exact absurd (congrArg Prod.fst eq) other
      · rename_i eq
        rwa [eq] at once
  | access => exact once_onAccess c info
  | breakpoint => rfl
  | undefinedInstruction => rfl
  | unknown => rfl

end Vcpu

end GuestExec
