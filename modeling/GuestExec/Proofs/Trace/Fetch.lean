import GuestExec.Proofs.Trace.Retry

/-!
# Retries of a fetch

An instruction is fetched only if the host can access all of its four bytes in the
region of `pc`. A fetch that fails because of a guard faults at `pc` and at no
other byte, so one retry lifts the guard of the page of `pc` and none ever does
more. It is enough unless the instruction is `Cut`: then the region ends within
it, or a guard lies on the page that it runs into, and the fetch is retried for
ever.
-/

namespace GuestExec

open MemoryMap (Loosens)

namespace Trace

variable {m : MemoryMap} {pc : GuestAddr} {r : Region} {program : Program} {owner : UInt64}
  {t t' : Tracer} {a a' : Activation}

/-! ## What mending the page of `pc` is good for -/

/-- A fetch at `pc` is good for a retry, but the instruction there has a byte past the end of its
region or a byte on another page, which is guarded. -/
def Cut (m : MemoryMap) (pc : GuestAddr) : Prop :=
  m.mends pc .execute = true ∧ ∃ r, m.find pc = some r ∧
    (r.size < r.offset pc + 4 ∨
      ∃ i < 4, (r.offset pc + i) / pageSize ≠ r.offset pc / pageSize ∧
        r.backing.guarded.contains ((r.offset pc + i) / pageSize) = true)

theorem fetchable_iff (found : m.find pc = some r) (executable : r.perms.execute = true) :
    fetchable m pc = true ↔ r.offset pc + 4 ≤ r.size ∧
      ∀ i < 4, r.backing.guarded.contains ((r.offset pc + i) / pageSize) = false := by
  have mapping : m.translate pc = some r.mapping :=
    MemoryMap.translate_eq_some_iff.2 ⟨r, found, rfl⟩
  have legal : r.mapping.perms.execute = true := executable
  have legal' : r.perms.allows .execute = true := executable
  have guarded : r.backing.isGuarded (r.offset pc) 4 = true ↔
      ∃ i < 4, r.backing.guarded.contains ((r.offset pc + i) / pageSize) = true :=
    Backing.isGuarded_iff (by decide)
  rw [fetchable, mapping, Option.any_some, legal, Bool.true_and, MemoryMap.isHostAccessible, found,
    Option.any_some]
  dsimp only
  rw [legal', Bool.true_and, Bool.and_eq_true, decide_eq_true_eq, Bool.not_eq_true',
    ← Bool.not_eq_true, guarded]
  refine and_congr_right fun _ => ?_
  constructor
  · intro free i inside
    rw [← Bool.not_eq_true]
    exact fun there => free ⟨i, inside, there⟩
  · rintro free ⟨i, inside, there⟩
    rw [free i inside] at there
    cases there

theorem Cut.executable (cut : Cut m pc) (found : m.find pc = some r) :
    r.perms.execute = true := by
  have allowed := MemoryMap.allows_of_mends cut.1
  rwa [MemoryMap.allows_of_find found] at allowed

theorem Cut.not_fetchable (cut : Cut m pc) : fetchable m pc = false := by
  obtain ⟨r, found, obstacle⟩ := cut.2
  have executable := cut.executable found
  rcases obstacle with short | ⟨i, inside, -, guarded⟩
  · rw [← Bool.not_eq_true, fetchable_iff found executable]
    omega
  · rw [← Bool.not_eq_true, fetchable_iff found executable]
    rintro ⟨-, free⟩
    rw [free i inside] at guarded
    cases guarded

/-- Mending the page of `pc` does nothing for the other page. -/
theorem Cut.resolveFault (w : m.Regular) (cut : Cut m pc) :
    Cut (m.resolveFault pc .execute).2 pc := by
  obtain ⟨mends, r, found, obstacle⟩ := cut
  obtain ⟨r', found', frame, left⟩ := w.find_resolveFault found mends
  injection frame with base perms _ size
  have offset : r'.offset pc = r.offset pc := by rw [Region.offset, Region.offset, base]
  refine ⟨(w.mended_resolveFault mends).mends w mends, r', found', ?_⟩
  rw [Region.size] at obstacle ⊢
  rw [offset, size]
  refine obstacle.imp id ?_
  rintro ⟨i, inside, other, guarded⟩
  exact ⟨i, inside, other, (left _).2 ⟨guarded, other⟩⟩

/-- It makes every other instruction fetchable. -/
theorem fetchable_resolveFault (w : m.Regular) (whole : ¬Cut m pc)
    (mends : m.mends pc .execute = true) :
    fetchable (m.resolveFault pc .execute).2 pc = true := by
  obtain ⟨r, found, executable⟩ :=
    MemoryMap.exists_find_of_allows (MemoryMap.allows_of_mends mends)
  obtain ⟨r', found', frame, left⟩ := w.find_resolveFault found mends
  injection frame with base perms _ size
  have offset : r'.offset pc = r.offset pc := by rw [Region.offset, Region.offset, base]
  rw [fetchable_iff found' (perms ▸ executable), Region.size, offset, size]
  constructor
  · refine Nat.le_of_not_lt fun short => ?_
    exact whole ⟨mends, r, found, .inl short⟩
  · intro i inside
    rw [← Bool.not_eq_true, left]
    rintro ⟨guarded, other⟩
    exact whole ⟨mends, r, found, .inr ⟨i, inside, other, guarded⟩⟩

theorem cut_iff (w : m.Regular) : Cut m pc ↔
    m.mends pc .execute = true ∧ fetchable (m.resolveFault pc .execute).2 pc = false := by
  constructor
  · exact fun cut => ⟨cut.1, (cut.resolveFault w).not_fetchable⟩
  · rintro ⟨mends, failed⟩
    refine Classical.byContradiction fun whole => ?_
    rw [fetchable_resolveFault w whole mends] at failed
    cases failed

/-! ## One attempt -/

/-- An attempt whose fetch fails is retried with the page of `pc` mended if that can be done and the
region of `pc` allows fetches, and ends otherwise. -/
theorem fetch_cases (program : Program) (owner : UInt64) (t : Tracer) (s : a.cpu.mmu.Sound)
    (failed : fetchable a.cpu.mmu.memory ⟨a.cpu.regs.pc⟩ = false) :
    (a.cpu.mmu.memory.mends ⟨a.cpu.regs.pc⟩ .execute = false ∧
        (executeOne program owner t a).1 ≠ .retry) ∨
      (a.cpu.mmu.memory.mends ⟨a.cpu.regs.pc⟩ .execute = true ∧ ∃ a',
        executeOne program owner t a = (.retry, t, a') ∧ SameRun a a' ∧ a'.cpu.mmu.Sound ∧
        a'.cpu.mmu.memory = (a.cpu.mmu.memory.resolveFault ⟨a.cpu.regs.pc⟩ .execute).2) := by
  rw [executeOne_of_not_fetchable program owner t failed]
  cases mends : a.cpu.mmu.memory.mends ⟨a.cpu.regs.pc⟩ .execute with
  | false =>
    refine .inl ⟨rfl, fun retry => ?_⟩
    have outcome : (a.cpu.onAccess { address := ⟨a.cpu.regs.pc⟩, access := .execute }).1 = .retry :=
      ofFault_eq_retry.1 retry
    exact Vcpu.onAccess_ne_retry { address := ⟨a.cpu.regs.pc⟩, access := .execute } s.memory mends
      outcome
  | true =>
    obtain ⟨u', repaired, eq⟩ := Vcpu.onAccess_of_mends
      { address := ⟨a.cpu.regs.pc⟩, access := .execute } s mends
    have outcome : (a.cpu.onAccess { address := ⟨a.cpu.regs.pc⟩, access := .execute }).1 = .retry :=
      congrArg Prod.fst eq
    have cpu : (trap owner a .access
        { address := ⟨a.cpu.regs.pc⟩, access := .execute }).2.cpu = _ := congrArg Prod.snd eq
    refine .inr ⟨rfl, _, Prod.ext (ofFault_eq_retry.2 outcome) rfl, ⟨?_, rfl, rfl⟩, ?_, ?_⟩
    · rw [cpu]
    · rw [cpu]
      exact repaired.sound
    · exact Vcpu.memory_onAccess a.cpu _

/-! ## All attempts -/

/-- The first `n` attempts at the instruction at `pc` fail to fetch it and are retried, and the next
one fails to fetch it again. -/
def Refetches (program : Program) (owner : UInt64) : Nat → Tracer → Activation → Prop
  | 0, _, a => fetchable a.cpu.mmu.memory ⟨a.cpu.regs.pc⟩ = false
  | n + 1, t, a => fetchable a.cpu.mmu.memory ⟨a.cpu.regs.pc⟩ = false ∧ ∃ t' a',
      executeOne program owner t a = (.retry, t', a') ∧ a'.cpu.regs.pc = a.cpu.regs.pc ∧
        Refetches program owner n t' a'

/-- A fetch that is retried finds its instruction the next time, unless it is cut. -/
theorem fetchable_of_retry (s : a.cpu.mmu.Sound)
    (whole : ¬Cut a.cpu.mmu.memory ⟨a.cpu.regs.pc⟩)
    (failed : fetchable a.cpu.mmu.memory ⟨a.cpu.regs.pc⟩ = false)
    (retry : executeOne program owner t a = (.retry, t', a')) :
    a'.cpu.regs = a.cpu.regs ∧ fetchable a'.cpu.mmu.memory ⟨a.cpu.regs.pc⟩ = true := by
  rcases fetch_cases program owner t s failed with
    ⟨-, ended⟩ | ⟨mends, a₁, retry₁, same, -, memory⟩
  · exact absurd (congrArg Prod.fst retry) ended
  · rw [retry] at retry₁
    cases retry₁
    refine ⟨same.regs, ?_⟩
    rw [memory]
    exact fetchable_resolveFault s.memory whole mends

/-- An attempt at an instruction that is cut is retried and leaves it cut. -/
theorem retry_of_cut (program : Program) (owner : UInt64) (t : Tracer) (s : a.cpu.mmu.Sound)
    (cut : Cut a.cpu.mmu.memory ⟨a.cpu.regs.pc⟩) :
    ∃ a', executeOne program owner t a = (.retry, t, a') ∧ SameRun a a' ∧ a'.cpu.mmu.Sound ∧
      Cut a'.cpu.mmu.memory ⟨a'.cpu.regs.pc⟩ := by
  rcases fetch_cases program owner t s cut.not_fetchable with
    ⟨refused, -⟩ | ⟨-, a', retry, same, sound, memory⟩
  · rw [cut.1] at refused
    cases refused
  · refine ⟨a', retry, same, sound, ?_⟩
    rw [same.regs, memory]
    exact cut.resolveFault s.memory

theorem refetches_of_cut (s : a.cpu.mmu.Sound) (cut : Cut a.cpu.mmu.memory ⟨a.cpu.regs.pc⟩)
    (n : Nat) : Refetches program owner n t a := by
  induction n generalizing a with
  | zero => exact cut.not_fetchable
  | succ n ih =>
    obtain ⟨a', retry, same, sound, cut'⟩ := retry_of_cut program owner t s cut
    exact ⟨cut.not_fetchable, t, a', retry, congrArg Registers.pc same.regs, ih sound cut'⟩

/-- Nothing ends the run of a thread that is left alone at an instruction that is cut. -/
theorem run_eq_none_of_cut (s : a.cpu.mmu.Sound) (cut : Cut a.cpu.mmu.memory ⟨a.cpu.regs.pc⟩)
    (free : a.params.interrupt = false) (empty : a.queue.requests = []) (mode : RunMode)
    (rounds : Nat) : run program mode rounds t a = none := by
  induction rounds generalizing a with
  | zero => rfl
  | succ rounds ih =>
    obtain ⟨a', retry, same, sound, cut'⟩ := retry_of_cut program mode.owner t
      (a := (a.drain.2.takeInterrupt.2).waitUnlocked mode.owner) s cut
    rw [run, round_of_retry free empty retry]
    exact ih sound cut' (same.interrupt.trans rfl) (by rw [same.queue]; rfl)

end Trace

end GuestExec
