import GuestExec.Proofs.Fault.Alignment
import GuestExec.Proofs.Trace.Sound

/-!
# Retries of a data access

A load or store that the TLB cannot make faults at one of its pages, and if the
region allows the access and the host lets a guard there be lifted, the page is
mended and the instruction runs again. The
first page is blamed as long as the TLB does not serve it, the second one from
then on. So a guard on a first page that the TLB serves already is never lifted
(`Stuck`), and the instruction is retried for ever; in all other cases two
retries are enough.
-/

namespace GuestExec

namespace Mmu

open Vcpu (Repaired)

variable {u u' : Mmu} {a b : GuestAddr} {len : Nat} {access : Access}

/-! ## What a retry leaves -/

/-- `u'` is `u` after an access was tried in vain, and its page `miss` mended. -/
def Retried (u : Mmu) (miss : GuestAddr) (u' : Mmu) : Prop :=
  ∃ u₁, u.SameAnswers u₁ ∧ Repaired u₁ miss u'

variable {miss : GuestAddr}

theorem Retried.loosens (h : u.Retried miss u') : u.memory.Loosens u'.memory := by
  obtain ⟨u₁, same, repaired⟩ := h
  exact same.memory.toLoosens.trans repaired.memory.toLoosens

/-- The page that was mended is ready. -/
theorem Retried.ready (s : u.Sound) (h : u.Retried miss u')
    (allowed : u.memory.allows miss access = true) : u'.Ready .cached miss access := by
  obtain ⟨u₁, same, repaired⟩ := h
  exact repaired.ready same.sound
    ((same.memory.toSameFrames.allows s.memory).trans allowed)

/-- The other page is as ready as before. -/
theorem Retried.ready_iff (s : u.Sound) (h : u.Retried miss u')
    (other : Tlb.setIndex a ≠ Tlb.setIndex miss) :
    u'.Ready .cached a access ↔ u.Ready .cached a access := by
  obtain ⟨u₁, same, repaired⟩ := h
  exact (repaired.ready_iff same.sound other).trans (same.ready_iff s)

/-- The first page is served but guarded, and the second, which is blamed, is good for a retry. -/
def StuckAt (u : Mmu) (a : GuestAddr) (len : Nat) (access : Access) : Prop :=
  headLength a len ≠ len ∧ u.Serves a access ∧ u.memory.isGuarded a = true ∧
    u.memory.mends (next a len) access = true

theorem StuckAt.not_accessible (h : u.StuckAt a len access) :
    ¬u.Accessible .cached a len access := by
  intro accessible
  have free := (accessible a (mem_starts.2 (.inl rfl))).2
  rw [h.2.2.1] at free
  cases free

theorem StuckAt.blames (h : u.StuckAt a len access) (blames : u.Blames a len access miss) :
    miss = next a len := by
  rcases blames with ⟨whole | free, -⟩ | ⟨-, -, eq⟩
  · exact absurd whole h.1
  · exact absurd h.2.1 free
  · exact eq

/-- Being stuck is for ever: mending the second page does nothing for the first. -/
theorem StuckAt.retried (s : u.Sound) (h : u.StuckAt a len access)
    (retried : u.Retried (next a len) u') : u'.StuckAt a len access := by
  obtain ⟨straddles, serves, guarded, mends⟩ := h
  obtain ⟨u₁, same, repaired⟩ := retried
  refine ⟨straddles, ?_, ?_, ?_⟩
  · rw [repaired.serves_iff same.sound (Ne.symm (setIndex_next_ne straddles)), same.serves s]
    exact serves
  · rw [repaired.memory.guards, same.memory.guards, guarded,
      decide_eq_true (Ne.symm (page_next_ne straddles))]
    rfl
  · rw [← same.memory.mends s.memory] at mends
    exact repaired.memory.mends same.sound.memory mends

/-- After the first page was ready, a retry makes the whole access possible. -/
theorem Retried.accessible (s : u.Sound) (first : u.Ready .cached a access)
    (blames : u.Blames a len access miss) (mends : u.memory.mends miss access = true)
    (retried : u.Retried miss u') : u'.Accessible .cached a len access := by
  have served := finds_cached.1 first.1
  have allowed := MemoryMap.allows_of_mends mends
  intro b mem
  rcases mem_starts.1 mem with rfl | ⟨straddles, rfl⟩
  · rcases blames with ⟨-, rfl⟩ | ⟨straddles, -, rfl⟩
    · exact retried.ready s allowed
    · exact (retried.ready_iff s (Ne.symm (setIndex_next_ne straddles))).2 first
  · rcases blames with ⟨whole | free, rfl⟩ | ⟨-, -, rfl⟩
    · exact absurd whole straddles
    · exact absurd served free
    · exact retried.ready s allowed

/-- After a retry of an access that is not stuck, the first page is ready. -/
theorem Retried.ready_head (s : u.Sound) (free : ¬u.StuckAt a len access)
    (blames : u.Blames a len access miss) (mends : u.memory.mends miss access = true)
    (retried : u.Retried miss u') : u'.Ready .cached a access := by
  rcases blames with ⟨-, rfl⟩ | ⟨straddles, serves, rfl⟩
  · exact retried.ready s (MemoryMap.allows_of_mends mends)
  · rw [retried.ready_iff s (Ne.symm (setIndex_next_ne straddles))]
    refine ⟨.inl serves, ?_⟩
    rw [← Bool.not_eq_true]
    exact fun guarded => free ⟨straddles, serves, guarded, mends⟩

end Mmu

namespace Trace

open Mmu (Retried StuckAt next)
open Vcpu (Repaired)

variable {program : Program} {owner : UInt64} {t t' : Tracer} {a a' : Activation}
  {addr miss : GuestAddr} {size : UInt8} {access : Access} {op : Op}

/-! ## One attempt -/

/-- The access that a load or a store makes: where, of how many bytes, and of which kind. -/
def Op.dataAccess (regs : Registers) : Op → Option (GuestAddr × UInt8 × Access)
  | .load _ rn offset size _ => some (⟨regs.reg rn.toNat + offset.toUInt64⟩, size, .read)
  | .store _ rn offset size => some (⟨regs.reg rn.toNat + offset.toUInt64⟩, size, .write)
  | _ => none

theorem ofFault_eq_retry {outcome : FaultOutcome} :
    Attempt.ofFault outcome = .retry ↔ outcome = .retry := by
  cases outcome <;> simp [Attempt.ofFault]

/-- What an access that the TLB could not make comes to. -/
structure Missed (owner : UInt64) (a : Activation) (addr : GuestAddr) (len : Nat)
    (access : Access) (result : Attempt × Activation) : Prop where
  not_accessible : ¬a.cpu.mmu.Accessible .cached addr len access
  blamed : ∃ u miss, a.cpu.mmu.SameAnswers u ∧ a.cpu.mmu.Blames addr len access miss ∧
    result = trap owner (withMmu a u) .access { address := miss, access }

theorem missed_missFault {u : Mmu} {len : Nat} (s : a.cpu.mmu.Sound)
    (same : a.cpu.mmu.SameAnswers u) (failed : ¬a.cpu.mmu.Accessible .cached addr len access) :
    Missed owner a addr len access (missFault owner (withMmu a u) addr len access) := by
  have blames := same.sound.blames_firstCachedMiss addr len access
  have searched := same.sound.firstCachedMiss addr len access
  exact ⟨failed, _, _, same.trans searched, (same.blames s).1 blames, rfl⟩

theorem load_cases (s : a.cpu.mmu.Sound) (t : Tracer) (owner : UInt64) (addr : GuestAddr)
    (rt : UInt8) (signed : Bool) (pos : 0 < size.toNat) (small : size.toNat ≤ 8)
    (aligned : t.alignmentFaults size addr = false) :
    (a.cpu.mmu.Accessible .cached addr size.toNat .read ∧
        (load t owner a addr rt size signed).1 = .completed ∧
        (load t owner a addr rt size signed).2.cpu.stats = a.cpu.stats) ∨
      Missed owner a addr size.toNat .read (load t owner a addr rt size signed) := by
  have same := s.sameAnswers_read addr size.toNat
  have done := s.read_isSome .cached addr size.toNat (Nat.le_trans small (by decide))
    (Nat.ne_of_gt pos)
  rw [load, aligned, if_neg Bool.false_ne_true, Nat.min_eq_left small]
  dsimp only
  split
  · rename_i eq
    rw [eq] at same done
    have failed := fun accessible => Bool.false_ne_true (done.2 accessible)
    exact .inr (missed_missFault s same failed)
  · rename_i eq
    rw [eq] at done
    exact .inl ⟨done.1 rfl, rfl, rfl⟩

theorem store_cases (s : a.cpu.mmu.Sound) (t : Tracer) (owner : UInt64) (addr : GuestAddr)
    (rt : UInt8) (pos : 0 < size.toNat) (small : size.toNat ≤ 8)
    (aligned : t.alignmentFaults size addr = false) :
    (a.cpu.mmu.Accessible .cached addr size.toNat .write ∧
        (store t owner a addr rt size).1 = .completed ∧
        (store t owner a addr rt size).2.cpu.stats = a.cpu.stats) ∨
      Missed owner a addr size.toNat .write (store t owner a addr rt size) := by
  have data := length_storeBytes size.toNat (a.cpu.regs.reg rt.toNat)
  have same := s.sameAnswers_write addr (storeBytes size.toNat (a.cpu.regs.reg rt.toNat))
  have done := s.write_eq_true .cached addr (storeBytes size.toNat (a.cpu.regs.reg rt.toNat))
    (by rw [data]; exact Nat.le_trans small (by decide)) (by rw [data]; exact Nat.ne_of_gt pos)
  rw [data] at done
  rw [store, aligned, if_neg Bool.false_ne_true, Nat.min_eq_left small]
  dsimp only
  split
  · rename_i eq
    rw [eq] at same done
    have failed := fun accessible => Bool.false_ne_true (done.2 accessible)
    exact .inr (missed_missFault s same failed)
  · rename_i eq
    rw [eq] at done
    exact .inl ⟨done.1 rfl, rfl, rfl⟩

theorem perform_cases (s : a.cpu.mmu.Sound) (t : Tracer) (owner : UInt64)
    (made : op.dataAccess a.cpu.regs = some (addr, size, access)) (pos : 0 < size.toNat)
    (small : size.toNat ≤ 8) (aligned : t.alignmentFaults size addr = false) :
    (a.cpu.mmu.Accessible .cached addr size.toNat access ∧
        (perform t owner a op).1 = .completed ∧
        (perform t owner a op).2.cpu.stats = a.cpu.stats) ∨
      Missed owner a addr size.toNat access (perform t owner a op) := by
  cases op with
  | load rt rn offset _ signed =>
    cases made
    exact load_cases s t owner _ rt signed pos small aligned
  | store rt rn offset _ =>
    cases made
    exact store_cases s t owner _ rt pos small aligned
  | _ => cases made

/-- An access that faults for its alignment is not retried. -/
theorem perform_misaligned (t : Tracer) (owner : UInt64)
    (made : op.dataAccess a.cpu.regs = some (addr, size, access))
    (misaligned : t.alignmentFaults size addr = true) : (perform t owner a op).1 ≠ .retry := by
  cases op with
  | load rt rn offset _ signed =>
    cases made
    show (load t owner a _ rt size signed).1 ≠ .retry
    rw [load, if_pos misaligned]
    exact fun retry => Vcpu.handle_alignment_ne_retry a.cpu _ (ofFault_eq_retry.1 retry)
  | store rt rn offset _ =>
    cases made
    show (store t owner a _ rt size).1 ≠ .retry
    rw [store, if_pos misaligned]
    exact fun retry => Vcpu.handle_alignment_ne_retry a.cpu _ (ofFault_eq_retry.1 retry)
  | _ => cases made

/-- What a retry keeps of an activation, apart from the access unit. -/
structure SameRun (a a' : Activation) : Prop where
  regs : a'.cpu.regs = a.cpu.regs
  interrupt : a'.params.interrupt = a.params.interrupt
  queue : a'.queue = a.queue

/-- A page that is good for a retry is mended and the access retried, another is not. -/
theorem Missed.cases {len : Nat} {result : Attempt × Activation} (s : a.cpu.mmu.Sound)
    (h : Missed owner a addr len access result) :
    ∃ miss, a.cpu.mmu.Blames addr len access miss ∧
      ((a.cpu.mmu.memory.mends miss access = false ∧ result.1 ≠ .retry) ∨
        (a.cpu.mmu.memory.mends miss access = true ∧ result.1 = .retry ∧
          a.cpu.mmu.Retried miss result.2.cpu.mmu ∧ SameRun a result.2)) := by
  obtain ⟨-, u, miss, same, blames, rfl⟩ := h
  have mends : u.memory.mends miss access = a.cpu.mmu.memory.mends miss access :=
    same.memory.mends s.memory
  refine ⟨miss, blames, ?_⟩
  cases good : a.cpu.mmu.memory.mends miss access with
  | false =>
    refine .inl ⟨rfl, fun retry => ?_⟩
    have outcome : ((withMmu a u).cpu.onAccess { address := miss, access }).1 = .retry :=
      ofFault_eq_retry.1 retry
    exact Vcpu.onAccess_ne_retry (c := (withMmu a u).cpu) { address := miss, access }
      same.sound.memory (mends.trans good) outcome
  | true =>
    obtain ⟨u', repaired, eq⟩ := Vcpu.onAccess_of_mends (c := (withMmu a u).cpu)
      { address := miss, access } same.sound (mends.trans good)
    have outcome : ((withMmu a u).cpu.onAccess { address := miss, access }).1 = .retry :=
      congrArg Prod.fst eq
    have cpu : (trap owner (withMmu a u) .access { address := miss, access }).2.cpu = _ :=
      congrArg Prod.snd eq
    refine .inr ⟨rfl, ofFault_eq_retry.2 outcome, ⟨u, same, ?_⟩, ?_, rfl, rfl⟩
    · rw [cpu]
      exact repaired
    · rw [cpu]
      rfl

/-- The instruction at the processor's `pc` can be fetched and makes this access. -/
structure Attempts (program : Program) (t : Tracer) (c : Vcpu) (addr : GuestAddr) (size : UInt8)
    (access : Access) : Prop where
  sound : c.mmu.Sound
  fetch : fetchable c.mmu.memory ⟨c.regs.pc⟩ = true
  made : (t.fetch program ⟨c.regs.pc⟩).1.dataAccess c.regs = some (addr, size, access)
  pos : 0 < size.toNat
  small : size.toNat ≤ 8

/-- An operation that was fetched is remembered. -/
theorem fetch_fetch (t : Tracer) (program : Program) (pc : GuestAddr) :
    ((t.fetch program pc).2.fetch program pc).1 = (t.fetch program pc).1 := by
  cases found : t.decoded.get? pc.toNat with
  | some op => simp only [Tracer.fetch, found]
  | none => simp only [Tracer.fetch, found, AddressTable.get?_insert, if_true]

theorem alignmentFaults_fetch (t : Tracer) (program : Program) (pc : GuestAddr) (size : UInt8)
    (addr : GuestAddr) :
    (t.fetch program pc).2.alignmentFaults size addr = t.alignmentFaults size addr := by
  unfold Tracer.fetch
  split <;> rfl

theorem fetchable_of_loosens {m m' : MemoryMap} (w : m.Regular) (h : m.Loosens m')
    {pc : GuestAddr} (fetch : fetchable m pc = true) : fetchable m' pc = true := by
  rw [fetchable, Bool.and_eq_true] at fetch ⊢
  exact ⟨h.toSameFrames.translate w pc ▸ fetch.1, h.isHostAccessible w fetch.2⟩

theorem executeOne_of_fetchable (program : Program) (owner : UInt64) (t : Tracer)
    (fetch : fetchable a.cpu.mmu.memory ⟨a.cpu.regs.pc⟩ = true) :
    executeOne program owner t a =
      ((perform (t.fetch program ⟨a.cpu.regs.pc⟩).2 owner a
          (t.fetch program ⟨a.cpu.regs.pc⟩).1).1, (t.fetch program ⟨a.cpu.regs.pc⟩).2,
        (perform (t.fetch program ⟨a.cpu.regs.pc⟩).2 owner a
          (t.fetch program ⟨a.cpu.regs.pc⟩).1).2) := by
  unfold executeOne
  dsimp only
  rw [if_pos fetch]

theorem executeOne_of_not_fetchable (program : Program) (owner : UInt64) (t : Tracer)
    (fetch : fetchable a.cpu.mmu.memory ⟨a.cpu.regs.pc⟩ = false) :
    executeOne program owner t a =
      ((trap owner a .access { address := ⟨a.cpu.regs.pc⟩, access := .execute }).1, t,
        (trap owner a .access { address := ⟨a.cpu.regs.pc⟩, access := .execute }).2) := by
  unfold executeOne
  dsimp only
  rw [if_neg (Bool.eq_false_iff.1 fetch)]

/-- An attempt that is retried changes only what mending its page changes. -/
theorem Attempts.next_attempt {u' : Mmu} (h : Attempts program t a.cpu addr size access)
    (retried : a.cpu.mmu.Retried miss u') (mmu : a'.cpu.mmu = u')
    (regs : a'.cpu.regs = a.cpu.regs) :
    Attempts program (t.fetch program ⟨a.cpu.regs.pc⟩).2 a'.cpu addr size access := by
  refine ⟨?_, ?_, ?_, h.pos, h.small⟩
  · rw [mmu]
    exact retried.choose_spec.2.sound
  · rw [mmu, regs]
    exact fetchable_of_loosens h.sound.memory retried.loosens h.fetch
  · rw [regs, fetch_fetch]
    exact h.made

/-- What an attempt at a data access comes to. -/
theorem Attempts.cases (h : Attempts program t a.cpu addr size access) (owner : UInt64) :
    ((t.alignmentFaults size addr = true ∨
        a.cpu.mmu.Accessible .cached addr size.toNat access) ∧
      (executeOne program owner t a).1 ≠ .retry) ∨
    (t.alignmentFaults size addr = false ∧
      ¬a.cpu.mmu.Accessible .cached addr size.toNat access ∧
      ∃ miss, a.cpu.mmu.Blames addr size.toNat access miss ∧
        ((a.cpu.mmu.memory.mends miss access = false ∧
            (executeOne program owner t a).1 ≠ .retry) ∨
          (a.cpu.mmu.memory.mends miss access = true ∧ ∃ t' a',
            executeOne program owner t a = (.retry, t', a') ∧
            a.cpu.mmu.Retried miss a'.cpu.mmu ∧ SameRun a a' ∧
            Attempts program t' a'.cpu addr size access ∧
            t'.alignmentFaults size addr = false))) := by
  have execute := executeOne_of_fetchable program owner t h.fetch
  have strict := alignmentFaults_fetch t program ⟨a.cpu.regs.pc⟩ size addr
  cases aligned : t.alignmentFaults size addr with
  | true =>
    refine .inl ⟨.inl rfl, ?_⟩
    rw [execute]
    exact perform_misaligned _ owner h.made (strict.trans aligned)
  | false =>
    rcases perform_cases h.sound _ owner h.made h.pos h.small (strict.trans aligned) with
      ⟨accessible, completed, -⟩ | missed
    · refine .inl ⟨.inr accessible, ?_⟩
      rw [execute, completed]
      exact Attempt.noConfusion
    · refine .inr ⟨rfl, missed.not_accessible, ?_⟩
      obtain ⟨miss, blames, ⟨refused, ended⟩ | ⟨good, retry, retried, same⟩⟩ :=
        missed.cases h.sound
      · exact ⟨miss, blames, .inl ⟨refused, by rw [execute]; exact ended⟩⟩
      · exact ⟨miss, blames, .inr ⟨good, _, _, by rw [execute, retry], retried, same,
          h.next_attempt retried rfl same.regs, strict.trans aligned⟩⟩

/-! ## All attempts -/

/-- The first `n` attempts at the instruction at `pc` all end in a retry. -/
def Retries (program : Program) (owner : UInt64) : Nat → Tracer → Activation → Prop
  | 0, _, _ => True
  | n + 1, t, a =>
    ∃ t' a', executeOne program owner t a = (.retry, t', a') ∧ Retries program owner n t' a'

/-- The access does not fault for its alignment, and the guard of its first page is never lifted:
the TLB serves that page, so that the blame falls on the second one, which is good for a retry. -/
structure Stuck (t : Tracer) (u : Mmu) (addr : GuestAddr) (size : UInt8) (access : Access) :
    Prop where
  aligned : t.alignmentFaults size addr = false
  straddles : Mmu.headLength addr size.toNat ≠ size.toNat
  served : u.served addr access = true
  guarded : u.memory.isGuarded addr = true
  mends : u.memory.mends (next addr size.toNat) access = true

theorem stuck_iff {u : Mmu} (s : u.Sound) : Stuck t u addr size access ↔
    t.alignmentFaults size addr = false ∧ u.StuckAt addr size.toNat access := by
  constructor
  · intro h
    exact ⟨h.aligned, h.straddles, s.serves_iff.2 h.served, h.guarded, h.mends⟩
  · rintro ⟨aligned, straddles, serves, guarded, mends⟩
    exact ⟨aligned, straddles, s.serves_iff.1 serves, guarded, mends⟩

theorem Attempts.of_retry (h : Attempts program t a.cpu addr size access)
    (retry : executeOne program owner t a = (.retry, t', a')) :
    t.alignmentFaults size addr = false ∧
      ¬a.cpu.mmu.Accessible .cached addr size.toNat access ∧
      ∃ miss, a.cpu.mmu.Blames addr size.toNat access miss ∧
        a.cpu.mmu.memory.mends miss access = true ∧ a.cpu.mmu.Retried miss a'.cpu.mmu ∧
        Attempts program t' a'.cpu addr size access := by
  rcases h.cases owner with
    ⟨-, ended⟩ | ⟨aligned, failed, miss, blames, ⟨-, ended⟩ | ⟨allowed, rest⟩⟩
  · exact absurd (congrArg Prod.fst retry) ended
  · exact absurd (congrArg Prod.fst retry) ended
  · obtain ⟨t₁, a₁, retry', retried, -, again, -⟩ := rest
    rw [retry] at retry'
    cases retry'
    exact ⟨aligned, failed, miss, blames, allowed, retried, again⟩

/-- After two retries an access that is not stuck is not retried again, whatever else happened
between the attempts. -/
theorem Attempts.third_ne_retry (h : Attempts program t a.cpu addr size access)
    (free : ¬Stuck t a.cpu.mmu addr size access) {t₁ t₂ : Tracer} {a₁ b₁ a₂ b₂ : Activation}
    (retry₁ : executeOne program owner t a = (.retry, t₁, a₁)) (same₁ : b₁.cpu = a₁.cpu)
    (retry₂ : executeOne program owner t₁ b₁ = (.retry, t₂, a₂)) (same₂ : b₂.cpu = a₂.cpu) :
    (executeOne program owner t₂ b₂).1 ≠ .retry := by
  obtain ⟨aligned, -, miss₁, blames₁, allowed₁, retried₁, again₁⟩ := h.of_retry retry₁
  have ready := retried₁.ready_head h.sound
    (fun stuck => free ((stuck_iff h.sound).2 ⟨aligned, stuck⟩)) blames₁ allowed₁
  rw [← same₁] at ready again₁
  obtain ⟨-, -, miss₂, blames₂, allowed₂, retried₂, again₂⟩ := again₁.of_retry retry₂
  have accessible := retried₂.accessible again₁.sound ready blames₂ allowed₂
  rw [← same₂] at accessible again₂
  exact fun retry₃ => (again₂.of_retry (Prod.ext retry₃ rfl)).2.1 accessible

/-- An access that is not stuck is retried at most twice. -/
theorem Attempts.not_retries (h : Attempts program t a.cpu addr size access)
    (free : ¬Stuck t a.cpu.mmu addr size access) : ¬Retries program owner 3 t a := by
  rintro ⟨t₁, a₁, retry₁, t₂, a₂, retry₂, t₃, a₃, retry₃, -⟩
  exact h.third_ne_retry free retry₁ rfl retry₂ rfl (congrArg Prod.fst retry₃)

/-- An attempt at an access that is stuck is retried and leaves it stuck. -/
theorem Attempts.retry_of_stuck (h : Attempts program t a.cpu addr size access)
    (stuck : Stuck t a.cpu.mmu addr size access) (owner : UInt64) :
    ∃ t' a', executeOne program owner t a = (.retry, t', a') ∧ SameRun a a' ∧
      Attempts program t' a'.cpu addr size access ∧ Stuck t' a'.cpu.mmu addr size access := by
  obtain ⟨aligned, pinned⟩ := (stuck_iff h.sound).1 stuck
  rcases h.cases owner with ⟨misaligned | accessible, -⟩ | ⟨-, -, miss, blames, refused | rest⟩
  · rw [aligned] at misaligned
    cases misaligned
  · exact absurd accessible pinned.not_accessible
  · have next := pinned.blames blames
    rw [next, stuck.mends] at refused
    exact nomatch refused.1
  · obtain ⟨-, t', a', retry, retried, same, again, aligned'⟩ := rest
    have next := pinned.blames blames
    rw [next] at retried
    exact ⟨t', a', retry, same, again,
      (stuck_iff again.sound).2 ⟨aligned', pinned.retried h.sound retried⟩⟩

theorem Attempts.retries (h : Attempts program t a.cpu addr size access)
    (stuck : Stuck t a.cpu.mmu addr size access) (n : Nat) : Retries program owner n t a := by
  induction n generalizing t a with
  | zero => trivial
  | succ n ih =>
    obtain ⟨t', a', retry, -, again, stuck'⟩ := h.retry_of_stuck stuck owner
    exact ⟨t', a', retry, ih again stuck'⟩

/-- Where nobody asks the thread to stop or the core for anything, a retry makes a round. -/
theorem round_of_retry {mode : RunMode} (free : a.params.interrupt = false)
    (empty : a.queue.requests = [])
    (retry : executeOne program mode.owner t
      ((a.drain.2.takeInterrupt.2).waitUnlocked mode.owner) = (.retry, t', a')) :
    round program mode t a = (.continues, t', a') := by
  have drained : t.forgetAll a.drain.1 = t := by
    rw [Activation.drain, InvalidationQueue.drain, empty]
    rfl
  have interrupted : a.drain.2.takeInterrupt.1 = false := free
  unfold round
  dsimp only
  rw [drained, interrupted, if_neg Bool.false_ne_true, retry]

/-- Nothing ends the run of a thread that is stuck and left alone. -/
theorem Attempts.run_eq_none (h : Attempts program t a.cpu addr size access)
    (stuck : Stuck t a.cpu.mmu addr size access) (free : a.params.interrupt = false)
    (empty : a.queue.requests = []) (mode : RunMode) (rounds : Nat) :
    run program mode rounds t a = none := by
  induction rounds generalizing t a with
  | zero => rfl
  | succ rounds ih =>
    obtain ⟨t', a', retry, same, again, stuck'⟩ := h.retry_of_stuck
      (a := (a.drain.2.takeInterrupt.2).waitUnlocked mode.owner) stuck mode.owner
    rw [run, round_of_retry free empty retry]
    exact ih again stuck' same.interrupt (by rw [same.queue]; rfl)

end Trace

end GuestExec
