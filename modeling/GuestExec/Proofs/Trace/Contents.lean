import GuestExec.Proofs.Fault.Contents
import GuestExec.Proofs.Trace.Completed
import GuestExec.Proofs.Trace.Course

/-!
# Which bytes a run changes

An attempt at an instruction changes bytes only if the instruction is a store,
and then only bytes of the store's range, whichever way it takes: through the
TLB, again after a fault, or in software.
-/

namespace GuestExec.Trace

open MemoryMap (ModifiesOnly)

variable {program : Program} {mode : RunMode} {owner : UInt64} {t t' : Tracer}
  {a a' : Activation} {op : Op} {P : Nat → Prop}

/-- `n` is an address of the range that the store `op` is to fill. -/
def Op.Fills (op : Op) (regs : Registers) (n : Nat) : Prop :=
  ∃ addr size i, op.dataAccess regs = some (addr, size, .write) ∧ i < size.toNat ∧
    (addr + UInt64.ofNat i).toNat = n

/-- `n` is an address that the store `op` may change: one of its range, or that of a store of no
bytes, for which a strict core writes one byte in software. -/
def Op.StoresTo (op : Op) (strict : Bool) (regs : Registers) (n : Nat) : Prop :=
  op.Fills regs n ∨
    (strict = true ∧ ∃ addr, op.dataAccess regs = some (addr, 0, .write) ∧ addr.toNat = n)

/-! ## One attempt -/

theorem modifiesOnly_missFault {u : Mmu} (follows : a.cpu.mmu.Follows u)
    (wrote : ModifiesOnly P a.cpu.mmu.memory u.memory) (owner : UInt64) (addr : GuestAddr)
    (len : Nat) (access : Access) :
    ModifiesOnly P a.cpu.mmu.memory
      (missFault owner (withMmu a u) addr len access).2.cpu.mmu.memory := by
  have kept := Mmu.memory_firstCachedMiss u addr len access
  refine wrote.trans ?_
  have mended := Vcpu.modifiesOnly_onAccess
    (c := { a.cpu with mmu := (u.firstCachedMiss addr len access).2 }) (kept ▸ follows.sound.memory)
    P { address := (u.firstCachedMiss addr len access).1, access }
  exact kept ▸ mended

/-- The bytes that are written for a misaligned store are bytes of the store, or it has none. -/
theorem spans_of_writesAt {addr : GuestAddr} {size rt : UInt8} {signed : Bool} {access : Access}
    {n : Nat} (h : Vcpu.WritesAt (misaligned addr size access signed rt) n) :
    access = .write ∧ addr.Spans (max size.toNat 1) n := by
  obtain ⟨s, described, write, span⟩ := h
  have same := Vcpu.emulable_alignment size.toUInt64 signed rt access.isWrite addr access
  rw [misaligned, same] at described
  cases described
  obtain ⟨-, -, direction, -⟩ :=
    Syndrome.alignment_fields size.toUInt64 signed rt access.isWrite
  rw [direction] at write
  refine ⟨?_, span.mono (Syndrome.accessSize_alignment_le size signed rt access.isWrite)⟩
  cases access with
  | write => rfl
  | _ => cases write

theorem modifiesOnly_load (s : a.cpu.mmu.Sound) (t : Tracer) (owner : UInt64) (addr : GuestAddr)
    (rt size : UInt8) (signed : Bool) (P : Nat → Prop) :
    ModifiesOnly P a.cpu.mmu.memory
      (load t owner a addr rt size signed).2.cpu.mmu.memory := by
  unfold load
  split
  · have handled := Vcpu.modifiesOnly_handle s .alignment (misaligned addr size .read signed rt)
    exact handled.mono fun n here => nomatch (spans_of_writesAt here).1
  · dsimp only
    have kept := Mmu.memory_read .cached a.cpu.mmu addr (min size.toNat 8)
    have follows := s.read .cached addr (min size.toNat 8)
    split
    · rename_i eq
      rw [eq] at kept follows
      exact modifiesOnly_missFault follows (kept ▸ .refl _ _) owner addr _ .read
    · rename_i eq
      rw [eq] at kept
      show ModifiesOnly P a.cpu.mmu.memory _
      exact kept ▸ .refl _ _

theorem modifiesOnly_store (s : a.cpu.mmu.Sound) (t : Tracer) (owner : UInt64) (addr : GuestAddr)
    (rt size : UInt8) :
    ModifiesOnly (fun n => ∃ i, (i < size.toNat ∨ (t.strictAlignment = true ∧ size = 0 ∧ i = 0)) ∧
      (addr + UInt64.ofNat i).toNat = n) a.cpu.mmu.memory
      (store t owner a addr rt size).2.cpu.mmu.memory := by
  unfold store
  split
  · rename_i faults
    have strict := (Bool.and_eq_true _ _).mp faults |>.1
    have handled := Vcpu.modifiesOnly_handle s .alignment (misaligned addr size .write false rt)
    refine handled.mono fun n here => ?_
    obtain ⟨i, inside, eq⟩ := (spans_of_writesAt here).2
    refine ⟨i, ?_, eq⟩
    by_cases empty : size = 0
    · rw [empty] at inside
      exact .inr ⟨strict, empty, Nat.lt_one_iff.1 inside⟩
    · have pos : size.toNat ≠ 0 := fun zero => empty (UInt8.toNat_inj.1 zero)
      exact .inl (by omega)
  · dsimp only
    have length := length_storeBytes (min size.toNat 8) (a.cpu.regs.reg rt.toNat)
    have short : (storeBytes (min size.toNat 8) (a.cpu.regs.reg rt.toNat)).length ≤ pageSize :=
      length.symm ▸ Nat.le_trans (Nat.min_le_right _ _) (by decide)
    have wrote := s.modifiesOnly_write .cached addr short
    rw [length] at wrote
    have wrote := wrote.mono (Q := fun n => ∃ i, (i < size.toNat ∨
        (t.strictAlignment = true ∧ size = 0 ∧ i = 0)) ∧ (addr + UInt64.ofNat i).toNat = n)
      fun n ⟨i, inside, eq⟩ => ⟨i, .inl (Nat.lt_of_lt_of_le inside (Nat.min_le_left _ _)), eq⟩
    have follows := s.write .cached addr (storeBytes (min size.toNat 8) (a.cpu.regs.reg rt.toNat))
    split
    · rename_i eq
      rw [eq] at wrote follows
      exact modifiesOnly_missFault follows wrote owner addr _ .write
    · rename_i eq
      rw [eq] at wrote
      exact wrote

theorem modifiesOnly_perform (s : a.cpu.mmu.Sound) (t : Tracer) (owner : UInt64) (op : Op) :
    ModifiesOnly (op.StoresTo t.strictAlignment a.cpu.regs) a.cpu.mmu.memory
      (perform t owner a op).2.cpu.mmu.memory := by
  cases op with
  | load rt rn offset size signed => exact modifiesOnly_load s t owner _ rt size signed _
  | store rt rn offset size =>
    refine (modifiesOnly_store s t owner _ rt size).mono ?_
    rintro n ⟨i, inside | ⟨strict, empty, first⟩, eq⟩
    · exact .inl ⟨_, size, i, rfl, inside, eq⟩
    · subst empty first
      exact .inr ⟨strict, _, rfl, (congrArg UInt64.toNat (UInt64.add_zero _)).symm.trans eq⟩
  | undefined word => exact .refl _ _
  | _ => exact .refl _ _

theorem modifiesOnly_executeOne (s : a.cpu.mmu.Sound) (program : Program) (owner : UInt64)
    (t : Tracer) :
    ModifiesOnly (fun n => fetchable a.cpu.mmu.memory ⟨a.cpu.regs.pc⟩ = true ∧
        (t.fetch program ⟨a.cpu.regs.pc⟩).1.StoresTo t.strictAlignment a.cpu.regs n)
      a.cpu.mmu.memory (executeOne program owner t a).2.2.cpu.mmu.memory := by
  cases fetch : fetchable a.cpu.mmu.memory ⟨a.cpu.regs.pc⟩ with
  | true =>
    rw [executeOne_of_fetchable program owner t fetch]
    have made := modifiesOnly_perform s (t.fetch program ⟨a.cpu.regs.pc⟩).2 owner
      (t.fetch program ⟨a.cpu.regs.pc⟩).1
    rw [(SameSetup.fetch t program _).strict] at made
    exact made.mono fun n here => ⟨rfl, here⟩
  | false =>
    rw [executeOne_of_not_fetchable program owner t fetch]
    exact Vcpu.modifiesOnly_onAccess s.memory _ _

/-! ## Rounds and runs -/

/-- The round that starts with `t` and `a` attempts a store to `n`. -/
def StoresAt (program : Program) (t : Tracer) (a : Activation) (n : Nat) : Prop :=
  ∃ op, Issues program t a op ∧ op.StoresTo t.strictAlignment a.cpu.regs n

theorem modifiesOnly_round (s : a.cpu.mmu.Sound) (program : Program) (mode : RunMode)
    (t : Tracer) :
    ModifiesOnly (StoresAt program t a) a.cpu.mmu.memory
      (round program mode t a).2.2.cpu.mmu.memory := by
  cases free : a.params.interrupt with
  | true =>
    rw [round_of_interrupt free]
    exact .refl _ _
  | false =>
    rw [round_of_free free]
    have made := modifiesOnly_executeOne (a := ready a mode.owner) s program mode.owner
      (t.forgetAll a.queue.requests)
    rw [(SameSetup.forgetAll t a.queue.requests).strict] at made
    exact made.mono fun n ⟨fetch, here⟩ => ⟨_, ⟨free, fetch, rfl⟩, here⟩

theorem Reaches.modifiesOnly (h : Reaches program mode t a t' a') (s : a.cpu.mmu.Sound) :
    ModifiesOnly (fun n => ∃ t₁ a₁, Reaches program mode t a t₁ a₁ ∧ StoresAt program t₁ a₁ n)
      a.cpu.mmu.memory a'.cpu.mmu.memory := by
  induction h with
  | start => exact .refl _ _
  | @round t₁ t₂ a₁ a₂ reached eq ih =>
    have next := modifiesOnly_round (reached.follows s).sound program mode t₁
    rw [eq] at next
    exact ih.trans (next.mono fun n here => ⟨t₁, a₁, reached, here⟩)

/-- A run changes bytes of the stores that it attempts, and no others. -/
theorem modifiesOnly_run {rounds : Nat} {reason : HaltReason} (s : a.cpu.mmu.Sound)
    (ran : run program mode rounds t a = some (reason, t', a')) :
    ModifiesOnly (fun n => ∃ t₁ a₁, Reaches program mode t a t₁ a₁ ∧ StoresAt program t₁ a₁ n)
      a.cpu.mmu.memory a'.cpu.mmu.memory := by
  obtain ⟨t₁, a₁, reached, last⟩ := exists_run_iff.1 ⟨rounds, ran⟩
  have final := modifiesOnly_round (reached.follows s).sound program mode t₁
  rw [last] at final
  exact (reached.modifiesOnly s).trans (final.mono fun n here => ⟨t₁, a₁, reached, here⟩)

end GuestExec.Trace
