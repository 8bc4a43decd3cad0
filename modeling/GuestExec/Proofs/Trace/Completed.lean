import GuestExec.Proofs.Fault.Emulated
import GuestExec.Proofs.Trace.Retry

/-!
# Completed data accesses

A load or store completes through the TLB alone, or by emulation where its
alignment faults. Either way memory has granted each of its bytes. An attempt
also ends when the guest takes an exception; `Done` leaves that out.
-/

namespace GuestExec.Trace

open Vcpu (emulable accessOf)

variable {program : Program} {owner : UInt64} {t : Tracer} {a : Activation} {addr : GuestAddr}
  {size : UInt8} {access : Access} {op : Op} {kind : FaultKind} {info : FaultInfo}

theorem bounds_of_sized {size : UInt8} (sized : size ∈ [1, 2, 4, 8]) :
    0 < size.toNat ∧ size.toNat ≤ 8 := by
  simp only [List.mem_cons, List.not_mem_nil, or_false] at sized
  rcases sized with rfl | rfl | rfl | rfl <;> decide

/-- The attempt completed its instruction, and the guest took no exception in it. -/
def Done (a : Activation) (result : Attempt × Activation) : Prop :=
  result.1 = .completed ∧
    result.2.cpu.stats.exceptionsDelivered = a.cpu.stats.exceptionsDelivered

instance (a : Activation) (result : Attempt × Activation) : Decidable (Done a result) :=
  inferInstanceAs (Decidable (_ ∧ _))

/-- This attempt completes the instruction at `pc`. -/
def Completes (program : Program) (owner : UInt64) (t : Tracer) (a : Activation) : Prop :=
  Done a ((executeOne program owner t a).1, (executeOne program owner t a).2.2)

instance (program : Program) (owner : UInt64) (t : Tracer) (a : Activation) :
    Decidable (Completes program owner t a) :=
  inferInstanceAs (Decidable (Done _ _))

theorem done_trap_iff :
    Done a (trap owner a kind info) ↔ (a.cpu.handle kind info).1 = .emulated := by
  have counted := Vcpu.counted_handle a.cpu kind info
  show Attempt.ofFault (a.cpu.handle kind info).1 = .completed ∧
    (a.cpu.handle kind info).2.stats.exceptionsDelivered = a.cpu.stats.exceptionsDelivered ↔ _
  rw [counted]
  cases (a.cpu.handle kind info).1 <;> simp [Attempt.ofFault]

/-- An access that the TLB could not make is not made at this attempt. -/
theorem Missed.not_done {len : Nat} {result : Attempt × Activation}
    (h : Missed owner a addr len access result) : ¬Done a result := by
  obtain ⟨-, u, miss, -, -, rfl⟩ := h
  intro done
  have emulated : ((withMmu a u).cpu.handle .access { address := miss, access }).1 = .emulated :=
    done_trap_iff.1 done
  exact Vcpu.onAccess_ne_emulated _ _ emulated

/-- An access that does not fault for its alignment is made if the TLB alone can make it. -/
theorem done_perform_iff (s : a.cpu.mmu.Sound) (t : Tracer) (owner : UInt64)
    (made : op.dataAccess a.cpu.regs = some (addr, size, access)) (pos : 0 < size.toNat)
    (small : size.toNat ≤ 8) (aligned : t.alignmentFaults size addr = false) :
    Done a (perform t owner a op) ↔ a.cpu.mmu.Accessible .cached addr size.toNat access := by
  rcases perform_cases s t owner made pos small aligned with ⟨accessible, completed, stats⟩ | missed
  · exact iff_of_true ⟨completed, by rw [stats]⟩ accessible
  · exact iff_of_false missed.not_done missed.not_accessible

/-- The fault of a misaligned access. -/
def misaligned (addr : GuestAddr) (size : UInt8) (access : Access) (signed : Bool) (rt : UInt8) :
    FaultInfo :=
  { address := addr, access
    syndrome := some (Syndrome.alignment size.toUInt64 signed rt access.isWrite).word }

theorem perform_of_alignmentFaults (t : Tracer) (owner : UInt64)
    (made : op.dataAccess a.cpu.regs = some (addr, size, access))
    (faults : t.alignmentFaults size addr = true) : ∃ signed rt,
    perform t owner a op = trap owner a .alignment (misaligned addr size access signed rt) := by
  cases op with
  | load rt rn offset _ signed =>
    cases made
    refine ⟨signed, rt, ?_⟩
    show load t owner a _ rt size signed = _
    rw [load, if_pos faults]
    rfl
  | store rt rn offset _ =>
    cases made
    refine ⟨false, rt, ?_⟩
    show store t owner a _ rt size = _
    rw [store, if_pos faults]
    rfl
  | _ => cases made

theorem dataAccess_ne_execute {regs : Registers}
    (made : op.dataAccess regs = some (addr, size, access)) : access ≠ .execute := by
  cases op <;> cases made <;> exact Access.noConfusion

/-- What is emulated for a misaligned access is the access. -/
theorem describes_misaligned (addr : GuestAddr) (sized : size ∈ [1, 2, 4, 8])
    (data : access ≠ .execute) (signed : Bool) (rt : UInt8) :
    ∃ s, emulable (misaligned addr size access signed rt) = some s ∧
      s.accessSize = size.toNat ∧ accessOf s = access := by
  obtain ⟨-, -, bytes, direction⟩ :=
    Syndrome.alignment_describes sized signed rt access.isWrite
  refine ⟨_, Vcpu.emulable_alignment size.toUInt64 signed rt access.isWrite addr access, bytes, ?_⟩
  rw [accessOf, direction]
  cases access with
  | execute => exact absurd rfl data
  | read => rfl
  | write => rfl

theorem Attempts.completes_iff (h : Attempts program t a.cpu addr size access) (owner : UInt64) :
    Completes program owner t a ↔ Done a (perform (t.fetch program ⟨a.cpu.regs.pc⟩).2 owner a
      (t.fetch program ⟨a.cpu.regs.pc⟩).1) := by
  rw [Completes, executeOne_of_fetchable program owner t h.fetch]

/-- Memory grants each byte of an access that completes. -/
theorem Attempts.granted (h : Attempts program t a.cpu addr size access)
    (sized : size ∈ [1, 2, 4, 8]) (done : Completes program owner t a) :
    ∀ i < size.toNat, a.cpu.mmu.Granted (addr + UInt64.ofNat i) access := by
  have short : size.toNat ≤ pageSize := Nat.le_trans h.small (by decide)
  have strict := alignmentFaults_fetch t program ⟨a.cpu.regs.pc⟩ size addr
  -- Memory is asked piece by piece; the bytes of a piece share its page.
  have granted : ∀ b ∈ Mmu.starts addr size.toNat, a.cpu.mmu.Granted b access := by
    rw [h.completes_iff] at done
    cases aligned : t.alignmentFaults size addr with
    | false =>
      have accessible := (done_perform_iff h.sound _ owner h.made h.pos h.small
        (strict.trans aligned)).1 done
      exact fun b mem => (accessible b mem).granted
    | true =>
      obtain ⟨signed, rt, eq⟩ := perform_of_alignmentFaults _ owner h.made (strict.trans aligned)
      obtain ⟨s, described, bytes, same⟩ := describes_misaligned addr sized
        (dataAccess_ne_execute h.made) signed rt
      rw [eq, done_trap_iff] at done
      have granted := Vcpu.granted_of_emulated h.sound described done
      rwa [bytes, same] at granted
  exact fun i inside => h.sound.granted_byte short granted inside

/-- A store that completes is allowed at each byte by the region. -/
theorem Attempts.allows_write (h : Attempts program t a.cpu addr size .write)
    (sized : size ∈ [1, 2, 4, 8]) (done : Completes program owner t a) :
    ∀ i < size.toNat, a.cpu.mmu.memory.allows (addr + UInt64.ofNat i) .write = true :=
  fun i inside => (h.granted sized done i inside).allows_write

/-- An access that the TLB serves completes, if none of its bytes is guarded. -/
theorem Attempts.completes (h : Attempts program t a.cpu addr size access)
    (sized : size ∈ [1, 2, 4, 8]) (owner : UInt64)
    (served : ∀ i < size.toNat, a.cpu.mmu.served (addr + UInt64.ofNat i) access = true)
    (free : ∀ i < size.toNat, a.cpu.mmu.memory.isGuarded (addr + UInt64.ofNat i) = false) :
    Completes program owner t a := by
  have strict := alignmentFaults_fetch t program ⟨a.cpu.regs.pc⟩ size addr
  have accessible : ∀ lookup, a.cpu.mmu.Accessible lookup addr size.toNat access := by
    intro lookup b mem
    obtain ⟨i, inside, rfl⟩ := Mmu.exists_byte h.pos mem
    exact Mmu.ready_of_served h.sound (served i inside) (free i inside)
  rw [h.completes_iff]
  cases aligned : t.alignmentFaults size addr with
  | false =>
    exact (done_perform_iff h.sound _ owner h.made h.pos h.small (strict.trans aligned)).2
      (accessible .cached)
  | true =>
    obtain ⟨signed, rt, eq⟩ := perform_of_alignmentFaults _ owner h.made (strict.trans aligned)
    obtain ⟨s, described, bytes, same⟩ := describes_misaligned addr sized
      (dataAccess_ne_execute h.made) signed rt
    rw [eq, done_trap_iff]
    refine (Vcpu.handle_of_accessible h.sound described ?_).1
    rw [bytes, same]
    exact accessible .walk

end GuestExec.Trace
