import GuestExec.Proofs.Fault.Sound
import GuestExec.Proofs.Memory.Calls
import GuestExec.Proofs.Mmu.Agreement

/-!
# What decides an access fault

A page may be guarded and the TLB may have anything that agrees with the map, but
what comes of an access fault is a matter of the mapping of its address
(`Decided`). Memory that allows the access is made ready for it, so that the
retry does not trap in the same place again; any other fault is the guest's, and
telling the guest leaves everything else alone.
-/

namespace GuestExec

/-- Status and cause can be told from the syndrome of an access that was refused. -/
theorem Syndrome.fields_ofClass {status : UInt64}
    (known : status = translationFault ∨ status = permissionFault) (access : Access) :
    let s := ofClass (if access = .execute then instructionAbortLower else dataAbortLower)
      (status ||| if access.isWrite then writeBit else 0)
    s.statusCode = status ∧
      s.exceptionClass =
        if access = .execute then instructionAbortLower else dataAbortLower := by
  rcases known with rfl | rfl <;> cases access <;> decide

namespace Vcpu

open MemoryMap (Lifted)
open Mmu (hitOf)

variable {c : Vcpu} {info : FaultInfo} {mapping : Mapping} {status : UInt64}

theorem agrees_onAccess (g : c.mmu.Agrees) (info : FaultInfo) :
    (c.onAccess info).2.mmu.Agrees := by
  cases allowed : c.mmu.memory.allows info.address info.access with
  | false =>
    rw [onAccess_of_not_allowed info allowed, refuse, deliver_mmu]
    exact g
  | true =>
    obtain ⟨r, found, legal⟩ := MemoryMap.exists_find_of_allows allowed
    have translated : c.mmu.memory.translate info.address = some r.mapping :=
      MemoryMap.translate_eq_some_iff.2 ⟨r, found, rfl⟩
    have perms : r.mapping.perms.allows info.access = true := legal
    have frames := (g.memory.modifiesOnly_resolveFault (fun _ => False) info.address
      info.access).toSameFrames
    have mended := g.setMemory frames
    simp only [onAccess, translated, perms, Bool.not_true, Bool.false_eq_true, if_false]
    split
    · exact mended.fill ((frames.translate g.memory info.address).trans translated)
    · exact mended

/-! ## Faults that are the guest's -/

/-- The fault was handed to the guest with `status`, or ended the run if the guest has no vector.
Nothing of the access unit changed. -/
structure Delivered (c : Vcpu) (info : FaultInfo) (status : UInt64)
    (result : FaultOutcome × Vcpu) : Prop where
  outcome : result.1 =
    if c.regs.vbar ≠ 0 then .redirected
    else .halt (if info.access = .execute then .prefetchAbort else .dataAbort)
  status : (Syndrome.mk result.2.regs.esr).statusCode = status
  cause : (Syndrome.mk result.2.regs.esr).exceptionClass =
    if info.access = .execute then Syndrome.instructionAbortLower else Syndrome.dataAbortLower
  far : result.2.regs.far = info.address.word
  mmu : result.2.mmu = c.mmu

theorem delivered_deliver (c : Vcpu) (info : FaultInfo)
    (known : status = Syndrome.translationFault ∨ status = Syndrome.permissionFault) :
    Delivered c info status (c.deliver info status) := by
  obtain ⟨address, access, syndrome⟩ := info
  have fields := Syndrome.fields_ofClass known access
  rw [deliver]
  dsimp only
  split
  · rename_i none
    cases access <;> exact ⟨(if_neg (not_not_intro none)).symm, fields.1, fields.2, rfl, rfl⟩
  · rename_i vector
    cases access <;> exact ⟨(if_pos vector).symm, fields.1, fields.2, rfl, rfl⟩

theorem delivered_of_unmapped (unmapped : c.mmu.memory.translate info.address = none) :
    Delivered c info Syndrome.translationFault (c.onAccess info) := by
  have refused : c.onAccess info = c.deliver info Syndrome.translationFault := by
    simp only [onAccess, unmapped]
  rw [refused]
  exact delivered_deliver c info (.inl rfl)

theorem delivered_of_denied (translated : c.mmu.memory.translate info.address = some mapping)
    (denied : mapping.perms.allows info.access = false) :
    Delivered c info Syndrome.permissionFault (c.onAccess info) := by
  have refused : c.onAccess info = c.deliver info Syndrome.permissionFault := by
    simp only [onAccess, translated, denied, Bool.not_false, if_true]
  rw [refused]
  exact delivered_deliver c info (.inr rfl)

theorem Delivered.ne_retry {result : FaultOutcome × Vcpu} (h : Delivered c info status result) :
    result.1 ≠ .retry := by
  rw [h.outcome]
  split <;> exact FaultOutcome.noConfusion

theorem Delivered.ne_fatal {result : FaultOutcome × Vcpu} (h : Delivered c info status result) :
    result.1 ≠ .halt .fatalError := by
  rw [h.outcome]
  split
  · exact FaultOutcome.noConfusion
  · split <;> decide

/-! ## Faults that are mended -/

/-- The page is ready for the access: the host lets it through, and the TLB translates it. -/
structure Readied (c : Vcpu) (info : FaultInfo) (mapping : Mapping)
    (result : FaultOutcome × Vcpu) : Prop where
  outcome : result.1 = .retry
  lifted : Lifted c.mmu.memory info.address result.2.mmu.memory
  accessible : result.2.mmu.memory.isHostAccessible info.address 1 info.access = true
  cached : (result.2.mmu.translateCached info.address info.access).1 =
    some ⟨mapping.hostAddr info.address, mapping.writable⟩

theorem readied_onAccess (w : c.mmu.memory.WellFormed) (g : c.mmu.tlb.Agrees c.mmu.memory)
    (translated : c.mmu.memory.translate info.address = some mapping)
    (legal : mapping.perms.allows info.access = true) :
    Readied c info mapping (c.onAccess info) := by
  have allowed : c.mmu.memory.allows info.address info.access = true :=
    (MemoryMap.allows_of_translate translated).trans legal
  have mends := w.mends_eq.trans allowed
  have lifted := w.lifted_resolveFault mends
  have same := (lifted.toSameFrames.translate w.toRegular info.address).trans translated
  have agrees := agrees_onAccess ⟨w.toRegular, g⟩ info
  rw [onAccess_eq_retry w.toRegular translated mends] at agrees ⊢
  refine ⟨rfl, lifted, w.isHostAccessible_resolveFault mends, ?_⟩
  -- Whichever entry answers, the map says the same as it did before.
  obtain ⟨mapping', translated', hit⟩ := agrees.tlb.lookup_eq (Mmu.holds_fill rfl)
  obtain rfl : mapping = mapping' := Option.some.inj (same.symm.trans translated')
  have answer : (some (hitOf mapping info.address)).filter
      (fun h => !info.access.isWrite || h.writable) = some (hitOf mapping info.address) := by
    rw [Option.filter_some, if_pos]
    cases write : info.access with
    | write =>
      rw [write] at legal
      exact legal
    | _ => rfl
  exact (congrArg (Option.filter _) hit).trans answer

/-! ## The decision -/

/-- What comes of an access fault, by the mapping of its address. -/
structure Decided (c : Vcpu) (info : FaultInfo) (result : FaultOutcome × Vcpu) : Prop where
  retry_iff : result.1 = .retry ↔ ∃ mapping, c.mmu.memory.translate info.address = some mapping ∧
    mapping.perms.allows info.access = true
  readied : ∀ mapping, c.mmu.memory.translate info.address = some mapping →
    mapping.perms.allows info.access = true → Readied c info mapping result
  unmapped : c.mmu.memory.translate info.address = none →
    Delivered c info Syndrome.translationFault result
  denied : ∀ mapping, c.mmu.memory.translate info.address = some mapping →
    mapping.perms.allows info.access = false → Delivered c info Syndrome.permissionFault result
  /-- No access fault is fatal. -/
  survives : result.1 ≠ .halt .fatalError

/-- While the host has all its pages, an access fault is decided by the mapping of its address
alone, whatever is guarded and whatever the TLB has that agrees with the map. -/
theorem decided_onAccess (w : c.mmu.memory.WellFormed) (g : c.mmu.tlb.Agrees c.mmu.memory)
    (info : FaultInfo) : Decided c info (c.onAccess info) := by
  constructor
  · constructor
    · intro retry
      cases translated : c.mmu.memory.translate info.address with
      | none => exact absurd retry (delivered_of_unmapped translated).ne_retry
      | some mapping =>
        cases legal : mapping.perms.allows info.access with
        | true => exact ⟨mapping, rfl, legal⟩
        | false => exact absurd retry (delivered_of_denied translated legal).ne_retry
    · rintro ⟨mapping, translated, legal⟩
      exact (readied_onAccess w g translated legal).outcome
  · exact fun mapping translated legal => readied_onAccess w g translated legal
  · exact delivered_of_unmapped
  · exact fun mapping translated denied => delivered_of_denied translated denied
  · cases translated : c.mmu.memory.translate info.address with
    | none => exact (delivered_of_unmapped translated).ne_fatal
    | some mapping =>
      cases legal : mapping.perms.allows info.access with
      | true =>
        rw [(readied_onAccess w g translated legal).outcome]
        exact FaultOutcome.noConfusion
      | false => exact (delivered_of_denied translated legal).ne_fatal

/-- Two pages without permission to execute; the second one is guarded. -/
def besideGuard : Vcpu :=
  { regs := .zero
    mmu := ⟨.empty, MemoryMap.after [.map ⟨0x10000⟩ 0x2000 .readWrite, .guard ⟨0x11000⟩ 0x1000]⟩
    stats := {}
    record := none }

/-- A write to the guarded page, a fetch from it, and a read past the region. -/
theorem decided_onAccess_besideGuard :
    besideGuard.mmu.memory.isGuarded ⟨0x11008⟩ = true ∧
      (∃ mapping, Readied besideGuard ⟨⟨0x11008⟩, .write, none⟩ mapping
        (besideGuard.onAccess ⟨⟨0x11008⟩, .write, none⟩)) ∧
      Delivered besideGuard ⟨⟨0x11008⟩, .execute, none⟩ Syndrome.permissionFault
        (besideGuard.onAccess ⟨⟨0x11008⟩, .execute, none⟩) ∧
      Delivered besideGuard ⟨⟨0x12000⟩, .read, none⟩ Syndrome.translationFault
        (besideGuard.onAccess ⟨⟨0x12000⟩, .read, none⟩) := by
  have w : besideGuard.mmu.memory.WellFormed :=
    (MemoryMap.regular_after _).wellFormed (by decide +kernel)
  have decided := decided_onAccess w (Tlb.coherent_empty _).toAgrees
  have mapped : (besideGuard.mmu.memory.translate ⟨0x11008⟩).isSome = true := by decide +kernel
  obtain ⟨mapping, translated⟩ := Option.isSome_iff_exists.1 mapped
  have perms : (besideGuard.mmu.memory.translate ⟨0x11008⟩).map (·.perms) = some .readWrite := by
    decide +kernel
  rw [translated] at perms
  have perms : mapping.perms = .readWrite := Option.some.inj perms
  refine ⟨by decide +kernel, ⟨mapping, ?_⟩, ?_, ?_⟩
  · exact (decided ⟨⟨0x11008⟩, .write, none⟩).readied mapping translated (by rw [perms]; rfl)
  · exact (decided ⟨⟨0x11008⟩, .execute, none⟩).denied mapping translated (by rw [perms]; rfl)
  · exact (decided ⟨⟨0x12000⟩, .read, none⟩).unmapped (by decide +kernel)

end Vcpu

end GuestExec
