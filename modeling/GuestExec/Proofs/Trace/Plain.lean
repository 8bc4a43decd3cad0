import GuestExec.Proofs.Fault.Plain
import GuestExec.Proofs.Trace.Completed
import GuestExec.Proofs.Trace.Decode

/-!
# Instructions as the guest sees them

What an instruction does to what the guest sees is its `effect`: a matter of the
program, of registers and memory, and for registers past X31 of how strict the
core is about alignment. In an open map an attempt at the instruction either has
this effect or shows nothing and is made again.
-/

namespace GuestExec

open Mmu (cold sound_cold finds_cached plainRead plainWrite starts mem_starts headLength next)
open Vcpu (FirstMiss)

namespace Trace

variable {program : Program} {owner : UInt64} {t : Tracer} {a : Activation} {addr miss : GuestAddr}
  {size : UInt8} {access : Access} {op : Op} {strict : Bool} {len : Nat}

/-! ## Effects -/

/-- What an attempt comes to, as far as the guest sees it. -/
def seen (result : Attempt × Activation) : Attempt × GuestView := (result.1, result.2.cpu.view)

/-- An attempt that ends in a fault. -/
def ofFault (result : FaultOutcome × GuestView) : Attempt × GuestView :=
  (.ofFault result.1, result.2)

/-- The register that an access at `addr` transfers. A misaligned access that faults names it in
the five bits that its syndrome has for it. -/
def transferred (strict : Bool) (addr : GuestAddr) (size rt : UInt8) : Nat :=
  if strict && !addr.isAligned size.toUInt64 then rt.toNat % 32 else rt.toNat

/-- A thread on a core that has done nothing yet. -/
def activationOf (v : GuestView) : Activation :=
  { cpu := v.cpu, params := {}, state := .running, queue := {} }

/-- What `op` does to what the guest sees. -/
def Op.effect (strict : Bool) (v : GuestView) : Op → Attempt × GuestView
  | .load rt rn offset size signed =>
    let addr : GuestAddr := ⟨v.regs.reg rn.toNat + offset.toUInt64⟩
    ofFault (v.load addr size.toNat (transferred strict addr size rt) signed)
  | .store rt rn offset size =>
    let addr : GuestAddr := ⟨v.regs.reg rn.toNat + offset.toUInt64⟩
    ofFault (v.store addr size.toNat (transferred strict addr size rt))
  | op => seen (perform (.new 0 strict) 0 (activationOf v) op)

/-- What the instruction at `pc` does to what the guest sees. -/
def Program.effect (p : Program) (strict : Bool) (v : GuestView) : Attempt × GuestView :=
  if fetchable v.memory ⟨v.regs.pc⟩ then (p.opAt ⟨v.regs.pc⟩).effect strict v
  else ofFault (Vcpu.seen (v.cpu.onAccess { address := ⟨v.regs.pc⟩, access := .execute }))

/-- Loads and stores are of 1, 2, 4 or 8 bytes. -/
def Op.sized : Op → Bool
  | .load _ _ _ size _ | .store _ _ _ size => [1, 2, 4, 8].contains size
  | _ => true

/-! ## Data accesses -/

theorem seen_trap (owner : UInt64) (a : Activation) (kind : FaultKind) (info : FaultInfo) :
    seen (trap owner a kind info) = ofFault (Vcpu.seen (a.cpu.handle kind info)) := rfl

/-- A page that is blamed and refuses the access is the first that does. -/
theorem firstMiss_of_blames {u : Mmu} (s : u.Sound) (o : u.memory.Open) (data : access ≠ .execute)
    (blames : u.Blames addr len access miss) (refused : u.memory.allows miss access = false) :
    FirstMiss (cold u.memory) addr len access miss := by
  have plain := sound_cold s.memory
  have missed : ¬(cold u.memory).Finds .walk miss access := by
    rw [plain.finds_walk_iff o data]
    exact Bool.eq_false_iff.1 refused
  rcases blames with ⟨-, rfl⟩ | ⟨straddles, serves, rfl⟩
  · exact .inl ⟨missed, rfl⟩
  · have legal : u.memory.allows addr access = true :=
      s.allows_of_finds o.readable data (finds_cached.2 serves)
    have head := (plain.finds_walk_iff o data).2 legal
    exact .inr ⟨straddles, head, missed, rfl⟩

/-- An access that the TLB could not make is made again, or it is refused at its first page that
does not allow it. -/
theorem seen_missFault {u : Mmu} (s : a.cpu.mmu.Sound) (o : a.cpu.mmu.memory.Open)
    (same : a.cpu.mmu.SameAnswers u) (kept : u.memory = a.cpu.mmu.memory)
    (data : access ≠ .execute) (owner : UInt64) (addr : GuestAddr) (len : Nat) :
    seen (missFault owner (withMmu a u) addr len access) = (.retry, a.cpu.view) ∨
      ((¬∀ b ∈ starts addr len, a.cpu.mmu.memory.allows b access = true) ∧
        seen (missFault owner (withMmu a u) addr len access) =
          ofFault (a.cpu.view.refuse (a.cpu.view.miss addr len access) access)) := by
  have blames := (same.blames s).1 (same.sound.blames_firstCachedMiss addr len access)
  have memory := (Mmu.memory_firstCachedMiss u addr len access).trans kept
  rcases searched : u.firstCachedMiss addr len access with ⟨miss, u'⟩
  rw [searched] at blames memory
  dsimp only at blames memory
  have attempt : missFault owner (withMmu a u) addr len access =
      trap owner (withMmu (withMmu a u) u') .access { address := miss, access } := by
    simp only [missFault, withMmu, searched]
  rw [attempt, seen_trap]
  have view : (withMmu (withMmu a u) u').cpu.view = a.cpu.view :=
    congrArg (GuestView.mk a.cpu.regs) memory
  have there : (withMmu (withMmu a u) u').cpu.mmu.memory = a.cpu.mmu.memory := memory
  cases allowed : a.cpu.mmu.memory.allows miss access with
  | true =>
    have retried : Vcpu.seen ((withMmu (withMmu a u) u').cpu.onAccess { address := miss, access }) =
        (.retry, (withMmu (withMmu a u) u').cpu.view) :=
      Vcpu.seen_onAccess_of_allowed (there ▸ s.memory) (there ▸ o) (there ▸ allowed)
    refine .inl ?_
    rw [Vcpu.handle, retried, view]
    rfl
  | false =>
    have first := firstMiss_of_blames s o data blames allowed
    have here : a.cpu.view.miss addr len access = miss := Vcpu.miss_eq s.memory first
    have refused := Vcpu.seen_onAccess_of_refused (c := (withMmu (withMmu a u) u').cpu)
      { address := miss, access } (there ▸ allowed)
    refine .inr ⟨fun all => ?_, ?_⟩
    · have legal := all miss first.mem
      rw [allowed] at legal
      cases legal
    · rw [Vcpu.handle, refused, view, here]

theorem seen_load (s : a.cpu.mmu.Sound) (o : a.cpu.mmu.memory.Open) (t : Tracer) (owner : UInt64)
    (addr : GuestAddr) (rt : UInt8) (sized : size ∈ [1, 2, 4, 8]) (signed : Bool) :
    seen (load t owner a addr rt size signed) = (.retry, a.cpu.view) ∨
      seen (load t owner a addr rt size signed) =
        ofFault (a.cpu.view.load addr size.toNat
          (transferred t.strictAlignment addr size rt) signed) := by
  obtain ⟨pos, small⟩ := bounds_of_sized sized
  cases faults : t.alignmentFaults size addr with
  | true =>
    obtain ⟨-, -, bytes, -⟩ := Syndrome.alignment_describes sized signed rt false
    obtain ⟨-, -, direction, extends_, wide, register, -⟩ :=
      Syndrome.alignment_fields size.toUInt64 signed rt false
    have described := Vcpu.emulable_alignment size.toUInt64 signed rt false addr .read
    have made := Vcpu.seen_handle_load s o described wide direction
    have five : transferred t.strictAlignment addr size rt = rt.toNat % 32 := if_pos faults
    refine .inr ?_
    rw [load, if_pos faults, seen_trap, made, bytes, register, extends_, five]
  | false =>
    have plain := s.read_eq_plain o .cached addr size.toNat
    have same := s.sameAnswers_read addr size.toNat
    have kept := Mmu.memory_read .cached a.cpu.mmu addr size.toNat
    have whole : transferred t.strictAlignment addr size rt = rt.toNat :=
      if_neg (Bool.eq_false_iff.1 faults)
    rw [load, faults, if_neg Bool.false_ne_true, Nat.min_eq_left small, whole]
    dsimp only
    rcases made : a.cpu.mmu.read .cached addr size.toNat with ⟨bytes, u⟩
    rw [made] at plain same kept
    dsimp only at plain same kept ⊢
    cases bytes with
    | some bytes =>
      have read := plain.resolve_right fun h => Option.some_ne_none bytes h.2
      rw [GuestView.load_of_some (v := a.cpu.view) read.symm]
      exact .inr (congrArg (fun memory => (Attempt.completed, GuestView.mk _ memory)) kept)
    | none =>
      rcases seen_missFault s o same kept (by decide : Access.read ≠ .execute) owner addr
        size.toNat with retried | ⟨refused, told⟩
      · exact .inl retried
      · rw [GuestView.load_of_refused (v := a.cpu.view) s.memory o pos small refused]
        exact .inr told

theorem seen_store (s : a.cpu.mmu.Sound) (o : a.cpu.mmu.memory.Open) (t : Tracer) (owner : UInt64)
    (addr : GuestAddr) (rt : UInt8) (sized : size ∈ [1, 2, 4, 8]) :
    seen (store t owner a addr rt size) = (.retry, a.cpu.view) ∨
      seen (store t owner a addr rt size) =
        ofFault (a.cpu.view.store addr size.toNat
          (transferred t.strictAlignment addr size rt)) := by
  obtain ⟨pos, small⟩ := bounds_of_sized sized
  cases faults : t.alignmentFaults size addr with
  | true =>
    obtain ⟨-, -, bytes, -⟩ := Syndrome.alignment_describes sized false rt true
    obtain ⟨-, -, direction, -, -, register, -⟩ :=
      Syndrome.alignment_fields size.toUInt64 false rt true
    have described := Vcpu.emulable_alignment size.toUInt64 false rt true addr .write
    have made := Vcpu.seen_handle_store s o described direction
    have five : transferred t.strictAlignment addr size rt = rt.toNat % 32 := if_pos faults
    refine .inr ?_
    rw [store, if_pos faults, seen_trap, made, bytes, register, five]
  | false =>
    have length := length_storeBytes size.toNat (a.cpu.regs.reg rt.toNat)
    have whole : transferred t.strictAlignment addr size rt = rt.toNat :=
      if_neg (Bool.eq_false_iff.1 faults)
    rw [store, faults, if_neg Bool.false_ne_true, Nat.min_eq_left small, whole]
    dsimp only
    generalize bytes : storeBytes size.toNat (a.cpu.regs.reg rt.toNat) = data at length
    have plain := s.write_eq_plain o .cached addr data
    have same := s.sameAnswers_write addr data
    have failing := Mmu.plainWrite_of_false s.memory o addr data
      (length.symm ▸ Nat.le_trans small (by decide)) (length.symm ▸ Nat.ne_of_gt pos)
    rcases made : a.cpu.mmu.write .cached addr data with ⟨done, u⟩
    rw [made] at plain same
    dsimp only at plain same ⊢
    cases done with
    | true =>
      have write := plain.resolve_right fun h => Bool.false_ne_true h.2.1.symm
      rw [GuestView.store_of_done (v := a.cpu.view) (bytes ▸ write.symm)]
      exact .inr rfl
    | false =>
      have kept : u.memory = a.cpu.mmu.memory := by
        rcases plain with plain | ⟨-, -, kept⟩
        · rw [← plain] at failing
          exact congrArg Prod.snd (failing rfl)
        · exact kept
      rcases seen_missFault s o same kept (by decide : Access.write ≠ .execute) owner addr
        size.toNat with retried | ⟨refused, told⟩
      · exact .inl retried
      · rw [GuestView.store_of_refused (v := a.cpu.view) s.memory o pos small refused]
        exact .inr told

/-! ## Attempts -/

/-- An instruction that accesses no data has its effect at once. -/
theorem seen_perform_of_none (t : Tracer) (owner : UInt64)
    (made : op.dataAccess a.cpu.regs = none) :
    seen (perform t owner a op) = op.effect t.strictAlignment a.cpu.view := by
  cases op with
  | load => cases made
  | store => cases made
  | _ => rfl

/-- A data access may have to be made again first. -/
theorem seen_perform (s : a.cpu.mmu.Sound) (o : a.cpu.mmu.memory.Open) (t : Tracer)
    (owner : UInt64) (sized : op.sized = true) :
    seen (perform t owner a op) = op.effect t.strictAlignment a.cpu.view ∨
      (seen (perform t owner a op) = (.retry, a.cpu.view) ∧ ∃ addr size access,
        op.dataAccess a.cpu.regs = some (addr, size, access) ∧ size ∈ [1, 2, 4, 8]) := by
  cases op with
  | load rt rn offset size signed =>
    have sized := List.contains_iff_mem.1 sized
    rcases seen_load s o t owner _ rt sized signed with retried | made
    · exact .inr ⟨retried, _, size, .read, rfl, sized⟩
    · exact .inl made
  | store rt rn offset size =>
    have sized := List.contains_iff_mem.1 sized
    rcases seen_store s o t owner _ rt sized with retried | made
    · exact .inr ⟨retried, _, size, .write, rfl, sized⟩
    · exact .inl made
  | _ => exact .inl (seen_perform_of_none t owner rfl)

/-- What cannot be fetched is refused, or tried again for ever. -/
theorem seen_prefetch (s : a.cpu.mmu.Sound) (o : a.cpu.mmu.memory.Open) (owner : UInt64)
    (info : FaultInfo) :
    seen (trap owner a .access info) = ofFault (Vcpu.seen (a.cpu.view.cpu.onAccess info)) := by
  rw [seen_trap, Vcpu.handle]
  cases allowed : a.cpu.mmu.memory.allows info.address info.access with
  | true =>
    rw [Vcpu.seen_onAccess_of_allowed s.memory o allowed,
      Vcpu.seen_onAccess_of_allowed (c := a.cpu.view.cpu) s.memory o allowed]
    rfl
  | false =>
    rw [Vcpu.seen_onAccess_of_refused info allowed,
      Vcpu.seen_onAccess_of_refused (c := a.cpu.view.cpu) info allowed]
    rfl

/-- An attempt has the effect of its instruction, or it is a data access that is made again. -/
theorem seen_executeOne (s : a.cpu.mmu.Sound) (o : a.cpu.mmu.memory.Open)
    (fresh : t.Fresh program fun _ => False) (sized : ∀ pc, (program.opAt pc).sized = true)
    (owner : UInt64) :
    let result := executeOne program owner t a
    seen (result.1, result.2.2) = program.effect t.strictAlignment a.cpu.view ∨
      (seen (result.1, result.2.2) = (.retry, a.cpu.view) ∧
        ∃ addr size access, Attempts program t a.cpu addr size access) := by
  intro result
  have held : (t.fetch program ⟨a.cpu.regs.pc⟩).1 = program.opAt ⟨a.cpu.regs.pc⟩ :=
    fresh.fetch_eq id
  cases fetch : fetchable a.cpu.mmu.memory ⟨a.cpu.regs.pc⟩ with
  | true =>
    have effect : program.effect t.strictAlignment a.cpu.view =
        (program.opAt ⟨a.cpu.regs.pc⟩).effect t.strictAlignment a.cpu.view := if_pos fetch
    have made := seen_perform s o (t.fetch program ⟨a.cpu.regs.pc⟩).2 owner (sized ⟨a.cpu.regs.pc⟩)
    rw [(SameSetup.fetch t program _).strict] at made
    simp only [result, executeOne_of_fetchable program owner t fetch, held, effect]
    refine made.imp id fun ⟨retried, addr, size, access, access_eq, small⟩ => ⟨retried, ?_⟩
    have bounds := bounds_of_sized small
    exact ⟨addr, size, access, s, fetch, held ▸ access_eq, bounds.1, bounds.2⟩
  | false =>
    have effect : program.effect t.strictAlignment a.cpu.view =
        ofFault (Vcpu.seen (a.cpu.view.cpu.onAccess
          { address := ⟨a.cpu.regs.pc⟩, access := .execute })) :=
      if_neg (Bool.eq_false_iff.1 fetch)
    simp only [result, executeOne_of_not_fetchable program owner t fetch, effect]
    exact .inl (seen_prefetch s o owner _)

/-! ## What effects keep -/

theorem memory_refuse (v : GuestView) (addr : GuestAddr) (access : Access) :
    (v.refuse addr access).2.memory = v.memory :=
  congrArg Mmu.memory (Vcpu.deliver_mmu v.cpu _ _)

/-- A fetch that fails is refused or shows nothing. -/
theorem seen_onAccess_cases {v : GuestView} (w : v.memory.Regular) (o : v.memory.Open)
    (info : FaultInfo) :
    Vcpu.seen (v.cpu.onAccess info) = (.retry, v) ∨
      Vcpu.seen (v.cpu.onAccess info) = v.refuse info.address info.access := by
  cases allowed : v.memory.allows info.address info.access with
  | true => exact .inl (Vcpu.seen_onAccess_of_allowed w o allowed)
  | false => exact .inr (Vcpu.seen_onAccess_of_refused info allowed)

/-- The guest cannot close an open map. -/
theorem open_effect (program : Program) (strict : Bool) {v : GuestView}
    (w : v.memory.Regular) (o : v.memory.Open) : (program.effect strict v).2.memory.Open := by
  unfold Program.effect
  split
  · cases program.opAt ⟨v.regs.pc⟩ with
    | load rt rn offset size signed =>
      simp only [Op.effect, ofFault, GuestView.load]
      split
      · exact o
      · rw [memory_refuse]
        exact o
    | store rt rn offset size =>
      simp only [Op.effect, ofFault, GuestView.store]
      split
      · rename_i memory write
        have kept := (Mmu.open_plainWrite w o ⟨v.regs.reg rn.toNat + offset.toUInt64⟩
          (storeBytes size.toNat (v.regs.reg (transferred strict
            ⟨v.regs.reg rn.toNat + offset.toUInt64⟩ size rt)))).2
        rw [write] at kept
        exact kept
      · rw [memory_refuse]
        exact o
    | _ => exact o
  · rcases seen_onAccess_cases w o { address := ⟨v.regs.pc⟩, access := .execute } with same | same
    · rw [same]
      exact o
    · rw [same]
      exact (memory_refuse v ⟨v.regs.pc⟩ .execute).symm ▸ o

theorem refuse_ne_retry (v : GuestView) (addr : GuestAddr) (access : Access) :
    (v.refuse addr access).1 ≠ .retry :=
  Vcpu.deliver_ne_retry v.cpu _ _

/-- What is made again for ever shows nothing. -/
theorem effect_of_retry {v : GuestView} (w : v.memory.Regular) (o : v.memory.Open)
    (retry : (program.effect strict v).1 = .retry) : (program.effect strict v).2 = v := by
  unfold Program.effect at retry ⊢
  split at retry
  · cases op : program.opAt ⟨v.regs.pc⟩ with
    | load rt rn offset size signed =>
      rw [op] at retry
      simp only [Op.effect, ofFault, GuestView.load, ofFault_eq_retry] at retry
      split at retry
      · cases retry
      · exact absurd retry (refuse_ne_retry v _ _)
    | store rt rn offset size =>
      rw [op] at retry
      simp only [Op.effect, ofFault, GuestView.store, ofFault_eq_retry] at retry
      split at retry
      · cases retry
      · exact absurd retry (refuse_ne_retry v _ _)
    | _ =>
      rw [op] at retry
      cases retry
  · rename_i fetch
    rw [if_neg fetch]
    rcases seen_onAccess_cases w o { address := ⟨v.regs.pc⟩, access := .execute } with same | same
    · rw [same]
      rfl
    · rw [same] at retry
      exact absurd (ofFault_eq_retry.1 retry) (refuse_ne_retry v _ _)

/-! ## How strict a core is -/

/-- Loads and stores are of 1, 2, 4 or 8 bytes, and of a register that there is. -/
def Op.encodable : Op → Bool
  | .load rt _ _ size _ | .store rt _ _ size => rt ≤ 31 && [1, 2, 4, 8].contains size
  | _ => true

theorem Op.sized_of_encodable (h : op.encodable = true) : op.sized = true := by
  cases op with
  | load => exact (Bool.and_eq_true_iff.1 h).2
  | store => exact (Bool.and_eq_true_iff.1 h).2
  | _ => rfl

theorem transferred_of_le {rt : UInt8} (small : rt ≤ 31) (strict : Bool) (addr : GuestAddr)
    (size : UInt8) : transferred strict addr size rt = rt.toNat := by
  unfold transferred
  split
  · exact Nat.mod_eq_of_lt (Nat.lt_succ_of_le (UInt8.le_iff_toNat_le.1 small))
  · rfl

theorem Op.effect_eq (h : op.encodable = true) (strict strict' : Bool) (v : GuestView) :
    op.effect strict v = op.effect strict' v := by
  cases op with
  | load rt rn offset size signed =>
    have small := of_decide_eq_true (Bool.and_eq_true_iff.1 h).1
    simp only [Op.effect, transferred_of_le small]
  | store rt rn offset size =>
    have small := of_decide_eq_true (Bool.and_eq_true_iff.1 h).1
    simp only [Op.effect, transferred_of_le small]
  | _ => rfl

/-- What instructions do is no matter of how strict the core is about alignment. -/
theorem Program.effect_eq (encodable : ∀ pc, (program.opAt pc).encodable = true)
    (strict strict' : Bool) : program.effect strict = program.effect strict' := by
  funext v
  unfold Program.effect
  rw [Op.effect_eq (encodable _) strict strict']

/-- What holds of all operations of a program holds of what runs at any address. -/
theorem Program.opAt_of_values {p : Op → Bool} (all : program.ops.values.all p = true)
    (undefined : p (.undefined 0) = true) (pc : GuestAddr) : p (program.opAt pc) = true := by
  rw [Program.opAt, Program.get?]
  cases found : program.ops.get? pc.toNat with
  | none => exact undefined
  | some op => exact List.all_eq_true.1 all op (AddressTable.mem_values.2 ⟨_, found⟩)

end Trace

end GuestExec
