import GuestExec.Proofs.Fault.Emulated
import GuestExec.Proofs.Mmu.Contents

/-!
# Which bytes a fault changes

Of all faults only a misaligned store changes bytes: those that its syndrome
describes, however often pages are mended on the way.
-/

namespace GuestExec

open MemoryMap (ModifiesOnly)

/-! ## Sizes in syndromes -/

namespace Syndrome

/-- A syndrome never describes more bytes than the access has, unless it has none. -/
theorem accessSize_alignment_le (size : UInt8) (signed : Bool) (rt : UInt8) (isWrite : Bool) :
    (alignment size.toUInt64 signed rt isWrite).accessSize ≤ max size.toNat 1 := by
  have below : size.toNat < 256 := size.toNat_lt
  obtain ⟨-, -, -, -, -, -, bytes⟩ := alignment_fields size.toUInt64 signed rt isWrite
  rw [bytes, UInt8.toNat_toUInt64]
  clear bytes
  generalize size.toNat = n at below
  revert n
  decide +kernel

end Syndrome

namespace Vcpu

variable {c : Vcpu} {info : FaultInfo} {s : Syndrome}

/-- `n` is an address that the fault's syndrome describes as written. -/
def WritesAt (info : FaultInfo) (n : Nat) : Prop :=
  ∃ s, emulable info = some s ∧ s.isWrite = true ∧ info.address.Spans s.accessSize n

/-! ## Faults -/

theorem modifiesOnly_onAccess (w : c.mmu.memory.Regular) (P : Nat → Prop) (info : FaultInfo) :
    ModifiesOnly P c.mmu.memory (c.onAccess info).2.mmu.memory := by
  rw [memory_onAccess]
  exact w.modifiesOnly_resolveFault P info.address info.access

theorem modifiesOnly_onAlignment (sound : c.mmu.Sound) (info : FaultInfo) :
    ModifiesOnly (WritesAt info) c.mmu.memory (c.onAlignment info).2.mmu.memory := by
  unfold onAlignment
  split
  · exact .refl _ _
  · rename_i s described
    dsimp only
    split
    · rename_i write
      have short : (storeBytes s.accessSize (c.regs.reg s.register)).length ≤ pageSize := by
        rw [length_storeBytes]
        exact Nat.le_trans (accessSize_bounds s).2 (by decide)
      have wrote := sound.modifiesOnly_write .walk info.address short
      rw [length_storeBytes] at wrote
      have wrote := wrote.mono (Q := WritesAt info) fun n span => ⟨s, described, write, span⟩
      split <;> exact wrote
    · have same := Mmu.memory_read .walk c.mmu info.address s.accessSize
      split <;>
      · dsimp only [advance]
        rw [same]
        exact .refl _ _

theorem modifiesOnly_onStraddling (sound : c.mmu.Sound) (info : FaultInfo) (s : Syndrome) :
    ModifiesOnly (WritesAt info) c.mmu.memory (c.onStraddling info s).2.mmu.memory := by
  have searched := sound.firstWalkMiss info.address s.accessSize
    (if s.isWrite then .write else .read)
  have kept := Mmu.memory_firstWalkMiss c.mmu info.address s.accessSize
    (if s.isWrite then .write else .read)
  unfold onStraddling
  dsimp only
  split
  · exact kept ▸ .refl _ _
  · rename_i miss _
    have mended := modifiesOnly_onAccess (c := { c with mmu := (c.mmu.firstWalkMiss info.address
      s.accessSize (if s.isWrite then .write else .read)).2 }) searched.sound.memory
      (WritesAt info) { info with address := miss, access := if s.isWrite then .write else .read }
    have follows := follows_onAccess (c := { c with mmu := (c.mmu.firstWalkMiss info.address
      s.accessSize (if s.isWrite then .write else .read)).2 }) searched.sound
      { info with address := miss, access := if s.isWrite then .write else .read }
    have mended : ModifiesOnly (WritesAt info) c.mmu.memory _ := kept ▸ mended
    split
    · rename_i c' eq
      rw [eq] at mended follows
      have again := mended.trans (modifiesOnly_onAlignment follows.sound info)
      split
      · rename_i eq'
        rw [eq'] at again
        exact again
      · rename_i eq'
        rw [eq'] at again
        exact again
    · rename_i eq
      rw [eq] at mended
      exact mended

/-- Handling a fault that is not about alignment changes no byte. -/
theorem modifiesOnly_handle_of_ne (w : c.mmu.memory.Regular) {kind : FaultKind}
    (other : kind ≠ .alignment) (P : Nat → Prop) (info : FaultInfo) :
    ModifiesOnly P c.mmu.memory (c.handle kind info).2.mmu.memory := by
  cases kind with
  | alignment => exact absurd rfl other
  | access => exact modifiesOnly_onAccess w P info
  | breakpoint => exact .refl P _
  | undefinedInstruction => exact .refl P _
  | unknown => exact .refl P _

/-- Handling a fault changes bytes that its syndrome describes as written, and no others. -/
theorem modifiesOnly_handle (sound : c.mmu.Sound) (kind : FaultKind) (info : FaultInfo) :
    ModifiesOnly (WritesAt info) c.mmu.memory (c.handle kind info).2.mmu.memory := by
  cases kind with
  | alignment =>
    have tried := modifiesOnly_onAlignment sound info
    have follows := follows_onAlignment sound info
    rw [handle]
    split
    · rename_i eq
      rw [eq] at tried
      exact tried
    · rename_i c' eq
      rw [eq] at tried follows
      split
      · exact tried.trans (modifiesOnly_onStraddling follows.sound info _)
      · have mended := tried.trans
          (modifiesOnly_onAccess follows.sound.memory (WritesAt info) info)
        split
        · rename_i eq'
          rw [eq'] at mended
          exact mended
        · rename_i eq'
          rw [eq'] at mended
          exact mended
  | _ => exact modifiesOnly_handle_of_ne sound.memory (by decide) _ info

end Vcpu

end GuestExec
