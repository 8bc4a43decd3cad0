import GuestExec.Proofs.Fault.Sound
import GuestExec.Proofs.Memory.Eased
import GuestExec.Proofs.Mmu.Contents

/-!
# Faults ease the map

Whatever the access unit and the fault policy do, a regular map is eased by it: they
write where no guard is, and mend pages.
-/

namespace GuestExec

open MemoryMap (Eases)

namespace Mmu

theorem eases_writePieces {m : MemoryMap} (w : m.Regular) (data : List UInt8)
    (list : List (HostAddr × Nat)) : Eases m (writePieces m data list).2 := by
  induction list generalizing m data with
  | nil => exact .refl m
  | cons piece rest ih =>
    obtain ⟨host, n⟩ := piece
    unfold writePieces
    split
    · exact ih w data
    · split
      · exact .refl m
      · rename_i m' written
        have first := w.eases_writeHost written
        exact first.trans (ih (first.regular w) _)

theorem eases_write {u : Mmu} (w : u.memory.Regular) (lookup : Lookup) (a : GuestAddr)
    (data : List UInt8) : Eases u.memory (u.write lookup a data).2.memory := by
  have looked := memory_pieces lookup u a data.length .write
  unfold write
  split
  · rename_i eq
    rw [eq] at looked
    exact looked ▸ .refl _
  · rename_i list u' eq
    rw [eq] at looked
    dsimp only at looked ⊢
    rw [← looked] at w ⊢
    exact eases_writePieces w data list

end Mmu

namespace Vcpu

variable {c : Vcpu}

theorem eases_onAccess (w : c.mmu.memory.Regular) (info : FaultInfo) :
    Eases c.mmu.memory (c.onAccess info).2.mmu.memory := by
  rw [memory_onAccess]
  exact w.eases_resolveFault info.address info.access

theorem eases_onAlignment (w : c.mmu.memory.Regular) (info : FaultInfo) :
    Eases c.mmu.memory (c.onAlignment info).2.mmu.memory := by
  unfold onAlignment
  split
  · exact .refl _
  · rename_i s _
    dsimp only
    split
    · have wrote := Mmu.eases_write w .walk info.address
        (storeBytes s.accessSize (c.regs.reg s.register))
      split <;> exact wrote
    · have same := Mmu.memory_read .walk c.mmu info.address s.accessSize
      split <;>
      · dsimp only [advance]
        rw [same]
        exact .refl _

theorem eases_onStraddling (w : c.mmu.memory.Regular) (info : FaultInfo) (s : Syndrome) :
    Eases c.mmu.memory (c.onStraddling info s).2.mmu.memory := by
  have same := Mmu.memory_firstWalkMiss c.mmu info.address s.accessSize
    (if s.isWrite then .write else .read)
  unfold onStraddling
  dsimp only
  split
  · exact same ▸ .refl _
  · rename_i miss _
    have mended := eases_onAccess (c := { c with mmu := (c.mmu.firstWalkMiss info.address
      s.accessSize (if s.isWrite then .write else .read)).2 }) (same ▸ w)
      { info with address := miss, access := if s.isWrite then .write else .read }
    have mended : Eases c.mmu.memory _ := same ▸ mended
    split
    · rename_i c' eq
      rw [eq] at mended
      have again := mended.trans (eases_onAlignment (mended.regular w) info)
      split
      · rename_i eq'
        rw [eq'] at again
        exact again
      · rename_i eq'
        rw [eq'] at again
        exact again
    · rename_i eq
      rw [eq] at mended
      exact mended

theorem eases_handle (w : c.mmu.memory.Regular) (kind : FaultKind) (info : FaultInfo) :
    Eases c.mmu.memory (c.handle kind info).2.mmu.memory := by
  cases kind with
  | alignment =>
    have tried := eases_onAlignment w info
    rw [handle]
    split
    · rename_i eq
      rw [eq] at tried
      exact tried
    · rename_i c' eq
      rw [eq] at tried
      split
      · exact tried.trans (eases_onStraddling (tried.regular w) info _)
      · have mended := tried.trans (eases_onAccess (tried.regular w) info)
        split
        · rename_i eq'
          rw [eq'] at mended
          exact mended
        · rename_i eq'
          rw [eq'] at mended
          exact mended
  | access => exact eases_onAccess w info
  | breakpoint => exact .refl _
  | undefinedInstruction => exact .refl _
  | unknown => exact .refl _

end Vcpu

end GuestExec
