import GuestExec.Proofs.Memory.Calls

/-!
# Identity blocks

A block at the guest's own address stays there, and as long as the host has all
its pages each of them is protected as the region says, or it is guarded and
closed to everyone. Both are invariants of single regions.
-/

namespace GuestExec

theorem Backing.isIdentity_of_allocate {inUse : Nat → Nat → Bool} {heap heap' : HostHeap}
    {size : UInt64} {b : Backing} (h : allocate inUse heap size = .ok (b, heap')) :
    b.isIdentity = false := by
  rw [eq_of_allocate h]
  rfl

/-- An identity block lies at the guest's own address. -/
def Region.InPlace (r : Region) : Prop :=
  r.backing.isIdentity = true → r.backing.base.toNat = r.base.toNat

theorem Region.New.inPlace {r : Region} (new : r.New) : r.InPlace := by
  intro identity
  cases new with
  | heap placed =>
    rw [Backing.isIdentity_of_allocate placed] at identity
    cases identity
  | identity made => rw [Backing.eq_of_identity made]; rfl

theorem Region.Change.inPlace {r r' : Region} (old : r.InPlace) (change : r.Change r') :
    r'.InPlace := by
  intro identity
  cases change with
  | write bytes => exact old identity
  | guard offset len =>
    obtain ⟨base, -, kind, -⟩ := r.backing.frame_of_guard offset len
    rw [Backing.isIdentity, kind] at identity
    rw [base]
    exact old identity
  | mend lifted =>
    rw [MemoryMap.eq_of_unguard lifted] at identity ⊢
    exact old identity
  | reprotect changed =>
    obtain ⟨base, -, kind, -⟩ := MemoryMap.frame_of_reprotect changed
    rw [Backing.isIdentity, kind] at identity
    rw [base]
    exact old identity
  | move _ placed =>
    rw [Backing.isIdentity_of_allocate placed] at identity
    cases identity
  | lose page => exact old identity

/-- While the host has all pages of an identity block, the pages without a guard are protected as
the region says. -/
def Region.Shielded (r : Region) : Prop :=
  r.backing.isIdentity = true → r.backing.missing = .empty → ∀ page < r.backing.pageCount,
    r.backing.guarded.contains page = false → r.backing.protection.get page = r.perms

theorem Region.New.shielded {r : Region} (new : r.New) : r.Shielded := by
  intro identity _ page _ _
  cases new with
  | heap placed =>
    rw [Backing.isIdentity_of_allocate placed] at identity
    cases identity
  | identity made => rw [Backing.eq_of_identity made]; rfl

namespace Backing

variable {b b' : Backing} {offset len page : Nat} {perms : Perms}

/-- Putting a guard up shuts its pages. -/
theorem shielded_guard (whole : b.missing = .empty) (identity : b.isIdentity = true)
    (old : b.guarded.contains page = false → b.protection.get page = perms)
    (free : (b.guard offset len).2.guarded.contains page = false) :
    (b.guard offset len).2.protection.get page = perms := by
  rw [guard_of_whole whole, guardedOn] at free ⊢
  dsimp only at free ⊢
  rw [if_pos identity]
  rw [← Bool.not_eq_true, PageSet.contains_insert, not_or, Bool.not_eq_true] at free
  rw [PageMap.get_assign, if_neg free.2, old free.1]

/-- Taking a guard down opens its pages as far as the region allows. -/
theorem shielded_unguard (identity : b.isIdentity = true)
    (old : b.guarded.contains page = false → b.protection.get page = perms)
    (lifted : b.unguard offset len perms = .ok b') (free : b'.guarded.contains page = false) :
    b'.protection.get page = perms := by
  simp only [unguard, identity, if_true] at lifted
  obtain ⟨b₁, opened, lifted⟩ := bind_eq_ok lifted
  rw [hostProtect] at opened
  split at opened
  · cases opened
  · cases opened
    cases lifted
    dsimp only at free ⊢
    rw [← Bool.not_eq_true, PageSet.contains_erase] at free
    rw [PageMap.get_assign]
    split
    · rfl
    · rename_i outside
      refine old ((Bool.not_eq_true _).mp fun guarded => free ⟨guarded, outside⟩)

end Backing

theorem Region.Change.shielded {r r' : Region} (old : r.Shielded) (change : r.Change r') :
    r'.Shielded := by
  intro identity whole page inside free
  cases change with
  | write bytes => exact old identity whole page inside free
  | guard offset len =>
    obtain ⟨-, size, kind, missing⟩ := r.backing.frame_of_guard offset len
    rw [Backing.isIdentity, kind] at identity
    rw [missing] at whole
    rw [Backing.pageCount, size] at inside
    exact Backing.shielded_guard whole identity (old identity whole page inside) free
  | mend lifted =>
    rw [MemoryMap.eq_of_unguard lifted] at identity whole inside
    have before := old identity whole page inside
    exact Backing.shielded_unguard (b := r.backing) identity before lifted free
  | reprotect changed =>
    obtain ⟨-, size, kind, -⟩ := MemoryMap.frame_of_reprotect changed
    rw [Backing.isIdentity, kind, ← Backing.isIdentity] at identity
    rw [Backing.pageCount, size] at inside
    rw [Backing.reprotect, if_pos identity] at changed
    obtain ⟨b₁, renewed, changed⟩ := bind_eq_ok changed
    rw [Backing.hostProtect] at renewed
    split at renewed
    · cases renewed
    · cases renewed
      cases changed
      exact (PageMap.get_assign _ _ _ _ _).trans (if_pos ⟨Nat.zero_le _, inside⟩)
  | move _ placed =>
    rw [Backing.isIdentity_of_allocate placed] at identity
    cases identity
  | lose lost => cases whole

namespace MemoryMap

theorem inPlace_after (calls : List Call) {k : Nat} {r : Region}
    (found : (after calls).regions.get? k = some r) : r.InPlace :=
  forall_after (fun _ new => new.inPlace) (fun _ _ old change => change.inPlace old) calls found

theorem shielded_after (calls : List Call) {k : Nat} {r : Region}
    (found : (after calls).regions.get? k = some r) : r.Shielded :=
  forall_after (fun _ new => new.shielded) (fun _ _ old change => change.shielded old) calls found

end MemoryMap

end GuestExec
