/-!
# Words that count

A counter of 64 bits counts as natural numbers do until it comes around, and 2^64 steps lead
back to where it was.
-/

namespace GuestExec

theorem toNat_add_one {n : UInt64} (room : n.toNat + 1 < 0x1_0000_0000_0000_0000) :
    (n + 1).toNat = n.toNat + 1 := by
  rw [UInt64.toNat_add, UInt64.toNat_one]
  exact Nat.mod_eq_of_lt room

/-- One step more. -/
theorem add_ofNat_succ (n : UInt64) (k : Nat) :
    n + UInt64.ofNat (k + 1) = n + UInt64.ofNat k + 1 := by
  rw [UInt64.ofNat_add, UInt64.add_assoc]
  rfl

/-- 2^64 steps lead back. -/
theorem add_ofNat_size (n : UInt64) : n + UInt64.ofNat 0x1_0000_0000_0000_0000 = n := by
  have zero : UInt64.ofNat 0x1_0000_0000_0000_0000 = 0 := by decide
  rw [zero, UInt64.add_zero]

end GuestExec
