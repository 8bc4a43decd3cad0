import GuestExec.Tlb.Basic

/-!
# Calls on a TLB

A `Call` is whatever a TLB can be asked for, and `after` the TLB that a sequence
of calls makes of an empty one. Where a call `Touches` an address, older
translations of it no longer count: there is a new one, or none.
-/

namespace GuestExec.Tlb

/-- A translation of the `size` bytes from `guest` on, as it is given to the TLB. -/
structure Translation where
  guest : GuestAddr
  host : HostAddr
  size : UInt32
  writable : Bool
deriving DecidableEq, Repr

/-- `a` lies in the translated range. -/
def Translation.Covers (x : Translation) (a : GuestAddr) : Prop :=
  x.guest.toNat ≤ a.toNat ∧ a.toNat < x.guest.toNat + x.size.toNat

inductive Call where
  | insert (x : Translation)
  | lookup (addr : GuestAddr)
  | invalidateAll
  | invalidateRange (guest : GuestAddr) (size : UInt64)
deriving DecidableEq, Repr

/-- What was known of `a` before the call is out of date after it. -/
def Call.Touches (a : GuestAddr) : Call → Prop
  | .insert x => x.Covers a
  | .lookup _ => False
  | .invalidateAll => True
  | .invalidateRange guest size =>
    guest.toNat ≤ a.toNat ∧ a.toNat < guest.toNat + size.toNat

def apply (t : Tlb) : Call → Tlb
  | .insert x => t.insert x.guest x.host x.size x.writable
  | .lookup addr => (t.lookup addr).2
  | .invalidateAll => t.invalidateAll
  | .invalidateRange guest size => (t.invalidateRange guest size).2

/-- The TLB after `calls`, made one after the other on an empty one. -/
def after (calls : List Call) : Tlb := calls.foldl apply empty

theorem after_concat (calls : List Call) (call : Call) :
    after (calls ++ [call]) = (after calls).apply call := by
  rw [after, List.foldl_append]
  rfl

end GuestExec.Tlb
