import GuestExec.Addr

/-!
# Translations held by the TLB

An entry says that the `size` bytes from `guest` on lie at `host` on the host.
Extents are half-open intervals of natural numbers, so one that reaches past
2^64 does not wrap.
-/

namespace GuestExec.Tlb

/-- One slot of the TLB. -/
structure Entry where
  guest : GuestAddr
  host : HostAddr
  /-- Length of the translated range in bytes. -/
  size : UInt32
  valid : Bool
  writable : Bool
  /-- Time of the last access, as a clock of 64 bits showed it. -/
  last : Nat
  /-- Number of accesses, held at the largest word once it gets there. -/
  count : UInt32
deriving DecidableEq, Repr

namespace Entry

/-- A slot that was never filled. -/
def empty : Entry :=
  { guest := ⟨0⟩, host := ⟨0⟩, size := 0, valid := false, writable := false, last := 0, count := 0 }

instance : Inhabited Entry := ⟨empty⟩

/-- The first number past the translated range. -/
def stop (e : Entry) : Nat := e.guest.toNat + e.size.toNat

/-- `addr` lies in the translated range. -/
def covers (e : Entry) (addr : GuestAddr) : Bool :=
  decide (e.guest.toNat ≤ addr.toNat) && decide (addr.toNat < e.stop)

/-- The translated range and `[lo, hi)` each begin before the other ends. -/
def overlaps (e : Entry) (lo hi : Nat) : Bool :=
  decide (e.guest.toNat < hi) && decide (lo < e.stop)

/-- Distance from guest to host address, modulo 2^64. -/
def delta (e : Entry) : UInt64 := e.host.word - e.guest.word

/-- The entry translates as `guest` to `host` with this writability would. -/
def agrees (e : Entry) (guest : GuestAddr) (host : HostAddr) (writable : Bool) : Bool :=
  e.delta == host.word - guest.word && e.writable == writable

/-- The host address of `addr`, which the entry covers. -/
def hostAddr (e : Entry) (addr : GuestAddr) : HostAddr := e.host + (addr - e.guest)

/-- The entry after an access at time `now`. -/
def touch (e : Entry) (now : Nat) : Entry :=
  { e with last := now, count := if e.count = 0xffffffff then e.count else e.count + 1 }

/-- The entry, no longer valid; everything else stays. -/
def drop (e : Entry) : Entry := { e with valid := false }

theorem covers_iff (e : Entry) (addr : GuestAddr) :
    e.covers addr = true ↔ e.guest.toNat ≤ addr.toNat ∧ addr.toNat < e.stop := by
  simp [covers]

theorem overlaps_iff (e : Entry) (lo hi : Nat) :
    e.overlaps lo hi = true ↔ e.guest.toNat < hi ∧ lo < e.stop := by
  simp [overlaps]

end Entry

/-- What a lookup that hits returns. -/
structure Hit where
  host : HostAddr
  writable : Bool
deriving DecidableEq, Repr

end GuestExec.Tlb
