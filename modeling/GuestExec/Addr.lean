import GuestExec.Word.Hex

/-!
# Guest and host addresses

Both are 64-bit words, kept apart by type so that a translation is the only
way from one to the other. Address arithmetic is modulo 2^64; comparisons and
extents are stated on `toNat`.
-/

namespace GuestExec

/-- Pages are 4 KiB. -/
def pageSize : Nat := 4096

/-- A virtual address of the guest. -/
structure GuestAddr where
  word : UInt64
deriving DecidableEq, Repr, Inhabited

/-- A virtual address of the host. -/
structure HostAddr where
  word : UInt64
deriving DecidableEq, Repr, Inhabited

namespace GuestAddr

def toNat (a : GuestAddr) : Nat := a.word.toNat

instance : HAdd GuestAddr UInt64 GuestAddr := ⟨fun a n => ⟨a.word + n⟩⟩

/-- The distance from `b` up to `a`, modulo 2^64. -/
instance : HSub GuestAddr GuestAddr UInt64 := ⟨fun a b => a.word - b.word⟩

/-- The first address of the page that holds `a`. -/
def pageBase (a : GuestAddr) : GuestAddr := ⟨a.word - a.word % 4096⟩

/-- How far `a` lies into its page. -/
def pageOffset (a : GuestAddr) : UInt64 := a.word % 4096

/-- Whether `a` is a multiple of `align`, a power of two. -/
def isAligned (a : GuestAddr) (align : UInt64) : Bool := a.word &&& (align - 1) == 0

instance : ToString GuestAddr := ⟨fun a => hexText a.toNat⟩

theorem toNat_lt (a : GuestAddr) : a.toNat < 0x1_0000_0000_0000_0000 := a.word.toNat_lt

@[simp] theorem toNat_add (a : GuestAddr) (n : UInt64) :
    (a + n).toNat = (a.toNat + n.toNat) % 0x1_0000_0000_0000_0000 :=
  UInt64.toNat_add a.word n

end GuestAddr

namespace HostAddr

def toNat (a : HostAddr) : Nat := a.word.toNat

instance : HAdd HostAddr UInt64 HostAddr := ⟨fun a n => ⟨a.word + n⟩⟩

instance : ToString HostAddr := ⟨fun a => hexText a.toNat⟩

theorem toNat_lt (a : HostAddr) : a.toNat < 0x1_0000_0000_0000_0000 := a.word.toNat_lt

@[simp] theorem toNat_add (a : HostAddr) (n : UInt64) :
    (a + n).toNat = (a.toNat + n.toNat) % 0x1_0000_0000_0000_0000 :=
  UInt64.toNat_add a.word n

end HostAddr

end GuestExec
