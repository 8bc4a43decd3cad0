import GuestExec.Error
import GuestExec.Perms
import GuestExec.Memory.ByteStore
import GuestExec.Memory.PageSet

/-!
# Blocks of host memory

A `Backing` is the host memory behind one guest region. Some of its pages may be
*guarded*: every access to them fails until the guard is lifted, which is how
lazy commitment and copy-on-write show. A heap block lies where the host's
allocator puts it; an identity block lies at the guest's own address and also
carries real page protection.
-/

namespace GuestExec

/-- The host's allocator: blocks follow each other, one unused page between two
of them, and none is used again. A block ends where the host's addresses end at
the latest and shares no page with a block in use. -/
structure HostHeap where
  /-- Where the next block starts. -/
  next : Nat
deriving DecidableEq, Repr

/-- `n` rounded up to whole pages. -/
def roundUpToPage (n : Nat) : Nat := (n + (pageSize - 1)) / pageSize * pageSize

namespace HostHeap

def initial : HostHeap := ⟨0x200000000000⟩

instance : Inhabited HostHeap := ⟨initial⟩

/-- Blocks of this size and beyond are never available. -/
def limit : Nat := 0x4000_0000_0000_0000

/-- A place for `size` bytes; `inUse lo hi` says whether a block in use meets `[lo, hi)`. -/
def allocate (inUse : Nat → Nat → Bool) (h : HostHeap) (size : Nat) :
    Option (HostAddr × HostHeap) :=
  let stop := h.next + roundUpToPage size
  if size = 0 ∨ limit ≤ size ∨ 0x1_0000_0000_0000_0000 < stop ∨ inUse h.next stop then none
  else some (⟨UInt64.ofNat h.next⟩, ⟨stop + pageSize⟩)

end HostHeap

inductive BackingKind where
  /-- Placed by the host's allocator. -/
  | heap
  /-- Placed at the guest's own address. -/
  | identity
deriving DecidableEq, Repr, Inhabited

structure Backing where
  base : HostAddr
  /-- Length in bytes. -/
  size : Nat
  kind : BackingKind
  bytes : ByteStore
  /-- Pages whose accesses fail until their guard is lifted. -/
  guarded : PageSet
  /-- The host's protection of each page. -/
  protection : PageMap Perms
  /-- Pages that the host has taken away. -/
  missing : PageSet
deriving Inhabited

namespace Backing

/-- A zeroed block from the host's allocator. -/
def allocate (inUse : Nat → Nat → Bool) (heap : HostHeap) (size : UInt64) :
    Except MemoryError (Backing × HostHeap) :=
  match heap.allocate inUse size.toNat with
  | none => .error (.allocationFailed size)
  | some (base, heap) =>
    .ok ({ base, size := size.toNat, kind := .heap, bytes := .zeros, guarded := .empty
           protection := .const .readWrite, missing := .empty }, heap)

/-- The end of the addresses that the host gives to programs. -/
def addressSpaceEnd : Nat := 0x8000_0000_0000 - pageSize

/-- A zeroed block at the guest's own address. The host wants a size, room below
the end of its address space, a page boundary and, last, pages that no
block in use occupies; `inUse lo hi` says whether one meets `[lo, hi)`. A block
at address 0 cannot be told from none. -/
def identity (inUse : Nat → Nat → Bool) (addr : GuestAddr) (size : UInt64) (perms : Perms) :
    Except MemoryError Backing :=
  let lo := addr.toNat
  let hi := lo + roundUpToPage size.toNat
  if size = 0 then .error (.mapRefused addr .invalidArgument)
  else if addressSpaceEnd < hi then .error (.mapRefused addr .noMemory)
  else if lo % pageSize ≠ 0 then .error (.mapRefused addr .invalidArgument)
  else if inUse lo hi then .error (.mapRefused addr .alreadyExists)
  else if lo = 0 then .error (.allocationFailed size)
  else .ok { base := ⟨addr.word⟩, size := size.toNat, kind := .identity, bytes := .zeros
             guarded := .empty, protection := .const perms, missing := .empty }

def isIdentity (b : Backing) : Bool := b.kind == .identity

/-- The block's whole pages meet the host addresses `[lo, hi)`. -/
def occupies (b : Backing) (lo hi : Nat) : Bool :=
  decide (b.base.toNat < hi) && decide (lo < b.base.toNat + roundUpToPage b.size)

def pageCount (b : Backing) : Nat := (b.size + (pageSize - 1)) / pageSize

/-- The first page that `len` bytes from `offset` on touch; an empty range counts
as one byte. -/
def firstPage (offset : Nat) : Nat := offset / pageSize

/-- One more than the last page that `len` bytes from `offset` on touch. -/
def pageEnd (offset len : Nat) : Nat := (offset + max len 1 - 1) / pageSize + 1

/-- Some page that the range touches is guarded. -/
def isGuarded (b : Backing) (offset len : Nat) : Bool :=
  b.guarded.meets (firstPage offset) (pageEnd offset len)

/-- The offset of `host`, if the `len` bytes there lie in the block and no page
of theirs is guarded. -/
def offsetOf (b : Backing) (host : HostAddr) (len : Nat) : Except MemoryError Nat :=
  let offset := host.toNat - b.base.toNat
  if host.toNat < b.base.toNat ∨ b.size < offset + len ∨ b.isGuarded offset len then
    .error (.invalidHostAddress host)
  else .ok offset

def read (b : Backing) (host : HostAddr) (len : Nat) : Except MemoryError (List UInt8) := do
  let offset ← b.offsetOf host len
  return b.bytes.read offset len

def write (b : Backing) (host : HostAddr) (data : List UInt8) : Except MemoryError Backing := do
  let offset ← b.offsetOf host data.length
  return { b with bytes := b.bytes.write offset data }

/-- Changes the host's protection of the pages `[lo, hi)`; none of them may be missing. -/
def hostProtect (b : Backing) (lo hi : Nat) (perms : Perms) : Except MemoryError Backing :=
  if b.missing.meets lo hi then .error (.protectRefused .noMemory)
  else .ok { b with protection := b.protection.assign lo hi perms }

/-- Guards the pages of a range. The guard is in place even if the host then
refuses to protect the pages of an identity block. -/
def guard (b : Backing) (offset len : Nat) : Except MemoryError Unit × Backing :=
  let lo := firstPage offset
  let hi := min (pageEnd offset len) b.pageCount
  let b := { b with guarded := b.guarded.insert lo hi }
  if b.isIdentity then
    match b.hostProtect lo hi .none with
    | .ok b => (.ok (), b)
    | .error e => (.error e, b)
  else (.ok (), b)

/-- Lifts the guard from the pages of a range, once the host has given the pages of an identity
block their protection back. -/
def unguard (b : Backing) (offset len : Nat) (perms : Perms) : Except MemoryError Backing := do
  let lo := firstPage offset
  let hi := min (pageEnd offset len) b.pageCount
  let b ← if b.isIdentity then b.hostProtect lo hi perms else .ok b
  return { b with guarded := b.guarded.erase lo hi }

/-- Gives the whole block new permissions. On an identity block that renews the host's protection
and so lifts every guard. -/
def reprotect (b : Backing) (perms : Perms) : Except MemoryError Backing := do
  if b.isIdentity then
    let b ← b.hostProtect 0 b.pageCount perms
    return { b with guarded := .empty }
  else
    return b

end Backing

/-- The blocks that the host has given out. -/
structure HostBlocks where
  heap : HostHeap := .initial
  blocks : List Backing := []
deriving Inhabited

namespace HostBlocks

/-- Some block meets the host addresses `[lo, hi)`. -/
def inUse (h : HostBlocks) (lo hi : Nat) : Bool := h.blocks.any fun b => b.occupies lo hi

/-- A block from the allocator, or at `addr` if an address is given. -/
def add (h : HostBlocks) (addr : Option GuestAddr) (size : UInt64) (perms : Perms) :
    Except MemoryError (Backing × HostBlocks) :=
  match addr with
  | none =>
    (Backing.allocate h.inUse h.heap size).map fun (b, heap) =>
      (b, { heap, blocks := b :: h.blocks })
  | some addr =>
    (Backing.identity h.inUse addr size perms).map fun b => (b, { h with blocks := b :: h.blocks })

end HostBlocks

end GuestExec
