import GuestExec.Memory.Access
import GuestExec.Tlb.Basic

/-!
# A TLB in front of a memory map

An `Mmu` translates guest addresses through the TLB. On a miss `translate`
walks the map and fills the TLB, `translateCached` gives up. Accesses of up to
eight bytes touch at most two pages; both pieces are translated before either is
accessed.
-/

namespace GuestExec

open Tlb (Hit)

structure Mmu where
  tlb : Tlb
  memory : MemoryMap
deriving Inhabited

/-- Where a translation comes from. -/
inductive Lookup where
  /-- The TLB alone. -/
  | cached
  /-- The TLB, then the memory map. -/
  | walk
deriving DecidableEq, Repr

namespace Mmu

/-- Adds the page of `addr`, which lies in `mapping`, to the TLB. -/
def fill (u : Mmu) (addr : GuestAddr) (mapping : Mapping) : Mmu :=
  let page := addr.pageBase
  { u with tlb :=
      u.tlb.insert page (mapping.hostAddr page) (UInt32.ofNat pageSize) mapping.writable }

/-- The TLB's answer, unless it does not allow the access. -/
def translateCached (u : Mmu) (addr : GuestAddr) (access : Access) : Option Hit × Mmu :=
  let (hit, tlb) := u.tlb.lookup addr
  (hit.filter fun h => !access.isWrite || h.writable, { u with tlb })

/-- The map's answer, if its region allows the access and the host can make it
now; the page then enters the TLB. -/
def walk (u : Mmu) (addr : GuestAddr) (access : Access) : Option Hit × Mmu :=
  match u.memory.translate addr with
  | none => (none, u)
  | some mapping =>
    if mapping.perms.allows access && u.memory.isHostAccessible addr 1 access then
      (some ⟨mapping.hostAddr addr, mapping.writable⟩, u.fill addr mapping)
    else (none, u)

/-- The TLB's answer, else the map's. -/
def translate (u : Mmu) (addr : GuestAddr) (access : Access) : Option Hit × Mmu :=
  match u.translateCached addr access with
  | (some hit, u) => (some hit, u)
  | (none, u) => u.walk addr access

def translateBy (lookup : Lookup) (u : Mmu) (addr : GuestAddr) (access : Access) :
    Option Hit × Mmu :=
  match lookup with
  | .cached => u.translateCached addr access
  | .walk => u.translate addr access

/-- How many of the `len` bytes from `addr` on lie on the page of `addr`. -/
def headLength (addr : GuestAddr) (len : Nat) : Nat :=
  min (pageSize - addr.pageOffset.toNat) len

/-- The host addresses and lengths of the at most two pieces of an access. -/
def pieces (lookup : Lookup) (u : Mmu) (addr : GuestAddr) (len : Nat) (access : Access) :
    Option (List (HostAddr × Nat)) × Mmu :=
  let head := headLength addr len
  match translateBy lookup u addr access with
  | (none, u) => (none, u)
  | (some first, u) =>
    if head = len then (some [(first.host, len)], u)
    else
      match translateBy lookup u (addr + UInt64.ofNat head) access with
      | (none, u) => (none, u)
      | (some second, u) => (some [(first.host, head), (second.host, len - head)], u)

/-- Reads the pieces one after the other; empty ones are passed over. -/
def readPieces (m : MemoryMap) : List (HostAddr × Nat) → Option (List UInt8)
  | [] => some []
  | (host, n) :: rest =>
    if n = 0 then readPieces m rest
    else
      match m.readHost host n with
      | .error _ => none
      | .ok bytes => (readPieces m rest).map (bytes ++ ·)

/-- Writes `data` to the pieces one after the other; empty ones are passed over. -/
def writePieces (m : MemoryMap) (data : List UInt8) : List (HostAddr × Nat) → Bool × MemoryMap
  | [] => (true, m)
  | (host, n) :: rest =>
    if n = 0 then writePieces m data rest
    else
      match m.writeHost host (data.take n) with
      | .error _ => (false, m)
      | .ok m => writePieces m (data.drop n) rest

/-- Reads `len` bytes of guest memory. -/
def read (lookup : Lookup) (u : Mmu) (addr : GuestAddr) (len : Nat) : Option (List UInt8) × Mmu :=
  let (pieces, u) := pieces lookup u addr len .read
  (pieces.bind (readPieces u.memory), u)

/-- Writes `data` to guest memory; `false` if it could not. -/
def write (lookup : Lookup) (u : Mmu) (addr : GuestAddr) (data : List UInt8) : Bool × Mmu :=
  match pieces lookup u addr data.length .write with
  | (none, u) => (false, u)
  | (some pieces, u) =>
    let (done, memory) := writePieces u.memory data pieces
    (done, { u with memory })

/-- The first of the access's at most two pieces that no walk can translate. -/
def firstWalkMiss (u : Mmu) (addr : GuestAddr) (len : Nat) (access : Access) :
    Option GuestAddr × Mmu :=
  let head := headLength addr len
  match u.translate addr access with
  | (none, u) => (some addr, u)
  | (some _, u) =>
    if head = len then (none, u)
    else
      let next := addr + UInt64.ofNat head
      match u.translate next access with
      | (none, u) => (some next, u)
      | (some _, u) => (none, u)

/-- The piece to blame for an access that the TLB alone could not make: the first
if the TLB does not have it or there is no other, else the second. -/
def firstCachedMiss (u : Mmu) (addr : GuestAddr) (len : Nat) (access : Access) : GuestAddr × Mmu :=
  let head := headLength addr len
  if head = len then (addr, u)
  else
    match u.translateCached addr access with
    | (none, u) => (addr, u)
    | (some _, u) => (addr + UInt64.ofNat head, u)

end Mmu

end GuestExec
