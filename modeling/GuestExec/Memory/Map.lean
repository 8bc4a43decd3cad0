import GuestExec.Memory.AddressTable
import GuestExec.Memory.Backing

/-!
# The guest's memory map

A `MemoryMap` is a set of guest regions, each with its permissions and the host
memory behind it, found by guest address (`translate`) or by host address
(`findHost`). Extents are compared as natural numbers, so a region may run past
2^64 without wrapping. Operations that change a translation return the
`MappingChange` that they announce.
-/

namespace GuestExec

/-- A range of guest addresses with its permissions and memory. -/
structure Region where
  base : GuestAddr
  perms : Perms
  backing : Backing
deriving Inhabited

namespace Region

/-- Length in bytes. -/
def size (r : Region) : Nat := r.backing.size

/-- The first number past the region. -/
def stop (r : Region) : Nat := r.base.toNat + r.size

/-- `addr` lies in the region. -/
def holds (r : Region) (addr : GuestAddr) : Bool :=
  decide (r.base.toNat ≤ addr.toNat) && decide (addr.toNat < r.stop)

/-- How far `addr`, an address of the region, lies into it. -/
def offset (r : Region) (addr : GuestAddr) : Nat := addr.toNat - r.base.toNat

end Region

/-- The result of a page walk: the region that holds an address. -/
structure Mapping where
  guestBase : GuestAddr
  hostBase : HostAddr
  size : Nat
  perms : Perms
deriving DecidableEq, Repr

namespace Mapping

/-- The host address of `addr`, modulo 2^64. -/
def hostAddr (m : Mapping) (addr : GuestAddr) : HostAddr := m.hostBase + (addr - m.guestBase)

def writable (m : Mapping) : Bool := m.perms.write

def contains (m : Mapping) (addr : GuestAddr) : Bool :=
  decide (m.guestBase.toNat ≤ addr.toNat) && decide (addr.toNat < m.guestBase.toNat + m.size)

/-- How many bytes the region holds from `addr` on. -/
def rest (m : Mapping) (addr : GuestAddr) : Nat := m.size - (addr.toNat - m.guestBase.toNat)

end Mapping

def Region.mapping (r : Region) : Mapping :=
  { guestBase := r.base, hostBase := r.backing.base, size := r.size, perms := r.perms }

/-- What happened to a region. -/
inductive ChangeKind where
  | unmapped
  | reprotected (perms : Perms)
  | remapped
deriving DecidableEq, Repr

/-- A change of the map that makes older translations stale. -/
structure MappingChange where
  kind : ChangeKind
  addr : GuestAddr
  size : UInt64
deriving DecidableEq, Repr

structure MemoryMap where
  /-- The regions by guest base. -/
  regions : AddressTable Region
  /-- The guest base of each region by its host base. -/
  byHost : AddressTable GuestAddr
  heap : HostHeap
deriving Inhabited

namespace MemoryMap

/-- No regions. -/
def empty : MemoryMap := { regions := .empty, byHost := .empty, heap := .initial }

/-- The region that holds `addr`. -/
def find (m : MemoryMap) (addr : GuestAddr) : Option Region :=
  (m.regions.floor? addr.toNat).filter (·.holds addr)

/-- The region whose memory holds `host`. -/
def findHost (m : MemoryMap) (host : HostAddr) : Option Region :=
  (m.byHost.floor? host.toNat).bind fun base =>
    (m.regions.get? base.toNat).filter fun r =>
      decide (host.toNat - r.backing.base.toNat < r.size)

/-- The page walk: the mapping that holds `addr`. -/
def translate (m : MemoryMap) (addr : GuestAddr) : Option Mapping :=
  (m.find addr).map Region.mapping

def regionCount (m : MemoryMap) : Nat := m.regions.size

/-- Some region meets `[lo, hi)`. -/
def overlaps (m : MemoryMap) (lo hi : Nat) : Bool :=
  m.regions.values.any fun r => decide (r.base.toNat < hi) && decide (lo < r.stop)

/-- The memory behind some region meets the host addresses `[lo, hi)`. -/
def hostInUse (m : MemoryMap) (lo hi : Nat) : Bool :=
  m.regions.values.any fun r => r.backing.occupies lo hi

/-- Why no region can be added at `addr`, if so. -/
def checkNew (m : MemoryMap) (addr : GuestAddr) (size : UInt64) : Except MemoryError Unit :=
  if size = 0 ∨ addr.toNat % pageSize ≠ 0 ∨ size.toNat % pageSize ≠ 0 then
    .error (.misaligned addr (UInt64.ofNat pageSize))
  else if m.overlaps addr.toNat (addr.toNat + size.toNat) then .error (.overlap addr size)
  else .ok ()

/-- The map with `r` in both tables. -/
def insertRegion (m : MemoryMap) (r : Region) : MemoryMap :=
  { m with
    regions := m.regions.insert r.base.toNat r
    byHost := m.byHost.insert r.backing.base.toNat r.base }

/-- The map with other contents for the region `r`, which stays where it is. -/
def setRegion (m : MemoryMap) (r : Region) : MemoryMap :=
  { m with regions := m.regions.insert r.base.toNat r }

/-- Adds a region with memory from the host's allocator. -/
def map (m : MemoryMap) (addr : GuestAddr) (size : UInt64) (perms : Perms) :
    Except MemoryError MemoryMap := do
  m.checkNew addr size
  let (backing, heap) ← Backing.allocate m.hostInUse m.heap size
  return { m with heap }.insertRegion { base := addr, perms, backing }

/-- Adds a region whose host addresses are its guest addresses. -/
def mapIdentity (m : MemoryMap) (addr : GuestAddr) (size : UInt64) (perms : Perms) :
    Except MemoryError MemoryMap := do
  m.checkNew addr size
  let backing ← Backing.identity m.hostInUse addr size perms
  return m.insertRegion { base := addr, perms, backing }

/-- The region whose base is `addr`. -/
def regionAt (m : MemoryMap) (addr : GuestAddr) : Except MemoryError Region :=
  match m.regions.get? addr.toNat with
  | some r => .ok r
  | none => .error (.invalidAddress addr)

/-- Removes the region whose base is `addr`. -/
def unmap (m : MemoryMap) (addr : GuestAddr) : Except MemoryError (MappingChange × MemoryMap) := do
  let r ← m.regionAt addr
  return ({ kind := .unmapped, addr, size := UInt64.ofNat r.size },
    { m with
      regions := m.regions.erase addr.toNat
      byHost := m.byHost.erase r.backing.base.toNat })

/-- Gives the region whose base is `addr` new permissions. -/
def protect (m : MemoryMap) (addr : GuestAddr) (perms : Perms) :
    Except MemoryError (MappingChange × MemoryMap) := do
  let r ← m.regionAt addr
  let backing ← r.backing.reprotect perms
  return ({ kind := .reprotected perms, addr, size := UInt64.ofNat r.size },
    m.setRegion { r with perms, backing })

/-- Replaces the memory of the region whose base is `addr` by a zeroed block
elsewhere; the old host addresses are no longer valid. -/
def remap (m : MemoryMap) (addr : GuestAddr) :
    Except MemoryError (HostAddr × MappingChange × MemoryMap) := do
  let r ← m.regionAt addr
  if r.backing.isIdentity then throw (.cannotMove addr)
  let size := UInt64.ofNat r.size
  let (backing, heap) ← Backing.allocate m.hostInUse m.heap size
  let byHost := m.byHost.erase r.backing.base.toNat
  return (backing.base, { kind := .remapped, addr, size },
    { m with heap, byHost }.insertRegion { r with backing })

/-- Guards the pages of `[addr, addr + size)` as far as they lie in the region of `addr`. -/
def guardRange (m : MemoryMap) (addr : GuestAddr) (size : UInt64) :
    Except MemoryError Unit × MemoryMap :=
  match m.find addr with
  | none => (.error (.invalidAddress addr), m)
  | some r =>
    let offset := r.offset addr
    let (result, backing) := r.backing.guard offset (min size.toNat (r.size - offset))
    (result, m.setRegion { r with backing })

/-- The page of `addr` is guarded. -/
def isGuarded (m : MemoryMap) (addr : GuestAddr) : Bool :=
  (m.find addr).any fun r => r.backing.isGuarded (r.offset addr) 1

/-- `access` to the `size` bytes from `addr` on would succeed on the host as things are. -/
def isHostAccessible (m : MemoryMap) (addr : GuestAddr) (size : Nat) (access : Access) : Bool :=
  (m.find addr).any fun r =>
    let offset := r.offset addr
    r.perms.allows access && decide (offset + max size 1 ≤ r.size) &&
      !r.backing.isGuarded offset size

/-- Lifts the guard from the page of `addr`, if the region allows the access and
a guard is in its way; says whether a retry will now succeed. -/
def resolveFault (m : MemoryMap) (addr : GuestAddr) (access : Access) : Bool × MemoryMap :=
  match m.find addr with
  | none => (false, m)
  | some r =>
    let offset := r.offset addr
    if r.perms.allows access && r.backing.isGuarded offset 1 then
      match r.backing.unguard (offset / pageSize * pageSize) pageSize r.perms with
      | .ok backing => (true, m.setRegion { r with backing })
      | .error _ => (false, m)
    else (false, m)

/-- Reads `len` bytes at a host address. -/
def readHost (m : MemoryMap) (host : HostAddr) (len : Nat) : Except MemoryError (List UInt8) :=
  match m.findHost host with
  | none => .error (.invalidHostAddress host)
  | some r => r.backing.read host len

/-- Writes `data` at a host address. An identity block obeys its region's
permission to write, a heap block does not. -/
def writeHost (m : MemoryMap) (host : HostAddr) (data : List UInt8) :
    Except MemoryError MemoryMap :=
  match m.findHost host with
  | none => .error (.invalidHostAddress host)
  | some r =>
    if r.backing.isIdentity && !r.perms.write then
      .error (.hostWriteProtected (r.base + (host.word - r.backing.base.word)))
    else do
      let backing ← r.backing.write host data
      return m.setRegion { r with backing }

/-- Host ranges of the regions that allow fetches, in the order of guest addresses. -/
def executableRanges (m : MemoryMap) : List (HostAddr × Nat) :=
  (m.regions.values.filter (·.perms.execute)).map fun r => (r.backing.base, r.size)

/-- Takes the identity-mapped host page of `addr` away, unknown to the map. -/
def loseHostPage (m : MemoryMap) (addr : GuestAddr) : MemoryMap :=
  match m.find addr with
  | none => m
  | some r =>
    if r.backing.isIdentity then
      let page := r.offset addr / pageSize
      m.setRegion { r with backing :=
        { r.backing with missing := r.backing.missing.insert page (page + 1) } }
    else m

theorem translate_contains {m : MemoryMap} {addr : GuestAddr} {mapping : Mapping}
    (h : m.translate addr = some mapping) : mapping.contains addr = true := by
  obtain ⟨r, found, rfl⟩ := Option.map_eq_some_iff.1 h
  exact (Option.filter_eq_some_iff.1 found).2

theorem translate_rest_pos {m : MemoryMap} {addr : GuestAddr} {mapping : Mapping}
    (h : m.translate addr = some mapping) : 0 < mapping.rest addr := by
  have inside := translate_contains h
  simp only [Mapping.contains, Bool.and_eq_true, decide_eq_true_eq] at inside
  simp only [Mapping.rest]
  omega

end MemoryMap

end GuestExec
