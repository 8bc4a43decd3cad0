import GuestExec.Tlb.Victim

/-!
# The software TLB

A cache of translations from guest to host addresses: 64 sets of 8 ways, the
set chosen by the page number. Time is counted in lookups and insertions, in a
word that comes around after 2^64 of them.
`insert` first drops every entry that overlaps the new range but translates it
otherwise, in whatever set, so the translations that remain never contradict
each other.
-/

namespace GuestExec

namespace Tlb

/-- Ways of one set. -/
abbrev Ways := Vector Entry 8

/-- What happened to a TLB so far, counted without a bound. -/
structure Stats where
  lookups : Nat := 0
  hits : Nat := 0
  misses : Nat := 0
  inserts : Nat := 0
  /-- Valid entries overwritten for want of room. -/
  evictions : Nat := 0
  /-- Entries dropped because a new translation contradicted them. -/
  conflicts : Nat := 0
  flushes : Nat := 0
deriving DecidableEq, Repr, Inhabited

end Tlb

structure Tlb where
  sets : Vector Tlb.Ways 64
  /-- Lookups and insertions so far, modulo 2^64. -/
  clock : UInt64
  stats : Tlb.Stats
deriving DecidableEq, Repr

namespace Tlb

def empty : Tlb :=
  { sets := Vector.replicate 64 (Vector.replicate 8 Entry.empty), clock := 0, stats := {} }

instance : Inhabited Tlb := ⟨empty⟩

/-- The set of an address: its page number modulo the number of sets. -/
def setIndex (addr : GuestAddr) : Fin 64 :=
  ⟨addr.toNat / pageSize % 64, Nat.mod_lt _ (by decide)⟩

/-- All slots, set by set and way by way. -/
def slots (t : Tlb) : List Entry :=
  t.sets.toList.flatMap Vector.toList

def validEntries (t : Tlb) : List Entry :=
  t.slots.filter (·.valid)

/-- The slots of set `i`, counted modulo the number of sets. -/
def waysOf (t : Tlb) (i : Nat) : List Entry :=
  (t.sets.get (Fin.ofNat 64 i)).toList

/-- The same TLB with every slot changed by `f`. -/
def mapSlots (t : Tlb) (f : Entry → Entry) : Tlb :=
  { t with sets := t.sets.map (·.map f) }

/-- The same TLB with one way of set `i` replaced. -/
def setWay (t : Tlb) (i : Fin 64) (way : Nat) (e : Entry) : Tlb :=
  { t with sets := t.sets.set i ((t.sets[i]).setIfInBounds way e) }

/-- Looks `addr` up. A hit renews the entry's time and adds to its accesses. -/
def lookup (t : Tlb) (addr : GuestAddr) : Option Hit × Tlb :=
  let now := t.clock + 1
  let set := setIndex addr
  let ways := t.sets[set].toList
  let found := fun (e : Entry) => e.valid && e.covers addr
  match ways.find? found with
  | some e =>
    let stats := { t.stats with lookups := t.stats.lookups + 1, hits := t.stats.hits + 1 }
    (some ⟨e.hostAddr addr, e.writable⟩,
      { t.setWay set (ways.findIdx found) (e.touch now.toNat) with clock := now, stats })
  | none =>
    let stats := { t.stats with lookups := t.stats.lookups + 1, misses := t.stats.misses + 1 }
    (none, { t with clock := now, stats })

/-- The valid entry `e` contradicts the translation of `[guest, guest + size)` to `host`. -/
def contradicts (guest : GuestAddr) (host : HostAddr) (size : UInt32) (writable : Bool)
    (e : Entry) : Bool :=
  e.valid && e.overlaps guest.toNat (guest.toNat + size.toNat) && !e.agrees guest host writable

/-- Drops the entries that `doomed` picks. -/
def purge (t : Tlb) (doomed : Entry → Bool) : Tlb :=
  t.mapSlots fun e => if doomed e then e.drop else e

/-- Puts a translation into its set at time `now`: over the entry with the same
bases, whose size only grows, or else over the victim. -/
def place (t : Tlb) (guest : GuestAddr) (host : HostAddr) (size : UInt32) (writable : Bool)
    (now : Nat) : Tlb :=
  let set := setIndex guest
  let ways := t.sets[set].toList
  let same := fun (e : Entry) => e.valid && e.guest == guest && e.host == host
  match ways.find? same with
  | some e =>
    t.setWay set (ways.findIdx same)
      { e with size := if e.size < size then size else e.size, last := now }
  | none =>
    let victim := selectVictim ways now
    let evicted := ways[victim]?.any (·.valid)
    let t := t.setWay set victim
      { guest, host, size, valid := true, writable, last := now, count := 1 }
    if evicted then { t with stats := { t.stats with evictions := t.stats.evictions + 1 } } else t

/-- Adds the translation of `[guest, guest + size)` to `host`; an empty range
changes nothing. -/
def insert (t : Tlb) (guest : GuestAddr) (host : HostAddr) (size : UInt32) (writable : Bool) :
    Tlb :=
  if size = 0 then t else
    let now := t.clock + 1
    let doomed := contradicts guest host size writable
    let stats := { t.stats with
      conflicts := t.stats.conflicts + t.slots.countP doomed
      inserts := t.stats.inserts + 1 }
    place { t.purge doomed with clock := now, stats } guest host size writable now.toNat

/-- Counts one flush. -/
def countFlush (t : Tlb) : Tlb :=
  { t with stats := { t.stats with flushes := t.stats.flushes + 1 } }

/-- Drops all entries. -/
def invalidateAll (t : Tlb) : Tlb :=
  countFlush (t.mapSlots Entry.drop)

/-- Drops the entries that overlap `[guest, guest + size)` and counts them. -/
def invalidateRange (t : Tlb) (guest : GuestAddr) (size : UInt64) : Nat × Tlb :=
  let doomed := fun (e : Entry) =>
    e.valid && e.overlaps guest.toNat (guest.toNat + size.toNat)
  (t.slots.countP doomed, countFlush (t.purge doomed))

end Tlb

end GuestExec
