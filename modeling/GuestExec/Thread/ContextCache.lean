import GuestExec.Thread.Basic

/-!
# The context cache of a core

A core remembers the registers of the thread that it ran last. Writes go through
to the thread; a snapshot counts only while the thread's stamp is the one it was
taken at, so a write by any other path makes it stale, unless 2^64 of them bring
the stamp back.
-/

namespace GuestExec

/-- A thread's place in the order of creation, which tells threads with one id apart. -/
abbrev ThreadRef := Nat

structure ContextSlot where
  thread : ThreadRef
  threadId : UInt64
  stamp : UInt64
  regs : Registers
deriving DecidableEq, Repr

/-- How the cache has served its core, counted without a bound. -/
structure ContextCacheStats where
  hits : Nat := 0
  misses : Nat := 0
  /-- Replacements of one thread by another. -/
  switches : Nat := 0
deriving DecidableEq, Repr, Inhabited

structure ContextCache where
  slot : Option ContextSlot := none
  stats : ContextCacheStats := {}
deriving DecidableEq, Repr, Inhabited

/-- The snapshot is of this thread as it is now. -/
def ContextSlot.isFresh (s : ContextSlot) (ref : ThreadRef) (t : GuestThread) : Bool :=
  s.threadId == t.id && s.thread == ref && s.stamp == t.stamp

namespace ContextCache

/-- The slot, if it holds the thread as it is now. -/
def fresh? (c : ContextCache) (ref : ThreadRef) (t : GuestThread) : Option ContextSlot :=
  c.slot.filter fun s => s.isFresh ref t

def countHit (c : ContextCache) : ContextCache :=
  { c with stats := { c.stats with hits := c.stats.hits + 1 } }

def countMiss (c : ContextCache) : ContextCache :=
  { c with stats := { c.stats with misses := c.stats.misses + 1 } }

/-- Id of the thread in the slot. -/
def cachedThread (c : ContextCache) : Option UInt64 := c.slot.map (·.threadId)

/-- The thread's registers. -/
def get (c : ContextCache) (ref : ThreadRef) (t : GuestThread) : Registers × ContextCache :=
  match c.fresh? ref t with
  | some s => (s.regs, c.countHit)
  | none => (t.stored, c.countMiss)

/-- Changes the thread's registers, in the slot too if it is fresh; returns them as they were. -/
def update (c : ContextCache) (ref : ThreadRef) (t : GuestThread) (f : Registers → Registers) :
    Registers × ContextCache × GuestThread :=
  match c.fresh? ref t with
  | some s =>
    let t := t.store (f s.regs)
    let renewed := { s with regs := f s.regs, stamp := t.stamp }
    (s.regs, { c.countHit with slot := some renewed }, t)
  | none => (t.stored, c.countMiss, t.store (f t.stored))

/-- Overwrites the thread's registers. -/
def set (c : ContextCache) (ref : ThreadRef) (t : GuestThread) (regs : Registers) :
    ContextCache × GuestThread :=
  (c.update ref t fun _ => regs).2

/-- Makes the thread the one in the slot and returns its registers. -/
def activate (c : ContextCache) (ref : ThreadRef) (t : GuestThread) : Registers × ContextCache :=
  match c.fresh? ref t with
  | some s => (s.regs, c.countHit)
  | none =>
    let switched := c.slot.any fun s => s.threadId != t.id
    let c := c.countMiss
    let stats :=
      if switched then { c.stats with switches := c.stats.switches + 1 } else c.stats
    (t.stored,
      { slot := some { thread := ref, threadId := t.id, stamp := t.stamp
                       regs := t.stored }
        stats })

end ContextCache

end GuestExec
