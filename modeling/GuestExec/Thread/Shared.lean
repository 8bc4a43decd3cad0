import GuestExec.Roster
import GuestExec.Thread.ContextCache

/-!
# Threads shared by context caches

Any number of caches may hold snapshots of the same threads. Every operation
names its cache and its thread by number.
-/

namespace GuestExec

structure SharedThreads where
  threads : Roster GuestThread := {}
  /-- The caches by number; one that was never used is empty. -/
  caches : Nat → ContextCache := fun _ => {}

namespace SharedThreads

def addThread (s : SharedThreads) (id : UInt64) (regs : Registers) : Nat × SharedThreads :=
  let (i, threads) := s.threads.add (.new id regs)
  (i, { s with threads })

/-- Drops a thread; gives whether it still exists. -/
def dropThread (s : SharedThreads) (i : ThreadRef) : Bool × SharedThreads :=
  let threads := s.threads.drop i
  ((threads.get? i).isSome, { s with threads })

def setCache (s : SharedThreads) (cache : Nat) (c : ContextCache) : SharedThreads :=
  { s with caches := fun i => if i = cache then c else s.caches i }

def setThread (s : SharedThreads) (i : ThreadRef) (t : GuestThread) : SharedThreads :=
  { s with threads := s.threads.set i t }

/-- The thread's registers through a cache. -/
def get (s : SharedThreads) (cache : Nat) (i : ThreadRef) : Option (Registers × SharedThreads) := do
  let (regs, c) := (s.caches cache).get i (← s.threads.get? i)
  return (regs, s.setCache cache c)

/-- Makes the thread the one in a cache's slot and gives its registers. -/
def activate (s : SharedThreads) (cache : Nat) (i : ThreadRef) :
    Option (Registers × SharedThreads) := do
  let (regs, c) := (s.caches cache).activate i (← s.threads.get? i)
  return (regs, s.setCache cache c)

/-- Changes the thread's registers through a cache; gives them as they were. -/
def update (s : SharedThreads) (cache : Nat) (i : ThreadRef) (f : Registers → Registers) :
    Option (Registers × SharedThreads) := do
  let (old, c, t) := (s.caches cache).update i (← s.threads.get? i) f
  return (old, (s.setCache cache c).setThread i t)

/-- Overwrites the thread's registers through a cache. -/
def set (s : SharedThreads) (cache : Nat) (i : ThreadRef) (regs : Registers) :
    Option (Unit × SharedThreads) := do
  let (c, t) := (s.caches cache).set i (← s.threads.get? i) regs
  return ((), (s.setCache cache c).setThread i t)

/-- Overwrites the thread's registers past all caches; gives the generation. -/
def store (s : SharedThreads) (i : ThreadRef) (regs : Registers) :
    Option (Nat × SharedThreads) := do
  let t := (← s.threads.get? i).store regs
  return (t.generation, s.setThread i t)

end SharedThreads

end GuestExec
