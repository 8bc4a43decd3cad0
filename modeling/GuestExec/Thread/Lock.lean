/-!
# The thread lock

A reentrant lock whose holder is a nonzero token. Free, it has holder zero; held,
it counts the holder's levels modulo 2^32. A caller that finds another holder
waits, so `acquire` describes the lock once it is free for the caller;
`blocks` says whether that is now.
-/

namespace GuestExec

structure ThreadLock where
  /-- Zero when free. -/
  holder : UInt64 := 0
  depth : UInt32 := 0
deriving DecidableEq, Repr, Inhabited

namespace ThreadLock

def isLocked (l : ThreadLock) : Bool := l.holder != 0

def isLockedBy (l : ThreadLock) (owner : UInt64) : Bool := l.holder == owner

/-- `owner` would have to wait for another holder. -/
def blocks (l : ThreadLock) (owner : UInt64) : Bool := l.isLocked && !l.isLockedBy owner

/-- Adds a level for the holder, or takes the lock, once it is free; `true` if it was taken. -/
def acquire (l : ThreadLock) (owner : UInt64) : Bool × ThreadLock :=
  if l.isLockedBy owner then (false, { l with depth := l.depth + 1 })
  else (true, { holder := owner, depth := 1 })

/-- Gives one level back; `false`, and no change, if `owner` is not the holder. -/
def release (l : ThreadLock) (owner : UInt64) : Bool × ThreadLock :=
  if l.isLockedBy owner then
    (true, { holder := if l.depth = 1 then 0 else l.holder, depth := l.depth - 1 })
  else (false, l)

/-- Waits until no other owner holds the lock. -/
def waitUnlocked (l : ThreadLock) (owner : UInt64) : ThreadLock :=
  match l.acquire owner with
  | (true, l) => (l.release owner).2
  | (false, l) => { l with depth := l.depth - 1 }

/-- `first` takes the free lock and gives it back to `second`, who waits for it: whether each took
it, gave it back and holds it in the end. -/
def handOver (l : ThreadLock) (first second : UInt64) : List Bool × ThreadLock :=
  let (taken, l) := l.acquire first
  let (given, l) := l.release first
  let (passed, l) := l.acquire second
  ([taken, given, passed, l.isLockedBy second], l)

end ThreadLock

end GuestExec
