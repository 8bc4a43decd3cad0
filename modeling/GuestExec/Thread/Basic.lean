import GuestExec.Registers
import GuestExec.Thread.Lock

/-!
# Guest threads

A thread as the kernel side sees it: its stored registers, which change only by
whole stores, and the flags that cores, other host threads and signal handlers
share. Every store starts a new generation, until the word that counts them comes
around.
-/

namespace GuestExec

/-- What all parties share about a thread. -/
structure ThreadParams where
  lock : ThreadLock := {}
  running : Bool := false
  /-- A request to stop is waiting. -/
  interrupt : Bool := false
  /-- The host thread that ran it last; zero before the first run. -/
  hostTid : Int32 := 0
deriving DecidableEq, Repr, Inhabited

namespace ThreadParams

/-- Marks the thread as running; fails if it already is. -/
def claim (p : ThreadParams) : Bool × ThreadParams :=
  (!p.running, { p with running := true })

def requestInterrupt (p : ThreadParams) : ThreadParams := { p with interrupt := true }

/-- Takes a waiting request to stop. -/
def takeInterrupt (p : ThreadParams) : Bool × ThreadParams :=
  (p.interrupt, { p with interrupt := false })

def acquire (p : ThreadParams) (owner : UInt64) : ThreadParams :=
  { p with lock := (p.lock.acquire owner).2 }

def release (p : ThreadParams) (owner : UInt64) : ThreadParams :=
  { p with lock := (p.lock.release owner).2 }

def waitUnlocked (p : ThreadParams) (owner : UInt64) : ThreadParams :=
  { p with lock := p.lock.waitUnlocked owner }

end ThreadParams

structure GuestThread where
  id : UInt64
  stored : Registers
  /-- Number of stores so far, modulo 2^64. -/
  stamp : UInt64
  params : ThreadParams
deriving DecidableEq, Repr, Inhabited

namespace GuestThread

def new (id : UInt64) (regs : Registers) : GuestThread :=
  { id, stored := regs, stamp := 0, params := {} }

/-- The generation of the stored registers, as it is reported. -/
def generation (t : GuestThread) : Nat := t.stamp.toNat

/-- Overwrites the stored registers. -/
def store (t : GuestThread) (regs : Registers) : GuestThread :=
  { t with stored := regs, stamp := t.stamp + 1 }

end GuestThread

end GuestExec
