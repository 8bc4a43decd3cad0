import GuestExec.Addr

/-!
# Requests to forget decoded code

Any host thread may ask a core to forget instructions it has decoded; the core
does so at its next safe point. The queue holds at most 64 requests: a 65th, or
one for everything, turns the whole queue into one request for everything.
-/

namespace GuestExec

inductive Invalidation where
  | all
  | range (addr : GuestAddr) (size : UInt64)
deriving DecidableEq, Repr, Inhabited

/-- The request reaches code at `addr`. -/
def Invalidation.covers : Invalidation → GuestAddr → Bool
  | all, _ => true
  | range start size, addr =>
    decide (start.toNat ≤ addr.toNat) && decide (addr.toNat - start.toNat < size.toNat)

structure InvalidationQueue where
  /-- Requests not yet carried out, the oldest first. -/
  requests : List Invalidation := []
deriving DecidableEq, Repr, Inhabited

namespace InvalidationQueue

def limit : Nat := 64

def push (q : InvalidationQueue) (request : Invalidation) : InvalidationQueue :=
  if request = .all ∨ limit ≤ q.requests.length ∨ q.requests.head? = some .all then ⟨[.all]⟩
  else ⟨q.requests ++ [request]⟩

def isPending (q : InvalidationQueue) : Bool := !q.requests.isEmpty

/-- Takes all requests. -/
def drain (q : InvalidationQueue) : List Invalidation × InvalidationQueue :=
  (q.requests, {})

end InvalidationQueue

end GuestExec
