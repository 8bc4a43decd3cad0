import GuestExec.Tlb.Entry

/-!
# Which entry of a full set makes room

An entry scores its number of accesses divided by its age, the time since its
last access plus one: often used and recently used entries score high. Scores
are compared exactly, by multiplying out. The lowest score leaves, of equal
scores the one accessed longest ago, of those the first.
-/

namespace GuestExec.Tlb

namespace Entry

/-- Time since the last access, at least one. -/
def age (e : Entry) (now : Nat) : Nat := now - e.last + 1

/-- Order of eviction at time `now`: the lesser entry leaves first. -/
def evictionOrder (now : Nat) (a b : Entry) : Ordering :=
  (compare (a.count.toNat * b.age now) (b.count.toNat * a.age now)).then (compare a.last b.last)

end Entry

/-- Where the entry is that leaves first, the scan being at `position`
and `best`, found at `victim`, the one that leaves first so far. -/
def leastEntry (now : Nat) : List Entry → (position victim : Nat) → (best : Entry) → Nat
  | [], _, victim, _ => victim
  | e :: rest, position, victim, best =>
    if e.evictionOrder now best = .lt then leastEntry now rest (position + 1) position e
    else leastEntry now rest (position + 1) victim best

/-- The way to fill: the first invalid one, else the one that leaves first. -/
def selectVictim (ways : List Entry) (now : Nat) : Nat :=
  match ways.findIdx? (fun e => !e.valid) with
  | some free => free
  | none =>
    match ways with
    | [] => 0
    | e :: rest => leastEntry now rest 1 0 e

end GuestExec.Tlb
