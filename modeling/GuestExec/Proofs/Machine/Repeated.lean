import GuestExec.Proofs.Machine.Contexts

/-!
# Calls made over and over

What a long run of equal calls makes of the one thread that they name, in closed
form: such runs are too long to be followed call by call, and they are what it
takes for a word that counts to come around.
-/

namespace GuestExec

namespace Roster

variable {α : Type} {r : Roster α} {i : Nat} {a : α}

/-- Nothing changes when a member is replaced by itself. -/
theorem set_self (there : r.get? i = some a) : r.set i a = r := by
  obtain ⟨members⟩ := r
  have member : members[i]? = some (some a) := by
    rw [get?] at there
    exact Option.join_eq_some_iff.1 there
  obtain ⟨inside, eq⟩ := Array.getElem?_eq_some_iff.1 member
  rw [set, Array.setIfInBounds_def, dif_pos inside]
  simp only [← eq, Array.set_getElem_self]

theorem set_set (r : Roster α) (i : Nat) (a b : α) : (r.set i a).set i b = r.set i b := by
  rw [set, set, Array.setIfInBounds_setIfInBounds]
  rfl

end Roster

namespace GuestThread

/-- The thread after its registers were stored `n` times over. -/
def storeTimes (t : GuestThread) (regs : Registers) (n : Nat) : GuestThread :=
  { t with stored := if n = 0 then t.stored else regs, stamp := t.stamp + UInt64.ofNat n }

/-- The thread after its holder locked it `n` times more. -/
def lockTimes (t : GuestThread) (n : Nat) : GuestThread :=
  let lock := { t.params.lock with depth := t.params.lock.depth + UInt32.ofNat n }
  { t with params := { t.params with lock } }

theorem storeTimes_zero (t : GuestThread) (regs : Registers) : t.storeTimes regs 0 = t := by
  have stamp : t.stamp + UInt64.ofNat 0 = t.stamp := UInt64.add_zero t.stamp
  rw [storeTimes, stamp, if_pos rfl]

theorem store_storeTimes (t : GuestThread) (regs : Registers) (n : Nat) :
    (t.storeTimes regs n).store regs = t.storeTimes regs (n + 1) := by
  rw [store, storeTimes, storeTimes, add_ofNat_succ, if_neg (Nat.succ_ne_zero n)]

/-- After 2^64 stores the stamp is what it was. -/
theorem storeTimes_size (t : GuestThread) (regs : Registers) :
    t.storeTimes regs 0x1_0000_0000_0000_0000 = { t with stored := regs } := by
  rw [storeTimes, add_ofNat_size, if_neg (by decide)]

theorem lockTimes_zero (t : GuestThread) : t.lockTimes 0 = t := by
  have depth : t.params.lock.depth + UInt32.ofNat 0 = t.params.lock.depth :=
    UInt32.add_zero t.params.lock.depth
  rw [lockTimes, depth]

theorem lock_lockTimes {t : GuestThread} {owner : UInt64}
    (held : t.params.lock.isLockedBy owner = true) (n : Nat) :
    Core.lockThread (t.lockTimes n) owner = t.lockTimes (n + 1) := by
  have still : (t.lockTimes n).params.lock.isLockedBy owner = true := held
  rw [Core.lockThread, ThreadParams.acquire, ThreadLock.acquire, if_pos still, lockTimes, lockTimes,
    UInt32.ofNat_add, ← UInt32.add_assoc]
  rfl

end GuestThread

namespace Machine

variable {m : Machine} {thread : Nat} {t : GuestThread}

/-- What a call does to one thread each time, it does over and over: `g n` is the thread after `n`
times. -/
theorem foldl_replicate {call : Call} {f : GuestThread → GuestThread} {g : Nat → GuestThread}
    (does : ∀ {m : Machine} {t}, m.threads.get? thread = some t →
      m.apply call = { m with threads := m.threads.set thread (f t) })
    (next : ∀ n, f (g n) = g (n + 1)) (there : m.threads.get? thread = some (g 0)) (n : Nat) :
    (List.replicate n call).foldl apply m = { m with threads := m.threads.set thread (g n) } := by
  induction n with
  | zero =>
    rw [Roster.set_self there]
    rfl
  | succ n ih =>
    rw [List.replicate_succ', List.foldl_append, ih, List.foldl_cons, List.foldl_nil,
      does (Roster.get?_set_self there _), next, Roster.set_set]

theorem foldl_storeRegisters (there : m.threads.get? thread = some t) (regs : Registers) (n : Nat) :
    (List.replicate n (.storeRegisters thread regs)).foldl apply m =
      { m with threads := m.threads.set thread (t.storeTimes regs n) } := by
  refine foldl_replicate (f := (·.store regs)) ?_ (t.store_storeTimes regs)
    ((t.storeTimes_zero regs).symm ▸ there) n
  intro m t there
  simp only [apply, storeRegisters, onThread, there, Option.bind_eq_bind, Option.bind_some,
    Option.pure_def, Option.map_some, Option.getD_some]

/-- The host thread locks a thread that it holds. -/
theorem foldl_lock (there : m.threads.get? thread = some t)
    (held : t.params.lock.isLockedBy owner = true) (n : Nat) :
    (List.replicate n (.lock thread)).foldl apply m =
      { m with threads := m.threads.set thread (t.lockTimes n) } := by
  refine foldl_replicate (f := (Core.lockThread · owner)) ?_ (GuestThread.lock_lockTimes held)
    (t.lockTimes_zero.symm ▸ there) n
  intro m t there
  simp only [apply, lock, onThread, there, Option.bind_eq_bind, Option.bind_some,
    Option.pure_def, Option.map_some, Option.getD_some]

end Machine

end GuestExec
