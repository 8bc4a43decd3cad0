import GuestExec.Proofs.Thread.Counted
import Mathlib.Logic.Function.Basic

/-!
# Calls of the thread lock that run at the same time

A call is a few accesses to the two words of the lock, one after the other, and between two of them
any other owner may come in. A `LockPhase` is the access that a call makes next, `ThreadLock.access`
makes it, and a `Contest` has all owners at once: which calls are open, and which were made, in the
order of their last accesses. The accesses of all owners happen in one order; memory that is weaker
than that is not described. A call that is alone with the lock is `ThreadLock.serve`
(`Contest.after_alone`).
-/

namespace GuestExec

/-- The access to the lock that a call makes next. -/
inductive LockPhase where
  /-- Reads whether the caller is the holder already. -/
  | enter
  /-- Becomes the holder if there is none; else it is made again. An attempt that fails without a
  reason is one that was not made. -/
  | spin
  /-- Writes the first level of the new holder. -/
  | settle
  /-- Adds a level. -/
  | nest
  /-- Takes off the level that a `wait` of the holder added. -/
  | unnest
  /-- Reads whether the caller is the holder, who may leave. -/
  | check
  /-- Takes a level off. -/
  | drop
  /-- Clears the holder, after the last level. -/
  | giveBack
deriving DecidableEq, Repr

/-- The most accesses that a call still makes if it need not wait. -/
def LockPhase.remaining : LockPhase → Nat
  | enter => 6
  | spin => 5
  | settle => 4
  | check => 3
  | drop | nest => 2
  | giveBack | unnest => 1

/-- A call that did not return yet. -/
structure OpenCall where
  use : LockUse
  phase : LockPhase
deriving DecidableEq, Repr

/-- How a call goes on after an access. -/
inductive LockCourse where
  | next (phase : LockPhase)
  | returns (answer : Option Bool)
deriving DecidableEq, Repr

namespace LockUse

def first : LockUse → LockPhase
  | unlock => .check
  | lock | wait => .enter

/-- What a call returns that left the lock, or was not allowed to. A `wait` does not tell. -/
def answer (use : LockUse) (left : Bool) : Option Bool := if use = wait then none else some left

end LockUse

/-- The access of a call by `owner`. A `wait` takes the lock and leaves it again. -/
def ThreadLock.access (l : ThreadLock) (owner : UInt64) (call : OpenCall) :
    ThreadLock × LockCourse :=
  match call.phase with
  | .enter => (l, if l.isLockedBy owner then .next .nest else .next .spin)
  | .spin =>
    if l.isLocked then (l, .next .spin) else ({ l with holder := owner }, .next .settle)
  | .settle =>
    ({ l with depth := 1 }, if call.use = .wait then .next .check else .returns (some true))
  | .nest =>
    ({ l with depth := l.depth + 1 },
      if call.use = .wait then .next .unnest else .returns (some false))
  | .unnest => ({ l with depth := l.depth - 1 }, .returns none)
  | .check =>
    (l, if l.isLockedBy owner then .next .drop else .returns (call.use.answer false))
  | .drop =>
    ({ l with depth := l.depth - 1 },
      if l.depth = 1 then .next .giveBack else .returns (call.use.answer true))
  | .giveBack => ({ l with holder := 0 }, .returns (call.use.answer true))

namespace ThreadLock

variable {l l' after : ThreadLock} {owner : UInt64} {use : LockUse} {call : OpenCall}

/-- A call that no other owner comes into returns `answer` and leaves the lock as `after`. -/
inductive Finishes (owner : UInt64) (answer : Option Bool) (after : ThreadLock) :
    ThreadLock → OpenCall → Prop where
  | returns {l : ThreadLock} {call : OpenCall} :
    l.access owner call = (after, .returns answer) → Finishes owner answer after l call
  | next {l l' : ThreadLock} {call : OpenCall} {phase : LockPhase} :
    l.access owner call = (l', .next phase) →
      Finishes owner answer after l' { call with phase } → Finishes owner answer after l call

theorem finishes_check (l : ThreadLock) (owner : UInt64) (use : LockUse) :
    Finishes owner (use.answer (l.release owner).1) (l.release owner).2 l ⟨use, .check⟩ := by
  unfold ThreadLock.release
  split
  · rename_i mine
    have checked : l.access owner ⟨use, .check⟩ = (l, .next .drop) :=
      congrArg (Prod.mk l) (if_pos mine)
    refine .next checked ?_
    by_cases last : l.depth = 1
    · have dropped : l.access owner ⟨use, .drop⟩ =
          ({ l with depth := l.depth - 1 }, .next .giveBack) := congrArg (Prod.mk _) (if_pos last)
      rw [if_pos last]
      exact .next dropped (.returns rfl)
    · rw [if_neg last]
      exact .returns (congrArg (Prod.mk _) (if_neg last))
  · rename_i other
    exact .returns (congrArg (Prod.mk l) (if_neg other))

/-- The holder adds a level, which a `wait` takes off again. -/
theorem finishes_enter_mine (mine : l.isLockedBy owner = true) (enters : use ≠ .unlock) :
    Finishes owner (l.serve owner use).1 (l.serve owner use).2 l ⟨use, .enter⟩ := by
  have entered : l.access owner ⟨use, .enter⟩ = (l, .next .nest) :=
    congrArg (Prod.mk l) (if_pos mine)
  refine .next entered ?_
  cases use with
  | lock => exact .returns (by simp [access, serve, acquire, mine])
  | unlock => exact absurd rfl enters
  | wait =>
    have nested : l.access owner ⟨.wait, .nest⟩ =
        ({ l with depth := l.depth + 1 }, .next .unnest) := rfl
    exact .next nested (.returns (by simp [access, serve, waitUnlocked, acquire, mine]))

/-- A new holder writes its first level; a `wait` then leaves. -/
theorem finishes_enter_free (free : l.isLocked = false) (other : ¬l.isLockedBy owner = true)
    (enters : use ≠ .unlock) :
    Finishes owner (l.serve owner use).1 (l.serve owner use).2 l ⟨use, .enter⟩ := by
  have entered : l.access owner ⟨use, .enter⟩ = (l, .next .spin) :=
    congrArg (Prod.mk l) (if_neg other)
  have taken : l.access owner ⟨use, .spin⟩ = ({ l with holder := owner }, .next .settle) :=
    if_neg (by simp [free])
  refine .next entered (.next taken ?_)
  cases use with
  | lock => exact .returns (by simp [access, serve, acquire, other])
  | unlock => exact absurd rfl enters
  | wait =>
    have acquired : l.acquire owner = (true, { holder := owner, depth := 1 }) := if_neg other
    have settled : ThreadLock.access { l with holder := owner } owner ⟨.wait, .settle⟩ =
        ({ holder := owner, depth := 1 }, .next .check) := rfl
    refine .next settled ?_
    simp only [serve, waitUnlocked, acquired]
    exact finishes_check _ owner .wait

theorem finishes_enter (ready : l.blocks owner = false) (enters : use ≠ .unlock) :
    Finishes owner (l.serve owner use).1 (l.serve owner use).2 l ⟨use, .enter⟩ := by
  by_cases mine : l.isLockedBy owner = true
  · exact finishes_enter_mine mine enters
  · exact finishes_enter_free (by simpa [blocks, mine] using ready) mine enters

/-- A call that need not wait, and that nobody comes into, is made as a whole. -/
theorem finishes_serve (ready : l.waits owner use = false) :
    Finishes owner (l.serve owner use).1 (l.serve owner use).2 l ⟨use, use.first⟩ := by
  cases use with
  | lock => exact finishes_enter ready (by decide)
  | unlock => exact finishes_check l owner .unlock
  | wait => exact finishes_enter ready (by decide)

/-- No other owner has to leave before the call can go on. -/
def Admits (l : ThreadLock) (owner : UInt64) (call : OpenCall) : Prop :=
  match call.phase with
  | .enter => l.blocks owner = false
  | .spin => l.isLocked = false
  | _ => True

theorem Admits.access {phase : LockPhase} (h : l.Admits owner call)
    (eq : l.access owner call = (l', .next phase)) :
    l'.Admits owner { call with phase } ∧ phase.remaining < call.phase.remaining := by
  obtain ⟨use, place⟩ := call
  cases place with
  | enter =>
    have unblocked : l.blocks owner = false := h
    simp only [ThreadLock.access] at eq
    split at eq
    · cases eq
      exact ⟨trivial, by simp [LockPhase.remaining]⟩
    · rename_i other
      cases eq
      exact ⟨by simpa [Admits, blocks, other] using unblocked, by simp [LockPhase.remaining]⟩
  | spin =>
    have free : l.isLocked = false := h
    simp [ThreadLock.access, free] at eq
    obtain ⟨rfl, rfl⟩ := eq
    exact ⟨trivial, by simp [LockPhase.remaining]⟩
  | settle | nest | check | drop =>
    simp only [ThreadLock.access] at eq
    split at eq <;> cases eq
    exact ⟨trivial, by simp [LockPhase.remaining]⟩
  | unnest | giveBack => cases eq

/-- A call that need not wait returns. -/
theorem Admits.finishes (h : l.Admits owner call) :
    ∃ answer after, Finishes owner answer after l call := by
  -- on the accesses that remain, since `spin` is the only one that may be made again
  induction remaining : call.phase.remaining using Nat.strongRecOn generalizing l call with
  | ind n ih =>
    obtain ⟨⟨l', course⟩, eq⟩ : ∃ made, l.access owner call = made := ⟨_, rfl⟩
    cases course with
    | returns answer => exact ⟨answer, l', .returns eq⟩
    | next phase =>
      have ⟨admits, less⟩ := h.access eq
      obtain ⟨answer, after, finishes⟩ := ih _ (remaining ▸ less) admits rfl
      exact ⟨answer, after, .next eq finishes⟩

end ThreadLock

/-- What happens to a lock: an owner begins a call, or makes the next access of the open one. -/
inductive LockEvent where
  | call (owner : UInt64) (use : LockUse)
  | access (owner : UInt64)
deriving DecidableEq, Repr

def LockEvent.owner : LockEvent → UInt64
  | call owner _ | access owner => owner

/-- A lock and all its owners. -/
structure Contest where
  lock : ThreadLock := {}
  /-- The call of each owner that is in one. -/
  calls : UInt64 → Option OpenCall := fun _ => none
  /-- The calls that returned, in this order. -/
  made : List LockCall := []

namespace Contest

variable {s : Contest} {owner other : UInt64} {call : OpenCall} {use : LockUse}

/-- An owner begins a call, unless it is in one. -/
def begin (s : Contest) (owner : UInt64) (use : LockUse) : Contest :=
  match s.calls owner with
  | none => { s with calls := Function.update s.calls owner (some ⟨use, use.first⟩) }
  | some _ => s

/-- An owner makes the next access of its call, if it is in one. -/
def access (s : Contest) (owner : UInt64) : Contest :=
  match s.calls owner with
  | none => s
  | some call =>
    match s.lock.access owner call with
    | (lock, .next phase) =>
      { s with lock, calls := Function.update s.calls owner (some { call with phase }) }
    | (lock, .returns answer) =>
      { lock
        calls := Function.update s.calls owner none
        made := s.made ++ [⟨owner, call.use, answer⟩] }

def step (s : Contest) : LockEvent → Contest
  | .call owner use => s.begin owner use
  | .access owner => s.access owner

def after (s : Contest) (events : List LockEvent) : Contest := events.foldl step s

@[simp]
theorem after_nil : s.after [] = s := rfl

@[simp]
theorem after_cons (event : LockEvent) (events : List LockEvent) :
    s.after (event :: events) = (s.step event).after events := rfl

theorem after_append (events later : List LockEvent) :
    s.after (events ++ later) = (s.after events).after later := List.foldl_append ..

theorem access_next {lock : ThreadLock} {phase : LockPhase} (opened : s.calls owner = some call)
    (eq : s.lock.access owner call = (lock, .next phase)) :
    s.access owner =
      { s with lock, calls := Function.update s.calls owner (some { call with phase }) } := by
  simp [access, opened, eq]

theorem access_returns {lock : ThreadLock} {answer : Option Bool}
    (opened : s.calls owner = some call)
    (eq : s.lock.access owner call = (lock, .returns answer)) :
    s.access owner =
      { lock
        calls := Function.update s.calls owner none
        made := s.made ++ [⟨owner, call.use, answer⟩] } := by
  simp [access, opened, eq]

/-- What a call does that no other owner comes into. -/
theorem after_finishes {answer : Option Bool} {lock : ThreadLock}
    (finishes : ThreadLock.Finishes owner answer lock s.lock call)
    (opened : s.calls owner = some call) :
    ∃ accesses, s.after (List.replicate accesses (.access owner)) =
      { lock
        calls := Function.update s.calls owner none
        made := s.made ++ [⟨owner, call.use, answer⟩] } := by
  generalize now : s.lock = l at finishes
  induction finishes generalizing s with
  | returns eq =>
    subst now
    exact ⟨1, access_returns opened eq⟩
  | @next l l' call phase eq _ ih =>
    subst now
    have step := access_next opened eq
    obtain ⟨accesses, run⟩ := ih (s := s.access owner) (by simp [step]) (by rw [step])
    refine ⟨accesses + 1, ?_⟩
    rw [List.replicate_succ, after_cons]
    simpa [Contest.step, step] using run

/-- A call that need not wait, and that no other owner comes into, is made as a whole. -/
theorem after_alone (closed : s.calls owner = none) (ready : s.lock.waits owner use = false) :
    ∃ events, s.after events =
      { lock := (s.lock.serve owner use).2
        calls := s.calls
        made := s.made ++ [⟨owner, use, (s.lock.serve owner use).1⟩] } := by
  obtain ⟨accesses, run⟩ := after_finishes
    (s := { s with calls := Function.update s.calls owner (some ⟨use, use.first⟩) })
    (ThreadLock.finishes_serve ready) (by simp)
  refine ⟨.call owner use :: List.replicate accesses (.access owner), ?_⟩
  have unchanged : Function.update s.calls owner none = s.calls := by
    rw [← closed, Function.update_eq_self]
  simpa [step, begin, closed, unchanged] using run

/-- Every sequence of whole calls can be made. -/
theorem after_plays {calls : List LockCall} {lock : ThreadLock}
    (plays : ThreadLock.Plays s.lock calls lock) (closed : ∀ owner, s.calls owner = none) :
    ∃ events, s.after events = { lock, calls := s.calls, made := s.made ++ calls } := by
  induction plays with
  | nil => exact ⟨[], by simp⟩
  | @concat calls call l' l'' _ ready eq ih =>
    obtain ⟨events, run⟩ := ih
    have ready' : (s.after events).lock.waits call.owner call.use = false := by
      simpa [run] using ready
    obtain ⟨later, next⟩ := after_alone (by simp [run, closed]) ready'
    refine ⟨events ++ later, ?_⟩
    rw [after_append, next]
    simp [run, eq]

end Contest

end GuestExec
