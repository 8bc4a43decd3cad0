import GuestExec.Proofs.Thread.Lock

/-!
# The thread lock counts levels

`CountedLock` is a reentrant lock as those who use it see it: it is free, or one owner holds it for
so many levels. `Serves` has a rule for each way a call can come out; a call without a rule has to
wait. In its two words a `ThreadLock` keeps nothing else (`CountedLock.words`), and its calls follow
the rules, as long as the levels can be told apart modulo 2^32.
-/

namespace GuestExec

/-- What an owner asks of a lock. -/
inductive LockUse where
  | lock
  | unlock
  /-- To wait until no other owner holds it. -/
  | wait
deriving DecidableEq, Repr

/-- A call that took effect, and what it returned, if it returns anything. -/
structure LockCall where
  owner : UInt64
  use : LockUse
  answer : Option Bool
deriving DecidableEq, Repr

/-- A lock that is free, or that `owner` holds and entered `further` times after the first. -/
inductive CountedLock where
  | free
  | held (owner : UInt64) (further : Nat)
deriving DecidableEq, Repr

namespace CountedLock

def holder? : CountedLock → Option UInt64
  | free => none
  | held owner _ => some owner

def levels : CountedLock → Nat
  | free => 0
  | held _ further => further + 1

/-- What a call by `owner` returns and makes of the lock. -/
inductive Serves (owner : UInt64) : CountedLock → LockUse → Option Bool → CountedLock → Prop where
  | take : Serves owner free .lock (some true) (held owner 0)
  | nest {n : Nat} : Serves owner (held owner n) .lock (some false) (held owner (n + 1))
  | leave {n : Nat} : Serves owner (held owner (n + 1)) .unlock (some true) (held owner n)
  | giveBack : Serves owner (held owner 0) .unlock (some true) free
  | refuse {c : CountedLock} (other : c.holder? ≠ some owner) :
    Serves owner c .unlock (some false) c
  | pass {c : CountedLock} (available : ∀ holder, c.holder? = some holder → holder = owner) :
    Serves owner c .wait none c

/-- The second lock is the first after the calls were served, one after the other. -/
inductive Plays (c : CountedLock) : List LockCall → CountedLock → Prop where
  | nil : Plays c [] c
  | concat {calls : List LockCall} {call : LockCall} {c' c'' : CountedLock} :
    Plays c calls c' → Serves call.owner c' call.use call.answer c'' →
      Plays c (calls ++ [call]) c''

/-- The two words in which the lock is kept. -/
def words : CountedLock → ThreadLock
  | free => {}
  | held owner further => { holder := owner, depth := UInt32.ofNat (further + 1) }

end CountedLock

namespace ThreadLock

/-- Another owner has to leave before the call can take effect. -/
def waits (l : ThreadLock) (owner : UInt64) : LockUse → Bool
  | .unlock => false
  | _ => l.blocks owner

/-- What a call returns and makes of the lock. -/
def serve (l : ThreadLock) (owner : UInt64) : LockUse → Option Bool × ThreadLock
  | .lock => (some (l.acquire owner).1, (l.acquire owner).2)
  | .unlock => (some (l.release owner).1, (l.release owner).2)
  | .wait => (none, l.waitUnlocked owner)

/-- The second lock is the first after the calls, none of which had to wait. -/
inductive Plays (l : ThreadLock) : List LockCall → ThreadLock → Prop where
  | nil : Plays l [] l
  | concat {calls : List LockCall} {call : LockCall} {l' l'' : ThreadLock} :
    Plays l calls l' → l'.waits call.owner call.use = false →
      l'.serve call.owner call.use = (call.answer, l'') → Plays l (calls ++ [call]) l''

end ThreadLock

namespace CountedLock

variable {c c' : CountedLock} {owner : UInt64} {use : LockUse} {answer : Option Bool}

theorem Serves.levels_le (h : Serves owner c use answer c') : c'.levels ≤ c.levels + 1 := by
  cases h <;> grind [levels]

/-- A call adds one level at the most. -/
theorem Plays.levels_le {calls : List LockCall} (h : Plays c calls c') :
    c'.levels ≤ c.levels + calls.length := by
  induction h with
  | nil => exact Nat.le_add_right ..
  | concat _ serves ih =>
    have one := serves.levels_le
    rw [List.length_append, List.length_singleton]
    omega

theorem isLockedBy_words (token : owner ≠ 0) :
    c.words.isLockedBy owner = true ↔ c.holder? = some owner := by
  cases c with
  | free => simp [words, ThreadLock.isLockedBy, holder?, token.symm]
  | held holder further => simp [words, ThreadLock.isLockedBy, holder?]

theorem depth_words_add_one (owner : UInt64) (n : Nat) :
    (held owner n).words.depth + 1 = (held owner (n + 1)).words.depth := by
  simp [words]

theorem depth_words_sub_one (owner : UInt64) (n : Nat) :
    (held owner (n + 1)).words.depth - 1 = (held owner n).words.depth := by
  simp [words]

theorem depth_words_last (owner : UInt64) : (held owner 0).words.depth - 1 = 0 := by
  simp [words]

theorem toNat_depth_words (few : c.levels < 0x1_0000_0000) : c.words.depth.toNat = c.levels := by
  cases c with
  | free => rfl
  | held owner further => exact (UInt32.toNat_ofNat' ..).trans (Nat.mod_eq_of_lt few)

/-- The last level can be told from the others, if these are fewer than 2^32. -/
theorem depth_words_eq_one_iff (few : c.levels < 0x1_0000_0000) :
    c.words.depth = 1 ↔ c.levels = 1 := by
  rw [← toNat_depth_words few, ← UInt32.toNat_inj]
  rfl

theorem available_words (few : c.levels < 0x1_0000_0000)
    (available : ∀ holder, c.holder? = some holder → holder = owner) :
    c.words.Available owner := by
  cases c with
  | free => exact ⟨.inl rfl, nofun⟩
  | held holder further =>
    refine ⟨.inr (available holder rfl), fun _ none => ?_⟩
    have levels := toNat_depth_words few
    rw [none] at levels
    exact absurd levels (by simp [CountedLock.levels])

/-- A call that has a rule need not wait, and is served by it. -/
theorem Serves.serve_words (h : Serves owner c use answer c') (token : owner ≠ 0)
    (few : c.levels < 0x1_0000_0000) :
    c.words.waits owner use = false ∧ c.words.serve owner use = (answer, c'.words) := by
  cases h with
  | take =>
    simp [words, ThreadLock.waits, ThreadLock.blocks, ThreadLock.isLocked, ThreadLock.serve,
      ThreadLock.acquire, ThreadLock.isLockedBy, token.symm]
  | nest =>
    simp [words, ThreadLock.waits, ThreadLock.blocks, ThreadLock.isLockedBy, ThreadLock.serve,
      ThreadLock.acquire]
  | @leave n =>
    have holds := (isLockedBy_words (c := held owner (n + 1)) token).2 rfl
    have notLast := mt (depth_words_eq_one_iff few).1 (by simp [levels])
    refine ⟨rfl, ?_⟩
    rw [ThreadLock.serve, ThreadLock.release, if_pos holds, if_neg notLast, depth_words_sub_one]
    rfl
  | giveBack =>
    simp [words, ThreadLock.waits, ThreadLock.serve, ThreadLock.release, ThreadLock.isLockedBy]
  | refuse other =>
    have notHolder : c.words.isLockedBy owner = false := by
      simpa [← isLockedBy_words token] using other
    simp [ThreadLock.waits, ThreadLock.serve, ThreadLock.release, notHolder]
  | pass available =>
    have mine := available_words few available
    exact ⟨mine.blocks_eq_false, congrArg (none, ·) mine.waitUnlocked_eq⟩

end CountedLock

end GuestExec
