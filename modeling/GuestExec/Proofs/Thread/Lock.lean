import GuestExec.Thread.Basic

/-!
# Uses of a thread's lock

A run takes the thread's lock around every trap and waits for it at every safe
point, and gives back what it took: it uses the lock in a `Balanced` way. A lock
that is `Available` is then the same afterwards, however many levels its holder
has.
-/

namespace GuestExec.ThreadLock

variable {l l' l'' : ThreadLock} {owner : UInt64}

/-- The lock is free and counts no level, or `owner` holds it. -/
def Mine (l : ThreadLock) (owner : UInt64) : Prop := l = {} ∨ l.holder = owner

/-- Levels are counted modulo 2^32; the count of a lock that is held has not come round to zero. -/
def Counted (l : ThreadLock) : Prop := l.isLocked = true → l.depth ≠ 0

/-- `owner` need not wait for the lock, and its levels are counted. -/
structure Available (l : ThreadLock) (owner : UInt64) : Prop where
  mine : l.Mine owner
  counted : l.Counted

/-- `l'` is `l` after `owner` used it any number of times, giving back each time what it took. -/
inductive Balanced (owner : UInt64) (l : ThreadLock) : ThreadLock → Prop where
  | refl : Balanced owner l l
  | held {l' : ThreadLock} : Balanced owner l l' →
    Balanced owner l ((l'.acquire owner).2.release owner).2
  | waited {l' : ThreadLock} : Balanced owner l l' → Balanced owner l (l'.waitUnlocked owner)

theorem Balanced.trans (first : Balanced owner l l') (next : Balanced owner l' l'') :
    Balanced owner l l'' := by
  induction next with
  | refl => exact first
  | held _ ih => exact .held ih
  | waited _ ih => exact .waited ih

/-! ## Whose the lock is -/

theorem mine_initial (owner : UInt64) : ({} : ThreadLock).Mine owner := .inl rfl

theorem mine_acquire (l : ThreadLock) (owner : UInt64) : (l.acquire owner).2.Mine owner := by
  unfold ThreadLock.acquire
  split
  · rename_i held
    exact .inr (beq_iff_eq.1 held)
  · exact .inr rfl

theorem Mine.release (h : l.Mine owner) : (l.release owner).2.Mine owner := by
  unfold ThreadLock.release
  split
  · rename_i held
    by_cases last : l.depth = 1
    · exact .inl (by simp [last])
    · exact .inr (by simpa [last, isLockedBy] using held)
  · exact h

theorem mine_waitUnlocked (l : ThreadLock) (owner : UInt64) :
    (l.waitUnlocked owner).Mine owner := by
  have taken := mine_acquire l owner
  unfold ThreadLock.waitUnlocked
  split
  · rename_i eq
    rw [eq] at taken
    exact taken.release
  · rename_i l' eq
    unfold ThreadLock.acquire at eq
    split at eq
    · rename_i held
      cases eq
      exact .inr (beq_iff_eq.1 held)
    · cases eq

theorem Available.blocks_eq_false (h : l.Available owner) : l.blocks owner = false := by
  obtain rfl | held := h.mine
  · simp [blocks, isLocked]
  · simp [blocks, isLockedBy, held]

theorem Balanced.mine (h : Balanced owner l l') (mine : l.Mine owner) : l'.Mine owner := by
  induction h with
  | refl => exact mine
  | held _ _ => exact (mine_acquire _ owner).release
  | waited _ _ => exact mine_waitUnlocked _ owner

/-! ## What is given back -/

theorem Available.release_acquire (h : l.Available owner) :
    ((l.acquire owner).2.release owner).2 = l := by
  obtain ⟨holder, depth⟩ := l
  by_cases held : holder = owner
  · subst held
    have counted : holder ≠ 0 → depth ≠ 0 := fun locked => h.counted (bne_iff_ne.2 locked)
    have back : depth + 1 - 1 = depth := by simp
    by_cases first : depth + 1 = 1
    · have none : depth = 0 := by rw [← back, first]; rfl
      have free : holder = 0 := Decidable.byContradiction fun locked => counted locked none
      simp [acquire, release, isLockedBy, none, free]
    · simp [acquire, release, isLockedBy, first]
  · have free := h.mine.resolve_right held
    cases free
    simp [acquire, release, isLockedBy, held]

theorem Available.waitUnlocked_eq (h : l.Available owner) : l.waitUnlocked owner = l := by
  have back := h.release_acquire
  unfold ThreadLock.waitUnlocked
  split
  · rename_i eq
    rw [eq] at back
    exact back
  · rename_i l' eq
    unfold ThreadLock.acquire at eq
    split at eq
    · cases eq
      simp
    · cases eq

/-- A lock that is used in a balanced way keeps its holder and its levels. -/
theorem Balanced.eq_of_available (h : Balanced owner l l') (available : l.Available owner) :
    l' = l := by
  induction h with
  | refl => rfl
  | held _ ih => rw [ih, available.release_acquire]
  | waited _ ih => rw [ih, available.waitUnlocked_eq]

end GuestExec.ThreadLock
