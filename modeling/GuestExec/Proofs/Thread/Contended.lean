import GuestExec.Proofs.Thread.Interleaved

/-!
# The thread lock under contention

However the accesses of its owners interleave, the thread lock is a `CountedLock`: each call takes
effect at its last access, by the rules of `CountedLock.Serves`. In between, the two words of the
lock may be a step ahead of the lock that they stand for, and which step that is can be told from
the call that its holder is in (`Contest.Stands`); all other owners are still outside.
-/

namespace GuestExec

/-- A call of an owner who does not hold the lock. -/
inductive OpenCall.Outside : OpenCall → Prop where
  | enter {use : LockUse} (enters : use ≠ .unlock) : Outside ⟨use, .enter⟩
  | spin {use : LockUse} (enters : use ≠ .unlock) : Outside ⟨use, .spin⟩
  | check : Outside ⟨.unlock, .check⟩

/-- A call of the holder that did not change the lock yet. -/
inductive OpenCall.Untouched : OpenCall → Prop where
  | enter {use : LockUse} (enters : use ≠ .unlock) : Untouched ⟨use, .enter⟩
  | nest {use : LockUse} (enters : use ≠ .unlock) : Untouched ⟨use, .nest⟩
  | check : Untouched ⟨.unlock, .check⟩
  | drop : Untouched ⟨.unlock, .drop⟩

theorem LockUse.outside_first (use : LockUse) : OpenCall.Outside ⟨use, use.first⟩ := by
  cases use with
  | lock | wait => exact .enter (by decide)
  | unlock => exact .check

theorem LockUse.untouched_first (use : LockUse) : OpenCall.Untouched ⟨use, use.first⟩ := by
  cases use with
  | lock | wait => exact .enter (by decide)
  | unlock => exact .check

/-- The words, with the call that the holder is in, stand for a counted lock. -/
inductive CountedLock.Stands : ThreadLock → Option OpenCall → CountedLock → Prop where
  | free : Stands {} none .free
  | kept {owner : UInt64} {n : Nat} {call : Option OpenCall} (token : owner ≠ 0)
    (untouched : ∀ opened ∈ call, opened.Untouched) :
    Stands (held owner n).words call (held owner n)
  | taken {owner : UInt64} {use : LockUse} (enters : use ≠ .unlock) :
    Stands { holder := owner, depth := 0 } (some ⟨use, .settle⟩) .free
  | passing {owner : UInt64} {phase : LockPhase} (leaves : phase = .check ∨ phase = .drop) :
    Stands (held owner 0).words (some ⟨.wait, phase⟩) .free
  | passed {owner : UInt64} :
    Stands { holder := owner, depth := 0 } (some ⟨.wait, .giveBack⟩) .free
  | left {owner : UInt64} :
    Stands { holder := owner, depth := 0 } (some ⟨.unlock, .giveBack⟩) (held owner 0)
  | nested {owner : UInt64} {n : Nat} :
    Stands (held owner (n + 1)).words (some ⟨.wait, .unnest⟩) (held owner n)

namespace CountedLock

variable {l : ThreadLock} {c : CountedLock} {owner : UInt64} {call : OpenCall}

theorem Stands.holder {call : Option OpenCall} (h : Stands l call c)
    (holds : c.holder? = some owner) : l.holder = owner := by
  cases h <;> cases holds <;> rfl

/-- A lock without a holder is free. -/
theorem Stands.eq_free (h : Stands l none c) (none : l.holder = 0) : l = {} ∧ c = .free := by
  cases h with
  | free => exact ⟨rfl, rfl⟩
  | kept token => exact absurd none token

theorem Stands.eq_words (h : Stands l none c) : l = c.words := by
  cases h with
  | free | kept => rfl

theorem Stands.begin (h : Stands l none c) (held : l.holder ≠ 0) (use : LockUse) :
    Stands l (some ⟨use, use.first⟩) c := by
  cases h with
  | free => exact absurd rfl held
  | kept token => exact .kept token (by simpa using use.untouched_first)

/-- What an access of the holder may lead to: the call goes on, and the words stand for the same
lock, or it returns and is served. -/
def Advances (owner : UInt64) (c : CountedLock) (use : LockUse) :
    ThreadLock × LockCourse → Prop
  | (l, .next phase) => Stands l (some ⟨use, phase⟩) c ∧ l.holder = owner
  | (l, .returns answer) =>
    ∃ c', Serves owner c use answer c' ∧ Stands l none c' ∧ (l.holder = owner ∨ l.holder = 0)

theorem Stands.access_untouched {n : Nat} (untouched : call.Untouched) (token : owner ≠ 0)
    (few : (held owner n).levels < 0x1_0000_0000) :
    Advances owner (held owner n) call.use ((held owner n).words.access owner call) := by
  have mine : (held owner n).words.isLockedBy owner = true := (isLockedBy_words token).2 rfl
  cases untouched with
  | enter enters =>
    simp only [ThreadLock.access, mine, if_true]
    exact ⟨.kept token (by simpa using .nest enters), rfl⟩
  | @nest use enters =>
    simp only [ThreadLock.access, depth_words_add_one]
    cases use with
    | lock => exact ⟨held owner (n + 1), .nest, .kept token (by simp), .inl rfl⟩
    | unlock => exact absurd rfl enters
    | wait => exact ⟨.nested, rfl⟩
  | check =>
    simp only [ThreadLock.access, mine, if_true]
    exact ⟨.kept token (by simpa using .drop), rfl⟩
  | drop =>
    cases n with
    | zero =>
      simp only [ThreadLock.access, depth_words_last]
      exact ⟨.left, rfl⟩
    | succ n =>
      have notLast := mt (depth_words_eq_one_iff few).1 (by simp [levels])
      simp only [ThreadLock.access, if_neg notLast, depth_words_sub_one]
      exact ⟨held owner n, .leave, .kept token (by simp), .inl rfl⟩

/-- One access of the holder. -/
theorem Stands.access (h : Stands l (some call) c) (mine : l.holder = owner) (token : owner ≠ 0)
    (few : c.levels < 0x1_0000_0000) : Advances owner c call.use (l.access owner call) := by
  cases h with
  | @kept holder _ _ _ untouched =>
    obtain rfl : holder = owner := mine
    exact access_untouched (untouched call rfl) token few
  | @taken holder use enters =>
    obtain rfl : holder = owner := mine
    cases use with
    | lock => exact ⟨held holder 0, .take, .kept token (by simp), .inl rfl⟩
    | unlock => exact absurd rfl enters
    | wait => exact ⟨.passing (.inl rfl), rfl⟩
  | @passing holder _ leaves =>
    obtain rfl : holder = owner := mine
    obtain rfl | rfl := leaves
    · have mine := (isLockedBy_words (c := held holder 0) token).2 rfl
      simp only [ThreadLock.access, mine, if_true]
      exact ⟨.passing (.inr rfl), rfl⟩
    · simp only [ThreadLock.access, depth_words_last]
      exact ⟨.passed, rfl⟩
  | passed => exact ⟨.free, .pass (by simp [holder?]), .free, .inr rfl⟩
  | @left holder =>
    obtain rfl : holder = owner := mine
    exact ⟨.free, .giveBack, .free, .inr rfl⟩
  | @nested holder n =>
    obtain rfl : holder = owner := mine
    simp only [ThreadLock.access, depth_words_sub_one]
    exact ⟨held holder n, .pass (by simp [holder?]), .kept token (by simp), .inl rfl⟩

/-- The holder never waits. -/
theorem Stands.admits (h : Stands l (some call) c) (mine : l.holder = owner) :
    l.Admits owner call := by
  have ready : l.blocks owner = false := by
    simp [ThreadLock.blocks, ThreadLock.isLockedBy, mine]
  cases h with
  | kept _ untouched =>
    cases untouched call rfl with
    | enter => exact ready
    | nest | check | drop => trivial
  | passing leaves => obtain rfl | rfl := leaves <;> trivial
  | taken | passed | left | nested => trivial

end CountedLock

namespace Contest

variable {s : Contest} {c c' : CountedLock} {owner : UInt64} {call : OpenCall} {use : LockUse}

/-- The lock, while calls are open, stands for `c`. -/
structure Shows (s : Contest) (c : CountedLock) : Prop where
  stands : CountedLock.Stands s.lock (s.calls s.lock.holder) c
  outside : ∀ owner, owner ≠ s.lock.holder → ∀ call ∈ s.calls owner, call.Outside
  /-- Zero is nobody. -/
  tokens : s.calls 0 = none

theorem shows_initial : Shows {} .free where
  stands := .free
  outside := by simp
  tokens := rfl

/-- An owner who does not hold the lock, and leaves it as it is, changes nothing for the others. -/
theorem Shows.elsewhere {opened : Option OpenCall} {made : List LockCall} (h : s.Shows c)
    (token : owner ≠ 0) (other : owner ≠ s.lock.holder) (outside : ∀ call ∈ opened, call.Outside) :
    Shows { s with calls := Function.update s.calls owner opened, made } c where
  stands := by simpa [other.symm] using h.stands
  outside := by
    intro someone notHolder
    by_cases same : someone = owner
    · subst same
      simpa using outside
    · simpa [same] using h.outside someone notHolder
  tokens := by simpa [token.symm] using h.tokens

/-- The holder, or who becomes the holder of a lock that has none, is the only one to change it. -/
theorem Shows.own {lock : ThreadLock} {opened : Option OpenCall} {made : List LockCall}
    (h : s.Shows c) (token : owner ≠ 0) (mine : s.lock.holder = owner ∨ s.lock.holder = 0)
    (stands : CountedLock.Stands lock opened c')
    (mine' : lock.holder = owner ∨ lock.holder = 0 ∧ opened = none) :
    Shows { lock, calls := Function.update s.calls owner opened, made } c' where
  stands := by
    obtain holds | ⟨free, closed⟩ := mine'
    · simpa [holds] using stands
    · simpa [free, token.symm, h.tokens, ← closed] using stands
  outside := by
    intro someone notHolder
    by_cases same : someone = owner
    · obtain holds | ⟨-, closed⟩ := mine'
      · exact absurd (same.trans holds.symm) notHolder
      · simp [same, closed]
    · -- the holder was `owner` or nobody, so all others were outside already
      have before : ∀ call ∈ s.calls someone, call.Outside := by
        obtain holds | free := mine
        · exact h.outside someone (holds ▸ same)
        · by_cases nobody : someone = 0
          · simp [nobody, h.tokens]
          · exact h.outside someone (free ▸ nobody)
      simpa [same] using before
  tokens := by simpa [token.symm] using h.tokens

theorem Shows.begin (h : s.Shows c) (token : owner ≠ 0) : (s.begin owner use).Shows c := by
  unfold Contest.begin
  split
  · rename_i closed
    by_cases mine : s.lock.holder = owner
    · have stands := h.stands
      rw [mine, closed] at stands
      exact h.own token (.inl mine) (stands.begin (mine ▸ token) use) (.inl mine)
    · exact h.elsewhere token (Ne.symm mine) (by simpa using use.outside_first)
  · exact h

/-- What the access of an owner may lead to: nothing that is seen, or its call was served. -/
def Answers (owner : UInt64) (s : Contest) (c : CountedLock) (use : LockUse)
    (s' : Contest) : Prop :=
  s'.Shows c ∧ s'.made = s.made ∨
    ∃ answer c', s'.made = s.made ++ [⟨owner, use, answer⟩] ∧
      CountedLock.Serves owner c use answer c' ∧ s'.Shows c'

theorem Shows.access_mine (h : s.Shows c) (token : owner ≠ 0) (few : c.levels < 0x1_0000_0000)
    (opened : s.calls owner = some call) (mine : s.lock.holder = owner) :
    Answers owner s c call.use (s.access owner) := by
  have stands := h.stands
  rw [mine, opened] at stands
  have advances := stands.access mine token few
  obtain ⟨⟨lock, course⟩, eq⟩ : ∃ made, s.lock.access owner call = made := ⟨_, rfl⟩
  rw [eq] at advances
  cases course with
  | next phase =>
    obtain ⟨stands', mine'⟩ := advances
    rw [access_next opened eq]
    exact .inl ⟨h.own token (.inl mine) stands' (.inl mine'), rfl⟩
  | returns answer =>
    obtain ⟨c', serves, stands', mine'⟩ := advances
    rw [access_returns opened eq]
    refine .inr ⟨answer, c', rfl, serves, h.own token (.inl mine) stands' ?_⟩
    exact mine'.imp_right (⟨·, rfl⟩)

theorem Shows.access_other (h : s.Shows c) (token : owner ≠ 0)
    (opened : s.calls owner = some call) (other : s.lock.holder ≠ owner) :
    Answers owner s c call.use (s.access owner) := by
  have notMine : ¬s.lock.isLockedBy owner = true := by simpa [ThreadLock.isLockedBy] using other
  cases h.outside owner (Ne.symm other) call opened with
  | @enter use enters =>
    rw [access_next opened (congrArg (Prod.mk s.lock) (if_neg notMine))]
    exact .inl ⟨h.elsewhere token (Ne.symm other) (by simpa using .spin enters), rfl⟩
  | @spin use enters =>
    -- only a lock that nobody holds is taken, and then the counted lock is free as well
    by_cases locked : s.lock.isLocked = true
    · rw [access_next opened (if_pos locked)]
      exact .inl ⟨h.elsewhere token (Ne.symm other) (by simpa using .spin enters), rfl⟩
    · have none : s.lock.holder = 0 := by simpa [ThreadLock.isLocked] using locked
      have stands := h.stands
      rw [none, h.tokens] at stands
      obtain ⟨free, rfl⟩ := stands.eq_free none
      rw [access_next opened (if_neg locked)]
      refine .inl ⟨h.own token (.inr none) ?_ (.inl rfl), rfl⟩
      simpa [free] using CountedLock.Stands.taken enters
  | check =>
    rw [access_returns opened (congrArg (Prod.mk s.lock) (if_neg notMine))]
    have refused := CountedLock.Serves.refuse fun holds => other (h.stands.holder holds)
    exact .inr ⟨_, c, rfl, refused, h.elsewhere token (Ne.symm other) (by simp)⟩

theorem Shows.access (h : s.Shows c) (token : owner ≠ 0) (few : c.levels < 0x1_0000_0000)
    (opened : s.calls owner = some call) : Answers owner s c call.use (s.access owner) := by
  by_cases mine : s.lock.holder = owner
  · exact h.access_mine token few opened mine
  · exact h.access_other token opened mine

/-! ## Runs -/

/-- The calls that were made follow the rules of a counted lock, and so does the thread lock when it
serves them as whole calls; the words stand for the lock that results. -/
structure Refines (s : Contest) (c : CountedLock) : Prop where
  plays : CountedLock.Plays .free s.made c
  words : ThreadLock.Plays {} s.made c.words
  shown : s.Shows c

theorem refines_initial : Refines {} .free := ⟨.nil, .nil, shows_initial⟩

theorem Answers.refines {s' : Contest} (answers : Answers owner s c use s') (h : s.Refines c)
    (token : owner ≠ 0) (few : c.levels < 0x1_0000_0000) : ∃ c', s'.Refines c' := by
  obtain ⟨shown, made⟩ | ⟨answer, c', made, serves, shown⟩ := answers
  · exact ⟨c, made ▸ h.plays, made ▸ h.words, shown⟩
  · obtain ⟨ready, served⟩ := serves.serve_words token few
    exact ⟨c', made ▸ h.plays.concat serves, made ▸ h.words.concat ready served, shown⟩

theorem Refines.step {event : LockEvent} (h : s.Refines c) (token : event.owner ≠ 0)
    (few : c.levels < 0x1_0000_0000) : ∃ c', (s.step event).Refines c' := by
  cases event with
  | call owner use =>
    have answers : Answers owner s c use (s.begin owner use) :=
      .inl ⟨h.shown.begin token, by unfold Contest.begin; split <;> rfl⟩
    exact answers.refines h token few
  | access owner =>
    cases opened : s.calls owner with
    | none => exact ⟨c, by simpa [Contest.step, Contest.access, opened] using h⟩
    | some call => exact (h.shown.access token few opened).refines h token few

theorem made_prefix_step (s : Contest) (event : LockEvent) : s.made <+: (s.step event).made := by
  cases event with
  | call owner use =>
    simp only [step, begin]
    split <;> exact List.prefix_rfl
  | access owner =>
    simp only [step, access]
    split
    · exact List.prefix_rfl
    · split
      · exact List.prefix_rfl
      · exact List.prefix_append ..

theorem made_prefix_after (s : Contest) (events : List LockEvent) :
    s.made <+: (s.after events).made := by
  induction events generalizing s with
  | nil => exact List.prefix_rfl
  | cons event events ih => exact (s.made_prefix_step event).trans (ih (s.step event))

theorem Refines.after {events : List LockEvent} (h : s.Refines c)
    (tokens : ∀ event ∈ events, event.owner ≠ 0)
    (nesting : ∀ calls c, calls <+: (s.after events).made → CountedLock.Plays .free calls c →
      c.levels < 0x1_0000_0000) :
    ∃ c', (s.after events).Refines c' := by
  induction events generalizing s c with
  | nil => exact ⟨c, h⟩
  | cons event events ih =>
    -- what was made so far is a prefix of what will be made, so the bound holds now
    have few := nesting s.made c (s.made_prefix_after (event :: events)) h.plays
    obtain ⟨c', next⟩ := h.step (tokens event (by simp)) few
    exact ih next (fun later mem => tokens later (by simp [mem])) nesting

/-- An open call that need not wait for another holder can go on. -/
theorem Shows.admits (h : s.Shows c) (opened : s.calls owner = some call)
    (ready : s.lock.waits owner call.use = false) : s.lock.Admits owner call := by
  by_cases mine : s.lock.holder = owner
  · have stands := h.stands
    rw [mine, opened] at stands
    exact stands.admits mine
  · have free (unblocked : s.lock.blocks owner = false) : s.lock.isLocked = false := by
      simpa [ThreadLock.blocks, ThreadLock.isLockedBy, mine] using unblocked
    cases h.outside owner (Ne.symm mine) call opened with
    | @enter use enters =>
      cases use with
      | lock | wait => exact ready
      | unlock => exact absurd rfl enters
    | @spin use enters =>
      cases use with
      | lock | wait => exact free ready
      | unlock => exact absurd rfl enters
    | check => trivial

/-- However the owners interleave, the thread lock serves their calls as a counted lock, as long as
its levels can be told apart. While the holder is in no call the words are those of the counted
lock; an open call that need not wait returns if its owner goes on; and every sequence of whole
calls can follow once nobody is in a call. -/
theorem refines_counted {events : List LockEvent} (run : after {} events = s)
    (tokens : ∀ event ∈ events, event.owner ≠ 0)
    (nesting : ∀ calls c, calls <+: s.made → CountedLock.Plays .free calls c →
      c.levels < 0x1_0000_0000) :
    (∃ c, CountedLock.Plays .free s.made c ∧ ThreadLock.Plays {} s.made c.words ∧
      (∀ owner, c.holder? = some owner → s.lock.isLockedBy owner = true) ∧
      (s.calls s.lock.holder = none → s.lock = c.words)) ∧
    (∀ owner call, s.calls owner = some call → s.lock.waits owner call.use = false →
      ∃ accesses answer, (s.after (List.replicate accesses (.access owner))).made =
        s.made ++ [⟨owner, call.use, answer⟩]) ∧
    ((∀ owner, s.calls owner = none) → ∀ calls l, ThreadLock.Plays s.lock calls l →
      ∃ later, s.after later = { lock := l, calls := s.calls, made := s.made ++ calls }) := by
  subst run
  obtain ⟨c, plays, words, shown⟩ := refines_initial.after tokens nesting
  refine ⟨⟨c, plays, words, ?_, ?_⟩, ?_, fun closed calls l served => after_plays served closed⟩
  · intro owner holds
    simpa [ThreadLock.isLockedBy] using shown.stands.holder holds
  · intro closed
    have stands := shown.stands
    rw [closed] at stands
    exact stands.eq_words
  · intro owner call opened ready
    obtain ⟨answer, lock, finishes⟩ := (shown.admits opened ready).finishes
    obtain ⟨accesses, run⟩ := after_finishes finishes opened
    exact ⟨accesses, answer, by rw [run]⟩

/-- While 1 has the lock, twice, 2 tries to take it, which it can when 1 has given back both levels;
3 holds nothing to give back, and waits. -/
def contention : List LockEvent :=
  [.call 1 .lock, .access 1, .call 2 .lock, .access 2, .access 1, .access 2, .access 1,
    .call 1 .lock, .access 1, .access 1,
    .call 3 .unlock, .access 3,
    .call 1 .wait, .access 1, .access 1, .access 1,
    .call 1 .unlock, .access 1, .access 1,
    .call 1 .unlock, .access 1, .access 1, .access 2, .access 1,
    .access 2, .call 3 .wait, .access 3, .access 3, .access 2]

theorem refines_counted_contention :
    (after {} contention).made =
      [⟨1, .lock, some true⟩, ⟨1, .lock, some false⟩, ⟨3, .unlock, some false⟩, ⟨1, .wait, none⟩,
        ⟨1, .unlock, some true⟩, ⟨1, .unlock, some true⟩, ⟨2, .lock, some true⟩] ∧
    (after {} contention).lock = { holder := 2, depth := 1 } ∧
    ∃ c, CountedLock.Plays .free (after {} contention).made c ∧
      (after {} contention).lock = c.words := by
  refine ⟨by decide, by decide, ?_⟩
  have few : ∀ calls c, calls <+: (after {} contention).made → CountedLock.Plays .free calls c →
      c.levels < 0x1_0000_0000 := by
    intro calls c before plays
    have made : (after {} contention).made.length = 7 := by decide
    have calls_le := before.length_le
    have levels_le := plays.levels_le
    rw [CountedLock.levels] at levels_le
    omega
  obtain ⟨⟨c, plays, -, -, words⟩, -, -⟩ := refines_counted rfl (by decide) few
  exact ⟨c, plays, words (by decide)⟩

end Contest

end GuestExec
