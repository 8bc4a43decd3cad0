import GuestExec.Proofs.Word.Counter
import GuestExec.Thread.Shared

/-!
# Context caches are coherent

Whichever cache a thread is reached through, its registers are those that were
written last, by whatever path, as long as no stamp has come around. A slot may
lag behind its thread; it is never ahead of it, and where the stamps agree the
registers do (`Truthful`). A write of a thread makes all its slots lag, and a cache
only ever fills its slot with the thread as it is (`Current`). After 2^64 writes a
slot that was left behind passes for the thread again.
-/

namespace GuestExec

/-- The slot holds the thread as it is. -/
structure ContextSlot.Current (s : ContextSlot) (ref : ThreadRef) (t : GuestThread) : Prop where
  thread : s.thread = ref
  stamp : s.stamp = t.stamp
  regs : s.regs = t.stored

namespace ContextCache

variable {c c' : ContextCache} {ref other : ThreadRef} {t : GuestThread} {s : ContextSlot}

/-- The cache is not ahead of the thread, and where it is level with it they agree. -/
def Truthful (c : ContextCache) (ref : ThreadRef) (t : GuestThread) : Prop :=
  ∀ s, c.slot = some s → s.thread = ref →
    s.stamp.toNat ≤ t.stamp.toNat ∧ (s.stamp = t.stamp → s.regs = t.stored)

/-- After the operation the slot is what it was or holds the thread as it is. -/
def Refreshed (c : ContextCache) (ref : ThreadRef) (t : GuestThread) (c' : ContextCache) : Prop :=
  c'.slot = c.slot ∨ ∃ s, c'.slot = some s ∧ s.Current ref t

theorem fresh?_eq_some :
    c.fresh? ref t = some s ↔
      c.slot = some s ∧ s.threadId = t.id ∧ s.thread = ref ∧ s.stamp = t.stamp := by
  rw [fresh?, Option.filter_eq_some_iff, ContextSlot.isFresh, Bool.and_eq_true, Bool.and_eq_true,
    beq_iff_eq, beq_iff_eq, beq_iff_eq, and_assoc]

/-- A slot that passes for the thread holds its registers. -/
theorem Truthful.regs_of_fresh (truthful : c.Truthful ref t) (fresh : c.fresh? ref t = some s) :
    s.regs = t.stored := by
  obtain ⟨slot, -, thread, stamp⟩ := fresh?_eq_some.1 fresh
  exact (truthful s slot thread).2 stamp

theorem Truthful.get (truthful : c.Truthful ref t) :
    (c.get ref t).1 = t.stored ∧ c.Refreshed ref t (c.get ref t).2 := by
  unfold ContextCache.get
  split
  · rename_i s fresh
    exact ⟨truthful.regs_of_fresh fresh, .inl rfl⟩
  · exact ⟨rfl, .inl rfl⟩

/-- A thread is activated with the registers that it is read with. -/
theorem activate_eq_get (c : ContextCache) (ref : ThreadRef) (t : GuestThread) :
    (c.activate ref t).1 = (c.get ref t).1 := by
  unfold activate get
  split <;> rfl

theorem refreshed_activate (c : ContextCache) (ref : ThreadRef) (t : GuestThread) :
    c.Refreshed ref t (c.activate ref t).2 := by
  unfold activate
  split
  · exact .inl rfl
  · exact .inr ⟨_, rfl, rfl, rfl, rfl⟩

theorem Truthful.activate (truthful : c.Truthful ref t) :
    (c.activate ref t).1 = t.stored ∧ c.Refreshed ref t (c.activate ref t).2 :=
  ⟨(c.activate_eq_get ref t).trans truthful.get.1, c.refreshed_activate ref t⟩

theorem Truthful.update (truthful : c.Truthful ref t) (f : Registers → Registers) :
    (c.update ref t f).1 = t.stored ∧ (c.update ref t f).2.2 = t.store (f t.stored) ∧
      c.Refreshed ref (t.store (f t.stored)) (c.update ref t f).2.1 := by
  unfold ContextCache.update
  split
  · rename_i s fresh
    obtain ⟨-, -, thread, -⟩ := fresh?_eq_some.1 fresh
    rw [truthful.regs_of_fresh fresh]
    exact ⟨rfl, rfl, .inr ⟨_, rfl, thread, rfl, rfl⟩⟩
  · exact ⟨rfl, rfl, .inl rfl⟩

/-- A write leaves every slot of the thread behind. -/
theorem Truthful.store (truthful : c.Truthful ref t)
    (room : t.stamp.toNat + 1 < 0x1_0000_0000_0000_0000) (regs : Registers) :
    c.Truthful ref (t.store regs) := by
  intro s slot thread
  have le := (truthful s slot thread).1
  have stamp : (t.store regs).stamp.toNat = t.stamp.toNat + 1 := toNat_add_one room
  refine ⟨stamp ▸ Nat.le_succ_of_le le, fun level => ?_⟩
  rw [level, stamp] at le
  exact absurd le (Nat.not_succ_le_self _)

theorem Truthful.refreshed (truthful : c.Truthful ref t) (refreshed : c.Refreshed ref t c') :
    c'.Truthful ref t := by
  intro s slot thread
  rcases refreshed with same | ⟨new, there, current⟩
  · exact truthful s (same ▸ slot) thread
  · cases there.symm.trans slot
    exact ⟨Nat.le_of_eq (congrArg UInt64.toNat current.stamp), fun _ => current.regs⟩

/-- A slot of one thread says nothing of another. -/
theorem Truthful.refreshed_other {t' : GuestThread} (truthful : c.Truthful other t')
    (refreshed : c.Refreshed ref t c') (ne : other ≠ ref) : c'.Truthful other t' := by
  intro s slot thread
  rcases refreshed with same | ⟨new, there, current⟩
  · exact truthful s (same ▸ slot) thread
  · cases there.symm.trans slot
    exact absurd (thread.symm.trans current.thread) ne

end ContextCache

namespace SharedThreads

/-- Whatever threads and caches can be asked for. -/
inductive Call where
  | addThread (id : UInt64) (regs : Registers)
  | dropThread (thread : ThreadRef)
  | activate (cache : Nat) (thread : ThreadRef)
  | get (cache : Nat) (thread : ThreadRef)
  | set (cache : Nat) (thread : ThreadRef) (regs : Registers)
  | update (cache : Nat) (thread : ThreadRef) (f : Registers → Registers)
  | store (thread : ThreadRef) (regs : Registers)

/-- The thread that the call names. -/
def Call.thread? : Call → Option ThreadRef
  | .addThread _ _ => none
  | .dropThread i | .activate _ i | .get _ i | .set _ i _ | .update _ i _ | .store i _ => some i

/-- The call writes registers. -/
def Call.writes : Call → Bool
  | .set _ _ _ | .update _ _ _ | .store _ _ => true
  | .addThread _ _ | .dropThread _ | .activate _ _ | .get _ _ => false

/-- A call for a thread that is gone changes nothing. -/
def apply (s : SharedThreads) : Call → SharedThreads
  | .addThread id regs => (s.addThread id regs).2
  | .dropThread i => (s.dropThread i).2
  | .activate cache i => ((s.activate cache i).map (·.2)).getD s
  | .get cache i => ((s.get cache i).map (·.2)).getD s
  | .set cache i regs => ((s.set cache i regs).map (·.2)).getD s
  | .update cache i f => ((s.update cache i f).map (·.2)).getD s
  | .store i regs => ((s.store i regs).map (·.2)).getD s

/-- Threads and caches after `calls`, made one after the other. -/
def after (calls : List Call) : SharedThreads := calls.foldl apply {}

/-- What a call writes, as if there were no caches. -/
def note (last : Roster Registers) : Call → Roster Registers
  | .addThread _ regs => (last.add regs).2
  | .dropThread i => last.drop i
  | .activate _ _ | .get _ _ => last
  | .set _ i regs | .store i regs => last.modify i fun _ => regs
  | .update _ i f => last.modify i f

/-- The registers that were written last, thread by thread. -/
def lastWritten (calls : List Call) : Roster Registers := calls.foldl note {}

variable {s : SharedThreads} {last : Roster Registers} {n : Nat} {cache : Nat} {i : ThreadRef}
  {t : GuestThread} {c : ContextCache} {calls : List Call} {call : Call}

/-- After `n` writes threads hold what was written last, and no cache says otherwise. -/
structure Reflects (s : SharedThreads) (last : Roster Registers) (n : Nat) : Prop where
  size : s.threads.members.size = last.members.size
  stored : ∀ i, (s.threads.get? i).map (·.stored) = last.get? i
  truthful : ∀ cache {i t}, s.threads.get? i = some t → (s.caches cache).Truthful i t
  /-- No cache knows of threads to come. -/
  known : ∀ cache {slot}, (s.caches cache).slot = some slot →
    slot.thread < s.threads.members.size
  stamps : ∀ {i t}, s.threads.get? i = some t → t.stamp.toNat ≤ n

theorem Reflects.stored_eq (r : s.Reflects last n) (there : s.threads.get? i = some t) :
    last.get? i = some t.stored := by
  rw [← r.stored, there, Option.map_some]

/-! ## What a call changes -/

theorem reflects_empty : ({} : SharedThreads).Reflects {} 0 := by
  refine ⟨rfl, fun i => rfl, fun cache {i t} there => ?_, fun cache {slot} h => ?_,
    fun {i t} there => ?_⟩
  · cases there
  · cases h
  · cases there

/-- One cache refreshed its slot. -/
theorem Reflects.setCache (r : s.Reflects last n) (there : s.threads.get? i = some t)
    (refreshed : (s.caches cache).Refreshed i t c) : (s.setCache cache c).Reflects last n := by
  refine ⟨r.size, r.stored, fun k {j t'} member => ?_, fun k {slot} h => ?_, r.stamps⟩
  · show (if k = cache then c else s.caches k).Truthful j t'
    split
    · by_cases same : j = i
      · subst same
        cases there.symm.trans member
        exact (r.truthful cache there).refreshed refreshed
      · exact (r.truthful cache member).refreshed_other refreshed same
    · exact r.truthful k member
  · change (if k = cache then c else s.caches k).slot = some slot at h
    split at h
    · rcases refreshed with same | ⟨new, filled, current⟩
      · exact r.known cache (same ▸ h)
      · cases filled.symm.trans h
        rw [current.thread]
        exact Roster.lt_of_get? there
    · exact r.known k h

/-- One thread was written. -/
theorem Reflects.setThread (r : s.Reflects last n) (there : s.threads.get? i = some t)
    (room : n + 1 < 0x1_0000_0000_0000_0000) (regs : Registers) :
    (s.setThread i (t.store regs)).Reflects (last.set i regs) (n + 1) := by
  have room : t.stamp.toNat + 1 < 0x1_0000_0000_0000_0000 :=
    Nat.lt_of_le_of_lt (Nat.succ_le_succ (r.stamps there)) room
  have lookup : ∀ j, (s.threads.set i (t.store regs)).get? j =
      if j = i then some (t.store regs) else s.threads.get? j :=
    fun j => Roster.get?_set_of_get? there
  refine ⟨?_, fun j => ?_, fun k {j t'} member => ?_, fun k {slot} h => ?_,
    fun {j t'} member => ?_⟩
  · simpa [SharedThreads.setThread] using r.size
  · show ((s.threads.set i (t.store regs)).get? j).map (·.stored) = _
    rw [lookup, Roster.get?_set_of_get? (r.stored_eq there)]
    split
    · rfl
    · exact r.stored j
  · change (s.threads.set i (t.store regs)).get? j = some t' at member
    rw [lookup] at member
    split at member
    · rename_i here
      subst here
      cases member
      exact (r.truthful k there).store room regs
    · exact r.truthful k member
  · simpa [SharedThreads.setThread] using r.known k h
  · change (s.threads.set i (t.store regs)).get? j = some t' at member
    rw [lookup] at member
    split at member
    · cases member
      exact Nat.le_trans (Nat.le_of_eq (toNat_add_one room)) (Nat.succ_le_succ (r.stamps there))
    · exact Nat.le_succ_of_le (r.stamps member)

theorem Reflects.addThread (r : s.Reflects last n) (id : UInt64) (regs : Registers) :
    (s.addThread id regs).2.Reflects (last.add regs).2 n := by
  refine ⟨?_, fun j => ?_, fun k {j t'} member => ?_, fun k {slot} h => ?_,
    fun {j t'} member => ?_⟩
  · simpa [SharedThreads.addThread] using r.size
  · show ((s.threads.add (.new id regs)).2.get? j).map (·.stored) = _
    rw [Roster.get?_add, Roster.get?_add]
    have same : (s.threads.add (.new id regs)).1 = (last.add regs).1 := r.size
    rw [same]
    split
    · rfl
    · exact r.stored j
  · change (s.threads.add (.new id regs)).2.get? j = some t' at member
    rw [Roster.get?_add] at member
    split at member
    · rename_i here
      -- No slot is of the new thread.
      intro slot filled thread
      have lt := r.known k filled
      rw [thread, here] at lt
      exact absurd lt (Nat.lt_irrefl _)
    · exact r.truthful k member
  · have lt := r.known k h
    show slot.thread < (s.threads.add (.new id regs)).2.members.size
    rw [Roster.size_add]
    exact Nat.lt_succ_of_lt lt
  · change (s.threads.add (.new id regs)).2.get? j = some t' at member
    rw [Roster.get?_add] at member
    split at member
    · cases member
      exact Nat.zero_le n
    · exact r.stamps member

theorem Reflects.dropThread (r : s.Reflects last n) (i : ThreadRef) :
    (s.dropThread i).2.Reflects (last.drop i) n := by
  have left : ∀ {j t'}, (s.threads.drop i).get? j = some t' → s.threads.get? j = some t' := by
    intro j t' member
    rw [Roster.get?_drop] at member
    split at member
    · cases member
    · exact member
  refine ⟨?_, fun j => ?_, fun k {j t'} member => r.truthful k (left member), fun k {slot} h => ?_,
    fun member => r.stamps (left member)⟩
  · simpa [SharedThreads.dropThread] using r.size
  · show ((s.threads.drop i).get? j).map (·.stored) = _
    rw [Roster.get?_drop, Roster.get?_drop]
    split
    · rfl
    · exact r.stored j
  · simpa [SharedThreads.dropThread] using r.known k h

/-! ## Calls by number -/

theorem Reflects.get (r : s.Reflects last n) (cache : Nat) (i : ThreadRef) :
    (s.get cache i).map (·.1) = last.get? i ∧ (s.apply (.get cache i)).Reflects last n := by
  cases there : s.threads.get? i with
  | none =>
    simp only [apply, SharedThreads.get, ← r.stored, there]
    exact ⟨rfl, r⟩
  | some t =>
    obtain ⟨regs, refreshed⟩ := (r.truthful cache there).get
    simp only [apply, SharedThreads.get, ← r.stored, there]
    exact ⟨congrArg some regs, r.setCache there refreshed⟩

theorem Reflects.activate (r : s.Reflects last n) (cache : Nat) (i : ThreadRef) :
    (s.activate cache i).map (·.1) = last.get? i ∧
      (s.apply (.activate cache i)).Reflects last n := by
  cases there : s.threads.get? i with
  | none =>
    simp only [apply, SharedThreads.activate, ← r.stored, there]
    exact ⟨rfl, r⟩
  | some t =>
    obtain ⟨regs, refreshed⟩ := (r.truthful cache there).activate
    simp only [apply, SharedThreads.activate, ← r.stored, there]
    exact ⟨congrArg some regs, r.setCache there refreshed⟩

theorem modify_of_none {regs : Roster Registers} (gone : regs.get? i = none)
    (f : Registers → Registers) : regs.modify i f = regs := by
  rw [Roster.modify, gone]

theorem Reflects.mono {k : Nat} (r : s.Reflects last n) (le : n ≤ k) : s.Reflects last k :=
  { r with stamps := fun there => Nat.le_trans (r.stamps there) le }

/-- What an update is given does not hang on the room for its write. -/
theorem Reflects.update_eq (r : s.Reflects last n) (cache : Nat) (i : ThreadRef)
    (f : Registers → Registers) : (s.update cache i f).map (·.1) = last.get? i := by
  cases there : s.threads.get? i with
  | none =>
    simp only [SharedThreads.update, ← r.stored, there]
    rfl
  | some t =>
    simp only [SharedThreads.update, ← r.stored, there]
    exact congrArg some ((r.truthful cache there).update f).1

theorem Reflects.update (r : s.Reflects last n) (room : n + 1 < 0x1_0000_0000_0000_0000)
    (cache : Nat) (i : ThreadRef) (f : Registers → Registers) :
    (s.apply (.update cache i f)).Reflects (last.modify i f) (n + 1) := by
  cases there : s.threads.get? i with
  | none =>
    have gone : last.get? i = none := by rw [← r.stored, there, Option.map_none]
    simp only [apply, SharedThreads.update, there, modify_of_none gone f]
    exact r.mono (Nat.le_succ n)
  | some t =>
    obtain ⟨-, written, refreshed⟩ := (r.truthful cache there).update f
    have stored := r.setThread there room (f t.stored)
    have member : (s.setThread i (t.store (f t.stored))).threads.get? i =
        some (t.store (f t.stored)) := Roster.get?_set_self there _
    simp only [apply, SharedThreads.update, there, r.stored_eq there, Roster.modify]
    have step := stored.setCache member refreshed
    rw [← written] at step
    exact step

theorem Reflects.store (r : s.Reflects last n) (room : n + 1 < 0x1_0000_0000_0000_0000)
    (i : ThreadRef) (regs : Registers) :
    (s.apply (.store i regs)).Reflects (last.modify i fun _ => regs) (n + 1) := by
  cases there : s.threads.get? i with
  | none =>
    have gone : last.get? i = none := by rw [← r.stored, there, Option.map_none]
    simp only [apply, SharedThreads.store, there, modify_of_none gone]
    exact r.mono (Nat.le_succ n)
  | some t =>
    simp only [apply, SharedThreads.store, there, r.stored_eq there, Roster.modify]
    exact r.setThread there room regs

/-- Overwriting is changing to a constant. -/
theorem apply_set (s : SharedThreads) (cache : Nat) (i : ThreadRef) (regs : Registers) :
    s.apply (.set cache i regs) = s.apply (.update cache i fun _ => regs) := by
  simp only [apply, SharedThreads.set, SharedThreads.update, ContextCache.set]
  cases s.threads.get? i <;> rfl

/-! ## Sequences of calls -/

theorem Reflects.apply (r : s.Reflects last n) (call : Call)
    (room : n + (if call.writes then 1 else 0) < 0x1_0000_0000_0000_0000) :
    (s.apply call).Reflects (note last call) (n + if call.writes then 1 else 0) := by
  cases call with
  | addThread id regs => exact r.addThread id regs
  | dropThread i => exact r.dropThread i
  | activate cache i => exact (r.activate cache i).2
  | get cache i => exact (r.get cache i).2
  | set cache i regs =>
    rw [apply_set]
    exact r.update room cache i fun _ => regs
  | update cache i f => exact r.update room cache i f
  | store i regs => exact r.store room i regs

theorem Reflects.foldl (r : s.Reflects last n) (calls : List Call)
    (room : n + calls.countP Call.writes < 0x1_0000_0000_0000_0000) :
    (calls.foldl SharedThreads.apply s).Reflects (calls.foldl note last)
      (n + calls.countP Call.writes) := by
  induction calls generalizing s last n with
  | nil => exact r
  | cons call rest ih =>
    have count : n + (call :: rest).countP Call.writes =
        n + (if call.writes then 1 else 0) + rest.countP Call.writes := by
      rw [List.countP_cons, Nat.add_assoc, Nat.add_comm (rest.countP _)]
    rw [count] at room ⊢
    exact ih (r.apply call (Nat.lt_of_le_of_lt (Nat.le_add_right _ _) room)) room

theorem reflects_after (few : calls.countP Call.writes < 0x1_0000_0000_0000_0000) :
    (after calls).Reflects (lastWritten calls) (calls.countP Call.writes) := by
  have r := reflects_empty.foldl calls ((Nat.zero_add _).symm ▸ few)
  rw [Nat.zero_add] at r
  exact r

theorem get?_setThread_of_ne {j : ThreadRef} {old : GuestThread}
    (found : s.threads.get? j = some old) (ne : i ≠ j) (t : GuestThread) :
    (s.setThread j t).threads.get? i = s.threads.get? i := by
  rw [setThread, Roster.get?_set_of_get? found, if_neg ne]

theorem get?_update_of_ne {j : ThreadRef} {f : Registers → Registers} (ne : i ≠ j) :
    (s.apply (.update cache j f)).threads.get? i = s.threads.get? i := by
  simp only [apply, SharedThreads.update]
  cases found : s.threads.get? j with
  | none => rfl
  | some old => exact get?_setThread_of_ne found ne _

/-- A call leaves alone the threads that it does not name. -/
theorem get?_apply (there : s.threads.get? i = some t) (other : call.thread? ≠ some i) :
    (s.apply call).threads.get? i = some t := by
  have ne : ∀ {j}, call.thread? = some j → i ≠ j := fun named same => other (same ▸ named)
  cases call with
  | addThread id regs =>
    show (s.threads.add (.new id regs)).2.get? i = some t
    rw [Roster.get?_add, if_neg]
    · exact there
    · exact Nat.ne_of_lt (Roster.lt_of_get? there)
  | dropThread j =>
    show (s.threads.drop j).get? i = some t
    rw [Roster.get?_drop, if_neg (ne rfl)]
    exact there
  | activate cache j =>
    simp only [apply, SharedThreads.activate]
    cases s.threads.get? j <;> exact there
  | get cache j =>
    simp only [apply, SharedThreads.get]
    cases s.threads.get? j <;> exact there
  | set cache j regs =>
    rw [apply_set, get?_update_of_ne (ne rfl)]
    exact there
  | update cache j f =>
    rw [get?_update_of_ne (ne rfl)]
    exact there
  | store j regs =>
    simp only [apply, SharedThreads.store]
    cases found : s.threads.get? j with
    | none => exact there
    | some old => exact (get?_setThread_of_ne found (ne rfl) _).trans there

/-- A call leaves alone all threads but the one that it names. In less than 2^64 writes each thread
has the registers that were written to it last, and through whichever cache it is read, activated or
updated, these are the registers that are seen. -/
theorem reads_lastWritten (calls : List Call) (i : ThreadRef) :
    (calls.countP Call.writes < 0x1_0000_0000_0000_0000 →
      ((after calls).threads.get? i).map (·.stored) = (lastWritten calls).get? i ∧
        (∀ cache, ((after calls).get cache i).map (·.1) = (lastWritten calls).get? i) ∧
        (∀ cache, ((after calls).activate cache i).map (·.1) = (lastWritten calls).get? i) ∧
        ∀ cache f, ((after calls).update cache i f).map (·.1) = (lastWritten calls).get? i) ∧
      ∀ call t, (after calls).threads.get? i = some t → call.thread? ≠ some i →
        ((after calls).apply call).threads.get? i = some t := by
  refine ⟨fun few => ?_, fun call t there other => get?_apply there other⟩
  have r := reflects_after few
  exact ⟨r.stored i, fun cache => (r.get cache i).1, fun cache => (r.activate cache i).1,
    fun cache f => r.update_eq cache i f⟩

/-- Two threads with one id; the first is written through one cache while the other cache still
holds it as it was, and then past both. -/
def migrationCalls : List Call :=
  [.addThread 7 .zero, .addThread 7 { Registers.zero with pc := 0x2000 }, .activate 0 0,
    .activate 1 0, .update 1 0 fun r => { r with pc := r.pc + 4 },
    .store 0 { Registers.zero with sp := 0x8000 }, .update 0 0 fun r => { r with pc := r.pc + 8 }]

theorem reads_lastWritten_migration :
    migrationCalls.countP Call.writes < 0x1_0000_0000_0000_0000 ∧
      (∀ cache, ((after migrationCalls).get cache 0).map (·.1) =
        some { Registers.zero with sp := 0x8000, pc := 8 }) ∧
      (∀ cache, ((after migrationCalls).activate cache 1).map (·.1) =
        some { Registers.zero with pc := 0x2000 }) ∧
      ((after migrationCalls).apply (.store 1 .zero)).threads.get? 0 =
        (after migrationCalls).threads.get? 0 := by
  have few : migrationCalls.countP Call.writes < 0x1_0000_0000_0000_0000 := by decide +kernel
  obtain ⟨seen, frame⟩ := reads_lastWritten migrationCalls 0
  obtain ⟨-, gets, -, -⟩ := seen few
  obtain ⟨-, -, activates, -⟩ := (reads_lastWritten migrationCalls 1).1 few
  refine ⟨few, fun cache => (gets cache).trans (by decide +kernel),
    fun cache => (activates cache).trans (by decide +kernel), ?_⟩
  obtain ⟨t, there⟩ : ∃ t, (after migrationCalls).threads.get? 0 = some t :=
    Option.isSome_iff_exists.1 (by decide +kernel)
  exact (frame (.store 1 .zero) t there (by decide)).trans there.symm

/-! ## When a stamp comes around -/

theorem after_append (calls more : List Call) :
    after (calls ++ more) = more.foldl SharedThreads.apply (after calls) :=
  List.foldl_append

/-- Stores past the caches change the one thread only. -/
theorem foldl_store (there : s.threads.get? i = some t) (regs : Registers) (n : Nat) :
    ((List.replicate n (.store i regs)).foldl SharedThreads.apply s).caches = s.caches ∧
      ∃ t', ((List.replicate n (.store i regs)).foldl SharedThreads.apply s).threads.get? i =
        some t' ∧ t'.id = t.id ∧ t'.stamp = t.stamp + UInt64.ofNat n := by
  induction n with
  | zero => exact ⟨rfl, t, there, rfl, (UInt64.add_zero _).symm⟩
  | succ n ih =>
    obtain ⟨caches, t', now, id, stamp⟩ := ih
    rw [List.replicate_succ', List.foldl_append]
    generalize (List.replicate n (Call.store i regs)).foldl SharedThreads.apply s = s' at caches now
    have written : s'.apply (.store i regs) = s'.setThread i (t'.store regs) := by
      simp only [apply, SharedThreads.store, now]
      rfl
    rw [List.foldl_cons, List.foldl_nil, written]
    refine ⟨caches, t'.store regs, Roster.get?_set_self now _, id, ?_⟩
    rw [add_ofNat_succ, ← stamp]
    rfl

/-- The last of them is what was written last. -/
theorem get?_note_store (there : (last.get? i).isSome = true) (regs : Registers) (n : Nat) :
    ((List.replicate (n + 1) (.store i regs)).foldl note last).get? i = some regs := by
  have once : ∀ {last' : Roster Registers}, (last'.get? i).isSome = true →
      (note last' (.store i regs)).get? i = some regs := by
    intro last' there'
    obtain ⟨old, found⟩ := Option.isSome_iff_exists.1 there'
    rw [note, Roster.get?_modify, if_pos rfl, found, Option.map_some]
  induction n with
  | zero => exact once there
  | succ n ih =>
    rw [List.replicate_succ', List.foldl_append]
    exact once (by rw [ih, Option.isSome_some])

/-- A thread that one cache holds as it was made. -/
def heldByOne : List Call := [.addThread 7 .zero, .activate 0 0]

/-- Other registers, which are then written past the cache. -/
def elsewhere : Registers := { Registers.zero with pc := 0x2000 }

/-- As many writes as it takes for the stamp to come around. -/
def aroundTheStamp : List Call :=
  heldByOne ++ List.replicate 0x1_0000_0000_0000_0000 (.store 0 elsewhere)

/-- After 2^64 writes the cache takes what it holds for the thread's registers. -/
theorem not_reads_lastWritten_aroundTheStamp :
    ((after aroundTheStamp).get 0 0).map (·.1) = some .zero ∧
      (lastWritten aroundTheStamp).get? 0 = some elsewhere ∧ Registers.zero ≠ elsewhere := by
  have there : (after heldByOne).threads.get? 0 = some (.new 7 .zero) := by decide +kernel
  have held : ((after heldByOne).caches 0).slot =
      some { thread := 0, threadId := 7, stamp := 0, regs := .zero } := by decide +kernel
  obtain ⟨caches, t', now, id, stamp⟩ :=
    foldl_store there elsewhere 0x1_0000_0000_0000_0000
  rw [← after_append, ← aroundTheStamp] at caches now
  have back : t'.stamp = 0 := stamp.trans (add_ofNat_size 0)
  have fresh : ((after aroundTheStamp).caches 0).fresh? 0 t' =
      some { thread := 0, threadId := 7, stamp := 0, regs := .zero } := by
    rw [caches]
    exact ContextCache.fresh?_eq_some.2 ⟨held, id.symm, rfl, back.symm⟩
  refine ⟨?_, ?_, by decide⟩
  · rw [SharedThreads.get, now, Option.bind_eq_bind, Option.bind_some, ContextCache.get, fresh]
    rfl
  · rw [aroundTheStamp, lastWritten, List.foldl_append]
    exact get?_note_store (by decide +kernel) elsewhere 0xffff_ffff_ffff_ffff

end SharedThreads

end GuestExec
