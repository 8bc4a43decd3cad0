import GuestExec.Proofs.Tlb.Insertion
import GuestExec.Proofs.Tlb.Invalidation

/-!
# The books of a TLB balance

Every insertion either renews an entry where it is or fills a place, and every entry that is no
longer there was evicted, contradicted or invalidated. So the insertions are the valid entries and
what is counted as gone, over any history. What one call adds to the books is `Entered`; the rest is
addition. No figure exceeds the number of calls, so words of 64 bits hold them all, and the clock,
which is one, shows the lookups and the insertions.
-/

namespace GuestExec.Tlb

namespace Call

def isLookup : Call → Bool
  | .lookup _ => true
  | _ => false

/-- The call inserts a translation that is not empty. -/
def inserts : Call → Bool
  | .insert x => decide (x.size ≠ 0)
  | _ => false

def isInvalidation : Call → Bool
  | .invalidateAll | .invalidateRange _ _ => true
  | _ => false

/-- How many entries the call renews where they are: an insertion finds them in its set, with its
own bases and not contradicted. -/
noncomputable def renewals (t : Tlb) : Call → Nat
  | .insert x =>
    if x.size = 0 then 0
    else {p | p.1 = setIndex x.guest ∧ x.SameBases (t.entryAt p) ∧
      ¬x.Contradicts (t.entryAt p)}.ncard
  | _ => 0

/-- How many entries an invalidation takes away. -/
noncomputable def losses (t : Tlb) (call : Call) : Nat :=
  if call.isInvalidation then
    {p | (t.entryAt p).valid = true ∧ ((t.apply call).entryAt p).valid = false}.ncard
  else 0

end Call

/-- A figure for each call and the TLB that it meets, summed up over calls made one after the other
on `t`. -/
def total (figure : Tlb → Call → Nat) (t : Tlb) : List Call → Nat
  | [] => 0
  | call :: rest => figure t call + total figure (t.apply call) rest

/-- The books of the TLB after `calls`. -/
structure Accounted (calls : List Call) : Prop where
  lookups : (after calls).stats.lookups = calls.countP Call.isLookup
  inserts : (after calls).stats.inserts = calls.countP Call.inserts
  flushes : (after calls).stats.flushes = calls.countP Call.isInvalidation
  answered : (after calls).stats.lookups = (after calls).stats.hits + (after calls).stats.misses
  clock : (after calls).clock =
    UInt64.ofNat ((after calls).stats.lookups + (after calls).stats.inserts)
  entries : (after calls).stats.inserts = (after calls).validEntries.length +
    (after calls).stats.evictions + (after calls).stats.conflicts +
    total Call.renewals empty calls + total Call.losses empty calls
  used : ∀ e ∈ (after calls).validEntries, 1 ≤ e.count.toNat

/-- All that a TLB counts. -/
def figures (t : Tlb) : List Nat :=
  [t.clock.toNat, t.stats.lookups, t.stats.hits, t.stats.misses, t.stats.inserts, t.stats.evictions,
    t.stats.conflicts, t.stats.flushes]

variable {t t' : Tlb} {x : Translation} {e : Entry} {p : Place} {f g : Place → Entry}
  {figure : Tlb → Call → Nat} {call : Call} {calls : List Call}

theorem total_concat (t : Tlb) (calls : List Call) (call : Call) :
    total figure t (calls ++ [call]) =
      total figure t calls + figure (calls.foldl apply t) call := by
  induction calls generalizing t with
  | nil => simp [total]
  | cons first rest ih => rw [List.cons_append, total, total, ih, List.foldl_cons, Nat.add_assoc]

/-! ## Valid entries -/

/-- The number of valid entries. -/
noncomputable def held (entries : Place → Entry) : Nat := {p | (entries p).valid = true}.ncard

/-- Every valid entry was accessed. -/
def Used (entries : Place → Entry) : Prop :=
  ∀ p, (entries p).valid = true → 1 ≤ (entries p).count.toNat

theorem length_validEntries (t : Tlb) : t.validEntries.length = held t.entryAt := by
  rw [validEntries, ← List.countP_eq_length_filter, countP_slots]
  rfl

theorem used_iff (t : Tlb) : Used t.entryAt ↔ ∀ e ∈ t.validEntries, 1 ≤ e.count.toNat := by
  constructor
  · intro used e mem
    obtain ⟨slot, valid⟩ := List.mem_filter.1 mem
    obtain ⟨i, has⟩ := mem_slots.1 slot
    obtain ⟨way, rfl⟩ := has_iff.1 has
    exact used (i, way) valid
  · intro used p valid
    exact used _ (List.mem_filter.2 ⟨mem_slots.2 ⟨p.1, has_entryAt t p⟩, valid⟩)

/-- What is valid was so before, with no more accesses. -/
theorem Used.mono (used : Used f)
    (older : ∀ p, (g p).valid = true → (f p).valid = true ∧ (f p).count ≤ (g p).count) :
    Used g := by
  intro p valid
  obtain ⟨old, le⟩ := older p valid
  exact Nat.le_trans (used p old) (UInt32.le_iff_toNat_le.1 le)

theorem Used.update (used : Used f) (counted : 1 ≤ e.count.toNat) :
    Used (Function.update f p e) := by
  intro q valid
  rw [Function.update_apply] at valid ⊢
  split
  · exact counted
  · rename_i ne
    rw [if_neg ne] at valid
    exact used q valid

/-- A place that is filled adds an entry, unless it takes the place of another one. -/
theorem held_update (f : Place → Entry) (p : Place) (valid : e.valid = true) :
    held (Function.update f p e) + (if (f p).valid = true then 1 else 0) = held f + 1 := by
  have filled : {q | (Function.update f p e q).valid = true} =
      Insert.insert p {q | (f q).valid = true} := by
    ext q
    by_cases here : q = p
    · subst here
      simp [valid]
    · simp [here]
  rw [held, filled, held]
  split
  · rename_i old
    rw [Set.insert_eq_of_mem (by exact old)]
  · rename_i free
    rw [Set.ncard_insert_of_notMem (by exact free)]

/-- Entries that become invalid are missing from then on. -/
theorem held_add_lost (fewer : ∀ p, (g p).valid = true → (f p).valid = true) :
    held g + {p | (f p).valid = true ∧ (g p).valid = false}.ncard = held f := by
  have lost : {p | (f p).valid = true ∧ (g p).valid = false} =
      {p | (f p).valid = true} \ {p | (g p).valid = true} := by
    ext p
    simp
  rw [held, held, lost, Nat.add_comm]
  exact Set.ncard_sdiff_add_ncard_of_subset fewer

/-! ## One call -/

/-- What the call adds to the books of `t`, which are those of `t'` afterwards. -/
structure Entered (t : Tlb) (call : Call) (t' : Tlb) : Prop where
  lookups : t'.stats.lookups = t.stats.lookups + if call.isLookup then 1 else 0
  inserts : t'.stats.inserts = t.stats.inserts + if call.inserts then 1 else 0
  flushes : t'.stats.flushes = t.stats.flushes + if call.isInvalidation then 1 else 0
  answered : t'.stats.hits + t'.stats.misses =
    t.stats.hits + t.stats.misses + if call.isLookup then 1 else 0
  clock : t'.clock = t.clock +
    UInt64.ofNat ((if call.isLookup then 1 else 0) + if call.inserts then 1 else 0)
  entries : held t'.entryAt + t'.stats.evictions + t'.stats.conflicts + call.renewals t +
    call.losses t =
      held t.entryAt + t.stats.evictions + t.stats.conflicts + if call.inserts then 1 else 0
  used : Used t.entryAt → Used t'.entryAt

/-- A lookup touches one valid entry at most. -/
theorem entryAt_lookup (t : Tlb) (a : GuestAddr) :
    (t.lookup a).2.entryAt = t.entryAt ∨
      ∃ p, (t.entryAt p).valid = true ∧ (t.lookup a).2.entryAt =
        Function.update t.entryAt p ((t.entryAt p).touch (t.clock + 1).toNat) := by
  rcases lookup_sets t a with same | ⟨k, e, there, valid, sets⟩
  · exact .inl (entryAt_congr same)
  · obtain ⟨way, rfl⟩ : ∃ way : Fin 8, way.val = k := ⟨⟨k, lt_of_getElem?_ways there⟩, rfl⟩
    rw [getElem?_ways] at there
    obtain rfl := Option.some.inj there
    refine .inr ⟨_, valid, ?_⟩
    rw [entryAt_congr sets, entryAt_setWay]

theorem Entry.one_le_count_touch (e : Entry) (now : Nat) : 1 ≤ (e.touch now).count.toNat := by
  rw [touch]
  split
  · rename_i full
    rw [full]
    decide
  · rename_i room
    have lt : e.count.toNat < 0xffffffff := by
      have bound := e.count.toNat_lt
      have ne : e.count.toNat ≠ 0xffffffff := fun eq => room (UInt32.toNat_inj.1 eq)
      omega
    show 1 ≤ (e.count + 1).toNat
    rw [UInt32.toNat_add, UInt32.toNat_one, Nat.mod_eq_of_lt (by omega)]
    omega

theorem stats_lookup (t : Tlb) (a : GuestAddr) :
    (t.lookup a).2.stats =
        { t.stats with lookups := t.stats.lookups + 1, hits := t.stats.hits + 1 } ∨
      (t.lookup a).2.stats =
        { t.stats with lookups := t.stats.lookups + 1, misses := t.stats.misses + 1 } := by
  simp only [lookup]
  split
  · exact .inl rfl
  · exact .inr rfl

theorem entered_lookup (t : Tlb) (a : GuestAddr) : t.Entered (.lookup a) (t.lookup a).2 := by
  have entries : held (t.lookup a).2.entryAt = held t.entryAt := by
    rcases entryAt_lookup t a with same | ⟨p, valid, touched⟩
    · rw [same]
    · have filled := held_update t.entryAt p (e := (t.entryAt p).touch (t.clock + 1).toNat) valid
      rw [if_pos valid] at filled
      rw [touched]
      exact Nat.add_right_cancel filled
  have used : Used t.entryAt → Used (t.lookup a).2.entryAt := by
    intro used
    rcases entryAt_lookup t a with same | ⟨p, -, touched⟩
    · rw [same]
      exact used
    · rw [touched]
      exact used.update ((t.entryAt p).one_le_count_touch _)
  rcases stats_lookup t a with hit | missed
  · constructor
    case clock => exact clock_lookup t a
    case used => exact used
    case answered =>
      rw [hit]
      exact Nat.add_right_comm _ _ _
    case entries =>
      rw [hit, entries]
      rfl
    all_goals
      rw [hit]
      rfl
  · constructor
    case clock => exact clock_lookup t a
    case used => exact used
    case entries =>
      rw [missed, entries]
      rfl
    all_goals
      rw [missed]
      rfl

/-! ### Insertions -/

theorem Spared.held_add (s : t.Spared x f) :
    held f + {p | x.Contradicts (t.entryAt p)}.ncard = held t.entryAt := by
  have lost : {p | (t.entryAt p).valid = true ∧ (f p).valid = false} =
      {p | x.Contradicts (t.entryAt p)} := by
    ext p
    rw [Set.mem_ofPred_eq, Set.mem_ofPred_eq]
    constructor
    · rintro ⟨valid, dropped⟩
      by_contra spared
      rw [s.kept p spared, valid] at dropped
      cases dropped
    · intro contradicts
      rw [s.dropped p contradicts]
      exact ⟨contradicts.valid, rfl⟩
  rw [← lost]
  refine held_add_lost fun p valid => ?_
  by_cases contradicts : x.Contradicts (t.entryAt p)
  · exact contradicts.valid
  · rw [← s.kept p contradicts]
    exact valid

theorem Spared.used (s : t.Spared x f) (used : Used t.entryAt) : Used f := by
  refine used.mono fun p valid => ?_
  by_cases contradicts : x.Contradicts (t.entryAt p)
  · rw [s.dropped p contradicts] at valid
    cases valid
  · rw [s.kept p contradicts] at valid ⊢
    exact ⟨valid, UInt32.le_refl _⟩

/-- What is left with the bases of `x` was there before, and `x` does not contradict it. -/
theorem Spared.sameBases_iff (s : t.Spared x f) (p : Place) :
    x.SameBases (f p) ↔ x.SameBases (t.entryAt p) ∧ ¬x.Contradicts (t.entryAt p) := by
  by_cases contradicts : x.Contradicts (t.entryAt p)
  · rw [s.dropped p contradicts]
    refine ⟨fun same => ?_, fun same => absurd contradicts same.2⟩
    cases same.valid
  · rw [s.kept p contradicts]
    exact ⟨fun same => ⟨same, contradicts⟩, And.left⟩

theorem renewals_insert (pos : x.size ≠ 0) (s : t.Spared x f) :
    (Call.insert x).renewals t = {p | p.1 = setIndex x.guest ∧ x.SameBases (f p)}.ncard := by
  rw [Call.renewals, if_neg pos]
  congr 1
  ext p
  rw [Set.mem_ofPred_eq, Set.mem_ofPred_eq, s.sameBases_iff]

/-- The books of an insertion, once it is known how many entries it evicts and renews. -/
theorem Inserted.entered (i : t.Inserted x f t') (pos : x.size ≠ 0) (evicted : Nat)
    (stats : t'.stats = { t.stats with
      inserts := t.stats.inserts + 1
      conflicts := t.stats.conflicts + {p | x.Contradicts (t.entryAt p)}.ncard
      evictions := t.stats.evictions + evicted })
    (entries : held t'.entryAt + evicted + (Call.insert x).renewals t = held f + 1)
    (used : Used f → Used t'.entryAt) : t.Entered (.insert x) t' := by
  have adds : (Call.insert x).inserts = true := decide_eq_true pos
  have spared := i.spared.held_add
  constructor
  case inserts => rw [stats, adds, if_pos rfl]
  case clock =>
    rw [i.clock, adds]
    rfl
  case entries =>
    rw [stats, adds, if_pos rfl]
    show _ + (t.stats.evictions + evicted) + (t.stats.conflicts + _) + _ + 0 = _
    omega
  case used => exact fun before => used (i.spared.used before)
  all_goals
    rw [stats]
    rfl

theorem entered_insert (c : t.Consistent) (pos : x.size ≠ 0) :
    t.Entered (.insert x) (t.apply (.insert x)) := by
  obtain ⟨rest, inserted⟩ := c.inserted pos
  have renewals := renewals_insert pos inserted.spared
  by_cases found : ∃ p, p.1 = setIndex x.guest ∧ x.SameBases (rest p)
  · obtain ⟨p, home, same⟩ := found
    obtain ⟨entries, stats⟩ := inserted.renewed p home same
    have one : {q | q.1 = setIndex x.guest ∧ x.SameBases (rest q)} = {p} := by
      refine Set.eq_singleton_iff_unique_mem.2 ⟨⟨home, same⟩, ?_⟩
      rintro ⟨j, way⟩ ⟨there, same'⟩
      obtain ⟨i, k⟩ := p
      obtain rfl : j = i := there.trans home.symm
      obtain rfl : way = k := c.eq_of_sameBases ((inserted.spared.sameBases_iff _).1 same).1
        ((inserted.spared.sameBases_iff _).1 same').1
      rfl
    have filled := held_update rest p (e := x.renew (t.clock + 1).toNat (rest p)) same.valid
    rw [if_pos same.valid] at filled
    refine inserted.entered pos 0 stats ?_ fun used => ?_
    · rw [renewals, one, Set.ncard_singleton, entries]
      exact filled
    · rw [entries]
      exact used.update (used p same.valid)
  · have new : ∀ way, ¬x.SameBases (rest (setIndex x.guest, way)) :=
      fun way same => found ⟨_, rfl, same⟩
    obtain ⟨victim, -, entries, stats⟩ := inserted.placed new
    have none : {q | q.1 = setIndex x.guest ∧ x.SameBases (rest q)} = ∅ :=
      Set.eq_empty_of_forall_notMem fun q mem => found ⟨q, mem⟩
    refine inserted.entered pos _ stats ?_ fun used => ?_
    · rw [renewals, none, Set.ncard_empty, entries]
      exact held_update rest _ rfl
    · rw [entries]
      exact used.update (Nat.le_refl 1)

/-! ### Invalidations -/

/-- An invalidation leaves the clock alone, and of the figures changes the flushes only. -/
theorem entered_invalidation (invalidation : call.isInvalidation = true)
    (stats : (t.apply call).stats = { t.stats with flushes := t.stats.flushes + 1 })
    (clock : (t.apply call).clock = t.clock)
    (left : ∀ p, ((t.apply call).entryAt p).valid = true →
      (t.apply call).entryAt p = t.entryAt p) : t.Entered call (t.apply call) := by
  have fewer : ∀ p, ((t.apply call).entryAt p).valid = true → (t.entryAt p).valid = true := by
    intro p valid
    rw [← left p valid]
    exact valid
  have lost := held_add_lost fewer
  have others : call.isLookup = false ∧ call.inserts = false ∧ call.renewals t = 0 := by
    cases call with
    | insert x => cases invalidation
    | lookup a => cases invalidation
    | invalidateAll => exact ⟨rfl, rfl, rfl⟩
    | invalidateRange guest size => exact ⟨rfl, rfl, rfl⟩
  obtain ⟨isLookup, inserts, renewals⟩ := others
  constructor
  case clock =>
    rw [clock, isLookup, inserts]
    exact (UInt64.add_zero _).symm
  case entries =>
    rw [stats, renewals, inserts, Call.losses, if_pos invalidation]
    simp only [Bool.false_eq_true, if_false]
    omega
  case used =>
    refine fun used => used.mono fun p valid => ⟨fewer p valid, ?_⟩
    rw [left p valid]
    exact UInt32.le_refl _
  all_goals simp [stats, isLookup, inserts, invalidation]

theorem entered_invalidateAll (t : Tlb) : t.Entered .invalidateAll t.invalidateAll := by
  refine entered_invalidation rfl rfl rfl fun p valid => ?_
  have dropped : t.invalidateAll.entryAt p = (t.entryAt p).drop := entryAt_mapSlots _ p
  have valid : (t.invalidateAll.entryAt p).valid = true := valid
  rw [dropped] at valid
  cases valid

theorem entered_invalidateRange (t : Tlb) (guest : GuestAddr) (size : UInt64) :
    t.Entered (.invalidateRange guest size) (t.invalidateRange guest size).2 := by
  refine entered_invalidation rfl rfl rfl fun p valid => ?_
  have valid : ((t.invalidateRange guest size).2.entryAt p).valid = true := valid
  show (t.invalidateRange guest size).2.entryAt p = t.entryAt p
  rw [entryAt_invalidateRange] at valid ⊢
  split
  · rename_i met
    rw [if_pos met] at valid
    cases valid
  · rfl

/-- An empty insertion is entered nowhere. -/
theorem entered_insert_empty (empty : x.size = 0) :
    t.Entered (.insert x) (t.apply (.insert x)) := by
  have same : t.apply (.insert x) = t := if_pos empty
  have adds : (Call.insert x).inserts = false := decide_eq_false (not_not_intro empty)
  rw [same]
  constructor
  case inserts => simp [adds]
  case clock =>
    rw [adds]
    exact (UInt64.add_zero _).symm
  case entries => simp [adds, Call.renewals, Call.losses, Call.isInvalidation, empty]
  case used => exact id
  all_goals rfl

theorem Consistent.entered (c : t.Consistent) (call : Call) : t.Entered call (t.apply call) := by
  cases call with
  | insert x =>
    by_cases empty : x.size = 0
    · exact entered_insert_empty empty
    · exact entered_insert c empty
  | lookup a => exact entered_lookup t a
  | invalidateAll => exact entered_invalidateAll t
  | invalidateRange guest size => exact entered_invalidateRange t guest size

/-! ## All calls -/

theorem valid_entryAt_empty (p : Place) : (empty.entryAt p).valid = false := by
  rw [has_empty (has_entryAt empty p)]
  rfl

theorem accounted_nil : Accounted [] := by
  have none : held empty.entryAt = 0 := by simp [held, valid_entryAt_empty]
  constructor
  case entries =>
    rw [length_validEntries]
    show 0 = held empty.entryAt + 0 + 0 + 0 + 0
    rw [none]
  case used =>
    refine (used_iff empty).1 fun p valid => ?_
    rw [valid_entryAt_empty] at valid
    cases valid
  all_goals rfl

theorem Accounted.concat (a : Accounted calls) (call : Call) : Accounted (calls ++ [call]) := by
  have entered := (consistent_after calls).entered call
  rw [← after_concat] at entered
  have one : ∀ q : Call → Bool,
      (calls ++ [call]).countP q = calls.countP q + if q call then 1 else 0 := by
    intro q
    rw [List.countP_append, List.countP_singleton]
  constructor
  case lookups => rw [entered.lookups, a.lookups, one]
  case inserts => rw [entered.inserts, a.inserts, one]
  case flushes => rw [entered.flushes, a.flushes, one]
  case answered => rw [entered.lookups, entered.answered, a.answered]
  case clock =>
    rw [entered.clock, entered.lookups, entered.inserts, a.clock, ← UInt64.ofNat_add]
    congr 1
    omega
  case entries =>
    have before := a.entries
    have step := entered.entries
    rw [length_validEntries] at before ⊢
    rw [total_concat, total_concat, entered.inserts]
    show _ = _ + _ + _ + (_ + call.renewals (after calls)) + (_ + call.losses (after calls))
    omega
  case used => exact (used_iff _).1 (entered.used ((used_iff _).2 a.used))

theorem accounted (calls : List Call) : Accounted calls := by
  induction calls using List.reverseRecOn with
  | nil => exact accounted_nil
  | append_singleton calls call ih => exact ih.concat call

/-- Lookups and insertions are different calls. -/
theorem countP_add_countP_le (calls : List Call) :
    calls.countP Call.isLookup + calls.countP Call.inserts ≤ calls.length := by
  have apart : ∀ call ∈ calls, call.inserts = true → (!call.isLookup) = true := by
    intro call _ inserts
    cases call with
    | insert x => rfl
    | lookup a => cases inserts
    | invalidateAll => rfl
    | invalidateRange guest size => rfl
  rw [List.length_eq_countP_add_countP Call.isLookup]
  refine Nat.add_le_add_left ?_ _
  exact List.countP_mono_left fun call mem inserts => by simpa using apart call mem inserts

theorem Accounted.figure_le (a : Accounted calls) :
    ∀ n ∈ (after calls).figures, n ≤ calls.length := by
  have both := countP_add_countP_le calls
  have flushes : calls.countP Call.isInvalidation ≤ calls.length := List.countP_le_length
  have := a.lookups
  have := a.inserts
  have := a.flushes
  have := a.answered
  have clock : (after calls).clock.toNat ≤
      (after calls).stats.lookups + (after calls).stats.inserts := by
    rw [a.clock, UInt64.toNat_ofNat']
    exact Nat.mod_le _ _
  have := a.entries
  simp only [figures, List.forall_mem_cons, List.not_mem_nil, false_implies, implies_true, and_true]
  omega

/-- The books balance after any history: lookups are hits and misses, and each insertion is a valid
entry, a renewal, or counted as an entry that is gone. In a history of less than 2^64 calls the
clock shows lookups and insertions, and no figure reaches the end of its word. -/
theorem accounted_after (calls : List Call) (few : calls.length < 0x1_0000_0000_0000_0000) :
    Accounted calls ∧
      (after calls).clock.toNat = (after calls).stats.lookups + (after calls).stats.inserts ∧
      ∀ n ∈ (after calls).figures, n < 0x1_0000_0000_0000_0000 := by
  have books := accounted calls
  have ticks : (after calls).stats.lookups + (after calls).stats.inserts ≤ calls.length := by
    rw [books.lookups, books.inserts]
    exact countP_add_countP_le calls
  refine ⟨books, ?_, fun n mem => (books.figure_le n mem).trans_lt few⟩
  rw [books.clock, UInt64.toNat_ofNat']
  exact Nat.mod_eq_of_lt (ticks.trans_lt few)

/-- A page is mapped twice and then once more to be writable, and the next page after it; an empty
range counts for nothing. One lookup hits and one misses, and the second page is invalidated. -/
def busyDay : List Call :=
  [.insert ⟨⟨0x40000⟩, ⟨0x100000⟩, 0x1000, false⟩, .insert ⟨⟨0x40000⟩, ⟨0x100000⟩, 0x1000, false⟩,
    .insert ⟨⟨0x40000⟩, ⟨0x100000⟩, 0x1000, true⟩, .insert ⟨⟨0x41000⟩, ⟨0x200000⟩, 0x1000, false⟩,
    .insert ⟨⟨0x42000⟩, ⟨0x300000⟩, 0, false⟩, .lookup ⟨0x40008⟩, .lookup ⟨0x50000⟩,
    .invalidateRange ⟨0x41fff⟩ 0x10]

/-- Of four translations that were inserted one is left: one was contradicted, one insertion was a
renewal, and one entry was invalidated. -/
theorem accounted_after_busyDay :
    busyDay.length < 0x1_0000_0000_0000_0000 ∧ Accounted busyDay ∧
      (after busyDay).clock.toNat = 6 ∧
      (∀ n ∈ (after busyDay).figures, n < 0x1_0000_0000_0000_0000) ∧
      (after busyDay).stats = ⟨2, 1, 1, 4, 0, 1, 1⟩ ∧ (after busyDay).validEntries.length = 1 ∧
      total Call.renewals empty busyDay + total Call.losses empty busyDay = 2 := by
  have few : busyDay.length < 0x1_0000_0000_0000_0000 := by decide
  have stats : (after busyDay).stats = ⟨2, 1, 1, 4, 0, 1, 1⟩ := by decide +kernel
  have left : (after busyDay).validEntries.length = 1 := by decide +kernel
  obtain ⟨books, clock, bounded⟩ := accounted_after busyDay few
  have entries := books.entries
  rw [stats, left] at entries
  rw [stats] at clock
  dsimp only at entries
  exact ⟨few, books, clock, bounded, stats, left, by omega⟩

end GuestExec.Tlb
