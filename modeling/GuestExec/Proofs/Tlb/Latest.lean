import GuestExec.Proofs.Tlb.Consistent

/-!
# Hits are the latest translations

The TLB is a last-writer-wins map that may forget: what it answers for an address
is the last translation that covered it, and nothing has invalidated the address
since. `Current` says so of every valid entry and each call keeps it, since an
insertion leaves of the older entries only those that say what it says.
-/

namespace GuestExec.Tlb

variable {t t' : Tlb} {calls : List Call} {call : Call} {i : Fin 64} {e y : Entry}
  {a : GuestAddr} {x : Translation}

/-- `x` is the last translation of `a` among the calls, and no call after it invalidates `a`. -/
def Latest (calls : List Call) (a : GuestAddr) (x : Translation) : Prop :=
  ∃ before rest, calls = before ++ .insert x :: rest ∧ x.Covers a ∧ ∀ call ∈ rest, ¬call.Touches a

theorem Latest.covers (l : Latest calls a x) : x.Covers a := by
  obtain ⟨-, -, -, covers, -⟩ := l
  exact covers

theorem Latest.mem (l : Latest calls a x) : .insert x ∈ calls := by
  obtain ⟨before, rest, rfl, -, -⟩ := l
  exact List.mem_append_right before List.mem_cons_self

/-- Each call that touches an address replaces its latest translation or leaves it none. -/
theorem latest_concat :
    Latest (calls ++ [call]) a x ↔
      (call = .insert x ∧ x.Covers a) ∨ (¬call.Touches a ∧ Latest calls a x) := by
  constructor
  · rintro ⟨before, rest, eq, covers, quiet⟩
    -- The call at the end is the translation itself, or one of those after it.
    rcases List.eq_nil_or_concat rest with rfl | ⟨init, last, rfl⟩
    · obtain ⟨-, last⟩ := List.append_inj' eq rfl
      exact .inl ⟨List.head_eq_of_cons_eq last, covers⟩
    · rw [List.concat_eq_append] at eq quiet
      rw [← List.cons_append, ← List.append_assoc] at eq
      obtain ⟨rfl, same⟩ := List.append_inj' eq rfl
      rw [List.head_eq_of_cons_eq same]
      exact .inr ⟨quiet last (by simp), before, init, rfl, covers,
        fun c mem => quiet c (List.mem_append_left _ mem)⟩
  · rintro (⟨rfl, covers⟩ | ⟨still, before, rest, rfl, covers, quiet⟩)
    · exact ⟨calls, [], rfl, covers, fun _ mem => absurd mem List.not_mem_nil⟩
    · refine ⟨before, rest ++ [call], by simp, covers, fun c mem => ?_⟩
      rcases List.mem_append.1 mem with old | new
      · exact quiet c old
      · rw [List.mem_singleton.1 new]
        exact still

/-- The host address of `a`, modulo 2^64. -/
def Translation.hostAddr (x : Translation) (a : GuestAddr) : HostAddr := x.host + (a - x.guest)

/-- The entry translates `a` as `x` does. -/
def Entry.Speaks (e : Entry) (x : Translation) (a : GuestAddr) : Prop :=
  e.hostAddr a = x.hostAddr a ∧ e.writable = x.writable

/-- Where a valid entry covers an address, it says of it what was said last. -/
def Current (t : Tlb) (calls : List Call) : Prop :=
  ∀ i e, t.Has i e → e.valid = true → ∀ a, e.covers a = true →
    ∃ x, Latest calls a x ∧ e.Speaks x a

/-! ## Calls that add nothing -/

theorem current_empty : empty.Current [] := by
  intro i e has valid
  rw [has_empty has] at valid
  cases valid

/-- Entries may go, and must where the call touches them. -/
theorem Current.concat (c : t.Current calls)
    (kept : ∀ {i y}, t'.Has i y → y.valid = true → ∃ e, t.Has i e ∧ y.Renews e ∧
      (∀ {a}, e.covers a = true → ¬call.Touches a)) : t'.Current (calls ++ [call]) := by
  intro i y has valid a covers
  obtain ⟨e, he, same, quiet⟩ := kept has valid
  rw [same.covers a] at covers
  obtain ⟨x, latest, host, writable⟩ := c i e he (same.valid ▸ valid) a covers
  exact ⟨x, latest_concat.2 (.inr ⟨quiet covers, latest⟩), (same.hostAddr a).trans host,
    same.writable.trans writable⟩

theorem Current.lookup (c : t.Current calls) (a : GuestAddr) :
    (t.lookup a).2.Current (calls ++ [.lookup a]) := by
  refine c.concat fun has _ => ?_
  obtain ⟨e, he, same⟩ := has_lookup has
  exact ⟨e, he, same, fun _ => id⟩

theorem Current.invalidateAll (c : t.Current calls) :
    t.invalidateAll.Current (calls ++ [.invalidateAll]) := by
  refine c.concat fun has valid => ?_
  obtain ⟨e, -, rfl⟩ := has_mapSlots.1 has
  cases valid

theorem Current.invalidateRange (c : t.Current calls) (guest : GuestAddr) (size : UInt64) :
    (t.invalidateRange guest size).2.Current (calls ++ [.invalidateRange guest size]) := by
  refine c.concat fun {i y} has valid => ?_
  obtain ⟨old, spared⟩ := (has_purge valid).1 has
  refine ⟨y, old, .refl y, fun {a} covers touched => ?_⟩
  obtain ⟨lo, hi⟩ := (y.covers_iff a).1 covers
  have meet : y.overlaps guest.toNat (guest.toNat + size.toNat) = true := by
    obtain ⟨above, below⟩ := touched
    rw [Entry.overlaps_iff]
    omega
  rw [valid, meet] at spared
  cases spared

/-! ## Insertions -/

theorem Translation.Covers.size_ne_zero (h : x.Covers a) : x.size ≠ 0 := by
  intro zero
  obtain ⟨lo, hi⟩ := h
  rw [zero] at hi
  exact absurd hi (Nat.not_lt.2 lo)

/-- Entries at the same distance translate alike. -/
theorem hostAddr_of_delta (h : e.delta = x.host.word - x.guest.word) (a : GuestAddr) :
    e.hostAddr a = x.hostAddr a := by
  have words : e.host.word + (a.word - e.guest.word) = x.host.word + (a.word - x.guest.word) := by
    rw [Entry.delta] at h
    grind
  exact congrArg HostAddr.mk words

theorem Entry.speaks_of_spared (valid : e.valid = true) (covers : e.covers a = true)
    (spared : contradicts x.guest x.host x.size x.writable e = false) (h : x.Covers a) :
    e.Speaks x a := by
  obtain ⟨lo, hi⟩ := (e.covers_iff a).1 covers
  have meet : e.overlaps x.guest.toNat (x.guest.toNat + x.size.toNat) = true := by
    obtain ⟨above, below⟩ := h
    rw [Entry.overlaps_iff]
    omega
  obtain ⟨delta, writable⟩ := agrees_of_spared spared valid meet
  exact ⟨hostAddr_of_delta delta a, writable⟩

/-- What an insertion spares is still up to date after it. -/
theorem Current.spared (c : t.Current calls) (has : t.Has i e) (valid : e.valid = true)
    (spared : contradicts x.guest x.host x.size x.writable e = false)
    (covers : e.covers a = true) :
    ∃ y, Latest (calls ++ [.insert x]) a y ∧ e.Speaks y a := by
  by_cases h : x.Covers a
  · exact ⟨x, latest_concat.2 (.inl ⟨rfl, h⟩), e.speaks_of_spared valid covers spared h⟩
  · obtain ⟨y, latest, speaks⟩ := c i e has valid a covers
    exact ⟨y, latest_concat.2 (.inr ⟨h, latest⟩), speaks⟩

theorem Current.insert (c : t.Current calls) (sound : t.Consistent) (x : Translation) :
    (t.insert x.guest x.host x.size x.writable).Current (calls ++ [.insert x]) := by
  by_cases pos : x.size = 0
  · rw [Tlb.insert, if_pos pos]
    have nowhere : ∀ {a}, ¬x.Covers a := fun h => h.size_ne_zero pos
    exact c.concat fun {i y} has _ => ⟨y, has, .refl y, fun _ => nowhere⟩
  obtain ⟨way, new, fills, sets⟩ := insert_sets t x.guest x.host x.writable pos
  have placed := fills.placed
  have old : ∀ {j y}, (t.purge (contradicts x.guest x.host x.size x.writable)).Has j y →
      y.valid = true → ∀ {a}, y.covers a = true →
      ∃ z, Latest (calls ++ [.insert x]) a z ∧ y.Speaks z a := by
    intro j y has valid a covers
    obtain ⟨there, spared⟩ := (has_purge valid).1 has
    exact c.spared there valid spared covers
  intro j y has valid a covers
  rcases has_setWay ((has_congr sets).1 has) with there | ⟨-, rfl⟩
  · exact old there valid covers
  · rcases placed.covers covers with inside | ⟨e, there, was, covered, host, writable⟩
    · refine ⟨x, latest_concat.2 (.inl ⟨rfl, inside⟩), hostAddr_of_delta placed.delta_eq a, ?_⟩
      exact placed.writable_eq (sound.purge _) pos fun has valid => ((has_purge valid).1 has).2
    · obtain ⟨z, latest, speaks⟩ := old there was covered
      exact ⟨z, latest, host.trans speaks.1, writable.trans speaks.2⟩

/-! ## Runs -/

theorem Current.apply (c : t.Current calls) (sound : t.Consistent) (call : Call) :
    (t.apply call).Current (calls ++ [call]) := by
  cases call with
  | insert x => exact c.insert sound x
  | lookup addr => exact c.lookup addr
  | invalidateAll => exact c.invalidateAll
  | invalidateRange guest size => exact c.invalidateRange guest size

theorem Current.foldl (c : t.Current calls) (sound : t.Consistent) (more : List Call) :
    (more.foldl Tlb.apply t).Current (calls ++ more) := by
  -- The history grows with the TLB, so both are general.
  induction more generalizing t calls with
  | nil =>
    rw [List.append_nil]
    exact c
  | cons call rest ih =>
    have step := ih (c.apply sound call) (sound.apply call)
    rwa [List.append_assoc] at step

theorem current_after (calls : List Call) : (after calls).Current calls :=
  current_empty.foldl consistent_empty calls

/-- A hit gives what the latest translation gives. -/
theorem speaks_of_lookup (calls : List Call) {hit : Hit}
    (found : ((after calls).lookup a).1 = some hit) :
    ∃ x, Latest calls a x ∧ hit = ⟨x.hostAddr a, x.writable⟩ := by
  rcases (after calls).lookup_hit a with ⟨missed, -⟩ | ⟨e, has, valid, covers, there⟩
  · rw [missed] at found
    cases found
  · obtain ⟨x, latest, host, writable⟩ := current_after calls _ e has valid a covers
    refine ⟨x, latest, ?_⟩
    rw [← Option.some.inj (there.symm.trans found), host, writable]

theorem holds_insert (t : Tlb) (covers : x.Covers a) (set : setIndex a = setIndex x.guest) :
    (t.insert x.guest x.host x.size x.writable).Holds a := by
  obtain ⟨new, placed, has, -, -⟩ := insert_spec t x.guest x.host x.writable covers.size_ne_zero
  refine ⟨new, set ▸ has, placed.valid, ?_⟩
  have le := placed.size_le
  obtain ⟨lo, hi⟩ := covers
  rw [Entry.covers_iff, Entry.stop, placed.guest_eq]
  omega

/-- A translation is found as soon as it was added, in the set of its base. -/
theorem lookup_insert (calls : List Call) (covers : x.Covers a)
    (set : setIndex a = setIndex x.guest) :
    ((after (calls ++ [.insert x])).lookup a).1 = some ⟨x.hostAddr a, x.writable⟩ := by
  have holds : (after (calls ++ [.insert x])).Holds a := by
    rw [after_concat]
    exact holds_insert _ covers set
  rcases (after (calls ++ [.insert x])).lookup_hit a with ⟨-, missed⟩ | ⟨e, -, -, -, found⟩
  · exact absurd holds missed
  · obtain ⟨y, latest, eq⟩ := speaks_of_lookup _ found
    rw [found, eq]
    rcases latest_concat.1 latest with ⟨same, -⟩ | ⟨untouched, -⟩
    · rw [Call.insert.inj same]
    · exact absurd covers untouched

/-- A range that ends by 2^64 on the host is translated without wrapping. -/
theorem Translation.toNat_hostAddr (covers : x.Covers a)
    (fits : x.host.toNat + x.size.toNat ≤ 0x1_0000_0000_0000_0000) :
    (x.hostAddr a).toNat = x.host.toNat + (a.toNat - x.guest.toNat) := by
  obtain ⟨lo, hi⟩ := covers
  have distance : (a - x.guest).toNat = a.toNat - x.guest.toNat :=
    UInt64.toNat_sub_of_le _ _ (UInt64.le_iff_toNat_le.2 lo)
  rw [Translation.hostAddr, HostAddr.toNat_add, distance, Nat.mod_eq_of_lt (by omega)]

/-- A hit is the latest translation of the address: the last one that covers it, and no call after
it has invalidated the address. -/
theorem lookup_latest (calls : List Call) (a : GuestAddr) {hit : Hit}
    (fits : ∀ x, .insert x ∈ calls → x.host.toNat + x.size.toNat ≤ 0x1_0000_0000_0000_0000)
    (found : ((after calls).lookup a).1 = some hit) :
    ∃ x, Latest calls a x ∧ hit.host.toNat = x.host.toNat + (a.toNat - x.guest.toNat) ∧
      hit.writable = x.writable := by
  obtain ⟨x, latest, rfl⟩ := speaks_of_lookup calls found
  exact ⟨x, latest, Translation.toNat_hostAddr latest.covers (fits x latest.mem), rfl⟩

/-- Two pages are translated, the second of them a second time, and some other range is dropped. -/
def remapCalls : List Call :=
  [.insert ⟨⟨0x1000⟩, ⟨0x5000⟩, 0x2000, true⟩, .insert ⟨⟨0x2000⟩, ⟨0x9000⟩, 0x1000, false⟩,
    .lookup ⟨0x1000⟩, .invalidateRange ⟨0x8000⟩ 0x1000]

theorem lookup_latest_remapped :
    (∀ x, .insert x ∈ remapCalls → x.host.toNat + x.size.toNat ≤ 0x1_0000_0000_0000_0000) ∧
      ((after remapCalls).lookup ⟨0x2010⟩).1 = some ⟨⟨0x9010⟩, false⟩ ∧
      ∃ x, Latest remapCalls ⟨0x2010⟩ x ∧ 0x9010 = x.host.toNat + (0x2010 - x.guest.toNat) ∧
        false = x.writable := by
  have fits : ∀ x, .insert x ∈ remapCalls →
      x.host.toNat + x.size.toNat ≤ 0x1_0000_0000_0000_0000 := by
    simp only [remapCalls, List.mem_cons, Call.insert.injEq, List.not_mem_nil, or_false,
      reduceCtorEq, forall_eq_or_imp, forall_eq]
    decide
  have found : ((after remapCalls).lookup ⟨0x2010⟩).1 = some ⟨⟨0x9010⟩, false⟩ := by
    decide +kernel
  exact ⟨fits, found, lookup_latest remapCalls ⟨0x2010⟩ fits found⟩

end GuestExec.Tlb
