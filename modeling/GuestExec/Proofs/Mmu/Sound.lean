import GuestExec.Mmu
import GuestExec.Proofs.Memory.Guards
import GuestExec.Proofs.Tlb.Coherence

/-!
# Sound access units

An `Mmu` is `Sound` when its map is regular and its TLB coherent with it.
Whatever an access unit does, what comes out `Follows` what went in: no region
changed its frame and it is sound again. Looking up, and failing to find, does
not even change the answers to later accesses (`SameAnswers`).
-/

namespace GuestExec.Mmu

open Tlb (setIndex)
open MemoryMap (SameFrames SameGuards Mended)

variable {u u' u'' : Mmu} {a b : GuestAddr} {access : Access} {mapping : Mapping}

structure Sound (u : Mmu) : Prop where
  memory : u.memory.Regular
  tlb : u.tlb.Coherent u.memory

/-- `u'` is `u` after some use. -/
structure Follows (u u' : Mmu) : Prop where
  frames : SameFrames u.memory u'.memory
  sound : u'.Sound

/-- `u'` finds the same translations in its TLB and the same guards. -/
structure SameAnswers (u u' : Mmu) : Prop where
  memory : SameGuards u.memory u'.memory
  holds : ∀ a, u'.tlb.Holds a ↔ u.tlb.Holds a
  sound : u'.Sound

theorem Sound.follows (s : u.Sound) : u.Follows u := ⟨.refl _, s⟩

theorem Follows.trans (h : u.Follows u') (h' : u'.Follows u'') : u.Follows u'' :=
  ⟨h.frames.trans h'.frames, h'.sound⟩

theorem Sound.sameAnswers (s : u.Sound) : u.SameAnswers u := ⟨.refl _, fun _ => Iff.rfl, s⟩

theorem SameAnswers.trans (h : u.SameAnswers u') (h' : u'.SameAnswers u'') : u.SameAnswers u'' :=
  ⟨h.memory.trans h'.memory, fun a => (h'.holds a).trans (h.holds a), h'.sound⟩

theorem SameAnswers.follows (h : u.SameAnswers u') : u.Follows u' :=
  ⟨h.memory.toSameFrames, h.sound⟩

/-- A map with the same frames does for a sound access unit. -/
theorem Sound.setMemory (s : u.Sound) {m : MemoryMap} (same : SameFrames u.memory m) :
    u.Follows { u with memory := m } :=
  ⟨same, same.regular s.memory, s.tlb.congr (same.translate s.memory)⟩

theorem Sound.setContents (s : u.Sound) {m : MemoryMap} (same : SameGuards u.memory m) :
    u.SameAnswers { u with memory := m } :=
  ⟨same, fun _ => Iff.rfl, (s.setMemory same.toSameFrames).sound⟩

/-! ## One translation -/

/-- The TLB serves the access at `a`. -/
def Serves (u : Mmu) (a : GuestAddr) (access : Access) : Prop :=
  u.tlb.Holds a ∧ (access.isWrite = true → u.memory.allows a .write = true)

/-- The access at `a` gets a translation from where `lookup` says. -/
def Finds (lookup : Lookup) (u : Mmu) (a : GuestAddr) (access : Access) : Prop :=
  u.Serves a access ∨ (lookup = .walk ∧ u.memory.usable a access = true)

theorem SameAnswers.serves (h : u.SameAnswers u') (s : u.Sound) :
    u'.Serves a access ↔ u.Serves a access := by
  rw [Serves, Serves, h.holds, h.memory.toSameFrames.allows s.memory]

theorem SameAnswers.finds (h : u.SameAnswers u') (s : u.Sound) {lookup : Lookup} :
    u'.Finds lookup a access ↔ u.Finds lookup a access := by
  rw [Finds, Finds, h.serves s, h.memory.usable s.memory]

/-- The answer for an address of `mapping`. -/
def hitOf (mapping : Mapping) (a : GuestAddr) : Tlb.Hit := ⟨mapping.hostAddr a, mapping.writable⟩

theorem Sound.lookup (s : u.Sound) (a : GuestAddr) :
    u.SameAnswers { u with tlb := (u.tlb.lookup a).2 } :=
  ⟨.refl _, fun _ => Tlb.holds_lookup, s.memory, s.tlb.lookup a⟩

theorem Sound.translateCached (s : u.Sound) (a : GuestAddr) (access : Access) :
    u.SameAnswers (u.translateCached a access).2 :=
  s.lookup a

/-- The TLB's answer is the map's. -/
theorem Sound.translateCached_cases (s : u.Sound) (a : GuestAddr) (access : Access) :
    (u.Serves a access ∧ ∃ mapping, u.memory.translate a = some mapping ∧
        (u.translateCached a access).1 = some (hitOf mapping a)) ∨
      (¬u.Serves a access ∧ (u.translateCached a access).1 = none) := by
  by_cases holds : u.tlb.Holds a
  · obtain ⟨mapping, translated, hit⟩ := s.tlb.lookup_eq holds
    have writable : u.memory.allows a .write = mapping.writable :=
      MemoryMap.allows_of_translate translated
    have answer : (u.translateCached a access).1 =
        (some (hitOf mapping a)).filter fun h => !access.isWrite || h.writable :=
      congrArg (Option.filter _) hit
    rw [Serves, writable, answer]
    cases write : access.isWrite with
    | false => exact .inl ⟨⟨holds, fun h => nomatch h⟩, mapping, translated, rfl⟩
    | true =>
      cases h : mapping.writable with
      | true => exact .inl ⟨⟨holds, fun _ => rfl⟩, mapping, translated, by simp [hitOf, h]⟩
      | false => exact .inr ⟨fun serves => Bool.noConfusion (serves.2 rfl), by simp [hitOf, h]⟩
  · refine .inr ⟨fun serves => holds serves.1, ?_⟩
    show Option.filter _ (u.tlb.lookup a).1 = none
    rw [Tlb.lookup_eq_none holds]
    rfl

theorem Sound.fill (s : u.Sound) (translated : u.memory.translate a = some mapping)
    (allowed : u.memory.allows a access = true) : u.Follows (u.fill a mapping) :=
  ⟨.refl _, s.memory, s.tlb.insertPage s.memory translated allowed⟩

theorem holds_fill (same : b.page = a.page) : (u.fill a mapping).tlb.Holds b :=
  Tlb.holds_insertPage same

/-- The other sets keep what they hold. -/
theorem Sound.holds_fill_of_ne (s : u.Sound) (translated : u.memory.translate a = some mapping)
    (other : setIndex b ≠ setIndex a) : (u.fill a mapping).tlb.Holds b ↔ u.tlb.Holds b := by
  constructor
  · intro h
    rcases Tlb.Holds.of_insertPage h with same | h
    · exact absurd (Tlb.setIndex_of_page same) other
    · exact h
  · exact fun h => h.insertPage s.tlb s.memory translated other

theorem Sound.walk_cases (s : u.Sound) (a : GuestAddr) (access : Access) :
    (u.memory.usable a access = true ∧ ∃ mapping, u.memory.translate a = some mapping ∧
        u.walk a access = (some (hitOf mapping a), u.fill a mapping)) ∨
      (u.memory.usable a access = false ∧ u.walk a access = (none, u)) := by
  rw [walk, s.memory.isHostAccessible_one]
  split
  · rename_i unmapped
    refine .inr ⟨?_, rfl⟩
    rw [MemoryMap.usable, MemoryMap.allows, unmapped]
    rfl
  · rename_i mapping translated
    have allowed : u.memory.allows a access = mapping.perms.allows access :=
      MemoryMap.allows_of_translate translated
    cases usable : u.memory.usable a access with
    | false =>
      rw [Bool.and_false]
      exact .inr ⟨rfl, rfl⟩
    | true =>
      have both := usable
      rw [MemoryMap.usable, allowed, Bool.and_eq_true] at both
      rw [both.1, Bool.and_true]
      exact .inl ⟨rfl, mapping, translated, rfl⟩

/-- A translation that is found is in the TLB from then on, and leaves its other sets as they
were. -/
structure Found (u : Mmu) (a : GuestAddr) (u' : Mmu) : Prop where
  memory : u'.memory = u.memory
  sound : u'.Sound
  here : u'.tlb.Holds a
  holds : ∀ b, setIndex b ≠ setIndex a → (u'.tlb.Holds b ↔ u.tlb.Holds b)

theorem Found.follows (h : u.Found a u') : u.Follows u' := ⟨h.memory ▸ .refl _, h.sound⟩

/-- A translation is found, or the search for it changed nothing that counts. -/
theorem Sound.translateBy_cases (s : u.Sound) (lookup : Lookup) (a : GuestAddr)
    (access : Access) :
    (u.Finds lookup a access ∧ ∃ mapping u', u.memory.translate a = some mapping ∧
        u.Found a u' ∧ translateBy lookup u a access = (some (hitOf mapping a), u')) ∨
      (¬u.Finds lookup a access ∧
        ∃ u', u.SameAnswers u' ∧ translateBy lookup u a access = (none, u')) := by
  have looked := s.translateCached a access
  rcases s.translateCached_cases a access with ⟨serves, mapping, translated, hit⟩ | ⟨free, missed⟩
  · have cached : u.translateCached a access =
        (some (hitOf mapping a), (u.translateCached a access).2) := Prod.ext hit rfl
    refine .inl ⟨.inl serves, mapping, (u.translateCached a access).2, translated,
      ⟨rfl, looked.sound, (looked.holds a).2 serves.1, fun b _ => looked.holds b⟩, ?_⟩
    cases lookup
    · exact cached
    · rw [translateBy, Mmu.translate, cached]
  · have cached : u.translateCached a access = (none, (u.translateCached a access).2) :=
      Prod.ext missed rfl
    cases lookup with
    | cached => exact .inr ⟨fun h => h.elim free (fun h => nomatch h.1), _, looked, cached⟩
    | walk =>
      have walked :
          translateBy .walk u a access = (u.translateCached a access).2.walk a access := by
        rw [translateBy, Mmu.translate, cached]
      have usable : (u.translateCached a access).2.memory.usable a access =
        u.memory.usable a access := rfl
      rcases looked.sound.walk_cases a access with ⟨h, mapping, translated, found⟩ | ⟨h, missed⟩
      · have allowed := MemoryMap.allows_of_usable h
        have filled := looked.sound.fill (u := (u.translateCached a access).2) translated allowed
        refine .inl ⟨.inr ⟨rfl, h⟩, mapping, (u.translateCached a access).2.fill a mapping,
          translated, ⟨rfl, filled.sound, holds_fill rfl, fun b other => ?_⟩, walked.trans found⟩
        exact (looked.sound.holds_fill_of_ne translated other).trans (looked.holds b)
      · refine .inr ⟨fun h' => h'.elim free fun h' => ?_, _, looked, walked.trans missed⟩
        rw [← usable, h] at h'
        exact nomatch h'.2

theorem Sound.translateBy (s : u.Sound) (lookup : Lookup) (a : GuestAddr) (access : Access) :
    u.Follows (translateBy lookup u a access).2 := by
  rcases s.translateBy_cases lookup a access with ⟨-, mapping, u', -, found, eq⟩ | ⟨-, u', same, eq⟩
  · exact eq ▸ found.follows
  · exact eq ▸ same.follows

/-! ## Whole accesses -/

theorem Sound.pieces (s : u.Sound) (lookup : Lookup) (a : GuestAddr) (len : Nat)
    (access : Access) : u.Follows (pieces lookup u a len access).2 := by
  have first := s.translateBy lookup a access
  rw [Mmu.pieces]
  split
  · rename_i eq
    rw [eq] at first
    exact first
  · rename_i hit u₁ eq
    rw [eq] at first
    split
    · exact first
    · have second := first.sound.translateBy lookup (a + UInt64.ofNat (headLength a len)) access
      split
      · rename_i eq
        rw [eq] at second
        exact first.trans second
      · rename_i eq
        rw [eq] at second
        exact first.trans second

theorem sameGuards_writePieces {m : MemoryMap} (w : m.Regular) (data : List UInt8)
    (list : List (HostAddr × Nat)) : SameGuards m (writePieces m data list).2 := by
  induction list generalizing m data with
  | nil => exact .refl m
  | cons piece rest ih =>
    obtain ⟨host, n⟩ := piece
    unfold writePieces
    split
    · exact ih w data
    · split
      · exact .refl m
      · rename_i m' written
        have same := w.sameGuards_writeHost written
        exact same.trans (ih (same.toSameFrames.regular w) _)

theorem Sound.read (s : u.Sound) (lookup : Lookup) (a : GuestAddr) (len : Nat) :
    u.Follows (u.read lookup a len).2 :=
  s.pieces lookup a len .read

theorem Sound.write (s : u.Sound) (lookup : Lookup) (a : GuestAddr) (data : List UInt8) :
    u.Follows (u.write lookup a data).2 := by
  have found := s.pieces lookup a data.length .write
  rw [Mmu.write]
  split
  · rename_i eq
    rw [eq] at found
    exact found
  · rename_i list u' eq
    rw [eq] at found
    have same := sameGuards_writePieces found.sound.memory data list
    exact found.trans (found.sound.setContents same).follows

theorem Sound.firstWalkMiss (s : u.Sound) (a : GuestAddr) (len : Nat) (access : Access) :
    u.Follows (u.firstWalkMiss a len access).2 := by
  have first := s.translateBy .walk a access
  rw [Mmu.translateBy] at first
  rw [Mmu.firstWalkMiss]
  split
  · rename_i eq
    rw [eq] at first
    exact first
  · rename_i eq
    rw [eq] at first
    split
    · exact first
    · have second := first.sound.translateBy .walk (a + UInt64.ofNat (headLength a len)) access
      rw [Mmu.translateBy] at second
      dsimp only
      split
      · rename_i eq
        rw [eq] at second
        exact first.trans second
      · rename_i eq
        rw [eq] at second
        exact first.trans second

theorem Sound.firstCachedMiss (s : u.Sound) (a : GuestAddr) (len : Nat) (access : Access) :
    u.SameAnswers (u.firstCachedMiss a len access).2 := by
  have looked := s.translateCached a access
  rw [Mmu.firstCachedMiss]
  split
  · exact s.sameAnswers
  · split
    · rename_i eq
      rw [eq] at looked
      exact looked
    · rename_i eq
      rw [eq] at looked
      exact looked

end GuestExec.Mmu
