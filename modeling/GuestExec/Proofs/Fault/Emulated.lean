import GuestExec.Proofs.Fault.Counts

/-!
# Emulated accesses

What is known of memory once a misaligned access was emulated: each of its bytes
is `Granted`, by its region or by a TLB that has its page. The outcome can be
told from the counts, since every exception that the guest takes is counted.
-/

namespace GuestExec

namespace Mmu

variable {u : Mmu} {a b : GuestAddr} {len : Nat} {access : Access} {lookup : Lookup}

/-- The region allows the access, or the TLB serves it and the page is not guarded. -/
def Granted (u : Mmu) (a : GuestAddr) (access : Access) : Prop :=
  u.memory.allows a access = true ∨ (u.Serves a access ∧ u.memory.isGuarded a = false)

theorem Ready.granted (h : u.Ready lookup a access) : u.Granted a access := by
  obtain ⟨serves | ⟨-, usable⟩, free⟩ := h
  · exact .inr ⟨serves, free⟩
  · exact .inl (MemoryMap.allows_of_usable usable)

/-- All of a page is granted or nothing of it. -/
theorem Sound.granted_page (s : u.Sound) (same : b.page = a.page) :
    u.Granted b access ↔ u.Granted a access := by
  rw [Granted, Granted, s.memory.allows_page same, s.serves_page same,
    s.memory.isGuarded_page same]

/-- An access whose pieces are granted is granted at every byte. -/
theorem Sound.granted_byte (s : u.Sound) (short : len ≤ pageSize)
    (granted : ∀ b ∈ starts a len, u.Granted b access) {i : Nat} (inside : i < len) :
    u.Granted (a + UInt64.ofNat i) access := by
  obtain ⟨j, -, mem, same⟩ := exists_start inside short
  exact (s.granted_page same).2 (granted _ mem)

/-- A write is never granted where the region does not allow it. -/
theorem Granted.allows_write (h : u.Granted a .write) : u.memory.allows a .write = true := by
  rcases h with allowed | ⟨serves, -⟩
  · exact allowed
  · exact serves.2 rfl

/-- A read may be granted for the sake of another access that the region allows. -/
theorem Granted.read (s : u.Sound) (h : u.Granted a .read) :
    u.memory.allows a .read = true ∨
      (u.served a .read = true ∧ u.memory.isGuarded a = false ∧
        (u.memory.allows a .write = true ∨ u.memory.allows a .execute = true)) := by
  rcases h with allowed | ⟨serves, free⟩
  · exact .inl allowed
  · obtain ⟨other, allowed⟩ := s.tlb.allows_of_holds serves.1
    cases other with
    | read => exact .inl allowed
    | write => exact .inr ⟨s.serves_iff.1 serves, free, .inl allowed⟩
    | execute => exact .inr ⟨s.serves_iff.1 serves, free, .inr allowed⟩

theorem ready_of_served (s : u.Sound) (served : u.served a access = true)
    (free : u.memory.isGuarded a = false) : u.Ready lookup a access :=
  ⟨.inl (s.serves_iff.2 served), free⟩

end Mmu

/-! ## Syndromes of misaligned accesses -/

namespace Syndrome

theorem and_three (n : Nat) : (UInt64.ofNat n &&& 3) = UInt64.ofNat (n % 4) := by
  rw [← UInt64.toNat_inj, UInt64.toNat_and, UInt64.toNat_ofNat', UInt64.toNat_ofNat']
  show _ &&& (2 ^ 2 - 1) = _
  rw [Nat.and_two_pow_sub_one_eq_mod]
  omega

theorem and_thirtyOne (rt : UInt8) : (rt.toUInt64 &&& 0x1f) = UInt64.ofNat (rt.toNat % 32) := by
  rw [← UInt64.toNat_inj, UInt64.toNat_and, UInt64.toNat_ofNat', UInt8.toNat_toUInt64]
  show _ &&& (2 ^ 5 - 1) = _
  rw [Nat.and_two_pow_sub_one_eq_mod]
  omega

/-- The fields of the syndrome of a misaligned access. The size is kept as two bits of its
logarithm, the register as five bits. -/
theorem alignment_fields (size : UInt64) (signed : Bool) (rt : UInt8) (isWrite : Bool) :
    let s := alignment size signed rt isWrite
    s.isDataAbort = true ∧ s.isValid = true ∧ s.isWrite = isWrite ∧ s.signExtends = signed ∧
      s.sixtyFour = true ∧ s.register = rt.toNat % 32 ∧
      s.accessSize = 1 <<< (trailingZeros size.toNat 64 % 4) := by
  have log : trailingZeros size.toNat 64 % 4 < 4 := Nat.mod_lt _ (by decide)
  have register : rt.toNat % 32 < 32 := Nat.mod_lt _ (by decide)
  simp only [alignment, and_thirtyOne, and_three]
  generalize trailingZeros size.toNat 64 % 4 = j at log
  generalize rt.toNat % 32 = k at register
  revert isWrite signed k j
  decide +kernel

/-- The syndrome of a misaligned access describes it. -/
theorem alignment_describes {size : UInt8} (sized : size ∈ [1, 2, 4, 8]) (signed : Bool)
    (rt : UInt8) (isWrite : Bool) :
    let s := alignment size.toUInt64 signed rt isWrite
    s.isDataAbort = true ∧ s.isValid = true ∧ s.accessSize = size.toNat ∧ s.isWrite = isWrite := by
  obtain ⟨abort, valid, direction, -, -, -, bytes⟩ :=
    alignment_fields size.toUInt64 signed rt isWrite
  refine ⟨abort, valid, bytes.trans ?_, direction⟩
  clear abort valid direction bytes
  revert size
  decide +kernel

end Syndrome

namespace Vcpu

open Mmu (starts)

variable {c : Vcpu} {info : FaultInfo} {s : Syndrome}

theorem emulable_alignment (size : UInt64) (signed : Bool) (rt : UInt8) (isWrite : Bool)
    (a : GuestAddr) (access : Access) :
    let s := Syndrome.alignment size signed rt isWrite
    emulable { address := a, access, syndrome := some s.word } = some s := by
  intro s
  obtain ⟨abort, valid, -⟩ := Syndrome.alignment_fields size signed rt isWrite
  rw [emulable, Option.map_some, Option.filter_some, if_pos]
  rw [Bool.and_eq_true]
  exact ⟨abort, valid⟩

/-! ## Counted exceptions -/

/-- The result counts one exception more if the guest takes one, and else none. -/
def Counted (c : Vcpu) (result : FaultOutcome × Vcpu) : Prop :=
  result.2.stats.exceptionsDelivered =
    c.stats.exceptionsDelivered + if result.1 = .redirected then 1 else 0

theorem counted_handle (c : Vcpu) (kind : FaultKind) (info : FaultInfo) :
    c.Counted (c.handle kind info) := by
  rcases once_or_twice_handle c kind info with once | twice
  · rw [Counted, once, FaultStats.exceptionsDelivered_count]
  · rw [Counted, twice.stats, FaultStats.exceptionsDelivered_count,
      FaultStats.exceptionsDelivered_count]
    rfl

/-! ## Emulated accesses -/

theorem deliver_ne_emulated (c : Vcpu) (info : FaultInfo) (status : UInt64) :
    (c.deliver info status).1 ≠ .emulated := by
  unfold deliver
  dsimp only
  split
  · exact FaultOutcome.noConfusion
  · exact FaultOutcome.noConfusion

/-- An access fault is never emulated. -/
theorem onAccess_ne_emulated (c : Vcpu) (info : FaultInfo) : (c.onAccess info).1 ≠ .emulated := by
  unfold onAccess
  dsimp only
  split
  · exact deliver_ne_emulated c info _
  · split
    · exact deliver_ne_emulated c info _
    · split
      · exact FaultOutcome.noConfusion
      · exact FaultOutcome.noConfusion

/-- An access to a page that is not mended is not made again. -/
theorem mend_ne_emulated (w : c.mmu.memory.Regular) (info : FaultInfo) (s : Syndrome)
    {miss : GuestAddr} (h : c.mmu.memory.mends miss (accessOf s) = false) :
    (c.mend info s miss).1 ≠ .emulated := by
  have never := onAccess_ne_retry { info with address := miss, access := accessOf s } w h
  have other := onAccess_ne_emulated c { info with address := miss, access := accessOf s }
  unfold mend
  split
  · rename_i eq
    exact absurd (congrArg Prod.fst eq) never
  · rename_i eq
    rwa [eq] at other

/-- What an emulated access touched was granted. -/
theorem granted_of_emulated (sound : c.mmu.Sound) (described : emulable info = some s)
    (done : (c.handle .alignment info).1 = .emulated) :
    ∀ b ∈ starts info.address s.accessSize, c.mmu.Granted b (accessOf s) := by
  rcases onAlignment_cases sound described with ⟨accessible, -⟩ | ⟨-, u', same, failed⟩
  · exact fun b mem => (accessible b mem).granted
  by_cases all : ∀ b ∈ starts info.address s.accessSize, c.mmu.Finds .walk b (accessOf s)
  · -- No page is in the way, and yet the access failed: the run ends.
    obtain ⟨u'', searched⟩ := firstWalkMiss_eq_none same.sound
      fun b mem => (same.finds b mem).2 (all b mem)
    rw [handle_eq_onStraddling described failed,
      onStraddling_of_found (c := { c with mmu := u' }) searched] at done
    cases done
  · obtain ⟨miss, first⟩ := exists_firstMiss all
    obtain ⟨u, same', eq⟩ := handle_eq_mend sound described first
    have mends : c.mmu.memory.mends miss (accessOf s) = true := by
      rw [← same'.memory.mends sound.memory, ← Bool.not_eq_false]
      intro h
      rw [eq] at done
      exact mend_ne_emulated (c := { c with mmu := u }) same'.sound.memory info s h done
    have once := mendedOnce_handle sound described first mends
    have others : ∀ b ∈ starts info.address s.accessSize, b ≠ miss →
        c.mmu.Ready .walk b (accessOf s) := by
      refine Classical.byContradiction fun blocked => ?_
      rw [once.fatal blocked] at done
      cases done
    intro b mem
    by_cases here : b = miss
    · rw [here]
      exact .inl (MemoryMap.allows_of_mends mends)
    · exact (others b mem here).granted

end Vcpu

end GuestExec
