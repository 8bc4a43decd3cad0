import GuestExec.Activation
import GuestExec.Proofs.Memory.Contents
import GuestExec.Proofs.Mmu.Sound

/-!
# Faults and the access unit

Handling a fault keeps the access unit sound, whatever comes of the fault. The
one place where it changes what later accesses find is `onAccess`: an access that
the region allows is mended, if the host lets its guard be lifted, and `Repaired`
says what that leaves.
-/

namespace GuestExec.Vcpu

open Mmu (Follows Sound SameAnswers)
open MemoryMap (Mended)
open Tlb (setIndex)

variable {c : Vcpu} {info : FaultInfo} {kind : FaultKind}

/-! ## Repairs -/

/-- `u'` is `u` after the page of `a` was mended: it has no guard and is in the TLB, in the other
sets of which nothing changed. -/
structure Repaired (u : Mmu) (a : GuestAddr) (u' : Mmu) : Prop where
  memory : Mended u.memory a u'.memory
  sound : u'.Sound
  holds : ∀ b, b.page = a.page → u'.tlb.Holds b
  others : ∀ b, setIndex b ≠ setIndex a → (u'.tlb.Holds b ↔ u.tlb.Holds b)

theorem Repaired.follows {u u' : Mmu} {a : GuestAddr} (h : Repaired u a u') : u.Follows u' :=
  ⟨h.memory.toSameFrames, h.sound⟩

/-- The pages of other sets are served as before. -/
theorem Repaired.serves_iff {u u' : Mmu} {a b : GuestAddr} {access : Access} (sound : u.Sound)
    (h : Repaired u a u') (other : setIndex b ≠ setIndex a) :
    u'.Serves b access ↔ u.Serves b access := by
  rw [Mmu.Serves, Mmu.Serves, h.others b other, h.memory.toSameFrames.allows sound.memory]

theorem deliver_mmu (c : Vcpu) (info : FaultInfo) (status : UInt64) :
    (c.deliver info status).2.mmu = c.mmu := by
  unfold deliver
  dsimp only
  split <;> rfl

/-- The exception that an access to memory that does not allow it leads to. -/
def refuse (c : Vcpu) (info : FaultInfo) : FaultOutcome × Vcpu :=
  c.deliver info
    (if (c.mmu.memory.translate info.address).isSome then Syndrome.permissionFault
      else Syndrome.translationFault)

theorem onAccess_of_not_allowed (info : FaultInfo)
    (h : c.mmu.memory.allows info.address info.access = false) :
    c.onAccess info = c.refuse info := by
  rw [onAccess, refuse]
  dsimp only
  split
  · rename_i unmapped
    rw [unmapped]
    rfl
  · rename_i mapping translated
    rw [MemoryMap.allows_of_translate translated] at h
    rw [h, translated]
    rfl

/-- Whatever comes of an access, the map is left as mending leaves it. -/
theorem memory_onAccess (c : Vcpu) (info : FaultInfo) : (c.onAccess info).2.mmu.memory =
    (c.mmu.memory.resolveFault info.address info.access).2 := by
  cases allowed : c.mmu.memory.allows info.address info.access with
  | false =>
    rw [onAccess_of_not_allowed info allowed, refuse, deliver_mmu,
      MemoryMap.resolveFault_eq_false (.inl allowed)]
  | true =>
    obtain ⟨r, found, legal⟩ := MemoryMap.exists_find_of_allows allowed
    have translated : c.mmu.memory.translate info.address = some r.mapping :=
      MemoryMap.translate_eq_some_iff.2 ⟨r, found, rfl⟩
    have perms : r.mapping.perms.allows info.access = true := legal
    simp only [onAccess, translated, perms, Bool.not_true, Bool.false_eq_true, if_false]
    split <;> rfl

/-- An access that is good for a retry is retried, whether or not there was a guard to lift. -/
theorem onAccess_eq_retry (w : c.mmu.memory.Regular) {mapping : Mapping}
    (translated : c.mmu.memory.translate info.address = some mapping)
    (mends : c.mmu.memory.mends info.address info.access = true) :
    c.onAccess info = (.retry, { c with
      mmu := Mmu.fill { c.mmu with
        memory := (c.mmu.memory.resolveFault info.address info.access).2 } info.address mapping
      stats := { c.stats with accessRetried := c.stats.accessRetried + 1 } }) := by
  have legal : mapping.perms.allows info.access = true :=
    MemoryMap.allows_of_translate translated ▸ MemoryMap.allows_of_mends mends
  have usable := w.isHostAccessible_resolveFault mends
  simp only [onAccess, translated, legal, usable, Bool.not_true, Bool.false_eq_true, if_false,
    Bool.or_true, if_true]

theorem onAccess_of_mends (info : FaultInfo) (s : c.mmu.Sound)
    (mends : c.mmu.memory.mends info.address info.access = true) :
    ∃ u', Repaired c.mmu info.address u' ∧
      c.onAccess info = (.retry, { c with
        mmu := u'
        stats := { c.stats with accessRetried := c.stats.accessRetried + 1 } }) := by
  have allowed := MemoryMap.allows_of_mends mends
  obtain ⟨r, found, -⟩ := MemoryMap.exists_find_of_allows allowed
  have translated : c.mmu.memory.translate info.address = some r.mapping :=
    MemoryMap.translate_eq_some_iff.2 ⟨r, found, rfl⟩
  have repair := s.memory.mended_resolveFault mends
  have there := (repair.toSameFrames.translate s.memory info.address).trans translated
  have allowed' := (repair.toSameFrames.allows s.memory).trans allowed
  have sound := (s.setMemory repair.toSameFrames).sound
  exact ⟨_, ⟨repair, (sound.fill there allowed').sound, fun b same => Mmu.holds_fill same,
    fun b other => sound.holds_fill_of_ne there other⟩, onAccess_eq_retry s.memory translated mends⟩

/-- An access that is not good for a retry is refused, or fatal if the host lost its page. -/
theorem onAccess_of_not_mends (info : FaultInfo) (w : c.mmu.memory.Regular)
    (h : c.mmu.memory.mends info.address info.access = false) :
    c.onAccess info = c.refuse info ∨ c.onAccess info = c.onUnrecoverable .access info := by
  cases allowed : c.mmu.memory.allows info.address info.access with
  | false => exact .inl (onAccess_of_not_allowed info allowed)
  | true =>
    obtain ⟨guarded, lost⟩ := MemoryMap.isGuarded_of_not_mends allowed h
    obtain ⟨r, found, legal⟩ := MemoryMap.exists_find_of_allows allowed
    have translated : c.mmu.memory.translate info.address = some r.mapping :=
      MemoryMap.translate_eq_some_iff.2 ⟨r, found, rfl⟩
    have perms : r.mapping.perms.allows info.access = true := legal
    have failed : c.mmu.memory.resolveFault info.address info.access = (false, c.mmu.memory) := by
      rw [w.resolveFault_of_guarded found legal guarded, lost, if_neg Bool.false_ne_true]
    have blocked : c.mmu.memory.isHostAccessible info.address 1 info.access = false := by
      rw [w.isHostAccessible_one, MemoryMap.usable, guarded, Bool.not_true, Bool.and_false]
    refine .inr ?_
    simp only [onAccess, translated, perms, failed, blocked, Bool.not_true, Bool.or_self,
      Bool.false_eq_true, if_false]

/-! ## Every fault leaves a sound access unit -/

theorem follows_of_eq {u u' : Mmu} (s : u.Sound) (h : u' = u) : u.Follows u' := h ▸ s.follows

theorem follows_onAccess (s : c.mmu.Sound) (info : FaultInfo) :
    c.mmu.Follows (c.onAccess info).2.mmu := by
  cases allowed : c.mmu.memory.allows info.address info.access with
  | true =>
    obtain ⟨r, found, legal⟩ := MemoryMap.exists_find_of_allows allowed
    have translated : c.mmu.memory.translate info.address = some r.mapping :=
      MemoryMap.translate_eq_some_iff.2 ⟨r, found, rfl⟩
    have perms : r.mapping.perms.allows info.access = true := legal
    have same : MemoryMap.SameFrames c.mmu.memory
      (c.mmu.memory.resolveFault info.address info.access).2 :=
      s.memory.loosens_resolveFault.toSameFrames
    have mended := s.setMemory same
    have there := (same.translate s.memory info.address).trans translated
    have allowed' := (same.allows s.memory).trans allowed
    simp only [onAccess, translated, perms, Bool.not_true, Bool.false_eq_true, if_false]
    split
    · exact mended.trans (mended.sound.fill there allowed')
    · exact mended
  | false =>
    rw [onAccess_of_not_allowed info allowed]
    exact follows_of_eq s (deliver_mmu c info _)

theorem follows_onAlignment (s : c.mmu.Sound) (info : FaultInfo) :
    c.mmu.Follows (c.onAlignment info).2.mmu := by
  unfold onAlignment
  split
  · exact s.follows
  · rename_i syndrome _
    dsimp only
    split
    · have written := s.write .walk info.address
        (storeBytes syndrome.accessSize (c.regs.reg syndrome.register))
      split <;> exact written
    · have read := s.read .walk info.address syndrome.accessSize
      split <;> exact read

theorem follows_onStraddling (s : c.mmu.Sound) (info : FaultInfo) (syndrome : Syndrome) :
    c.mmu.Follows (c.onStraddling info syndrome).2.mmu := by
  have searched := s.firstWalkMiss info.address syndrome.accessSize
    (if syndrome.isWrite then .write else .read)
  unfold onStraddling
  dsimp only
  split
  · exact searched
  · rename_i miss _
    have mended := follows_onAccess (c := { c with mmu := (c.mmu.firstWalkMiss info.address
      syndrome.accessSize (if syndrome.isWrite then .write else .read)).2 }) searched.sound
      { info with address := miss, access := if syndrome.isWrite then .write else .read }
    have mended := searched.trans mended
    split
    · rename_i c' eq
      rw [eq] at mended
      have again := mended.trans (follows_onAlignment mended.sound info)
      split
      · rename_i eq
        rw [eq] at again
        exact again
      · rename_i eq
        rw [eq] at again
        exact again
    · rename_i eq
      rw [eq] at mended
      exact mended

theorem follows_handle (s : c.mmu.Sound) (kind : FaultKind) (info : FaultInfo) :
    c.mmu.Follows (c.handle kind info).2.mmu := by
  cases kind with
  | alignment =>
    have tried := follows_onAlignment s info
    rw [handle]
    split
    · rename_i eq
      rw [eq] at tried
      exact tried
    · rename_i c' eq
      rw [eq] at tried
      split
      · exact tried.trans (follows_onStraddling tried.sound info _)
      · have mended := tried.trans (follows_onAccess tried.sound info)
        split
        · rename_i eq
          rw [eq] at mended
          exact mended
        · rename_i eq
          rw [eq] at mended
          exact mended
  | access => exact follows_onAccess s info
  | breakpoint => exact s.follows
  | undefinedInstruction => exact s.follows
  | unknown => exact s.follows

end GuestExec.Vcpu
