import GuestExec.Proofs.Fault.Sound
import GuestExec.Proofs.Mmu.Contents

/-!
# Misaligned accesses

A misaligned access with a valid syndrome is made in software. It is emulated
when all its pieces are accessible. If not, the first page in its way is
looked at: memory that does not allow the access ends in an abort there, a guard
is lifted, if the host allows it, and the access made once more. It never asks
for a retry.
-/

namespace GuestExec.Vcpu

open MemoryMap (Mended SameGuards)
open Mmu (Accessible SameFinds headLength next starts mem_starts setIndex_ne_of_starts)

variable {c : Vcpu} {info : FaultInfo} {s : Syndrome} {u u' : Mmu} {a b miss : GuestAddr}
  {len : Nat} {access : Access} {lookup : Lookup}

theorem deliver_ne_retry (c : Vcpu) (info : FaultInfo) (status : UInt64) :
    (c.deliver info status).1 ≠ .retry := by
  unfold deliver
  dsimp only
  split
  · exact FaultOutcome.noConfusion
  · exact FaultOutcome.noConfusion

/-- What is made in software is emulated. -/
theorem eq_emulated_of_onAlignment {outcome : FaultOutcome}
    (h : (c.onAlignment info).1 = some outcome) : outcome = .emulated := by
  simp only [onAlignment] at h
  split at h
  · cases h
  · split at h
    · split at h
      · cases h
        rfl
      · cases h
    · split at h
      · cases h
      · cases h
        rfl

theorem onStraddling_ne_retry (c : Vcpu) (info : FaultInfo) (s : Syndrome) :
    (c.onStraddling info s).1 ≠ .retry := by
  unfold onStraddling
  dsimp only
  split
  · exact FaultOutcome.noConfusion
  · split
    · split
      · rename_i eq
        have emulated := eq_emulated_of_onAlignment (congrArg Prod.fst eq)
        rw [emulated]
        exact FaultOutcome.noConfusion
      · exact FaultOutcome.noConfusion
    · rename_i other _
      exact fun retry => other retry

/-- A misaligned access is never retried. -/
theorem handle_alignment_ne_retry (c : Vcpu) (info : FaultInfo) :
    (c.handle .alignment info).1 ≠ .retry := by
  rw [handle]
  split
  · rename_i eq
    have emulated := eq_emulated_of_onAlignment (congrArg Prod.fst eq)
    rw [emulated]
    exact FaultOutcome.noConfusion
  · split
    · exact onStraddling_ne_retry _ info _
    · split
      · exact FaultOutcome.noConfusion
      · rename_i other _
        exact fun retry => other retry

/-! ## Pages in the way -/

/-- `miss` is where the first piece of the access begins that no walk finds. -/
def FirstMiss (u : Mmu) (a : GuestAddr) (len : Nat) (access : Access) (miss : GuestAddr) : Prop :=
  (¬u.Finds .walk a access ∧ miss = a) ∨
    (headLength a len ≠ len ∧ u.Finds .walk a access ∧ ¬u.Finds .walk (next a len) access ∧
      miss = next a len)

theorem FirstMiss.mem (h : FirstMiss u a len access miss) : miss ∈ starts a len := by
  rcases h with ⟨-, rfl⟩ | ⟨straddles, -, -, rfl⟩
  · exact mem_starts.2 (.inl rfl)
  · exact mem_starts.2 (.inr ⟨straddles, rfl⟩)

theorem FirstMiss.not_finds (h : FirstMiss u a len access miss) : ¬u.Finds .walk miss access := by
  rcases h with ⟨missed, rfl⟩ | ⟨-, -, missed, rfl⟩ <;> exact missed

theorem FirstMiss.not_accessible (h : FirstMiss u a len access miss) :
    ¬u.Accessible .walk a len access :=
  fun accessible => h.not_finds (accessible miss h.mem).1

theorem FirstMiss.of_sameFinds (h : FirstMiss u a len access miss)
    (same : u.SameFinds a len access u') : FirstMiss u' a len access miss := by
  have head := same.finds a (mem_starts.2 (.inl rfl))
  rcases h with ⟨missed, rfl⟩ | ⟨straddles, found, missed, rfl⟩
  · exact .inl ⟨fun found => missed (head.1 found), rfl⟩
  · have rest := same.finds _ (mem_starts.2 (.inr ⟨straddles, rfl⟩))
    exact .inr ⟨straddles, head.2 found, fun found => missed (rest.1 found), rfl⟩

/-- The search for the page in the way finds the first one. -/
theorem firstWalkMiss_eq (sound : u.Sound) (first : FirstMiss u a len access miss) :
    ∃ u', u.SameFinds a len access u' ∧ u.firstWalkMiss a len access = (some miss, u') := by
  rcases sound.translateBy_cases .walk a access with
    ⟨finds, mapping, u₁, -, found, eq⟩ | ⟨missed, u₁, same, eq⟩
  · rcases first with ⟨missed, -⟩ | ⟨straddles, -, missed, rfl⟩
    · exact absurd finds missed
    · have same : u.SameFinds a len access u₁ := found.sameFinds finds (mem_starts.2 (.inl rfl))
      rcases found.sound.translateBy_cases .walk (next a len) access with
        ⟨finds', -⟩ | ⟨-, u₂, same', eq'⟩
      · exact absurd ((found.finds_next straddles).1 finds') missed
      · refine ⟨u₂, same.trans (same'.sameFinds found.sound a len access), ?_⟩
        rw [Mmu.translateBy] at eq eq'
        rw [next] at eq'
        simp only [Mmu.firstWalkMiss, eq, straddles, if_false, eq']
        rfl
  · refine ⟨u₁, same.sameFinds sound a len access, ?_⟩
    rcases first with ⟨-, rfl⟩ | ⟨-, found, -⟩
    · rw [Mmu.translateBy] at eq
      simp only [Mmu.firstWalkMiss, eq]
    · exact absurd found missed

/-- The search for the page in the way finds none if all pieces are found. -/
theorem firstWalkMiss_eq_none (sound : u.Sound)
    (all : ∀ b ∈ starts a len, u.Finds .walk b access) :
    ∃ u', u.firstWalkMiss a len access = (none, u') := by
  rcases sound.translateBy_cases .walk a access with
    ⟨-, mapping, u₁, -, found, eq⟩ | ⟨missed, -⟩
  · rw [Mmu.translateBy] at eq
    by_cases whole : headLength a len = len
    · exact ⟨u₁, by simp only [Mmu.firstWalkMiss, eq, whole, if_true]⟩
    · have rest := (found.finds_next whole).2 (all _ (mem_starts.2 (.inr ⟨whole, rfl⟩)))
      rcases found.sound.translateBy_cases .walk (next a len) access with
        ⟨-, mapping', u₂, -, -, eq'⟩ | ⟨missed, -⟩
      · rw [Mmu.translateBy, next] at eq'
        exact ⟨u₂, by simp only [Mmu.firstWalkMiss, eq, whole, if_false, eq']⟩
      · exact absurd rest missed
  · exact absurd (all a (mem_starts.2 (.inl rfl))) missed

theorem exists_firstMiss (missed : ¬∀ b ∈ starts a len, u.Finds .walk b access) :
    ∃ miss, FirstMiss u a len access miss := by
  by_cases head : u.Finds .walk a access
  · have straddles : headLength a len ≠ len := by
      intro whole
      refine missed fun b mem => ?_
      rcases mem_starts.1 mem with rfl | ⟨straddles, -⟩
      · exact head
      · exact absurd whole straddles
    have rest : ¬u.Finds .walk (next a len) access := by
      intro found
      refine missed fun b mem => ?_
      rcases mem_starts.1 mem with rfl | ⟨-, rfl⟩
      · exact head
      · exact found
    exact ⟨_, .inr ⟨straddles, head, rest, rfl⟩⟩
  · exact ⟨a, .inl ⟨head, rfl⟩⟩

/-- The page in the way is that of the first byte that no walk finds, and begins with this byte
unless the access does. -/
theorem firstMiss_iff (sound : u.Sound) (pos : 0 < len) (short : len ≤ pageSize) :
    FirstMiss u a len access miss ↔ ∃ k < len, miss = a + UInt64.ofNat k ∧
      ¬u.Finds .walk miss access ∧ ∀ i < k, u.Finds .walk (a + UInt64.ofNat i) access := by
  constructor
  · rintro (⟨missed, rfl⟩ | ⟨straddles, found, missed, rfl⟩)
    · exact ⟨0, pos, (GuestAddr.add_zero _).symm, missed,
        fun i before => absurd before (Nat.not_lt_zero i)⟩
    · exact ⟨headLength a len, (Mmu.headLength_of_straddles straddles).2, rfl, missed,
        fun i before => (sound.finds_page (Mmu.page_add_of_lt before)).2 found⟩
  · rintro ⟨k, inside, rfl, missed, before⟩
    obtain ⟨j, le, mem, same⟩ := Mmu.exists_start inside short
    rcases Nat.lt_or_eq_of_le le with lt | rfl
    · exact absurd ((sound.finds_page same).2 (before j lt)) missed
    · rcases mem_starts.1 mem with eq | ⟨straddles, eq⟩
      · rw [eq] at missed ⊢
        exact .inl ⟨missed, rfl⟩
      · rcases Nat.eq_zero_or_pos j with rfl | later
        · rw [GuestAddr.add_zero] at eq
          exact absurd (congrArg GuestAddr.page eq.symm) (Mmu.page_next_ne straddles)
        · have head := before 0 later
          rw [GuestAddr.add_zero] at head
          rw [eq] at missed ⊢
          exact .inr ⟨straddles, head, missed, rfl⟩

/-! ## Access by access -/

/-- Reads or writes, as the syndrome says. -/
def accessOf (s : Syndrome) : Access := if s.isWrite then .write else .read

theorem accessSize_bounds (s : Syndrome) : 0 < s.accessSize ∧ s.accessSize ≤ 8 := by
  have low : (s.field 22 2).toNat ≤ 3 := by
    rw [Syndrome.field, UInt64.toNat_and]
    exact Nat.and_le_right
  rw [Syndrome.accessSize, Nat.one_shiftLeft]
  exact ⟨Nat.two_pow_pos _, Nat.pow_le_pow_right (by decide) low⟩

/-- No guard stands or falls with what is made in software. -/
theorem sameGuards_onAlignment (sound : c.mmu.Sound) (info : FaultInfo) :
    SameGuards c.mmu.memory (c.onAlignment info).2.mmu.memory := by
  unfold onAlignment
  split
  · exact .refl _
  · rename_i s _
    dsimp only
    split
    · have wrote := sound.sameFinds_write .walk info.address
        (storeBytes s.accessSize (c.regs.reg s.register))
      split <;> exact wrote.memory
    · have read := sound.sameFinds_read .walk info.address s.accessSize
      split <;> exact read.memory

/-- The access is emulated if it is accessible, and else changes nothing that counts. -/
theorem onAlignment_cases (sound : c.mmu.Sound) (described : emulable info = some s) :
    (c.mmu.Accessible .walk info.address s.accessSize (accessOf s) ∧
        (c.onAlignment info).1 = some .emulated) ∨
      (¬c.mmu.Accessible .walk info.address s.accessSize (accessOf s) ∧ ∃ u',
        c.mmu.SameFinds info.address s.accessSize (accessOf s) u' ∧
        c.onAlignment info = (none, { c with mmu := u' })) := by
  obtain ⟨pos, small⟩ := accessSize_bounds s
  have short : s.accessSize ≤ pageSize := Nat.le_trans small (by decide)
  cases write : s.isWrite with
  | true =>
    have access : accessOf s = .write := by rw [accessOf, write, if_pos rfl]
    have data := length_storeBytes s.accessSize (c.regs.reg s.register)
    have done := sound.write_eq_true .walk info.address
      (storeBytes s.accessSize (c.regs.reg s.register)) (data.symm ▸ short)
      (data.symm ▸ Nat.ne_of_gt pos)
    have same := sound.sameFinds_write .walk info.address
      (storeBytes s.accessSize (c.regs.reg s.register))
    rw [data] at done same
    rw [access, onAlignment, described]
    simp only [write, if_true]
    cases result : (c.mmu.write .walk info.address
        (storeBytes s.accessSize (c.regs.reg s.register))).1 with
    | true => exact .inl ⟨done.1 result, rfl⟩
    | false =>
      refine .inr ⟨fun accessible => ?_, _, same, rfl⟩
      rw [done.2 accessible] at result
      cases result
  | false =>
    have access : accessOf s = .read := by rw [accessOf, write, if_neg Bool.false_ne_true]
    have done := sound.read_isSome .walk info.address s.accessSize short (Nat.ne_of_gt pos)
    have same := sound.sameFinds_read .walk info.address s.accessSize
    rw [access, onAlignment, described]
    simp only [write, Bool.false_eq_true, if_false]
    cases result : (c.mmu.read .walk info.address s.accessSize).1 with
    | some bytes =>
      rw [result] at done
      exact .inl ⟨done.1 rfl, rfl⟩
    | none =>
      rw [result] at done
      exact .inr ⟨fun accessible => Bool.false_ne_true (done.2 accessible), _, same, rfl⟩

/-- The guest is told of an access to `a` that its memory does not allow, or the run ends if it
has no vector. -/
structure Aborted (c : Vcpu) (a : GuestAddr) (access : Access) (result : FaultOutcome × Vcpu) :
    Prop where
  outcome : result.1 = if c.regs.vbar = 0 then .halt .dataAbort else .redirected
  far : result.2.regs.far = a.word
  esr : result.2.regs.esr = (Syndrome.ofClass Syndrome.dataAbortLower
    ((if (c.mmu.memory.translate a).isSome then Syndrome.permissionFault
      else Syndrome.translationFault) ||| (if access.isWrite then Syndrome.writeBit else 0))).word

theorem aborted_refuse (c : Vcpu) (info : FaultInfo) (data : info.access ≠ .execute) :
    Aborted c info.address info.access (c.refuse info) := by
  obtain ⟨address, access, syndrome⟩ := info
  cases access with
  | execute => exact absurd rfl data
  | _ =>
    simp only [refuse, deliver]
    split
    · rename_i none
      exact ⟨by rw [if_pos none], rfl, rfl⟩
    · rename_i some
      exact ⟨by rw [if_neg some], rfl, rfl⟩

theorem refuse_ne_retry (c : Vcpu) (info : FaultInfo) : (c.refuse info).1 ≠ .retry :=
  deliver_ne_retry c info _

/-- Only an access that is good for a retry is retried. -/
theorem onAccess_ne_retry (info : FaultInfo) (w : c.mmu.memory.Regular)
    (h : c.mmu.memory.mends info.address info.access = false) : (c.onAccess info).1 ≠ .retry := by
  rcases onAccess_of_not_mends info w h with refused | fatal
  · rw [refused]
    exact refuse_ne_retry c info
  · rw [fatal]
    exact FaultOutcome.noConfusion

theorem accessOf_ne_execute (s : Syndrome) : accessOf s ≠ .execute := by
  unfold accessOf
  split <;> exact Access.noConfusion

/-- The page that was mended is ready for an access that its region allows. -/
theorem Repaired.ready (sound : u.Sound) (h : Repaired u miss u')
    (allowed : u.memory.allows miss access = true) : u'.Ready lookup miss access := by
  refine ⟨.inl ⟨h.holds miss rfl, fun write => ?_⟩, ?_⟩
  · rw [h.memory.toSameFrames.allows sound.memory]
    cases access with
    | write => exact allowed
    | _ => cases write
  · rw [h.memory.guards]
    simp

/-- The pages of other sets are as ready as before. -/
theorem Repaired.ready_iff (sound : u.Sound) (h : Repaired u miss u')
    (other : Tlb.setIndex b ≠ Tlb.setIndex miss) :
    u'.Ready lookup b access ↔ u.Ready lookup b access := by
  have page : b.page ≠ miss.page := fun same => other (Tlb.setIndex_of_page same)
  rw [Mmu.Ready, Mmu.Ready, Mmu.Finds, Mmu.Finds, h.serves_iff sound other,
    h.memory.usable sound.memory, if_neg page, h.memory.guards, decide_eq_true page, Bool.and_true]

/-- Mends the page of `miss` and makes the access once more. -/
def mend (c : Vcpu) (info : FaultInfo) (s : Syndrome) (miss : GuestAddr) : FaultOutcome × Vcpu :=
  match c.onAccess { info with address := miss, access := accessOf s } with
  | (.retry, c) =>
    match c.onAlignment info with
    | (some outcome, c) => (outcome, c)
    | (none, c) => c.onUnrecoverable .alignment info
  | (outcome, c) => (outcome, c)

theorem onStraddling_eq_mend
    (searched : c.mmu.firstWalkMiss info.address s.accessSize (accessOf s) = (some miss, u)) :
    c.onStraddling info s = ({ c with mmu := u } : Vcpu).mend info s miss := by
  have access : (if s.isWrite then Access.write else Access.read) = accessOf s := rfl
  unfold onStraddling
  dsimp only
  rw [access, searched]
  rfl

/-- If no page is in the way, nothing can be mended. -/
theorem onStraddling_of_found
    (searched : c.mmu.firstWalkMiss info.address s.accessSize (accessOf s) = (none, u)) :
    c.onStraddling info s = ({ c with mmu := u } : Vcpu).onUnrecoverable .alignment info := by
  have access : (if s.isWrite then Access.write else Access.read) = accessOf s := rfl
  unfold onStraddling
  dsimp only
  rw [access, searched]

/-- A page that refuses the access is not mended. -/
theorem mend_eq_refuse (info : FaultInfo) (s : Syndrome)
    (refused : c.mmu.memory.allows miss (accessOf s) = false) :
    c.mend info s miss = c.refuse { info with address := miss, access := accessOf s } := by
  have told := onAccess_of_not_allowed { info with address := miss, access := accessOf s } refused
  have never := refuse_ne_retry c { info with address := miss, access := accessOf s }
  unfold mend
  rw [told]
  generalize c.refuse _ = result at never
  obtain ⟨outcome, c'⟩ := result
  cases outcome with
  | retry => exact absurd rfl never
  | _ => rfl

theorem mend_of_refused (info : FaultInfo) (s : Syndrome)
    (refused : c.mmu.memory.allows miss (accessOf s) = false) :
    Aborted c miss (accessOf s) (c.mend info s miss) ∧
      SameGuards c.mmu.memory (c.mend info s miss).2.mmu.memory := by
  rw [mend_eq_refuse info s refused]
  refine ⟨aborted_refuse c { info with address := miss, access := accessOf s }
    (accessOf_ne_execute s), ?_⟩
  rw [refuse, deliver_mmu]
  exact .refl _

/-- What comes of an access whose piece at `miss` was mended: it is emulated if the others are
ready, and else the run ends. -/
structure MendedOnce (c : Vcpu) (a : GuestAddr) (len : Nat) (access : Access) (miss : GuestAddr)
    (result : FaultOutcome × Vcpu) : Prop where
  mended : Mended c.mmu.memory miss result.2.mmu.memory
  emulated : (∀ b ∈ starts a len, b ≠ miss → c.mmu.Ready .walk b access) → result.1 = .emulated
  fatal : (¬∀ b ∈ starts a len, b ≠ miss → c.mmu.Ready .walk b access) →
    result.1 = .halt .fatalError

theorem mend_of_mends (sound : c.mmu.Sound) (described : emulable info = some s)
    (mem : miss ∈ starts info.address s.accessSize)
    (mends : c.mmu.memory.mends miss (accessOf s) = true) :
    MendedOnce c info.address s.accessSize (accessOf s) miss (c.mend info s miss) := by
  have allowed := MemoryMap.allows_of_mends mends
  obtain ⟨u', repaired, retried⟩ := onAccess_of_mends
    { info with address := miss, access := accessOf s } sound mends
  have others : u'.Accessible .walk info.address s.accessSize (accessOf s) ↔
      ∀ b ∈ starts info.address s.accessSize, b ≠ miss → c.mmu.Ready .walk b (accessOf s) := by
    refine forall₂_congr fun b mem' => ?_
    by_cases here : b = miss
    · rw [here]
      exact iff_of_true (repaired.ready sound allowed) (absurd rfl)
    · rw [repaired.ready_iff sound (setIndex_ne_of_starts mem' mem here)]
      exact ⟨fun ready _ => ready, fun ready => ready here⟩
  unfold mend
  rw [retried]
  dsimp only
  generalize again : ({ c with
    mmu := u'
    stats := { c.stats with accessRetried := c.stats.accessRetried + 1 } } : Vcpu) = c₁
  have mmu : c₁.mmu = u' := by rw [← again]
  have sound' : c₁.mmu.Sound := mmu ▸ repaired.sound
  have mended : Mended c.mmu.memory miss (c₁.onAlignment info).2.mmu.memory :=
    repaired.memory.trans_sameGuards (mmu ▸ sameGuards_onAlignment sound' info)
  rw [← mmu] at others
  rcases onAlignment_cases sound' described with ⟨accessible, emulated⟩ | ⟨failed, u'', -, eq⟩
  · obtain ⟨c₂, eq⟩ : ∃ c₂, c₁.onAlignment info = (some .emulated, c₂) := ⟨_, Prod.ext emulated rfl⟩
    rw [eq] at mended ⊢
    exact ⟨mended, fun _ => rfl, fun blocked => absurd (others.1 accessible) blocked⟩
  · rw [eq] at mended ⊢
    exact ⟨mended, fun ready => absurd (others.2 ready) failed, fun _ => rfl⟩

/-! ## Misaligned accesses as a whole -/

theorem handle_of_accessible (sound : c.mmu.Sound) (described : emulable info = some s)
    (accessible : c.mmu.Accessible .walk info.address s.accessSize (accessOf s)) :
    (c.handle .alignment info).1 = .emulated ∧
      SameGuards c.mmu.memory (c.handle .alignment info).2.mmu.memory := by
  have same := sameGuards_onAlignment sound info
  rcases onAlignment_cases sound described with ⟨-, emulated⟩ | ⟨failed, -⟩
  · obtain ⟨c', eq⟩ : ∃ c', c.onAlignment info = (some .emulated, c') := ⟨_, Prod.ext emulated rfl⟩
    rw [eq] at same
    simp only [handle, eq]
    exact ⟨trivial, same⟩
  · exact absurd accessible failed

theorem handle_eq_onStraddling {c' : Vcpu} (described : emulable info = some s)
    (failed : c.onAlignment info = (none, c')) :
    c.handle .alignment info = c'.onStraddling info s := by
  simp only [handle, failed, described]

/-- With a page in its way, the access is made once this page was mended. -/
theorem handle_eq_mend (sound : c.mmu.Sound) (described : emulable info = some s)
    (first : FirstMiss c.mmu info.address s.accessSize (accessOf s) miss) :
    ∃ u, c.mmu.SameFinds info.address s.accessSize (accessOf s) u ∧
      c.handle .alignment info = ({ c with mmu := u } : Vcpu).mend info s miss := by
  rcases onAlignment_cases sound described with ⟨accessible, -⟩ | ⟨-, u', same, failed⟩
  · exact absurd accessible first.not_accessible
  · obtain ⟨u, same', searched⟩ := firstWalkMiss_eq same.sound (first.of_sameFinds same)
    refine ⟨u, same.trans same', ?_⟩
    rw [handle_eq_onStraddling described failed]
    exact onStraddling_eq_mend (c := { c with mmu := u' }) searched

/-- An access to memory that does not allow it is refused there, and no page is mended for it. -/
theorem aborted_handle (sound : c.mmu.Sound) (described : emulable info = some s)
    (first : FirstMiss c.mmu info.address s.accessSize (accessOf s) miss)
    (refused : c.mmu.memory.allows miss (accessOf s) = false) :
    Aborted c miss (accessOf s) (c.handle .alignment info) ∧
      SameGuards c.mmu.memory (c.handle .alignment info).2.mmu.memory := by
  obtain ⟨u, same, eq⟩ := handle_eq_mend sound described first
  have frames := same.memory.toSameFrames
  have refused' : u.memory.allows miss (accessOf s) = false :=
    (frames.allows sound.memory).trans refused
  obtain ⟨told, kept⟩ := mend_of_refused (c := { c with mmu := u }) info s refused'
  rw [eq]
  refine ⟨⟨told.outcome, told.far, ?_⟩, same.memory.trans kept⟩
  rw [← frames.translate sound.memory]
  exact told.esr

/-- One page is mended: the access is then emulated, or the run ends. -/
theorem mendedOnce_handle (sound : c.mmu.Sound) (described : emulable info = some s)
    (first : FirstMiss c.mmu info.address s.accessSize (accessOf s) miss)
    (mends : c.mmu.memory.mends miss (accessOf s) = true) :
    MendedOnce c info.address s.accessSize (accessOf s) miss (c.handle .alignment info) := by
  obtain ⟨u, same, eq⟩ := handle_eq_mend sound described first
  have mends' : u.memory.mends miss (accessOf s) = true :=
    (same.memory.mends sound.memory).trans mends
  have once := mend_of_mends (c := { c with mmu := u }) same.sound described first.mem mends'
  have others : (∀ b ∈ starts info.address s.accessSize, b ≠ miss →
      u.Ready .walk b (accessOf s)) ↔ ∀ b ∈ starts info.address s.accessSize, b ≠ miss →
      c.mmu.Ready .walk b (accessOf s) :=
    forall₂_congr fun b mem => imp_congr_right fun _ => same.ready_iff mem
  rw [eq]
  exact ⟨same.memory.trans_mended once.mended, fun ready => once.emulated (others.2 ready),
    fun blocked => once.fatal fun ready => blocked (others.1 ready)⟩

/-- Whether or not the host allows it, at most the page of `miss` is mended. -/
theorem guards_mend (sound : c.mmu.Sound) (info : FaultInfo) (s : Syndrome) :
    SameGuards c.mmu.memory (c.mend info s miss).2.mmu.memory ∨
      Mended c.mmu.memory miss (c.mend info s miss).2.mmu.memory := by
  have memory := memory_onAccess c { info with address := miss, access := accessOf s }
  have sound' := (follows_onAccess sound
    { info with address := miss, access := accessOf s }).sound
  have tried : SameGuards c.mmu.memory
        (c.onAccess { info with address := miss, access := accessOf s }).2.mmu.memory ∨
      Mended c.mmu.memory miss
        (c.onAccess { info with address := miss, access := accessOf s }).2.mmu.memory := by
    rw [memory]
    rcases sound.memory.resolveFault_or miss (accessOf s) with same | ⟨r, found, -, -, done⟩
    · rw [same]
      exact .inl (.refl _)
    · rw [done]
      exact .inr (sound.memory.mended_mendedAt found)
  unfold mend
  generalize c.onAccess { info with address := miss, access := accessOf s } = result
    at sound' tried
  obtain ⟨outcome, c₁⟩ := result
  cases outcome with
  | retry =>
    have again := sameGuards_onAlignment sound' info
    have both := tried.imp (·.trans again) (·.trans_sameGuards again)
    dsimp only
    rcases eq : c₁.onAlignment info with ⟨_ | outcome, c₂⟩ <;>
    · rw [eq] at both
      exact both
  | _ => exact tried

/-! ## Byte by byte -/

/-- Byte `i` of the access that faulted. -/
def byteAt (info : FaultInfo) (i : Nat) : GuestAddr := info.address + UInt64.ofNat i

/-- Every byte is allowed, no guarded one is in the TLB, and the guarded ones share a page that the
host still has. -/
structure Mendable (c : Vcpu) (info : FaultInfo) (s : Syndrome) : Prop where
  mends : ∀ i < s.accessSize, c.mmu.memory.mends (byteAt info i) (accessOf s) = true
  missed : ∀ i < s.accessSize, c.mmu.memory.isGuarded (byteAt info i) = true →
    c.mmu.served (byteAt info i) (accessOf s) = false
  onePage : ∀ i < s.accessSize, ∀ j < s.accessSize,
    c.mmu.memory.isGuarded (byteAt info i) = true →
    c.mmu.memory.isGuarded (byteAt info j) = true → (byteAt info i).page = (byteAt info j).page

/-- Byte `k` is the first that is not allowed. It is not in the TLB, and no byte before has to be
mended first. -/
structure Refused (c : Vcpu) (info : FaultInfo) (s : Syndrome) (k : Nat) : Prop where
  inside : k < s.accessSize
  refused : c.mmu.memory.allows (byteAt info k) (accessOf s) = false
  before : ∀ i < k, c.mmu.memory.allows (byteAt info i) (accessOf s) = true
  missed : c.mmu.served (byteAt info k) (accessOf s) = false
  served : ∀ i < k, c.mmu.memory.isGuarded (byteAt info i) = true →
    c.mmu.served (byteAt info i) (accessOf s) = true

/-- Byte `i` has to be mended and can be, and byte `j`, on the next page, is guarded or not allowed.
The TLB has neither. -/
structure Blocked (c : Vcpu) (info : FaultInfo) (s : Syndrome) (i j : Nat) : Prop where
  order : i < j
  inside : j < s.accessSize
  apart : (byteAt info i).page ≠ (byteAt info j).page
  mends : c.mmu.memory.mends (byteAt info i) (accessOf s) = true
  guarded : c.mmu.memory.isGuarded (byteAt info i) = true
  missed : c.mmu.served (byteAt info i) (accessOf s) = false
  blocked : c.mmu.memory.isGuarded (byteAt info j) = true ∨
    c.mmu.memory.allows (byteAt info j) (accessOf s) = false
  missed' : c.mmu.served (byteAt info j) (accessOf s) = false

theorem exists_byte_of_start (s : Syndrome) (mem : b ∈ starts info.address s.accessSize) :
    ∃ i, i < s.accessSize ∧ b = byteAt info i :=
  Mmu.exists_byte (accessSize_bounds s).1 mem

/-- A misaligned access lifts the guard of one of its pages at most. -/
theorem guards_handle (sound : c.mmu.Sound) (described : emulable info = some s) :
    SameGuards c.mmu.memory (c.handle .alignment info).2.mmu.memory ∨
      ∃ i < s.accessSize,
        Mended c.mmu.memory (byteAt info i) (c.handle .alignment info).2.mmu.memory := by
  rcases onAlignment_cases sound described with ⟨accessible, -⟩ | ⟨-, u', same, failed⟩
  · exact .inl (handle_of_accessible sound described accessible).2
  · by_cases all : ∀ b ∈ starts info.address s.accessSize, c.mmu.Finds .walk b (accessOf s)
    · obtain ⟨u, searched⟩ := firstWalkMiss_eq_none same.sound
        fun b mem => (same.finds b mem).2 (all b mem)
      have memory : u.memory = u'.memory := by
        have kept := Mmu.memory_firstWalkMiss u' info.address s.accessSize (accessOf s)
        rwa [searched] at kept
      rw [handle_eq_onStraddling described failed,
        onStraddling_of_found (c := { c with mmu := u' }) searched]
      exact .inl (memory ▸ same.memory)
    · obtain ⟨miss, first⟩ := exists_firstMiss all
      obtain ⟨i, inside, rfl⟩ := exists_byte_of_start s first.mem
      obtain ⟨u, same, eq⟩ := handle_eq_mend sound described first
      rw [eq]
      exact (guards_mend (c := { c with mmu := u }) same.sound info s).imp
        (same.memory.trans ·) fun mended => ⟨i, inside, same.memory.trans_mended mended⟩

theorem finds_of_allowed (allowed : u.memory.allows b access = true)
    (free : u.memory.isGuarded b = false) : u.Finds .walk b access := by
  refine .inr ⟨rfl, ?_⟩
  rw [MemoryMap.usable, allowed, free]
  rfl

theorem not_finds (sound : u.Sound) (missed : u.served b access = false)
    (blocked : u.memory.isGuarded b = true ∨ u.memory.allows b access = false) :
    ¬u.Finds .walk b access := by
  rintro (serves | ⟨-, usable⟩)
  · rw [sound.serves_iff, missed] at serves
    cases serves
  · rw [MemoryMap.usable, Bool.and_eq_true, Bool.not_eq_true'] at usable
    rcases blocked with guarded | refused
    · rw [usable.2] at guarded
      cases guarded
    · rw [usable.1] at refused
      cases refused

theorem Mendable.allowed (h : Mendable c info s) {i : Nat} (inside : i < s.accessSize) :
    c.mmu.memory.allows (byteAt info i) (accessOf s) = true :=
  MemoryMap.allows_of_mends (h.mends i inside)

/-- The pieces of a mendable access are ready but for one at most. -/
theorem Mendable.ready_of_ne (h : Mendable c info s)
    (mem : miss ∈ starts info.address s.accessSize)
    (guarded : c.mmu.memory.isGuarded miss = true)
    (mem' : b ∈ starts info.address s.accessSize) (other : b ≠ miss) :
    c.mmu.Ready .walk b (accessOf s) := by
  obtain ⟨i, inside, rfl⟩ := exists_byte_of_start s mem
  obtain ⟨j, inside', rfl⟩ := exists_byte_of_start s mem'
  have free : c.mmu.memory.isGuarded (byteAt info j) = false := by
    rw [← Bool.not_eq_true]
    intro guarded'
    have page := h.onePage j inside' i inside guarded' guarded
    exact setIndex_ne_of_starts mem' mem other (Tlb.setIndex_of_page page)
  exact ⟨finds_of_allowed (h.allowed inside') free, free⟩

theorem Mendable.firstMiss (sound : c.mmu.Sound) (h : Mendable c info s)
    (mem : miss ∈ starts info.address s.accessSize)
    (guarded : c.mmu.memory.isGuarded miss = true) :
    FirstMiss c.mmu info.address s.accessSize (accessOf s) miss := by
  have missed : ¬c.mmu.Finds .walk miss (accessOf s) := by
    obtain ⟨i, inside, rfl⟩ := exists_byte_of_start s mem
    exact not_finds sound (h.missed i inside guarded) (.inl guarded)
  rcases mem_starts.1 mem with rfl | ⟨straddles, rfl⟩
  · exact .inl ⟨missed, rfl⟩
  · have head := h.ready_of_ne mem guarded (mem_starts.2 (.inl rfl))
      (fun eq => Mmu.page_next_ne straddles (congrArg GuestAddr.page eq.symm))
    exact .inr ⟨straddles, head.1, missed, rfl⟩

theorem Mendable.handle (sound : c.mmu.Sound) (described : emulable info = some s)
    (h : Mendable c info s) :
    (c.handle .alignment info).1 = .emulated ∧ ∀ i < s.accessSize,
      (c.handle .alignment info).2.mmu.memory.isGuarded (byteAt info i) = false := by
  by_cases guarded : ∃ i < s.accessSize, c.mmu.memory.isGuarded (byteAt info i) = true
  · obtain ⟨i, inside, guarded⟩ := guarded
    have short : s.accessSize ≤ pageSize := Nat.le_trans (accessSize_bounds s).2 (by decide)
    obtain ⟨j, le, mem, page⟩ := Mmu.exists_start inside short
    have inside' := Nat.lt_of_le_of_lt le inside
    have guarded' : c.mmu.memory.isGuarded (byteAt info j) = true :=
      (sound.memory.isGuarded_page page).symm.trans guarded
    have once := mendedOnce_handle sound described (h.firstMiss sound mem guarded')
      (h.mends j inside')
    refine ⟨once.emulated fun b mem' other => h.ready_of_ne mem guarded' mem' other,
      fun k inside'' => ?_⟩
    rw [once.mended.guards, Bool.and_eq_false_iff, decide_eq_false_iff_not, Decidable.not_not]
    cases here : c.mmu.memory.isGuarded (byteAt info k) with
    | false => exact .inl rfl
    | true => exact .inr (h.onePage k inside'' j inside' here guarded')
  · have free : ∀ i < s.accessSize, c.mmu.memory.isGuarded (byteAt info i) = false := by
      intro i inside
      rw [← Bool.not_eq_true]
      exact fun guarded' => guarded ⟨i, inside, guarded'⟩
    obtain ⟨emulated, same⟩ := handle_of_accessible sound described fun b mem => by
      obtain ⟨i, inside, rfl⟩ := exists_byte_of_start s mem
      exact ⟨finds_of_allowed (h.allowed inside) (free i inside), free i inside⟩
    exact ⟨emulated, fun i inside => (same.guards _).trans (free i inside)⟩

/-- The page of the first byte that is refused is the first in the way. -/
theorem Refused.firstMiss {k : Nat} (sound : c.mmu.Sound) (h : Refused c info s k) :
    FirstMiss c.mmu info.address s.accessSize (accessOf s) (byteAt info k) := by
  have bounds := accessSize_bounds s
  refine (firstMiss_iff sound bounds.1 (Nat.le_trans bounds.2 (by decide))).2
    ⟨k, h.inside, rfl, not_finds sound h.missed (.inr h.refused), fun i before => ?_⟩
  cases guarded : c.mmu.memory.isGuarded (byteAt info i) with
  | true => exact .inl (sound.serves_iff.2 (h.served i before guarded))
  | false => exact finds_of_allowed (h.before i before) guarded

theorem Refused.handle {k : Nat} (sound : c.mmu.Sound) (described : emulable info = some s)
    (h : Refused c info s k) :
    Aborted c (byteAt info k) (accessOf s) (c.handle .alignment info) ∧
      SameGuards c.mmu.memory (c.handle .alignment info).2.mmu.memory :=
  aborted_handle sound described (h.firstMiss sound) h.refused

/-- Bytes of different pages are one of the head and one after it. -/
theorem Blocked.pages {i j : Nat} (h : Blocked c info s i j) :
    headLength info.address s.accessSize ≠ s.accessSize ∧
      (byteAt info i).page = info.address.page ∧
      (byteAt info j).page = (next info.address s.accessSize).page := by
  have short : s.accessSize ≤ pageSize := Nat.le_trans (accessSize_bounds s).2 (by decide)
  have order := h.order
  have inside := h.inside
  have rest : headLength info.address s.accessSize ≤ j := by
    rw [← Nat.not_lt]
    intro head
    have same := Mmu.page_add_of_lt (Nat.lt_trans order head)
    exact h.apart (same.trans (Mmu.page_add_of_lt head).symm)
  have straddles : headLength info.address s.accessSize ≠ s.accessSize := by omega
  have onRest : (byteAt info j).page = (next info.address s.accessSize).page :=
    Mmu.page_add_of_le straddles rest inside short
  refine ⟨straddles, ?_, onRest⟩
  by_cases head : i < headLength info.address s.accessSize
  · exact Mmu.page_add_of_lt head
  · have same := Mmu.page_add_of_le straddles (Nat.le_of_not_lt head) (Nat.lt_trans order inside)
      short
    exact absurd (same.trans onRest.symm) h.apart

theorem Blocked.handle {i j : Nat} (sound : c.mmu.Sound) (described : emulable info = some s)
    (h : Blocked c info s i j) :
    (c.handle .alignment info).1 = .halt .fatalError ∧
      Mended c.mmu.memory (byteAt info i) (c.handle .alignment info).2.mmu.memory := by
  obtain ⟨straddles, onHead, onRest⟩ := h.pages
  have missed := h.missed
  have guarded := h.guarded
  have mends := h.mends
  have missed' := h.missed'
  have blocked := h.blocked
  rw [sound.served_page onHead] at missed
  rw [sound.memory.isGuarded_page onHead] at guarded
  rw [sound.memory.mends_page onHead] at mends
  rw [sound.served_page onRest] at missed'
  rw [sound.memory.isGuarded_page onRest, sound.memory.allows_page onRest] at blocked
  have first : FirstMiss c.mmu info.address s.accessSize (accessOf s) info.address :=
    .inl ⟨not_finds sound missed (.inl guarded), rfl⟩
  have once := mendedOnce_handle sound described first mends
  refine ⟨once.fatal fun others => ?_, once.mended.of_page onHead⟩
  have ready := others _ (mem_starts.2 (.inr ⟨straddles, rfl⟩))
    (fun eq => Mmu.page_next_ne straddles (congrArg GuestAddr.page eq))
  exact not_finds sound missed' blocked ready.1

end GuestExec.Vcpu
