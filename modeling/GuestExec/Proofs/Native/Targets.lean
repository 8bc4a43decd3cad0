import GuestExec.Proofs.Memory.Stored
import GuestExec.Proofs.Native.A64
import GuestExec.Proofs.Native.Armed

/-!
# What a step is armed for

Arming reads the word at `pc` and guards the addresses that it may go to, all but
`pc` itself. If that leaves nothing to guard because the word is an unconditional
branch to itself, the step counts as made already. Here both are measured by what
executing the word does: a branch with link to itself changes X30, and a
conditional branch to itself that is taken comes to no breakpoint, however often.
-/

namespace GuestExec.Native

variable {m m' : MemoryMap} {t t' : SiteTable} {regs : Registers} {p : StepPatch} {a pc : UInt64}
  {word : UInt32} {branch : Branch} {s : Successors}

/-- The guest reads `word` at `pc`. -/
def Reads (m : MemoryMap) (pc : UInt64) (word : UInt32) : Prop :=
  ∃ bytes, m.read ⟨pc⟩ 4 = .ok bytes ∧ UInt32.ofNat (ofLeBytes bytes) = word

/-- Code that the guest may run and read can be read. -/
theorem Runnable.exists_reads (h : Runnable m pc) (w : m.WellFormed)
    (readable : m.allows ⟨pc⟩ .read = true) : ∃ word, Reads m pc word := by
  obtain ⟨r, code⟩ := h.exists_codeIn
  have allowed : r.perms.allows .read = true := MemoryMap.allows_of_find code.found ▸ readable
  have fits := fits_of_aligned h.aligned
  have free : m.isGuarded ⟨pc⟩ = false := by
    rw [← w.isGuarded_of_fits code.found fits]
    exact code.unguarded
  exact ⟨_, _, w.read_eq code.found allowed free (by decide) fits, rfl⟩

/-! ## Branches to themselves -/

namespace StepPatch

/-- Nothing is armed and nothing changes exactly when the word at `pc` goes nowhere else. -/
theorem arm_eq_selfLoop_iff : (arm t m regs).1 = .selfLoop ↔
    ∃ word, Reads m regs.pc word ∧ successors regs.pc word regs = { first := regs.pc } := by
  unfold arm
  constructor
  · intro loops
    split at loops
    · cases loops
    · rename_i bytes read
      dsimp only at loops
      split at loops
      · rename_i back
        exact ⟨_, ⟨bytes, read, rfl⟩, back⟩
      · cases loops
  · rintro ⟨word, ⟨bytes, read, rfl⟩, back⟩
    rw [read]
    dsimp only
    rw [if_pos back]

theorem arm_of_selfLoop (loops : (arm t m regs).1 = .selfLoop) : (arm t m regs).2 = (t, m) := by
  unfold arm at loops ⊢
  split at loops
  · cases loops
  · rename_i bytes read
    dsimp only at loops
    split at loops
    · rename_i back
      dsimp only
      rw [if_pos back]
    · cases loops

end StepPatch

/-- A word that goes nowhere but to itself is an unconditional branch to itself, or has the form of
one. -/
theorem successors_eq_pc_iff : successors regs.pc word regs = { first := regs.pc } ↔
    (∃ branch, Branch.decode? word = some branch ∧ branch.conditional = false ∧
      branch.target regs = regs.pc) ∨
    (Branch.decode? word = none ∧ Unallocated word ∧
      regs.reg (field word 5 5).toNat = regs.pc) := by
  have next := add_four_ne regs.pc
  rw [successors_eq]
  cases decoded : Branch.decode? word with
  | some branch =>
    constructor
    · intro back
      obtain ⟨first, second⟩ := Successors.mk.inj back
      cases conditional : branch.conditional with
      | false => exact .inl ⟨branch, rfl, conditional, first⟩
      | true =>
        rw [conditional, if_pos rfl] at second
        cases second
    · rintro (⟨branch', same, unconditional, back⟩ | ⟨none, -⟩)
      · cases same
        show branch.ways regs = _
        rw [Branch.ways, unconditional, back]
        rfl
      · cases none
  | none =>
    constructor
    · intro back
      dsimp only at back
      split at back
      · rename_i unallocated
        exact .inr ⟨rfl, unallocated, congrArg Successors.first back⟩
      · exact absurd (congrArg Successors.first back) next
    · rintro (⟨_, none, -⟩ | ⟨-, unallocated, back⟩)
      · cases none
      · dsimp only
        rw [if_pos unallocated, back]

namespace StepPatch

/-- A step counts as made already exactly when the word at `pc` is an unconditional branch to
itself, or an unallocated word that has the form of one. Executing the branch then leaves all
registers as they were if it has no link, and if it has one changes X30. -/
theorem selfLoop_iff_back (t : SiteTable) (m : MemoryMap) (regs : Registers) :
    ((arm t m regs).1 = .selfLoop → (arm t m regs).2 = (t, m)) ∧
      ((arm t m regs).1 = .selfLoop ↔ ∃ word, Reads m regs.pc word ∧
        ((∃ branch, Branch.decode? word = some branch ∧ branch.conditional = false ∧
            branch.execute regs =
              if branch.links then regs.setReg 30 (regs.pc + 4) else regs) ∨
          (Branch.decode? word = none ∧ Unallocated word ∧
            regs.reg (field word 5 5).toNat = regs.pc))) := by
  refine ⟨arm_of_selfLoop, arm_eq_selfLoop_iff.trans ?_⟩
  refine exists_congr fun word => and_congr_right fun _ => ?_
  rw [successors_eq_pc_iff]
  refine or_congr_left (exists_congr fun branch => and_congr_right fun _ => ?_)
  exact and_congr_right fun unconditional => Branch.target_eq_pc_iff unconditional

/-- A page of zeros that the guest may read, write and run. -/
def blankPage : MemoryMap := MemoryMap.after [.mapIdentity ⟨0x300000000⟩ 0x1000 .all]

theorem wellFormed_blankPage : blankPage.WellFormed :=
  (MemoryMap.regular_after _).wellFormed (by decide)

/-- The page with `word` at its start. -/
def wordPage (word : UInt32) : MemoryMap :=
  blankPage.apply (.writeHost ⟨0x300000000⟩ (toLeBytes 4 word.toNat))

theorem wellFormed_wordPage (word : UInt32) : (wordPage word).WellFormed := by
  have blank := wellFormed_blankPage
  rw [wordPage, MemoryMap.apply]
  exact getD_ok (P := MemoryMap.WellFormed) blank fun _ written =>
    (blank.sameGuards_writeHost written).toSameFrames.wellFormed blank

theorem reads_wordPage {word' : UInt32} :
    Reads (wordPage word) 0x300000000 word' ↔ word' = word := by
  obtain ⟨r, found, readable, writable, host⟩ : ∃ r, blankPage.find ⟨0x300000000⟩ = some r ∧
      r.perms.allows .read = true ∧ r.perms.write = true ∧
      r.mapping.hostAddr ⟨0x300000000⟩ = ⟨0x300000000⟩ := ⟨_, rfl, rfl, rfl, rfl⟩
  have free : blankPage.isGuarded ⟨0x300000000⟩ = false := rfl
  have four : (toLeBytes 4 word.toNat).length = 4 := length_toLeBytes _ _
  have fits : (⟨0x300000000⟩ : GuestAddr).toNat % pageSize + (toLeBytes 4 word.toNat).length ≤
      pageSize := by
    rw [four]
    decide
  rcases wellFormed_blankPage.writeHost_page found writable fits with ⟨guarded, -⟩ |
    ⟨-, m', written⟩
  · rw [free] at guarded
    cases guarded
  have page : wordPage word = m' := by
    rw [host] at written
    rw [wordPage, MemoryMap.apply, written]
    rfl
  have read := wellFormed_blankPage.read_of_writeHost found readable free (by omega) fits written
  rw [four, ← page] at read
  have same : UInt32.ofNat (ofLeBytes (toLeBytes 4 word.toNat)) = word := by
    rw [ofLeBytes_toLeBytes, Nat.mod_eq_of_lt word.toNat_lt, UInt32.ofNat_toNat]
  constructor
  · rintro ⟨bytes, read', rfl⟩
    rw [read] at read'
    cases read'
    exact same
  · rintro rfl
    exact ⟨_, read, same⟩

/-- The step of a `bl` to itself counts as made with X30 as it was. Executing it sets X30 to the
address behind it. -/
theorem selfLoop_iff_back_link :
    (arm {} (wordPage 0x94000000) { Registers.zero with pc := 0x300000000 }).1 = .selfLoop ∧
      ∃ branch, Branch.decode? 0x94000000 = some branch ∧
        (branch.execute { Registers.zero with pc := 0x300000000 }).reg 30 = 0x300000004 := by
  refine ⟨(selfLoop_iff_back _ _ _).2.2 ⟨_, reads_wordPage.2 rfl, .inl ?_⟩, _, rfl, by decide⟩
  exact ⟨_, rfl, rfl, by decide⟩

/-! ## Guarded addresses -/

theorem mem_targets : a ∈ targets pc s ↔ a ∈ s.toList ∧ a ≠ pc := by
  have ahead : a ∈ s.second.toList.filter (fun target => target != pc && target != s.first) ↔
      a ∈ s.second.toList ∧ a ≠ pc ∧ a ≠ s.first := by
    rw [List.mem_filter, Bool.and_eq_true, bne_iff_ne, bne_iff_ne]
  unfold targets
  dsimp only
  rw [Successors.toList, List.mem_cons]
  split
  · rename_i back
    rw [ahead]
    constructor
    · rintro ⟨mem, other, -⟩
      exact ⟨.inr mem, other⟩
    · rintro ⟨rfl | mem, other⟩
      · exact absurd back other
      · exact ⟨mem, other, back ▸ other⟩
  · rename_i away
    rw [List.mem_cons, ahead]
    constructor
    · rintro (rfl | ⟨mem, other, -⟩)
      · exact ⟨.inl rfl, away⟩
      · exact ⟨.inr mem, other⟩
    · rintro ⟨rfl | mem, other⟩
      · exact .inl rfl
      · by_cases same : a = s.first
        · exact .inl same
        · exact .inr ⟨mem, other, same⟩

/-- A branch that a step was armed for and that comes back to itself is conditional. -/
theorem conditional_of_armed (armed : arm t m regs = (.patched p, t', m'))
    (reads : Reads m regs.pc word) (decoded : Branch.decode? word = some branch)
    (back : (branch.execute regs).pc = regs.pc) : branch.conditional = true := by
  cases conditional : branch.conditional with
  | true => rfl
  | false =>
    rw [Branch.pc_execute_of_not_conditional conditional] at back
    have stays := successors_eq_pc_iff.2 (.inl ⟨branch, decoded, conditional, back⟩)
    have loops : (arm t m regs).1 = .selfLoop := arm_eq_selfLoop_iff.2 ⟨word, reads, stays⟩
    rw [armed] at loops
    cases loops

/-- A step that is armed has breakpoints at all addresses that the word at `pc` may go to and that
can run, but for `pc`. A branch that comes back to `pc` comes to none, however often it is
executed. -/
theorem hits_iff_ahead (w : m.WellFormed) (room : t.sites.length + 2 ≤ SiteTable.capacity)
    (runnable : Runnable m regs.pc) (readable : m.allows ⟨regs.pc⟩ .read = true)
    (armed : arm t m regs = (.patched p, t', m')) :
    ∃ word, Reads m regs.pc word ∧
      (∀ a, p.hits a = true ↔
        a ∈ (successors regs.pc word regs).toList ∧ a ≠ regs.pc ∧ Runnable m a) ∧
      ∀ branch, Branch.decode? word = some branch → (branch.execute regs).pc = regs.pc →
        ∀ n, p.hits (Nat.repeat branch.execute n regs).pc = false := by
  obtain ⟨word, bytes, read, rfl⟩ := runnable.exists_reads w readable
  have hits : ∀ a, p.hits a = true ↔
      a ∈ (successors regs.pc (UInt32.ofNat (ofLeBytes bytes)) regs).toList ∧ a ≠ regs.pc ∧
        Runnable m a := by
    intro a
    rw [hits_arm_iff w room armed, Foreseen]
    constructor
    · rintro ⟨bytes', read', runs, mem⟩
      rw [read] at read'
      cases read'
      obtain ⟨there, other⟩ := mem_targets.1 mem
      exact ⟨there, other, runs⟩
    · rintro ⟨there, other, runs⟩
      exact ⟨bytes, read, runs, mem_targets.2 ⟨there, other⟩⟩
  refine ⟨_, ⟨bytes, read, rfl⟩, hits, fun branch decoded back n => ?_⟩
  have conditional := conditional_of_armed armed ⟨bytes, read, rfl⟩ decoded back
  rw [Branch.repeat_execute conditional back, ← Bool.not_eq_true, hits]
  exact fun there => there.2.1 rfl

/-- The registers at a `cbnz` of X0 that will be taken. -/
def beforeSpin : Registers := { Registers.zero.setReg 0 1 with pc := 0x300000000 }

/-- The step of the `cbnz` has a breakpoint behind it and none where it goes, so that it goes there
for ever. -/
theorem hits_iff_ahead_spinning : ∃ p t' m',
    arm {} (wordPage 0xb5000000) beforeSpin = (.patched p, t', m') ∧
    p.hits 0x300000004 = true ∧ ∃ branch, Branch.decode? 0xb5000000 = some branch ∧
      (branch.execute beforeSpin).pc = beforeSpin.pc ∧
      ∀ n, p.hits (Nat.repeat branch.execute n beforeSpin).pc = false := by
  have runnable : Runnable (wordPage 0xb5000000) beforeSpin.pc := ⟨by decide, by decide⟩
  rcases armed : arm {} (wordPage 0xb5000000) beforeSpin with ⟨result, t', m'⟩
  cases result with
  | selfLoop =>
    obtain ⟨word, reads, stays⟩ := arm_eq_selfLoop_iff.1 (congrArg Prod.fst armed)
    rw [reads_wordPage.1 reads] at stays
    exact absurd stays (by decide)
  | patched p =>
    obtain ⟨word, reads, hits, spins⟩ :=
      hits_iff_ahead (wellFormed_wordPage _) (by decide) runnable (by decide) armed
    cases reads_wordPage.1 reads
    exact ⟨p, t', m', rfl, (hits _).2 ⟨by decide, by decide, by decide, by decide⟩, _, rfl,
      by decide, spins _ rfl (by decide)⟩

end StepPatch

end GuestExec.Native
