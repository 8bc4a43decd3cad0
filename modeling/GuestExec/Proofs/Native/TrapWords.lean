import GuestExec.Proofs.Native.Encoding
import GuestExec.Proofs.Native.Targets

/-!
# What a trapped word means

A supervisor call, a step's breakpoint and the guest's own breakpoint are all the
instruction `brk`, told apart by its immediate. `brkImm?` decodes exactly the words
that `brk` encodes, and supervisor calls are those whose immediate carries the tag.
So a trap that hits no breakpoint of a step has one of three meanings, and
`onTrap_exact` says which words have which.
-/

namespace GuestExec.Native

variable {word : UInt32} {imm imm' n : UInt16} {k : Nat}

/-! ## Breakpoints -/

theorem zero_append_eq (m : Nat) (v : BitVec k) : 0#m ++ v = v.setWidth (m + k) := by
  ext i inside
  by_cases low : i < k
  · simp [BitVec.getElem_append, low]
  · simp [BitVec.getElem_append, low, BitVec.getLsbD_of_ge v i (by omega)]

theorem append_zero_eq (v : BitVec k) (m : Nat) : v ++ 0#m = v.setWidth (k + m) <<< m := by
  ext i inside
  by_cases low : i < m
  · simp [BitVec.getElem_append, low]
  · simp [BitVec.getElem_append, low, BitVec.getLsbD_eq_getElem (x := v) (i := i - m) (by omega)]

theorem brk_eq_row (imm : UInt16) :
    brk imm = .ofBitVec (0b11010100001#11 ++ imm.toBitVec ++ 0#5) := by
  have placed : imm.toBitVec.setWidth 32 <<< 5 = 0#11 ++ imm.toBitVec ++ 0#5 := by
    rw [append_zero_eq, zero_append_eq]
    simp
  have opcode : (0xd4200000 : UInt32).toBitVec = 0b11010100001#11 ++ 0#16 ++ 0#5 := by decide
  apply UInt32.toBitVec_inj.1
  show (0xd4200000 : UInt32).toBitVec ||| imm.toBitVec.setWidth 32 <<< 5 = _
  rw [opcode, placed, BitVec.or_append, BitVec.or_append]
  simp

theorem brk_eq_iff : brk imm = word ↔
    (0b11010100001 = field word 21 11 ∧ imm.toBitVec = field word 5 16) ∧ 0 = field word 0 5 := by
  rw [brk_eq_row, ofBitVec_eq_iff]
  refine append_eq_field_iff.trans (and_congr_left' ?_)
  exact append_eq_field_iff

theorem brkMask_iff : word &&& 0xffe0001f = 0xd4200000 ↔
    field word 21 11 = 0b11010100001 ∧ field word 0 5 = 0 := by
  have upper : word &&& 0xffe00000 = 0xd4200000 ↔ field word 21 11 = 0b11010100001#11 :=
    masked_iff word (by decide) _ rfl rfl
  have lower : word &&& 0x1f = 0 ↔ field word 0 5 = 0#5 := masked_iff word (by decide) _ rfl rfl
  have both : word &&& (0xffe00000 ||| 0x1f) = 0xd4200000 ||| 0 ↔
      word &&& 0xffe00000 = 0xd4200000 ∧ word &&& 0x1f = 0 :=
    masked_or_iff (by decide) (by decide) (by decide)
  exact both.trans (and_congr upper lower)

theorem toBitVec_immediate (word : UInt32) :
    ((word >>> 5) &&& 0xffff).toUInt16.toBitVec = field word 5 16 := by
  apply BitVec.eq_of_getLsbD_eq
  intro i inside
  have ones : ∀ j (inside : j < 16), (0xffff#16)[j] = true := by decide
  simp [field, inside, ones i inside]

/-- Decoding finds the immediate of a `brk` and nothing else. -/
theorem brkImm?_eq_some_iff : brkImm? word = some imm ↔ word = brk imm := by
  rw [eq_comm (a := word), brk_eq_iff, brkImm?]
  simp only [brkMask_iff]
  constructor
  · intro decoded
    split at decoded
    · rename_i form
      cases decoded
      exact ⟨⟨form.1.symm, toBitVec_immediate word⟩, form.2.symm⟩
    · cases decoded
  · rintro ⟨⟨opcode, is⟩, low⟩
    rw [if_pos ⟨opcode.symm, low.symm⟩, Option.some_inj, ← UInt16.toBitVec_inj, is]
    exact toBitVec_immediate word

theorem brkImm?_eq_none_iff : brkImm? word = none ↔ ∀ imm, word ≠ brk imm := by
  simp only [Option.eq_none_iff_forall_ne_some, ne_eq, brkImm?_eq_some_iff]

theorem brk_inj : brk imm = brk imm' ↔ imm = imm' := by
  constructor
  · intro same
    have decoded := brkImm?_eq_some_iff.2 same
    rw [brkImm?_eq_some_iff.2 rfl] at decoded
    exact Option.some.inj decoded
  · rintro rfl
    rfl

/-! ## Supervisor calls -/

theorem and_svcMask (bound : n < 4096) : n &&& svcMask = n := by
  apply UInt16.toNat_inj.1
  have small : n.toNat < 4096 := UInt16.lt_iff_toNat_lt.1 bound
  rw [UInt16.toNat_and]
  exact (Nat.and_two_pow_sub_one_eq_mod n.toNat 12).trans (Nat.mod_eq_of_lt small)

/-- A number beside a tag: the mask takes them apart again. -/
theorem or_eq_iff {tag mask number : UInt16} (apart : tag &&& mask = 0)
    (inside : number &&& mask = number) :
    tag ||| number = imm ↔ imm &&& ~~~mask = tag ∧ imm &&& mask = number := by
  have bit : ∀ t m n i : Bool, (t && m) = false → (n && m) = n →
      ((t || n) = i ↔ (i && !m) = t ∧ (i && m) = n) := by decide
  simp only [← UInt16.toBitVec_inj, UInt16.toBitVec_and, UInt16.toBitVec_or,
    UInt16.toBitVec_not] at *
  simp only [BitVec.eq_of_getLsbD_eq_iff, ← forall_and]
  refine forall_congr' fun i => forall_congr' fun bound => ?_
  have apart := congrArg (BitVec.getLsbD · i) apart
  have inside := congrArg (BitVec.getLsbD · i) inside
  simp only [BitVec.getLsbD_and, BitVec.getLsbD_or, BitVec.getLsbD_not, bound, decide_true,
    Bool.true_and] at apart inside ⊢
  exact bit _ _ _ _ (apart.trans (by simp)) inside

/-- The words of supervisor calls are the breakpoints with the tag. -/
theorem svcTrap_eq_brk_iff (bound : n < 4096) :
    svcTrap n = brk imm ↔ imm &&& ~~~svcMask = svcTag ∧ imm &&& svcMask = n := by
  rw [svcTrap, brk_inj, and_svcMask bound]
  exact or_eq_iff (by decide) (and_svcMask bound)

theorem and_svcMask_lt (imm : UInt16) : imm &&& svcMask < 4096 := by
  have le : (imm &&& svcMask).toNat ≤ 4095 := UInt16.le_iff_toNat_le.1 UInt16.and_le_right
  exact UInt16.lt_iff_toNat_lt.2 (Nat.lt_succ_of_le le)

/-- No supervisor call is a step's breakpoint. -/
theorem svcTrap_ne_brk_stepImm (n : UInt16) : svcTrap n ≠ brk stepImm := by
  have apart : svcTag &&& svcMask = 0 := by decide
  have inside : (n &&& svcMask) &&& svcMask = n &&& svcMask := by
    rw [UInt16.and_assoc, UInt16.and_self]
  rw [svcTrap, Ne, brk_inj, or_eq_iff apart inside]
  rintro ⟨tagged, -⟩
  exact absurd tagged (by decide)

theorem untagged_iff :
    imm &&& ~~~svcMask ≠ svcTag ↔ ∀ n < 4096, brk imm ≠ svcTrap n := by
  constructor
  · rintro untagged n bound same
    exact untagged ((svcTrap_eq_brk_iff bound).1 same.symm).1
  · intro never tagged
    have bound := and_svcMask_lt imm
    exact never _ bound ((svcTrap_eq_brk_iff bound).2 ⟨tagged, rfl⟩).symm

/-! ## Trapped words -/

/-- The syndrome of a breakpoint: its class, the length of the instruction, the immediate. -/
def breakpointSyndrome (imm : UInt16) : UInt64 :=
  .ofBitVec (0#32 ++ 0x3c#6 ++ 1#1 ++ 0#9 ++ imm.toBitVec)

theorem breakpointSyndrome_eq (imm : UInt16) :
    (Syndrome.ofClass Syndrome.breakpointClass imm.toUInt64).word = breakpointSyndrome imm := by
  have upper : (Syndrome.breakpointClass <<< 26 ||| Syndrome.longInstruction).toBitVec =
      0#32 ++ 0x3c#6 ++ 1#1 ++ 0#9 ++ 0#16 := by decide
  have lower : imm.toBitVec.setWidth 64 = 0#(32 + 6 + 1 + 9) ++ imm.toBitVec :=
    (zero_append_eq _ _).symm
  apply UInt64.toBitVec_inj.1
  show (Syndrome.breakpointClass <<< 26 ||| Syndrome.longInstruction).toBitVec |||
    imm.toBitVec.setWidth 64 = _
  rw [upper, lower, BitVec.or_append, BitVec.or_zero, BitVec.zero_or, breakpointSyndrome]

theorem breakpointSyndrome_inj :
    breakpointSyndrome imm = breakpointSyndrome imm' ↔ imm = imm' := by
  rw [breakpointSyndrome, breakpointSyndrome, ← UInt64.toBitVec_inj]
  exact (BitVec.append_right_inj _).trans UInt16.toBitVec_inj

/-- Why a run lands that called its supervisor. -/
def callReason (step : Bool) : HaltReason :=
  if step then .supervisorCall ||| .stepThread else .supervisorCall

theorem callReason_ne : ∀ step, callReason step ≠ .instructionBreakpoint ∧
    callReason step ≠ .fatalError := by decide

theorem instructionBreakpoint_ne : HaltReason.instructionBreakpoint ≠ .fatalError := by decide

/-- A word is a supervisor call, another breakpoint, or neither. -/
theorem word_cases (word : UInt32) :
    (∃ n < 4096, word = svcTrap n) ∨ (∃ imm, word = brk imm ∧ ∀ n < 4096, word ≠ svcTrap n) ∨
      ∀ imm, word ≠ brk imm := by
  by_cases called : ∃ n < 4096, word = svcTrap n
  · exact .inl called
  · by_cases breaks : ∃ imm, word = brk imm
    · obtain ⟨imm, is⟩ := breaks
      refine .inr (.inl ⟨imm, is, fun n bound same => ?_⟩)
      exact called ⟨n, bound, same⟩
    · exact .inr (.inr fun imm is => breaks ⟨imm, is⟩)

/-! ## Traps -/

namespace Session

variable {s : Session} {mode : RunMode}

/-- The word `word` is at `pc`, and no breakpoint of a step. -/
structure Unpatched (s : Session) (word : UInt32) : Prop where
  found : codeWord s.memory ⟨s.regs.pc⟩ = word
  ahead : ∀ patch, s.patch = some patch → patch.hits s.regs.pc = false
  unheld : s.sites.contains ⟨s.regs.pc⟩ = false

section

variable (h : s.Unpatched word)
include h

/-- A trap that hits no breakpoint of a step goes by the word that is there. -/
theorem onTrap_of_unpatched : s.onTrap mode = match brkImm? word with
    | none =>
      s.dispatch mode .unknown
        { address := ⟨s.regs.pc⟩, access := .execute, syndrome := some word.toUInt64 }
    | some imm =>
      if imm &&& ~~~svcMask = svcTag then
        (.host (callReason mode.step),
          s.setRegs { s.regs with svc := (imm &&& svcMask).toUInt32, pc := s.regs.pc + 4 })
      else
        (.host .instructionBreakpoint,
          s.setRegs { s.regs with esr := breakpointSyndrome imm }) := by
  have ahead : s.patch.any (·.hits s.regs.pc) = false := by
    cases patch : s.patch with
    | none => rfl
    | some p => exact h.ahead p patch
  unfold onTrap
  simp only [ahead, h.unheld, h.found, breakpointSyndrome_eq, Bool.and_false, Bool.false_eq_true,
    if_false]
  rfl

theorem onTrap_of_svcTrap (bound : n < 4096) (is : word = svcTrap n) :
    s.onTrap mode = (.host (callReason mode.step),
      s.setRegs { s.regs with svc := n.toUInt32, pc := s.regs.pc + 4 }) := by
  obtain ⟨tagged, number⟩ := (svcTrap_eq_brk_iff bound).1 (show svcTrap n = brk _ from rfl)
  rw [onTrap_of_unpatched h, is, brkImm?_eq_some_iff.2 (show svcTrap n = brk _ from rfl)]
  dsimp only
  rw [if_pos tagged, number]

theorem onTrap_of_brk (is : word = brk imm) (uncalled : ∀ n < 4096, word ≠ svcTrap n) :
    s.onTrap mode = (.host .instructionBreakpoint,
      s.setRegs { s.regs with esr := breakpointSyndrome imm }) := by
  subst is
  rw [onTrap_of_unpatched h, brkImm?_eq_some_iff.2 rfl]
  exact if_neg (untagged_iff.2 uncalled)

theorem onTrap_of_ne_brk (other : ∀ imm, word ≠ brk imm) (mode : RunMode) :
    (s.onTrap mode).1 = .host .fatalError ∧ (s.onTrap mode).2.regs = s.regs := by
  rw [onTrap_of_unpatched h, brkImm?_eq_none_iff.2 other]
  exact ⟨rfl, rfl⟩

/-- A trap is a supervisor call, another breakpoint, or fatal. -/
theorem onTrap_cases (mode : RunMode) :
    (∃ n < 4096, word = svcTrap n ∧ s.onTrap mode = (.host (callReason mode.step),
      s.setRegs { s.regs with svc := n.toUInt32, pc := s.regs.pc + 4 })) ∨
    (∃ imm, (word = brk imm ∧ ∀ n < 4096, word ≠ svcTrap n) ∧
      s.onTrap mode = (.host .instructionBreakpoint,
        s.setRegs { s.regs with esr := breakpointSyndrome imm })) ∨
    ((∀ imm, word ≠ brk imm) ∧ (s.onTrap mode).1 = .host .fatalError) := by
  rcases word_cases word with ⟨n, bound, is⟩ | ⟨imm, is, uncalled⟩ | other
  · exact .inl ⟨n, bound, is, onTrap_of_svcTrap h bound is⟩
  · exact .inr (.inl ⟨imm, ⟨is, uncalled⟩, onTrap_of_brk h is uncalled⟩)
  · exact .inr (.inr ⟨other, (onTrap_of_ne_brk h other mode).1⟩)

/-- A trap lands with a supervisor call for the words of such calls alone. -/
theorem onTrap_eq_call_iff (bound : n < 4096) :
    s.onTrap mode = (.host (callReason mode.step),
      s.setRegs { s.regs with svc := n.toUInt32, pc := s.regs.pc + 4 }) ↔ word = svcTrap n := by
  constructor
  · intro lands
    rcases onTrap_cases h mode with ⟨m, -, is, came⟩ | ⟨imm, -, came⟩ | ⟨-, fatal⟩
    · have svc : m.toUInt32 = n.toUInt32 := congrArg (fun l => l.2.regs.svc) (came.symm.trans lands)
      rw [is, UInt16.toUInt32_inj.1 svc]
    · have reason := Landing.host.inj (congrArg Prod.fst (lands.symm.trans came))
      exact absurd reason (callReason_ne mode.step).1
    · rw [lands] at fatal
      exact absurd (Landing.host.inj fatal) (callReason_ne mode.step).2
  · exact onTrap_of_svcTrap h bound

/-- It lands with a breakpoint for all other breakpoints. -/
theorem onTrap_eq_breakpoint_iff :
    s.onTrap mode = (.host .instructionBreakpoint,
      s.setRegs { s.regs with esr := breakpointSyndrome imm }) ↔
      word = brk imm ∧ ∀ n < 4096, word ≠ svcTrap n := by
  constructor
  · intro lands
    rcases onTrap_cases h mode with ⟨m, -, -, came⟩ | ⟨imm', is, came⟩ | ⟨-, fatal⟩
    · have reason := Landing.host.inj (congrArg Prod.fst (came.symm.trans lands))
      exact absurd reason (callReason_ne mode.step).1
    · have esr : breakpointSyndrome imm' = breakpointSyndrome imm :=
        congrArg (fun l => l.2.regs.esr) (came.symm.trans lands)
      rwa [← breakpointSyndrome_inj.1 esr]
    · rw [lands] at fatal
      exact absurd (Landing.host.inj fatal) instructionBreakpoint_ne
  · rintro ⟨is, uncalled⟩
    exact onTrap_of_brk h is uncalled

/-- It is fatal for all other words. -/
theorem onTrap_fatal_iff : (s.onTrap mode).1 = .host .fatalError ↔ ∀ imm, word ≠ brk imm := by
  constructor
  · intro fatal
    rcases onTrap_cases h mode with ⟨m, -, -, came⟩ | ⟨imm, -, came⟩ | ⟨other, -⟩
    · rw [came] at fatal
      exact absurd (Landing.host.inj fatal) (callReason_ne mode.step).2
    · rw [came] at fatal
      exact absurd (Landing.host.inj fatal) instructionBreakpoint_ne
    · exact other
  · intro other
    exact (onTrap_of_ne_brk h other mode).1

end

/-- What a trap comes to that hits no breakpoint of a step. `brkImm?` decodes what `brk` encodes; a
supervisor call lands with its number and `pc` behind it, every other breakpoint, one like those of
steps included, with its syndrome and `pc` as it was, and a word that is no breakpoint is fatal and
leaves the registers alone. -/
theorem onTrap_exact (h : s.Unpatched word) (mode : RunMode) :
    (∀ imm, brkImm? word = some imm ↔ word = brk imm) ∧
    (∀ n < 4096, s.onTrap mode =
      (.host (if mode.step then .supervisorCall ||| .stepThread else .supervisorCall),
        s.setRegs { s.regs with svc := n.toUInt32, pc := s.regs.pc + 4 }) ↔ word = svcTrap n) ∧
    (∀ imm, s.onTrap mode = (.host .instructionBreakpoint,
        s.setRegs { s.regs with esr := breakpointSyndrome imm }) ↔
      word = brk imm ∧ ∀ n < 4096, word ≠ svcTrap n) ∧
    (∀ n, svcTrap n ≠ brk stepImm) ∧
    ((s.onTrap mode).1 = .host .fatalError ↔ ∀ imm, word ≠ brk imm) ∧
    ((∀ imm, word ≠ brk imm) → (s.onTrap mode).2.regs = s.regs) := by
  refine ⟨?_, ?_, ?_, svcTrap_ne_brk_stepImm, onTrap_fatal_iff h, ?_⟩
  · intro imm
    exact brkImm?_eq_some_iff
  · intro n bound
    exact onTrap_eq_call_iff h bound
  · intro imm
    exact onTrap_eq_breakpoint_iff h
  · intro other
    exact (onTrap_of_ne_brk h other mode).2

/-- The word of a page that starts with it. -/
theorem codeWord_wordPage (word : UInt32) :
    codeWord (StepPatch.wordPage word) ⟨0x300000000⟩ = word := by
  obtain ⟨r, found, bytes, base⟩ : ∃ r,
      (StepPatch.wordPage word).findHost ⟨0x300000000⟩ = some r ∧
      r.backing.bytes = ByteStore.zeros.write 0 (toLeBytes 4 word.toNat) ∧
      r.backing.base = ⟨0x300000000⟩ := ⟨_, rfl, rfl, rfl⟩
  have four := ByteStore.read_write ByteStore.zeros 0 (toLeBytes 4 word.toNat)
  rw [length_toLeBytes] at four
  rw [codeWord, found]
  dsimp only
  rw [bytes, base, Nat.sub_self, four, ofLeBytes_toLeBytes]
  exact (congrArg _ (Nat.mod_eq_of_lt word.toNat_lt)).trans (UInt32.ofNat_toNat)

/-- A step that comes to `word`, which is no breakpoint of its own. -/
def comingTo (word : UInt32) : Session := loaded.setMemory (StepPatch.wordPage word)

theorem unpatched_comingTo (word : UInt32) : (comingTo word).Unpatched word where
  found := codeWord_wordPage word
  ahead := by rintro _ ⟨⟩; rfl
  unheld := rfl

/-- The step of a supervisor call, and those of a breakpoint that is like a step's and of a
`nop`. -/
theorem onTrap_exact_steppedWords :
    (comingTo (svcTrap 0x26)).onTrap { step := true, owner := 1 } =
      (.host (.supervisorCall ||| .stepThread), (comingTo (svcTrap 0x26)).setRegs
        { (comingTo (svcTrap 0x26)).regs with svc := 0x26, pc := 0x300000004 }) ∧
    (comingTo (brk stepImm)).onTrap { step := true, owner := 1 } =
      (.host .instructionBreakpoint, (comingTo (brk stepImm)).setRegs
        { (comingTo (brk stepImm)).regs with esr := 0xf200e000 }) ∧
    ((comingTo 0xd503201f).onTrap { step := true, owner := 1 }).1 = .host .fatalError := by
  refine ⟨?_, ?_, ?_⟩
  · exact ((onTrap_exact (unpatched_comingTo _) _).2.1 0x26 (by decide)).2 rfl
  · have esr : breakpointSyndrome stepImm = 0xf200e000 := by decide
    rw [← esr]
    obtain ⟨-, -, breakpoint, uncalled, -⟩ :=
      onTrap_exact (unpatched_comingTo (brk stepImm)) ⟨true, 1⟩
    exact (breakpoint stepImm).2 ⟨rfl, fun n _ same => uncalled n same.symm⟩
  · refine (onTrap_exact (unpatched_comingTo _) _).2.2.2.2.1.2 ?_
    exact brkImm?_eq_none_iff.1 (by decide)

end Session

end GuestExec.Native
