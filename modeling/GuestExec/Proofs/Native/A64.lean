import GuestExec.Native.Branch

/-!
# A64 branches

Which branch a word is, by the fields of its encoding, and what executing it does:
whether it is taken, where it goes, and what it leaves in the registers. The words
are the branches of the base architecture; the processor has no others that
`successors` would not treat as falling through.

`successors` tells branches apart by masks. `successors_eq` says that it finds the
ways of the branch that the fields describe.
-/

namespace GuestExec.Native

/-! ## Fields -/

/-- The `n` bits of a word from bit `low` on. -/
def field (word : UInt32) (low n : Nat) : BitVec n := word.toBitVec.extractLsb' low n

/-- A mask of one field tests it. -/
theorem and_shiftLeft_iff (w : BitVec 32) {low n : Nat} (fits : low + n ≤ 32) (v : BitVec n) :
    w &&& ((BitVec.allOnes n).setWidth 32 <<< low) = v.setWidth 32 <<< low ↔
      w.extractLsb' low n = v := by
  constructor
  · intro masked
    apply BitVec.eq_of_getLsbD_eq
    intro i inside
    have bit := congrArg (BitVec.getLsbD · (low + i)) masked
    have within : low + i < 32 := by omega
    have past : ¬low + i < low := by omega
    simpa [inside, within, past] using bit
  · rintro rfl
    apply BitVec.eq_of_getLsbD_eq
    intro i inside
    by_cases above : low ≤ i
    · have here : low + (i - low) = i := by omega
      by_cases within : i - low < n
      · simp [inside, within, here, Bool.and_comm]
      · simp [inside, within]
    · have below : i < low := by omega
      simp [inside, below]

/-- A mask of two parts tests both. -/
theorem and_or_iff {w m₁ m₂ v₁ v₂ : BitVec 32} (apart : m₁ &&& m₂ = 0#32) (in₁ : v₁ &&& m₁ = v₁)
    (in₂ : v₂ &&& m₂ = v₂) : w &&& (m₁ ||| m₂) = v₁ ||| v₂ ↔ w &&& m₁ = v₁ ∧ w &&& m₂ = v₂ := by
  have bit : ∀ a x y p q : Bool, (x && y) = false → (p && x) = p → (q && y) = q →
      ((a && (x || y)) = (p || q) ↔ (a && x) = p ∧ (a && y) = q) := by decide
  simp only [BitVec.eq_of_getLsbD_eq_iff, ← forall_and]
  refine forall_congr' fun i => imp_congr_right fun _ => ?_
  have apart := congrArg (BitVec.getLsbD · i) apart
  have in₁ := congrArg (BitVec.getLsbD · i) in₁
  have in₂ := congrArg (BitVec.getLsbD · i) in₂
  simp only [BitVec.getLsbD_and, BitVec.getLsbD_or, BitVec.getLsbD_zero] at apart in₁ in₂ ⊢
  exact bit _ _ _ _ _ apart in₁ in₂

/-- A mask of one field of an instruction tests it. -/
theorem masked_iff (word : UInt32) {low n : Nat} (fits : low + n ≤ 32) (v : BitVec n)
    {mask value : UInt32} (ones : mask.toBitVec = (BitVec.allOnes n).setWidth 32 <<< low)
    (placed : value.toBitVec = v.setWidth 32 <<< low) :
    word &&& mask = value ↔ field word low n = v := by
  rw [← UInt32.toBitVec_inj, UInt32.toBitVec_and, ones, placed, and_shiftLeft_iff _ fits, field]

theorem masked_or_iff {word m₁ m₂ v₁ v₂ : UInt32} (apart : m₁ &&& m₂ = 0) (in₁ : v₁ &&& m₁ = v₁)
    (in₂ : v₂ &&& m₂ = v₂) :
    word &&& (m₁ ||| m₂) = v₁ ||| v₂ ↔ word &&& m₁ = v₁ ∧ word &&& m₂ = v₂ := by
  simp only [← UInt32.toBitVec_inj, UInt32.toBitVec_and, UInt32.toBitVec_or] at *
  exact and_or_iff apart in₁ in₂

/-! ## Decoding -/

/-- A branch instruction with its operands. -/
inductive Branch where
  | b (imm : BitVec 26)
  | bl (imm : BitVec 26)
  | bCond (cond : BitVec 4) (imm : BitVec 19)
  /-- CBZ and CBNZ, of a whole register or its low word. -/
  | compare (wide nonzero : Bool) (rt : BitVec 5) (imm : BitVec 19)
  /-- TBZ and TBNZ. -/
  | test (nonzero : Bool) (bit : BitVec 6) (rt : BitVec 5) (imm : BitVec 14)
  | br (rn : BitVec 5)
  | blr (rn : BitVec 5)
  | ret (rn : BitVec 5)
deriving DecidableEq, Repr

/-- The word has the form of a branch to a register. -/
def ToRegister (word : UInt32) : Prop :=
  field word 23 9 = 0b110101100 ∧ field word 10 11 = 0b11111000000 ∧ field word 0 5 = 0

instance (word : UInt32) : Decidable (ToRegister word) := inferInstanceAs (Decidable (_ ∧ _))

/-- A branch to a register of a kind that the architecture leaves open. -/
def Unallocated (word : UInt32) : Prop := ToRegister word ∧ field word 21 2 = 0b11

instance (word : UInt32) : Decidable (Unallocated word) := inferInstanceAs (Decidable (_ ∧ _))

/-- The branch that a word is. -/
def Branch.decode? (word : UInt32) : Option Branch :=
  if field word 26 5 = 0b00101 then
    let imm := field word 0 26
    some (if field word 31 1 = 1 then .bl imm else .b imm)
  else if field word 24 8 = 0b01010100 ∧ field word 4 1 = 0 then
    some (.bCond (field word 0 4) (field word 5 19))
  else if field word 25 6 = 0b011010 then
    some (.compare (field word 31 1 == 1) (field word 24 1 == 1) (field word 0 5) (field word 5 19))
  else if field word 25 6 = 0b011011 then
    some (.test (field word 24 1 == 1) (field word 31 1 ++ field word 19 5) (field word 0 5)
      (field word 5 14))
  else if ToRegister word then
    if field word 21 2 = 0b00 then some (.br (field word 5 5))
    else if field word 21 2 = 0b01 then some (.blr (field word 5 5))
    else if field word 21 2 = 0b10 then some (.ret (field word 5 5))
    else none
  else none

/-! ## Executing -/

/-- The flags of the processor state meet a condition of an instruction. -/
def conditionHolds (cond : BitVec 4) (pstate : UInt32) : Bool :=
  let n := pstate.toBitVec.getLsbD 31
  let z := pstate.toBitVec.getLsbD 30
  let c := pstate.toBitVec.getLsbD 29
  let v := pstate.toBitVec.getLsbD 28
  let base := match cond.extractLsb' 1 3 with
    | 0b000 => z
    | 0b001 => c
    | 0b010 => n
    | 0b011 => v
    | 0b100 => c && !z
    | 0b101 => n == v
    | 0b110 => n == v && !z
    | _ => true
  -- An odd condition is the even one before it, negated; the last one holds always.
  if cond.getLsbD 0 && cond != 0b1111 then !base else base

/-- A signed number of words, in bytes. -/
def wordOffset {n : Nat} (imm : BitVec n) : UInt64 := UInt64.ofInt (4 * imm.toInt)

namespace Branch

/-- The branch has another way, to the next instruction. -/
def conditional : Branch → Bool
  | bCond .. | compare .. | test .. => true
  | _ => false

/-- The branch leaves the address of the next instruction in X30. -/
def links : Branch → Bool
  | bl _ | blr _ => true
  | _ => false

def taken (regs : Registers) : Branch → Bool
  | bCond cond _ => conditionHolds cond regs.pstate
  | compare wide nonzero rt _ =>
    let value := regs.reg rt.toNat
    (if wide then value != 0 else value.toUInt32 != 0) == nonzero
  | test nonzero bit rt _ => (regs.reg rt.toNat).toBitVec.getLsbD bit.toNat == nonzero
  | _ => true

/-- Where the branch goes if it is taken. -/
def target (regs : Registers) : Branch → UInt64
  | b imm | bl imm => regs.pc + wordOffset imm
  | bCond _ imm | compare _ _ _ imm => regs.pc + wordOffset imm
  | test _ _ _ imm => regs.pc + wordOffset imm
  | br rn | blr rn | ret rn => regs.reg rn.toNat

/-- The registers after the branch at their `pc`. -/
def execute (branch : Branch) (regs : Registers) : Registers :=
  let next := regs.pc + 4
  let linked := if branch.links then regs.setReg 30 next else regs
  { linked with pc := if branch.taken regs then branch.target regs else next }

/-- The ways of the branch. -/
def ways (branch : Branch) (regs : Registers) : Successors :=
  { first := branch.target regs
    second := if branch.conditional then some (regs.pc + 4) else none }

variable {branch : Branch} {regs : Registers}

theorem taken_of_not_conditional (h : branch.conditional = false) : branch.taken regs = true := by
  cases branch <;> first | rfl | cases h

theorem links_of_conditional (h : branch.conditional = true) : branch.links = false := by
  cases branch <;> first | rfl | cases h

theorem pc_execute_of_not_conditional (h : branch.conditional = false) :
    (branch.execute regs).pc = branch.target regs := by
  simp only [execute, taken_of_not_conditional h, if_true]

/-- A branch that comes back to itself changes at most X30. -/
theorem execute_of_pc_eq (back : (branch.execute regs).pc = regs.pc) :
    branch.execute regs = if branch.links then regs.setReg 30 (regs.pc + 4) else regs := by
  have same : (if branch.taken regs then branch.target regs else regs.pc + 4) = regs.pc := back
  rw [execute, same]
  split
  · rfl
  · rfl

/-- An unconditional branch is to itself when it comes back, having changed at most X30. -/
theorem target_eq_pc_iff (h : branch.conditional = false) : branch.target regs = regs.pc ↔
    branch.execute regs = if branch.links then regs.setReg 30 (regs.pc + 4) else regs := by
  have goes : (branch.execute regs).pc = branch.target regs := pc_execute_of_not_conditional h
  constructor
  · exact fun back => execute_of_pc_eq (goes.trans back)
  · intro same
    rw [← goes, same]
    split <;> rfl

/-- A conditional branch that comes back to itself changes nothing, so it comes back for ever. -/
theorem repeat_execute (h : branch.conditional = true)
    (back : (branch.execute regs).pc = regs.pc) (n : Nat) :
    Nat.repeat branch.execute n regs = regs := by
  have same : branch.execute regs = regs := by
    rw [execute_of_pc_eq back, links_of_conditional h]
    rfl
  induction n with
  | zero => rfl
  | succ n ih => rw [Nat.repeat, ih, same]

end Branch

/-! ## Successors -/

theorem toBitVec_ofInt (z : Int) : (UInt64.ofInt z).toBitVec = BitVec.ofInt 64 z := by
  apply BitVec.eq_of_toNat_eq
  show (BitVec.ofNat 64 (z % 2 ^ 64).toNat).toNat = _
  rw [BitVec.toNat_ofNat, BitVec.toNat_ofInt]
  omega

theorem displacement_eq (word low : UInt32) {width : Nat} (small : low.toNat < 32)
    (le : width ≤ 32) : displacement word low width = wordOffset (field word low.toNat width) := by
  have imm : (word >>> low).toUInt64.toBitVec.setWidth width = field word low.toNat width := by
    apply BitVec.eq_of_getLsbD_eq
    intro i inside
    have here : low.toNat % 32 % 64 = low.toNat := by omega
    have within : low.toNat + i < 64 := by omega
    simp [field, inside, here, within]
  have four : ∀ x : BitVec width, x.signExtend 64 <<< 2 = BitVec.ofInt 64 (4 * x.toInt) := by
    intro x
    rw [BitVec.shiftLeft_eq_mul_twoPow, BitVec.ofInt_mul, BitVec.mul_comm]
    rfl
  rw [displacement, signExtend, imm, wordOffset]
  apply UInt64.toBitVec_inj.1
  rw [UInt64.toBitVec_shiftLeft, toBitVec_ofInt]
  exact four _

theorem toNat_field_five (word : UInt32) :
    ((word >>> 5) &&& 0x1f).toNat = (field word 5 5).toNat := by
  have same : ((word >>> 5) &&& 0x1f).toBitVec = (field word 5 5).setWidth 32 := by
    apply BitVec.eq_of_getLsbD_eq
    intro i inside
    have mask : ∀ j (inside : j < 32), (0x1f#32)[j] = decide (j < 5) := by decide
    simp [field, inside, mask i inside, Bool.and_comm]
  have number := congrArg BitVec.toNat same
  rwa [BitVec.toNat_setWidth_of_le (by decide)] at number

theorem immediate_iff (word : UInt32) :
    word &&& 0x7c000000 = 0x14000000 ↔ field word 26 5 = 0b00101 :=
  masked_iff word (by decide) 0b00101#5 rfl rfl

theorem condition_iff (word : UInt32) : word &&& 0xff000010 = 0x54000000 ↔
    field word 24 8 = 0b01010100 ∧ field word 4 1 = 0 := by
  have upper : word &&& 0xff000000 = 0x54000000 ↔ field word 24 8 = 0b01010100#8 :=
    masked_iff word (by decide) _ rfl rfl
  have lower : word &&& 0x10 = 0 ↔ field word 4 1 = 0#1 := masked_iff word (by decide) _ rfl rfl
  have both : word &&& (0xff000000 ||| 0x10) = 0x54000000 ||| 0 ↔
      word &&& 0xff000000 = 0x54000000 ∧ word &&& 0x10 = 0 :=
    masked_or_iff (by decide) (by decide) (by decide)
  exact both.trans (and_congr upper lower)

theorem compare_iff (word : UInt32) :
    word &&& 0x7e000000 = 0x34000000 ↔ field word 25 6 = 0b011010 :=
  masked_iff word (by decide) 0b011010#6 rfl rfl

theorem test_iff (word : UInt32) :
    word &&& 0x7e000000 = 0x36000000 ↔ field word 25 6 = 0b011011 :=
  masked_iff word (by decide) 0b011011#6 rfl rfl

theorem toRegister_iff (word : UInt32) : word &&& 0xff9ffc1f = 0xd61f0000 ↔ ToRegister word := by
  have upper : word &&& 0xff800000 = 0xd6000000 ↔ field word 23 9 = 0b110101100#9 :=
    masked_iff word (by decide) _ rfl rfl
  have middle : word &&& 0x1ffc00 = 0x1f0000 ↔ field word 10 11 = 0b11111000000#11 :=
    masked_iff word (by decide) _ rfl rfl
  have lower : word &&& 0x1f = 0 ↔ field word 0 5 = 0#5 := masked_iff word (by decide) _ rfl rfl
  have rest : word &&& (0x1ffc00 ||| 0x1f) = 0x1f0000 ||| 0 ↔
      word &&& 0x1ffc00 = 0x1f0000 ∧ word &&& 0x1f = 0 :=
    masked_or_iff (by decide) (by decide) (by decide)
  have all : word &&& (0xff800000 ||| 0x1ffc1f) = 0xd6000000 ||| 0x1f0000 ↔
      word &&& 0xff800000 = 0xd6000000 ∧ word &&& 0x1ffc1f = 0x1f0000 :=
    masked_or_iff (by decide) (by decide) (by decide)
  exact all.trans (and_congr upper (rest.trans (and_congr middle lower)))

/-- The ways of an instruction: those of the branch that it is, the register's value if it is an
unallocated branch to a register, and else the next instruction. -/
theorem successors_eq (word : UInt32) (regs : Registers) :
    successors regs.pc word regs = match Branch.decode? word with
      | some branch => branch.ways regs
      | none =>
        if Unallocated word then { first := regs.reg (field word 5 5).toNat }
        else { first := regs.pc + 4 } := by
  have disp26 : displacement word 0 26 = wordOffset (field word 0 26) :=
    displacement_eq word 0 (by decide) (by decide)
  have disp19 : displacement word 5 19 = wordOffset (field word 5 19) :=
    displacement_eq word 5 (by decide) (by decide)
  have disp14 : displacement word 5 14 = wordOffset (field word 5 14) :=
    displacement_eq word 5 (by decide) (by decide)
  simp only [successors, immediate_iff, condition_iff, compare_iff, test_iff, toRegister_iff,
    toNat_field_five, disp26, disp19, disp14, Branch.decode?]
  by_cases immediate : field word 26 5 = 0b00101
  · simp only [immediate, if_true]
    split <;> rfl
  by_cases condition : field word 24 8 = 0b01010100 ∧ field word 4 1 = 0
  · simp only [immediate, condition, if_false]
    rfl
  by_cases compare : field word 25 6 = 0b011010
  · simp only [immediate, condition, compare, if_true, if_false, or_true]
    rfl
  by_cases test : field word 25 6 = 0b011011
  · simp only [immediate, condition, test, if_true, if_false]
    rfl
  by_cases register : ToRegister word
  · simp only [immediate, condition, compare, test, register, if_true, if_false, or_self]
    by_cases br : field word 21 2 = 0b00
    · rw [if_pos br]
      rfl
    by_cases blr : field word 21 2 = 0b01
    · rw [if_neg br, if_pos blr]
      rfl
    by_cases ret : field word 21 2 = 0b10
    · rw [if_neg br, if_neg blr, if_pos ret]
      rfl
    have four : ∀ kind : BitVec 2, kind ≠ 0b00 → kind ≠ 0b01 → kind ≠ 0b10 → kind = 0b11 := by
      decide
    rw [if_neg br, if_neg blr, if_neg ret]
    exact (if_pos ⟨register, four _ br blr ret⟩).symm
  · have allocated : ¬Unallocated word := fun unallocated => register unallocated.1
    simp only [immediate, condition, compare, test, register, allocated, if_false, or_self]

end GuestExec.Native
