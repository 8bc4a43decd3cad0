import GuestExec.Proofs.Native.A64

/-!
# The encodings of A64 branches

`Branch.encode` writes a branch as a row of fields, the highest first, the way the
architecture lays it out. Decoding reads just these words (`decode?_eq_some_iff`), so
`successors_encoded` can go through all words of 32 bits: the encodings of each kind of
branch, the unallocated branches to a register, and the rest.
-/

namespace GuestExec.Native

variable {word : UInt32} {branch : Branch} {low k n m : Nat}

/-! ## Rows of fields -/

/-- A field within a field. -/
theorem extractLsb'_field (word : UInt32) (low : Nat) (inside : k + m ≤ n) :
    (field word low n).extractLsb' k m = field word (low + k) m := by
  apply BitVec.eq_of_getLsbD_eq
  intro i bound
  have within : k + i < n := by omega
  simp [field, bound, within, Nat.add_assoc]

theorem field_of_field {v : BitVec n} (is : field word low n = v) (k m : Nat) (inside : k + m ≤ n) :
    field word (low + k) m = v.extractLsb' k m := by
  rw [← is, extractLsb'_field word low inside]

/-- Two fields in a row are what the word holds when each of them is. -/
theorem append_eq_field_iff {a : BitVec n} {b : BitVec m} :
    a ++ b = field word low (n + m) ↔ a = field word (low + m) n ∧ b = field word low m := by
  have split : field word low (n + m) = field word (low + m) n ++ field word low m :=
    (BitVec.extractLsb'_append_extractLsb'_eq_extractLsb' rfl).symm
  constructor
  · intro row
    have upper := congrArg (BitVec.extractLsb' m n) (row.trans split)
    have lower := congrArg (BitVec.extractLsb' 0 m) (row.trans split)
    simp only [BitVec.extractLsb'_append_eq_left, BitVec.extractLsb'_append_eq_right] at upper lower
    exact ⟨upper, lower⟩
  · rintro ⟨rfl, rfl⟩
    exact split.symm

/-- A row of fields as a word. -/
theorem ofBitVec_eq_iff {row : BitVec 32} : UInt32.ofBitVec row = word ↔ row = field word 0 32 := by
  rw [field, BitVec.extractLsb'_eq_self, ← UInt32.toBitVec_inj]

/-! ## Encoding -/

/-- A branch to a register, of one of four kinds, the last of which is open. -/
def toRegisterWord (kind : BitVec 2) (rn : BitVec 5) : UInt32 :=
  .ofBitVec (0b110101100#9 ++ kind ++ 0b11111000000#11 ++ rn ++ 0#5)

/-- The word that the architecture assigns to a branch. -/
def Branch.encode : Branch → UInt32
  | b imm => .ofBitVec (0#1 ++ 0b00101#5 ++ imm)
  | bl imm => .ofBitVec (1#1 ++ 0b00101#5 ++ imm)
  | bCond cond imm => .ofBitVec (0b01010100#8 ++ imm ++ 0#1 ++ cond)
  | compare wide nonzero rt imm =>
    .ofBitVec (BitVec.ofBool wide ++ 0b011010#6 ++ BitVec.ofBool nonzero ++ imm ++ rt)
  | test nonzero bit rt imm =>
    .ofBitVec (bit.extractLsb' 5 1 ++ 0b011011#6 ++ BitVec.ofBool nonzero ++ bit.extractLsb' 0 5 ++
      imm ++ rt)
  | br rn => toRegisterWord 0b00 rn
  | blr rn => toRegisterWord 0b01 rn
  | ret rn => toRegisterWord 0b10 rn

theorem immediate_encode_iff {link : BitVec 1} {imm : BitVec 26} :
    UInt32.ofBitVec (link ++ 0b00101#5 ++ imm) = word ↔
      (link = field word 31 1 ∧ 0b00101 = field word 26 5) ∧ imm = field word 0 26 := by
  rw [ofBitVec_eq_iff]
  refine append_eq_field_iff.trans (and_congr_left' ?_)
  exact append_eq_field_iff

theorem encode_bCond_iff {cond : BitVec 4} {imm : BitVec 19} :
    (Branch.bCond cond imm).encode = word ↔
      ((0b01010100 = field word 24 8 ∧ imm = field word 5 19) ∧ 0 = field word 4 1) ∧
        cond = field word 0 4 := by
  rw [Branch.encode, ofBitVec_eq_iff]
  refine append_eq_field_iff.trans (and_congr_left' ?_)
  refine append_eq_field_iff.trans (and_congr_left' ?_)
  exact append_eq_field_iff

theorem encode_compare_iff {wide nonzero : Bool} {rt : BitVec 5} {imm : BitVec 19} :
    (Branch.compare wide nonzero rt imm).encode = word ↔
      (((.ofBool wide = field word 31 1 ∧ 0b011010 = field word 25 6) ∧
        .ofBool nonzero = field word 24 1) ∧ imm = field word 5 19) ∧ rt = field word 0 5 := by
  rw [Branch.encode, ofBitVec_eq_iff]
  refine append_eq_field_iff.trans (and_congr_left' ?_)
  refine append_eq_field_iff.trans (and_congr_left' ?_)
  refine append_eq_field_iff.trans (and_congr_left' ?_)
  exact append_eq_field_iff

theorem encode_test_iff {nonzero : Bool} {bit : BitVec 6} {rt : BitVec 5} {imm : BitVec 14} :
    (Branch.test nonzero bit rt imm).encode = word ↔
      ((((bit.extractLsb' 5 1 = field word 31 1 ∧ 0b011011 = field word 25 6) ∧
        .ofBool nonzero = field word 24 1) ∧ bit.extractLsb' 0 5 = field word 19 5) ∧
          imm = field word 5 14) ∧ rt = field word 0 5 := by
  rw [Branch.encode, ofBitVec_eq_iff]
  refine append_eq_field_iff.trans (and_congr_left' ?_)
  refine append_eq_field_iff.trans (and_congr_left' ?_)
  refine append_eq_field_iff.trans (and_congr_left' ?_)
  refine append_eq_field_iff.trans (and_congr_left' ?_)
  exact append_eq_field_iff

theorem toRegisterWord_eq_iff {kind : BitVec 2} {rn : BitVec 5} : toRegisterWord kind rn = word ↔
    ToRegister word ∧ field word 21 2 = kind ∧ field word 5 5 = rn := by
  have row : toRegisterWord kind rn = word ↔
      (((0b110101100 = field word 23 9 ∧ kind = field word 21 2) ∧
        0b11111000000 = field word 10 11) ∧ rn = field word 5 5) ∧ 0 = field word 0 5 := by
    rw [toRegisterWord, ofBitVec_eq_iff]
    refine append_eq_field_iff.trans (and_congr_left' ?_)
    refine append_eq_field_iff.trans (and_congr_left' ?_)
    refine append_eq_field_iff.trans (and_congr_left' ?_)
    exact append_eq_field_iff
  rw [row, ToRegister]
  constructor
  · rintro ⟨⟨⟨⟨upper, rfl⟩, middle⟩, rfl⟩, lower⟩
    exact ⟨⟨upper.symm, middle.symm, lower.symm⟩, rfl, rfl⟩
  · rintro ⟨⟨upper, middle, lower⟩, rfl, rfl⟩
    exact ⟨⟨⟨⟨upper.symm, rfl⟩, middle.symm⟩, rfl⟩, lower.symm⟩

/-! ## Decoding what is encoded -/

theorem ofBool_beq_one (bit : BitVec 1) : BitVec.ofBool (bit == 1) = bit := by
  revert bit
  decide

theorem ofBool_beq_one_eq (b : Bool) : (BitVec.ofBool b == 1) = b := by
  cases b <;> rfl

/-- A word that is decoded is the encoding of its branch. -/
theorem encode_of_decode? (decoded : Branch.decode? word = some branch) :
    branch.encode = word := by
  unfold Branch.decode? at decoded
  split at decoded
  · rename_i immediate
    cases decoded
    split
    · rename_i link
      exact immediate_encode_iff.2 ⟨⟨link.symm, immediate.symm⟩, rfl⟩
    · rename_i plain
      have bit : ∀ link : BitVec 1, link ≠ 1 → 0 = link := by decide
      exact immediate_encode_iff.2 ⟨⟨bit _ plain, immediate.symm⟩, rfl⟩
  split at decoded
  · rename_i condition
    cases decoded
    exact encode_bCond_iff.2 ⟨⟨⟨condition.1.symm, rfl⟩, condition.2.symm⟩, rfl⟩
  split at decoded
  · rename_i compare
    cases decoded
    exact encode_compare_iff.2
      ⟨⟨⟨⟨ofBool_beq_one _, compare.symm⟩, ofBool_beq_one _⟩, rfl⟩, rfl⟩
  split at decoded
  · rename_i test
    cases decoded
    refine encode_test_iff.2 ⟨⟨⟨⟨⟨?_, test.symm⟩, ofBool_beq_one _⟩, ?_⟩, rfl⟩, rfl⟩
    · exact BitVec.extractLsb'_append_eq_left
    · exact BitVec.extractLsb'_append_eq_right
  split at decoded
  · rename_i register
    split at decoded
    · rename_i br
      cases decoded
      exact toRegisterWord_eq_iff.2 ⟨register, br, rfl⟩
    split at decoded
    · rename_i blr
      cases decoded
      exact toRegisterWord_eq_iff.2 ⟨register, blr, rfl⟩
    split at decoded
    · rename_i ret
      cases decoded
      exact toRegisterWord_eq_iff.2 ⟨register, ret, rfl⟩
    · cases decoded
  · cases decoded

/-! The six bits from bit 25 on tell the forms apart. -/

theorem not_immediate {major : BitVec 6} (is : field word 25 6 = major)
    (other : major.extractLsb' 1 5 ≠ 0b00101) : field word 26 5 ≠ 0b00101 := by
  intro immediate
  exact other ((field_of_field is 1 5 (by decide)).symm.trans immediate)

theorem major_of_condition (condition : field word 24 8 = 0b01010100) :
    field word 25 6 = 0b101010 :=
  field_of_field condition 1 6 (by decide)

theorem not_condition {major : BitVec 6} (is : field word 25 6 = major) (other : major ≠ 0b101010) :
    ¬(field word 24 8 = 0b01010100 ∧ field word 4 1 = 0) := by
  rintro ⟨condition, -⟩
  exact other (is.symm.trans (major_of_condition condition))

theorem major_of_toRegister (register : ToRegister word) : field word 25 6 = 0b101011 :=
  field_of_field register.1 2 6 (by decide)

theorem decode?_of_toRegister (register : ToRegister word) : Branch.decode? word =
    if field word 21 2 = 0b00 then some (.br (field word 5 5))
    else if field word 21 2 = 0b01 then some (.blr (field word 5 5))
    else if field word 21 2 = 0b10 then some (.ret (field word 5 5))
    else none := by
  have major := major_of_toRegister register
  have compare : field word 25 6 ≠ 0b011010 := by rw [major]; decide
  have test : field word 25 6 ≠ 0b011011 := by rw [major]; decide
  rw [Branch.decode?, if_neg (not_immediate major (by decide)),
    if_neg (not_condition major (by decide)), if_neg compare, if_neg test, if_pos register]

/-- An encoded branch is decoded as itself. -/
theorem decode?_encode (branch : Branch) : Branch.decode? branch.encode = some branch := by
  generalize same : branch.encode = word
  cases branch with
  | b imm =>
    obtain ⟨⟨link, immediate⟩, rfl⟩ := immediate_encode_iff.1 same
    rw [Branch.decode?, if_pos immediate.symm, ← link]
    rfl
  | bl imm =>
    obtain ⟨⟨link, immediate⟩, rfl⟩ := immediate_encode_iff.1 same
    rw [Branch.decode?, if_pos immediate.symm, ← link]
    rfl
  | bCond cond imm =>
    obtain ⟨⟨⟨upper, rfl⟩, lower⟩, rfl⟩ := encode_bCond_iff.1 same
    have major := major_of_condition upper.symm
    rw [Branch.decode?, if_neg (not_immediate major (by decide)),
      if_pos ⟨upper.symm, lower.symm⟩]
  | compare wide nonzero rt imm =>
    obtain ⟨⟨⟨⟨width, major⟩, op⟩, rfl⟩, rfl⟩ := encode_compare_iff.1 same
    rw [Branch.decode?, if_neg (not_immediate major.symm (by decide)),
      if_neg (not_condition major.symm (by decide)), if_pos major.symm, ← width, ← op,
      ofBool_beq_one_eq, ofBool_beq_one_eq]
  | test nonzero bit rt imm =>
    obtain ⟨⟨⟨⟨⟨high, major⟩, op⟩, rest⟩, rfl⟩, rfl⟩ := encode_test_iff.1 same
    have compare : field word 25 6 ≠ 0b011010 := by rw [← major]; decide
    have whole : bit.extractLsb' 5 1 ++ bit.extractLsb' 0 5 = bit :=
      BitVec.extractLsb'_append_extractLsb'
    rw [Branch.decode?, if_neg (not_immediate major.symm (by decide)),
      if_neg (not_condition major.symm (by decide)), if_neg compare, if_pos major.symm, ← high,
      ← op, ← rest, whole, ofBool_beq_one_eq]
  | br rn | blr rn | ret rn =>
    obtain ⟨register, kind, rfl⟩ := toRegisterWord_eq_iff.1 same
    rw [decode?_of_toRegister register, kind]
    rfl

/-- The words that decode as a branch are those that encode it. -/
theorem decode?_eq_some_iff : Branch.decode? word = some branch ↔ branch.encode = word := by
  constructor
  · exact encode_of_decode?
  · rintro rfl
    exact decode?_encode branch

theorem decode?_eq_none_iff :
    Branch.decode? word = none ↔ ∀ branch : Branch, branch.encode ≠ word := by
  simp only [Option.eq_none_iff_forall_ne_some, ne_eq, decode?_eq_some_iff]

/-- No word encodes two branches. -/
theorem encode_injective : Function.Injective Branch.encode := by
  intro branch branch' same
  have decoded := decode?_encode branch
  rw [same, decode?_encode branch'] at decoded
  exact (Option.some.inj decoded).symm

/-! ## Successors -/

/-- The words that have the form of a branch to a register and are none. -/
def unallocatedWord (rn : BitVec 5) : UInt32 :=
  (0xd67f0000 : UInt32) ||| (UInt32.ofBitVec (rn.setWidth 32) <<< 5)

theorem unallocatedWord_eq : ∀ rn, unallocatedWord rn = toRegisterWord 0b11 rn := by
  decide

theorem unallocated_iff : Unallocated word ↔ ∃ rn, unallocatedWord rn = word := by
  simp only [unallocatedWord_eq, toRegisterWord_eq_iff, Unallocated]
  constructor
  · rintro ⟨register, kind⟩
    exact ⟨_, register, kind, rfl⟩
  · rintro ⟨_, register, kind, -⟩
    exact ⟨register, kind⟩

/-- An encoded branch leads where the branch goes. -/
theorem successors_encode (pc : UInt64) (branch : Branch) (regs : Registers) :
    successors pc branch.encode regs = branch.ways { regs with pc } := by
  have ways := successors_eq branch.encode { regs with pc }
  rw [decode?_encode] at ways
  exact ways

/-- A word that encodes no branch leads to the next one. -/
theorem successors_of_ne_encode (pc : UInt64) (regs : Registers)
    (other : ∀ branch : Branch, branch.encode ≠ word)
    (allocated : ∀ rn, unallocatedWord rn ≠ word) :
    successors pc word regs = { first := pc + 4 } := by
  have ways := successors_eq word { regs with pc }
  have closed : ¬Unallocated word := by
    rw [unallocated_iff]
    exact fun ⟨rn, is⟩ => allocated rn is
  rw [decode?_eq_none_iff.2 other] at ways
  exact ways.trans (if_neg closed)

/-- Where every word but the unallocated ones leads: a branch to its target, which counts words
from `pc` or is the value of a register (zero for number 31), a conditional one also to the next
word, and all else to the next word alone. -/
theorem successors_encoded (pc : UInt64) (regs : Registers) :
    (∀ imm, successors pc (Branch.b imm).encode regs = { first := pc + wordOffset imm } ∧
      successors pc (Branch.bl imm).encode regs = { first := pc + wordOffset imm }) ∧
    (∀ cond imm, successors pc (Branch.bCond cond imm).encode regs =
      { first := pc + wordOffset imm, second := some (pc + 4) }) ∧
    (∀ wide nonzero rt imm, successors pc (Branch.compare wide nonzero rt imm).encode regs =
      { first := pc + wordOffset imm, second := some (pc + 4) }) ∧
    (∀ nonzero bit rt imm, successors pc (Branch.test nonzero bit rt imm).encode regs =
      { first := pc + wordOffset imm, second := some (pc + 4) }) ∧
    (∀ rn, ∀ branch ∈ [Branch.br rn, .blr rn, .ret rn], successors pc branch.encode regs =
      { first := if inside : rn.toNat < 31 then regs.x[rn.toNat] else 0 }) ∧
    ∀ word, (∀ branch : Branch, branch.encode ≠ word) → (∀ rn, unallocatedWord rn ≠ word) →
      successors pc word regs = { first := pc + 4 } := by
  refine ⟨?_, ?_, ?_, ?_, ?_, ?_⟩
  · intro imm
    exact ⟨successors_encode pc _ regs, successors_encode pc _ regs⟩
  · intro cond imm
    exact successors_encode pc _ regs
  · intro wide nonzero rt imm
    exact successors_encode pc _ regs
  · intro nonzero bit rt imm
    exact successors_encode pc _ regs
  · intro rn branch member
    rw [successors_encode]
    simp only [List.mem_cons, List.not_mem_nil, or_false] at member
    rcases member with rfl | rfl | rfl <;> rfl
  · intro word other allocated
    exact successors_of_ne_encode pc regs other allocated

/-- Just before the end of the address space, a branch backwards, one whose target lies past the
end, and a word that is no branch. -/
theorem successors_encoded_wrapping :
    (Branch.b (-2)).encode = 0x17fffffe ∧
    successors 0xfffffffffffffffc 0x17fffffe Registers.zero = { first := 0xfffffffffffffff4 } ∧
    (Branch.test false 0 1 2).encode = 0x36000041 ∧
    successors 0xfffffffffffffffc 0x36000041 Registers.zero = { first := 4, second := some 0 } ∧
    (∀ branch : Branch, branch.encode ≠ 0xd503201f) ∧ (∀ rn, unallocatedWord rn ≠ 0xd503201f) ∧
    successors 0xfffffffffffffffc 0xd503201f Registers.zero = { first := 0 } := by
  obtain ⟨immediate, -, -, test, -, rest⟩ := successors_encoded 0xfffffffffffffffc Registers.zero
  have back : (Branch.b (-2)).encode = 0x17fffffe := by decide
  have ahead : (Branch.test false 0 1 2).encode = 0x36000041 := by decide
  have other : ∀ branch : Branch, branch.encode ≠ 0xd503201f := decode?_eq_none_iff.1 (by decide)
  have allocated : ∀ rn, unallocatedWord rn ≠ 0xd503201f := by decide
  refine ⟨back, ?_, ahead, ?_, other, allocated, rest 0xd503201f other allocated⟩
  · rw [← back, (immediate (-2)).1]
    decide
  · rw [← ahead, test false 0 1 2]
    decide

end GuestExec.Native
