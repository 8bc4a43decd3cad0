import GuestExec.Proofs.Fault.Contents
import GuestExec.Proofs.Fault.Decided
import GuestExec.Proofs.Fault.Registers

/-!
# What an emulated access does

An emulated access does what the processor would have done had it allowed the
access: a load puts the number that the bytes of guest memory spell into its
register, a store puts the low bytes of its register into memory (`Performed`).
It may be the second attempt, after a first one that stored the bytes of one
page and after a page was mended. `Attempted` says that nothing of this shows:
what was changed before the access is made again is overwritten by it.
-/

namespace GuestExec

open MemoryMap (ModifiesOnly Stored)

/-! ## Numbers -/

variable {bytes : List UInt8}

/-- The number that `bytes` spell, least significant first; in two's complement if `signed`. -/
def readNumber (signed : Bool) (bytes : List UInt8) : Int :=
  if signed ∧ Nat.pow 256 bytes.length ≤ 2 * ofLeBytes bytes then
    ofLeBytes bytes - Nat.pow 256 bytes.length
  else ofLeBytes bytes

theorem toNat_signExtend {bits : Nat} {value : UInt64} (small : value.toNat < Nat.pow 2 bits) :
    ((signExtend bits value).toNat : Int) =
      (if Nat.pow 2 bits ≤ 2 * value.toNat then (value.toNat : Int) - Nat.pow 2 bits
        else value.toNat) % 0x1_0000_0000_0000_0000 := by
  have number : (value.toBitVec.setWidth bits).toInt =
      if Nat.pow 2 bits ≤ 2 * value.toNat then (value.toNat : Int) - Nat.pow 2 bits
        else value.toNat := by
    rw [Nat.pow_eq] at small ⊢
    rw [BitVec.toInt_eq_toNat_cond, BitVec.toNat_setWidth, UInt64.toNat_toBitVec,
      Nat.mod_eq_of_lt small]
    split <;> split <;> omega
  show (((value.toBitVec.setWidth bits).signExtend 64).toNat : Int) = _
  rw [BitVec.signExtend, BitVec.toNat_ofInt, number,
    Int.toNat_of_nonneg (Int.emod_nonneg _ (by decide))]
  rfl

/-- What a load makes of its bytes, at 64 bits, is their number. -/
theorem toNat_loadWord (signed : Bool) (short : bytes.length ≤ 8) :
    ((loadWord signed bytes).toNat : Int) =
      readNumber signed bytes % 0x1_0000_0000_0000_0000 := by
  have width : Nat.pow 256 bytes.length = Nat.pow 2 (8 * bytes.length) := by
    rw [Nat.pow_eq, Nat.pow_eq, Nat.pow_mul]
  have below : ofLeBytes bytes < Nat.pow 2 (8 * bytes.length) := width ▸ ofLeBytes_lt bytes
  have fits : Nat.pow 2 (8 * bytes.length) ≤ 0x1_0000_0000_0000_0000 :=
    Nat.pow_le_pow_right (n := 2) (j := 64) (by decide) (by omega)
  have raw : (UInt64.ofNat (ofLeBytes bytes)).toNat = ofLeBytes bytes :=
    UInt64.toNat_ofNat_of_lt' (Nat.lt_of_lt_of_le below fits)
  rw [loadWord, readNumber]
  by_cases narrow : (signed && decide (bytes.length < 8)) = true
  · rw [if_pos narrow]
    rw [Bool.and_eq_true] at narrow
    rw [toNat_signExtend (by rw [raw]; exact below), raw, width]
    by_cases negative : Nat.pow 2 (8 * bytes.length) ≤ 2 * ofLeBytes bytes
    · rw [if_pos negative, if_pos ⟨narrow.1, negative⟩]
    · rw [if_neg negative, if_neg fun both => negative both.2]
  · rw [if_neg narrow, raw]
    by_cases negative : signed = true ∧ Nat.pow 256 bytes.length ≤ 2 * ofLeBytes bytes
    · -- Only eight bytes can spell a negative number here, and they fill the word.
      have eight : bytes.length = 8 := by
        rw [negative.1, Bool.true_and, decide_eq_true_eq] at narrow
        omega
      have full : Nat.pow 256 8 = 0x1_0000_0000_0000_0000 := rfl
      rw [if_pos negative, eight, full]
      omega
    · rw [if_neg negative]
      omega

namespace Vcpu

open Mmu (Agrees)

variable {c c₁ c' : Vcpu} {info : FaultInfo} {s : Syndrome} {a : GuestAddr}

/-- How many numbers the register of the access can hold. -/
def registerRange (s : Syndrome) : Int :=
  if s.sixtyFour then 0x1_0000_0000_0000_0000 else 0x1_0000_0000

theorem toNat_loadedValue (s : Syndrome) (short : bytes.length ≤ 8) :
    ((loadedValue s bytes).toNat : Int) =
      readNumber s.signExtends bytes % registerRange s := by
  have word := toNat_loadWord s.signExtends short
  rw [loadedValue, registerRange]
  by_cases wide : s.sixtyFour = true
  · rw [if_pos wide, if_pos wide]
    exact word
  · have low : (loadWord s.signExtends bytes &&& 0xffffffff).toNat =
        (loadWord s.signExtends bytes).toNat % 0x1_0000_0000 := by
      rw [UInt64.toNat_and]
      exact Nat.and_two_pow_sub_one_eq_mod _ 32
    rw [if_neg wide, if_neg wide, low]
    omega

/-! ## The access -/

/-- `c'` is `c` after the access that `s` describes was made at `a`. -/
inductive Performed (c : Vcpu) (a : GuestAddr) (s : Syndrome) (c' : Vcpu) : Prop where
  /-- The register takes the number that the bytes spell, as far as its width goes. -/
  | loaded {bytes : List UInt8} {value : UInt64} (read : s.isWrite = false)
    (sized : bytes.length = s.accessSize) (shown : c.mmu.memory.Shows a bytes)
    (number : (value.toNat : Int) = readNumber s.signExtends bytes % registerRange s)
    (regs : c'.regs = { c.regs.setReg s.register value with pc := c.regs.pc + 4 })
    (memory : ModifiesOnly (fun _ => False) c.mmu.memory c'.mmu.memory)
  /-- The bytes take the low part of the register. -/
  | stored {data : List UInt8} (write : s.isWrite = true) (sized : data.length = s.accessSize)
    (number : ofLeBytes data = (c.regs.reg s.register).toNat % Nat.pow 256 s.accessSize)
    (regs : c'.regs = { c.regs with pc := c.regs.pc + 4 })
    (memory : Stored c.mmu.memory a data c'.mmu.memory)

/-- `c'` is `c` after something that came before the access: it changed at most bytes that the
access would write. -/
structure Attempted (c : Vcpu) (info : FaultInfo) (c' : Vcpu) : Prop where
  regs : c'.regs = c.regs
  agrees : c'.mmu.Agrees
  memory : ModifiesOnly (WritesAt info) c.mmu.memory c'.mmu.memory

theorem Attempted.trans (h : Attempted c info c₁) (h' : Attempted c₁ info c') :
    Attempted c info c' :=
  ⟨h'.regs.trans h.regs, h'.agrees, h.memory.trans h'.memory⟩

/-- What came before the access does not show after it. -/
theorem Performed.of_attempted (h : Performed c₁ info.address s c') (g : c.mmu.Agrees)
    (before : Attempted c info c₁) (described : emulable info = some s) :
    Performed c info.address s c' := by
  have range : ∀ n, WritesAt info n → s.isWrite = true ∧ info.address.Spans s.accessSize n := by
    rintro n ⟨s', described', write, span⟩
    rw [described] at described'
    cases described'
    exact ⟨write, span⟩
  cases h with
  | loaded read sized shown number regs memory =>
    have same : ModifiesOnly (fun _ => False) c.mmu.memory c₁.mmu.memory :=
      before.memory.mono fun n written => Bool.noConfusion (read.symm.trans (range n written).1)
    rw [before.regs] at regs
    refine .loaded read sized (fun i inside => ?_) number regs (same.trans memory)
    rw [← same.byte?_eq g.memory (fun none => none)]
    exact shown i inside
  | @stored data write sized number regs memory =>
    have same : ModifiesOnly (info.address.Spans data.length) c.mmu.memory c₁.mmu.memory :=
      before.memory.mono fun n written => sized ▸ (range n written).2
    rw [before.regs] at number regs
    exact .stored write sized number regs ⟨same.trans memory.toModifiesOnly, memory.holds⟩

/-! ## The parts of the handler -/

/-- A retry leaves the registers and the bytes as they were. -/
theorem attempted_onAccess (g : c.mmu.Agrees) (info : FaultInfo) {info' : FaultInfo}
    (eq : c.onAccess info' = (.retry, c')) : Attempted c info c' := by
  have agrees := agrees_onAccess g info'
  have memory : ModifiesOnly (WritesAt info) c.mmu.memory (c.onAccess info').2.mmu.memory := by
    rw [memory_onAccess]
    exact g.memory.modifiesOnly_resolveFault _ info'.address info'.access
  rw [eq] at agrees memory
  exact ⟨regs_of_retry eq, agrees, memory⟩

theorem attempted_firstWalkMiss (g : c.mmu.Agrees) (info : FaultInfo) (a : GuestAddr) (len : Nat)
    (access : Access) :
    Attempted c info { c with mmu := (c.mmu.firstWalkMiss a len access).2 } := by
  refine ⟨rfl, g.firstWalkMiss a len access, ?_⟩
  rw [Mmu.memory_firstWalkMiss]
  exact .refl _ _

/-- The access in software: it is made, or it was only attempted. -/
theorem onAlignment_attempts (g : c.mmu.Agrees) (described : emulable info = some s) :
    (∃ c', c.onAlignment info = (some .emulated, c') ∧ Performed c info.address s c') ∨
      ∃ c', c.onAlignment info = (none, c') ∧ Attempted c info c' := by
  obtain ⟨pos, le⟩ := accessSize_bounds s
  have short : s.accessSize ≤ pageSize := Nat.le_trans le (by decide)
  by_cases write : s.isWrite = true
  · have length := length_storeBytes s.accessSize (c.regs.reg s.register)
    obtain ⟨agrees, modified, stored⟩ := g.write .walk info.address
      (storeBytes s.accessSize (c.regs.reg s.register)) (by omega) (by omega)
    simp only [onAlignment, described, if_pos write]
    split
    · rename_i done
      exact .inl ⟨_, rfl, .stored write length (ofLeBytes_toLeBytes _ _) rfl (stored done)⟩
    · refine .inr ⟨_, rfl, rfl, agrees, modified.mono fun n span => ?_⟩
      exact ⟨s, described, write, length ▸ span⟩
  · have read : s.isWrite = false := (Bool.not_eq_true _).mp write
    have kept := Mmu.memory_read .walk c.mmu info.address s.accessSize
    simp only [onAlignment, described, if_neg write]
    split
    · exact .inr ⟨_, rfl, rfl, g.read .walk info.address s.accessSize, kept ▸ .refl _ _⟩
    · rename_i bytes got
      obtain ⟨sized, shown⟩ := g.shows_read short pos got
      refine .inl ⟨_, rfl, .loaded read sized shown (toNat_loadedValue s (by omega)) ?_ ?_⟩
      · obtain ⟨x, -, same⟩ := c.regs.setReg_eq s.register (loadedValue s bytes)
        dsimp only [advance]
        rw [same]
      · exact kept ▸ .refl _ _

theorem performed_onStraddling (g : c.mmu.Agrees) (described : emulable info = some s)
    (done : (c.onStraddling info s).1 = .emulated) :
    Performed c info.address s (c.onStraddling info s).2 := by
  have searched := attempted_firstWalkMiss g info info.address s.accessSize
    (if s.isWrite then .write else .read)
  rcases found : c.mmu.firstWalkMiss info.address s.accessSize
    (if s.isWrite then .write else .read) with ⟨_ | miss, u⟩
  · simp only [onStraddling, found] at done
    cases done
  · rw [found] at searched
    rcases mended : onAccess { c with mmu := u }
      { info with address := miss, access := if s.isWrite then .write else .read } with
      ⟨outcome, c₁⟩
    by_cases retried : outcome = .retry
    · subst retried
      have before := searched.trans (attempted_onAccess searched.agrees info mended)
      obtain ⟨c₂, made, performed⟩ | ⟨c₂, failed, -⟩ :=
        onAlignment_attempts before.agrees described
      · simp only [onStraddling, found, mended, made]
        exact performed.of_attempted g before described
      · simp only [onStraddling, found, mended, failed] at done
        cases done
    · have never := onAccess_ne_emulated { c with mmu := u }
        { info with address := miss, access := if s.isWrite then .write else .read }
      simp only [onStraddling, found, mended] at done never
      exact absurd done never

/-- An access that was emulated was made, and nothing else was: over a TLB that agrees with a
regular map, for every fault, whatever pages had to be mended for it. -/
theorem performed_of_emulated (g : c.mmu.Agrees)
    (done : (c.handle .alignment info).1 = .emulated) :
    ∃ s, emulable info = some s ∧ Performed c info.address s (c.handle .alignment info).2 := by
  cases described : emulable info with
  | none =>
    have failed : c.onAlignment info = (none, c) := by rw [onAlignment, described]
    have never := onAccess_ne_emulated c info
    simp only [handle, failed, described] at done
    split at done
    · cases done
    · rename_i eq
      rw [eq] at never
      exact absurd done never
  | some s =>
    refine ⟨s, rfl, ?_⟩
    obtain ⟨c₁, made, performed⟩ | ⟨c₁, failed, before⟩ := onAlignment_attempts g described
    · simp only [handle, made]
      exact performed
    · rw [handle_eq_onStraddling described failed] at done ⊢
      exact (performed_onStraddling before.agrees described done).of_attempted g before described

/-- Two regions that meet in the guest's memory and not in the host's; the second one is guarded.
X5 is wider than what is about to be stored of it. -/
def atSeam : Vcpu :=
  { regs := Registers.zero.setReg 5 0x9fffe1234
    mmu := ⟨.empty, MemoryMap.after [.map ⟨0x10000⟩ 0x1000 .readWrite,
      .map ⟨0x30000⟩ 0x1000 .readWrite, .map ⟨0x11000⟩ 0x1000 .readWrite,
      .guard ⟨0x11000⟩ 0x1000]⟩
    stats := {}
    record := none }

/-- Four bytes, two in each region. -/
def acrossSeam (signed : Bool) (register : UInt8) (isWrite : Bool) : FaultInfo :=
  { address := ⟨0x10ffe⟩
    access := if isWrite then .write else .read
    syndrome := some (Syndrome.alignment 4 signed register isWrite).word }

/-- The low half of X5 is stored, and loaded with its sign into X3. -/
theorem performed_of_emulated_acrossSeam :
    let stored := (atSeam.handle .alignment (acrossSeam false 5 true)).2
    let loaded := (stored.handle .alignment (acrossSeam true 3 false)).2
    Stored atSeam.mmu.memory ⟨0x10ffe⟩ [0x34, 0x12, 0xfe, 0xff] stored.mmu.memory ∧
      loaded.regs.reg 3 = 0xfffffffffffe1234 ∧ loaded.regs.pc = 8 := by
  intro stored loaded
  have w : atSeam.mmu.memory.Regular := MemoryMap.regular_after _
  have sound : atSeam.mmu.Sound := ⟨w, Tlb.coherent_empty _⟩
  have done : (atSeam.handle .alignment (acrossSeam false 5 true)).1 = .emulated := by
    decide +kernel
  have done' : (stored.handle .alignment (acrossSeam true 3 false)).1 = .emulated := by
    decide +kernel
  obtain ⟨s, described, performed⟩ := performed_of_emulated sound.agrees done
  rw [acrossSeam, emulable_alignment] at described
  cases described
  have low : (atSeam.regs.reg (Syndrome.alignment 4 false 5 true).register).toNat %
    Nat.pow 256 (Syndrome.alignment 4 false 5 true).accessSize = 0xfffe1234 := by decide +kernel
  cases performed with
  | loaded read => cases read
  | @stored data _ sized number regs memory =>
    have bytes : data = [0x34, 0x12, 0xfe, 0xff] := by
      rw [← toLeBytes_ofLeBytes data, number, low, sized]
      decide +kernel
    rw [bytes] at memory
    obtain ⟨s, described, performed⟩ :=
      performed_of_emulated (follows_handle sound _ _).sound.agrees done'
    rw [acrossSeam, emulable_alignment] at described
    cases described
    cases performed with
    | stored write => cases write
    | @loaded bytes value _ sized shown number regs' =>
      have same : bytes = [0x34, 0x12, 0xfe, 0xff] := shown.eq memory.holds (by rw [sized]; decide)
      have negative : readNumber (Syndrome.alignment 4 true 3 false).signExtends
          [0x34, 0x12, 0xfe, 0xff] % registerRange (Syndrome.alignment 4 true 3 false) =
          (0xfffffffffffe1234 : UInt64).toNat := by decide +kernel
      rw [same, negative, Int.natCast_inj] at number
      have register : (Syndrome.alignment 4 true 3 false).register = 3 := by decide +kernel
      have after : loaded.regs = _ := regs'
      rw [register, UInt64.toNat_inj.1 number, regs] at after
      rw [after]
      exact ⟨memory, by decide +kernel, by decide +kernel⟩

end Vcpu

end GuestExec
