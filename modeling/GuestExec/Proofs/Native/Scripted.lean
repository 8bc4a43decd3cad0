import GuestExec.Proofs.Native.Frames
import GuestExec.Proofs.Native.Handlers

/-!
# Frames of scripted runs

A scripted run makes its frames itself: floating-point state comes first, if there
is any, then the syndrome of the trap, then nothing. The walk of the records finds
exactly these, and no handler changes where they are.
-/

namespace GuestExec.Native

open ReservedArea (number setNumber number_setNumber number_setNumber_apart)

variable {area : ReservedArea} {start offset count magic size word : Nat} {found : FoundRecords}
  {withoutFp : Bool} {f : SignalFrame} {v v' : FrameView} {syndrome : Option UInt64}

/-! ## A record of sixteen bytes -/

namespace ReservedArea

/-- The area with a record of one number at `start`. -/
def setRecord (area : ReservedArea) (start magic size word : Nat) : ReservedArea :=
  setNumber (setNumber (setNumber area start 4 magic) (start + 4) 4 size) (start + 8) 8 word

theorem number_setRecord_apart
    (apart : offset + count ≤ start ∨ start + esrRecordSize ≤ offset) :
    number (setRecord area start magic size word) offset count = number area offset count := by
  rw [esrRecordSize] at apart
  rw [setRecord, number_setNumber_apart (by omega), number_setNumber_apart (by omega),
    number_setNumber_apart (by omega)]

variable (fits : start + esrRecordSize ≤ reservedSize)
include fits

theorem magic_setRecord :
    number (setRecord area start magic size word) start 4 = magic % Nat.pow 256 4 := by
  rw [esrRecordSize] at fits
  rw [setRecord, number_setNumber_apart (by omega), number_setNumber_apart (by omega),
    number_setNumber (by omega)]

theorem size_setRecord :
    number (setRecord area start magic size word) (start + 4) 4 = size % Nat.pow 256 4 := by
  rw [esrRecordSize] at fits
  rw [setRecord, number_setNumber_apart (by omega), number_setNumber (by omega)]

theorem word_setRecord :
    number (setRecord area start magic size word) (start + 8) 8 = word % Nat.pow 256 8 := by
  rw [esrRecordSize] at fits
  rw [setRecord, number_setNumber (by omega)]

end ReservedArea

/-! ## The walk -/

theorem walkRecords_of_fp (magic : number area start 4 = fpMagic)
    (size : number area (start + 4) 4 = fpRecordSize) (fits : start + fpRecordSize ≤ reservedSize) :
    walkRecords area start found =
      walkRecords area (start + fpRecordSize) { found with fp := some start } := by
  have there : ¬EndsAt area start := by
    rw [EndsAt, magic, size]
    simp only [fpMagic, fpRecordSize, reservedSize] at fits ⊢
    omega
  rw [walkRecords_of_not_endsAt there, FoundRecords.add, magic, size]
  rfl

theorem walkRecords_of_esr (magic : number area start 4 = esrMagic)
    (size : number area (start + 4) 4 = esrRecordSize)
    (fits : start + esrRecordSize ≤ reservedSize) :
    walkRecords area start found = walkRecords area (start + esrRecordSize)
      { found with syndrome := some (UInt64.ofNat (number area (start + 8) 8)) } := by
  have there : ¬EndsAt area start := by
    rw [EndsAt, magic, size]
    simp only [esrMagic, esrRecordSize, reservedSize] at fits ⊢
    omega
  rw [walkRecords_of_not_endsAt there, FoundRecords.add, magic, size]
  rfl

/-- A walk from where the syndrome would be, with nothing behind it. -/
theorem walkRecords_setRecord (fits : start + esrRecordSize ≤ reservedSize)
    (ends : number area (start + esrRecordSize) 4 = 0) (word : UInt64) :
    walkRecords (area.setRecord start esrMagic esrRecordSize word.toNat) start found =
      { found with syndrome := some word } := by
  have small : word.toNat % Nat.pow 256 8 = word.toNat := Nat.mod_eq_of_lt word.toNat_lt
  rw [walkRecords_of_esr (ReservedArea.magic_setRecord fits) (ReservedArea.size_setRecord fits)
    fits, ReservedArea.word_setRecord fits, small, UInt64.ofNat_toNat]
  refine walkRecords_of_endsAt (.inr (.inl ?_))
  rw [ReservedArea.number_setRecord_apart (.inr (Nat.le_refl _)), ends]

/-! ## The layout -/

/-- Where the record of the syndrome begins. -/
def syndromeStart (withoutFp : Bool) : Nat := if withoutFp then 0 else fpRecordSize

theorem syndromeStart_fits (withoutFp : Bool) :
    syndromeStart withoutFp + esrRecordSize ≤ reservedSize := by
  cases withoutFp <;> decide

namespace SignalFrame

/-- Floating-point state comes first, if there is any, and nothing comes after a syndrome. -/
structure Laid (withoutFp : Bool) (f : SignalFrame) : Prop where
  fp : withoutFp = false →
    number f.reserved 0 4 = fpMagic ∧ number f.reserved 4 4 = fpRecordSize
  ends : number f.reserved (syndromeStart withoutFp + esrRecordSize) 4 = 0

theorem laid_blank (withoutFp : Bool) : (blank withoutFp).Laid withoutFp := by
  cases withoutFp with
  | true => exact ⟨fun withFp => absurd withFp (by decide), by decide +kernel⟩
  | false => exact ⟨fun _ => ⟨by decide +kernel, by decide +kernel⟩, by decide +kernel⟩

/-- Bytes in the body of the floating-point state do not matter to the layout. -/
theorem Laid.of_around (h : f.Laid withoutFp) {reserved : ReservedArea}
    (around : withoutFp = false → SameAround 0 f.reserved reserved)
    (none : withoutFp = true → reserved = f.reserved) : { f with reserved }.Laid withoutFp := by
  cases withoutFp with
  | true =>
    rw [none rfl]
    exact h
  | false =>
    have same := around rfl
    obtain ⟨magic, size⟩ := same.header (.inl (Nat.le_refl 0))
    refine ⟨fun _ => ⟨magic.trans (h.fp rfl).1, size.trans (h.fp rfl).2⟩, ?_⟩
    exact (ReservedArea.number_congr fun i past _ =>
      same i (.inr (Nat.le_trans (by decide) past))).trans h.ends

/-- The record of a syndrome, or zeros in its place. -/
theorem exists_setRecord (f : SignalFrame) (withoutFp : Bool) (syndrome : Option UInt64) :
    ∃ magic size word, f.setSyndrome withoutFp syndrome =
      { f with reserved := f.reserved.setRecord (syndromeStart withoutFp) magic size word } := by
  cases syndrome with
  | none => exact ⟨0, 0, 0, rfl⟩
  | some word => exact ⟨esrMagic, esrRecordSize, word.toNat, rfl⟩

theorem Laid.setSyndrome (h : f.Laid withoutFp) (syndrome : Option UInt64) :
    (f.setSyndrome withoutFp syndrome).Laid withoutFp := by
  obtain ⟨magic, size, word, eq⟩ := f.exists_setRecord withoutFp syndrome
  rw [eq]
  refine ⟨fun withFp => ?_, ?_⟩
  · obtain ⟨isFp, length⟩ := h.fp withFp
    have far : 8 ≤ syndromeStart withoutFp := by rw [withFp]; decide
    exact ⟨(ReservedArea.number_setRecord_apart (.inl (by omega))).trans isFp,
      (ReservedArea.number_setRecord_apart (.inl (by omega))).trans length⟩
  · exact (ReservedArea.number_setRecord_apart (.inr (Nat.le_refl _))).trans h.ends

end SignalFrame

/-- What the walk of a scripted frame finds. -/
def scriptedRecords (withoutFp : Bool) (syndrome : Option UInt64) : FoundRecords :=
  { fp := if withoutFp then none else some 0, syndrome }

theorem SignalFrame.Laid.records (h : f.Laid withoutFp) (syndrome : Option UInt64) :
    (FrameView.ofFrame (f.setSyndrome withoutFp syndrome)).records =
      scriptedRecords withoutFp syndrome := by
  have fits := syndromeStart_fits withoutFp
  have first : walkRecords (f.setSyndrome withoutFp syndrome).reserved 0 {} =
      walkRecords (f.setSyndrome withoutFp syndrome).reserved (syndromeStart withoutFp)
        (scriptedRecords withoutFp none) := by
    cases withoutFp with
    | true => rfl
    | false =>
      obtain ⟨magic, size⟩ := (h.setSyndrome syndrome).fp rfl
      exact walkRecords_of_fp magic size (by decide)
  rw [FrameView.ofFrame]
  refine first.trans ?_
  cases syndrome with
  | none =>
    refine walkRecords_of_endsAt (.inr (.inl ?_))
    exact ReservedArea.magic_setRecord fits
  | some word => exact walkRecords_setRecord fits h.ends word

/-! ## Views -/

namespace FrameView

variable {address : UInt64}

/-- The view of a frame that a script makes for a trap that reports this. -/
structure Scripted (withoutFp : Bool) (address : UInt64) (syndrome : Option UInt64)
    (v : FrameView) : Prop where
  laid : v.frame.Laid withoutFp
  records : v.records = scriptedRecords withoutFp syndrome
  faultAddress : v.frame.faultAddress = address

theorem scripted_blank (withoutFp : Bool) :
    (ofFrame (.blank withoutFp)).Scripted withoutFp 0 none :=
  ⟨SignalFrame.laid_blank withoutFp, by cases withoutFp <;> decide +kernel, rfl⟩

theorem scripted_setSyndrome (h : f.Laid withoutFp) (syndrome : Option UInt64) :
    (ofFrame (f.setSyndrome withoutFp syndrome)).Scripted withoutFp f.faultAddress syndrome := by
  refine ⟨h.setSyndrome syndrome, h.records syndrome, ?_⟩
  obtain ⟨magic, size, word, eq⟩ := f.exists_setRecord withoutFp syndrome
  rw [ofFrame, eq]

namespace Scripted

theorem of_eq (h : v.Scripted withoutFp address syndrome) (records : v'.records = v.records)
    (reserved : v'.frame.reserved = v.frame.reserved)
    (faultAddress : v'.frame.faultAddress = v.frame.faultAddress) :
    v'.Scripted withoutFp address syndrome :=
  ⟨⟨fun withFp => reserved ▸ h.laid.fp withFp, reserved ▸ h.laid.ends⟩, records.trans h.records,
    faultAddress.trans h.faultAddress⟩

theorem sameButFp (h : v.Scripted withoutFp address syndrome) (same : SameButFp v v') :
    v'.Scripted withoutFp address syndrome := by
  obtain ⟨reserved, eq, around, none⟩ := same.frame
  have fp : v.records.fp = if withoutFp then Option.none else some 0 :=
    congrArg FoundRecords.fp h.records
  refine ⟨?_, same.records.trans h.records, ?_⟩
  · rw [eq]
    refine h.laid.of_around (fun withFp => around 0 ?_) fun without => none ?_
    · rw [fp, withFp, if_neg (by decide)]
    · rw [fp, without, if_pos rfl]
  · rw [eq]
    exact h.faultAddress

theorem edit (h : v.Scripted withoutFp address syndrome) (e : RegisterEdit) :
    (v.edit e).Scripted withoutFp address syndrome :=
  edit_induction (P := Scripted withoutFp address syndrome)
    (fun _ _ records reserved faultAddress h => h.of_eq records reserved faultAddress)
    (fun _ _ same h => h.sameButFp same) h e

theorem loadFrom (h : v.Scripted withoutFp address syndrome) (regs : Registers) :
    (v.loadFrom regs).Scripted withoutFp address syndrome :=
  have general : (v.setGeneral regs).Scripted withoutFp address syndrome := h.of_eq rfl rfl rfl
  general.sameButFp (v.sameButFp_loadFrom regs)

end Scripted

end FrameView

theorem FrameView.Scripted.deliver {address : UInt64} (h : v.Scripted withoutFp address syndrome)
    (s : Session) (mode : RunMode) (signal : HostSignal) (code : Int) :
    (s.deliver mode signal code v).2.1.Scripted withoutFp address syndrome := by
  have ends := s.frameEnds_deliver mode signal code v
  generalize (s.deliver mode signal code v).1 = landing at ends
  generalize (s.deliver mode signal code v).2.1 = v' at ends
  cases ends with
  | same => exact h
  | loaded regs => exact h.loadFrom regs
  | toHost => exact h.of_eq rfl rfl rfl

end GuestExec.Native
