/-!
# Words as little-endian bytes

Guest memory holds bytes, registers hold words. `toLeBytes` and `ofLeBytes`
convert, and `ofLeBytes_toLeBytes` says that a word survives the trip cut to
the bytes it was given.
-/

namespace GuestExec

/-- The `count` low bytes of `n`, least significant first. -/
def toLeBytes : (count : Nat) → (n : Nat) → List UInt8
  | 0, _ => []
  | count + 1, n => UInt8.ofNat n :: toLeBytes count (n / 256)

/-- The number that `bytes` spell, least significant first. -/
def ofLeBytes : List UInt8 → Nat
  | [] => 0
  | b :: rest => b.toNat + 256 * ofLeBytes rest

@[simp] theorem length_toLeBytes (count n : Nat) : (toLeBytes count n).length = count := by
  induction count generalizing n with
  | zero => rfl
  | succ count ih => simp [toLeBytes, ih]

theorem ofLeBytes_lt (bytes : List UInt8) : ofLeBytes bytes < Nat.pow 256 bytes.length := by
  induction bytes with
  | nil => simp [ofLeBytes]
  | cons b rest ih =>
    have hb : b.toNat < 256 := b.toNat_lt
    simp only [ofLeBytes, List.length_cons, Nat.pow_eq, Nat.pow_succ] at *
    omega

theorem ofLeBytes_toLeBytes (count n : Nat) :
    ofLeBytes (toLeBytes count n) = n % Nat.pow 256 count := by
  induction count generalizing n with
  | zero => simp [toLeBytes, ofLeBytes, Nat.mod_one]
  | succ count ih =>
    have hb : (UInt8.ofNat n).toNat = n % 256 := UInt8.toNat_ofNat'
    simp only [toLeBytes, ofLeBytes, ih, hb, Nat.pow_eq, Nat.pow_succ', Nat.mod_mul]

theorem toLeBytes_ofLeBytes (bytes : List UInt8) :
    toLeBytes bytes.length (ofLeBytes bytes) = bytes := by
  induction bytes with
  | nil => rfl
  | cons b rest ih =>
    have hb : b.toNat < 256 := b.toNat_lt
    have low : UInt8.ofNat (b.toNat + 256 * ofLeBytes rest) = b := by
      apply UInt8.toNat_inj.1
      rw [UInt8.toNat_ofNat']
      omega
    have high : (b.toNat + 256 * ofLeBytes rest) / 256 = ofLeBytes rest := by omega
    rw [List.length_cons, ofLeBytes, toLeBytes, low, high, ih]

/-- The word whose low `bits` bits are those of `value`, read as a signed number. -/
def signExtend (bits : Nat) (value : UInt64) : UInt64 :=
  UInt64.ofBitVec ((value.toBitVec.setWidth bits).signExtend 64)

/-- The word that a load of `bytes` yields. -/
def loadWord (signed : Bool) (bytes : List UInt8) : UInt64 :=
  let raw := UInt64.ofNat (ofLeBytes bytes)
  if signed && bytes.length < 8 then signExtend (8 * bytes.length) raw else raw

/-- The low `count` bytes of a word. -/
def storeBytes (count : Nat) (word : UInt64) : List UInt8 := toLeBytes count word.toNat

@[simp] theorem length_storeBytes (count : Nat) (word : UInt64) :
    (storeBytes count word).length = count :=
  length_toLeBytes count word.toNat

end GuestExec
