import GuestExec.Tlb.Basic

/-!
# The hit rate

The share of lookups that hit, as a double: the fraction rounded to the nearest
binary number of 53 significant bits, ties to the even one. Its text has three
decimals, rounded from the double in the same way.
-/

namespace GuestExec

/-- `num / den` rounded to the nearest natural number, a tie to the even one. -/
def roundDiv (num den : Nat) : Nat :=
  let q := num / den
  let r := num % den
  if 2 * r < den then q
  else if den < 2 * r then q + 1
  else if q % 2 = 0 then q else q + 1

/-- A double in (0, 1]: `mantissa / 2 ^ scale`, the mantissa having 53 bits. -/
structure UnitDouble where
  mantissa : Nat
  scale : Nat
deriving DecidableEq, Repr

namespace UnitDouble

/-- The double nearest to `num / den`, where `0 < num ≤ den`. -/
def ofRatio (num den : Nat) : UnitDouble :=
  let guess := 52 + den.log2 - num.log2
  let scale := if (num <<< guess) / den < 1 <<< 52 then guess + 1 else guess
  let mantissa := roundDiv (num <<< scale) den
  if mantissa = 1 <<< 53 then ⟨1 <<< 52, scale - 1⟩ else ⟨mantissa, scale⟩

/-- The IEEE 754 encoding of a normal double: sign, exponent, mantissa without its top bit. -/
def bits (d : UnitDouble) : UInt64 :=
  UInt64.ofNat (((1075 - d.scale) <<< 52) + (d.mantissa - (1 <<< 52)))

/-- The value in thousandths, rounded. -/
def thousandths (d : UnitDouble) : Nat :=
  roundDiv (1000 * d.mantissa) (1 <<< d.scale)

end UnitDouble

namespace Tlb.Stats

/-- The share of lookups that hit; nothing when it is zero or there were none. -/
def hitRate? (s : Stats) : Option UnitDouble :=
  if s.hits = 0 then none else some (.ofRatio s.hits (s.hits + s.misses))

/-- The hit rate's encoding as a double. -/
def hitRateBits (s : Stats) : UInt64 :=
  (s.hitRate?.map UnitDouble.bits).getD 0

/-- The hit rate with three decimals. -/
def hitRateText (s : Stats) : String :=
  let n := (s.hitRate?.map UnitDouble.thousandths).getD 0
  let decimals := toString (n % 1000)
  s!"{n / 1000}." ++ String.ofList (List.replicate (3 - decimals.length) '0') ++ decimals

end Tlb.Stats

end GuestExec
