/-!
# Hexadecimal text

Addresses, registers and error messages are written in lower-case hexadecimal
with no leading zeros; one log column pads them to a fixed width. Digits are read
in either case.
-/

namespace GuestExec

/-- The hexadecimal digits of `n`: at least one, and no leading zero. -/
def hexDigits (n : Nat) : String :=
  String.ofList (Nat.toDigits 16 n)

/-- The digits of `n` behind the `0x` mark. -/
def hexText (n : Nat) : String :=
  "0x" ++ hexDigits n

/-- As `hexText`, with zeros after the mark up to `width` characters in all. -/
def hexTextPadded (width n : Nat) : String :=
  let digits := hexDigits n
  "0x" ++ String.ofList (List.replicate (width - 2 - digits.length) '0') ++ digits

/-- The value of a digit. -/
def hexDigit? (c : Char) : Option Nat :=
  if c.isDigit then some (c.toNat - 48)
  else if 'a' ≤ c && c ≤ 'f' then some (c.toNat - 87)
  else if 'A' ≤ c && c ≤ 'F' then some (c.toNat - 55)
  else none

/-- The value of a run of digits, at least one. -/
def ofHexDigits? (cs : List Char) : Option Nat :=
  if cs.isEmpty then none
  else cs.foldlM (fun n c => (hexDigit? c).map (16 * n + ·)) 0

/-- The number whose digits stand behind the `0x` mark. -/
def ofHexText? (s : String) : Option Nat :=
  match s.toList with
  | '0' :: 'x' :: digits => ofHexDigits? digits
  | _ => none

/-- Two digits for each byte. -/
def bytesText (bytes : List UInt8) : String :=
  String.join (bytes.map fun b => hexDigits (b.toNat / 16) ++ hexDigits (b.toNat % 16))

/-- The bytes that a text of two digits each stands for. -/
def ofByteDigits? : List Char → Option (List UInt8)
  | [] => some []
  | [_] => none
  | high :: low :: rest => do
    let byte ← ofHexDigits? [high, low]
    return UInt8.ofNat byte :: (← ofByteDigits? rest)

end GuestExec
