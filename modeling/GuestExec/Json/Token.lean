import GuestExec.Word.Hex

/-!
# JSON tokens

`tokens` splits a JSON text into tokens. A number keeps its value only if it is
written with digits alone. A string keeps its text only if its escapes stand for
whole characters: surrogates must come in pairs.
-/

namespace GuestExec.Json

inductive Token where
  | openObject
  | closeObject
  | openArray
  | closeArray
  | comma
  | colon
  | null
  | flag (b : Bool)
  /-- A number written with digits alone. -/
  | natural (n : Nat)
  /-- A number with a sign, a fraction or an exponent. -/
  | number
  | string (text : Option String)
deriving DecidableEq, Repr

def isBlank (c : Char) : Bool := c == ' ' || c == '\n' || c == '\t' || c == '\r'

/-! ## Strings -/

/-- A character of a string: written as it is or by a short escape, or as a number of 16 bits. -/
inductive Piece where
  | char (c : Char)
  | unit (n : Nat)
deriving DecidableEq, Repr

/-- The character that an escape of one letter stands for. -/
def shortEscape? : Char → Option Char
  | '"' => some '"'
  | '\\' => some '\\'
  | '/' => some '/'
  | 'b' => some '\x08'
  | 'f' => some '\x0c'
  | 'n' => some '\n'
  | 'r' => some '\r'
  | 't' => some '\t'
  | _ => none

/-- The pieces of a string after its opening quote, and what follows the closing quote. -/
def stringBody : List Char → Option (List Piece × List Char)
  | [] => none
  | '"' :: rest => some ([], rest)
  | '\\' :: 'u' :: a :: b :: c :: d :: rest => do
    let n ← ofHexDigits? [a, b, c, d]
    let (pieces, rest) ← stringBody rest
    return (.unit n :: pieces, rest)
  | '\\' :: e :: rest => do
    let c ← shortEscape? e
    let (pieces, rest) ← stringBody rest
    return (.char c :: pieces, rest)
  | c :: rest =>
    if c.toNat < 0x20 then none
    else do
      let (pieces, rest) ← stringBody rest
      return (.char c :: pieces, rest)

/-- The first half of a character past the 16-bit ones. -/
def isLeading (n : Nat) : Bool := decide (0xd800 ≤ n) && decide (n < 0xdc00)

/-- The second half of a character past the 16-bit ones. -/
def isTrailing (n : Nat) : Bool := decide (0xdc00 ≤ n) && decide (n < 0xe000)

/-- The text that pieces stand for; nothing if half a character stands alone. -/
def join : List Piece → Option (List Char)
  | [] => some []
  | .char c :: rest => (join rest).map (c :: ·)
  | .unit n :: rest =>
    if isLeading n then
      match rest with
      | .unit m :: rest =>
        if isTrailing m then
          (join rest).map (Char.ofNat (0x10000 + (n - 0xd800) * 0x400 + (m - 0xdc00)) :: ·)
        else none
      | _ => none
    else if isTrailing n then none
    else (join rest).map (Char.ofNat n :: ·)

/-! ## Numbers -/

/-- Drops a run of digits; nothing if there is none. -/
def dropDigits? (cs : List Char) : Option (List Char) :=
  if cs.head?.any Char.isDigit then some (cs.dropWhile Char.isDigit) else none

def dropSign : List Char → List Char
  | '+' :: rest => rest
  | '-' :: rest => rest
  | rest => rest

/-- Drops a fraction, if there is one; nothing if it has no digits. -/
def dropFraction : List Char → Option (List Char)
  | '.' :: rest => dropDigits? rest
  | rest => some rest

/-- Drops an exponent, if there is one; nothing if it has no digits. -/
def dropExponent : List Char → Option (List Char)
  | [] => some []
  | c :: rest => if c == 'e' || c == 'E' then dropDigits? (dropSign rest) else some (c :: rest)

/-- The number that decimal digits stand for. -/
def decimal (digits : List Char) : Nat := digits.foldl (fun n c => 10 * n + (c.toNat - 48)) 0

/-- Reads a number without its sign: a leading zero stands alone. -/
def unsigned (cs : List Char) : Option (Token × List Char) :=
  let digits := cs.takeWhile Char.isDigit
  let rest := cs.dropWhile Char.isDigit
  if digits.isEmpty || (digits.length != 1 && digits.head? == some '0') then none
  else
    (dropFraction rest >>= dropExponent).map fun after =>
      (if after == rest then .natural (decimal digits) else .number, after)

/-! ## The text -/

/-- Reads one token. -/
def token? : List Char → Option (Token × List Char)
  | '{' :: rest => some (.openObject, rest)
  | '}' :: rest => some (.closeObject, rest)
  | '[' :: rest => some (.openArray, rest)
  | ']' :: rest => some (.closeArray, rest)
  | ',' :: rest => some (.comma, rest)
  | ':' :: rest => some (.colon, rest)
  | '"' :: rest => (stringBody rest).map fun (pieces, rest) =>
    (.string ((join pieces).map String.ofList), rest)
  | 'n' :: 'u' :: 'l' :: 'l' :: rest => some (.null, rest)
  | 't' :: 'r' :: 'u' :: 'e' :: rest => some (.flag true, rest)
  | 'f' :: 'a' :: 'l' :: 's' :: 'e' :: rest => some (.flag false, rest)
  | '-' :: rest => (unsigned rest).map fun (_, rest) => (.number, rest)
  | cs => unsigned cs

theorem length_dropWhile_le {α : Type} (p : α → Bool) (l : List α) :
    (l.dropWhile p).length ≤ l.length :=
  (List.dropWhile_suffix p).length_le

theorem length_stringBody {cs rest : List Char} {pieces : List Piece}
    (h : stringBody cs = some (pieces, rest)) : rest.length < cs.length := by
  fun_induction stringBody cs generalizing pieces rest with
  | case1 => simp at h
  | case2 => simp at h; simp [h.2]
  | case3 a b c d tail ih =>
    simp only [Option.bind_eq_bind, Option.bind_eq_some_iff] at h
    obtain ⟨n, -, ⟨ps, r⟩, hr, heq⟩ := h
    simp at heq
    have := ih hr
    rw [← heq.2]; simp; omega
  | case4 e tail _ ih =>
    simp only [Option.bind_eq_bind, Option.bind_eq_some_iff] at h
    obtain ⟨n, -, ⟨ps, r⟩, hr, heq⟩ := h
    simp at heq
    have := ih hr
    rw [← heq.2]; simp; omega
  | case5 => simp at h
  | case6 c tail _ _ _ hc ih =>
    simp only [Option.bind_eq_bind, Option.bind_eq_some_iff] at h
    obtain ⟨⟨ps, r⟩, hr, heq⟩ := h
    simp at heq
    have := ih hr
    rw [← heq.2]; simp; omega

theorem length_dropDigits? {cs rest : List Char} (h : dropDigits? cs = some rest) :
    rest.length ≤ cs.length := by
  unfold dropDigits? at h
  split at h
  · have e : cs.dropWhile Char.isDigit = rest := by simpa using h
    rw [← e]; exact length_dropWhile_le _ _
  · simp at h

theorem length_dropSign (cs : List Char) : (dropSign cs).length ≤ cs.length := by
  unfold dropSign; split <;> simp

theorem length_dropFraction {cs rest : List Char} (h : dropFraction cs = some rest) :
    rest.length ≤ cs.length := by
  unfold dropFraction at h
  split at h
  · have := length_dropDigits? h; simp; omega
  · simp at h; simp [h]

theorem length_dropExponent {cs rest : List Char} (h : dropExponent cs = some rest) :
    rest.length ≤ cs.length := by
  unfold dropExponent at h
  split at h
  · simp at h; simp [h]
  · rename_i c tail
    split at h
    · have h1 := length_dropDigits? h
      have h2 := length_dropSign tail
      simp; omega
    · simp at h; simp [← h]

theorem length_unsigned {cs rest : List Char} {t : Token} (h : unsigned cs = some (t, rest)) :
    rest.length < cs.length := by
  unfold unsigned at h
  simp only at h
  split at h
  · simp at h
  · rename_i hd
    simp only [Option.bind_eq_bind, Option.map_eq_some_iff, Option.bind_eq_some_iff] at h
    obtain ⟨after, ⟨mid, h1, h2⟩, heq⟩ := h
    have l1 := length_dropFraction h1
    have l2 := length_dropExponent h2
    have l3 : after = rest := by simpa using congrArg Prod.snd heq
    have l4 : cs.takeWhile Char.isDigit ≠ [] := by
      intro h0; simp [h0] at hd
    have l5 := List.length_pos_iff.2 l4
    have l6 := congrArg List.length (List.takeWhile_append_dropWhile (p := Char.isDigit) (l := cs))
    rw [List.length_append] at l6
    subst l3; omega

theorem length_token? {cs rest : List Char} {t : Token} (h : token? cs = some (t, rest)) :
    rest.length < cs.length := by
  fun_cases token? cs with
  | case7 tail =>
    simp only [token?, Option.map_eq_some_iff] at h
    obtain ⟨⟨ps, r⟩, hr, heq⟩ := h
    have := length_stringBody hr
    have e : r = rest := by simpa using congrArg Prod.snd heq
    subst e; simp; omega
  | case11 tail =>
    simp only [token?, Option.map_eq_some_iff] at h
    obtain ⟨⟨t', r⟩, hr, heq⟩ := h
    have := length_unsigned hr
    have e : r = rest := by simpa using congrArg Prod.snd heq
    subst e; simp; omega
  | case12 => exact length_unsigned (by simpa [token?] using h)
  | _ => simp [token?] at h; simp [← h.2]; try omega

/-- All tokens of a text. -/
def tokens (cs : List Char) : Option (List Token) :=
  match cs with
  | [] => some []
  | c :: rest =>
    if isBlank c then tokens rest
    else
      match _ : token? (c :: rest) with
      | none => none
      | some (t, rest) => (tokens rest).map (t :: ·)
termination_by cs.length
decreasing_by
  · simp
  · have := length_token? ‹_›; simpa using this

end GuestExec.Json
