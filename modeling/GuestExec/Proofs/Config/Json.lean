import GuestExec.Config.Json
import GuestExec.Proofs.Config.Laws
import GuestExec.Proofs.Word.Decimal

/-!
# The JSON that is written is read back

The text of a record is an object whose members are its entries. It is followed from the characters
through the tokens to the settings, each as they are written: a line at a time, and in a line the
name, the colon and the setting.
-/

namespace GuestExec

namespace Json

variable {n : Nat} {c d : Char} {t : Token} {cs rest : List Char}

/-! ## Tokens -/

theorem tokens_blank (blank : isBlank c = true) (rest : List Char) :
    tokens (c :: rest) = tokens rest := by
  rw [tokens, if_pos blank]

theorem tokens_of_token? (solid : isBlank c = false) (read : token? (c :: cs) = some (t, rest)) :
    tokens (c :: cs) = (tokens rest).map (t :: ·) := by
  rw [tokens, if_neg (by simp [solid])]
  split
  · rename_i missing
    rw [read] at missing
    cases missing
  · rename_i t' rest' read'
    rw [read] at read'
    cases read'
    rfl

/-! ## Strings -/

/-- The character stands for itself in a string. -/
def IsPlain (c : Char) : Prop := c ≠ '"' ∧ c ≠ '\\' ∧ 0x20 ≤ c.toNat

instance : DecidablePred IsPlain := fun c =>
  inferInstanceAs (Decidable (c ≠ '"' ∧ c ≠ '\\' ∧ 0x20 ≤ c.toNat))

theorem stringBody_append (plain : ∀ c ∈ cs, IsPlain c) (rest : List Char) :
    stringBody (cs ++ '"' :: rest) = some (cs.map Piece.char, rest) := by
  induction cs with
  | nil => rfl
  | cons c cs ih =>
    rw [List.forall_mem_cons] at plain
    obtain ⟨⟨quote, escape, printable⟩, plain⟩ := plain
    rw [List.cons_append, stringBody, if_neg (Nat.not_lt.2 printable), ih plain]
    · rfl
    · exact quote
    · exact fun _ _ _ _ _ eq => absurd eq escape
    · exact fun _ _ eq => absurd eq escape

theorem join_map_char (cs : List Char) : join (cs.map Piece.char) = some cs := by
  induction cs with
  | nil => rfl
  | cons c cs ih =>
    rw [List.map_cons, join, ih]
    rfl

theorem tokens_string (plain : ∀ c ∈ cs, IsPlain c) (rest : List Char) :
    tokens ('"' :: (cs ++ '"' :: rest)) =
      (tokens rest).map (.string (some (String.ofList cs)) :: ·) := by
  refine tokens_of_token? rfl ?_
  rw [token?, stringBody_append plain]
  simp only [Option.map_some, join_map_char]

/-! ## Numbers -/

/-- A number ends before a comma and at the end of a line. -/
theorem unsigned_toDigits (n : Nat) (ends : c = ',' ∨ c = '\n') (rest : List Char) :
    unsigned (Nat.toDigits 10 n ++ c :: rest) = some (.natural n, c :: rest) := by
  have other : c.isDigit = false := by rcases ends with rfl | rfl <;> rfl
  have whole : (dropFraction (c :: rest) >>= dropExponent) = some (c :: rest) := by
    rcases ends with rfl | rfl <;> rfl
  have leads : ((Nat.toDigits 10 n).isEmpty ||
      ((Nat.toDigits 10 n).length != 1 && (Nat.toDigits 10 n).head? == some '0')) = false := by
    obtain ⟨d, ds, written, -⟩ := exists_toDigits_eq n
    by_cases zero : d = '0'
    · subst zero
      rw [eq_zero_of_toDigits written]
      rfl
    · simp [written, zero]
  have value : decimal (Nat.toDigits 10 n) = n := Nat.ofDigitChars_ten_toDigits
  rw [unsigned, takeWhile_toDigits n other, dropWhile_toDigits n other, leads]
  simp [whole, value]

theorem token?_of_isDigit (digit : d.isDigit = true) (rest : List Char) :
    token? (d :: rest) = unsigned (d :: rest) := by
  rw [token?]
  -- each other arm of the match wants a first character that is no digit
  all_goals exact fun _ => cons_ne_of_isDigit digit rfl

theorem isBlank_of_isDigit (digit : d.isDigit = true) : isBlank d = false := by
  have ne : ∀ {c : Char}, c.isDigit = false → (d == c) = false := fun other =>
    beq_eq_false_iff_ne.2 (ne_of_isDigit digit other)
  rw [isBlank, ne rfl, ne rfl, ne rfl, ne rfl]
  rfl

theorem tokens_toDigits (n : Nat) (ends : c = ',' ∨ c = '\n') (rest : List Char) :
    tokens (Nat.toDigits 10 n ++ c :: rest) = (tokens (c :: rest)).map (.natural n :: ·) := by
  obtain ⟨d, ds, written, digit⟩ := exists_toDigits_eq n
  have read := unsigned_toDigits n ends rest
  rw [written, List.cons_append] at read ⊢
  exact tokens_of_token? (isBlank_of_isDigit digit) ((token?_of_isDigit digit _).trans read)

/-! ## Settings and names -/

end Json

open Json

namespace Setting

/-- The token that the setting is written as. -/
def token : Setting → Token
  | .integer n => .natural n.toNat
  | .flag b => .flag b
  | .null | .other => .null

variable {s : Setting} {c : Char}

theorem IsPlain.tokens_jsonText (plain : s.IsPlain) (ends : c = ',' ∨ c = '\n') (rest : List Char) :
    tokens (s.jsonText.toList ++ c :: rest) = (tokens (c :: rest)).map (s.token :: ·) := by
  cases plain with
  | null => exact tokens_of_token? rfl rfl
  | word n =>
    rw [jsonText, toList_toString_natCast]
    exact tokens_toDigits n.toNat ends rest
  | flag b => cases b <;> exact tokens_of_token? rfl rfl

theorem IsPlain.value_token (plain : s.IsPlain) (fuel : Nat) (rest : List Token) :
    value (fuel + 1) (s.token :: rest) = some (s, rest) := by
  cases plain <;> rfl

end Setting

theorem IsName.isPlain {name : String} (named : IsName name) :
    ∀ c ∈ name.toList, Json.IsPlain c := by
  intro c mem
  rcases named.2 c mem with letter | rfl
  · have ne : ∀ {d : Char}, d.isAlphanum = false → c ≠ d := by
      rintro d other rfl
      rw [letter] at other
      cases other
    have control : ∀ n < 0x20, (Char.ofNat n).isAlphanum = false := by decide
    refine ⟨ne rfl, ne rfl, Nat.le_of_not_lt fun small => ?_⟩
    exact ne (control _ small) (Char.ofNat_toNat c).symm
  · decide

/-! ## Objects -/

namespace Json

variable {r : Record} {fuel : Nat} {d : Char} {entry : String × Setting}

/-- The tokens of the members for these entries, up to the end of the object. -/
def memberTokens : Record → List Token
  | [] => [.closeObject]
  | [(name, s)] => [.string (some name), .colon, s.token, .closeObject]
  | (name, s) :: next :: rest =>
    .string (some name) :: .colon :: s.token :: .comma :: memberTokens (next :: rest)

theorem tokens_line (named : IsName entry.1) (plain : entry.2.IsPlain) (ends : d = ',' ∨ d = '\n')
    (rest : List Char) :
    tokens ((line entry).toList ++ d :: rest) =
      (tokens (d :: rest)).map ([.string (some entry.1), .colon, entry.2.token] ++ ·) := by
  have text : (line entry).toList ++ d :: rest = ' ' :: ' ' :: '"' ::
      (entry.1.toList ++ '"' :: ':' :: ' ' :: (entry.2.jsonText.toList ++ d :: rest)) := by
    simp [line]
  have setting := plain.tokens_jsonText ends rest
  rw [text, tokens_blank rfl, tokens_blank rfl, tokens_string named.isPlain,
    tokens_of_token? (c := ':') rfl rfl, tokens_blank rfl, setting]
  simp [Option.map_map, Function.comp_def]

theorem tokens_lines (plain : r.IsPlain) (some : r ≠ []) :
    tokens ((",\n".intercalate (r.map line)).toList ++ ['\n', '}']) = .some (memberTokens r) := by
  induction r with
  | nil => exact absurd rfl some
  | cons entry rest ih =>
    have named := plain.names entry List.mem_cons_self
    have setting := plain.settings entry List.mem_cons_self
    cases rest with
    | nil =>
      have ended : tokens ['\n', '}'] = .some [.closeObject] := by
        rw [tokens_blank rfl, tokens_of_token? (c := '}') rfl rfl, tokens]
        rfl
      rw [List.map_cons, List.map_nil, String.intercalate_singleton,
        tokens_line named setting (.inr rfl), ended]
      rfl
    | cons next rest =>
      have more : tokens (',' :: '\n' :: ((",\n".intercalate ((next :: rest).map line)).toList ++
          ['\n', '}'])) = .some (.comma :: memberTokens (next :: rest)) := by
        rw [tokens_of_token? (c := ',') rfl rfl, tokens_blank rfl,
          ih plain.tail (List.cons_ne_nil _ _)]
        rfl
      rw [List.map_cons, List.map_cons, String.intercalate_cons_cons, String.toList_append,
        String.toList_append, List.append_assoc, List.append_assoc]
      exact (tokens_line named setting (.inl rfl) _).trans (congrArg _ more)

theorem tokens_text (plain : r.IsPlain) :
    tokens (text r).toList = some (.openObject :: memberTokens r) := by
  cases r with
  | nil =>
    show tokens ['{', '}'] = _
    rw [tokens_of_token? (c := '{') rfl rfl, tokens_of_token? (c := '}') rfl rfl, tokens]
    rfl
  | cons entry rest =>
    have object : (text (entry :: rest)).toList = '{' :: '\n' ::
        ((",\n".intercalate ((entry :: rest).map line)).toList ++ ['\n', '}']) := by
      rw [text, String.toList_append, String.toList_append]
      · rfl
      · exact List.cons_ne_nil _ _
    rw [object, tokens_of_token? (c := '{') rfl rfl, tokens_blank rfl,
      tokens_lines plain (List.cons_ne_nil _ _)]
    rfl

theorem moreMembers_memberTokens (plain : r.IsPlain) (some : r ≠ []) (enough : r.length < fuel) :
    moreMembers fuel (memberTokens r) = .some (r.map fun (name, s) => (.some name, s), []) := by
  induction r generalizing fuel with
  | nil => exact absurd rfl some
  | cons entry rest ih =>
    obtain ⟨fuel, rfl⟩ : ∃ k, fuel = k + 2 := ⟨fuel - 2, by rw [List.length_cons] at enough; omega⟩
    have setting := plain.settings entry List.mem_cons_self
    cases rest with
    | nil =>
      rw [memberTokens, moreMembers, setting.value_token]
      rfl
    | cons next rest =>
      rw [List.length_cons] at enough
      rw [memberTokens, moreMembers, setting.value_token]
      dsimp only
      rw [ih plain.tail (List.cons_ne_nil _ _) (by omega)]
      rfl

theorem members_memberTokens (plain : r.IsPlain) (enough : r.length + 1 < fuel) :
    members fuel (memberTokens r) = some (r.map fun (name, s) => (some name, s), []) := by
  obtain ⟨fuel, rfl⟩ : ∃ k, fuel = k + 1 := ⟨fuel - 1, by omega⟩
  cases r with
  | nil => rfl
  | cons entry rest =>
    rw [members]
    · exact moreMembers_memberTokens plain (List.cons_ne_nil _ _) (by omega)
    · cases rest <;> exact fun _ eq => Token.noConfusion (List.cons.inj eq).1

theorem length_lt_memberTokens (r : Record) : r.length < (memberTokens r).length := by
  induction r with
  | nil => exact Nat.one_pos
  | cons entry rest ih =>
    cases rest with
    | nil => exact Nat.one_lt_succ_succ 2
    | cons next rest =>
      rw [memberTokens, List.length_cons]
      simp only [List.length_cons] at ih ⊢
      omega

theorem mapM_named? (r : Record) :
    (r.map fun (name, s) => (some name, s)).mapM named? = some r := by
  induction r with
  | nil => rfl
  | cons entry rest ih =>
    rw [List.map_cons, List.mapM_cons, ih]
    rfl

theorem read?_text (plain : r.IsPlain) : read? (text r) = some (.record r) := by
  have enough : r.length + 1 <
      callsPerToken * ((Token.openObject :: memberTokens r).length + 1) := by
    have longer := length_lt_memberTokens r
    rw [callsPerToken, List.length_cons]
    omega
  rw [read?, tokens_text plain, Option.bind_eq_bind, Option.bind_some, document?,
    members_memberTokens plain enough]
  dsimp only
  rw [mapM_named?]
  rfl

theorem keepsJson_library : library.KeepsJson where
  writes _ := ⟨_, rfl⟩
  reads plain written := by
    cases written
    refine ⟨_, ?_, .refl _⟩
    simp only [library, read?_text plain]

end Json

end GuestExec
