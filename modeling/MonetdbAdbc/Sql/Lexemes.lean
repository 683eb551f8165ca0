import MonetdbAdbc.Sql.Scan
import MonetdbAdbc.Library.Lexing

namespace MonetdbAdbc.Sql
open LittleEndian Text Lexing

def Token.isSlot : Token → Bool
  | .slot _ => true
  | _ => false

theorem charLength_pos (b : UInt8) : 0 < charLength b := by
  unfold charLength
  split_ifs <;> decide

theorem quoted_length_pos (state : LexState) (quote current : UInt8) (next : Option UInt8) :
    0 < (quoted state quote current next).length := by
  unfold quoted
  split_ifs
  · exact Nat.two_pos
  · exact Nat.one_pos
  · exact charLength_pos current

section Lexer
variable (isAlphanumeric : Bytes → Bool)

def Advances (read : Except AdbcError Lexeme) : Prop := ∀ lexeme, read = .ok lexeme → 0 < lexeme.length

theorem advances_ok {lexeme : Lexeme} (h : 0 < lexeme.length) : Advances (.ok lexeme) := by
  rintro _ ⟨⟩
  exact h

theorem Advances.ite {c : Prop} [Decidable c] {x y : Except AdbcError Lexeme} (hx : Advances x)
    (hy : Advances y) : Advances (if c then x else y) := by
  by_cases hc : c
  · rwa [if_pos hc]
  · rwa [if_neg hc]

theorem lexNormal_advances (previous : Option UInt8) (b : UInt8) (rest : Bytes) :
    Advances (lexNormal isAlphanumeric previous b rest) := by
  have hnamed : Advances (lexNamed isAlphanumeric rest) :=
    .ite (fun _ h => nomatch h) (advances_ok (Nat.add_pos_left Nat.one_pos _))
  refine .ite (advances_ok Nat.one_pos) (.ite (advances_ok (charLength_pos b)) ?_)
  refine .ite (advances_ok Nat.two_pos) (.ite (advances_ok Nat.one_pos) ?_)
  refine .ite (advances_ok Nat.two_pos) (.ite (advances_ok Nat.one_pos) ?_)
  refine .ite hnamed (.ite (advances_ok Nat.two_pos) ?_)
  refine .ite (advances_ok Nat.two_pos) (.ite (advances_ok (Nat.succ_pos 2)) ?_)
  refine .ite (advances_ok (Nat.succ_pos 2)) (.ite (advances_ok Nat.one_pos) ?_)
  refine .ite (advances_ok Nat.one_pos) (.ite (advances_ok (Nat.add_pos_left Nat.one_pos _)) ?_)
  exact advances_ok (charLength_pos b)

theorem lex_length_pos {state : LexState} {previous : Option UInt8} {b : UInt8} {rest : Bytes}
    {lexeme : Lexeme} (h : lex isAlphanumeric state previous b rest = .ok lexeme) :
    0 < lexeme.length := by
  cases state with
  | normal => exact lexNormal_advances isAlphanumeric previous b rest lexeme h
  | singleQuote =>
    simp only [lex] at h
    split_ifs at h
    cases h
    exact quoted_length_pos _ _ _ _
  | escapedSingleQuote =>
    simp only [lex] at h
    split at h
    · cases h
      simp only
      omega
    · cases h
      exact quoted_length_pos _ _ _ _
  | rawSingleQuote | doubleQuote =>
    cases h
    exact quoted_length_pos _ _ _ _
  | lineComment =>
    cases h
    exact charLength_pos b
  | blockComment =>
    simp only [lex] at h
    split_ifs at h <;> cases h
    · exact Nat.two_pos
    · exact charLength_pos b

def sqlLexer : Lexer UInt8 AdbcError LexState Lexeme where
  lex := lex isAlphanumeric
  length := Lexeme.length
  state := Lexeme.state
  length_pos := lex_length_pos isAlphanumeric

def readText (text : Bytes) : Except AdbcError (List Lexeme) :=
  lexemes (sqlLexer isAlphanumeric) .normal none 0 text

@[simp] theorem sqlLexer_lex : (sqlLexer isAlphanumeric).lex = lex isAlphanumeric := rfl

@[simp] theorem sqlLexer_length : (sqlLexer isAlphanumeric).length = Lexeme.length := rfl

@[simp] theorem sqlLexer_state : (sqlLexer isAlphanumeric).state = Lexeme.state := rfl

theorem scanFrom_eq_fold (scan : Scan) (previous : Option UInt8) (skip : Nat) (text : Bytes) :
    scanFrom isAlphanumeric scan previous skip text =
      (lexemes (sqlLexer isAlphanumeric) scan.state previous skip text).map
        fun read => read.foldl Scan.advance scan := by
  induction text generalizing scan previous skip with
  | nil => cases skip <;> rfl
  | cons b rest ih =>
    cases skip with
    | succ skip => exact ih scan (some b) skip
    | zero =>
      simp only [scanFrom, lexemes, sqlLexer_lex, sqlLexer_length, sqlLexer_state]
      cases lex isAlphanumeric scan.state previous b rest with
      | error error => rfl
      | ok lexeme =>
        have hstate : (scan.advance lexeme).state = lexeme.state := rfl
        simp only [ih, hstate]
        cases lexemes (sqlLexer isAlphanumeric) lexeme.state (some b) (lexeme.length - 1) rest <;> rfl

end Lexer

variable {b : UInt8} {rest : Bytes} {lexeme : Lexeme} {previous : Option UInt8}

-- Everything a lexeme other than a named slot depends on beyond its own state and byte.
def look (state : LexState) (previous : Option UInt8) (b : UInt8) (rest : Bytes) :
    List Bool × Bytes × Option UInt8 :=
  match state with
  | .normal =>
    ([b = 45 ∧ rest.head? = some 45, b = 47 ∧ rest.head? = some 42,
      b = 58 ∧ rest.head?.any isIdentifierStart ∧ previous ≠ some 58,
      b ∈ [114, 82, 120, 88] ∧ rest.head? = some 39, b ∈ [101, 69] ∧ rest.head? = some 39,
      b ∈ [117, 85] ∧ rest.head? = some 38 ∧ rest[1]? = some 39,
      b ∈ [117, 85] ∧ rest.head? = some 38 ∧ rest[1]? = some 34],
      if isIdentifierStart b then rest.takeWhile isIdentifierContinue else [], none)
  | .singleQuote =>
    ([b = 92 ∧ rest.head? = some 39, b = 39 ∧ rest.head? = some 39], [], none)
  | .escapedSingleQuote =>
    ([b = 39 ∧ rest.head? = some 39], [], if b = 92 then rest.head? else none)
  | .rawSingleQuote => ([b = 39 ∧ rest.head? = some 39], [], none)
  | .doubleQuote => ([b = 34 ∧ rest.head? = some 34], [], none)
  | .lineComment => ([], [], none)
  | .blockComment => ([b = 42 ∧ rest.head? = some 47], [], none)

theorem quoted_congr {state : LexState} {quote : UInt8} {next next' : Option UInt8}
    (h : (b = quote ∧ next = some quote) ↔ (b = quote ∧ next' = some quote)) :
    quoted state quote b next = quoted state quote b next' := by
  unfold quoted
  by_cases hb : b = quote
  · simp only [hb, true_and] at h
    simp only [hb, h]
  · simp only [if_neg hb]

theorem lexNamed_isSlot (isAlphanumeric : Bytes → Bool)
    (h : lexNamed isAlphanumeric rest = .ok lexeme) : lexeme.token.isSlot = true := by
  unfold lexNamed at h
  dsimp only at h
  split_ifs at h
  cases h
  rfl

theorem lexNormal_colon (isAlphanumeric : Bytes → Bool)
    (hnext : rest.head?.any isIdentifierStart = true) (hprevious : previous ≠ some 58) :
    lexNormal isAlphanumeric previous 58 rest = lexNamed isAlphanumeric rest := by
  have hspace : AsciiNumber.isWhitespace 58 = false := by decide
  simp [lexNormal, hspace, hnext, hprevious]

theorem lexNormal_congr (isAlphanumeric : Bytes → Bool) {rest' : Bytes}
    (h : lexNormal isAlphanumeric previous b rest = .ok lexeme)
    (hslot : lexeme.token.isSlot = false)
    (hlook : look .normal previous b rest = look .normal previous b rest') :
    lexNormal isAlphanumeric previous b rest' = .ok lexeme := by
  simp only [look, Prod.mk.injEq, List.cons.injEq, decide_eq_decide, and_true] at hlook
  obtain ⟨⟨hminus, hslash, hcolon, hraw, hescape, hunicode, hident⟩, hword⟩ := hlook
  have hnamed : ¬(b = 58 ∧ rest.head?.any isIdentifierStart = true ∧ previous ≠ some 58) := by
    rintro ⟨rfl, hnext, hprevious⟩
    rw [lexNormal_colon isAlphanumeric hnext hprevious] at h
    rw [lexNamed_isSlot isAlphanumeric h] at hslot
    cases hslot
  have htail : (if isIdentifierStart b = true then
        (.ok ⟨.word (b :: rest.takeWhile isIdentifierContinue), 1 + continueLength rest, .normal⟩ :
          Except AdbcError Lexeme)
      else .ok ⟨.code, charLength b, .normal⟩) =
      if isIdentifierStart b = true then
        .ok ⟨.word (b :: rest'.takeWhile isIdentifierContinue), 1 + continueLength rest', .normal⟩
      else .ok ⟨.code, charLength b, .normal⟩ := by
    by_cases hstart : isIdentifierStart b = true
    · simp only [if_pos hstart] at hword
      simp only [continueLength, hword]
    · simp only [if_neg hstart]
  refine Eq.trans ?_ h
  refine if_congr Iff.rfl rfl (if_congr Iff.rfl rfl (if_congr hminus.symm rfl ?_))
  refine if_congr Iff.rfl rfl (if_congr hslash.symm rfl (if_congr Iff.rfl rfl ?_))
  refine ((if_neg fun hn => hnamed (hcolon.mpr hn)).trans ?_).trans (if_neg hnamed).symm
  refine if_congr hraw.symm rfl (if_congr hescape.symm rfl (if_congr hunicode.symm rfl ?_))
  exact if_congr hident.symm rfl (if_congr Iff.rfl rfl (if_congr Iff.rfl rfl htail.symm))

theorem lex_congr (isAlphanumeric : Bytes → Bool) {state : LexState} {rest' : Bytes}
    (h : lex isAlphanumeric state previous b rest = .ok lexeme)
    (hslot : lexeme.token.isSlot = false)
    (hlook : look state previous b rest = look state previous b rest') :
    lex isAlphanumeric state previous b rest' = .ok lexeme := by
  cases state with
  | normal => exact lexNormal_congr isAlphanumeric h hslot hlook
  | singleQuote =>
    simp only [look, Prod.mk.injEq, List.cons.injEq, decide_eq_decide, and_true] at hlook
    simp only [lex, hlook.1, quoted_congr hlook.2] at h ⊢
    exact h
  | escapedSingleQuote =>
    simp only [look, Prod.mk.injEq, List.cons.injEq, decide_eq_decide, and_true, true_and] at hlook
    by_cases hb : b = 92
    · simp only [hb, if_true] at hlook
      simp only [lex, hlook.2] at h ⊢
      exact h
    · have hfalse : (b == 92) = false := by simpa using hb
      simp only [lex, hfalse, quoted_congr hlook.1] at h ⊢
      exact h
  | rawSingleQuote | doubleQuote =>
    simp only [look, Prod.mk.injEq, List.cons.injEq, decide_eq_decide, and_true] at hlook
    simp only [lex, quoted_congr hlook] at h ⊢
    exact h
  | lineComment => exact h
  | blockComment =>
    simp only [look, Prod.mk.injEq, List.cons.injEq, decide_eq_decide, and_true] at hlook
    simp only [lex, hlook] at h ⊢
    exact h

theorem isIdentifierStart_ne (h : isIdentifierStart b = true) (c : UInt8)
    (hc : isIdentifierStart c = false) : b ≠ c := by
  rintro rfl
  rw [h] at hc
  cases hc

theorem isIdentifierStart_space (h : isIdentifierStart b = true) :
    AsciiNumber.isWhitespace b = false := by
  have hne := isIdentifierStart_ne h
  simp [AsciiNumber.isWhitespace, hne 32 (by decide), hne 9 (by decide), hne 10 (by decide),
    hne 12 (by decide), hne 13 (by decide)]

theorem lexNormal_word (isAlphanumeric : Bytes → Bool) (previous : Option UInt8)
    (hstart : isIdentifierStart b = true) (hquote : rest.head? ≠ some 39)
    (hamp : rest.head? ≠ some 38) :
    lexNormal isAlphanumeric previous b rest =
      .ok ⟨.word (b :: rest.takeWhile isIdentifierContinue), 1 + continueLength rest, .normal⟩ := by
  have hne := isIdentifierStart_ne hstart
  simp only [lexNormal, isIdentifierStart_space hstart, hne 59 (by decide), hne 45 (by decide), hne 35 (by decide),
    hne 47 (by decide), hne 63 (by decide), hne 58 (by decide), hne 39 (by decide),
    hne 34 (by decide), hquote, hamp, hstart, false_and, and_false, if_false, if_true,
    Bool.false_eq_true]

theorem lexNormal_semicolon (isAlphanumeric : Bytes → Bool) (previous : Option UInt8)
    (rest : Bytes) :
    lexNormal isAlphanumeric previous 59 rest = .ok ⟨.semicolon, 1, .normal⟩ := by
  simp [lexNormal]

theorem lexNormal_space (isAlphanumeric : Bytes → Bool) (previous : Option UInt8) (rest : Bytes)
    (hb : AsciiNumber.isWhitespace b = true) :
    lexNormal isAlphanumeric previous b rest = .ok ⟨.silent, 1, .normal⟩ := by
  have hcases : b = 32 ∨ b = 9 ∨ b = 10 ∨ b = 12 ∨ b = 13 := by
    simpa [AsciiNumber.isWhitespace, or_assoc] using hb
  rcases hcases with rfl | rfl | rfl | rfl | rfl <;> rfl

structure IsSymbol (b : UInt8) : Prop where
  semicolon : b ≠ 59
  hash : b ≠ 35
  question : b ≠ 63
  quote : b ≠ 39
  doubleQuote : b ≠ 34
  space : AsciiNumber.isWhitespace b = false
  letter : isIdentifierStart b = false

theorem lexNormal_symbol (isAlphanumeric : Bytes → Bool) (hb : IsSymbol b)
    (hminus : ¬(b = 45 ∧ rest.head? = some 45)) (hslash : ¬(b = 47 ∧ rest.head? = some 42))
    (hcolon : ¬(b = 58 ∧ rest.head?.any isIdentifierStart = true ∧ previous ≠ some 58)) :
    lexNormal isAlphanumeric previous b rest = .ok ⟨.code, charLength b, .normal⟩ := by
  have hne : ∀ c : UInt8, isIdentifierStart c = true → b ≠ c := by
    rintro c hc rfl
    rw [hb.letter] at hc
    cases hc
  have hraw : b ∉ ([114, 82, 120, 88] : List UInt8) := by
    simp [hne 114 (by decide), hne 82 (by decide), hne 120 (by decide), hne 88 (by decide)]
  have hescape : b ∉ ([101, 69] : List UInt8) := by simp [hne 101 (by decide), hne 69 (by decide)]
  have hunicode : b ∉ ([117, 85] : List UInt8) := by simp [hne 117 (by decide), hne 85 (by decide)]
  simp only [lexNormal, hb.semicolon, hb.hash, hb.question, hb.quote, hb.doubleQuote, hb.space,
    hb.letter, hminus, hslash, hcolon, hraw, hescape, hunicode, false_and, if_false,
    Bool.false_eq_true]

theorem not_taken {c : Prop} [Decidable c] {branch x : Except AdbcError Lexeme}
    (h : (if c then branch else x) = .ok lexeme) (hbranch : branch ≠ .ok lexeme) :
    ¬c ∧ x = .ok lexeme := by
  by_cases hc : c
  · rw [if_pos hc] at h
    exact absurd h hbranch
  · rw [if_neg hc] at h
    exact ⟨hc, h⟩

theorem lexNormal_plain (isAlphanumeric : Bytes → Bool)
    (h : lexNormal isAlphanumeric previous b rest = .ok lexeme)
    (hslot : lexeme.token.isSlot = false) (hstate : lexeme.state = .normal) :
    (b = 59 ∧ lexeme = ⟨.semicolon, 1, .normal⟩) ∨
      (AsciiNumber.isWhitespace b = true ∧ lexeme = ⟨.silent, 1, .normal⟩) ∨
      (isIdentifierStart b = true ∧ lexeme =
        ⟨.word (b :: rest.takeWhile isIdentifierContinue), 1 + continueLength rest, .normal⟩) ∨
      (IsSymbol b ∧ lexeme = ⟨.code, charLength b, .normal⟩) := by
  by_cases hsemicolon : b = 59
  · rw [hsemicolon, lexNormal_semicolon] at h
    cases h
    exact .inl ⟨hsemicolon, rfl⟩
  by_cases hspace : AsciiNumber.isWhitespace b = true
  · rw [lexNormal_space isAlphanumeric previous rest hspace] at h
    cases h
    exact .inr (.inl ⟨hspace, rfl⟩)
  have hopens : ∀ {token : Token} {length : Nat} {state : LexState}, state ≠ .normal →
      (.ok ⟨token, length, state⟩ : Except AdbcError Lexeme) ≠ .ok lexeme := by
    rintro token length state hopen ⟨⟩
    exact hopen hstate
  have h : (if b = 59 then _ else if AsciiNumber.isWhitespace b = true then _ else _) = _ := h
  rw [if_neg hsemicolon, if_neg hspace] at h
  obtain ⟨-, h⟩ := not_taken h (hopens (by decide))
  obtain ⟨hhash, h⟩ := not_taken h (hopens (by decide))
  obtain ⟨-, h⟩ := not_taken h (hopens (by decide))
  obtain ⟨hquestion, h⟩ := not_taken h fun hread => by
    cases hread
    cases hslot
  obtain ⟨-, h⟩ := not_taken h fun hread => by
    rw [lexNamed_isSlot isAlphanumeric hread] at hslot
    cases hslot
  obtain ⟨-, h⟩ := not_taken h (hopens (by decide))
  obtain ⟨-, h⟩ := not_taken h (hopens (by decide))
  obtain ⟨-, h⟩ := not_taken h (hopens (by decide))
  obtain ⟨-, h⟩ := not_taken h (hopens (by decide))
  obtain ⟨hquote, h⟩ := not_taken h (hopens (by decide))
  obtain ⟨hdouble, h⟩ := not_taken h (hopens (by decide))
  by_cases hletter : isIdentifierStart b = true
  · rw [if_pos hletter] at h
    cases h
    exact .inr (.inr (.inl ⟨hletter, rfl⟩))
  · rw [if_neg hletter] at h
    cases h
    exact .inr (.inr (.inr ⟨⟨hsemicolon, hhash, hquestion, hquote, hdouble, by simpa using hspace,
      by simpa using hletter⟩, rfl⟩))

end MonetdbAdbc.Sql
