import MonetdbAdbc.Sql.Seams
import MonetdbAdbc.Library.TextFields

namespace MonetdbAdbc.Sql
open LittleEndian Text Lexing AsciiNumber TextFields

-- Tokens that neither end a statement, nor take a parameter, nor make the statement count as a
-- change of data or the start of a definition.
def Token.isInert : Token → Bool
  | .silent | .code => true
  | .word text => !isOneOf text ["INSERT", "UPDATE", "DELETE", "MERGE", "TRUNCATE", "CREATE"]
  | .semicolon | .slot _ => false

def Token.isSolid (token : Token) : Bool := token ≠ .silent

section Pieces
variable (isAlphanumeric : Bytes → Bool)

def Inert (joins : UInt8 → Bool) (s : LexState) (text : Bytes) (s' : LexState) : Prop :=
  ∃ read, Stands (sqlLexer isAlphanumeric) joins s text read s' ∧
    ∀ lexeme ∈ read, lexeme.token.isInert = true

def Solid (joins : UInt8 → Bool) (s : LexState) (text : Bytes) (s' : LexState) : Prop :=
  ∃ read, Stands (sqlLexer isAlphanumeric) joins s text read s' ∧
    (∀ lexeme ∈ read, lexeme.token.isInert = true) ∧ ∃ lexeme ∈ read, lexeme.token.isSolid = true

def never (_ : UInt8) : Bool := false

def endJoins (text : Bytes) (y : UInt8) : Bool := text.getLast?.any fun x => joint x y

variable {isAlphanumeric} {joins next : UInt8 → Bool} {s s' s'' : LexState} {text more : Bytes}

theorem startsWith_never (text : Bytes) : startsWith never text = false := by
  cases text <;> rfl

theorem Solid.inert (h : Solid isAlphanumeric joins s text s') :
    Inert isAlphanumeric joins s text s' := by
  obtain ⟨read, hstands, hinert, -⟩ := h
  exact ⟨read, hstands, hinert⟩

theorem Inert.append (h : Inert isAlphanumeric joins s text s')
    (hmore : Inert isAlphanumeric next s' more s'')
    (hjoin : ∀ after, startsWith next after = false → startsWith joins (more ++ after) = false) :
    Inert isAlphanumeric next s (text ++ more) s'' := by
  obtain ⟨read, hstands, hinert⟩ := h
  obtain ⟨later, hlater, hmore⟩ := hmore
  refine ⟨read ++ later, hstands.append hlater hjoin, ?_⟩
  rw [List.forall_mem_append]
  exact ⟨hinert, hmore⟩

theorem Solid.append (h : Solid isAlphanumeric joins s text s')
    (hmore : Inert isAlphanumeric next s' more s'')
    (hjoin : ∀ after, startsWith next after = false → startsWith joins (more ++ after) = false) :
    Solid isAlphanumeric next s (text ++ more) s'' := by
  obtain ⟨read, hstands, hinert, lexeme, hmem, hsolid⟩ := h
  obtain ⟨later, hlater, hmore⟩ := hmore
  refine ⟨read ++ later, hstands.append hlater hjoin, ?_, lexeme, by simp [hmem], hsolid⟩
  rw [List.forall_mem_append]
  exact ⟨hinert, hmore⟩

theorem Inert.then (h : Inert isAlphanumeric never s text s')
    (hmore : Inert isAlphanumeric next s' more s'') :
    Inert isAlphanumeric next s (text ++ more) s'' :=
  h.append hmore fun _ _ => startsWith_never _

theorem Solid.then (h : Solid isAlphanumeric never s text s')
    (hmore : Inert isAlphanumeric next s' more s'') :
    Solid isAlphanumeric next s (text ++ more) s'' :=
  h.append hmore fun _ _ => startsWith_never _

theorem Inert.weaken (h : Inert isAlphanumeric joins s text s')
    (hle : ∀ y, joins y = true → next y = true) : Inert isAlphanumeric next s text s' := by
  obtain ⟨read, hstands, hinert⟩ := h
  exact ⟨read, hstands.weaken hle, hinert⟩

theorem Solid.weaken (h : Solid isAlphanumeric joins s text s')
    (hle : ∀ y, joins y = true → next y = true) : Solid isAlphanumeric next s text s' := by
  obtain ⟨read, hstands, hinert⟩ := h
  exact ⟨read, hstands.weaken hle, hinert⟩

theorem lex_unprevious {previous previous' : Option UInt8} {b : UInt8} {rest : Bytes} (hb : b ≠ 58) :
    lex isAlphanumeric s previous b rest = lex isAlphanumeric s previous' b rest := by
  cases s with
  | normal => simp only [lex, lexNormal, hb, false_and]
  | _ => rfl

-- A text whose own lexemes are known stands for them in every context that leaves its seam apart.
theorem stands_text {read : List Lexeme}
    (hread : lexemes (sqlLexer isAlphanumeric) s none 0 text = .ok read)
    (hsize : size (sqlLexer isAlphanumeric) read = text.length)
    (hslots : ∀ lexeme ∈ read, lexeme.token.isSlot = false) (hhead : text.head? ≠ some 58)
    (hlast : text.getLast? ≠ some 92) :
    Stands (sqlLexer isAlphanumeric) (endJoins text) s text read
      (endState (sqlLexer isAlphanumeric) s read) := by
  refine ⟨fun p after hafter => ?_, rfl⟩
  have hlexemes : lexemes (sqlLexer isAlphanumeric) s none 0 (text ++ []) = .ok (read ++ []) := by
    simpa using hread
  obtain ⟨hreads, -⟩ := reads_of_lexemes hlexemes hsize
  have hsealed : Sealed text after := by
    refine sealed_of_seam ?_
    rw [seam]
    cases after with
    | nil => cases text.getLast? <;> rfl
    | cons y after => exact hafter
  have hlater := reads_seam hreads hslots (sealed_nil text) hsealed fun _ => hlast
  cases hlater with
  | nil => exact .nil s p
  | cons hlex hlength htail =>
    rw [sqlLexer_lex, lex_unprevious (by simpa using hhead)] at hlex
    exact .cons hlex hlength htail

theorem Token.isSlot_of_isInert {token : Token} (h : token.isInert = true) :
    token.isSlot = false := by
  cases token with
  | slot named => cases h
  | _ => rfl

variable (isAlphanumeric) in
def readsInert (s : LexState) (text : Bytes) (s' : LexState) : Bool :=
  match lexemes (sqlLexer isAlphanumeric) s none 0 text with
  | .error _ => false
  | .ok read =>
    read.all (fun lexeme => lexeme.token.isInert) && read.any (fun lexeme => lexeme.token.isSolid) &&
      size (sqlLexer isAlphanumeric) read == text.length &&
      endState (sqlLexer isAlphanumeric) s read == s' && text.head? != some 58 &&
      text.getLast? != some 92

theorem solid_text (h : readsInert isAlphanumeric s text s' = true) :
    Solid isAlphanumeric (endJoins text) s text s' := by
  rw [readsInert] at h
  cases hread : lexemes (sqlLexer isAlphanumeric) s none 0 text with
  | error error =>
    rw [hread] at h
    cases h
  | ok read =>
    simp only [hread, Bool.and_eq_true, List.all_eq_true, List.any_eq_true, beq_iff_eq, bne_iff_ne]
      at h
    obtain ⟨⟨⟨⟨⟨hinert, hsolid⟩, hsize⟩, rfl⟩, hhead⟩, hlast⟩ := h
    exact ⟨read, stands_text hread hsize (fun lexeme hmem => Token.isSlot_of_isInert
      (hinert lexeme hmem)) hhead hlast, hinert, hsolid⟩

theorem solid_one {b : UInt8} (body : Bytes) (lexeme : Lexeme)
    (hread : ∀ p after, startsWith joins after = false →
      lex isAlphanumeric s p b (body ++ after) = .ok lexeme)
    (hlength : lexeme.length = body.length + 1) (hinert : lexeme.token.isInert = true)
    (hsolid : lexeme.token.isSolid = true) :
    Solid isAlphanumeric joins s (b :: body) lexeme.state :=
  ⟨[lexeme], stands_one hread hlength, by simpa using hinert, lexeme, by simp, hsolid⟩

theorem inert_one {b : UInt8} (body : Bytes) (lexeme : Lexeme)
    (hread : ∀ p after, startsWith joins after = false →
      lex isAlphanumeric s p b (body ++ after) = .ok lexeme)
    (hlength : lexeme.length = body.length + 1) (hinert : lexeme.token.isInert = true) :
    Inert isAlphanumeric joins s (b :: body) lexeme.state :=
  ⟨[lexeme], stands_one hread hlength, by simpa using hinert⟩

theorem inert_nil (s : LexState) : Inert isAlphanumeric never s [] s :=
  ⟨[], stands_nil never s, by simp⟩

end Pieces

section Marks
variable {isAlphanumeric : Bytes → Bool} {text : Bytes}

def isMark (b : UInt8) : Bool :=
  b < 0x80 && b ∉ ([59, 35, 63, 39, 34, 45, 47, 58] : List UInt8) && !isWhitespace b &&
    !isIdentifierStart b

theorem mark_solid {b : UInt8} (h : isMark b = true) :
    Solid isAlphanumeric never .normal [b] .normal := by
  simp only [isMark, Bool.and_eq_true, decide_eq_true_eq, Bool.not_eq_true',
    List.mem_cons, not_or, List.not_mem_nil, not_false_eq_true, and_true] at h
  obtain ⟨⟨⟨hascii, hsemicolon, hhash, hquestion, hquote, hdouble, hminus, hslash, hcolon⟩, hspace⟩,
    hletter⟩ := h
  refine solid_one [] ⟨.code, 1, .normal⟩ (fun p after _ => ?_) rfl rfl rfl
  refine (lexNormal_symbol isAlphanumeric ⟨hsemicolon, hhash, hquestion, hquote, hdouble, hspace,
    hletter⟩ (fun h => hminus h.1) (fun h => hslash h.1) fun h => hcolon h.1).trans ?_
  rw [charLength, if_pos hascii]

theorem marks_inert (h : ∀ b ∈ text, isMark b = true) :
    Inert isAlphanumeric never .normal text .normal := by
  induction text with
  | nil => exact inert_nil .normal
  | cons b text ih =>
    rw [List.forall_mem_cons] at h
    exact (mark_solid h.1).inert.then (ih h.2)

theorem marks_solid (h : ∀ b ∈ text, isMark b = true) (hne : text ≠ []) :
    Solid isAlphanumeric never .normal text .normal := by
  cases text with
  | nil => exact absurd rfl hne
  | cons b text =>
    rw [List.forall_mem_cons] at h
    exact (mark_solid h.1).then (marks_inert h.2)

theorem isMark_of_isDigit {b : UInt8} (h : IsDigit b) : isMark b = true := by
  obtain ⟨hlow, hhigh⟩ := h
  simp only [isMark, isWhitespace, isIdentifierStart, isAlphabetic, isUppercase, isLowercase,
    Bool.and_eq_true, Bool.not_eq_true', Bool.or_eq_false_iff, Bool.and_eq_false_iff,
    List.mem_cons, not_or, List.not_mem_nil, not_false_eq_true, and_true,
    beq_eq_false_iff_ne, decide_eq_true_eq, decide_eq_false_iff_not, ne_eq]
  simp only [UInt8.le_iff_toNat_le, UInt8.lt_iff_toNat_lt, ← UInt8.toNat_inj, UInt8.reduceToNat]
    at hlow hhigh ⊢
  omega

end Marks

section Quotes
variable {isAlphanumeric : Bytes → Bool} {text : Bytes}

def isQuiet (b : UInt8) : Bool := b < 0x80 && b != 39 && b != 92

theorem quote_opens : Solid isAlphanumeric never .normal [39] .singleQuote :=
  solid_one [] ⟨.code, 1, .singleQuote⟩ (fun _ _ _ => rfl) rfl rfl rfl

theorem raw_opens : Solid isAlphanumeric never .normal [82, 39] .rawSingleQuote :=
  solid_one [39] ⟨.code, 2, .rawSingleQuote⟩ (fun _ _ _ => rfl) rfl rfl rfl

theorem quiet_inert (h : ∀ b ∈ text, isQuiet b = true) :
    Inert isAlphanumeric never .singleQuote text .singleQuote := by
  induction text with
  | nil => exact inert_nil .singleQuote
  | cons b text ih =>
    rw [List.forall_mem_cons] at h
    obtain ⟨hb, htext⟩ := h
    simp only [isQuiet, Bool.and_eq_true, decide_eq_true_eq, bne_iff_ne] at hb
    obtain ⟨⟨hascii, hquote⟩, hback⟩ := hb
    refine (inert_one [] ⟨.silent, 1, .singleQuote⟩ (fun p after _ => ?_) rfl
      rfl).then (ih htext)
    simp only [lex, quoted, hback, hquote, false_and, if_false, charLength, hascii, if_true]

variable {state : LexState} {quote : UInt8}

theorem doubled_char {b : UInt8} {rest : Bytes} (hb : b ≠ quote) (hquote : quote < 0x80)
    (hvalid : Utf8.valid (b :: rest) = true) :
    doubled quote (b :: rest) = b :: rest.take (charLength b - 1) ++
      doubled quote (rest.drop (charLength b - 1)) := by
  have hnot : quote ∉ b :: rest.take (charLength b - 1) := by
    rw [List.mem_cons, not_or]
    refine ⟨Ne.symm hb, fun hmem => ?_⟩
    exact absurd ((whole_char hvalid).2 quote hmem) (UInt8.not_le.mpr hquote)
  rw [← doubled_of_notMem hnot, ← doubled_append, List.cons_append, List.take_append_drop]

theorem quoted_inert
    (hlex : ∀ p b rest, lex isAlphanumeric state p b rest = .ok (quoted state quote b rest.head?))
    (hquote : quote < 0x80) (hvalid : Utf8.valid text = true) :
    Inert isAlphanumeric never state (doubled quote text) state := by
  induction hn : text.length using Nat.strong_induction_on generalizing text with
  | _ n ih =>
    cases text with
    | nil => exact inert_nil state
    | cons b rest =>
      rw [List.length_cons] at hn
      by_cases hb : b = quote
      · subst hb
        rw [doubled, List.flatMap_cons, if_pos rfl]
        refine (inert_one [b] ⟨.silent, 2, state⟩ (fun p after _ => ?_) rfl rfl).then
          (ih rest.length (by omega) (valid_tail hquote hvalid) rfl)
        rw [hlex, quoted, if_pos rfl, List.singleton_append, List.head?_cons, if_pos rfl]
      · obtain ⟨⟨hlength, hrest⟩, -⟩ := whole_char hvalid
        have hpos := charLength_pos b
        obtain ⟨k, hk⟩ : ∃ k, charLength b = k + 1 := ⟨charLength b - 1, by omega⟩
        rw [hk, List.drop_succ_cons] at hrest
        rw [hk, List.length_cons] at hlength
        rw [doubled_char hb hquote hvalid, hk, Nat.add_sub_cancel]
        refine (inert_one (rest.take k) ⟨.silent, charLength b, state⟩ (fun p after _ => ?_) ?_
          rfl).then (ih (rest.drop k).length ?_ hrest rfl)
        · rw [hlex, quoted, if_neg hb]
        · change charLength b = _
          rw [hk, List.length_take]
          omega
        · rw [List.length_drop]
          omega

theorem quoted_closes (hlex : ∀ p rest,
    lex isAlphanumeric state p quote rest = .ok (quoted state quote quote rest.head?)) :
    Inert isAlphanumeric (· == quote) state [quote] .normal := by
  refine inert_one [] ⟨.silent, 1, .normal⟩ (fun p after hafter => ?_) rfl rfl
  have hne : after.head? ≠ some quote := by
    rintro hhead
    rw [startsWith, hhead, Option.any_some, beq_self_eq_true] at hafter
    cases hafter
  rw [hlex, quoted, if_pos rfl, List.nil_append, if_neg hne]

theorem raw_string_solid (hvalid : Utf8.valid text = true) :
    Solid isAlphanumeric (· == 39) .normal (82 :: 39 :: (doubled 39 text ++ [39])) .normal := by
  have hlex : ∀ p b rest, lex isAlphanumeric .rawSingleQuote p b rest =
      .ok (quoted .rawSingleQuote 39 b rest.head?) := fun _ _ _ => rfl
  exact raw_opens.then ((quoted_inert hlex (by decide) hvalid).then
    (quoted_closes fun p rest => hlex p 39 rest))

-- An ordinary string follows a keyword and a blank; its text holds no quote and no backslash.
theorem quoted_value_inert {closing : Bytes} {joins : UInt8 → Bool}
    (h : ∀ b ∈ text, isQuiet b = true)
    (hclosing : Inert isAlphanumeric joins .singleQuote closing .normal) :
    Inert isAlphanumeric joins .normal (39 :: (text ++ closing)) .normal :=
  quote_opens.inert.then ((quiet_inert h).then hclosing)

theorem quote_closes : Inert isAlphanumeric (· == 39) .singleQuote [39] .normal :=
  quoted_closes fun _ _ => by rw [lex, if_neg fun h => absurd h.1 (by decide)]

end Quotes

end MonetdbAdbc.Sql
