import MonetdbAdbc.Library.Standing
import MonetdbAdbc.Sql.NormalizeScan

namespace MonetdbAdbc.Sql
open LittleEndian Text Lexing

-- Two bytes that the lexer may read together when a text ends with one and the next text begins
-- with the other.
def joint (x y : UInt8) : Bool :=
  isIdentifierContinue x && isIdentifierContinue y || x == 45 && y == 45 || x == 47 && y == 42 ||
    x == 42 && y == 47 || x == 58 && isIdentifierStart y ||
    y == 39 && (x == 39 || x == 38 || x == 92 || isIdentifierStart x) ||
    y == 34 && (x == 34 || x == 38) || y == 38 && (x == 117 || x == 85)

def seam (text after : Bytes) : Bool := text.getLast?.any fun x => startsWith (joint x) after

theorem continue_of_start {b : UInt8} (h : isIdentifierStart b = true) :
    isIdentifierContinue b = true := by
  rw [isIdentifierContinue, h, Bool.true_or]

section Joint
variable {x y : UInt8}

structure Apart (x y : UInt8) : Prop where
  word : isIdentifierContinue x = true → isIdentifierContinue y = false
  minus : x = 45 → y ≠ 45
  opening : x = 47 → y ≠ 42
  closing : x = 42 → y ≠ 47
  colon : x = 58 → isIdentifierStart y = false
  quote : x = 39 ∨ x = 38 ∨ x = 92 ∨ isIdentifierStart x = true → y ≠ 39
  doubleQuote : x = 34 ∨ x = 38 → y ≠ 34
  unicode : x = 117 ∨ x = 85 → y ≠ 38

theorem apart_of_joint (h : joint x y = false) : Apart x y := by
  simp only [joint, Bool.or_eq_false_iff, Bool.and_eq_false_iff, beq_eq_false_iff_ne, ne_eq] at h
  obtain ⟨⟨⟨⟨⟨⟨⟨hword, hminus⟩, hopening⟩, hclosing⟩, hcolon⟩, hquote⟩, hdouble⟩, hunicode⟩ := h
  refine ⟨fun hx => ?_, fun hx => ?_, fun hx => ?_, fun hx => ?_, fun hx => ?_, fun hx hy => ?_,
    fun hx hy => ?_, fun hx hy => ?_⟩
  · simpa [hx] using hword
  · simpa [hx] using hminus
  · simpa [hx] using hopening
  · simpa [hx] using hclosing
  · simpa [hx] using hcolon
  · rcases hquote with hquote | hquote
    · exact hquote hy
    · rcases hx with hx | hx | hx | hx <;> simp [hx] at hquote
  · rcases hdouble with hdouble | hdouble
    · exact hdouble hy
    · rcases hx with hx | hx <;> simp [hx] at hdouble
  · rcases hunicode with hunicode | hunicode
    · exact hunicode hy
    · rcases hx with hx | hx <;> simp [hx] at hunicode

end Joint

def isLoose (y : UInt8) : Bool :=
  !isIdentifierContinue y && y ∉ ([45, 42, 47, 39, 34, 38] : List UInt8)

theorem apart_loose (x : UInt8) {y : UInt8} (h : isLoose y = true) : Apart x y := by
  simp only [isLoose, Bool.and_eq_true, Bool.not_eq_true', decide_eq_true_eq, List.mem_cons, not_or,
    List.not_mem_nil, not_false_eq_true, and_true] at h
  obtain ⟨hword, hminus, hstar, hslash, hquote, hdouble, hunicode⟩ := h
  have hstart : isIdentifierStart y = false := by
    rw [isIdentifierContinue, Bool.or_eq_false_iff] at hword
    exact hword.1
  refine apart_of_joint ?_
  simp [joint, hword, hstart, hminus, hstar, hslash, hquote, hdouble, hunicode]

def Sealed (text after : Bytes) : Prop :=
  ∀ x y, text.getLast? = some x → after.head? = some y → Apart x y

theorem sealed_of_seam {text after : Bytes} (h : seam text after = false) : Sealed text after := by
  intro x y hx hy
  rw [seam, hx, Option.any_some, startsWith, hy, Option.any_some] at h
  exact apart_of_joint h

theorem sealed_nil (text : Bytes) : Sealed text [] := by
  rintro x y - ⟨⟩

theorem Sealed.suffix {text part after : Bytes} (h : Sealed text after) (hpart : part <:+ text)
    (hne : part ≠ []) : Sealed part after := by
  intro x y hx
  obtain ⟨lead, rfl⟩ := hpart
  exact h x y (by rwa [List.getLast?_append_of_ne_nil lead hne])

section Look
variable {isAlphanumeric : Bytes → Bool} {state : LexState} {previous : Option UInt8} {b : UInt8}
  {rest after later : Bytes} {lexeme : Lexeme}

theorem takeWhile_before {p : UInt8 → Bool} (h : rest.all p = true → startsWith p after = false) :
    (rest ++ after).takeWhile p = rest.takeWhile p := by
  induction rest with
  | nil =>
    cases after with
    | nil => rfl
    | cons y after => exact List.takeWhile_cons_of_neg (by simpa using h rfl)
  | cons c rest ih =>
    cases hc : p c with
    | false => simp [hc]
    | true =>
      simp only [List.cons_append, List.takeWhile_cons, hc, if_true]
      rw [ih fun hall => h (by simp [hc, hall])]

theorem Sealed.word (h : Sealed (b :: rest) after) (hstart : isIdentifierStart b = true)
    (hall : rest.all isIdentifierContinue = true) :
    startsWith isIdentifierContinue after = false := by
  cases after with
  | nil => rfl
  | cons y after =>
    obtain ⟨x, hx⟩ : ∃ x, (b :: rest).getLast? = some x :=
      ⟨_, List.getLast?_eq_some_getLast (List.cons_ne_nil b rest)⟩
    have hmem := List.mem_of_getLast? hx
    refine (h x y hx rfl).word ?_
    rcases List.mem_cons.mp hmem with rfl | hmem
    · exact continue_of_start hstart
    · exact List.all_eq_true.mp hall x hmem

theorem start_of_mem {letters : List UInt8} (hletters : letters.all isIdentifierStart = true)
    (h : b ∈ letters) : isIdentifierStart b = true :=
  List.all_eq_true.mp hletters b h

theorem Apart.unprefixed {y : UInt8} (h : Apart b y) (letters : List UInt8)
    (hletters : letters.all isIdentifierStart = true) : ¬(b ∈ letters ∧ y = 39) :=
  fun hboth => h.quote (.inr (.inr (.inr (start_of_mem hletters hboth.1)))) hboth.2

-- A byte that is sealed against what follows is read as at the end of the text; a backslash in an
-- escaped string is the one byte that always takes the next character with it.
theorem look_last {y : UInt8} (h : Apart b y) (hescape : state = .escapedSingleQuote → b ≠ 92) :
    look state previous b (y :: after) = look state previous b [] := by
  cases state with
  | normal =>
    have hminus : ¬(b = 45 ∧ y = 45) := fun hboth => h.minus hboth.1 hboth.2
    have hopening : ¬(b = 47 ∧ y = 42) := fun hboth => h.opening hboth.1 hboth.2
    have hcolon : ¬(b = 58 ∧ isIdentifierStart y = true ∧ previous ≠ some 58) := by
      rintro ⟨hb, hy, -⟩
      rw [h.colon hb] at hy
      cases hy
    have hunicode {quote : Prop} : ¬(b ∈ ([117, 85] : List UInt8) ∧ y = 38 ∧ quote) := by
      rintro ⟨hb, hy, -⟩
      exact h.unicode (by simpa using hb) hy
    have hwords : (if isIdentifierStart b = true then
        (y :: after).takeWhile isIdentifierContinue else []) = [] := by
      split_ifs with hstart
      · exact List.takeWhile_cons_of_neg (by simpa using h.word (continue_of_start hstart))
      · rfl
    simp only [look, List.head?_cons, Option.some.injEq, Option.any_some, hminus, hopening, hcolon,
      h.unprefixed [114, 82, 120, 88] (by decide), h.unprefixed [101, 69] (by decide), hunicode,
      hwords]
    simp
  | singleQuote =>
    have hback : ¬(b = 92 ∧ y = 39) := fun hboth => h.quote (.inr (.inr (.inl hboth.1))) hboth.2
    have hquote : ¬(b = 39 ∧ y = 39) := fun hboth => h.quote (.inl hboth.1) hboth.2
    simp [look, hback, hquote]
  | escapedSingleQuote =>
    have hquote : ¬(b = 39 ∧ y = 39) := fun hboth => h.quote (.inl hboth.1) hboth.2
    simp [look, hquote, hescape rfl]
  | rawSingleQuote =>
    have hquote : ¬(b = 39 ∧ y = 39) := fun hboth => h.quote (.inl hboth.1) hboth.2
    simp [look, hquote]
  | doubleQuote =>
    have hquote : ¬(b = 34 ∧ y = 34) := fun hboth => h.doubleQuote (.inl hboth.1) hboth.2
    simp [look, hquote]
  | lineComment => rfl
  | blockComment =>
    have hclosing : ¬(b = 42 ∧ y = 47) := fun hboth => h.closing hboth.1 hboth.2
    simp [look, hclosing]

theorem third_before {c quote : UInt8} (h : Sealed (b :: c :: rest) after)
    (hquote : quote = 39 ∨ quote = 34) :
    (c :: rest).head? = some 38 ∧ (c :: rest ++ after)[1]? = some quote ↔
      (c :: rest).head? = some 38 ∧ (c :: rest)[1]? = some quote := by
  refine and_congr_right fun hhead => ?_
  have hc : c = 38 := by simpa using hhead
  cases rest with
  | cons d rest => rfl
  | nil =>
    cases after with
    | nil => rfl
    | cons y after =>
      have hapart := h c y rfl rfl
      have hne : y ≠ quote := by
        rcases hquote with rfl | rfl
        · exact hapart.quote (.inr (.inl hc))
        · exact hapart.doubleQuote (.inr hc)
      simpa using hne

theorem look_before (h : Sealed (b :: rest) after)
    (hescape : state = .escapedSingleQuote → rest = [] → b ≠ 92) :
    look state previous b (rest ++ after) = look state previous b rest := by
  cases rest with
  | nil =>
    cases after with
    | nil => rfl
    | cons y after => exact look_last (h b y rfl rfl) fun hstate => hescape hstate rfl
  | cons c rest =>
    cases state with
    | normal =>
      have hwords : (if isIdentifierStart b = true then
          (c :: rest ++ after).takeWhile isIdentifierContinue else []) =
          if isIdentifierStart b = true then (c :: rest).takeWhile isIdentifierContinue else [] := by
        split_ifs with hstart
        · exact takeWhile_before (h.word hstart)
        · rfl
      have hhead : (c :: rest ++ after).head? = (c :: rest).head? := rfl
      simp only [look, hhead, hwords, third_before h (.inl rfl), third_before h (.inr rfl)]
    | _ => rfl

theorem lex_sealed (h : lex isAlphanumeric state previous b (rest ++ after) = .ok lexeme)
    (hslot : lexeme.token.isSlot = false) (hafter : Sealed (b :: rest) after)
    (hlater : Sealed (b :: rest) later)
    (hescape : state = .escapedSingleQuote → rest = [] → b ≠ 92) :
    lex isAlphanumeric state previous b (rest ++ later) = .ok lexeme := by
  refine lex_congr isAlphanumeric h hslot ?_
  rw [look_before hafter hescape, look_before hlater hescape]

-- A lexeme that ends inside the text does not notice a change of what follows across a seam.
theorem lex_seam (h : lex isAlphanumeric state previous b (rest ++ after) = .ok lexeme)
    (hslot : lexeme.token.isSlot = false) (hlength : lexeme.length ≤ rest.length + 1)
    (hafter : Sealed (b :: rest) after) (hlater : Sealed (b :: rest) later)
    (hend : after = [] → (b :: rest).getLast? ≠ some 92) :
    lex isAlphanumeric state previous b (rest ++ later) = .ok lexeme := by
  refine lex_sealed h hslot hafter hlater ?_
  rintro rfl rfl rfl
  cases after with
  | nil => exact hend rfl rfl
  | cons y after =>
    cases h
    have := charLength_pos y
    simp at hlength
    omega

theorem reads_seam {piece : Bytes} {read : List Lexeme}
    (h : Lexing.Reads (sqlLexer isAlphanumeric) after state previous piece read)
    (hslots : ∀ lexeme ∈ read, lexeme.token.isSlot = false) (hafter : Sealed piece after)
    (hlater : Sealed piece later) (hend : after = [] → piece.getLast? ≠ some 92) :
    Lexing.Reads (sqlLexer isAlphanumeric) later state previous piece read := by
  refine h.refollow fun s p a rest lexeme hsuffix hmem hread hlength => ?_
  have hne := List.cons_ne_nil a rest
  refine lex_seam hread (hslots lexeme hmem) hlength (hafter.suffix hsuffix hne)
    (hlater.suffix hsuffix hne) fun hnil => ?_
  obtain ⟨lead, rfl⟩ := hsuffix
  have hlast := hend hnil
  rwa [List.getLast?_append_of_ne_nil lead hne] at hlast

end Look

end MonetdbAdbc.Sql
