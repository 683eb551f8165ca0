import MonetdbAdbc.Sql.Pieces
import MonetdbAdbc.Sql.TypedLiteral

namespace MonetdbAdbc.Sql
open LittleEndian Text Lexing AsciiNumber TextFields Calendar Ieee754 Machine

def literalJoins (y : UInt8) : Bool := isIdentifierContinue y || y == 39

def isLiteralStart (y : UInt8) : Bool := isIdentifierContinue y || y == 45 || y == 46

def isLiteralEnd (x : UInt8) : Bool :=
  isIdentifierContinue x && x != 117 && x != 85 || x == 39 || x == 41 || x == 46

-- A text that a template may hold in place of a slot: it is read apart from its surroundings, and
-- its outermost bytes say what the surroundings must not touch it with.
structure IsLiteral (isAlphanumeric : Bytes → Bool) (text : Bytes) : Prop where
  solid : Solid isAlphanumeric literalJoins .normal text .normal
  first : startsWith isLiteralStart text = true
  last : text.getLast?.any isLiteralEnd = true

-- The mantissa, the exponent sign and the exponent of a float in the form of the exp formatter.
def IsScientific (text : Bytes) : Prop :=
  ∃ negative mantissa below exponent, text = withSign negative (mantissa ++ 101 :: withSign below exponent) ∧
    (∀ b ∈ mantissa, IsDigit b ∨ b = 46) ∧ (∃ b ∈ mantissa.head?, IsDigit b) ∧
    (∀ b ∈ exponent, IsDigit b) ∧ exponent ≠ []

structure Rendering.Formats (rendering : Rendering) : Prop where
  dates : ∀ date, ∀ b ∈ rendering.displayDate date, IsDigit b ∨ b = 43 ∨ b = 45
  floats : ∀ value, f64IsFinite value = true → IsScientific (rendering.lowerExp value)

def isBreak (x : UInt8) : Bool :=
  !isIdentifierContinue x && x ∉ ([45, 47, 42, 58, 39, 38, 92, 34] : List UInt8)

theorem joint_break {x : UInt8} (h : isBreak x = true) (y : UInt8) : joint x y = false := by
  have hne : ∀ c : UInt8, isBreak c = false → x ≠ c := by
    rintro c hc rfl
    rw [h] at hc
    cases hc
  simp only [isBreak, Bool.and_eq_true, Bool.not_eq_true'] at h
  have hstart : isIdentifierStart x = false := by
    rw [isIdentifierContinue, Bool.or_eq_false_iff] at h
    exact h.1.1
  simp [joint, h.1, hstart, hne 45 (by decide), hne 47 (by decide), hne 42 (by decide),
    hne 58 (by decide), hne 39 (by decide), hne 38 (by decide), hne 92 (by decide),
    hne 34 (by decide), hne 117 (by decide), hne 85 (by decide)]

section Shapes
variable {isAlphanumeric : Bytes → Bool} {text closing : Bytes}

theorem joint_literalEnd {x y : UInt8} (hx : isLiteralEnd x = true) (h : joint x y = true) :
    literalJoins y = true := by
  have hne : ∀ c : UInt8, isLiteralEnd c = false → x ≠ c := by
    rintro c hc rfl
    rw [hx] at hc
    cases hc
  simp only [joint, Bool.or_eq_true, Bool.and_eq_true, beq_iff_eq] at h
  rcases h with ((((((⟨-, hy⟩ | ⟨hx, -⟩) | ⟨hx, -⟩) | ⟨hx, -⟩) | ⟨hx, -⟩) | ⟨rfl, -⟩) | ⟨-, hx⟩) | ⟨-, hx⟩
  · rw [literalJoins, hy, Bool.true_or]
  · exact absurd hx (hne 45 (by decide))
  · exact absurd hx (hne 47 (by decide))
  · exact absurd hx (hne 42 (by decide))
  · exact absurd hx (hne 58 (by decide))
  · decide
  · rcases hx with hx | hx
    · exact absurd hx (hne 34 (by decide))
    · exact absurd hx (hne 38 (by decide))
  · rcases hx with hx | hx
    · exact absurd hx (hne 117 (by decide))
    · exact absurd hx (hne 85 (by decide))

theorem endJoins_last {p : UInt8 → Bool} (hlast : text.getLast?.any p = true) {y : UInt8}
    (h : endJoins text y = true) : ∃ x, p x = true ∧ joint x y = true := by
  rw [endJoins] at h
  cases hx : text.getLast? with
  | none =>
    rw [hx] at h
    cases h
  | some x =>
    rw [hx] at h hlast
    exact ⟨x, hlast, h⟩

theorem endJoins_literal (hlast : text.getLast?.any isLiteralEnd = true) (y : UInt8)
    (h : endJoins text y = true) : literalJoins y = true := by
  obtain ⟨x, hx, hjoint⟩ := endJoins_last hlast h
  exact joint_literalEnd hx hjoint

theorem literal_text (h : readsInert isAlphanumeric .normal text .normal = true)
    (hfirst : startsWith isLiteralStart text = true)
    (hlast : text.getLast?.any isLiteralEnd = true) : IsLiteral isAlphanumeric text :=
  ⟨(solid_text h).weaken (endJoins_literal hlast), hfirst, hlast⟩

theorem null_literal : IsLiteral isAlphanumeric (ascii "NULL") := literal_text rfl rfl rfl

theorem truth_literal (value : Bool) :
    IsLiteral isAlphanumeric (ascii (if value then "TRUE" else "FALSE")) := by
  cases value with
  | true | false => exact literal_text rfl rfl rfl

section Numbers
variable {b : UInt8}

theorem minus_solid : Solid isAlphanumeric (· == 45) .normal [45] .normal := by
  refine solid_one [] ⟨.code, 1, .normal⟩ (fun p after hafter => ?_) rfl rfl rfl
  have hne : ¬((45 : UInt8) = 45 ∧ after.head? = some 45) := by
    rintro ⟨-, hhead⟩
    rw [startsWith, hhead] at hafter
    cases hafter
  exact lexNormal_symbol isAlphanumeric ⟨by decide, by decide, by decide, by decide, by decide,
    by decide, by decide⟩ hne (fun h => absurd h.1 (by decide)) fun h => absurd h.1 (by decide)

theorem withSign_solid {joins : UInt8 → Bool} (negative : Bool)
    (h : Solid isAlphanumeric joins .normal text .normal) (hne : text ≠ [])
    (hhead : startsWith (· == 45) text = false) :
    Solid isAlphanumeric joins .normal (withSign negative text) .normal := by
  cases negative with
  | false => exact h
  | true =>
    refine minus_solid.append h.inert fun after _ => ?_
    rw [startsWith_append_of_ne_nil _ hne, hhead]

theorem withSign_ne_nil (negative : Bool) (hne : text ≠ []) : withSign negative text ≠ [] := by
  cases negative with
  | false => exact hne
  | true => exact List.cons_ne_nil 45 text

theorem withSign_getLast (negative : Bool) (hne : text ≠ []) :
    (withSign negative text).getLast? = text.getLast? := by
  cases negative with
  | false => rfl
  | true => exact List.getLast?_cons_of_ne_nil hne

theorem any_getLast {p : UInt8 → Bool} (hne : text ≠ []) (h : ∀ x ∈ text, p x = true) :
    text.getLast?.any p = true := by
  rw [List.getLast?_eq_some_getLast hne, Option.any_some]
  exact h _ (List.getLast_mem hne)

def isNumberByte (b : UInt8) : Bool := isDigit b || b == 46

theorem isNumberByte_of_isDigit (h : IsDigit b) : isNumberByte b = true := by
  simp [isNumberByte, isDigit, h.1, h.2]

theorem isMark_of_isNumberByte (h : isNumberByte b = true) : isMark b = true := by
  simp only [isNumberByte, isDigit, Bool.or_eq_true, Bool.and_eq_true, decide_eq_true_eq,
    beq_iff_eq] at h
  rcases h with hdigit | rfl
  · exact isMark_of_isDigit hdigit
  · decide

theorem isNumberByte_ends (h : isNumberByte b = true) :
    isLiteralStart b = true ∧ isLiteralEnd b = true := by
  have hne : ∀ c : UInt8, isNumberByte c = false → b ≠ c := by
    rintro c hc rfl
    rw [h] at hc
    cases hc
  rw [isNumberByte, Bool.or_eq_true] at h
  rcases h with hdigit | hpoint
  · have hword : isIdentifierContinue b = true := by rw [isIdentifierContinue, hdigit, Bool.or_true]
    simp [isLiteralStart, isLiteralEnd, hword, hne 117 (by decide), hne 85 (by decide)]
  · simp [isLiteralStart, isLiteralEnd, hpoint]

theorem number_literal (negative : Bool) (h : ∀ b ∈ text, isNumberByte b = true) (hne : text ≠ []) :
    IsLiteral isAlphanumeric (withSign negative text) := by
  have hsolid : Solid isAlphanumeric literalJoins .normal text .normal :=
    (marks_solid (fun b hb => isMark_of_isNumberByte (h b hb)) hne).weaken
      fun y hy => absurd hy Bool.false_ne_true
  obtain ⟨b, rest, rfl⟩ := List.exists_cons_of_ne_nil hne
  have hb := isNumberByte_ends (h b List.mem_cons_self)
  refine ⟨withSign_solid negative hsolid hne ?_, ?_, ?_⟩
  · rw [startsWith_cons, beq_eq_false_iff_ne]
    rintro rfl
    exact absurd (h 45 List.mem_cons_self) (by decide)
  · cases negative with
    | false => exact hb.1
    | true => rfl
  · rw [withSign_getLast negative hne]
    exact any_getLast hne fun x hx => (isNumberByte_ends (h x hx)).2

theorem word_solid {rest : Bytes} (hstart : isIdentifierStart b = true)
    (hrest : ∀ c ∈ rest, isIdentifierContinue c = true) (hne : rest ≠ [])
    (hinert : (Token.word (b :: rest)).isInert = true) :
    Solid isAlphanumeric isIdentifierContinue .normal (b :: rest) .normal := by
  refine solid_one rest ⟨.word (b :: rest), rest.length + 1, .normal⟩ (fun p after hafter => ?_) rfl
    hinert rfl
  have hhead : ∀ c : UInt8, isIdentifierContinue c = false → (rest ++ after).head? ≠ some c := by
    obtain ⟨d, rest, rfl⟩ := List.exists_cons_of_ne_nil hne
    rintro c hc ⟨⟩
    rw [hrest d List.mem_cons_self] at hc
    cases hc
  have hword : (rest ++ after).takeWhile isIdentifierContinue = rest := by
    have hnone : ([] ++ after).takeWhile isIdentifierContinue = [] := takeWhile_before fun _ => hafter
    rw [List.takeWhile_append_of_pos hrest, ← List.nil_append after, hnone, List.append_nil]
  refine (lexNormal_word isAlphanumeric p hstart (hhead 39 (by decide)) (hhead 38 (by decide))).trans ?_
  rw [continueLength, hword, Nat.add_comm]

theorem exponent_inert (below : Bool) {exponent : Bytes} (h : ∀ b ∈ exponent, IsDigit b)
    (hne : exponent ≠ []) :
    Inert isAlphanumeric isIdentifierContinue .normal (101 :: withSign below exponent) .normal := by
  cases below with
  | false =>
    refine (word_solid (by decide) (fun c hc => ?_) hne rfl).inert
    obtain ⟨hlow, hhigh⟩ := h c hc
    simp [isIdentifierContinue, isDigit, hlow, hhigh]
  | true =>
    have hmarks : Inert isAlphanumeric isIdentifierContinue .normal exponent .normal :=
      (marks_inert fun b hb => isMark_of_isDigit (h b hb)).weaken
        fun y hy => absurd hy Bool.false_ne_true
    have hletter : Solid isAlphanumeric (endJoins [101]) .normal [101] .normal := solid_text rfl
    refine hletter.inert.append (minus_solid.inert.append hmarks fun after _ => ?_) fun _ _ => rfl
    obtain ⟨d, rest, rfl⟩ := List.exists_cons_of_ne_nil hne
    rw [List.cons_append, startsWith_cons, beq_eq_false_iff_ne]
    rintro rfl
    exact absurd (h 45 List.mem_cons_self).1 (by decide)

theorem scientific_literal (h : IsScientific text) : IsLiteral isAlphanumeric text := by
  obtain ⟨negative, mantissa, below, exponent, rfl, hmantissa, ⟨b, hb, hdigit⟩, hexponent, hne⟩ := h
  obtain ⟨rest, rfl⟩ := List.head?_eq_some_iff.mp hb
  have hmarks : ∀ c ∈ b :: rest, isMark c = true := by
    intro c hc
    rcases hmantissa c hc with hc | rfl
    · exact isMark_of_isDigit hc
    · decide
  have hsolid : Solid isAlphanumeric isIdentifierContinue .normal
      (b :: rest ++ 101 :: withSign below exponent) .normal :=
    (marks_solid hmarks (List.cons_ne_nil b rest)).then (exponent_inert below hexponent hne)
  have hminus : b ≠ 45 := by
    rintro rfl
    exact absurd hdigit.1 (by decide)
  refine ⟨(withSign_solid negative hsolid (by simp) ?_).weaken fun y hy => ?_, ?_, ?_⟩
  · simpa using hminus
  · rw [literalJoins, hy, Bool.true_or]
  · cases negative with
    | false => exact (isNumberByte_ends (isNumberByte_of_isDigit hdigit)).1
    | true => rfl
  · rw [withSign_getLast negative (by simp), List.getLast?_append_of_ne_nil _ (List.cons_ne_nil _ _),
      List.getLast?_cons_of_ne_nil (withSign_ne_nil below hne), withSign_getLast below hne]
    exact any_getLast hne fun x hx => (isNumberByte_ends (isNumberByte_of_isDigit (hexponent x hx))).2

end Numbers

section Quoted

theorem quoted_literal (opening : Bytes)
    (hopening : readsInert isAlphanumeric .normal opening .normal = true)
    (hspace : opening.getLast? = some 32) (hfirst : startsWith isLiteralStart opening = true)
    (hbody : ∀ b ∈ text, isQuiet b = true)
    (hclosing : Inert isAlphanumeric literalJoins .singleQuote closing .normal)
    (hlast : closing.getLast?.any isLiteralEnd = true) :
    IsLiteral isAlphanumeric (opening ++ 39 :: (text ++ closing)) := by
  have hne : closing ≠ [] := by
    rintro rfl
    cases hlast
  refine ⟨(solid_text hopening).append (quoted_value_inert hbody hclosing) fun _ _ => ?_, ?_, ?_⟩
  · rw [List.cons_append, startsWith_cons, endJoins, hspace]
    rfl
  · cases opening with
    | nil => cases hfirst
    | cons b opening => exact hfirst
  · rwa [List.getLast?_append_of_ne_nil _ (List.cons_ne_nil _ _), List.getLast?_cons_of_ne_nil (by simp [hne]),
      List.getLast?_append_of_ne_nil _ hne]

theorem plain_closing : Inert isAlphanumeric literalJoins .singleQuote [39] .normal :=
  quote_closes.weaken fun y hy => by rw [literalJoins, hy, Bool.or_true]

theorem unit_closing (h : readsInert isAlphanumeric .singleQuote closing .normal = true)
    (hlast : closing.getLast?.any isLiteralEnd = true) :
    Inert isAlphanumeric literalJoins .singleQuote closing .normal :=
  ((solid_text h).weaken (endJoins_literal hlast)).inert

theorem raw_string_literal (h : Utf8.valid text = true) :
    IsLiteral isAlphanumeric (quoteRawString text) := by
  refine ⟨(raw_string_solid h).weaken fun y hy => ?_, rfl, ?_⟩
  · rw [literalJoins, hy, Bool.or_true]
  · rw [quoteRawString, List.getLast?_append_of_ne_nil _ (List.cons_ne_nil _ _)]
    rfl

theorem IsLiteral.inert (h : IsLiteral isAlphanumeric text) :
    Inert isAlphanumeric literalJoins .normal text .normal :=
  h.solid.inert

theorem IsLiteral.ne_nil (h : IsLiteral isAlphanumeric text) : text ≠ [] := by
  rintro rfl
  cases h.first

-- A keyword text that ends with a bracket, a comma or a blank touches nothing that follows.
theorem keyword_solid (h : readsInert isAlphanumeric .normal text .normal = true)
    (hlast : text.getLast?.any isBreak = true) :
    Solid isAlphanumeric never .normal text .normal := by
  refine (solid_text h).weaken fun y hy => ?_
  obtain ⟨x, hx, hjoint⟩ := endJoins_last hlast hy
  rw [joint_break hx] at hjoint
  cases hjoint

end Quoted

section Bodies

theorem quiet_of_isDigit {b : UInt8} (h : IsDigit b) : isQuiet b = true := by
  obtain ⟨hlow, hhigh⟩ := h
  simp only [isQuiet, Bool.and_eq_true, decide_eq_true_eq, bne_iff_ne, ne_eq]
  simp only [UInt8.le_iff_toNat_le, UInt8.lt_iff_toNat_lt, ← UInt8.toNat_inj, UInt8.reduceToNat]
    at hlow hhigh ⊢
  omega

theorem quiet_cons {b : UInt8} (hb : isQuiet b = true) (h : ∀ c ∈ text, isQuiet c = true) :
    ∀ c ∈ b :: text, isQuiet c = true :=
  List.forall_mem_cons.mpr ⟨hb, h⟩

theorem quiet_append {more : Bytes} (h : ∀ c ∈ text, isQuiet c = true)
    (hmore : ∀ c ∈ more, isQuiet c = true) : ∀ c ∈ text ++ more, isQuiet c = true :=
  List.forall_mem_append.mpr ⟨h, hmore⟩

theorem quiet_withSign (negative : Bool) (h : ∀ c ∈ text, isQuiet c = true) :
    ∀ c ∈ withSign negative text, isQuiet c = true := by
  cases negative with
  | false => exact h
  | true => exact quiet_cons rfl h

theorem quiet_decimal (n : Nat) : ∀ b ∈ decimal n, isQuiet b = true :=
  fun b hb => quiet_of_isDigit (decimal_isDigit n b hb)

theorem quiet_padded (width n : Nat) : ∀ b ∈ padded width n, isQuiet b = true :=
  fun b hb => quiet_of_isDigit (padded_isDigit width n b hb)

theorem quiet_hexDigit : ∀ n < 16, isQuiet (hexDigit n) = true := by decide

theorem quiet_hexPair (b : UInt8) : ∀ c ∈ hexPair b, isQuiet c = true := by
  have hb := b.toNat_lt
  rw [hexPair, List.forall_mem_cons, List.forall_mem_singleton]
  exact ⟨quiet_hexDigit _ (by omega), quiet_hexDigit _ (by omega)⟩

theorem quiet_hexText (bytes : Bytes) : ∀ c ∈ hexText bytes, isQuiet c = true := by
  intro c hc
  obtain ⟨b, -, hb⟩ := List.mem_flatMap.mp hc
  exact quiet_hexPair b c hb

theorem quiet_uuidFrom (index : Nat) (bytes : Bytes) : ∀ c ∈ uuidFrom index bytes, isQuiet c = true := by
  induction bytes generalizing index with
  | nil => simp [uuidFrom]
  | cons b bytes ih =>
    rw [uuidFrom]
    refine quiet_append (quiet_append ?_ (quiet_hexPair b)) (ih (index + 1))
    split_ifs
    · exact quiet_cons rfl (by simp)
    · simp

theorem quiet_clock {micros : Int} {time : Bytes} (h : formatTime micros = .ok time) :
    ∀ c ∈ time, isQuiet c = true := by
  rw [formatTime] at h
  split_ifs at h
  · cases h
    exact quiet_append (quiet_append (quiet_append (quiet_padded _ _)
      (quiet_cons rfl (quiet_padded _ _))) (quiet_cons rfl (quiet_padded _ _)))
      (quiet_cons rfl (quiet_padded _ _))
  · cases h

theorem quiet_fraction (millis : Nat) : ∀ c ∈ intervalFraction millis, isQuiet c = true := by
  rw [intervalFraction]
  split_ifs
  · simp
  · exact quiet_cons rfl (quiet_padded _ _)

theorem quiet_dayClock (absolute : Nat) : ∀ c ∈ dayClock absolute, isQuiet c = true :=
  quiet_append (quiet_append (quiet_append (quiet_append (quiet_decimal _)
    (quiet_cons rfl (quiet_padded _ _))) (quiet_cons rfl (quiet_padded _ _)))
    (quiet_cons rfl (quiet_padded _ _))) (quiet_fraction _)

theorem quiet_date {rendering : Rendering} (hr : rendering.Formats) (date : Date) :
    ∀ c ∈ rendering.displayDate date, isQuiet c = true := by
  intro c hc
  rcases hr.dates date c hc with hdigit | rfl | rfl
  · exact quiet_of_isDigit hdigit
  · rfl
  · rfl

theorem zone_closing : Inert isAlphanumeric literalJoins .singleQuote (ascii "+00:00'") .normal := by
  have hzone : (ascii "+00:00").all isQuiet = true := rfl
  exact (quiet_inert (List.all_eq_true.mp hzone)).then plain_closing

end Bodies

section Values
variable {rendering : Rendering} {unit : TimeUnit} {value : BitVec 64}

theorem decimal_literal (n : Nat) : IsLiteral isAlphanumeric (decimal n) :=
  number_literal false (fun b hb => isNumberByte_of_isDigit (decimal_isDigit n b hb))
    (decimal_ne_nil n)

theorem decimalInt_eq (n : Int) : decimalInt n = withSign (n < 0) (decimal n.natAbs) := by
  by_cases h : n < 0
  · simp [decimalInt, withSign, h]
  · simp [decimalInt, withSign, h]

theorem decimalInt_literal (n : Int) : IsLiteral isAlphanumeric (decimalInt n) := by
  rw [decimalInt_eq]
  exact number_literal _ (fun b hb => isNumberByte_of_isDigit (decimal_isDigit _ b hb))
    (decimal_ne_nil _)

theorem pointed_number (h : ∀ b ∈ text, isNumberByte b = true) (point : Nat) :
    ∀ b ∈ text.take point ++ 46 :: text.drop point, isNumberByte b = true := by
  rw [List.forall_mem_append, List.forall_mem_cons]
  exact ⟨fun b hb => h b (List.mem_of_mem_take hb), rfl, fun b hb => h b (List.mem_of_mem_drop hb)⟩

theorem decimalDigits_number (scale : Nat) {digits : Bytes} (h : ∀ b ∈ digits, IsDigit b)
    (hne : digits ≠ []) :
    (∀ b ∈ decimalDigits scale digits, isNumberByte b = true) ∧ decimalDigits scale digits ≠ [] := by
  have hnumber : ∀ b ∈ digits, isNumberByte b = true := fun b hb => isNumberByte_of_isDigit (h b hb)
  rw [decimalDigits]
  split_ifs with hscale hshort
  · refine ⟨?_, by simp⟩
    have hpadded : ∀ b ∈ List.replicate (scale + 1 - digits.length) 48 ++ digits,
        isNumberByte b = true := by
      rw [List.forall_mem_append]
      refine ⟨fun b hb => ?_, hnumber⟩
      rw [List.eq_of_mem_replicate hb]
      rfl
    exact pointed_number hpadded _
  · exact ⟨pointed_number hnumber _, by simp⟩
  · exact ⟨hnumber, hne⟩

theorem decimalLiteral_literal {value scale : Int} (h : decimalLiteral value scale = .ok text) :
    IsLiteral isAlphanumeric text := by
  rw [decimalLiteral] at h
  split_ifs at h
  cases h
  obtain ⟨hnumber, hne⟩ := decimalDigits_number scale.toNat (decimal_isDigit value.natAbs)
    (decimal_ne_nil value.natAbs)
  exact number_literal _ hnumber hne

theorem blob_literal (value : Bytes) : IsLiteral isAlphanumeric (blobLiteral value) :=
  quoted_literal (ascii "BLOB ") rfl rfl rfl (quiet_hexText value) plain_closing rfl

theorem uuid_literal (value : Bytes) : IsLiteral isAlphanumeric (uuidLiteral value) :=
  quoted_literal (ascii "UUID ") rfl rfl rfl (quiet_uuidFrom 0 value) plain_closing rfl

theorem month_literal (n : Int) :
    IsLiteral isAlphanumeric (ascii "INTERVAL '" ++ decimalInt n ++ ascii "' MONTH") := by
  rw [decimalInt_eq]
  exact quoted_literal (ascii "INTERVAL ") rfl rfl rfl (quiet_withSign _ (quiet_decimal _))
    (unit_closing rfl rfl) rfl

theorem time32_literal {value : BitVec 32} (h : time32Literal unit value = .ok text) :
    IsLiteral isAlphanumeric text := by
  obtain ⟨micros, -, h⟩ := bind_eq_ok.mp h
  obtain ⟨time, htime, h⟩ := bind_eq_ok.mp h
  cases h
  exact quoted_literal (ascii "TIME ") rfl rfl rfl (quiet_clock htime) plain_closing rfl

theorem time64_literal {timezone : Bool} (h : time64Literal unit timezone value = .ok text) :
    IsLiteral isAlphanumeric text := by
  obtain ⟨micros, -, h⟩ := bind_eq_ok.mp h
  obtain ⟨time, htime, h⟩ := bind_eq_ok.mp h
  cases h
  cases timezone with
  | false => exact quoted_literal (ascii "TIME ") rfl rfl rfl (quiet_clock htime) plain_closing rfl
  | true => exact quoted_literal (ascii "TIMETZ ") rfl rfl rfl (quiet_clock htime) zone_closing rfl

theorem timestamp_literal (hr : rendering.Formats) {timezone : Bool}
    (h : timestampLiteral rendering unit timezone value = .ok text) :
    IsLiteral isAlphanumeric text := by
  obtain ⟨micros, -, h⟩ := bind_eq_ok.mp h
  obtain ⟨date, -, h⟩ := bind_eq_ok.mp h
  obtain ⟨time, htime, h⟩ := bind_eq_ok.mp h
  cases h
  have hbody : ∀ b ∈ rendering.displayDate date ++ 32 :: time, isQuiet b = true :=
    quiet_append (quiet_date hr date) (quiet_cons rfl (quiet_clock htime))
  cases timezone with
  | false => exact quoted_literal (ascii "TIMESTAMP ") rfl rfl rfl hbody plain_closing rfl
  | true => exact quoted_literal (ascii "TIMESTAMPTZ ") rfl rfl rfl hbody zone_closing rfl

theorem date_literal (hr : rendering.Formats) {days : Int}
    (h : dateLiteral rendering days = .ok text) : IsLiteral isAlphanumeric text := by
  obtain ⟨date, -, h⟩ := bind_eq_ok.mp h
  cases h
  exact quoted_literal (ascii "DATE ") rfl rfl rfl (quiet_date hr date) plain_closing rfl

theorem duration_literal (h : durationLiteral unit value = .ok text) :
    IsLiteral isAlphanumeric text := by
  obtain ⟨millis, -, h⟩ := bind_eq_ok.mp h
  cases h
  exact quoted_literal (ascii "INTERVAL ") rfl rfl rfl
    (quiet_withSign _ (quiet_append (quiet_decimal _) (quiet_fraction _))) (unit_closing rfl rfl) rfl

theorem day_interval_literal (h : dayIntervalLiteral unit value = .ok text) :
    IsLiteral isAlphanumeric text := by
  obtain ⟨millis, -, h⟩ := bind_eq_ok.mp h
  cases h
  exact quoted_literal (ascii "INTERVAL ") rfl rfl rfl (quiet_withSign _ (quiet_dayClock _))
    (unit_closing rfl rfl) rfl

theorem float_literal (hr : rendering.Formats) (h : floatLiteral rendering value = .ok text) :
    IsLiteral isAlphanumeric text := by
  rw [floatLiteral] at h
  split_ifs at h with hfinite
  · cases h
    exact scientific_literal (hr.floats value hfinite)
  · cases h

theorem nativeLiteral_literal (hr : rendering.Formats) {extension : Option String} {type : Primitive}
    {value : BitVec type.width} (h : nativeLiteral rendering extension type value = .ok text) :
    IsLiteral isAlphanumeric text := by
  cases type with
  | int8 | int16 | int64 =>
    cases h
    exact decimalInt_literal _
  | int32 =>
    cases h
    split_ifs
    · exact month_literal _
    · exact decimalInt_literal _
  | uint8 | uint16 | uint32 =>
    cases h
    exact decimal_literal _
  | uint64 =>
    rw [nativeLiteral] at h
    split_ifs at h
    · unfold oidLiteral at h
      split_ifs at h
      · cases h
      · cases h
        exact decimal_literal _
    · cases h
      exact decimal_literal _
  | float16 | float32 | float64 => exact float_literal hr h
  | decimal128 precision scale => exact decimalLiteral_literal h
  | date32 => exact date_literal hr h
  | date64 =>
    rw [nativeLiteral, date64Literal] at h
    split_ifs at h
    · cases h
    · exact date_literal hr h
  | time32 unit => exact time32_literal h
  | time64 unit => exact time64_literal h
  | timestamp unit timezone => exact timestamp_literal hr h
  | duration unit =>
    rw [nativeLiteral] at h
    split_ifs at h
    · exact day_interval_literal h
    · exact duration_literal h

theorem orNull_literal {α : Type} {render : α → Except AdbcError Bytes} {value : Option (Option α)}
    (h : orNull render value = .ok text)
    (hrender : ∀ v, render v = .ok text → IsLiteral isAlphanumeric text) :
    IsLiteral isAlphanumeric text := by
  rcases value with _ | _ | value
  · cases h
  · cases h
    exact null_literal
  · exact hrender value h

theorem quoteString_literal {value : Utf8.Str} (h : quoteString value = .ok text) :
    IsLiteral isAlphanumeric text := by
  rw [quoteString] at h
  split_ifs at h
  · cases h
  · cases h
    exact raw_string_literal value.utf8

theorem literal_isLiteral (hr : rendering.Formats) {field : Field} {column : Column} {row : Nat}
    (h : literal rendering field column row = .ok text) : IsLiteral isAlphanumeric text := by
  induction column generalizing field row with
  | null rows =>
    cases h
    exact null_literal
  | boolean values =>
    refine orNull_literal h fun value hvalue => ?_
    cases hvalue
    exact truth_literal value
  | primitive type slots => exact orNull_literal h fun value => nativeLiteral_literal hr
  | utf8 layout values => exact orNull_literal h fun value => quoteString_literal
  | binary layout values =>
    refine orNull_literal h fun value hvalue => ?_
    cases hvalue
    exact blob_literal value
  | fixedSizeBinary width values =>
    refine orNull_literal h fun value hvalue => ?_
    cases hvalue
    split_ifs
    · exact uuid_literal _
    · exact blob_literal _
  | dictionary key keys values ih =>
    refine orNull_literal h fun index hindex => ?_
    split_ifs at hindex
    · cases hindex
    · exact ih hindex
  | other name values => exact orNull_literal h fun _ hvalue => (nomatch hvalue)

-- A text with something in brackets at its end.
theorem bracketed_literal (opening : Bytes) {inner : Bytes}
    (hopening : readsInert isAlphanumeric .normal opening .normal = true)
    (hlast : opening.getLast?.any isBreak = true) (hfirst : startsWith isLiteralStart opening = true)
    (hinner : Inert isAlphanumeric literalJoins .normal inner .normal) :
    IsLiteral isAlphanumeric (opening ++ (inner ++ ascii ")")) := by
  have hclose : Solid isAlphanumeric never .normal (ascii ")") .normal := keyword_solid rfl rfl
  have hsolid := (keyword_solid hopening hlast).then (hinner.append hclose.inert fun _ _ => rfl)
  refine ⟨hsolid.weaken fun y hy => absurd hy Bool.false_ne_true, ?_, ?_⟩
  · cases opening with
    | nil => cases hfirst
    | cons b opening => exact hfirst
  · have hne : ascii ")" ≠ [] := by decide
    rw [← List.append_assoc, List.getLast?_append_of_ne_nil _ hne]
    rfl

theorem cast_literal {type : Bytes} (h : IsLiteral isAlphanumeric text)
    (htype : IsLiteral isAlphanumeric type) :
    IsLiteral isAlphanumeric (ascii "CAST(" ++ (text ++ (ascii " AS " ++ (type ++ ascii ")")))) := by
  have has : Solid isAlphanumeric never .normal (ascii " AS ") .normal := keyword_solid rfl rfl
  have hinner := h.inert.append (has.then htype.inert).inert fun _ _ => rfl
  have hliteral := bracketed_literal (ascii "CAST(") rfl rfl rfl hinner
  simpa only [List.append_assoc] using hliteral

theorem sqlType_literal (type : MonetType) : IsLiteral isAlphanumeric (sqlType type) := by
  cases type with
  | decimal precision scale =>
    have hcomma : Solid isAlphanumeric never .normal (ascii ", ") .normal := keyword_solid rfl rfl
    have hinner := (decimal_literal precision).inert.append
      (hcomma.then (decimal_literal scale).inert).inert fun _ _ => rfl
    have hliteral := bracketed_literal (ascii "DECIMAL(") rfl rfl rfl hinner
    simpa only [sqlType, List.append_assoc] using hliteral
  | varchar width =>
    rw [sqlType]
    split_ifs
    · exact bracketed_literal (ascii "VARCHAR(") rfl rfl rfl (decimal_literal width).inert
    · exact literal_text rfl rfl rfl
  | _ => exact literal_text rfl rfl rfl

theorem typed_isLiteral {field : Field} {column : Column} {row : Nat} {value : Bytes}
    (hvalue : IsLiteral isAlphanumeric value)
    (h : typedTemplateLiteral rendering field column row value = .ok text) :
    IsLiteral isAlphanumeric text := by
  rw [typedTemplateLiteral] at h
  split_ifs at h
  · cases h
    exact hvalue
  · cases h
    exact hvalue
  · obtain ⟨type, htype, h⟩ := bind_eq_ok.mp h
    cases h
    cases hsql : sqlTypeForField field with
    | error error =>
      rw [hsql] at htype
      cases htype
    | ok found =>
      rw [hsql] at htype
      cases htype
      obtain ⟨monet, -, rfl⟩ := map_eq_ok.mp hsql
      exact cast_literal hvalue (sqlType_literal monet)

end Values

end Shapes

end MonetdbAdbc.Sql
