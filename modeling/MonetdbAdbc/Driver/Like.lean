import MonetdbAdbc.Library.Wildcard
import MonetdbAdbc.Status

namespace MonetdbAdbc
open Wildcard (Token Matches)

inductive LikeFailure where
  | rejected (error : AdbcError)
  | panicked (message : String)
  deriving DecidableEq, Repr

def escapable (character : Char) : Bool :=
  character = '%' ∨ character = '_' ∨ character = '\\'

def validateLikePattern : List Char → Except AdbcError Unit
  | [] => .ok ()
  | character :: chars =>
    if character ≠ '\\' then validateLikePattern chars
    else
      match chars with
      | [] =>
        .error (adbcError "metadata LIKE pattern ends with an escape character" .invalidArguments)
      | next :: chars =>
        if escapable next then validateLikePattern chars
        else
          .error (adbcError
            ("metadata LIKE pattern has invalid escape '\\" ++ String.singleton next ++ "'")
            .invalidArguments)

def likeTokens : List Char → Except LikeFailure (List (Token Char))
  | [] => .ok []
  | character :: chars =>
    if character = '%' then do
      let tokens ← likeTokens chars
      .ok (.many :: tokens)
    else if character = '_' then do
      let tokens ← likeTokens chars
      .ok (.one :: tokens)
    else if character = '\\' then
      match chars with
      | [] => .error (.panicked "pattern escapes were validated")
      | next :: chars => do
        let tokens ← likeTokens chars
        .ok (.literal next :: tokens)
    else do
      let tokens ← likeTokens chars
      .ok (.literal character :: tokens)

def likePatternMatches (pattern value : String) : Except LikeFailure Bool := do
  (validateLikePattern pattern.toList).mapError .rejected
  let tokens ← likeTokens pattern.toList
  .ok (Wildcard.search tokens value.toList (.start tokens value.toList))

inductive Like : List Char → List Char → Prop
  | done : Like [] []
  | many (taken : List Char) {pattern value : List Char} :
    Like pattern value → Like ('%' :: pattern) (taken ++ value)
  | one (character : Char) {pattern value : List Char} :
    Like pattern value → Like ('_' :: pattern) (character :: value)
  | escaped (character : Char) {pattern value : List Char} :
    Like pattern value → Like ('\\' :: character :: pattern) (character :: value)
  | literal (character : Char) {pattern value : List Char} :
    character ≠ '%' → character ≠ '_' → character ≠ '\\' →
      Like pattern value → Like (character :: pattern) (character :: value)

def BeginsEscape (pattern : List Char) (i : Nat) : Prop :=
  pattern[i]? = some '\\' ∧ Even ((pattern.take i).reverse.takeWhile (· = '\\')).length

def BadEscape (pattern : List Char) : Prop :=
  ∃ i, BeginsEscape pattern i ∧ ¬∃ next, pattern[i + 1]? = some next ∧ escapable next

section Escapes

theorem length_takeWhile_append_stop {p : Char → Bool} {stop : Char} (hstop : p stop = false)
    (l tail : List Char) :
    ((l ++ stop :: tail).takeWhile p).length = (l.takeWhile p).length := by
  induction l with
  | nil => simp [hstop]
  | cons a l ih =>
    rw [List.cons_append, List.takeWhile_cons, List.takeWhile_cons]
    split_ifs
    · rw [List.length_cons, List.length_cons, ih]
    · rfl

theorem even_takeWhile_append_pair {p : Char → Bool} {a : Char} (ha : p a = true) (l : List Char) :
    Even ((l ++ [a, a]).takeWhile p).length ↔ Even (l.takeWhile p).length := by
  induction l with
  | nil => simp [ha]
  | cons b l ih =>
    rw [List.cons_append, List.takeWhile_cons, List.takeWhile_cons]
    split_ifs
    · rw [List.length_cons, List.length_cons, Nat.even_add_one, Nat.even_add_one, ih]
    · rfl

theorem beginsEscape_succ {character : Char} (h : character ≠ '\\') (chars : List Char) (i : Nat) :
    BeginsEscape (character :: chars) (i + 1) ↔ BeginsEscape chars i := by
  rw [BeginsEscape, BeginsEscape, List.getElem?_cons_succ, List.take_succ_cons, List.reverse_cons,
    length_takeWhile_append_stop (by simpa using h)]

theorem beginsEscape_add_two (next : Char) (chars : List Char) (i : Nat) :
    BeginsEscape ('\\' :: next :: chars) (i + 2) ↔ BeginsEscape chars i := by
  rw [BeginsEscape, BeginsEscape, List.getElem?_cons_succ, List.getElem?_cons_succ,
    List.take_succ_cons, List.take_succ_cons, List.reverse_cons, List.reverse_cons,
    List.append_assoc, List.singleton_append]
  by_cases hnext : next = '\\'
  · rw [hnext, even_takeWhile_append_pair (by simp)]
  · rw [length_takeWhile_append_stop (by simpa using hnext)]

theorem badEscape_nil : ¬BadEscape [] := by
  rintro ⟨i, ⟨h, -⟩, -⟩
  simp at h

theorem badEscape_cons {character : Char} (h : character ≠ '\\') (chars : List Char) :
    BadEscape (character :: chars) ↔ BadEscape chars := by
  constructor
  · rintro ⟨i, hbegins, hbad⟩
    cases i with
    | zero => exact absurd (Option.some.inj hbegins.1) h
    | succ i => exact ⟨i, (beginsEscape_succ h chars i).mp hbegins, hbad⟩
  · rintro ⟨i, hbegins, hbad⟩
    exact ⟨i + 1, (beginsEscape_succ h chars i).mpr hbegins, hbad⟩

theorem beginsEscape_head (chars : List Char) : BeginsEscape ('\\' :: chars) 0 :=
  ⟨rfl, by simp⟩

theorem badEscape_end : BadEscape ['\\'] :=
  ⟨0, beginsEscape_head [], by simp⟩

theorem badEscape_escape (next : Char) (chars : List Char) :
    BadEscape ('\\' :: next :: chars) ↔ ¬escapable next ∨ BadEscape chars := by
  constructor
  · rintro ⟨i, hbegins, hbad⟩
    rcases i with _ | _ | i
    · exact .inl fun hnext => hbad ⟨next, rfl, hnext⟩
    · -- The escaped character itself begins nothing: one backslash stands before it.
      exact absurd hbegins.2 (by simp)
    · exact .inr ⟨i, (beginsEscape_add_two next chars i).mp hbegins, hbad⟩
  · rintro (hnext | ⟨i, hbegins, hbad⟩)
    · refine ⟨0, beginsEscape_head _, ?_⟩
      rintro ⟨found, hfound, hescapable⟩
      cases hfound
      exact hnext hescapable
    · exact ⟨i + 2, (beginsEscape_add_two next chars i).mpr hbegins, hbad⟩

theorem validateLikePattern_eq_ok (chars : List Char) :
    validateLikePattern chars = .ok () ↔ ¬BadEscape chars := by
  fun_induction validateLikePattern chars with
  | case1 => simp [badEscape_nil]
  | case2 character chars h ih => rw [ih, badEscape_cons h]
  | case3 character h =>
    obtain rfl := not_not.mp h
    simp [badEscape_end]
  | case4 character h next chars hnext ih =>
    obtain rfl := not_not.mp h
    rw [ih, badEscape_escape, or_iff_right (not_not.mpr hnext)]
  | case5 character h next chars hnext =>
    obtain rfl := not_not.mp h
    simp [badEscape_escape, hnext]

end Escapes

section Tokens
variable {chars : List Char} {tokens : List (Token Char)}

theorem matches_done (value : List Char) : Matches [] value ↔ Like [] value := by
  constructor
  · rintro rfl
    exact .done
  · intro h
    cases h
    rfl

theorem matches_many (h : ∀ value, Matches tokens value ↔ Like chars value) (value : List Char) :
    Matches (.many :: tokens) value ↔ Like ('%' :: chars) value := by
  constructor
  · rintro ⟨k, hmatch⟩
    have hlike := Like.many (value.take k) ((h _).mp hmatch)
    rwa [List.take_append_drop] at hlike
  · intro hlike
    cases hlike with
    | many taken hrest => exact ⟨taken.length, by rwa [List.drop_left, h]⟩
    | literal _ hmany => exact absurd rfl hmany

theorem matches_one (h : ∀ value, Matches tokens value ↔ Like chars value) (value : List Char) :
    Matches (.one :: tokens) value ↔ Like ('_' :: chars) value := by
  constructor
  · rintro ⟨character, rest, rfl, hmatch⟩
    exact .one character ((h rest).mp hmatch)
  · intro hlike
    cases hlike with
    | one character hrest => exact ⟨character, _, rfl, (h _).mpr hrest⟩
    | literal _ _ hone => exact absurd rfl hone

theorem matches_escaped (h : ∀ value, Matches tokens value ↔ Like chars value) (character : Char)
    (value : List Char) :
    Matches (.literal character :: tokens) value ↔ Like ('\\' :: character :: chars) value := by
  constructor
  · rintro ⟨rest, rfl, hmatch⟩
    exact .escaped character ((h rest).mp hmatch)
  · intro hlike
    cases hlike with
    | escaped _ hrest => exact ⟨_, rfl, (h _).mpr hrest⟩
    | literal _ _ _ hescape => exact absurd rfl hescape

theorem matches_literal (h : ∀ value, Matches tokens value ↔ Like chars value) {character : Char}
    (hmany : character ≠ '%') (hone : character ≠ '_') (hescape : character ≠ '\\')
    (value : List Char) :
    Matches (.literal character :: tokens) value ↔ Like (character :: chars) value := by
  constructor
  · rintro ⟨rest, rfl, hmatch⟩
    exact .literal character hmany hone hescape ((h rest).mp hmatch)
  · intro hlike
    cases hlike with
    | many => exact absurd rfl hmany
    | one => exact absurd rfl hone
    | escaped => exact absurd rfl hescape
    | literal _ _ _ _ hrest => exact ⟨_, rfl, (h _).mpr hrest⟩

theorem likeTokens_matches (h : ¬BadEscape chars) :
    ∃ tokens, likeTokens chars = .ok tokens ∧ ∀ value, Matches tokens value ↔ Like chars value := by
  fun_induction likeTokens chars with
  | case1 => exact ⟨[], rfl, matches_done⟩
  | case2 chars ih =>
    rw [badEscape_cons (by decide)] at h
    obtain ⟨tokens, htokens, hmatches⟩ := ih h
    exact ⟨.many :: tokens, by rw [htokens]; rfl, matches_many hmatches⟩
  | case3 chars hmany ih =>
    rw [badEscape_cons (by decide)] at h
    obtain ⟨tokens, htokens, hmatches⟩ := ih h
    exact ⟨.one :: tokens, by rw [htokens]; rfl, matches_one hmatches⟩
  | case4 => exact absurd badEscape_end h
  | case5 next chars hmany hone ih =>
    rw [badEscape_escape] at h
    obtain ⟨tokens, htokens, hmatches⟩ := ih (not_or.mp h).2
    exact ⟨.literal next :: tokens, by rw [htokens]; rfl, matches_escaped hmatches next⟩
  | case6 character chars hmany hone hescape ih =>
    rw [badEscape_cons hescape] at h
    obtain ⟨tokens, htokens, hmatches⟩ := ih h
    exact ⟨.literal character :: tokens, by rw [htokens]; rfl,
      matches_literal hmatches hmany hone hescape⟩

end Tokens

theorem likePatternMatches_of_bad {pattern : String} (value : String)
    (h : BadEscape pattern.toList) :
    ∃ error, likePatternMatches pattern value = .error (.rejected error) := by
  cases hvalid : validateLikePattern pattern.toList with
  | ok u => exact absurd h ((validateLikePattern_eq_ok _).mp hvalid)
  | error error =>
    refine ⟨error, ?_⟩
    rw [likePatternMatches, hvalid]
    rfl

theorem likePatternMatches_of_valid {pattern : String} (value : String)
    (h : ¬BadEscape pattern.toList) :
    ∃ answer, likePatternMatches pattern value = .ok answer ∧
      (answer = true ↔ Like pattern.toList value.toList) := by
  obtain ⟨tokens, htokens, hmatches⟩ := likeTokens_matches h
  refine ⟨Wildcard.search tokens value.toList (.start tokens value.toList), ?_, ?_⟩
  · rw [likePatternMatches, (validateLikePattern_eq_ok _).mpr h, htokens]
    rfl
  · rw [Wildcard.search_iff Wildcard.sound_start, hmatches]

theorem like_pattern_matches_correct (pattern value : String) :
    ((∃ error, likePatternMatches pattern value = .error (.rejected error)) ↔
      BadEscape pattern.toList) ∧
    (¬BadEscape pattern.toList → ∃ answer, likePatternMatches pattern value = .ok answer ∧
      (answer = true ↔ Like pattern.toList value.toList)) := by
  refine ⟨⟨?_, likePatternMatches_of_bad value⟩, likePatternMatches_of_valid value⟩
  rintro ⟨error, herror⟩
  by_contra hvalid
  obtain ⟨answer, hanswer, -⟩ := likePatternMatches_of_valid value hvalid
  rw [herror] at hanswer
  cases hanswer

theorem like_pattern_matches_escaped_percent :
    ¬BadEscape "a\\%b%".toList ∧ ∃ answer, likePatternMatches "a\\%b%" "a%bc" = .ok answer ∧
      (answer = true ↔ Like "a\\%b%".toList "a%bc".toList) := by
  have hvalid : ¬BadEscape "a\\%b%".toList := (validateLikePattern_eq_ok _).mp (by decide)
  exact ⟨hvalid, (like_pattern_matches_correct "a\\%b%" "a%bc").2 hvalid⟩

theorem escaped_backslash_accepted :
    (∃ i, "\\\\a".toList[i]? = some '\\' ∧
      ¬∃ next, "\\\\a".toList[i + 1]? = some next ∧ escapable next) ∧
    ∃ answer, likePatternMatches "\\\\a" "\\a" = .ok answer := by
  have hvalid : ¬BadEscape "\\\\a".toList := (validateLikePattern_eq_ok _).mp (by decide)
  obtain ⟨answer, hanswer, -⟩ := likePatternMatches_of_valid "\\a" hvalid
  exact ⟨⟨1, by decide, by simp [escapable]⟩, answer, hanswer⟩

end MonetdbAdbc
