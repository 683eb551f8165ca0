import Mathlib.Tactic

namespace Wildcard
variable {α : Type}

inductive Token (α : Type) where
  | many
  | one
  | literal (a : α)
  deriving DecidableEq, Repr

def Matches : List (Token α) → List α → Prop
  | [], value => value = []
  | .many :: tokens, value => ∃ k, Matches tokens (value.drop k)
  | .one :: tokens, value => ∃ a rest, value = a :: rest ∧ Matches tokens rest
  | .literal a :: tokens, value => ∃ rest, value = a :: rest ∧ Matches tokens rest

variable {tokens : List (Token α)} {value : List α}

theorem matches_one_cons {a : α} {rest : List α} :
    Matches (.one :: tokens) (a :: rest) ↔ Matches tokens rest := by
  simp [Matches]

theorem matches_literal_cons {expected a : α} {rest : List α} :
    Matches (.literal expected :: tokens) (a :: rest) ↔ expected = a ∧ Matches tokens rest := by
  simp [Matches, eq_comm]

theorem matches_many_drop {k : Nat} (h : Matches (.many :: tokens) (value.drop k)) :
    Matches (.many :: tokens) value := by
  obtain ⟨n, h⟩ := h
  rw [List.drop_drop] at h
  exact ⟨k + n, h⟩

theorem matches_many_iff :
    Matches (.many :: tokens) value ↔
      Matches tokens value ∨ ∃ k, 0 < k ∧ k ≤ value.length ∧ Matches tokens (value.drop k) := by
  constructor
  · rintro ⟨k, h⟩
    cases k with
    | zero => exact .inl h
    | succ k =>
      by_cases hk : k + 1 ≤ value.length
      · exact .inr ⟨k + 1, Nat.succ_pos k, hk, h⟩
      · rw [List.drop_eq_nil_of_le (by omega)] at h
        cases value with
        | nil => exact .inl h
        | cons a value => exact .inr ⟨(a :: value).length, by simp, le_rfl, by rwa [List.drop_length]⟩
  · rintro (h | ⟨k, -, -, h⟩)
    · exact ⟨0, h⟩
    · exact ⟨k, h⟩

theorem matches_nil_iff (tokens : List (Token α)) :
    Matches tokens [] ↔ ∀ token ∈ tokens, token = .many := by
  induction tokens with
  | nil => simp [Matches]
  | cons token tokens ih =>
    cases token with
    | many => simp [Matches, ih]
    | one | literal a => simp [Matches]

-- Without a many token each token takes one element, so what follows starts at a fixed place.
theorem matches_append {first rest : List (Token α)} (hfirst : ∀ token ∈ first, token ≠ .many)
    (h : Matches (first ++ rest) value) :
    first.length ≤ value.length ∧ Matches rest (value.drop first.length) := by
  induction first generalizing value with
  | nil => exact ⟨Nat.zero_le _, h⟩
  | cons token first ih =>
    obtain ⟨htoken, hfirst⟩ := List.forall_mem_cons.mp hfirst
    have hstep : ∃ a remaining, value = a :: remaining ∧ Matches (first ++ rest) remaining := by
      cases token with
      | many => exact absurd rfl htoken
      | one => exact h
      | literal a => exact ⟨a, h⟩
    obtain ⟨a, remaining, rfl, hremaining⟩ := hstep
    obtain ⟨hle, hrest⟩ := ih hfirst hremaining
    exact ⟨Nat.succ_le_succ hle, hrest⟩

structure Cursor (tokens : List (Token α)) (value : List α) where
  token : Nat
  character : Nat
  star : Option Nat
  retry : Nat
  star_lt : ∀ s, star = some s → s < token
  retry_le : retry ≤ character

namespace Cursor
variable {tokens : List (Token α)} {value : List α}

def start (tokens : List (Token α)) (value : List α) : Cursor tokens value where
  token := 0
  character := 0
  star := none
  retry := 0
  star_lt := nofun
  retry_le := le_rfl

def advance (cursor : Cursor tokens value) : Cursor tokens value where
  token := cursor.token + 1
  character := cursor.character + 1
  star := cursor.star
  retry := cursor.retry
  star_lt s h := Nat.lt_succ_of_lt (cursor.star_lt s h)
  retry_le := Nat.le_succ_of_le cursor.retry_le

def remember (cursor : Cursor tokens value) : Cursor tokens value where
  token := cursor.token + 1
  character := cursor.character
  star := some cursor.token
  retry := cursor.character
  star_lt s h := by
    cases h
    exact Nat.lt_succ_self _
  retry_le := le_rfl

def backtrack (cursor : Cursor tokens value) (star : Nat) : Cursor tokens value where
  token := star + 1
  character := cursor.retry + 1
  star := some star
  retry := cursor.retry + 1
  star_lt s h := by
    cases h
    exact Nat.lt_succ_self _
  retry_le := le_rfl

theorem star_le (cursor : Cursor tokens value) :
    cursor.star.elim 0 (· + 1) ≤ cursor.token := by
  cases hstar : cursor.star with
  | none => exact Nat.zero_le _
  | some star => exact cursor.star_lt star hstar

end Cursor

inductive Move where
  | advance
  | remember
  | backtrack

section Answers
variable {tokens : List (Token α)} {value : List α} {cursor : Cursor tokens value}

theorem drop_of_getElem? {i : Nat} {token : Token α} (h : tokens[i]? = some token) :
    tokens.drop i = token :: tokens.drop (i + 1) := by
  obtain ⟨hi, rfl⟩ := List.getElem?_eq_some_iff.mp h
  exact List.drop_eq_getElem_cons hi

structure Sound (cursor : Cursor tokens value) : Prop where
  within : cursor.token ≤ tokens.length
  inside : cursor.character ≤ value.length
  span : ∀ s, cursor.star = some s → cursor.character + s + 1 = cursor.retry + cursor.token
  taken : ∀ s i, cursor.star = some s → s < i → i < cursor.token → tokens[i]? ≠ some .many
  answer : Matches tokens value ↔
    Matches (tokens.drop cursor.token) (value.drop cursor.character) ∨
      ∃ s k, cursor.star = some s ∧ cursor.retry < k ∧ k ≤ value.length ∧
        Matches (tokens.drop (s + 1)) (value.drop k)

theorem sound_start : Sound (.start tokens value) where
  within := Nat.zero_le _
  inside := Nat.zero_le _
  span := by simp [Cursor.start]
  taken := by simp [Cursor.start]
  answer := by simp [Cursor.start]

-- The tokens passed since the star each took one element, so a later start of the star puts
-- the current token at a later element.
theorem Sound.later (h : Sound cursor) {s k : Nat} (hstar : cursor.star = some s)
    (hk : cursor.retry < k) (hle : k ≤ value.length)
    (hmatch : Matches (tokens.drop (s + 1)) (value.drop k)) :
    ∃ n, 0 < n ∧ cursor.character + n ≤ value.length ∧
      Matches (tokens.drop cursor.token) (value.drop (cursor.character + n)) := by
  have hlt := cursor.star_lt s hstar
  have hspan := h.span s hstar
  have hwithin := h.within
  obtain ⟨passed, hpassed⟩ : ∃ passed, cursor.token = s + 1 + passed :=
    ⟨cursor.token - (s + 1), by omega⟩
  have hsplit : (tokens.drop (s + 1)).take passed ++ tokens.drop cursor.token =
      tokens.drop (s + 1) := by
    rw [hpassed, ← List.drop_drop (i := passed), List.take_append_drop]
  have hlength : ((tokens.drop (s + 1)).take passed).length = passed := by
    rw [List.length_take, List.length_drop]
    omega
  have hsingle : ∀ token ∈ (tokens.drop (s + 1)).take passed, token ≠ .many := by
    intro token hmem hmany
    obtain ⟨i, hi, rfl⟩ := List.mem_iff_getElem.mp hmem
    rw [hlength] at hi
    refine h.taken s (s + 1 + i) hstar (by omega) (by omega) ?_
    rw [List.getElem_take, List.getElem_drop] at hmany
    rw [← hmany, List.getElem?_eq_getElem]
  rw [← hsplit] at hmatch
  obtain ⟨hfits, hrest⟩ := matches_append hsingle hmatch
  rw [hlength, List.length_drop] at hfits
  rw [hlength, List.drop_drop] at hrest
  refine ⟨k - cursor.retry, by omega, by omega, ?_⟩
  have hplace : cursor.character + (k - cursor.retry) = k + passed := by omega
  rwa [hplace]

theorem Sound.finished (h : Sound cursor) (hcharacter : ¬cursor.character < value.length) :
    Matches tokens value ↔ ∀ token ∈ tokens.drop cursor.token, token = .many := by
  have hno : ¬∃ s k, cursor.star = some s ∧ cursor.retry < k ∧ k ≤ value.length ∧
      Matches (tokens.drop (s + 1)) (value.drop k) := by
    rintro ⟨s, k, hstar, hk, hle, hmatch⟩
    obtain ⟨n, hpos, hplace, -⟩ := h.later hstar hk hle hmatch
    omega
  rw [h.answer, or_iff_left hno, List.drop_eq_nil_of_le (Nat.not_lt.mp hcharacter),
    matches_nil_iff]

-- A new star forgets the old one: whatever a later start of the old star could still reach,
-- the new one reaches too.
theorem Sound.remember (h : Sound cursor) (hmany : tokens[cursor.token]? = some .many) :
    Sound cursor.remember := by
  have hmatches : Matches tokens value ↔
      Matches (tokens.drop cursor.token) (value.drop cursor.character) := by
    rw [h.answer]
    refine ⟨?_, .inl⟩
    rintro (hmatch | ⟨s, k, hstar, hk, hle, hmatch⟩)
    · exact hmatch
    · obtain ⟨n, -, -, hmatch⟩ := h.later hstar hk hle hmatch
      rw [drop_of_getElem? hmany, ← List.drop_drop (l := value)] at hmatch
      rw [drop_of_getElem? hmany]
      exact matches_many_drop hmatch
  refine ⟨(List.getElem?_eq_some_iff.mp hmany).1, h.inside, ?_, ?_, ?_⟩
  · intro s hstar
    cases hstar
    exact Nat.add_assoc _ _ _
  · intro s i hstar hs hi
    cases hstar
    simp only [Cursor.remember] at hi
    omega
  · rw [hmatches, drop_of_getElem? hmany, matches_many_iff, List.length_drop]
    refine or_congr_right ⟨?_, ?_⟩
    · rintro ⟨k, hpos, hle, hmatch⟩
      rw [List.drop_drop] at hmatch
      exact ⟨cursor.token, cursor.character + k, rfl, Nat.lt_add_of_pos_right hpos, by omega, hmatch⟩
    · rintro ⟨s, k, hstar, hk, hle, hmatch⟩
      cases hstar
      simp only [Cursor.remember] at hk
      refine ⟨k - cursor.character, by omega, by omega, ?_⟩
      rwa [List.drop_drop, Nat.add_sub_cancel' hk.le]

end Answers

section Search
variable [DecidableEq α]

def move : Option (Token α) → α → Move
  | some (.literal expected), a => if expected = a then .advance else .backtrack
  | some .one, _ => .advance
  | some .many, _ => .remember
  | none, _ => .backtrack

theorem move_remember {token : Option (Token α)} {a : α} (h : move token a = .remember) :
    token = some .many := by
  rcases token with _ | _ | _ | expected
  · cases h
  · rfl
  · cases h
  · rw [move] at h
    split_ifs at h

def skipMany (tokens : List (Token α)) (token : Nat) : Nat :=
  if h : tokens[token]? = some .many then skipMany tokens (token + 1) else token
termination_by tokens.length - token
decreasing_by
  have htoken := (List.getElem?_eq_some_iff.mp h).1
  omega

def search (tokens : List (Token α)) (value : List α) (cursor : Cursor tokens value) : Bool :=
  if h : cursor.character < value.length then
    match hmove : move tokens[cursor.token]? value[cursor.character] with
    | .advance => search tokens value cursor.advance
    | .remember => search tokens value cursor.remember
    | .backtrack =>
      match hstar : cursor.star with
      | some star => search tokens value (cursor.backtrack star)
      | none => false
  else skipMany tokens cursor.token = tokens.length
termination_by (tokens.length - cursor.star.elim 0 (· + 1), value.length - cursor.retry,
  value.length - cursor.character)
decreasing_by
  · refine Prod.Lex.right _ (Prod.Lex.right _ ?_)
    simp only [Cursor.advance]
    omega
  · refine Prod.Lex.left _ _ ?_
    have htoken := (List.getElem?_eq_some_iff.mp (move_remember hmove)).1
    have hstar := cursor.star_le
    simp only [Cursor.remember, Option.elim_some]
    omega
  · have hretry := cursor.retry_le
    simp only [Cursor.backtrack, hstar]
    refine Prod.Lex.right _ (Prod.Lex.left _ _ ?_)
    omega

section Steps
variable {tokens : List (Token α)} {value : List α} {cursor : Cursor tokens value}

theorem matches_advance {i : Nat} {a : α} (rest : List α) (h : move tokens[i]? a = .advance) :
    i < tokens.length ∧ tokens[i]? ≠ some .many ∧
      (Matches (tokens.drop i) (a :: rest) ↔ Matches (tokens.drop (i + 1)) rest) := by
  cases htoken : tokens[i]? with
  | none =>
    rw [htoken] at h
    cases h
  | some token =>
    have hi := (List.getElem?_eq_some_iff.mp htoken).1
    rw [htoken] at h
    rw [drop_of_getElem? htoken]
    cases token with
    | many => cases h
    | one => exact ⟨hi, by simp, matches_one_cons⟩
    | literal expected =>
      rw [move] at h
      split_ifs at h with heq
      exact ⟨hi, by simp, matches_literal_cons.trans (and_iff_right heq)⟩

theorem not_matches_backtrack {i : Nat} {a : α} (rest : List α)
    (h : move tokens[i]? a = .backtrack) : ¬Matches (tokens.drop i) (a :: rest) := by
  cases htoken : tokens[i]? with
  | none =>
    rw [List.drop_eq_nil_of_le (List.getElem?_eq_none_iff.mp htoken)]
    exact List.cons_ne_nil a rest
  | some token =>
    rw [htoken] at h
    rw [drop_of_getElem? htoken]
    cases token with
    | many | one => cases h
    | literal expected =>
      rw [move] at h
      split_ifs at h with heq
      exact fun hmatch => heq (matches_literal_cons.mp hmatch).1

theorem Sound.advance (h : Sound cursor) (hcharacter : cursor.character < value.length)
    (hmove : move tokens[cursor.token]? value[cursor.character] = .advance) :
    Sound cursor.advance := by
  obtain ⟨htoken, hsingle, hmatches⟩ :=
    matches_advance (value.drop (cursor.character + 1)) hmove
  rw [← List.drop_eq_getElem_cons hcharacter] at hmatches
  refine ⟨htoken, hcharacter, ?_, ?_, ?_⟩
  · intro s hstar
    have hspan := h.span s hstar
    simp only [Cursor.advance]
    omega
  · intro s i hstar hs hi
    rcases Nat.lt_succ_iff_lt_or_eq.mp hi with hi | rfl
    · exact h.taken s i hstar hs hi
    · exact hsingle
  · rw [h.answer, hmatches]
    rfl

theorem Sound.backtrack (h : Sound cursor) (hcharacter : cursor.character < value.length)
    (hmove : move tokens[cursor.token]? value[cursor.character] = .backtrack) {star : Nat}
    (hstar : cursor.star = some star) : Sound (cursor.backtrack star) := by
  have hretry := cursor.retry_le
  have hlt := cursor.star_lt star hstar
  have hno := not_matches_backtrack (value.drop (cursor.character + 1)) hmove
  rw [← List.drop_eq_getElem_cons hcharacter] at hno
  refine ⟨Nat.le_trans hlt h.within, Nat.lt_of_le_of_lt hretry hcharacter, ?_, ?_, ?_⟩
  · intro s heq
    cases heq
    exact Nat.add_assoc _ _ _
  · intro s i heq hs hi
    cases heq
    simp only [Cursor.backtrack] at hi
    omega
  · rw [h.answer, or_iff_right hno]
    constructor
    · rintro ⟨s, k, heq, hk, hle, hmatch⟩
      obtain rfl := Option.some.inj (hstar.symm.trans heq)
      rcases Nat.eq_or_lt_of_le hk with rfl | hk
      · exact .inl hmatch
      · exact .inr ⟨star, k, rfl, hk, hle, hmatch⟩
    · rintro (hmatch | ⟨s, k, heq, hk, hle, hmatch⟩)
      · exact ⟨star, cursor.retry + 1, hstar, Nat.lt_succ_self _, by omega, hmatch⟩
      · cases heq
        exact ⟨star, k, hstar, Nat.lt_of_succ_lt hk, hle, hmatch⟩

theorem Sound.failed (h : Sound cursor) (hcharacter : cursor.character < value.length)
    (hmove : move tokens[cursor.token]? value[cursor.character] = .backtrack)
    (hstar : cursor.star = none) : ¬Matches tokens value := by
  have hno := not_matches_backtrack (value.drop (cursor.character + 1)) hmove
  rw [← List.drop_eq_getElem_cons hcharacter] at hno
  rw [h.answer, or_iff_right hno]
  rintro ⟨s, -, heq, -⟩
  exact absurd (hstar.symm.trans heq) (by simp)

theorem skipMany_eq_length {token : Nat} (h : token ≤ tokens.length) :
    skipMany tokens token = tokens.length ↔ ∀ t ∈ tokens.drop token, t = .many := by
  fun_induction skipMany tokens token with
  | case1 token hmany ih =>
    rw [ih (List.getElem?_eq_some_iff.mp hmany).1, drop_of_getElem? hmany]
    simp
  | case2 token hstop =>
    rcases Nat.eq_or_lt_of_le h with rfl | hlt
    · simp
    · rw [List.drop_eq_getElem_cons hlt]
      rw [List.getElem?_eq_getElem hlt] at hstop
      refine iff_of_false hlt.ne fun hall => hstop ?_
      rw [hall _ List.mem_cons_self]

theorem search_iff (h : Sound cursor) : search tokens value cursor = true ↔ Matches tokens value := by
  fun_induction search tokens value cursor with
  | case1 cursor hcharacter hmove ih => exact ih (h.advance hcharacter hmove)
  | case2 cursor hcharacter hmove ih => exact ih (h.remember (move_remember hmove))
  | case3 cursor hcharacter hmove star hstar ih =>
    exact ih (h.backtrack hcharacter hmove hstar)
  | case4 cursor hcharacter hmove hstar =>
    exact iff_of_false Bool.false_ne_true (h.failed hcharacter hmove hstar)
  | case5 cursor hcharacter =>
    rw [h.finished hcharacter, decide_eq_true_iff, skipMany_eq_length h.within]

end Steps
end Search

end Wildcard
