import MonetdbAdbc.Sql.Effects
import MonetdbAdbc.Sql.Lexemes

namespace MonetdbAdbc.Sql
open LittleEndian Text Lexing
open scoped Computability

def asciiSpace : Language UInt8 := {text | ∃ b, AsciiNumber.isWhitespace b = true ∧ text = [b]}

def wideSpace : Language UInt8 :=
  {text | (∃ a, isSpace₁ a = true ∧ text = [a]) ∨ (∃ a b, isSpace₂ a b = true ∧ text = [a, b]) ∨
    ∃ a b c, isSpace₃ a b c = true ∧ text = [a, b, c]}

def openLine : Language UInt8 :=
  {text | ∃ mark body, (mark = [45, 45] ∨ mark = [35]) ∧ 10 ∉ body ∧ text = mark ++ body}

def lineComment : Language UInt8 := {text | ∃ opened ∈ openLine, text = opened ++ [10]}

def blockComment : Language UInt8 :=
  {text | ∃ body, ¬[42, 47] <:+: body ∧ text = 47 :: 42 :: (body ++ [42, 47])}

def comment : Language UInt8 := lineComment + blockComment

def blank : Language UInt8 := (asciiSpace + comment)∗

def wideBlank : Language UInt8 := (wideSpace + comment)∗

section Skipping
variable {text : Bytes}

theorem skipBlank_space {b : UInt8} (h : AsciiNumber.isWhitespace b = true) (rest : Bytes) :
    skipBlank .blank (b :: rest) = skipBlank .blank rest := by
  rw [skipBlank, if_pos h]

theorem skipBlank_line {body : Bytes} (h : 10 ∉ body) (rest : Bytes) :
    skipBlank .line (body ++ 10 :: rest) = skipBlank .blank rest := by
  induction body with
  | nil => simp [skipBlank]
  | cons b body ih =>
    rw [List.mem_cons, not_or] at h
    rw [List.cons_append, skipBlank, if_neg (Ne.symm h.1)]
    exact ih h.2

theorem skipBlank_line_end {body : Bytes} (h : 10 ∉ body) : skipBlank .line body = some [] := by
  induction body with
  | nil => rfl
  | cons b body ih =>
    rw [List.mem_cons, not_or] at h
    rw [skipBlank, if_neg (Ne.symm h.1)]
    exact ih h.2

theorem skipBlank_mark {mark : Bytes} (h : mark = [45, 45] ∨ mark = [35]) (rest : Bytes) :
    skipBlank .blank (mark ++ rest) = skipBlank .line rest := by
  rcases h with rfl | rfl
  · rfl
  · rfl

theorem skipBlank_block {body : Bytes} (h : ¬[42, 47] <:+: body) (rest : Bytes) :
    skipBlank .block (body ++ 42 :: 47 :: rest) = skipBlank .blank rest := by
  induction body with
  | nil => rfl
  | cons b body ih =>
    have hopen : ¬(b = 42 ∧ (body ++ 42 :: 47 :: rest).head? = some 47) := by
      rintro ⟨rfl, hnext⟩
      cases body with
      | nil => cases hnext
      | cons c body =>
        obtain rfl : c = 47 := by simpa using hnext
        exact h ⟨[], body, rfl⟩
    rw [List.cons_append, skipBlank, if_neg hopen]
    exact ih fun hwithin => h (hwithin.trans (List.suffix_cons b body).isInfix)

theorem skipBlank_comment (h : text ∈ comment) (rest : Bytes) :
    skipBlank .blank (text ++ rest) = skipBlank .blank rest := by
  rcases h with ⟨_, ⟨mark, body, hmark, hbody, rfl⟩, rfl⟩ | ⟨body, hbody, rfl⟩
  · rw [List.append_assoc, List.append_assoc, skipBlank_mark hmark]
    exact skipBlank_line hbody rest
  · rw [List.cons_append, List.cons_append, List.append_assoc]
    exact skipBlank_block hbody rest

theorem skipBlank_blank (h : text ∈ blank) (rest : Bytes) :
    skipBlank .blank (text ++ rest) = skipBlank .blank rest := by
  refine star_induction (P := fun text => skipBlank .blank (text ++ rest) = skipBlank .blank rest)
    rfl ?_ h
  intro piece hpiece text _ ih
  rw [List.append_assoc]
  rcases hpiece with ⟨b, hb, rfl⟩ | hcomment
  · exact (skipBlank_space hb _).trans ih
  · exact (skipBlank_comment hcomment _).trans ih

theorem splitKeyword_of_skipBlank {rest : Bytes}
    (h : skipBlank .blank text = skipBlank .blank rest) :
    splitKeyword text = splitKeyword rest := by
  rw [splitKeyword, splitKeyword, h]

theorem splitKeyword_blank (h : text ∈ blank) (rest : Bytes) :
    splitKeyword (text ++ rest) = splitKeyword rest :=
  splitKeyword_of_skipBlank (skipBlank_blank h rest)

end Skipping

section Words

theorem isKeywordByte_continue {b : UInt8} (h : isKeywordByte b = true) :
    isIdentifierContinue b = true := by
  rw [isIdentifierContinue, Bool.or_eq_true]
  exact .inl h

theorem skipBlank_letter {b : UInt8} (h : isKeywordByte b = true) (rest : Bytes) :
    skipBlank .blank (b :: rest) = some (b :: rest) := by
  have hne := isIdentifierStart_ne h
  simp [skipBlank, isIdentifierStart_space h, hne 45 (by decide), hne 35 (by decide), hne 47 (by decide)]

def Breaks (rest : Bytes) : Prop := rest.takeWhile isKeywordByte = []

theorem splitKeyword_word {word rest : Bytes} (hne : word ≠ []) (hword : word.all isKeywordByte = true)
    (hrest : Breaks rest) : splitKeyword (word ++ rest) = some (word, rest) := by
  have htake : (word ++ rest).takeWhile isKeywordByte = word := by
    rw [List.takeWhile_append_of_pos (by simpa using hword), hrest, List.append_nil]
  cases word with
  | nil => exact absurd rfl hne
  | cons b word =>
    have hb : isKeywordByte b = true := by simp_all
    rw [splitKeyword, List.cons_append, skipBlank_letter hb, ← List.cons_append]
    simp only [bind, Option.bind_some, htake, List.drop_left]
    rfl

theorem splitKeyword_breaks {rest : Bytes} {code : Bytes} (h : skipBlank .blank rest = some code)
    (hcode : Breaks code) : splitKeyword rest = none := by
  rw [splitKeyword, h]
  simp only [bind, Option.bind_some]
  rw [show code.takeWhile isKeywordByte = [] from hcode]
  rfl

theorem isAlphabetic_of_toUppercase {b c : UInt8} (h : toUppercase b = toUppercase c)
    (hc : isAlphabetic c = true) : isAlphabetic b = true := by
  simp only [toUppercase, isAlphabetic, isUppercase, isLowercase, Bool.or_eq_true, Bool.and_eq_true,
    decide_eq_true_eq] at h hc ⊢
  split_ifs at h <;>
    simp only [UInt8.le_iff_toNat_le, ← UInt8.toNat_inj, UInt8.toNat_sub, UInt8.reduceToNat] at * <;>
    omega

theorem keyword_letters {word : Bytes} {keyword : String}
    (hkeyword : (ascii keyword).all isAlphabetic = true) (h : isKeyword word keyword = true) :
    word.all isKeywordByte = true := by
  rw [isKeyword, eqIgnoreCase, beq_iff_eq] at h
  generalize ascii keyword = letters at hkeyword h
  induction word generalizing letters with
  | nil => rfl
  | cons b word ih =>
    cases letters with
    | nil => simp at h
    | cons c letters =>
      simp only [List.map_cons, List.cons.injEq] at h
      simp only [List.all_cons, Bool.and_eq_true] at hkeyword ⊢
      have hb := isAlphabetic_of_toUppercase h.1 hkeyword.1
      exact ⟨by simp [isKeywordByte, hb], ih letters hkeyword.2 h.2⟩

theorem keyword_ne_nil {word : Bytes} {keyword : String} (hkeyword : ascii keyword ≠ [])
    (h : isKeyword word keyword = true) : word ≠ [] := by
  rintro rfl
  rw [isKeyword, eqIgnoreCase, beq_iff_eq] at h
  exact hkeyword (List.map_eq_nil_iff.mp h.symm)

end Words

end MonetdbAdbc.Sql
