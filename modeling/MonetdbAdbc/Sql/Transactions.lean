import MonetdbAdbc.Sql.Blank
import MonetdbAdbc.Sql.Normalize

namespace MonetdbAdbc.Sql
open LittleEndian Text Lexing
open scoped Computability

section Precheck
variable {query statement needle : Bytes} {isAlphanumeric : Bytes → Bool}

theorem skipBlank_suffix {mode : BlankMode} {text code : Bytes} (h : skipBlank mode text = some code) :
    code <:+ text := by
  induction text generalizing mode with
  | nil =>
    cases mode with
    | blank | line =>
      cases h
      exact List.suffix_rfl
    | opened | block | closed => cases h
  | cons b rest ih =>
    have hrest {other : BlankMode} (hother : skipBlank other rest = some code) : code <:+ b :: rest :=
      (ih hother).trans (List.suffix_cons b rest)
    cases mode with
    | blank =>
      rw [skipBlank] at h
      split_ifs at h
      · exact hrest h
      · exact hrest h
      · exact hrest h
      · exact hrest h
      · cases h
        exact List.suffix_rfl
    | line | block =>
      rw [skipBlank] at h
      split_ifs at h
      · exact hrest h
      · exact hrest h
    | opened | closed => exact hrest h

theorem splitKeyword_within {keyword rest : Bytes}
    (h : splitKeyword statement = some (keyword, rest)) : keyword <:+: statement := by
  rw [splitKeyword] at h
  cases hcode : skipBlank .blank statement with
  | none => simp [hcode] at h
  | some code =>
    simp only [hcode, bind, Option.bind_some] at h
    split_ifs at h
    obtain ⟨rfl, -⟩ := Prod.mk.inj (Option.some.inj h)
    exact (List.takeWhile_prefix _).isInfix.trans (skipBlank_suffix hcode).isInfix

theorem trim_within (text : Bytes) : trim text <:+: text := by
  obtain ⟨dropped, hdropped, -⟩ := dropSpace_append isSpace₁ isSpace₂ isSpace₃
    (P := fun _ => True) (by simp) (by simp) (by simp) text
  obtain ⟨tail, htail, -⟩ := trimEnd_append (trimStart text)
  have hstart : trimStart text <:+ text := ⟨dropped, hdropped.symm⟩
  have hend : trim text <+: trimStart text := ⟨tail, htail.symm⟩
  exact hend.isInfix.trans hstart.isInfix

theorem slice_within (query : Bytes) (range : Nat × Nat) : slice query range <:+: query :=
  (List.drop_suffix _ _).isInfix.trans (List.take_prefix _ _).isInfix

theorem containsIgnoreCase_of_within {haystack word : Bytes} (hwithin : word <:+: haystack)
    (h : eqIgnoreCase word needle = true) : containsIgnoreCase haystack needle = true := by
  obtain ⟨before, after, rfl⟩ := hwithin
  have hlength : needle.length = word.length := by
    rw [eqIgnoreCase, beq_iff_eq] at h
    simpa using (congrArg List.length h).symm
  rw [containsIgnoreCase, List.any_eq_true]
  refine ⟨word ++ after, ?_, ?_⟩
  · rw [List.mem_tails]
    exact ⟨before, by rw [List.append_assoc]⟩
  · rwa [hlength, List.take_left]

theorem containsIgnoreCase_of_split {haystack keyword rest : Bytes}
    (hstatement : statement <:+: haystack)
    (hsplit : splitKeyword statement = some (keyword, rest))
    (h : eqIgnoreCase keyword needle = true) : containsIgnoreCase haystack needle = true :=
  containsIgnoreCase_of_within ((splitKeyword_within hsplit).trans hstatement) h

def scriptEffects (statements : List Bytes) : TransactionEffects :=
  (statements.map statementEffects).foldl TransactionEffects.merge .default

theorem foldl_merge (effects : TransactionEffects) (all : List TransactionEffects) :
    all.foldl TransactionEffects.merge effects =
      ⟨effects.commit || all.any (·.commit), effects.rollback || all.any (·.rollback)⟩ := by
  induction all generalizing effects with
  | nil => simp
  | cons other all ih => simp [ih, TransactionEffects.merge, Bool.or_assoc]

theorem scriptEffects_eq (statements : List Bytes) :
    scriptEffects statements =
      ⟨statements.any fun statement =>
          (leadingSqlKeyword statement).any (isKeyword · "COMMIT"),
        statements.any isTransactionRollback⟩ := by
  simp [scriptEffects, foldl_merge, TransactionEffects.default, statementEffects, List.any_map,
    Function.comp_def]

theorem eqIgnoreCase_of_isKeyword {word : Bytes} {keyword : String}
    (hneedle : (ascii keyword).map toUppercase = needle.map toUppercase)
    (h : isKeyword word keyword = true) : eqIgnoreCase word needle = true := by
  rwa [isKeyword, eqIgnoreCase, hneedle] at h

theorem contains_commit (hstatement : statement <:+: query)
    (h : (leadingSqlKeyword statement).any (isKeyword · "COMMIT") = true) :
    containsIgnoreCase query (ascii "commit") = true := by
  rw [leadingSqlKeyword] at h
  cases hsplit : splitKeyword statement with
  | none => simp [hsplit] at h
  | some split =>
    have hcommit : isKeyword split.1 "COMMIT" = true := by simpa [hsplit] using h
    exact containsIgnoreCase_of_split hstatement hsplit
      (eqIgnoreCase_of_isKeyword (by decide) hcommit)

theorem contains_rollback (hstatement : statement <:+: query)
    (h : isTransactionRollback statement = true) :
    containsIgnoreCase query (ascii "rollback") = true := by
  rw [isTransactionRollback] at h
  cases hsplit : splitKeyword statement with
  | none => simp [hsplit] at h
  | some split =>
    simp only [hsplit, Bool.and_eq_true] at h
    exact containsIgnoreCase_of_split hstatement hsplit h.1

theorem scriptEffects_default {statements : List Bytes}
    (hstatements : ∀ statement ∈ statements, statement <:+: query)
    (hcommit : containsIgnoreCase query (ascii "commit") = false)
    (hrollback : containsIgnoreCase query (ascii "rollback") = false) :
    scriptEffects statements = .default := by
  rw [scriptEffects_eq, TransactionEffects.default, TransactionEffects.mk.injEq, List.any_eq_false,
    List.any_eq_false]
  refine ⟨fun statement hmem h => ?_, fun statement hmem h => ?_⟩
  · rw [contains_commit (hstatements statement hmem) h] at hcommit
    cases hcommit
  · rw [contains_rollback (hstatements statement hmem) h] at hrollback
    cases hrollback

theorem transactionEffects_of_statements {statements : List Bytes}
    (h : unboundStatements isAlphanumeric query = .ok statements) :
    transactionEffects isAlphanumeric query = .ok (scriptEffects statements) := by
  rw [transactionEffects]
  split_ifs with hcheck
  · obtain ⟨scan, -, -, -, rfl⟩ := unboundStatements_eq_ok.mp h
    rw [Bool.and_eq_true, Bool.not_eq_true', Bool.not_eq_true'] at hcheck
    rw [scriptEffects_default (fun statement hmem => ?_) hcheck.1 hcheck.2]
    obtain ⟨range, -, rfl⟩ := List.mem_map.mp hmem
    exact (trim_within _).trans (slice_within query range)
  · rw [h]
    rfl

end Precheck

section Leading
variable {b : UInt8} {word : Bytes} {isAlphanumeric : Bytes → Bool}

theorem trimStart_space (h : isSpace₁ b = true) (rest : Bytes) :
    trimStart (b :: rest) = trimStart rest := by
  cases rest with
  | nil => simp [trimStart, dropSpace, h]
  | cons c rest => cases rest <;> simp [trimStart, dropSpace, h]

theorem trimStart_plain (hspace : isSpace₁ b = false) (hascii : b < 0x80) (rest : Bytes) :
    trimStart (b :: rest) = b :: rest := by
  have hne : ∀ c : UInt8, 0x80 ≤ c → (b == c) = false := by
    intro c hc
    rw [beq_eq_false_iff_ne]
    rintro rfl
    exact absurd hascii (UInt8.not_lt.mpr hc)
  have hwide : ∀ c, isSpace₂ b c = false := by
    intro c
    simp [isSpace₂, hne 0xC2 (by decide)]
  have hwider : ∀ c d, isSpace₃ b c d = false := by
    intro c d
    simp [isSpace₃, hne 0xE1 (by decide), hne 0xE2 (by decide), hne 0xE3 (by decide)]
  cases rest with
  | nil => simp [trimStart, dropSpace, hspace]
  | cons c rest =>
    cases rest with
    | nil => simp [trimStart, dropSpace, hspace, hwide]
    | cons d rest => simp [trimStart, dropSpace, hspace, hwide, hwider]

theorem comment_head {text : Bytes} (h : text ∈ comment) :
    ∃ b rest, text = b :: rest ∧ (b = 45 ∨ b = 35 ∨ b = 47) := by
  rcases h with ⟨_, ⟨mark, body, rfl | rfl, -, rfl⟩, rfl⟩ | ⟨body, -, rfl⟩
  · exact ⟨45, _, rfl, .inl rfl⟩
  · exact ⟨35, _, rfl, .inr (.inl rfl)⟩
  · exact ⟨47, _, rfl, .inr (.inr rfl)⟩

theorem keywordByte_plain (h : isKeywordByte b = true) : isTrailing b = false := by
  cases htrailing : isTrailing b with
  | false => rfl
  | true =>
    have hfollowing : isFollowing b = true := by simp [isFollowing, htrailing]
    exact absurd h (by simp [isFollowing_not_keyword hfollowing])

theorem trimStart_blank {lead : Bytes} (h : lead ∈ blank) (hb : isKeywordByte b = true)
    (rest : Bytes) : ∃ kept ∈ blank, trimStart (lead ++ b :: rest) = kept ++ b :: rest := by
  refine star_induction (P := fun lead => ∃ kept ∈ blank,
    trimStart (lead ++ b :: rest) = kept ++ b :: rest) ?_ ?_ h
  · have hplain := keywordByte_plain hb
    simp only [isTrailing, Bool.or_eq_false_iff, decide_eq_false_iff_not, UInt8.not_le] at hplain
    exact ⟨[], Language.nil_mem_kstar _, trimStart_plain hplain.1 hplain.2 rest⟩
  · rintro piece hpiece text htext ⟨kept, hkept, heq⟩
    rcases hpiece with ⟨c, hc, rfl⟩ | hcomment
    · have hspace : isSpace₁ c = true := by
        have hcases : c = 32 ∨ c = 9 ∨ c = 10 ∨ c = 12 ∨ c = 13 := by
          simpa [AsciiNumber.isWhitespace, or_assoc] using hc
        rcases hcases with rfl | rfl | rfl | rfl | rfl <;> decide
      exact ⟨kept, hkept, (trimStart_space hspace _).trans heq⟩
    · refine ⟨piece ++ text, append_mem_star (mem_star (.inr hcomment)) htext, ?_⟩
      obtain ⟨c, body, rfl, hc⟩ := comment_head hcomment
      rcases hc with rfl | rfl | rfl
      · exact trimStart_plain (by decide) (by decide) _
      · exact trimStart_plain (by decide) (by decide) _
      · exact trimStart_plain (by decide) (by decide) _

theorem trimEnd_word (before : Bytes) (hne : word ≠ []) (hword : word.all isKeywordByte = true)
    (rest : Bytes) :
    ∃ kept, kept <+: rest ∧ trimEnd (before ++ (word ++ rest)) = before ++ (word ++ kept) := by
  obtain ⟨tail, htail, htrailing⟩ := trimEnd_append (before ++ (word ++ rest))
  rw [← List.append_assoc] at htail
  rcases List.append_eq_append_iff.mp htail with ⟨kept, hkept, hrest⟩ | ⟨cut, hcut, hrest⟩
  · refine ⟨kept, ⟨tail, hrest.symm⟩, ?_⟩
    rw [← List.append_assoc, ← List.append_assoc, hkept]
  · have hnil : cut = [] := by
      by_contra hcutne
      have hlast : cut.getLast hcutne = word.getLast hne := by
        have hwhole := congrArg List.getLast? hcut
        rw [List.getLast?_append_of_ne_nil _ hne, List.getLast?_append_of_ne_nil _ hcutne,
          List.getLast?_eq_some_getLast hne, List.getLast?_eq_some_getLast hcutne] at hwhole
        exact (Option.some.inj hwhole).symm
      have hletter := keywordByte_plain
        (List.all_eq_true.mp hword _ (List.getLast_mem hne))
      rw [← hlast, htrailing _ (hrest ▸ List.mem_append_left _ (List.getLast_mem hcutne))] at hletter
      cases hletter
    refine ⟨[], List.nil_prefix, ?_⟩
    rw [hnil, List.append_nil] at hcut
    rw [← List.append_assoc, List.append_nil, ← hcut]

theorem Breaks.of_prefix {kept rest : Bytes} (h : Breaks rest) (hkept : kept <+: rest) :
    Breaks kept := by
  obtain ⟨tail, rfl⟩ := hkept
  cases kept with
  | nil => rfl
  | cons b kept =>
    rw [Breaks, List.cons_append, List.takeWhile_cons] at h
    rw [Breaks, List.takeWhile_cons]
    split_ifs at h ⊢
    rfl

theorem leadingSqlKeyword_trim {lead rest : Bytes} (hlead : lead ∈ blank) (hne : word ≠ [])
    (hword : word.all isKeywordByte = true) (hrest : Breaks rest) :
    leadingSqlKeyword (trim (lead ++ (word ++ rest))) = some word := by
  obtain ⟨b, letters, rfl⟩ := List.exists_cons_of_ne_nil hne
  have hb : isKeywordByte b = true := by simp_all
  obtain ⟨before, hbefore, hstart⟩ := trimStart_blank hlead hb (letters ++ rest)
  obtain ⟨kept, hkept, hend⟩ := trimEnd_word before hne hword rest
  rw [leadingSqlKeyword, trim, List.cons_append, hstart, ← List.cons_append, hend,
    splitKeyword_blank hbefore, splitKeyword_word hne hword (hrest.of_prefix hkept)]
  rfl

def BeginsWithWord (isAlphanumeric : Bytes → Bool) (statement word : Bytes) : Prop :=
  ∃ lead b rest previous length, lead ∈ blank ∧ statement = lead ++ b :: rest ∧
    lex isAlphanumeric .normal previous b rest = .ok ⟨.word word, length, .normal⟩

theorem BeginsWithWord.split {statement : Bytes}
    (h : BeginsWithWord isAlphanumeric statement word) :
    ∃ lead ∈ blank, ∃ rest, statement = lead ++ (word ++ rest) ∧ Breaks rest := by
  obtain ⟨lead, b, rest, previous, length, hlead, rfl, hlex⟩ := h
  refine ⟨lead, hlead, rest.dropWhile isIdentifierContinue, ?_, ?_⟩
  · obtain ⟨-, h⟩ | ⟨-, h⟩ | ⟨-, h⟩ | ⟨-, h⟩ := lexNormal_plain isAlphanumeric hlex rfl rfl
    · cases h
    · cases h
    · obtain ⟨rfl, -⟩ := Lexeme.mk.inj h |>.imp (fun h => Token.word.inj h) id
      rw [List.cons_append, List.takeWhile_append_dropWhile]
    · cases h
  · cases hdrop : rest.dropWhile isIdentifierContinue with
    | nil => rfl
    | cons c after =>
      have hc : isIdentifierContinue c = false := by
        have hhead := List.head_dropWhile_not isIdentifierContinue
          (by rw [hdrop]; exact List.cons_ne_nil c after)
        simpa [hdrop] using hhead
      have hletter : isKeywordByte c = false := by
        cases hkeyword : isKeywordByte c with
        | false => rfl
        | true => exact hc ▸ (isKeywordByte_continue hkeyword).symm
      simp [Breaks, hletter]

theorem commit_recognised {statement : Bytes} (h : BeginsWithWord isAlphanumeric statement word)
    (hword : isKeyword word "COMMIT" = true) :
    (leadingSqlKeyword (trim statement)).any (isKeyword · "COMMIT") = true := by
  obtain ⟨lead, hlead, rest, rfl, hrest⟩ := h.split
  rw [leadingSqlKeyword_trim hlead (keyword_ne_nil (by decide) hword)
    (keyword_letters (by decide) hword) hrest]
  exact hword

end Leading

section Rollback
variable {rest : Bytes} {words : List (Bytes × Bytes)}

def phrase : List (Bytes × Bytes) → Bytes
  | [] => []
  | (separator, word) :: words => separator ++ (word ++ phrase words)

def Spelled (words : List (Bytes × Bytes)) (keywords : List String) : Prop :=
  List.Forall₂ (fun word keyword => isKeyword word.2 keyword = true) words keywords

def rollbackOptions : List (List String) :=
  [[], ["WORK"], ["AND", "CHAIN"], ["AND", "NO", "CHAIN"], ["WORK", "AND", "CHAIN"],
    ["WORK", "AND", "NO", "CHAIN"]]

structure RollbackCommand where
  lead : Bytes
  keyword : Bytes
  options : List (Bytes × Bytes)
  savepoint : List (Bytes × Bytes)
  tail : Bytes
  lead_blank : lead ∈ blank
  keyword_spelled : isKeyword keyword "ROLLBACK" = true
  options_spelled : ∃ keywords ∈ rollbackOptions, Spelled options keywords
  savepoint_spelled :
    savepoint = [] ∨ ∃ words name, savepoint = words ++ [name] ∧ Spelled words ["TO", "SAVEPOINT"]
  separated : ∀ word ∈ options ++ savepoint, word.1 ∈ wideBlank ∧ word.1 ≠ []
  tail_blank : tail ∈ wideBlank + wideBlank * openLine

def RollbackCommand.text (command : RollbackCommand) : Bytes :=
  command.lead ++ (command.keyword ++
    (phrase command.options ++ (phrase command.savepoint ++ command.tail)))

theorem wideSpace_cases {text : Bytes} (h : text ∈ wideSpace) :
    text ∈ asciiSpace ∨ ∃ b rest, text = b :: rest ∧ AsciiNumber.isWhitespace b = false ∧
      isTrailing b = true := by
  have hsplit : ∀ b rest, text = b :: rest → isTrailing b = true → (rest = [] ∨ 0x80 ≤ b) →
      text ∈ asciiSpace ∨ ∃ b rest, text = b :: rest ∧ AsciiNumber.isWhitespace b = false ∧
        isTrailing b = true := by
    rintro b rest rfl hb hrest
    cases hspace : AsciiNumber.isWhitespace b with
    | false => exact .inr ⟨b, rest, rfl, hspace, hb⟩
    | true =>
      rcases hrest with rfl | hwide
      · exact .inl ⟨b, hspace, rfl⟩
      · have hcases : b = 32 ∨ b = 9 ∨ b = 10 ∨ b = 12 ∨ b = 13 := by
          simpa [AsciiNumber.isWhitespace, or_assoc] using hspace
        rcases hcases with rfl | rfl | rfl | rfl | rfl <;> exact absurd hwide (by decide)
  rcases h with ⟨a, ha, rfl⟩ | ⟨a, b, hab, rfl⟩ | ⟨a, b, c, habc, rfl⟩
  · exact hsplit a [] rfl (isTrailing_of_space₁ ha) (.inl rfl)
  · refine hsplit a [b] rfl (isTrailing_of_space₂ hab).1 (.inr ?_)
    simp only [isSpace₂, Bool.and_eq_true, beq_iff_eq] at hab
    rw [hab.1]
    decide
  · refine hsplit a [b, c] rfl (isTrailing_of_space₃ habc).1 (.inr ?_)
    simp only [isSpace₃, Bool.and_eq_true, Bool.or_eq_true, beq_iff_eq] at habc
    obtain ((⟨⟨rfl, -⟩, -⟩ | ⟨⟨rfl, -⟩, -⟩) | ⟨⟨rfl, -⟩, -⟩) | ⟨⟨rfl, -⟩, -⟩ := habc <;> decide

theorem trailing_breaks {b : UInt8} (h : isTrailing b = true) (rest : Bytes) : Breaks (b :: rest) := by
  have hb : isKeywordByte b = false :=
    isFollowing_not_keyword (by simp [isFollowing, h])
  simp [Breaks, hb]

theorem skipBlank_stop {b : UInt8} (hspace : AsciiNumber.isWhitespace b = false)
    (h : isTrailing b = true) (rest : Bytes) :
    skipBlank .blank (b :: rest) = some (b :: rest) := by
  obtain ⟨hdash, hhash, hslash, -⟩ := isFollowing_ne (by simp [isFollowing, h] : isFollowing b = true)
  simp [skipBlank, hspace, hdash, hhash, hslash]

theorem wideBlank_cases {text : Bytes} (h : text ∈ wideBlank) :
    text ∈ blank ∨ ∀ rest, splitKeyword (text ++ rest) = none := by
  refine star_induction (P := fun text => text ∈ blank ∨
    ∀ rest, splitKeyword (text ++ rest) = none) (.inl (Language.nil_mem_kstar _)) ?_ h
  intro piece hpiece text _ ih
  have hplain : piece ∈ asciiSpace + comment → piece ++ text ∈ blank ∨
      ∀ rest, splitKeyword (piece ++ text ++ rest) = none := by
    intro hpiece
    refine ih.imp (append_mem_star (mem_star hpiece)) fun hnone rest => ?_
    rw [List.append_assoc, splitKeyword_blank (mem_star hpiece)]
    exact hnone rest
  rcases hpiece with hspace | hcomment
  · rcases wideSpace_cases hspace with hascii | ⟨b, rest, rfl, hb, htrailing⟩
    · exact hplain (.inl hascii)
    · refine .inr fun after => ?_
      exact splitKeyword_breaks (skipBlank_stop hb htrailing _) (trailing_breaks htrailing _)
  · exact hplain (.inr hcomment)

theorem wideBlank_breaks {text : Bytes} (h : text ∈ wideBlank) (hne : text ≠ []) (rest : Bytes) :
    Breaks (text ++ rest) := by
  revert hne
  refine star_induction (P := fun text => text ≠ [] → Breaks (text ++ rest))
    (fun hne => absurd rfl hne) ?_ h
  intro piece hpiece text _ _ _
  rcases hpiece with hspace | hcomment
  · rcases hspace with ⟨a, ha, rfl⟩ | ⟨a, b, hab, rfl⟩ | ⟨a, b, c, habc, rfl⟩
    · exact trailing_breaks (isTrailing_of_space₁ ha) _
    · exact trailing_breaks (isTrailing_of_space₂ hab).1 _
    · exact trailing_breaks (isTrailing_of_space₃ habc).1 _
  · obtain ⟨b, body, rfl, rfl | rfl | rfl⟩ := comment_head hcomment <;> rfl

theorem openLine_ends {text : Bytes} (h : text ∈ openLine) : splitKeyword text = none := by
  obtain ⟨mark, body, hmark, hbody, rfl⟩ := h
  refine splitKeyword_breaks ?_ (rfl : Breaks [])
  rw [skipBlank_mark hmark, skipBlank_line_end hbody]

theorem tail_ends {tail : Bytes} (h : tail ∈ wideBlank + wideBlank * openLine) :
    splitKeyword tail = none := by
  rcases h with hwide | ⟨text, htext, opened, hopened, rfl⟩
  · rcases wideBlank_cases hwide with hblank | hnone
    · rw [← List.append_nil tail, splitKeyword_blank hblank]
      rfl
    · simpa using hnone []
  · rcases wideBlank_cases htext with hblank | hnone
    · exact (splitKeyword_blank hblank opened).trans (openLine_ends hopened)
    · exact hnone opened

theorem tail_breaks {tail : Bytes} (h : tail ∈ wideBlank + wideBlank * openLine) : Breaks tail := by
  rcases h with hwide | ⟨text, htext, opened, hopened, rfl⟩
  · by_cases hnil : tail = []
    · rw [hnil]
      rfl
    · simpa using wideBlank_breaks hwide hnil []
  · by_cases hnil : text = []
    · obtain ⟨mark, body, rfl | rfl, -, rfl⟩ := hopened
      · rw [hnil]
        rfl
      · rw [hnil]
        rfl
    · exact wideBlank_breaks htext hnil opened

theorem phrase_breaks (hwords : ∀ word ∈ words, word.1 ∈ wideBlank ∧ word.1 ≠ [])
    (hrest : Breaks rest) : Breaks (phrase words ++ rest) := by
  cases words with
  | nil => exact hrest
  | cons word words =>
    obtain ⟨hblank, hne⟩ := hwords word (by simp)
    rw [phrase, List.append_assoc]
    exact wideBlank_breaks hblank hne _

def optionWords : List String := ["WORK", "AND", "NO", "CHAIN"]

theorem Spelled.of_mem {keywords : List String} (h : Spelled words keywords)
    {word : Bytes × Bytes} (hword : word ∈ words) :
    ∃ keyword ∈ keywords, isKeyword word.2 keyword = true := by
  obtain ⟨i, hi, rfl⟩ := List.mem_iff_getElem.mp hword
  have hlength : i < keywords.length := by rwa [← h.length_eq]
  exact ⟨keywords[i], List.getElem_mem hlength, h.get hi hlength⟩

theorem RollbackCommand.option_word (command : RollbackCommand) {word : Bytes × Bytes}
    (hword : word ∈ command.options) : ∃ keyword ∈ optionWords, isKeyword word.2 keyword = true := by
  obtain ⟨keywords, hkeywords, hspelled⟩ := command.options_spelled
  obtain ⟨keyword, hkeyword, hword⟩ := hspelled.of_mem hword
  have hall : ∀ keywords ∈ rollbackOptions, ∀ keyword ∈ keywords, keyword ∈ optionWords := by decide
  exact ⟨keyword, hall keywords hkeywords keyword hkeyword, hword⟩

theorem rollbackTail_none (h : splitKeyword rest = none) (fuel : Nat) :
    rollbackTail fuel rest = true := by
  cases fuel with
  | zero => rfl
  | succ fuel => rw [rollbackTail, h]

theorem rollbackTail_word {fuel : Nat} {separator word : Bytes}
    (hfuel : (separator ++ (word ++ rest)).length ≤ fuel) (hseparator : separator ∈ blank)
    (hword : ∃ keyword ∈ optionWords, isKeyword word keyword = true) (hrest : Breaks rest) :
    ∃ left, rest.length ≤ left ∧
      rollbackTail fuel (separator ++ (word ++ rest)) = rollbackTail left rest := by
  obtain ⟨keyword, hmem, hkeyword⟩ := hword
  have hletters : ∀ keyword ∈ optionWords, (ascii keyword).all isAlphabetic = true ∧
      ascii keyword ≠ [] := by decide
  have hne := keyword_ne_nil (hletters keyword hmem).2 hkeyword
  have hlength := List.length_pos_iff.mpr hne
  simp only [List.length_append] at hfuel
  obtain ⟨left, rfl⟩ := Nat.exists_eq_succ_of_ne_zero (show fuel ≠ 0 by omega)
  refine ⟨left, by omega, ?_⟩
  have hone : isOneOf word ["WORK", "AND", "NO", "CHAIN"] = true :=
    List.any_eq_true.mpr ⟨keyword, hmem, hkeyword⟩
  rw [rollbackTail, splitKeyword_blank hseparator,
    splitKeyword_word hne (keyword_letters (hletters keyword hmem).1 hkeyword) hrest]
  simp only [hone, if_true]

theorem rollbackTail_options {fuel : Nat} (hfuel : (phrase words ++ rest).length ≤ fuel)
    (hseparated : ∀ word ∈ words, word.1 ∈ wideBlank ∧ word.1 ≠ [])
    (hwords : ∀ word ∈ words, ∃ keyword ∈ optionWords, isKeyword word.2 keyword = true)
    (hblank : ∀ word ∈ words, word.1 ∈ blank) (hrest : Breaks rest) :
    ∃ left, rest.length ≤ left ∧ rollbackTail fuel (phrase words ++ rest) = rollbackTail left rest := by
  induction words generalizing fuel with
  | nil => exact ⟨fuel, hfuel, rfl⟩
  | cons word words ih =>
    rw [List.forall_mem_cons] at hseparated hwords hblank
    rw [phrase, List.append_assoc, List.append_assoc] at hfuel ⊢
    obtain ⟨left, hleft, heq⟩ := rollbackTail_word hfuel hblank.1 hwords.1
      (phrase_breaks hseparated.2 hrest)
    rw [heq]
    exact ih hleft hseparated.2 hwords.2 hblank.2

theorem rollbackTail_wide {fuel : Nat} (hfuel : (phrase words ++ rest).length ≤ fuel)
    (hseparated : ∀ word ∈ words, word.1 ∈ wideBlank ∧ word.1 ≠ [])
    (hwords : ∀ word ∈ words, ∃ keyword ∈ optionWords, isKeyword word.2 keyword = true)
    (hwide : ∃ word ∈ words, word.1 ∉ blank) (hrest : Breaks rest) :
    rollbackTail fuel (phrase words ++ rest) = true := by
  induction words generalizing fuel with
  | nil =>
    obtain ⟨word, hword, -⟩ := hwide
    cases hword
  | cons word words ih =>
    rw [List.forall_mem_cons] at hseparated hwords
    rw [phrase, List.append_assoc, List.append_assoc] at hfuel ⊢
    rcases wideBlank_cases hseparated.1.1 with hblank | hnone
    · obtain ⟨left, hleft, heq⟩ := rollbackTail_word hfuel hblank hwords.1
        (phrase_breaks hseparated.2 hrest)
      obtain ⟨bad, hmem, hbad⟩ := hwide
      rcases List.mem_cons.mp hmem with rfl | hmem
      · exact absurd hblank hbad
      · rw [heq]
        exact ih hleft hseparated.2 hwords.2 ⟨bad, hmem, hbad⟩
    · exact rollbackTail_none (hnone _) fuel

theorem rollbackTail_to {separator word : Bytes} (hseparator : separator ∈ blank)
    (hto : isKeyword word "TO" = true) (hrest : Breaks rest) (fuel : Nat) :
    rollbackTail (fuel + 1) (separator ++ (word ++ rest)) = false := by
  have hlower : isKeyword word "to" = true := eqIgnoreCase_of_isKeyword (by decide) hto
  have hother : isOneOf word ["WORK", "AND", "NO", "CHAIN"] = false := by
    rw [isKeyword, eqIgnoreCase, beq_iff_eq] at hto
    rw [isOneOf, List.any_eq_false]
    intro keyword hmem hkeyword
    rw [isKeyword, eqIgnoreCase, hto, beq_iff_eq] at hkeyword
    revert keyword
    decide
  rw [rollbackTail, splitKeyword_blank hseparator, splitKeyword_word
    (keyword_ne_nil (by decide) hto) (keyword_letters (by decide) hto) hrest]
  simp [hother, hlower]

theorem RollbackCommand.splitKeyword_text (command : RollbackCommand) :
    splitKeyword command.text = some
      (command.keyword, phrase command.options ++ (phrase command.savepoint ++ command.tail)) := by
  have hseparated := command.separated
  rw [List.forall_mem_append] at hseparated
  have hkeyword := command.keyword_spelled
  rw [text, splitKeyword_blank command.lead_blank]
  exact splitKeyword_word (keyword_ne_nil (by decide) hkeyword) (keyword_letters (by decide) hkeyword)
    (phrase_breaks hseparated.1 (phrase_breaks hseparated.2 (tail_breaks command.tail_blank)))

theorem RollbackCommand.isTransactionRollback_eq (command : RollbackCommand) :
    isTransactionRollback command.text = rollbackTail
      (phrase command.options ++ (phrase command.savepoint ++ command.tail)).length
      (phrase command.options ++ (phrase command.savepoint ++ command.tail)) := by
  have hlower : isKeyword command.keyword "rollback" = true :=
    eqIgnoreCase_of_isKeyword (by decide) command.keyword_spelled
  rw [isTransactionRollback, command.splitKeyword_text]
  simp [hlower]

theorem RollbackCommand.recognised_iff (command : RollbackCommand) :
    isTransactionRollback command.text = command.savepoint.isEmpty ↔
      command.savepoint = [] ∨
        ∀ word ∈ command.options ++ command.savepoint.take 1, word.1 ∈ blank := by
  have hseparated := command.separated
  rw [List.forall_mem_append] at hseparated
  have hbreaks := phrase_breaks hseparated.2 (tail_breaks command.tail_blank)
  rw [command.isTransactionRollback_eq]
  by_cases hblank : ∀ word ∈ command.options, word.1 ∈ blank
  · obtain ⟨left, hleft, heq⟩ := rollbackTail_options le_rfl hseparated.1
      (fun _ => command.option_word) hblank hbreaks
    rw [heq]
    rcases command.savepoint_spelled with hnone | ⟨words, name, hsavepoint, hspelled⟩
    · rw [hnone]
      simpa [phrase] using rollbackTail_none (tail_ends command.tail_blank) left
    · cases hspelled with
      | @cons target _ words _ hto _ =>
        rw [hsavepoint] at hseparated hbreaks hleft ⊢
        simp only [List.cons_append, List.forall_mem_cons] at hseparated
        simp only [List.cons_append, phrase, List.append_assoc, List.isEmpty_cons, List.take_succ_cons,
          List.take_zero, reduceCtorEq, false_or, List.forall_mem_append, List.forall_mem_singleton]
          at hleft ⊢
        have hafter := phrase_breaks hseparated.2.2 (tail_breaks command.tail_blank)
        rcases wideBlank_cases hseparated.2.1.1 with hplain | hnone
        · have hne := List.length_pos_iff.mpr (keyword_ne_nil (by decide) hto)
          simp only [List.length_append] at hleft
          obtain ⟨fuel, rfl⟩ := Nat.exists_eq_succ_of_ne_zero (show left ≠ 0 by omega)
          rw [rollbackTail_to hplain hto hafter]
          exact iff_of_true rfl ⟨hblank, hplain⟩
        · rw [rollbackTail_none (hnone _)]
          refine iff_of_false (by decide) fun hall => ?_
          have hfound := hnone (target.2 ++ [])
          rw [splitKeyword_blank hall.2, splitKeyword_word (keyword_ne_nil (by decide) hto)
            (keyword_letters (by decide) hto) (rfl : Breaks [])] at hfound
          cases hfound
  · have hwide : ∃ word ∈ command.options, word.1 ∉ blank := by simpa using hblank
    rw [rollbackTail_wide le_rfl hseparated.1 (fun _ => command.option_word) hwide hbreaks]
    obtain ⟨bad, hmem, hbad⟩ := hwide
    cases hsavepoint : command.savepoint with
    | nil => simp
    | cons word words =>
      simp only [List.isEmpty_cons, Bool.true_eq_false, reduceCtorEq, false_or, false_iff]
      exact fun hall => hbad (hall bad (List.mem_append_left _ hmem))

end Rollback

theorem transaction_commands_recognised (isAlphanumeric : Bytes → Bool) (query : Bytes)
    (scan : QueryScan) (hscan : scanQuery isAlphanumeric query = .ok scan) (hslots : scan.slots = [])
    (hstatements : scan.statements ≠ []) :
    ∃ effects, transactionEffects isAlphanumeric query = .ok effects ∧
      (unboundStatements isAlphanumeric query).map scriptEffects = .ok effects ∧
      (∀ range ∈ scan.statements, ∀ word, BeginsWithWord isAlphanumeric (slice query range) word →
        isKeyword word "COMMIT" = true → effects.commit = true) ∧
      ∀ command : RollbackCommand,
        (isTransactionRollback command.text = command.savepoint.isEmpty ↔
          command.savepoint = [] ∨
            ∀ word ∈ command.options ++ command.savepoint.take 1, word.1 ∈ blank) := by
  have hunbound := unboundStatements_eq_ok.mpr ⟨scan, hscan, hslots, hstatements, rfl⟩
  refine ⟨_, transactionEffects_of_statements hunbound, by rw [hunbound]; rfl, ?_,
    RollbackCommand.recognised_iff⟩
  intro range hrange word hbegins hword
  rw [scriptEffects_eq]
  exact List.any_eq_true.mpr ⟨_, List.mem_map_of_mem hrange, commit_recognised hbegins hword⟩

theorem commented_commit_recognised :
    ∃ effects, transactionEffects (fun _ => false) (ascii "SELECT 1; --x\n/**/ Commit") = .ok effects ∧
      effects.commit = true := by
  obtain ⟨effects, heffects, -, hcommit, -⟩ := transaction_commands_recognised (fun _ => false)
    (ascii "SELECT 1; --x\n/**/ Commit") ⟨[(0, 8), (9, 25)], [], some (0, 6), false⟩
    (by decide +kernel) rfl (by decide)
  refine ⟨effects, heffects, hcommit (9, 25) (by decide) (ascii "Commit") ?_ (by decide)⟩
  have hspace : [32] ∈ blank := mem_star (.inl ⟨32, rfl, rfl⟩)
  have hline : ascii "--x\n" ∈ blank :=
    mem_star (.inr (.inl ⟨ascii "--x", ⟨[45, 45], [120], .inl rfl, by decide, rfl⟩, rfl⟩))
  have hblock : ascii "/**/" ∈ blank := mem_star (.inr (.inr ⟨[], by decide, rfl⟩))
  exact ⟨[32] ++ (ascii "--x\n" ++ (ascii "/**/" ++ [32])), 67, ascii "ommit", none, 6,
    append_mem_star hspace (append_mem_star hline (append_mem_star hblock hspace)), by decide,
    by decide⟩

theorem space_mem_wideBlank {b : UInt8} (h : isSpace₁ b = true) : [b] ∈ wideBlank :=
  mem_star (.inl (.inl ⟨b, h, rfl⟩))

def tabbedRollback : RollbackCommand where
  lead := []
  keyword := ascii "ROLLBACK"
  options := []
  savepoint := [([11], ascii "TO"), ([32], ascii "SAVEPOINT"), ([32], ascii "s")]
  tail := []
  lead_blank := Language.nil_mem_kstar _
  keyword_spelled := by decide
  options_spelled := ⟨[], by decide, .nil⟩
  savepoint_spelled :=
    .inr ⟨[([11], ascii "TO"), ([32], ascii "SAVEPOINT")], ([32], ascii "s"), rfl,
      .cons (by decide) (.cons (by decide) .nil)⟩
  separated := by
    simp [space_mem_wideBlank (show isSpace₁ 11 = true by decide),
      space_mem_wideBlank (show isSpace₁ 32 = true by decide)]
  tail_blank := .inl (Language.nil_mem_kstar _)

theorem vertical_tab_hides_savepoint :
    tabbedRollback.text = ascii "ROLLBACK\x0bTO SAVEPOINT s" ∧
      tabbedRollback.savepoint.isEmpty = false ∧
      unboundStatements (fun _ => false) tabbedRollback.text = .ok [tabbedRollback.text] ∧
      isTransactionRollback tabbedRollback.text = true ∧
      transactionEffects (fun _ => false) tabbedRollback.text = .ok ⟨false, true⟩ := by
  decide +kernel

end MonetdbAdbc.Sql
