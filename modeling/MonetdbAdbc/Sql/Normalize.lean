import MonetdbAdbc.Sql.Effects

namespace MonetdbAdbc.Sql
open LittleEndian Text

def isFollowing (b : UInt8) : Bool := b == 59 || isTrailing b

theorem following_not_continue {b : UInt8} (h : isFollowing b = true) :
    isIdentifierContinue b = false := by
  simp only [isFollowing, isTrailing, isSpace₁, Bool.or_eq_true, Bool.and_eq_true, beq_iff_eq,
    decide_eq_true_eq] at h
  rw [Bool.eq_false_iff]
  intro hword
  simp only [isIdentifierContinue, isIdentifierStart, isAlphabetic, isUppercase, isLowercase, isDigit,
    Bool.or_eq_true, Bool.and_eq_true, beq_iff_eq, decide_eq_true_eq] at hword
  simp only [UInt8.le_iff_toNat_le, ← UInt8.toNat_inj, UInt8.reduceToNat] at h hword
  omega

theorem isFollowing_not_keyword {b : UInt8} (h : isFollowing b = true) : isKeywordByte b = false :=
  (Bool.or_eq_false_iff.mp (following_not_continue h)).1

theorem isFollowing_ne {b : UInt8} (h : isFollowing b = true) : b ≠ 45 ∧ b ≠ 35 ∧ b ≠ 47 ∧ b ≠ 42 := by
  refine ⟨?_, ?_, ?_, ?_⟩ <;> rintro rfl <;> exact absurd h (by decide)

theorem normalizePreparedQuery_append (query : Bytes) :
    ∃ tail, trimStart query = normalizePreparedQuery query ++ tail ∧
      ∀ b ∈ tail, isFollowing b = true := by
  obtain ⟨outer, houter, hspaces⟩ := trimEnd_append (trimStart query)
  obtain ⟨middle, hmiddle, hsemicolons⟩ := trimEndMatches_append 59 (trim query)
  obtain ⟨inner, hinner, hblanks⟩ := trimEnd_append (trimEndMatches 59 (trim query))
  refine ⟨inner ++ (middle ++ outer), ?_, ?_⟩
  · rw [normalizePreparedQuery, ← List.append_assoc, ← hinner, ← List.append_assoc, ← hmiddle]
    exact houter
  · intro b hb
    simp only [List.mem_append] at hb
    rcases hb with hb | hb | hb
    · simp [isFollowing, hblanks b hb]
    · simp [isFollowing, hsemicolons b hb]
    · simp [isFollowing, hspaces b hb]

theorem trimStart_normalizePreparedQuery (query : Bytes) :
    trimStart (normalizePreparedQuery query) = normalizePreparedQuery query := by
  obtain ⟨tail, htail, -⟩ := normalizePreparedQuery_append query
  apply trimStart_of_append
  rw [← htail]
  exact trimStart_trimStart query

section Settling

theorem length_shorter {text : Bytes} (h : text.getLast? = some 59) :
    (trimEnd (trimEndMatches 59 text)).length < text.length :=
  (length_trimEnd_le _).trans_lt (length_trimEndMatches_lt h)

def semicolonRuns (text : Bytes) : Nat :=
  if text.getLast? = some 59 then semicolonRuns (trimEnd (trimEndMatches 59 text)) + 1 else 0
termination_by text.length
decreasing_by exact length_shorter ‹_›

theorem trim_trim (text : Bytes) : trim (trim text) = trim text := by
  obtain ⟨tail, htail, -⟩ := trimEnd_append (trimStart text)
  have hstart : trimStart (trim text) = trim text := by
    have hwhole := trimStart_trimStart text
    rw [htail] at hwhole
    exact trimStart_of_append hwhole
  rw [trim, hstart, trim, trimEnd_trimEnd]

theorem trim_normalizePreparedQuery (query : Bytes) :
    trim (normalizePreparedQuery query) = normalizePreparedQuery query := by
  rw [trim, trimStart_normalizePreparedQuery, normalizePreparedQuery, trimEnd_trimEnd]

theorem normalize_of_trimmed {text : Bytes} (htrim : trim text = text)
    (h : text.getLast? ≠ some 59) : normalizePreparedQuery text = text := by
  have hend : trimEnd text = text := by
    rw [← htrim, trim, trimEnd_trimEnd]
  rw [normalizePreparedQuery, htrim, trimEndMatches_of_ne h, hend]

theorem normalize_eq_self_iff {text : Bytes} (htrim : trim text = text) :
    normalizePreparedQuery text = text ↔ text.getLast? ≠ some 59 := by
  refine ⟨fun heq hlast => ?_, normalize_of_trimmed htrim⟩
  have hlt := length_shorter hlast
  rw [normalizePreparedQuery, htrim] at heq
  rw [heq] at hlt
  exact absurd hlt (lt_irrefl _)

theorem semicolonRuns_eq_zero_iff (text : Bytes) :
    semicolonRuns text = 0 ↔ text.getLast? ≠ some 59 := by
  rw [semicolonRuns]
  split_ifs with hlast
  · simp [hlast]
  · simp [hlast]

theorem semicolonRuns_normalize (query : Bytes) :
    semicolonRuns (normalizePreparedQuery query) = semicolonRuns (trim query) - 1 := by
  by_cases hlast : (trim query).getLast? = some 59
  · conv_rhs => rw [semicolonRuns, if_pos hlast]
    rfl
  · have hself : normalizePreparedQuery query = trim query := by
      have hsame := normalize_of_trimmed (trim_trim query) hlast
      rwa [normalizePreparedQuery, trim_trim] at hsame
    rw [hself, (semicolonRuns_eq_zero_iff _).mpr hlast]

-- Each normalization takes one run of semicolons, so a third one still changes the text when more
-- than two runs stand at its end.
theorem normalize_settles_iff (query : Bytes) :
    normalizePreparedQuery (normalizePreparedQuery (normalizePreparedQuery query)) =
      normalizePreparedQuery (normalizePreparedQuery query) ↔ semicolonRuns (trim query) ≤ 2 := by
  rw [normalize_eq_self_iff (trim_normalizePreparedQuery _), ← semicolonRuns_eq_zero_iff,
    semicolonRuns_normalize, trim_normalizePreparedQuery, semicolonRuns_normalize]
  omega

end Settling

end MonetdbAdbc.Sql
