import MonetdbAdbc.Library.AsciiNumber
import MonetdbAdbc.Library.Utf8

namespace Text
open LittleEndian

def ascii (s : String) : Bytes := s.toList.map fun c => UInt8.ofNat c.toNat

def isUppercase (b : UInt8) : Bool := 65 ≤ b && b ≤ 90

def isLowercase (b : UInt8) : Bool := 97 ≤ b && b ≤ 122

def isAlphabetic (b : UInt8) : Bool := isUppercase b || isLowercase b

def isDigit (b : UInt8) : Bool := 48 ≤ b && b ≤ 57

def toUppercase (b : UInt8) : UInt8 := if isLowercase b then b - 32 else b

def eqIgnoreCase (xs ys : Bytes) : Bool := xs.map toUppercase == ys.map toUppercase

def isKeyword (word : Bytes) (keyword : String) : Bool := eqIgnoreCase word (ascii keyword)

def isOneOf (word : Bytes) (keywords : List String) : Bool := keywords.any (isKeyword word)

def containsIgnoreCase (haystack needle : Bytes) : Bool :=
  haystack.tails.any fun tail => eqIgnoreCase (tail.take needle.length) needle

def charLength (lead : UInt8) : Nat :=
  if lead < 0x80 then 1 else if lead < 0xE0 then 2 else if lead < 0xF0 then 3 else 4

section Characters
variable {text : Bytes}

def isCharBoundary (text : Bytes) (i : Nat) : Bool :=
  if i = 0 then true
  else if text.length ≤ i then i == text.length
  else text[i]?.any fun b => b < 0x80 || 0xC0 ≤ b

def Whole (text : Bytes) (n : Nat) : Prop := n ≤ text.length ∧ Utf8.valid (text.drop n) = true

theorem run_tail {owed : Nat} {low high : UInt8} {bs : Bytes} (howed : 0 < owed) (hlow : 0x80 ≤ low)
    (h : Utf8.run (.tail owed low high) bs = some .start) :
    Whole bs owed ∧ ∀ b ∈ bs.take owed, 0x80 ≤ b := by
  induction bs generalizing owed low high with
  | nil => cases h
  | cons b bs ih =>
    rw [Utf8.run, Utf8.next] at h
    split_ifs at h with hb hlast
    · obtain rfl : owed = 1 := by omega
      refine ⟨⟨Nat.succ_le_succ (Nat.zero_le _), by simpa [Utf8.valid] using h⟩, ?_⟩
      simpa using UInt8.le_trans hlow hb.1
    · obtain ⟨⟨hlength, hvalid⟩, hall⟩ := ih (by omega) UInt8.le_rfl h
      obtain ⟨more, rfl⟩ : ∃ more, owed = more + 1 := ⟨owed - 1, by omega⟩
      refine ⟨⟨Nat.succ_le_succ hlength, hvalid⟩, ?_⟩
      rw [List.take_succ_cons, List.forall_mem_cons]
      exact ⟨UInt8.le_trans hlow hb.1, hall⟩
    · cases h

theorem whole_char {b : UInt8} {rest : Bytes} (h : Utf8.valid (b :: rest) = true) :
    Whole (b :: rest) (charLength b) ∧ ∀ c ∈ rest.take (charLength b - 1), 0x80 ≤ c := by
  have hmore {owed : Nat} {low high : UInt8} (howed : 0 < owed) (hlow : 0x80 ≤ low)
      (hrun : Utf8.run (.tail owed low high) rest = some .start) (hlength : charLength b = owed + 1) :
      Whole (b :: rest) (charLength b) ∧ ∀ c ∈ rest.take (charLength b - 1), 0x80 ≤ c := by
    obtain ⟨hwhole, hall⟩ := run_tail howed hlow hrun
    rw [hlength]
    exact ⟨⟨Nat.succ_le_succ hwhole.1, hwhole.2⟩, hall⟩
  rw [Utf8.valid, decide_eq_true_eq, Utf8.run, Utf8.next, Utf8.lead] at h
  split_ifs at h with hascii hcontinuation htwo hthree hlow hhigh hhigh hfour hlow hhigh hhigh
  · have hlength : charLength b = 1 := if_pos hascii
    rw [hlength]
    exact ⟨⟨Nat.succ_le_succ (Nat.zero_le _), by simpa [Utf8.valid] using h⟩, by simp⟩
  · cases h
  · exact hmore Nat.one_pos UInt8.le_rfl h (by simp [charLength, hascii, htwo])
  all_goals first
    | exact hmore Nat.two_pos (by decide) h (by simp [charLength, hascii, htwo, hthree])
    | exact hmore (Nat.succ_pos 2) (by decide) h (by simp [charLength, hascii, htwo, hthree])
    | cases h

theorem whole_zero (h : Utf8.valid text = true) : Whole text 0 :=
  ⟨Nat.zero_le _, h⟩

theorem Whole.cons {b : UInt8} {rest : Bytes} {n : Nat} (h : Whole rest n) :
    Whole (b :: rest) (n + 1) :=
  ⟨Nat.succ_le_succ h.1, h.2⟩

theorem Whole.add {n m : Nat} (h : Whole text n) (hm : Whole (text.drop n) m) :
    Whole text (n + m) := by
  have hlength := hm.1
  rw [List.length_drop] at hlength
  have hn := h.1
  exact ⟨by omega, by simpa [List.drop_drop] using hm.2⟩

theorem valid_tail {b : UInt8} {rest : Bytes} (hb : b < 0x80) (h : Utf8.valid (b :: rest) = true) :
    Utf8.valid rest = true := by
  have hone : charLength b = 1 := if_pos hb
  have hwhole := (whole_char h).1.2
  rwa [hone] at hwhole

theorem whole_run {p : UInt8 → Bool} (hp : ∀ b, p b = true → b < 0x80)
    (h : Utf8.valid text = true) : Whole text (text.takeWhile p).length := by
  induction text with
  | nil => exact whole_zero h
  | cons b rest ih =>
    cases hb : p b with
    | false => simpa [hb] using whole_zero h
    | true =>
      rw [List.takeWhile_cons_of_pos hb]
      exact (ih (valid_tail (hp b hb) h)).cons

theorem isCharBoundary_of_whole {i : Nat} (h : Whole text i) : isCharBoundary text i = true := by
  obtain ⟨hle, hvalid⟩ := h
  rw [isCharBoundary]
  split_ifs with hzero hend
  · rfl
  · simpa using Nat.le_antisymm hle hend
  · have hlt : i < text.length := Nat.lt_of_not_le hend
    rw [List.drop_eq_getElem_cons hlt] at hvalid
    rw [List.getElem?_eq_getElem hlt, Option.any_some, Bool.or_eq_true, decide_eq_true_eq,
      decide_eq_true_eq]
    refine (Utf8.head_not_continuation hvalid).imp_right fun hlead => ?_
    exact UInt8.le_trans (by decide) hlead

end Characters

section Trim
variable {a b : UInt8} {text : Bytes}

def isSpace₁ (a : UInt8) : Bool := 9 ≤ a && a ≤ 13 || a == 32

def isSpace₂ (a b : UInt8) : Bool := a == 0xC2 && (b == 0x85 || b == 0xA0)

def isSpace₃ (a b c : UInt8) : Bool :=
  a == 0xE1 && b == 0x9A && c == 0x80 ||
  a == 0xE2 && b == 0x80 && (0x80 ≤ c && c ≤ 0x8A || c == 0xA8 || c == 0xA9 || c == 0xAF) ||
  a == 0xE2 && b == 0x81 && c == 0x9F ||
  a == 0xE3 && b == 0x80 && c == 0x80

def dropSpace (p₁ : UInt8 → Bool) (p₂ : UInt8 → UInt8 → Bool) (p₃ : UInt8 → UInt8 → UInt8 → Bool) :
    Bytes → Bytes
  | [] => []
  | [a] => if p₁ a then [] else [a]
  | [a, b] =>
    if p₁ a then dropSpace p₁ p₂ p₃ [b]
    else if p₂ a b then []
    else [a, b]
  | a :: b :: c :: bs =>
    if p₁ a then dropSpace p₁ p₂ p₃ (b :: c :: bs)
    else if p₂ a b then dropSpace p₁ p₂ p₃ (c :: bs)
    else if p₃ a b c then dropSpace p₁ p₂ p₃ bs
    else a :: b :: c :: bs

def trimStart (text : Bytes) : Bytes := dropSpace isSpace₁ isSpace₂ isSpace₃ text

def trimEnd (text : Bytes) : Bytes :=
  (dropSpace isSpace₁ (fun b a => isSpace₂ a b) (fun c b a => isSpace₃ a b c) text.reverse).reverse

def trim (text : Bytes) : Bytes := trimEnd (trimStart text)

def trimEndMatches (b : UInt8) (text : Bytes) : Bytes := (text.reverse.dropWhile (· == b)).reverse

def isTrailing (b : UInt8) : Bool := isSpace₁ b || 128 ≤ b

theorem dropSpace_append (p₁ : UInt8 → Bool) (p₂ : UInt8 → UInt8 → Bool)
    (p₃ : UInt8 → UInt8 → UInt8 → Bool) {P : UInt8 → Prop} (h₁ : ∀ a, p₁ a = true → P a)
    (h₂ : ∀ a b, p₂ a b = true → P a ∧ P b) (h₃ : ∀ a b c, p₃ a b c = true → P a ∧ P b ∧ P c)
    (text : Bytes) : ∃ dropped, text = dropped ++ dropSpace p₁ p₂ p₃ text ∧ ∀ b ∈ dropped, P b := by
  fun_induction dropSpace p₁ p₂ p₃ text with
  | case1 => exact ⟨[], rfl, by simp⟩
  | case2 a ha => exact ⟨[a], rfl, by simpa using h₁ a ha⟩
  | case3 a ha => exact ⟨[], rfl, by simp⟩
  | case4 a b ha ih =>
    obtain ⟨dropped, hdropped, hall⟩ := ih
    exact ⟨a :: dropped, by rw [List.cons_append, ← hdropped], by simpa using ⟨h₁ a ha, hall⟩⟩
  | case5 a b ha hb => exact ⟨[a, b], rfl, by simpa using h₂ a b hb⟩
  | case6 a b ha hb => exact ⟨[], rfl, by simp⟩
  | case7 a b c bs ha ih =>
    obtain ⟨dropped, hdropped, hall⟩ := ih
    exact ⟨a :: dropped, by rw [List.cons_append, ← hdropped], by simpa using ⟨h₁ a ha, hall⟩⟩
  | case8 a b c bs ha hb ih =>
    obtain ⟨dropped, hdropped, hall⟩ := ih
    refine ⟨a :: b :: dropped, by rw [List.cons_append, List.cons_append, ← hdropped], ?_⟩
    simpa using ⟨(h₂ a b hb).1, (h₂ a b hb).2, hall⟩
  | case9 a b c bs ha hb hc ih =>
    obtain ⟨dropped, hdropped, hall⟩ := ih
    obtain ⟨hpa, hpb, hpc⟩ := h₃ a b c hc
    refine ⟨a :: b :: c :: dropped, ?_, by simpa using ⟨hpa, hpb, hpc, hall⟩⟩
    rw [List.cons_append, List.cons_append, List.cons_append, ← hdropped]
  | case10 a b c bs ha hb hc => exact ⟨[], rfl, by simp⟩

theorem isTrailing_of_space₁ (h : isSpace₁ a = true) : isTrailing a = true := by
  simp [isTrailing, h]

theorem isTrailing_of_space₂ (h : isSpace₂ a b = true) :
    isTrailing a = true ∧ isTrailing b = true := by
  simp only [isSpace₂, Bool.and_eq_true, Bool.or_eq_true, beq_iff_eq] at h
  obtain ⟨rfl, rfl | rfl⟩ := h <;> decide

theorem isTrailing_of_le (h : 128 ≤ a) : isTrailing a = true := by
  simp [isTrailing, h]

theorem isTrailing_of_space₃ {c : UInt8} (h : isSpace₃ a b c = true) :
    isTrailing a = true ∧ isTrailing b = true ∧ isTrailing c = true := by
  simp only [isSpace₃, Bool.and_eq_true, Bool.or_eq_true, beq_iff_eq, decide_eq_true_eq] at h
  obtain ((⟨⟨rfl, rfl⟩, rfl⟩ | ⟨⟨rfl, rfl⟩, hc⟩) | ⟨⟨rfl, rfl⟩, rfl⟩) | ⟨⟨rfl, rfl⟩, rfl⟩ := h
  · decide
  · refine ⟨by decide, by decide, isTrailing_of_le ?_⟩
    rcases hc with ((hc | rfl) | rfl) | rfl
    · exact hc.1
    · decide
    · decide
    · decide
  · decide
  · decide

theorem trimEnd_append (text : Bytes) :
    ∃ tail, text = trimEnd text ++ tail ∧ ∀ b ∈ tail, isTrailing b = true := by
  obtain ⟨dropped, hdropped, hall⟩ := dropSpace_append
    isSpace₁ (fun b a => isSpace₂ a b) (fun c b a => isSpace₃ a b c)
    (P := (isTrailing · = true)) (fun _ => isTrailing_of_space₁)
    (fun _ _ h => (isTrailing_of_space₂ h).symm)
    (fun _ _ _ h => let ⟨ha, hb, hc⟩ := isTrailing_of_space₃ h; ⟨hc, hb, ha⟩) text.reverse
  refine ⟨dropped.reverse, ?_, fun b hb => hall b (List.mem_reverse.mp hb)⟩
  rw [trimEnd, ← List.reverse_append, ← hdropped, List.reverse_reverse]

theorem trimEndMatches_append (b : UInt8) (text : Bytes) :
    ∃ tail, text = trimEndMatches b text ++ tail ∧ ∀ c ∈ tail, c = b := by
  refine ⟨(text.reverse.takeWhile (· == b)).reverse, ?_, ?_⟩
  · rw [trimEndMatches, ← List.reverse_append, List.takeWhile_append_dropWhile, List.reverse_reverse]
  · intro c hc
    simpa using List.all_eq_true.mp List.all_takeWhile c (List.mem_reverse.mp hc)

theorem dropSpace_dropSpace (p₁ : UInt8 → Bool) (p₂ : UInt8 → UInt8 → Bool)
    (p₃ : UInt8 → UInt8 → UInt8 → Bool) (text : Bytes) :
    dropSpace p₁ p₂ p₃ (dropSpace p₁ p₂ p₃ text) = dropSpace p₁ p₂ p₃ text := by
  fun_induction dropSpace p₁ p₂ p₃ text with
  | case1 | case2 a ha => rfl
  | case3 a ha => simp [dropSpace, ha]
  | case4 a b ha ih => exact ih
  | case5 a b ha hb => rfl
  | case6 a b ha hb => simp [dropSpace, ha, hb]
  | case7 a b c bs ha ih | case8 a b c bs ha hb ih | case9 a b c bs ha hb hc ih => exact ih
  | case10 a b c bs ha hb hc => simp [dropSpace, ha, hb, hc]

theorem trimStart_trimStart (text : Bytes) : trimStart (trimStart text) = trimStart text :=
  dropSpace_dropSpace _ _ _ text

theorem trimEnd_trimEnd (text : Bytes) : trimEnd (trimEnd text) = trimEnd text := by
  rw [trimEnd, trimEnd, List.reverse_reverse, dropSpace_dropSpace]

theorem length_trimEnd_le (text : Bytes) : (trimEnd text).length ≤ text.length := by
  obtain ⟨tail, htail, -⟩ := trimEnd_append text
  have hlength := congrArg List.length htail
  rw [List.length_append] at hlength
  omega

theorem trimEndMatches_of_ne (h : text.getLast? ≠ some b) : trimEndMatches b text = text := by
  rw [trimEndMatches]
  rw [← List.head?_reverse] at h
  cases hreverse : text.reverse with
  | nil => exact (List.reverse_eq_nil_iff.mp hreverse).symm
  | cons c rest =>
    rw [hreverse, List.head?_cons, ne_eq, Option.some.injEq] at h
    rw [List.dropWhile_cons_of_neg (by simpa using h), ← hreverse, List.reverse_reverse]

theorem length_trimEndMatches_lt (h : text.getLast? = some b) :
    (trimEndMatches b text).length < text.length := by
  obtain ⟨rest, rfl⟩ := List.getLast?_eq_some_iff.mp h
  rw [trimEndMatches, List.reverse_append, List.reverse_singleton, List.singleton_append,
    List.dropWhile_cons_of_pos (by simp), List.length_reverse, List.length_append]
  have hle := (List.dropWhile_sublist (· == b) (l := rest.reverse)).length_le
  rw [List.length_reverse] at hle
  exact Nat.lt_succ_of_le hle

theorem length_trimStart_le (text : Bytes) : (trimStart text).length ≤ text.length := by
  obtain ⟨dropped, hdropped, -⟩ := dropSpace_append isSpace₁ isSpace₂ isSpace₃
    (P := fun _ => True) (by simp) (by simp) (by simp) text
  have hlength := congrArg List.length hdropped
  rw [List.length_append] at hlength
  exact Nat.le.intro (Nat.add_comm _ _ ▸ hlength.symm)

def leadsWithSpace : Bytes → Bool
  | a :: b :: c :: _ => isSpace₁ a || isSpace₂ a b || isSpace₃ a b c
  | [a, b] => isSpace₁ a || isSpace₂ a b
  | [a] => isSpace₁ a
  | [] => false

theorem leadsWithSpace_append (tail : Bytes) (h : leadsWithSpace text = true) :
    leadsWithSpace (text ++ tail) = true := by
  match text, tail with
  | [], _ => simp [leadsWithSpace] at h
  | [a], [] => exact h
  | [a], [b] => simpa [leadsWithSpace] using .inl h
  | [a], b :: c :: _ => simpa [leadsWithSpace] using .inl (.inl h)
  | [a, b], [] => exact h
  | [a, b], c :: _ => simpa [leadsWithSpace] using .inl (by simpa [leadsWithSpace] using h)
  | a :: b :: c :: _, _ => exact h

theorem trimStart_eq_self_iff (text : Bytes) : trimStart text = text ↔ leadsWithSpace text = false := by
  have hshorter (lead rest : Bytes) (h : 0 < lead.length) : trimStart rest ≠ lead ++ rest := by
    intro heq
    have hlength := congrArg List.length heq
    rw [List.length_append] at hlength
    have := length_trimStart_le rest
    omega
  match text with
  | [] => simp [trimStart, dropSpace, leadsWithSpace]
  | [a] => simp [trimStart, dropSpace, leadsWithSpace]
  | [a, b] =>
    have h := hshorter [a] [b] Nat.one_pos
    by_cases ha : isSpace₁ a = true
    · simpa [trimStart, dropSpace, leadsWithSpace, ha] using h
    · simp [trimStart, dropSpace, leadsWithSpace, ha]
  | a :: b :: c :: bs =>
    have h₁ := hshorter [a] (b :: c :: bs) Nat.one_pos
    have h₂ := hshorter [a, b] (c :: bs) Nat.two_pos
    have h₃ := hshorter [a, b, c] bs (Nat.succ_pos 2)
    by_cases ha : isSpace₁ a = true
    · simpa [trimStart, dropSpace, leadsWithSpace, ha] using h₁
    by_cases hb : isSpace₂ a b = true
    · simpa [trimStart, dropSpace, leadsWithSpace, ha, hb] using h₂
    by_cases hc : isSpace₃ a b c = true
    · simpa [trimStart, dropSpace, leadsWithSpace, ha, hb, hc] using h₃
    · simp [trimStart, dropSpace, leadsWithSpace, ha, hb, hc]

theorem trimStart_of_append {tail : Bytes} (h : trimStart (text ++ tail) = text ++ tail) :
    trimStart text = text := by
  rw [trimStart_eq_self_iff] at h ⊢
  cases hlead : leadsWithSpace text with
  | false => rfl
  | true => exact (leadsWithSpace_append tail hlead).symm.trans h

end Trim

end Text
