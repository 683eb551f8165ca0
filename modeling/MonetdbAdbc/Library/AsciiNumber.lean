import MonetdbAdbc.Library.LittleEndian

namespace AsciiNumber
open LittleEndian

def isWhitespace (b : UInt8) : Bool := b == 32 || b == 9 || b == 10 || b == 12 || b == 13

def splitFrom : Bytes → Bytes → List Bytes
  | field, [] => if field = [] then [] else [field]
  | field, b :: bs =>
    if isWhitespace b then
      if field = [] then splitFrom [] bs else field :: splitFrom [] bs
    else splitFrom (field ++ [b]) bs

def splitAsciiWhitespace (bs : Bytes) : List Bytes := splitFrom [] bs

def digitsFrom : Nat → Bytes → Option Nat
  | value, [] => some value
  | value, b :: bs =>
    if 48 ≤ b ∧ b ≤ 57 then digitsFrom (value * 10 + (b.toNat - 48)) bs else none

def parseDigits (bs : Bytes) : Option Nat := if bs = [] then none else digitsFrom 0 bs

def parseUnsigned (width : Nat) (bs : Bytes) : Option Nat :=
  (parseDigits (if bs.head? = some 43 then bs.tail else bs)).filter (· < 2 ^ width)

def parseSigned (width : Nat) (bs : Bytes) : Option Int :=
  if bs.head? = some 45 then
    ((parseDigits bs.tail).filter (· ≤ 2 ^ (width - 1))).map fun n => -(n : Int)
  else
    ((parseDigits (if bs.head? = some 43 then bs.tail else bs)).filter (· < 2 ^ (width - 1))).map
      fun n => (n : Int)

def decimal (n : Nat) : Bytes :=
  if n = 0 then [48] else (Nat.digits 10 n).reverse.map fun digit => UInt8.ofNat (48 + digit)

def decimalInt (n : Int) : Bytes := if n < 0 then 45 :: decimal n.natAbs else decimal n.natAbs

section Fields

theorem splitFrom_field {field word rest : Bytes} (hword : ∀ b ∈ word, isWhitespace b = false) :
    splitFrom field (word ++ rest) = splitFrom (field ++ word) rest := by
  induction word generalizing field with
  | nil => simp
  | cons b word ih =>
    have hb := hword b List.mem_cons_self
    rw [List.cons_append, splitFrom, if_neg (by simp [hb]),
      ih fun c hc => hword c (List.mem_cons_of_mem b hc), List.append_assoc, List.singleton_append]

theorem split_cons {word rest : Bytes} (hword : ∀ b ∈ word, isWhitespace b = false)
    (hne : word ≠ []) :
    splitAsciiWhitespace (word ++ 32 :: rest) = word :: splitAsciiWhitespace rest := by
  rw [splitAsciiWhitespace, splitFrom_field hword, List.nil_append, splitFrom,
    if_pos (by decide), if_neg hne]
  rfl

theorem split_word {word : Bytes} (hword : ∀ b ∈ word, isWhitespace b = false)
    (hne : word ≠ []) : splitAsciiWhitespace word = [word] := by
  have hsplit : splitFrom [] (word ++ []) = splitFrom ([] ++ word) [] := splitFrom_field hword
  rw [List.append_nil, List.nil_append] at hsplit
  rw [splitAsciiWhitespace, hsplit, splitFrom, if_neg hne]

end Fields

section Decimal

def IsDigit (b : UInt8) : Prop := 48 ≤ b ∧ b ≤ 57

theorem IsDigit.notWhitespace {b : UInt8} (h : IsDigit b) : isWhitespace b = false := by
  have hne : ∀ c : UInt8, c < 48 → ¬ b = c := fun c hc heq =>
    absurd (heq ▸ h.1) (UInt8.not_le.mpr hc)
  simp [isWhitespace, hne]

theorem digit_byte {digit : Nat} (h : digit < 10) : (UInt8.ofNat (48 + digit)).toNat = 48 + digit := by
  rw [UInt8.toNat_ofNat']
  omega

theorem decimal_isDigit (n : Nat) : ∀ b ∈ decimal n, IsDigit b := by
  intro b hb
  rw [decimal] at hb
  split_ifs at hb
  · rw [List.mem_singleton.mp hb]
    exact ⟨by decide, by decide⟩
  · obtain ⟨digit, hdigit, rfl⟩ := List.mem_map.mp hb
    have hlt : digit < 10 := Nat.digits_lt_base (by norm_num) (List.mem_reverse.mp hdigit)
    have hbyte := digit_byte hlt
    constructor
    · rw [UInt8.le_iff_toNat_le, hbyte]
      exact Nat.le_add_right 48 digit
    · rw [UInt8.le_iff_toNat_le, hbyte]
      change 48 + digit ≤ 57
      omega

theorem decimal_ne_nil (n : Nat) : decimal n ≠ [] := by
  rw [decimal]
  split_ifs with hn
  · simp
  · simpa [Nat.digits_eq_nil_iff_eq_zero] using hn

theorem digitsFrom_append (value : Nat) (xs ys : Bytes) :
    digitsFrom value (xs ++ ys) = (digitsFrom value xs).bind fun v => digitsFrom v ys := by
  induction xs generalizing value with
  | nil => rfl
  | cons b xs ih =>
    rw [List.cons_append, digitsFrom, digitsFrom]
    split_ifs
    · exact ih _
    · rfl

-- The digits stand least significant first, so the last byte read is the head of the list.
theorem digitsFrom_reverse {ds : List Nat} (h : ∀ digit ∈ ds, digit < 10) :
    digitsFrom 0 (ds.reverse.map fun digit => UInt8.ofNat (48 + digit)) = some (Nat.ofDigits 10 ds) := by
  induction ds with
  | nil => rfl
  | cons digit ds ih =>
    have hdigit := digit_byte (h digit List.mem_cons_self)
    have hrange : 48 ≤ UInt8.ofNat (48 + digit) ∧ UInt8.ofNat (48 + digit) ≤ 57 := by
      have hlt := h digit List.mem_cons_self
      rw [UInt8.le_iff_toNat_le, UInt8.le_iff_toNat_le, hdigit]
      exact ⟨Nat.le_add_right 48 digit, by change 48 + digit ≤ 57; omega⟩
    rw [List.reverse_cons, List.map_append, digitsFrom_append,
      ih fun other hother => h other (List.mem_cons_of_mem digit hother)]
    change digitsFrom (Nat.ofDigits 10 ds) [UInt8.ofNat (48 + digit)] = _
    rw [digitsFrom, if_pos hrange, digitsFrom, hdigit, Nat.ofDigits_cons]
    congr 1
    omega

theorem parseDigits_decimal (n : Nat) : parseDigits (decimal n) = some n := by
  rw [parseDigits, if_neg (decimal_ne_nil n), decimal]
  split_ifs with hn
  · rw [hn]
    rfl
  · rw [digitsFrom_reverse fun digit => Nat.digits_lt_base (by norm_num), Nat.ofDigits_digits]

theorem decimal_head_ne (n : Nat) {b : UInt8} (hb : b < 48) : (decimal n).head? ≠ some b := by
  intro hhead
  have hdigit := decimal_isDigit n b (List.mem_of_mem_head? hhead)
  exact absurd hdigit.1 (UInt8.not_le.mpr hb)

theorem parseUnsigned_decimal {width n : Nat} (h : n < 2 ^ width) :
    parseUnsigned width (decimal n) = some n := by
  rw [parseUnsigned, if_neg (decimal_head_ne n (by decide)), parseDigits_decimal]
  simpa using h

theorem parseSigned_decimalInt {width : Nat} {n : Int} (hlow : -(2 ^ (width - 1)) ≤ n)
    (hhigh : n < 2 ^ (width - 1)) : parseSigned width (decimalInt n) = some n := by
  have hpow : ((2 ^ (width - 1) : Nat) : Int) = 2 ^ (width - 1) := by norm_cast
  by_cases hneg : n < 0
  · have hle : n.natAbs ≤ 2 ^ (width - 1) := by omega
    rw [parseSigned, decimalInt, if_pos hneg, List.head?_cons, if_pos rfl, List.tail_cons, parseDigits_decimal,
      Option.filter_some, if_pos (by simpa using hle)]
    have hvalue : -(n.natAbs : Int) = n := by omega
    exact congrArg some hvalue
  · have hlt : n.natAbs < 2 ^ (width - 1) := by omega
    rw [parseSigned, decimalInt, if_neg hneg, if_neg (decimal_head_ne _ (by decide)),
      if_neg (decimal_head_ne _ (by decide)), parseDigits_decimal, Option.filter_some,
      if_pos (by simpa using hlt)]
    have hvalue : (n.natAbs : Int) = n := by omega
    exact congrArg some hvalue

def IsNumeral (b : UInt8) : Prop := b = 45 ∨ IsDigit b

theorem IsNumeral.notWhitespace {b : UInt8} (h : IsNumeral b) : isWhitespace b = false := by
  rcases h with rfl | hdigit
  · decide
  · exact hdigit.notWhitespace

theorem decimalInt_isNumeral (n : Int) : ∀ b ∈ decimalInt n, IsNumeral b := by
  intro b hb
  rw [decimalInt] at hb
  split_ifs at hb
  · rcases List.mem_cons.mp hb with rfl | hb
    · exact .inl rfl
    · exact .inr (decimal_isDigit _ b hb)
  · exact .inr (decimal_isDigit _ b hb)

theorem decimalInt_ne_nil (n : Int) : decimalInt n ≠ [] := by
  rw [decimalInt]
  split_ifs
  · simp
  · exact decimal_ne_nil _

theorem decimal_length {n digits : Nat} (hdigits : 0 < digits) (h : n < 10 ^ digits) :
    (decimal n).length ≤ digits := by
  rw [decimal]
  split_ifs
  · exact hdigits
  · rw [List.length_map, List.length_reverse]
    exact (Nat.digits_length_le_iff (by norm_num) n).mpr h

theorem decimalInt_length {n : Int} {digits : Nat} (hdigits : 0 < digits)
    (h : n.natAbs < 10 ^ digits) : (decimalInt n).length ≤ digits + 1 := by
  rw [decimalInt]
  split_ifs
  · exact Nat.succ_le_succ (decimal_length hdigits h)
  · exact (decimal_length hdigits h).trans (Nat.le_succ _)

end Decimal

end AsciiNumber
