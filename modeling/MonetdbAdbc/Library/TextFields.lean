import MonetdbAdbc.Library.AsciiNumber

namespace TextFields
open LittleEndian AsciiNumber

section Padding

def padded (width n : Nat) : Bytes :=
  List.replicate (width - (decimal n).length) 48 ++ decimal n

theorem padded_isDigit (width n : Nat) : ∀ b ∈ padded width n, IsDigit b := by
  intro b hb
  rcases List.mem_append.mp hb with hzero | hdigit
  · rw [List.eq_of_mem_replicate hzero]
    exact ⟨by decide, by decide⟩
  · exact decimal_isDigit n b hdigit

theorem padded_ne_nil (width n : Nat) : padded width n ≠ [] := by
  simp [padded, decimal_ne_nil]

theorem le_padded_length (width n : Nat) : width ≤ (padded width n).length := by
  rw [padded, List.length_append, List.length_replicate]
  omega

theorem padded_length {width n : Nat} (hwidth : 0 < width) (h : n < 10 ^ width) :
    (padded width n).length = width := by
  have hle := decimal_length hwidth h
  rw [padded, List.length_append, List.length_replicate]
  omega

theorem digitsFrom_zeros (k : Nat) (text : Bytes) :
    digitsFrom 0 (List.replicate k 48 ++ text) = digitsFrom 0 text := by
  induction k with
  | zero => rfl
  | succ k ih =>
    rw [List.replicate_succ, List.cons_append, digitsFrom, if_pos (by decide)]
    exact ih

theorem parseDigits_padded (width n : Nat) : parseDigits (padded width n) = some n := by
  have hdigits := parseDigits_decimal n
  rw [parseDigits, if_neg (decimal_ne_nil n)] at hdigits
  rw [parseDigits, if_neg (padded_ne_nil width n), padded, digitsFrom_zeros, hdigits]

theorem notMem_of_isDigit {text : Bytes} (h : ∀ b ∈ text, IsDigit b) {separator : UInt8}
    (hseparator : ¬IsDigit separator) : separator ∉ text :=
  fun hmem => hseparator (h separator hmem)

end Padding

section Fields

def cut (separator : UInt8) : Bytes → Option (Bytes × Bytes)
  | [] => none
  | b :: bs =>
    if b = separator then some ([], bs)
    else (cut separator bs).map fun parts => (b :: parts.1, parts.2)

theorem cut_append {separator : UInt8} {field : Bytes} (h : separator ∉ field) (rest : Bytes) :
    cut separator (field ++ separator :: rest) = some (field, rest) := by
  induction field with
  | nil => exact if_pos rfl
  | cons b field ih =>
    obtain ⟨hb, hfield⟩ : separator ≠ b ∧ separator ∉ field := by simpa using h
    rw [List.cons_append, cut, if_neg (Ne.symm hb), ih hfield]
    rfl

theorem cut_none {separator : UInt8} {field : Bytes} (h : separator ∉ field) :
    cut separator field = none := by
  induction field with
  | nil => rfl
  | cons b field ih =>
    obtain ⟨hb, hfield⟩ : separator ≠ b ∧ separator ∉ field := by simpa using h
    rw [cut, if_neg (Ne.symm hb), ih hfield]
    rfl

def within (opening closing text : Bytes) : Option Bytes :=
  let body := (text.drop opening.length).take (text.length - opening.length - closing.length)
  if text = opening ++ body ++ closing then some body else none

theorem within_append (opening closing body : Bytes) :
    within opening closing (opening ++ body ++ closing) = some body := by
  have hbody : ((opening ++ body ++ closing).drop opening.length).take
      ((opening ++ body ++ closing).length - opening.length - closing.length) = body := by
    rw [List.append_assoc, List.drop_left, List.take_left']
    simp only [List.length_append]
    omega
  simp only [within, hbody, if_true]

def signed (read : Bytes → Option Nat) (text : Bytes) : Option Int :=
  if text.head? = some 45 then (read text.tail).map fun n => -(n : Int)
  else (read text).map fun n => (n : Int)

def withSign (negative : Bool) (text : Bytes) : Bytes := if negative then 45 :: text else text

theorem signed_withSign {read : Bytes → Option Nat} {value : Int} {text : Bytes}
    (hread : read text = some value.natAbs) (hhead : text.head? ≠ some 45) :
    signed read (withSign (value < 0) text) = some value := by
  by_cases hneg : value < 0
  · have hvalue : -(value.natAbs : Int) = value := by omega
    rw [withSign, if_pos (by simpa using hneg), signed, List.head?_cons, if_pos rfl, List.tail_cons,
      hread]
    exact congrArg some hvalue
  · have hvalue : (value.natAbs : Int) = value := by omega
    rw [withSign, if_neg (by simpa using hneg), signed, if_neg hhead, hread]
    exact congrArg some hvalue

end Fields

section Hex

def hexDigit (n : Nat) : UInt8 := UInt8.ofNat (if n < 10 then 48 + n else 87 + n)

def hexPair (b : UInt8) : Bytes := [hexDigit (b.toNat / 16), hexDigit (b.toNat % 16)]

def hexText (bytes : Bytes) : Bytes := bytes.flatMap hexPair

def hexValue (b : UInt8) : Option Nat :=
  if 48 ≤ b ∧ b ≤ 57 then some (b.toNat - 48)
  else if 97 ≤ b ∧ b ≤ 102 then some (b.toNat - 87)
  else none

def readHex : Bytes → Option Bytes
  | [] => some []
  | high :: low :: rest => do
    let h ← hexValue high
    let l ← hexValue low
    let bytes ← readHex rest
    some (UInt8.ofNat (16 * h + l) :: bytes)
  | [_] => none

theorem hexValue_hexDigit : ∀ n < 16, hexValue (hexDigit n) = some n := by decide

theorem hexDigit_ne_dash : ∀ n < 16, hexDigit n ≠ 45 := by decide

theorem readHex_hexText (bytes : Bytes) : readHex (hexText bytes) = some bytes := by
  induction bytes with
  | nil => rfl
  | cons b bytes ih =>
    have hb := b.toNat_lt
    have hvalue : UInt8.ofNat (16 * (b.toNat / 16) + b.toNat % 16) = b := by
      rw [Nat.div_add_mod, UInt8.ofNat_toNat]
    change readHex (hexDigit (b.toNat / 16) :: hexDigit (b.toNat % 16) :: hexText bytes) = _
    rw [readHex, hexValue_hexDigit _ (by omega), hexValue_hexDigit _ (by omega), ih]
    exact congrArg (fun c => some (c :: bytes)) hvalue

theorem hexText_append (xs ys : Bytes) : hexText (xs ++ ys) = hexText xs ++ hexText ys :=
  List.flatMap_append

theorem dash_notMem_hexText (bytes : Bytes) : 45 ∉ hexText bytes := by
  intro hmem
  obtain ⟨b, -, hb⟩ := List.mem_flatMap.mp hmem
  have hlt := b.toNat_lt
  rcases List.mem_cons.mp hb with hhigh | hlow
  · exact hexDigit_ne_dash _ (by omega) hhigh.symm
  · exact hexDigit_ne_dash _ (by omega) (List.mem_singleton.mp hlow).symm

end Hex

section Quoting

def doubled (quote : UInt8) (text : Bytes) : Bytes :=
  text.flatMap fun b => if b = quote then [quote, quote] else [b]

def undoubled (quote : UInt8) : Bytes → Option Bytes
  | [] => some []
  | [b] => if b = quote then none else some [b]
  | b :: c :: rest =>
    if b = quote then if c = quote then (undoubled quote rest).map (quote :: ·) else none
    else (undoubled quote (c :: rest)).map (b :: ·)

theorem undoubled_cons {quote b : UInt8} (h : b ≠ quote) (rest : Bytes) :
    undoubled quote (b :: rest) = (undoubled quote rest).map (b :: ·) := by
  cases rest with
  | nil => simp [undoubled, h]
  | cons c rest => rw [undoubled, if_neg h]

theorem undoubled_doubled (quote : UInt8) (text : Bytes) :
    undoubled quote (doubled quote text) = some text := by
  induction text with
  | nil => rfl
  | cons b text ih =>
    rw [doubled, List.flatMap_cons]
    change undoubled quote (_ ++ doubled quote text) = _
    split_ifs with hb
    · subst hb
      rw [List.cons_append, List.cons_append, List.nil_append, undoubled, if_pos rfl, if_pos rfl, ih]
      rfl
    · rw [List.singleton_append, undoubled_cons hb, ih]
      rfl

theorem doubled_append (quote : UInt8) (xs ys : Bytes) :
    doubled quote (xs ++ ys) = doubled quote xs ++ doubled quote ys :=
  List.flatMap_append

theorem doubled_of_notMem {quote : UInt8} {text : Bytes} (h : quote ∉ text) :
    doubled quote text = text := by
  induction text with
  | nil => rfl
  | cons b text ih =>
    rw [List.mem_cons, not_or] at h
    rw [doubled, List.flatMap_cons, if_neg (Ne.symm h.1)]
    exact congrArg (b :: ·) (ih h.2)

end Quoting

end TextFields
