import MonetdbAdbc.Encode
import MonetdbAdbc.Decode

namespace MonetdbAdbc
open LittleEndian Utf8 Machine

section Readers

theorem splitNul_append {value : Bytes} (h : value.contains 0 = false) (rest : Bytes) :
    splitNul (value ++ 0 :: rest) = some (value, rest) := by
  induction value with
  | nil => rfl
  | cons b value ih =>
    simp only [List.contains_cons, Bool.or_eq_false_iff, beq_eq_false_iff_ne] at h
    have hb : b ≠ 0 := Ne.symm h.1
    simp [splitNul, hb, ih h.2]

theorem splitNul_some {tail value rest : Bytes} (h : splitNul tail = some (value, rest)) :
    tail = value ++ 0 :: rest := by
  induction tail generalizing value with
  | nil => simp [splitNul] at h
  | cons b tail ih =>
    simp only [splitNul] at h
    split_ifs at h with hb
    · simp only [Option.some.injEq, Prod.mk.injEq] at h
      simp [hb, ← h.1, h.2]
    · simp only [Option.map_eq_some_iff, Prod.exists, Prod.mk.injEq] at h
      obtain ⟨value', rest', hsplit, rfl, rfl⟩ := h
      rw [ih hsplit, List.cons_append]

theorem literalString_append {value : Str} (h : value.bytes.contains 0 = false) (row : Nat)
    (rest : Bytes) : literalString row (value.bytes ++ 0 :: rest) = .ok (value, rest) := by
  simp [literalString, splitNul_append h]

theorem literalString_ok {row : Nat} {tail rest : Bytes} {value : Str}
    (h : literalString row tail = .ok (value, rest)) : tail = value.bytes ++ 0 :: rest := by
  simp only [literalString] at h
  cases hsplit : splitNul tail with
  | none => simp [hsplit] at h
  | some pair =>
    obtain ⟨bytes, after⟩ := pair
    rw [hsplit] at h
    simp only at h
    cases hutf : fromUtf8 bytes with
    | none => simp [hutf] at h
    | some text =>
      simp only [hutf, Except.ok.injEq, Prod.mk.injEq] at h
      rw [splitNul_some hsplit, ← h.1, ← h.2, fromUtf8_some hutf]

theorem longBackref_ok {row index shift distance : Nat} {bytes : Bytes} {result : Nat × Nat}
    (h : longBackref row index shift distance bytes = .ok result) :
    index < result.2 ∧ result.2 ≤ index + bytes.length := by
  induction bytes generalizing index shift distance with
  | nil => simp [longBackref] at h
  | cons byte bytes ih =>
    simp only [longBackref] at h
    cases hadd : checkedAdd distance (byte.toNat % 128 * 2 ^ shift) with
    | none => simp [hadd] at h
    | some next =>
      simp only [hadd] at h
      split_ifs at h with hlow hlast hshift
      · rw [← Except.ok.inj h]
        simp
      · have hrest := ih h
        simp only [List.length_cons]
        omega

theorem longBackref_write (row index shift acc distance : Nat) (rest : Bytes)
    (hshift : shift < 64) (hfit : acc + distance * 2 ^ shift ≤ usizeMax) :
    longBackref row index shift acc (Varint.write distance ++ rest) =
      .ok (acc + distance * 2 ^ shift, index + (Varint.write distance).length) := by
  induction distance using Nat.strong_induction_on generalizing index shift acc with
  | _ distance ih =>
    have hmax : usizeMax = 2 ^ 64 - 1 := rfl
    have hpow : 0 < 2 ^ shift := Nat.two_pow_pos shift
    have hmod : distance % 128 * 2 ^ shift ≤ distance * 2 ^ shift :=
      Nat.mul_le_mul_right _ (Nat.mod_le _ _)
    have hlow : ¬ distance % 128 > usizeMax / 2 ^ shift := by
      rw [not_lt, Nat.le_div_iff_mul_le hpow]
      omega
    have hadd : checkedAdd acc (distance % 128 * 2 ^ shift) =
        some (acc + distance % 128 * 2 ^ shift) := checkedAdd_eq_some.mpr ⟨by omega, rfl⟩
    rw [Varint.write]
    split_ifs with hlast
    · have hbyte : (UInt8.ofNat (distance % 128)).toNat = distance % 128 := by
        rw [UInt8.toNat_ofNat']
        omega
      have hsmall : distance % 128 = distance := by omega
      have hlt : UInt8.ofNat (distance % 128) < 0x80 := by
        rw [UInt8.lt_iff_toNat_lt, hbyte]
        exact Nat.mod_lt _ (by decide)
      simp only [List.cons_append, List.nil_append, longBackref, hbyte, Nat.mod_mod, if_neg hlow,
        hadd, if_pos hlt, List.length_singleton]
      rw [hsmall]
    · have hbyte : (UInt8.ofNat (distance % 128 + 128)).toNat = distance % 128 + 128 := by
        rw [UInt8.toNat_ofNat']
        omega
      have hge : ¬ UInt8.ofNat (distance % 128 + 128) < 0x80 := by
        rw [UInt8.lt_iff_toNat_lt, hbyte, not_lt]
        exact Nat.le_add_left _ _
      have hmod128 : (distance % 128 + 128) % 128 = distance % 128 := by omega
      have hsplit : distance * 2 ^ shift =
          distance % 128 * 2 ^ shift + distance / 128 * 2 ^ (shift + 7) := by
        have hdiv := Nat.mod_add_div distance 128
        calc distance * 2 ^ shift = (distance % 128 + 128 * (distance / 128)) * 2 ^ shift := by
              rw [hdiv]
          _ = distance % 128 * 2 ^ shift + distance / 128 * 2 ^ (shift + 7) := by
              rw [pow_add]
              ring
      have hnext : shift + 7 < 64 := by
        by_contra hge64
        have hbig : 2 ^ 64 ≤ 2 ^ (shift + 7) := Nat.pow_le_pow_right (by decide) (by omega)
        have hone : 1 * 2 ^ (shift + 7) ≤ distance / 128 * 2 ^ (shift + 7) :=
          Nat.mul_le_mul_right _ (by omega)
        omega
      have hrec := ih (distance / 128) (by omega) (index + 1) (shift + 7)
        (acc + distance % 128 * 2 ^ shift) hnext (by omega)
      simp only [List.cons_append, longBackref, hbyte, hmod128, if_neg hlow, hadd, if_neg hge,
        if_pos hnext, hrec, List.length_cons, hsplit]
      congr 2 <;> omega

end Readers

section Pieces
variable {history : List (Option Str)} {value : Option Str} {previous : Nat} {state : StringState}

def Reads (history : List (Option Str)) (row : Nat) (piece : Bytes) (value : Option Str) : Prop :=
  ∀ suffix, ∃ first rest, piece ++ suffix = first :: rest ∧
    stringValue history row first rest = .ok (value, piece.length, suffix)

theorem not_backref_byte {first : UInt8} (h : first < 0x80 ∨ 0xC2 ≤ first) :
    first ≠ 0x80 ∧ ¬(0x81 ≤ first ∧ first ≤ 0xbf) := by
  rw [UInt8.lt_iff_toNat_lt, UInt8.le_iff_toNat_le] at h
  rw [ne_eq, ← UInt8.toNat_inj, UInt8.le_iff_toNat_le, UInt8.le_iff_toNat_le]
  have h1 : (0x80 : UInt8).toNat = 0x80 := rfl
  have h2 : (0x81 : UInt8).toNat = 0x81 := rfl
  have h3 : (0xbf : UInt8).toNat = 0xbf := rfl
  have h4 : (0xC2 : UInt8).toNat = 0xC2 := rfl
  omega

theorem reads_literal {value : Str} (h : value.bytes.contains 0 = false)
    (history : List (Option Str)) (row : Nat) :
    Reads history row (value.bytes ++ [0]) (some value) := by
  intro suffix
  have hliteral := literalString_append h row suffix
  obtain ⟨bytes, hvalid⟩ := value
  have hplain : ∀ first rest, bytes ++ 0 :: suffix = first :: rest →
      first < 0x80 ∨ 0xC2 ≤ first := by
    intro first rest heq
    cases bytes with
    | nil =>
      obtain rfl : (0 : UInt8) = first := by simpa using congrArg List.head? heq
      exact .inl (by decide)
    | cons b bs =>
      obtain rfl : b = first := by simpa using congrArg List.head? heq
      exact head_not_continuation hvalid
  cases htail : bytes ++ 0 :: suffix with
  | nil => simp at htail
  | cons first rest =>
    obtain ⟨hnull, hshort⟩ := not_backref_byte (hplain first rest htail)
    simp only [htail] at hliteral
    refine ⟨first, rest, by simpa using htail, ?_⟩
    simp [stringValue, hnull, hshort, hliteral]

theorem reads_null (history : List (Option Str)) (row : Nat) :
    Reads history row [0x80, 0] none := by
  intro suffix
  refine ⟨0x80, 0 :: suffix, rfl, ?_⟩
  simp [stringValue, longBackref, checkedAdd]

theorem backref_get {row : Nat} (hprevious : previous < row)
    (hget : history[previous]? = some value) :
    backref history row (row - previous) = .ok value := by
  have hindex : row - (row - previous) = previous := by omega
  simp [backref, hindex, hget]

theorem reads_backref {row : Nat} (hprevious : previous < row) (hrow : row ≤ usizeMax)
    (hget : history[previous]? = some value) :
    Reads history row (appendBackref (row - previous)) value := by
  intro suffix
  have hback := backref_get hprevious hget
  unfold appendBackref
  split_ifs with hshort
  · have hbyte : (UInt8.ofNat (0x80 + (row - previous))).toNat = 0x80 + (row - previous) := by
      rw [UInt8.toNat_ofNat']
      omega
    have hne : UInt8.ofNat (0x80 + (row - previous)) ≠ 0x80 := by
      rw [ne_eq, ← UInt8.toNat_inj, hbyte]
      have h80 : (0x80 : UInt8).toNat = 0x80 := rfl
      omega
    have hrange : 0x81 ≤ UInt8.ofNat (0x80 + (row - previous)) ∧
        UInt8.ofNat (0x80 + (row - previous)) ≤ 0xbf := by
      rw [UInt8.le_iff_toNat_le, UInt8.le_iff_toNat_le, hbyte]
      have h81 : (0x81 : UInt8).toNat = 0x81 := rfl
      have hbf : (0xbf : UInt8).toNat = 0xbf := rfl
      omega
    refine ⟨_, suffix, rfl, ?_⟩
    simp only [stringValue, if_neg hne, if_pos hrange, hbyte, Nat.add_sub_cancel_left, hback,
      ok_bind, List.length_singleton]
  · have hlong := longBackref_write row 0 0 0 (row - previous) suffix (by decide) (by simpa using (Nat.sub_le _ _).trans hrow)
    have hnonzero : row - previous ≠ 0 := by omega
    refine ⟨0x80, Varint.write (row - previous) ++ suffix, rfl, ?_⟩
    simp only [stringValue, if_true, hlong, ok_bind, zero_add, pow_zero, mul_one, if_neg hnonzero,
      hback, List.drop_left, List.length_cons]

structure Tracks (state : StringState) (history : List (Option Str)) : Prop where
  seen : ∀ value previous, state.seen value = some previous →
    ∃ text : Str, text.bytes = value ∧ history[previous]? = some (some text)
  null : ∀ previous, state.null = some previous → history[previous]? = some none

theorem getElem?_snoc {α : Type} {xs : List α} {i : Nat} {x y : α} (h : xs[i]? = some x) :
    (xs ++ [y])[i]? = some x := by
  rw [List.getElem?_append_left (List.getElem?_eq_some_iff.mp h).1, h]

theorem Tracks.push_seen (h : Tracks state history) (value : Str) :
    Tracks { state with seen := Function.update state.seen value.bytes (some history.length) }
      (history ++ [some value]) where
  seen := by
    intro bytes previous hprevious
    simp only at hprevious
    by_cases heq : bytes = value.bytes
    · subst heq
      rw [Function.update_self, Option.some.injEq] at hprevious
      exact ⟨value, rfl, by simp [← hprevious]⟩
    · rw [Function.update_of_ne heq] at hprevious
      obtain ⟨text, htext, hget⟩ := h.seen bytes previous hprevious
      exact ⟨text, htext, getElem?_snoc hget⟩
  null := fun previous hprevious => getElem?_snoc (h.null previous hprevious)

theorem Tracks.push_null (h : Tracks state history) :
    Tracks { state with null := some history.length } (history ++ [none]) where
  seen := by
    intro bytes previous hprevious
    obtain ⟨text, htext, hget⟩ := h.seen bytes previous hprevious
    exact ⟨text, htext, getElem?_snoc hget⟩
  null := by
    intro previous hprevious
    cases hprevious
    simp

theorem reads_recent (before : List (Option Str)) (hrow : (before ++ history).length ≤ usizeMax)
    (hget : history[previous]? = some value) :
    Reads (before ++ history) (before ++ history).length (appendBackref (history.length - previous))
      value := by
  have hprevious := (List.getElem?_eq_some_iff.mp hget).1
  have hdistance : (before ++ history).length - (before.length + previous) =
      history.length - previous := by
    rw [List.length_append]
    omega
  rw [← hdistance]
  refine reads_backref (by simpa using hprevious) hrow ?_
  rw [List.getElem?_append_right (Nat.le_add_right _ _), Nat.add_sub_cancel_left, hget]

-- The encoder counts rows from where its tables start, the decoder from the start of the column.
theorem stringPiece_reads {next : StringState} {piece : Bytes} (before : List (Option Str))
    (hstate : Tracks state history) (hrow : (before ++ history).length ≤ usizeMax)
    (h : stringPiece history.length state value = .ok (piece, next)) :
    Reads (before ++ history) (before ++ history).length piece value ∧
      Tracks next (history ++ [value]) := by
  cases value with
  | some value =>
    simp only [stringPiece] at h
    cases hnul : value.bytes.contains 0 with
    | true =>
      rw [if_pos hnul] at h
      simp [invalid] at h
    | false =>
      rw [hnul] at h
      cases hseen : state.seen value.bytes with
      | none =>
        simp only [hseen, Bool.false_eq_true, if_false, Except.ok.injEq, Prod.mk.injEq] at h
        obtain ⟨rfl, rfl⟩ := h
        exact ⟨reads_literal hnul _ _, hstate.push_seen value⟩
      | some previous =>
        simp only [hseen, Bool.false_eq_true, if_false, Except.ok.injEq, Prod.mk.injEq] at h
        obtain ⟨rfl, rfl⟩ := h
        obtain ⟨text, htext, hget⟩ := hstate.seen _ _ hseen
        obtain rfl : text = value := by
          cases text
          cases value
          simpa using htext
        exact ⟨reads_recent before hrow hget, hstate.push_seen text⟩
  | none =>
    simp only [stringPiece] at h
    cases hnull : state.null with
    | none =>
      simp only [hnull, Except.ok.injEq, Prod.mk.injEq] at h
      obtain ⟨rfl, rfl⟩ := h
      exact ⟨reads_null _ _, hstate.push_null⟩
    | some previous =>
      have hget := hstate.null _ hnull
      simp only [hnull] at h
      split_ifs at h with hnear
      · simp only [Except.ok.injEq, Prod.mk.injEq] at h
        obtain ⟨rfl, rfl⟩ := h
        exact ⟨reads_recent before hrow hget, hstate.push_null⟩
      · simp only [Except.ok.injEq, Prod.mk.injEq] at h
        obtain ⟨rfl, rfl⟩ := h
        exact ⟨reads_null _ _, hstate.push_null⟩

end Pieces

section Runs
variable {values history : List (Option Str)} {bytes : Bytes} {row : Nat} {state : StringState}
  {value : Option Str}

def textBytes (values : List (Option Str)) : Nat :=
  (values.map fun value => value.elim 0 fun value => value.bytes.length).sum

theorem encodeStringsFrom_cons_ok (h : encodeStringsFrom row state (value :: values) = .ok bytes) :
    ∃ piece next rest, stringPiece row state value = .ok (piece, next) ∧
      encodeStringsFrom (row + 1) next values = .ok rest ∧ bytes = piece ++ rest := by
  simp only [encodeStringsFrom, bind_eq_ok, Prod.exists, Except.ok.injEq] at h
  obtain ⟨piece, next, hpiece, rest, hrest, rfl⟩ := h
  exact ⟨piece, next, rest, hpiece, hrest, rfl⟩

theorem admitValue_ok (limit row valueBytes : Nat) (value : Option Str)
    (h : valueBytes + textBytes [value] ≤ min i32Max limit) :
    admitValue limit row valueBytes value = .ok (valueBytes + textBytes [value]) := by
  have hmax : i32Max ≤ usizeMax := by decide
  cases value with
  | none => rfl
  | some value =>
    simp only [textBytes, List.map_cons, List.map_nil, List.sum_cons, List.sum_nil,
      Option.elim_some, add_zero] at h ⊢
    have hadd : checkedAdd valueBytes value.bytes.length =
        some (valueBytes + value.bytes.length) := checkedAdd_eq_some.mpr ⟨by omega, rfl⟩
    simp only [admitValue, hadd, okOr_some, ok_bind]
    rw [if_neg (by omega)]

inductive ReadsAll : List (Option Str) → Bytes → List (Option Str) → Prop
  | nil {history : List (Option Str)} : ReadsAll history [] []
  | cons {history values : List (Option Str)} {piece rest : Bytes} {value : Option Str}
      (hpiece : Reads history history.length piece value)
      (hrest : ReadsAll (history ++ [value]) rest values) :
      ReadsAll history (piece ++ rest) (value :: values)

theorem ReadsAll.append {values' : List (Option Str)} {bytes' : Bytes}
    (h : ReadsAll history bytes values) (h' : ReadsAll (history ++ values) bytes' values') :
    ReadsAll history (bytes ++ bytes') (values ++ values') := by
  induction h with
  | nil => simpa using h'
  | cons hpiece _ ih =>
    rw [List.append_assoc]
    exact .cons hpiece (ih (by simpa using h'))

theorem Reads.ne_nil {piece : Bytes} (h : Reads history row piece value) : piece ≠ [] := by
  obtain ⟨first, rest, hpiece, -⟩ := h []
  rw [List.append_nil] at hpiece
  simp [hpiece]

theorem ReadsAll.length_le (h : ReadsAll history bytes values) : values.length ≤ bytes.length := by
  induction h with
  | nil => exact le_refl 0
  | cons hpiece _ ih =>
    have hpositive := List.length_pos_iff.mpr hpiece.ne_nil
    rw [List.length_cons, List.length_append]
    omega

theorem encodeStringsFrom_reads (before : List (Option Str)) (hstate : Tracks state history)
    (h : encodeStringsFrom history.length state values = .ok bytes)
    (hrows : (before ++ history).length + values.length ≤ usizeMax) :
    ReadsAll (before ++ history) bytes values := by
  -- by induction on the remaining values: Tracks ties the encoder's tables to the rows since its start
  induction values generalizing state history bytes with
  | nil =>
    cases h
    exact .nil
  | cons value values ih =>
    obtain ⟨piece, next, rest, hpiece, hrest, rfl⟩ := encodeStringsFrom_cons_ok h
    rw [List.length_cons] at hrows
    obtain ⟨hreads, hnext⟩ := stringPiece_reads before hstate (by omega) hpiece
    refine .cons hreads ?_
    rw [List.append_assoc]
    refine ih hnext (by rwa [List.length_append, List.length_singleton]) ?_
    simp only [List.length_append, List.length_singleton] at hrows ⊢
    omega

theorem encodeStrings_reads (before : List (Option Str)) (h : encodeStrings values = .ok bytes)
    (hrows : before.length + values.length ≤ usizeMax) : ReadsAll before bytes values := by
  have hstart : Tracks ⟨fun _ => none, none⟩ [] := ⟨nofun, nofun⟩
  have hreads := encodeStringsFrom_reads before hstart h (by rwa [List.append_nil])
  rwa [List.append_nil] at hreads

theorem decodeStringsWithBackrefs_reads {total limit : Nat} (pos valueBytes : Nat)
    (h : ReadsAll history bytes values) (hpos : pos + bytes.length = total)
    (hbytes : valueBytes + textBytes values ≤ min i32Max limit) :
    decodeStringsWithBackrefs total limit values.length history.length pos valueBytes history
      bytes = .ok (history ++ values) := by
  induction h generalizing pos valueBytes with
  | nil =>
    rw [List.length_nil, add_zero] at hpos
    simp [decodeStringsWithBackrefs, hpos]
  | @cons history values piece rest value hpiece _ ih =>
    obtain ⟨first, tail, htail, hvalue⟩ := hpiece rest
    have hsplit : textBytes (value :: values) = textBytes [value] + textBytes values := by
      simp [textBytes]
    have hadmit := admitValue_ok limit history.length valueBytes value (by omega)
    rw [List.length_append] at hpos
    have hrun := ih (pos + piece.length) (valueBytes + textBytes [value]) (by omega) (by omega)
    rw [List.length_append, List.append_assoc, List.singleton_append] at hrun
    rw [htail]
    simp only [List.length_cons, decodeStringsWithBackrefs, hvalue, ok_bind, hadmit]
    exact hrun

theorem appendBackref_ne_nil (distance : Nat) : appendBackref distance ≠ [] := by
  unfold appendBackref
  split_ifs <;> simp

theorem stringPiece_ne_nil {next : StringState} {piece : Bytes}
    (h : stringPiece row state value = .ok (piece, next)) : piece ≠ [] := by
  cases value with
  | some value =>
    simp only [stringPiece] at h
    split_ifs at h
    · simp [invalid] at h
    · split at h
      · rw [← (Prod.mk.inj (Except.ok.inj h)).1]
        exact appendBackref_ne_nil _
      · simp [← (Prod.mk.inj (Except.ok.inj h)).1]
  | none =>
    simp only [stringPiece] at h
    split at h
    · split_ifs at h
      · rw [← (Prod.mk.inj (Except.ok.inj h)).1]
        exact appendBackref_ne_nil _
      · simp [← (Prod.mk.inj (Except.ok.inj h)).1]
    · simp [← (Prod.mk.inj (Except.ok.inj h)).1]

theorem encodeStringsFrom_length (h : encodeStringsFrom row state values = .ok bytes) :
    values.length ≤ bytes.length := by
  induction values generalizing row state bytes with
  | nil => simp
  | cons value values ih =>
    obtain ⟨piece, next, rest, hpiece, hrest, rfl⟩ := encodeStringsFrom_cons_ok h
    have hpositive := List.length_pos_iff.mpr (stringPiece_ne_nil hpiece)
    have hle := ih hrest
    simp only [List.length_cons, List.length_append]
    omega

def hasNul (value : Option Str) : Bool := value.any fun value => value.bytes.contains 0

theorem stringPiece_isOk (row : Nat) (state : StringState) (value : Option Str) :
    (∃ result, stringPiece row state value = .ok result) ↔ hasNul value = false := by
  cases value with
  | some value =>
    simp only [stringPiece, hasNul, Option.any_some]
    cases value.bytes.contains 0 with
    | true => simp [invalid]
    | false => cases state.seen value.bytes <;> simp
  | none =>
    simp only [stringPiece, hasNul, Option.any_none]
    cases state.null with
    | none => simp
    | some previous =>
      simp only
      split_ifs <;> simp

theorem encodeStringsFrom_isOk (values : List (Option Str)) (row : Nat) (state : StringState) :
    (∃ bytes, encodeStringsFrom row state values = .ok bytes) ↔
      ∀ value ∈ values, hasNul value = false := by
  induction values generalizing row state with
  | nil => simp [encodeStringsFrom]
  | cons value values ih =>
    rw [List.forall_mem_cons, ← stringPiece_isOk row state value]
    constructor
    · rintro ⟨bytes, h⟩
      obtain ⟨piece, next, rest, hpiece, hrest, -⟩ := encodeStringsFrom_cons_ok h
      exact ⟨⟨_, hpiece⟩, (ih (row + 1) next).mp ⟨rest, hrest⟩⟩
    · rintro ⟨⟨⟨piece, next⟩, hpiece⟩, hvalues⟩
      obtain ⟨rest, hrest⟩ := (ih (row + 1) next).mpr hvalues
      exact ⟨piece ++ rest, by simp [encodeStringsFrom, hpiece, hrest]⟩

end Runs

section FastPath

def Agrees (fast : Except DecodeError (Option (List (Option Str)))) (history : List (Option Str))
    (general : Except DecodeError (List (Option Str))) : Prop :=
  match fast with
  | .error e => general = .error e
  | .ok none => True
  | .ok (some values) => general = .ok (history ++ values)

theorem Agrees.cons {fast : Except DecodeError (Option (List (Option Str)))}
    {history : List (Option Str)} {value : Option Str}
    {general : Except DecodeError (List (Option Str))}
    (h : Agrees fast (history ++ [value]) general) :
    Agrees (fast >>= fun values => .ok (values.map (value :: ·))) history general := by
  cases fast with
  | error e => exact h
  | ok values =>
    cases values with
    | none => trivial
    | some values => simpa [Agrees] using h

theorem decodeStringsWithoutBackrefs_agrees {total limit : Nat} (htotal : total ≤ i32Max)
    (hlimit : total ≤ limit) (n row : Nat) (history : List (Option Str)) {pos valueBytes : Nat}
    {tail : Bytes} (hpos : pos + tail.length = total) (hbytes : valueBytes ≤ pos) :
    Agrees (decodeStringsWithoutBackrefs total n row pos valueBytes tail) history
      (decodeStringsWithBackrefs total limit n row pos valueBytes history tail) := by
  have hmax : i32Max ≤ usizeMax := by decide
  induction n generalizing row pos valueBytes history tail with
  | zero =>
    simp only [decodeStringsWithoutBackrefs, decodeStringsWithBackrefs]
    split_ifs <;> simp [Agrees]
  | succ n ih =>
    cases tail with
    | nil => simp [decodeStringsWithoutBackrefs, decodeStringsWithBackrefs, Agrees]
    | cons first rest =>
      simp only [List.length_cons] at hpos
      simp only [decodeStringsWithoutBackrefs, decodeStringsWithBackrefs, stringValue]
      split_ifs with hlong hshort
      · cases hback : longBackref row 0 0 0 rest with
        | error e => simp [Agrees]
        | ok pair =>
          obtain ⟨distance, consumed⟩ := pair
          obtain ⟨-, hconsumed⟩ := longBackref_ok hback
          simp only [ok_bind]
          by_cases hzero : distance = 0
          · simp only [hzero, ne_eq, not_true, if_false, if_true, ok_bind, admitValue]
            refine Agrees.cons (ih _ _ ?_ (by omega))
            simp only [List.length_drop]
            simp only [zero_add] at hconsumed
            omega
          · simp [hzero, Agrees]
      · trivial
      · cases hliteral : literalString row (first :: rest) with
        | error e => simp [Agrees]
        | ok pair =>
          obtain ⟨value, after⟩ := pair
          have hlen := congrArg List.length (literalString_ok hliteral)
          simp only [List.length_cons, List.length_append] at hlen
          have hadd : checkedAdd valueBytes value.bytes.length =
              some (valueBytes + value.bytes.length) := checkedAdd_eq_some.mpr ⟨by omega, rfl⟩
          simp only [ok_bind, admitValue, hadd, okOr_some]
          rw [if_neg (by omega), if_neg (by omega)]
          exact Agrees.cons (ih _ _ (by omega) (by omega))

theorem length_le_expansionLimit {bytes : Bytes} (h : bytes.length ≤ i32Max) :
    bytes.length ≤ expansionLimit bytes := by
  have hmax : i32Max = 2147483647 ∧ usizeMax = 18446744073709551615 := ⟨rfl, rfl⟩
  simp only [expansionLimit, saturatingMul]
  omega

theorem decodeStrings_paths_agree {bytes : Bytes} (h : bytes.length ≤ i32Max) (rows : Nat) :
    Agrees (decodeStringsWithoutBackrefs bytes.length rows 0 0 0 bytes) []
      (decodeStringsWithBackrefs bytes.length (expansionLimit bytes) rows 0 0 0 [] bytes) :=
  decodeStringsWithoutBackrefs_agrees h (length_le_expansionLimit h) rows 0 [] (zero_add _)
    (le_refl 0)

theorem string_fast_path_agrees (bytes : Bytes) (rows : Nat) (hlength : bytes.length ≤ i32Max) :
    (∀ values, decodeStringsWithoutBackrefs bytes.length rows 0 0 0 bytes = .ok (some values) →
      decodeStringsWithBackrefs bytes.length (expansionLimit bytes) rows 0 0 0 [] bytes =
        .ok values) ∧
    ∀ e, decodeStringsWithoutBackrefs bytes.length rows 0 0 0 bytes = .error e →
      decodeStringsWithBackrefs bytes.length (expansionLimit bytes) rows 0 0 0 [] bytes =
        .error e := by
  have hagree := decodeStrings_paths_agree hlength rows
  constructor
  · intro values hfast
    simpa [hfast, Agrees] using hagree
  · intro e hfast
    simpa [hfast, Agrees] using hagree

theorem string_fast_path_agrees_on_short_columns :
    decodeStringsWithBackrefs 4 (expansionLimit [97, 0, 0x80, 0]) 2 0 0 0 [] [97, 0, 0x80, 0] =
        .ok [some ⟨[97], rfl⟩, none] ∧
      decodeStringsWithBackrefs 3 (expansionLimit [97, 0, 98]) 2 0 0 0 [] [97, 0, 98] =
        .error (.invalidValue 1 "string is not NUL-terminated") :=
  ⟨(string_fast_path_agrees [97, 0, 0x80, 0] 2 (by decide)).1 _ (by decide +kernel),
    (string_fast_path_agrees [97, 0, 98] 2 (by decide)).2 _ (by decide +kernel)⟩

end FastPath

section RoundTrip

theorem decodeStrings_reads {values : List (Option Str)} {bytes : Bytes}
    (h : ReadsAll [] bytes values) (hlength : bytes.length ≤ i32Max)
    (hbytes : textBytes values ≤ min i32Max (max (16 * bytes.length) (2 ^ 20))) :
    decodeStrings bytes values.length = .ok values := by
  have hmax : i32Max = 2147483647 ∧ usizeMax = 18446744073709551615 := ⟨rfl, rfl⟩
  have hrows := h.length_le
  have hlimit : expansionLimit bytes = max (16 * bytes.length) (2 ^ 20) := by
    simp only [expansionLimit, saturatingMul]
    omega
  have hgeneral : decodeStringsWithBackrefs bytes.length (expansionLimit bytes) values.length 0 0 0
      [] bytes = .ok values :=
    decodeStringsWithBackrefs_reads 0 0 h (zero_add _) (by rw [hlimit]; simpa using hbytes)
  have hfast := decodeStrings_paths_agree hlength values.length
  rw [hgeneral] at hfast
  simp only [decodeStrings]
  rw [if_neg (by omega), if_neg (by omega)]
  cases hresult : decodeStringsWithoutBackrefs bytes.length values.length 0 0 0 bytes with
  | error e => simp [hresult, Agrees] at hfast
  | ok result =>
    cases result with
    | none => simpa using hgeneral
    | some decoded =>
      simp only [hresult, Agrees, List.nil_append, Except.ok.injEq] at hfast
      simp [hfast]

theorem decodeStrings_encodeStrings {values : List (Option Str)} {bytes : Bytes}
    (h : encodeStrings values = .ok bytes) (hlength : bytes.length ≤ i32Max)
    (hbytes : textBytes values ≤ min i32Max (max (16 * bytes.length) (2 ^ 20))) :
    decodeStrings bytes values.length = .ok values := by
  have hmax : i32Max ≤ usizeMax := by decide
  have hrows := encodeStringsFrom_length h
  exact decodeStrings_reads (encodeStrings_reads [] h (by simp; omega)) hlength hbytes

theorem string_columns_survive :
    (∀ values : List (Option Str), (∃ bytes, encodeStrings values = .ok bytes) ↔
      ∀ text : Str, some text ∈ values → 0 ∉ text.bytes) ∧
    ∀ (values : List (Option Str)) (bytes : Bytes), encodeStrings values = .ok bytes →
      bytes.length ≤ i32Max →
      textBytes values ≤ min i32Max (max (16 * bytes.length) (2 ^ 20)) →
      decodeStrings bytes values.length = .ok values := by
  refine ⟨fun values => ?_, fun _ _ h hlength hbytes =>
    decodeStrings_encodeStrings h hlength hbytes⟩
  rw [encodeStrings, encodeStringsFrom_isOk]
  constructor
  · intro h text htext
    simpa [hasNul] using h _ htext
  · intro h value hvalue
    cases value with
    | none => rfl
    | some text => simpa [hasNul] using h text hvalue

theorem repeated_string_survives :
    encodeStrings [some ⟨[97], rfl⟩, none, some ⟨[97], rfl⟩] = .ok [97, 0, 0x80, 0, 0x82] ∧
      decodeStrings [97, 0, 0x80, 0, 0x82] 3 = .ok [some ⟨[97], rfl⟩, none, some ⟨[97], rfl⟩] := by
  have hencode : encodeStrings [some ⟨[97], rfl⟩, none, some ⟨[97], rfl⟩] =
      .ok [97, 0, 0x80, 0, 0x82] := by decide +kernel
  exact ⟨hencode, string_columns_survive.2 _ _ hencode (by decide) (by decide)⟩

end RoundTrip

end MonetdbAdbc
