import MonetdbAdbc.Codec.StringCodec
import MonetdbAdbc.Library.Slices

namespace MonetdbAdbc
open LittleEndian Utf8 Machine Rows Slices

section Source

def exactBytes (width : Nat) (bytes : Bytes) : Except (Stop DecodeError) Bytes :=
  if bytes.length = width then .ok bytes else .error .panics

def byteAt (bytes : Bytes) (index : Nat) : Except (Stop DecodeError) UInt8 :=
  match bytes[index]? with
  | none => .error .panics
  | some byte => .ok byte

def invalidBool (value : UInt8) : Bool := 1 < value && value != 0x80

def boolValue (value : UInt8) : Option Bool := if value = 0x80 then none else some (value == 1)

def decodeBoolSlices (bytes : Bytes) (rows : Nat) : Except (Stop DecodeError) (List (Option Bool)) := do
  orFail (expectFixed bytes rows 1)
  if bytes.any invalidBool then
    match bytes.findIdx? invalidBool with
    | none => .error .panics
    | some row =>
      .error (.fails (.invalidValue row "boolean is not 0, 1, or the NULL sentinel 0x80"))
  else mapRows (fun _ row => (byteAt bytes row).map boolValue) (List.range rows)

def decimalValueSlices (width precision : Nat) (hugeint : Bool) (row : Nat) (chunk : Bytes) :
    Except (Stop DecodeError) (Slot 128) := do
  let chunk ← exactBytes width chunk
  orFail (decimalValue width precision hugeint row chunk)

def decodeDecimalSlices (bytes : Bytes) (rows precision : Nat) (scale : Int) (hugeint : Bool) :
    Except (Stop DecodeError) (List (Slot 128)) :=
  if ¬(1 ≤ precision ∧ precision ≤ 38) ∨ scale < 0 ∨ scale > precision then
    .error (.fails (.invalidColumn
      "decimal precision/scale must satisfy 1 <= precision <= 38 and 0 <= scale <= precision"))
  else
    match if hugeint then some 16 else decimalWireWidth precision with
    | none => .error .panics
    | some width => do
      orFail (expectFixed bytes rows width)
      -- a vector of 128-bit values is allocated unless the bytes already are such values
      if width ≠ 16 ∧ isizeMax < rows * 16 then .error .panics
      else if width ∈ [1, 2, 4, 8, 16] then
        mapRows (decimalValueSlices width precision hugeint) (chunksExact width bytes)
      else .error .panics

def literalStringSlices (bytes : Bytes) (row pos : Nat) : Except (Stop DecodeError) (Str × Nat) := do
  let tail ← slice bytes pos bytes.length
  match tail.findIdx? (· == 0) with
  | none => .error (.fails (.invalidValue row "string is not NUL-terminated"))
  | some finish => do
    match fromUtf8 (← slice tail 0 finish) with
    | none => .error (.fails (.invalidUtf8 row))
    | some value => .ok (value, finish)

def decodeStringsWithoutBackrefsSlices (bytes : Bytes) :
    Nat → Nat → Nat → Nat → Except (Stop DecodeError) (Option (List (Option Str)))
  | 0, _, pos, _ =>
    if pos ≠ bytes.length then .error (.fails (.length pos bytes.length)) else .ok (some [])
  | n + 1, row, pos, valueBytes =>
    match bytes[pos]? with
    | none => .error (.fails (.length (pos + 1) bytes.length))
    | some first =>
      if first = 0x80 then do
        let (distance, consumed) ←
          orFail (longBackref row 0 0 0 (← slice bytes (pos + 1) bytes.length))
        if distance ≠ 0 then .ok none
        else
          let values ← decodeStringsWithoutBackrefsSlices bytes n (row + 1) (pos + (consumed + 1))
            valueBytes
          .ok (values.map (none :: ·))
      else if 0x81 ≤ first ∧ first ≤ 0xbf then .ok none
      else do
        let (value, finish) ← literalStringSlices bytes row pos
        let valueBytes ← orFail (okOr (.invalidValue row "UTF-8 column length overflows")
          (checkedAdd valueBytes value.bytes.length))
        if valueBytes > i32Max then .error (.fails (.invalidValue row offsetLimit))
        else
          let values ← decodeStringsWithoutBackrefsSlices bytes n (row + 1) (pos + (finish + 1))
            valueBytes
          .ok (values.map (some value :: ·))

def stringValueSlices (bytes : Bytes) (history : List (Option Str)) (row pos : Nat) (first : UInt8) :
    Except (Stop DecodeError) (Option Str × Nat) :=
  if first = 0x80 then do
    let (distance, consumed) ←
      orFail (longBackref row 0 0 0 (← slice bytes (pos + 1) bytes.length))
    let value ← orFail (if distance = 0 then .ok none else backref history row distance)
    .ok (value, consumed + 1)
  else if 0x81 ≤ first ∧ first ≤ 0xbf then do
    let value ← orFail (backref history row (first.toNat - 0x80))
    .ok (value, 1)
  else do
    let (value, finish) ← literalStringSlices bytes row pos
    .ok (some value, finish + 1)

def decodeStringsWithBackrefsSlices (bytes : Bytes) (expansionLimit : Nat) :
    Nat → Nat → Nat → Nat → List (Option Str) → Except (Stop DecodeError) (List (Option Str))
  | 0, _, pos, _, history =>
    if pos ≠ bytes.length then .error (.fails (.length pos bytes.length)) else .ok history
  | n + 1, row, pos, valueBytes, history =>
    match bytes[pos]? with
    | none => .error (.fails (.length (pos + 1) bytes.length))
    | some first => do
      let (value, consumed) ← stringValueSlices bytes history row pos first
      let valueBytes ← orFail (admitValue expansionLimit row valueBytes value)
      decodeStringsWithBackrefsSlices bytes expansionLimit n (row + 1) (pos + consumed) valueBytes
        (history ++ [value])

def decodeStringsSlices (bytes : Bytes) (rows : Nat) :
    Except (Stop DecodeError) (List (Option Str)) :=
  if rows > bytes.length then
    .error (.fails (.invalidColumn
      "string column contains fewer encoded bytes than declared rows"))
  else if bytes.length > i32Max then .error (.fails (.invalidColumn offsetLimit))
  else do
    match ← decodeStringsWithoutBackrefsSlices bytes rows 0 0 0 with
    | some values => .ok values
    | none => decodeStringsWithBackrefsSlices bytes (expansionLimit bytes) rows 0 0 0 []

def getRange (bytes : Bytes) (start finish : Nat) : Option Bytes :=
  if start ≤ finish ∧ finish ≤ bytes.length then some ((bytes.take finish).drop start) else none

def decodeBlobValuesSlices (bytes : Bytes) :
    Nat → Nat → Nat → Nat → Except (Stop DecodeError) (List (Option Bytes))
  | 0, _, pos, _ =>
    if pos ≠ bytes.length then .error (.fails (.length pos bytes.length)) else .ok []
  | n + 1, row, pos, valueBytes => do
    let headerEnd ← orFail (okOr (.invalidValue row "BLOB header offset overflows")
      (checkedAdd pos 8))
    let header ← orFail (okOr (.length headerEnd bytes.length) (getRange bytes pos headerEnd))
    let header ← exactBytes 8 header
    let length := (ofLeBytes 64 header).toInt
    let pos := pos + 8
    if length = -1 then do
      let values ← decodeBlobValuesSlices bytes n (row + 1) pos valueBytes
      .ok (none :: values)
    else if length < -1 then
      .error (.fails (.invalidValue row "BLOB length is negative but is not the -1 NULL sentinel"))
    else do
      let length := length.toNat
      let valueEnd ← orFail (okOr (.invalidValue row "BLOB value offset overflows")
        (checkedAdd pos length))
      let value ← orFail (okOr (.length valueEnd bytes.length) (getRange bytes pos valueEnd))
      let valueBytes ← orFail (okOr (.invalidValue row "BLOB column length overflows")
        (checkedAdd valueBytes length))
      if valueBytes > i32Max then
        .error (.fails (.invalidValue row "BLOB column exceeds Arrow's 32-bit offset limit"))
      else
        let values ← decodeBlobValuesSlices bytes n (row + 1) (pos + length) valueBytes
        .ok (some value :: values)

def decodeBlobSlices (bytes : Bytes) (rows : Nat) :
    Except (Stop DecodeError) (List (Option Bytes)) :=
  match checkedMul rows 8 with
  | none => .error (.fails (.invalidColumn "BLOB header length overflows"))
  | some minimum =>
    if minimum > bytes.length then .error (.fails (.length minimum bytes.length))
    else if bytes.length - minimum > i32Max then
      .error (.fails (.invalidColumn "BLOB column exceeds Arrow's 32-bit offset limit"))
    else decodeBlobValuesSlices bytes rows 0 0 0

def dateValueSlices (row : Nat) (value : Bytes) : Except (Stop DecodeError) (Option Int) := do
  let day ← byteAt value 0
  let month ← byteAt value 1
  if month = 0xff then
    if value.all (· == 0xff) then .ok none
    else .error (.fails (.invalidValue row "date has a partial NULL sentinel"))
  else do
    let year ← exactBytes 2 (← slice value 2 4)
    let year := (ofLeBytes 16 year).toInt
    if !validYmd year month.toNat day.toNat then
      .error (.fails (.invalidValue row "invalid Gregorian date"))
    else
      let days := daysFromCivil year month.toNat day.toNat
      if -(2 ^ 31) ≤ days ∧ days < 2 ^ 31 then .ok (some days)
      else .error (.fails (.invalidValue row "date is outside Arrow's Date32 range"))

def timeValueSlices (row : Nat) (value : Bytes) : Except (Stop DecodeError) (Option Int) := do
  let micros ← exactBytes 4 (← slice value 0 4)
  let micros := (ofLeBytes 32 micros).toNat
  if micros = 2 ^ 32 - 1 then
    if value.all (· == 0xff) then .ok none
    else .error (.fails (.invalidValue row "time has a partial NULL sentinel"))
  else do
    let second ← byteAt value 4
    let minute ← byteAt value 5
    let hour ← byteAt value 6
    if micros ≥ 1000000 ∨ second ≥ 60 ∨ minute ≥ 60 ∨ hour ≥ 24 then
      .error (.fails (.invalidValue row "invalid time of day"))
    else
      .ok (some (((hour.toNat * 60 + minute.toNat) * 60 + second.toNat) * 1000000 + micros : Nat))

def timestampValueSlices (row : Nat) (value : Bytes) : Except (Stop DecodeError) (Option Int) := do
  let time ← timeValueSlices row (← slice value 0 8)
  let date ← dateValueSlices row (← slice value 8 value.length)
  match date, time with
  | none, none => .ok none
  | some date, some time => .ok (some (date * 86400000000 + time))
  | _, _ =>
    .error (.fails (.invalidValue row "timestamp has mismatched date/time NULL sentinels"))

def decodeTemporalSlices (width slot : Nat)
    (value : Nat → Bytes → Except (Stop DecodeError) (Option Int)) (bytes : Bytes) (rows : Nat) :
    Except (Stop DecodeError) (List (Slot slot)) := do
  orFail (expectFixed bytes rows width)
  mapRows (fun row chunk => (value row chunk).map (slotOf slot)) (chunksExact width bytes)

def uuidValueSlices (chunk : Bytes) : Except (Stop DecodeError) (Option (FixedBytes 16)) :=
  if chunk.all (· == 0) then .ok none
  else if h : chunk.length = 16 then .ok (some ⟨chunk, h⟩)
  else .error .panics

def decodeUuidSlices (bytes : Bytes) (rows : Nat) :
    Except (Stop DecodeError) (List (Option (FixedBytes 16))) := do
  orFail (expectFixed bytes rows 16)
  mapRows (fun _ chunk => uuidValueSlices chunk) (chunksExact 16 bytes)

def inetTextSlices (width : Nat) (value : Bytes) : Except (Stop DecodeError) Bytes :=
  if width = 4 then do
    let a ← byteAt value 0
    let b ← byteAt value 1
    let c ← byteAt value 2
    let d ← byteAt value 3
    .ok (pushU8Decimal a ++ [46] ++ pushU8Decimal b ++ [46] ++ pushU8Decimal c ++ [46] ++
      pushU8Decimal d)
  else (exactBytes 16 value).map InetAddress.displayIpv6

def inetValueSlices (width : Nat) (value : Bytes) : Except (Stop DecodeError) (Option Str) :=
  if value.all (· == 0) then .ok none
  else do
    match fromUtf8 (← inetTextSlices width value) with
    | none => .error .panics
    | some text => .ok (some text)

def appendTextSlices (valueBytes : Nat) : Option Str → Except (Stop DecodeError) Nat
  | none => .ok valueBytes
  | some text =>
    if valueBytes + text.bytes.length > i32Max then .error .panics
    else .ok (valueBytes + text.bytes.length)

def inetRowsSlices (width : Nat) : Nat → List Bytes → Except (Stop DecodeError) (List (Option Str))
  | _, [] => .ok []
  | valueBytes, chunk :: chunks => do
    let value ← inetValueSlices width chunk
    let valueBytes ← appendTextSlices valueBytes value
    let values ← inetRowsSlices width valueBytes chunks
    .ok (value :: values)

def inetColumnSlices (width : Nat) (bytes : Bytes) (rows : Nat) :
    Except (Stop DecodeError) (List (Option Str)) :=
  if isizeMax < saturatingMul rows 39 then .error .panics
  else inetRowsSlices width 0 (chunksExact width bytes)

def decodeInetSlices (bytes : Bytes) (rows : Nat) : Except (Stop DecodeError) (List (Option Str)) :=
  if bytes.length = saturatingMul rows 4 then inetColumnSlices 4 bytes rows
  else if bytes.length = saturatingMul rows 16 then inetColumnSlices 16 bytes rows
  else .error (.fails (.invalidColumn "INET column length is neither 4 nor 16 bytes per row"))

def decodeColumnSlices (dataType : MonetType) (bytes : Bytes) (rowCount : Nat) :
    Except (Stop DecodeError) Column :=
  match dataType with
  | .bool => (decodeBoolSlices bytes rowCount).map .boolean
  | .hugeInt => (decodeDecimalSlices bytes rowCount 38 0 true).map (.primitive (.decimal128 38 0))
  | .decimal precision scale => do
    let scale ← orFail (decimalScale scale)
    (decodeDecimalSlices bytes rowCount precision scale false).map
      (.primitive (.decimal128 precision scale))
  | .varchar _ | .url | .json => (decodeStringsSlices bytes rowCount).map (.utf8 .standard)
  | .time | .timeTz =>
    (decodeTemporalSlices 8 64 timeValueSlices bytes rowCount).map
      (.primitive (.time64 .microsecond))
  | .date => (decodeTemporalSlices 4 32 dateValueSlices bytes rowCount).map (.primitive .date32)
  | .timestamp =>
    (decodeTemporalSlices 12 64 timestampValueSlices bytes rowCount).map
      (.primitive (.timestamp .microsecond none))
  | .timestampTz =>
    (decodeTemporalSlices 12 64 timestampValueSlices bytes rowCount).map
      (.primitive (.timestamp .microsecond (some "UTC")))
  | .blob => (decodeBlobSlices bytes rowCount).map (.binary .standard)
  | .uuid => (decodeUuidSlices bytes rowCount).map (.fixedSizeBinary 16)
  | .inet4 | .inet6 => (decodeInetSlices bytes rowCount).map (.utf8 .standard)
  -- The types left read their values with a width check and no index, expect or slice.
  | dataType => orFail (decodeColumn dataType bytes rowCount)

end Source

section Scalars
variable {bytes : Bytes} {rows precision : Nat}

theorem byteAt_getElem (bytes : Bytes) (index : Nat) (h : index < bytes.length) :
    byteAt bytes index = .ok bytes[index] := by
  rw [byteAt, List.getElem?_eq_getElem h]

theorem exactBytes_ok {width : Nat} (h : bytes.length = width) :
    exactBytes width bytes = .ok bytes :=
  if_pos h

theorem length_of_expectFixed {width : Nat} (h : expectFixed bytes rows width = .ok ()) :
    bytes.length = rows * width := by
  rw [expectFixed] at h
  cases hmul : checkedMul rows width with
  | none => simp [hmul] at h
  | some expected =>
    obtain ⟨-, rfl⟩ := checkedMul_eq_some.mp hmul
    simpa [hmul] using h

theorem decodeBool_eq (h : expectFixed bytes rows 1 = .ok ()) :
    decodeBool bytes rows = (bytes.findIdx? invalidBool).elim (.ok (bytes.map boolValue)) fun index =>
      .error (.invalidValue (0 + index) "boolean is not 0, 1, or the NULL sentinel 0x80") := by
  rw [decodeBool, h, ok_bind, mapRows]
  refine mapFrom_findIdx invalidBool boolValue (fun row => DecodeError.invalidValue row _) ?_ ?_ 0
    bytes
  · intro row value hvalid
    by_cases hnull : value = 0x80
    · simp [boolValue, hnull]
    · have hsmall : ¬ 1 < value := fun hlarge => by simp [invalidBool, hlarge, hnull] at hvalid
      simp [boolValue, hnull, hsmall]
  · intro row value hinvalid
    obtain ⟨hlarge, hnull⟩ : 1 < value ∧ value ≠ 0x80 := by simpa [invalidBool] using hinvalid
    simp [hnull, hlarge]

theorem mapRows_byteAt (bytes : Bytes) :
    mapRows (fun _ row => (byteAt bytes row).map boolValue) (List.range bytes.length) =
      .ok (bytes.map boolValue) := by
  have hread : mapRows (fun _ row => (byteAt bytes row).map boolValue) (List.range bytes.length) =
      .ok ((List.range bytes.length).map fun row => boolValue (bytes.getD row 0)) := by
    refine mapFrom_ok_of_forall (fun _ row hrow => ?_) 0
    have hlt : row < bytes.length := by simpa using hrow
    simp [byteAt_getElem bytes row hlt, List.getElem?_eq_getElem hlt, Except.map]
  rw [hread]
  congr 1
  refine List.ext_getElem (by simp) fun i hi _ => ?_
  have hlt : i < bytes.length := by simpa using hi
  simp [List.getElem?_eq_getElem hlt]

theorem decodeBoolSlices_eq (bytes : Bytes) (rows : Nat) :
    decodeBoolSlices bytes rows = orFail (decodeBool bytes rows) := by
  cases hfixed : expectFixed bytes rows 1 with
  | error e => simp [decodeBoolSlices, decodeBool, hfixed]
  | ok u =>
    have hrows : rows = bytes.length := by simpa using (length_of_expectFixed hfixed).symm
    rw [decodeBool_eq hfixed, decodeBoolSlices, hfixed, orFail_ok, ok_bind, hrows, mapRows_byteAt,
      ← List.findIdx?_isSome]
    cases bytes.findIdx? invalidBool with
    | none => rfl
    | some index => simp

theorem decimalWireWidth_mem {width : Nat} (h : decimalWireWidth precision = some width) :
    width ∈ [1, 2, 4, 8, 16] := by
  rw [decimalWireWidth] at h
  split_ifs at h <;> simp [← Option.some.inj h]

theorem decimalWireWidth_isSome (precision : Nat) (h : 1 ≤ precision ∧ precision ≤ 38) :
    ∃ width, decimalWireWidth precision = some width := by
  rw [decimalWireWidth]
  split_ifs <;> first | exact ⟨_, rfl⟩ | omega

def Expands (precision : Nat) (bytes : Bytes) (rows : Nat) : Prop :=
  ∃ width, decimalWireWidth precision = some width ∧ width ≠ 16 ∧ bytes.length = rows * width ∧
    isizeMax < rows * 16

theorem decimalWidth_some {scale : Int} (hugeint : Bool)
    (hrange : ¬(¬(1 ≤ precision ∧ precision ≤ 38) ∨ scale < 0 ∨ scale > precision)) :
    ∃ width, (if hugeint then some 16 else decimalWireWidth precision) = some width ∧
      width ∈ [1, 2, 4, 8, 16] := by
  cases hugeint with
  | true => exact ⟨16, rfl, by simp⟩
  | false =>
    obtain ⟨width, hwidth⟩ := decimalWireWidth_isSome precision (by omega)
    exact ⟨width, hwidth, decimalWireWidth_mem hwidth⟩

theorem decodeDecimalSlices_eq {scale : Int} {hugeint : Bool}
    (hroom : hugeint = false → ¬Expands precision bytes rows) :
    decodeDecimalSlices bytes rows precision scale hugeint =
      orFail (decodeDecimal bytes rows precision scale hugeint) := by
  rw [decodeDecimalSlices, decodeDecimal, orFail_ite]
  refine if_ctx_congr Iff.rfl (fun _ => rfl) fun hrange => ?_
  obtain ⟨width, hwidth, hmem⟩ := decimalWidth_some hugeint hrange
  simp only [hwidth, if_pos hmem, orFail_bind]
  have hchunks : mapRows (decimalValueSlices width precision hugeint) (chunksExact width bytes) =
      orFail (mapRows (decimalValue width precision hugeint) (chunksExact width bytes)) := by
    refine mapFrom_orFail (fun row chunk hchunk => ?_) 0
    rw [decimalValueSlices, exactBytes_ok (chunksExact_length bytes chunk hchunk), ok_bind]
  cases hfixed : expectFixed bytes rows width with
  | error e => rfl
  | ok u =>
    have hfits : ¬(width ≠ 16 ∧ isizeMax < rows * 16) := by
      rintro ⟨hnarrow, hlarge⟩
      cases hugeint with
      | true => exact hnarrow (Option.some.inj hwidth).symm
      | false => exact hroom rfl ⟨width, hwidth, hnarrow, length_of_expectFixed hfixed, hlarge⟩
    rw [if_neg hfits, hchunks]

theorem decodeDecimalSlices_panics {scale : Int} (hfits : bytes.length ≤ isizeMax)
    (hpositive : 0 ≤ scale) (hscale : scale ≤ precision) (hexpands : Expands precision bytes rows) :
    decodeDecimalSlices bytes rows precision scale false = .error .panics := by
  obtain ⟨width, hwidth, hnarrow, hlength, hlarge⟩ := hexpands
  have hprecision : 1 ≤ precision ∧ precision ≤ 38 := by
    rw [decimalWireWidth] at hwidth
    split_ifs at hwidth <;> omega
  have hfixed : expectFixed bytes rows width = .ok () := by
    have hmax : isizeMax ≤ usizeMax := by decide
    rw [expectFixed, checkedMul_eq_some.mpr ⟨by omega, rfl⟩]
    simp [hlength]
  rw [decodeDecimalSlices, if_neg (by omega)]
  simp only [Bool.false_eq_true, if_false, hwidth, hfixed, orFail_ok, ok_bind]
  rw [if_pos ⟨hnarrow, hlarge⟩]

end Scalars

section Strings
variable {bytes : Bytes} {pos : Nat} {first : UInt8}

theorem slice_tail {start : Nat} (h : start ≤ bytes.length) :
    (slice bytes start bytes.length : Except (Stop DecodeError) Bytes) = .ok (bytes.drop start) := by
  rw [slice_ok h (le_refl _), List.take_length]

theorem splitNul_eq (tail : Bytes) :
    splitNul tail =
      (tail.findIdx? (· == 0)).map fun finish => (tail.take finish, tail.drop (finish + 1)) := by
  induction tail with
  | nil => rfl
  | cons b tail ih =>
    rw [splitNul, ih, List.findIdx?_cons]
    by_cases hb : b = 0
    · simp [hb]
    · cases tail.findIdx? (· == 0) <;> simp [hb]

theorem literalStringSlices_eq (row : Nat) (h : pos ≤ bytes.length) :
    literalStringSlices bytes row pos =
      orFail ((literalString row (bytes.drop pos)).map fun (value, _) =>
        (value, value.bytes.length)) := by
  rw [literalStringSlices, slice_tail h, ok_bind, literalString, splitNul_eq]
  cases hnul : (bytes.drop pos).findIdx? (· == 0) with
  | none => rfl
  | some finish =>
    obtain ⟨hlt, -⟩ := List.findIdx?_eq_some_iff_getElem.mp hnul
    have htext : (slice (bytes.drop pos) 0 finish : Except (Stop DecodeError) Bytes) =
        .ok ((bytes.drop pos).take finish) := by
      rw [slice_ok (Nat.zero_le _) hlt.le, List.drop_zero]
    simp only [htext, ok_bind, Option.map_some]
    cases hutf : fromUtf8 ((bytes.drop pos).take finish) with
    | none => rfl
    | some value =>
      have hvalue := fromUtf8_some hutf
      simp only [Except.map, orFail_ok, hvalue, List.length_take]
      rw [Nat.min_eq_left hlt.le]

theorem drop_cons (h : bytes[pos]? = some first) :
    pos < bytes.length ∧ bytes.drop pos = first :: bytes.drop (pos + 1) := by
  obtain ⟨hlt, rfl⟩ := List.getElem?_eq_some_iff.mp h
  exact ⟨hlt, List.drop_eq_getElem_cons hlt⟩

theorem literalString_rest {rest : Bytes} {row : Nat} {value : Str}
    (h : literalString row (bytes.drop pos) = .ok (value, rest)) :
    rest = bytes.drop (pos + (value.bytes.length + 1)) := by
  have hsplit := literalString_ok h
  rw [← List.drop_drop, hsplit, ← List.drop_drop, List.drop_left]
  rfl

theorem decodeStringsWithoutBackrefsSlices_eq (bytes : Bytes) (n row pos valueBytes : Nat) :
    decodeStringsWithoutBackrefsSlices bytes n row pos valueBytes =
      orFail (decodeStringsWithoutBackrefs bytes.length n row pos valueBytes (bytes.drop pos)) := by
  induction n generalizing row pos valueBytes with
  | zero => rw [decodeStringsWithoutBackrefsSlices, decodeStringsWithoutBackrefs, orFail_ite]; rfl
  | succ n ih =>
    rw [decodeStringsWithoutBackrefsSlices]
    cases hfirst : bytes[pos]? with
    | none =>
      rw [List.drop_eq_nil_of_le (List.getElem?_eq_none_iff.mp hfirst)]
      rfl
    | some first =>
      obtain ⟨hlt, hdrop⟩ := drop_cons hfirst
      rw [slice_tail hlt, literalStringSlices_eq row hlt.le, hdrop, decodeStringsWithoutBackrefs]
      simp only [ok_bind, orFail_ite]
      refine if_ctx_congr Iff.rfl (fun _ => ?_) fun _ =>
        if_ctx_congr Iff.rfl (fun _ => rfl) fun _ => ?_
      · cases longBackref row 0 0 0 (bytes.drop (pos + 1)) with
        | error e => rfl
        | ok pair =>
          obtain ⟨distance, consumed⟩ := pair
          simp only [orFail_ok, ok_bind, orFail_ite, ih, List.drop_drop, orFail_bind]
          rw [show pos + (consumed + 1) = pos + 1 + consumed by omega]
      · cases hliteral : literalString row (bytes.drop pos) with
        | error e =>
          rw [hdrop] at hliteral
          simp [hliteral, Except.map]
        | ok pair =>
          obtain ⟨value, rest⟩ := pair
          have hrest := literalString_rest hliteral
          rw [hdrop] at hliteral
          simp only [hliteral, Except.map, orFail_ok, ok_bind, orFail_bind, orFail_ite, ih, ← hrest]
          rfl

theorem stringValueSlices_eq (history : List (Option Str)) (row : Nat)
    (h : bytes[pos]? = some first) :
    stringValueSlices bytes history row pos first =
      orFail ((stringValue history row first (bytes.drop (pos + 1))).map fun (value, consumed, _) =>
        (value, consumed)) := by
  obtain ⟨hlt, hdrop⟩ := drop_cons h
  rw [stringValueSlices, stringValue, slice_tail hlt, literalStringSlices_eq row hlt.le, hdrop]
  split_ifs with hlong hshort
  · simp only [ok_bind]
    cases longBackref row 0 0 0 (bytes.drop (pos + 1)) with
    | error e => rfl
    | ok pair =>
      obtain ⟨distance, consumed⟩ := pair
      simp only [orFail_ok, ok_bind]
      split_ifs with hzero
      · rfl
      · cases backref history row distance <;> rfl
  · cases backref history row (first.toNat - 0x80) <;> rfl
  · cases literalString row (first :: bytes.drop (pos + 1)) <;> rfl

theorem stringValue_rest {rest : Bytes} {history : List (Option Str)} {row consumed : Nat}
    {value : Option Str} (hfirst : bytes[pos]? = some first)
    (h : stringValue history row first (bytes.drop (pos + 1)) = .ok (value, consumed, rest)) :
    rest = bytes.drop (pos + consumed) := by
  obtain ⟨-, hdrop⟩ := drop_cons hfirst
  rw [stringValue] at h
  split_ifs at h with hlong hshort
  · obtain ⟨⟨distance, length⟩, -, h⟩ := bind_eq_ok.mp h
    obtain ⟨rfl, rfl⟩ : length + 1 = consumed ∧ (bytes.drop (pos + 1)).drop length = rest := by
      by_cases hzero : distance = 0
      · simpa [hzero] using (by simpa [hzero] using h : _ ∧ _ ∧ _).2
      · simp only [hzero, if_false] at h
        obtain ⟨value, -, h⟩ := bind_eq_ok.mp h
        simpa using (by simpa using h : _ ∧ _ ∧ _).2
    rw [List.drop_drop]
    congr 1
    omega
  · obtain ⟨value, -, h⟩ := bind_eq_ok.mp h
    simp only [Except.ok.injEq, Prod.mk.injEq] at h
    rw [← h.2.1, ← h.2.2]
  · obtain ⟨⟨value, after⟩, hliteral, h⟩ := bind_eq_ok.mp h
    rw [← hdrop] at hliteral
    simp only [Except.ok.injEq, Prod.mk.injEq] at h
    rw [← h.2.1, ← h.2.2, literalString_rest hliteral]

theorem decodeStringsWithBackrefsSlices_eq (bytes : Bytes) (limit n row pos valueBytes : Nat)
    (history : List (Option Str)) :
    decodeStringsWithBackrefsSlices bytes limit n row pos valueBytes history =
      orFail (decodeStringsWithBackrefs bytes.length limit n row pos valueBytes history
        (bytes.drop pos)) := by
  induction n generalizing row pos valueBytes history with
  | zero => rw [decodeStringsWithBackrefsSlices, decodeStringsWithBackrefs, orFail_ite]; rfl
  | succ n ih =>
    rw [decodeStringsWithBackrefsSlices]
    cases hfirst : bytes[pos]? with
    | none =>
      rw [List.drop_eq_nil_of_le (List.getElem?_eq_none_iff.mp hfirst)]
      rfl
    | some first =>
      obtain ⟨-, hdrop⟩ := drop_cons hfirst
      rw [hdrop, decodeStringsWithBackrefs]
      simp only [stringValueSlices_eq history row hfirst]
      cases hvalue : stringValue history row first (bytes.drop (pos + 1)) with
      | error e => rfl
      | ok result =>
        obtain ⟨value, consumed, rest⟩ := result
        simp only [Except.map, orFail_ok, ok_bind, orFail_bind, ih, stringValue_rest hfirst hvalue]

theorem decodeStringsSlices_eq (bytes : Bytes) (rows : Nat) :
    decodeStringsSlices bytes rows = orFail (decodeStrings bytes rows) := by
  rw [decodeStringsSlices, decodeStrings, orFail_ite, orFail_ite,
    decodeStringsWithoutBackrefsSlices_eq, decodeStringsWithBackrefsSlices_eq, List.drop_zero]
  refine if_ctx_congr Iff.rfl (fun _ => rfl) fun _ => if_ctx_congr Iff.rfl (fun _ => rfl) fun _ => ?_
  cases decodeStringsWithoutBackrefs bytes.length rows 0 0 0 bytes with
  | error e => rfl
  | ok values => cases values <;> rfl

end Strings

section Binary

theorem getRange_eq {bytes : Bytes} {pos : Nat} (length : Nat) (h : pos ≤ bytes.length) :
    getRange bytes pos (pos + length) =
      if (bytes.drop pos).length < length then none else some ((bytes.drop pos).take length) := by
  rw [getRange, List.length_drop, List.drop_take, Nat.add_sub_cancel_left]
  split_ifs <;> first | rfl | omega

theorem decodeBlobValuesSlices_eq {bytes : Bytes} (n row : Nat) {pos : Nat} (valueBytes : Nat)
    (hpos : pos ≤ bytes.length) :
    decodeBlobValuesSlices bytes n row pos valueBytes =
      orFail (decodeBlobValues bytes.length n row pos valueBytes (bytes.drop pos)) := by
  induction n generalizing row pos valueBytes with
  | zero => rw [decodeBlobValuesSlices, decodeBlobValues, orFail_ite]; rfl
  | succ n ih =>
    rw [decodeBlobValuesSlices, decodeBlobValues, orFail_bind]
    cases hheader : checkedAdd pos 8 with
    | none => rfl
    | some headerEnd =>
      obtain ⟨-, rfl⟩ := checkedAdd_eq_some.mp hheader
      simp only [okOr_some, orFail_ok, ok_bind, getRange_eq 8 hpos]
      by_cases hshort : (bytes.drop pos).length < 8
      · rw [if_pos hshort, if_pos hshort]
        rfl
      · have hexact : ((bytes.drop pos).take 8).length = 8 := by
          rw [List.length_take]
          omega
        have hnext : pos + 8 ≤ bytes.length := by
          rw [List.length_drop] at hshort
          omega
        simp only [hshort, if_false, okOr_some, orFail_ok, ok_bind, exactBytes_ok hexact, orFail_ite,
          List.drop_drop, orFail_bind, ih _ _ hnext]
        refine if_ctx_congr Iff.rfl (fun _ => rfl) fun _ =>
          if_ctx_congr Iff.rfl (fun _ => rfl) fun _ => ?_
        cases hvalue : checkedAdd (pos + 8) (ofLeBytes 64 ((bytes.drop pos).take 8)).toInt.toNat with
        | none => rfl
        | some valueEnd =>
          obtain ⟨-, rfl⟩ := checkedAdd_eq_some.mp hvalue
          simp only [okOr_some, orFail_ok, ok_bind, getRange_eq _ hnext]
          by_cases hlong : (bytes.drop (pos + 8)).length <
              (ofLeBytes 64 ((bytes.drop pos).take 8)).toInt.toNat
          · rw [if_pos hlong, if_pos hlong]
            rfl
          · have hlast : pos + 8 + (ofLeBytes 64 ((bytes.drop pos).take 8)).toInt.toNat ≤
                bytes.length := by
              rw [List.length_drop] at hlong
              omega
            simp only [hlong, if_false, okOr_some, orFail_ok, ok_bind, ih _ _ hlast]
            rfl

theorem decodeBlobSlices_eq (bytes : Bytes) (rows : Nat) :
    decodeBlobSlices bytes rows = orFail (decodeBlob bytes rows) := by
  rw [decodeBlobSlices, decodeBlob]
  cases checkedMul rows 8 with
  | none => rfl
  | some minimum =>
    simp only [orFail_ite, decodeBlobValuesSlices_eq rows 0 0 (Nat.zero_le _), List.drop_zero]
    rfl

theorem decodeUuidSlices_eq (bytes : Bytes) (rows : Nat) :
    decodeUuidSlices bytes rows = orFail (decodeUuid bytes rows) := by
  rw [decodeUuidSlices, decodeUuid, orFail_bind]
  have hchunks : mapRows (fun _ chunk => uuidValueSlices chunk) (chunksExact 16 bytes) =
      orFail (mapRows (fun _ chunk => uuidValue chunk) (chunksExact 16 bytes)) := by
    refine mapFrom_orFail (fun row chunk hchunk => ?_) 0
    rw [uuidValueSlices, uuidValue, orFail_ite, dif_pos (chunksExact_length bytes chunk hchunk),
      dif_pos (chunksExact_length bytes chunk hchunk)]
    rfl
  rw [hchunks]

end Binary

section Temporal
variable {value : Bytes}

theorem dateValueSlices_eq (row : Nat) (h : value.length = 4) :
    dateValueSlices row value = orFail (dateValue row value) := by
  obtain ⟨day, month, low, high, rfl⟩ := List.length_eq_four.mp h
  simp only [dateValueSlices, dateValue, orFail_ite]
  rfl

theorem timeValueSlices_eq (row : Nat) (h : value.length = 8) :
    timeValueSlices row value = orFail (timeValue row value) := by
  obtain ⟨b0, b1, b2, b3, second, minute, hour, padding, rfl⟩ :
      ∃ b0 b1 b2 b3 second minute hour padding,
        value = [b0, b1, b2, b3, second, minute, hour, padding] := by
    match value, h with
    | [b0, b1, b2, b3, second, minute, hour, padding], _ =>
      exact ⟨b0, b1, b2, b3, second, minute, hour, padding, rfl⟩
  simp only [timeValueSlices, timeValue, orFail_ite]
  rfl

theorem timestampValueSlices_eq (row : Nat) (h : value.length = 12) :
    timestampValueSlices row value = orFail (timestampValue row value) := by
  have htime : (value.take 8).length = 8 := by simp [h]
  have hdate : (value.drop 8).length = 4 := by simp [h]
  rw [timestampValueSlices, slice_ok (Nat.zero_le _) (by omega), slice_tail (by omega),
    List.drop_zero, ok_bind, timeValueSlices_eq row htime, timestampValue, orFail_bind]
  cases timeValue row (value.take 8) with
  | error e => rfl
  | ok time =>
    simp only [orFail_ok, ok_bind, dateValueSlices_eq row hdate]
    cases dateValue row (value.drop 8) with
    | error e => rfl
    | ok date => cases date <;> cases time <;> rfl

theorem decodeTemporalSlices_eq {width slot : Nat}
    {value : Nat → Bytes → Except DecodeError (Option Int)}
    {valueSlices : Nat → Bytes → Except (Stop DecodeError) (Option Int)}
    (h : ∀ row chunk, chunk.length = width → valueSlices row chunk = orFail (value row chunk))
    (bytes : Bytes) (rows : Nat) :
    decodeTemporalSlices width slot valueSlices bytes rows = orFail (do
      expectFixed bytes rows width
      mapRows (fun row chunk => (value row chunk).map (slotOf slot)) (chunksExact width bytes)) := by
  rw [decodeTemporalSlices, orFail_bind]
  have hchunks : mapRows (fun row chunk => (valueSlices row chunk).map (slotOf slot))
        (chunksExact width bytes) =
      orFail (mapRows (fun row chunk => (value row chunk).map (slotOf slot))
        (chunksExact width bytes)) := by
    refine mapFrom_orFail (fun row chunk hchunk => ?_) 0
    rw [h row chunk (chunksExact_length bytes chunk hchunk), orFail_map]
  rw [hchunks]

end Temporal

section Addresses

theorem decimalDigit_ascii {digit : UInt8} (h : digit ≤ 9) : 48 + digit < (0x80 : UInt8) := by
  rw [UInt8.le_iff_toNat_le] at h
  rw [UInt8.lt_iff_toNat_lt, UInt8.toNat_add]
  simp only [UInt8.reduceToNat] at h ⊢
  omega

theorem pushU8Decimal_ascii (value : UInt8) : InetAddress.Ascii (pushU8Decimal value) := by
  have hvalue := value.toNat_lt
  have hhundreds : value / 100 ≤ 9 := by
    simp only [UInt8.le_iff_toNat_le, UInt8.toNat_div, UInt8.reduceToNat]
    omega
  have htens : value / 10 % 10 ≤ 9 := by
    simp only [UInt8.le_iff_toNat_le, UInt8.toNat_mod, UInt8.reduceToNat]
    omega
  have hones : value % 10 ≤ 9 := by
    simp only [UInt8.le_iff_toNat_le, UInt8.toNat_mod, UInt8.reduceToNat]
    omega
  have hdigit : ∀ digit : UInt8, digit ≤ 9 → InetAddress.Ascii [48 + digit] := by
    intro digit h b hb
    rw [List.mem_singleton.mp hb]
    exact decimalDigit_ascii h
  rw [pushU8Decimal]
  refine (InetAddress.Ascii.append ?_ ?_).append (hdigit _ hones)
  · split_ifs
    · exact hdigit _ hhundreds
    · exact InetAddress.ascii_of_all rfl
  · split_ifs
    · exact hdigit _ htens
    · exact InetAddress.ascii_of_all rfl

theorem inetText_ascii (chunk : Bytes) : InetAddress.Ascii (inetText chunk) := by
  have hdot : InetAddress.Ascii [46] := InetAddress.ascii_of_all (by decide)
  unfold inetText
  split
  · exact ((((((pushU8Decimal_ascii _).append hdot).append (pushU8Decimal_ascii _)).append
      hdot).append (pushU8Decimal_ascii _)).append hdot).append (pushU8Decimal_ascii _)
  · exact InetAddress.displayIpv6_ascii chunk

theorem inetValue_ok (chunk : Bytes) : ∃ value, inetValue chunk = .ok value := by
  rw [inetValue]
  split_ifs with hzero
  · exact ⟨none, rfl⟩
  · rw [fromUtf8, dif_pos (inetText_ascii chunk).valid]
    exact ⟨_, rfl⟩

theorem inetTextSlices_eq {width : Nat} {chunk : Bytes} (hwidth : width = 4 ∨ width = 16)
    (h : chunk.length = width) : inetTextSlices width chunk = .ok (inetText chunk) := by
  rcases hwidth with rfl | rfl
  · obtain ⟨a, b, c, d, rfl⟩ := List.length_eq_four.mp h
    rfl
  · rw [inetTextSlices, if_neg (by decide), exactBytes_ok h]
    unfold inetText
    split
    · simp at h
    · rfl

theorem inetValueSlices_eq {width : Nat} {chunk : Bytes} (hwidth : width = 4 ∨ width = 16)
    (h : chunk.length = width) : inetValueSlices width chunk = orFail (inetValue chunk) := by
  rw [inetValueSlices, inetValue, orFail_ite, inetTextSlices_eq hwidth h, ok_bind, fromUtf8,
    dif_pos (inetText_ascii chunk).valid]
  rfl

theorem inetRowsSlices_cases {width : Nat} (hwidth : width = 4 ∨ width = 16) {chunks : List Bytes}
    (hchunks : ∀ chunk ∈ chunks, chunk.length = width) (valueBytes : Nat) :
    inetRowsSlices width valueBytes chunks = .error .panics ∨
      ∃ values, inetRowsSlices width valueBytes chunks = .ok values ∧
        inetRows valueBytes chunks = .ok values := by
  induction chunks generalizing valueBytes with
  | nil => exact .inr ⟨[], rfl, rfl⟩
  | cons chunk chunks ih =>
    obtain ⟨value, hvalue⟩ := inetValue_ok chunk
    rw [inetRowsSlices, inetRows, inetValueSlices_eq hwidth (hchunks chunk List.mem_cons_self),
      hvalue, orFail_ok, ok_bind, ok_bind]
    have hrest := ih fun other hother => hchunks other (List.mem_cons_of_mem chunk hother)
    have hnext (total : Nat) :
        (inetRowsSlices width total chunks >>= fun values => .ok (value :: values)) =
            .error .panics ∨
          ∃ values, (inetRowsSlices width total chunks >>= fun values => .ok (value :: values)) =
              .ok values ∧
            (inetRows total chunks >>= fun values => .ok (value :: values)) = .ok values := by
      rcases hrest total with hpanics | ⟨values, hslices, hrows⟩
      · exact .inl (by rw [hpanics]; rfl)
      · exact .inr ⟨value :: values, by rw [hslices]; rfl, by rw [hrows]; rfl⟩
    cases value with
    | none => exact hnext valueBytes
    | some text =>
      rw [appendTextSlices, appendText]
      split_ifs
      · exact .inl rfl
      · exact hnext _

theorem decodeInetSlices_cases {bytes : Bytes} {rows : Nat} (hfits : bytes.length ≤ isizeMax)
    (hlength : bytes.length = rows * 4 ∨ bytes.length = rows * 16) :
    decodeInetSlices bytes rows = .error .panics ∨
      ∃ values, decodeInetSlices bytes rows = .ok values ∧ decodeInet bytes rows = .ok values ∧
        rows * 39 ≤ isizeMax := by
  have hmax : isizeMax < usizeMax := by decide
  have hcolumn (width : Nat) (hwidth : width = 4 ∨ width = 16) :
      inetColumnSlices width bytes rows = .error .panics ∨
        ∃ values, inetColumnSlices width bytes rows = .ok values ∧
          inetRows 0 (chunksExact width bytes) = .ok values ∧ rows * 39 ≤ isizeMax := by
    rw [inetColumnSlices]
    split_ifs with hlarge
    · exact .inl rfl
    · rcases inetRowsSlices_cases hwidth (chunksExact_length bytes) 0 with hpanics | ⟨values, hslices, hrows⟩
      · exact .inl hpanics
      · refine .inr ⟨values, hslices, hrows, ?_⟩
        rw [saturatingMul] at hlarge
        omega
  rw [decodeInetSlices, decodeInet]
  by_cases hfour : bytes.length = saturatingMul rows 4
  · rw [if_pos hfour, if_pos hfour]
    exact hcolumn 4 (.inl rfl)
  · have hsixteen : bytes.length = saturatingMul rows 16 := by
      rw [saturatingMul] at hfour ⊢
      omega
    rw [if_neg hfour, if_neg hfour, if_pos hsixteen, if_pos hsixteen]
    exact hcolumn 16 (.inr rfl)

theorem decodeInetSlices_fails {bytes : Bytes} {rows : Nat} (hfits : bytes.length ≤ isizeMax)
    (hlength : ¬(bytes.length = rows * 4 ∨ bytes.length = rows * 16)) :
    decodeInetSlices bytes rows = .error (.fails
      (.invalidColumn "INET column length is neither 4 nor 16 bytes per row")) := by
  have hmax : isizeMax < usizeMax := by decide
  rw [decodeInetSlices, saturatingMul, saturatingMul, if_neg (by omega), if_neg (by omega)]

end Addresses

def Overruns : MonetType → Bytes → Nat → Prop
  | .decimal precision scale, bytes, rows => scale ≤ precision ∧ Expands precision bytes rows
  | .inet4, bytes, rows | .inet6, bytes, rows =>
    0 < rows ∧ (bytes.length = rows * 4 ∨ bytes.length = rows * 16)
  | _, _, _ => False

theorem decodeColumnSlices_eq {dataType : MonetType} {bytes : Bytes} {rowCount : Nat}
    (htype : dataType ≠ .inet4 ∧ dataType ≠ .inet6) (hroom : ¬Overruns dataType bytes rowCount) :
    decodeColumnSlices dataType bytes rowCount = orFail (decodeColumn dataType bytes rowCount) := by
  cases dataType with
  | decimal precision scale =>
    rw [decodeColumnSlices, decodeColumn]
    cases hscale : decimalScale scale with
    | error e => rfl
    | ok arrow =>
      rw [orFail_ok, ok_bind, ok_bind]
      by_cases hrange : scale ≤ precision
      · rw [decodeDecimalSlices_eq fun _ hexpands => hroom ⟨hrange, hexpands⟩]
        exact (orFail_map _ _).symm
      · have harrow : arrow = scale := by
          rw [decimalScale] at hscale
          split_ifs at hscale
          exact (Except.ok.inj hscale).symm
        rw [decodeDecimalSlices, decodeDecimal, if_pos (by omega), if_pos (by omega)]
        rfl
  | bool =>
    rw [decodeColumnSlices, decodeColumn, orFail_map, decodeBoolSlices_eq]
  | hugeInt =>
    have hhuge : decodeDecimalSlices bytes rowCount 38 0 true =
        orFail (decodeDecimal bytes rowCount 38 0 true) := decodeDecimalSlices_eq (by simp)
    rw [decodeColumnSlices, decodeColumn, hhuge]
    exact (orFail_map _ _).symm
  | varchar | url | json =>
    rw [decodeColumnSlices, decodeColumn, orFail_map, decodeStringsSlices_eq]
  | time | timeTz =>
    rw [decodeColumnSlices, decodeColumn,
      decodeTemporalSlices_eq fun row _ => timeValueSlices_eq row]
    exact (orFail_map _ _).symm
  | date =>
    rw [decodeColumnSlices, decodeColumn,
      decodeTemporalSlices_eq fun row _ => dateValueSlices_eq row]
    exact (orFail_map _ _).symm
  | timestamp | timestampTz =>
    rw [decodeColumnSlices, decodeColumn,
      decodeTemporalSlices_eq fun row _ => timestampValueSlices_eq row]
    exact (orFail_map _ _).symm
  | blob => rw [decodeColumnSlices, decodeColumn, orFail_map, decodeBlobSlices_eq]
  | uuid => rw [decodeColumnSlices, decodeColumn, orFail_map, decodeUuidSlices_eq]
  | inet4 => exact absurd rfl htype.1
  | inet6 => exact absurd rfl htype.2
  | _ => rfl

end MonetdbAdbc
