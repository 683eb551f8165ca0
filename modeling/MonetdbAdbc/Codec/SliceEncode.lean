import MonetdbAdbc.Codec.ChunkedEncode

namespace MonetdbAdbc
open LittleEndian Utf8 Machine Rows Calendar

section Rows
variable {w : Nat} (date : Int → Option Date)

theorem toOption_appendDate (days : Int) (row : Nat) :
    (appendDate date days row).toOption = (appendDate date days 0).toOption := by
  simp only [appendDate, dateFromDays, toOption_bind, toOption_okOr, toOption_ite, invalid,
    toOption_error]

theorem toOption_appendTime (micros : Int) (row : Nat) :
    (appendTime micros row).toOption = (appendTime micros 0).toOption := by
  simp only [appendTime, toOption_ite, invalid, toOption_error]

theorem toOption_appendTimestamp (micros : Int) (row : Nat) :
    (appendTimestamp date micros row).toOption = (appendTimestamp date micros 0).toOption := by
  simp only [appendTimestamp, toOption_bind, toOption_appendTime _ row, toOption_appendDate _ _ row]

theorem rowFree_oidRow : RowFree oidRow := by
  intro row slot
  simp only [oidRow, toOption_ite, invalid, toOption_error]

theorem rowFree_f16Row : RowFree f16Row := by
  intro row slot
  simp only [f16Row, toOption_ite, invalid, toOption_error]

theorem rowFree_decimalRow (precision width : Nat) (enforcePrecision : Bool) :
    RowFree (decimalRow precision width enforcePrecision) := by
  intro row slot
  have hnarrow (value : Option Int) :
      (narrow (8 * width) row value).toOption = (narrow (8 * width) 0 value).toOption := by
    cases value with
    | none => rfl
    | some value => simp only [narrow, toOption_ite, invalid, toOption_error]
  simp only [decimalRow, toOption_ite, invalid, toOption_error, hnarrow]

theorem rowFree_uuidRow : RowFree uuidRow := by
  intro row value
  cases value with
  | none => rfl
  | some value => simp only [uuidRow, toOption_ite, invalid, toOption_error]

theorem rowFree_addressRow (width : Nat) (parse : Bytes → Option Bytes) (message : String) :
    RowFree (addressRow width parse message) := by
  intro row value
  cases value with
  | none => rfl
  | some value =>
    simp only [addressRow]
    cases parse value.bytes with
    | none => rfl
    | some octets => simp only [toOption_ite, invalid, toOption_error]

theorem rowFree_date32Row : RowFree (date32Row date) := by
  intro row slot
  simp only [date32Row, toOption_ite, toOption_appendDate _ _ row]

theorem rowFree_date64Row : RowFree (date64Row date) := by
  intro row slot
  simp only [date64Row, toOption_ite, invalid, toOption_error, toOption_appendDate _ _ row]

theorem rowFree_timeRow (factor : Int) : RowFree (timeRow (w := w) factor) := by
  intro row slot
  simp only [timeRow, toOption_ite, toOption_appendTime _ row]

theorem rowFree_timeNanosRow : RowFree timeNanosRow := by
  intro row slot
  simp only [timeNanosRow, toOption_ite, invalid, toOption_error, toOption_appendTime _ row]

theorem rowFree_timestampRow (factor : Int) : RowFree (timestampRow date factor) := by
  intro row slot
  simp only [timestampRow, toOption_ite, toOption_bind, toOption_okOr,
    toOption_appendTimestamp _ _ row]

theorem rowFree_timestampNanosRow : RowFree (timestampNanosRow date) := by
  intro row slot
  simp only [timestampNanosRow, toOption_ite, invalid, toOption_error,
    toOption_appendTimestamp _ _ row]

theorem rowFree_durationRow (multiplier divisor : Int) (requireWholeDays : Bool) :
    RowFree (durationRow multiplier divisor requireWholeDays) := by
  intro row slot
  simp only [durationRow, toOption_ite, toOption_bind, toOption_okOr, invalid, toOption_error]

theorem additive_encodeChecked (reject : BitVec w → Bool) (message : String) (null : BitVec w) :
    Additive (encodeChecked reject message null) := by
  intro xs ys
  simp only [encodeChecked, isOk_map]
  refine additive_mapRows (fun row slot => ?_) xs ys
  simp only [toOption_ite, invalid, toOption_error]

theorem additive_encodeNative (monetType : MonetType) (type : Primitive) :
    Additive (encodeNative date monetType type) := by
  cases type with
  | int8 | int16 | int32 | int64 =>
    exact additive_encodeChecked (· == BitVec.intMin _) _ (BitVec.intMin _)
  | float32 => exact additive_encodeChecked (fun value => !Ieee754.f32IsFinite value) _ _
  | float64 => exact additive_encodeChecked (fun value => !Ieee754.f64IsFinite value) _ _
  | uint8 | uint16 | uint32 => exact additive_ok _
  | uint64 =>
    intro xs ys
    simp only [encodeNative]
    split_ifs
    · exact additive_concat rowFree_oidRow xs ys
    · simp
  | float16 => exact additive_concat rowFree_f16Row
  | decimal128 precision scale =>
    intro xs ys
    simp only [encodeNative, encodeDecimal]
    cases decimalWireWidth precision with
    | none => simp [invalid]
    | some width => exact additive_concat (rowFree_decimalRow _ _ _) xs ys
  | date32 => exact additive_concat (rowFree_date32Row date)
  | date64 => exact additive_concat (rowFree_date64Row date)
  | time32 unit =>
    cases unit with
    | second | millisecond => exact additive_concat (rowFree_timeRow _)
    | microsecond | nanosecond => exact fun _ _ => by simp [encodeNative, encodeTime32]
  | time64 unit =>
    cases unit with
    | second | millisecond => exact fun _ _ => by simp [encodeNative, encodeTime64]
    | microsecond => exact additive_concat (rowFree_timeRow _)
    | nanosecond => exact additive_concat rowFree_timeNanosRow
  | timestamp unit timezone =>
    cases unit with
    | second | millisecond | microsecond => exact additive_concat (rowFree_timestampRow date _)
    | nanosecond => exact additive_concat (rowFree_timestampNanosRow date)
  | duration unit =>
    cases unit <;> exact additive_concat (rowFree_durationRow _ _ _)

end Rows

section Slices
variable {date : Int → Option Date} {field : Field} {monetType : MonetType} {array : Column}

def Reservable : Column → Prop
  | .utf8 _ values => textBytes values + values.length ≤ isizeMax
  | _ => True

theorem reserveStrings_ok {values : List (Option Str)}
    (h : textBytes values + values.length ≤ isizeMax) : reserveStrings values = .ok () := by
  have hmax : isizeMax ≤ usizeMax := by decide
  rw [textBytes] at h
  rw [reserveStrings, if_neg (by omega), if_neg (by omega)]

theorem textBytes_slice (values : List (Option Str)) (start len : Nat) :
    textBytes ((values.drop start).take len) ≤ textBytes values := by
  rw [textBytes, textBytes, List.map_take, List.map_drop]
  exact (((List.take_sublist _ _).trans (List.drop_sublist _ _)).sum_le_sum (by simp))

theorem Reservable.slice (h : Reservable array) (start len : Nat) :
    Reservable (array.slice start len) := by
  cases array with
  | utf8 layout values =>
    rw [Reservable] at h
    rw [Column.slice, Reservable]
    have htext := textBytes_slice values start len
    have hlen : ((values.drop start).take len).length ≤ values.length := by simp
    omega
  | _ => trivial

theorem isOk_encodeUtf8 (date : Int → Option Date) (haddress : ¬IsAddress monetType) {layout : Layout}
    {values : List (Option Str)} (h : Reservable (.utf8 layout values)) :
    IsOk (encodeArray date monetType (.utf8 layout values)) ↔
      ∀ value ∈ values, hasNul value = false := by
  rw [encodeArray_utf8 haddress, ← encodeStringsFrom_isOk values 0 ⟨fun _ => none, none⟩]
  split_ifs
  · rw [reserveStrings_ok h]
    rfl
  · rfl

theorem isOk_encodeDictionary {key : DataType} (hkey : isDictionaryKey key = true) (layout : Layout)
    (strings : List (Option Str)) (keys : List (Option Nat)) :
    IsOk (encodeDictionary key keys (.utf8 layout strings)) ↔
      ∀ index ∈ keys, index.any (strings.length ≤ ·) = false ∧
        hasNul (index.bind fun index => strings[index]?.join) = false := by
  have hcheck : RowFree fun (row : Nat) (index : Option Nat) =>
      if index.any (strings.length ≤ ·) then
        (invalid row "dictionary key is outside the dictionary values" : Except EncodeError Unit)
      else .ok () := by
    intro row index
    simp only [toOption_ite, invalid, toOption_error]
  have hkeys := mapFrom_isOk hcheck 0 keys
  have hstrings := encodeStringsFrom_isOk (dictionaryStrings keys strings) 0 ⟨fun _ => none, none⟩
  rw [dictionaryStrings, List.forall_mem_map] at hstrings
  simp only [encodeDictionary, hkey, isOk_bind]
  rw [exists_and_right, forall₂_and]
  refine and_congr (hkeys.trans (forall₂_congr fun index _ => ?_)) hstrings
  cases index.any (strings.length ≤ ·) <;> simp [invalid]

theorem additive_encodeDictionary (key : DataType) (values : Column) :
    Additive fun keys => encodeDictionary key keys values := by
  by_cases hstrings : isDictionaryKey key = true ∧ ∃ layout strings, values = .utf8 layout strings
  · obtain ⟨hkey, layout, strings, rfl⟩ := hstrings
    exact additive_of_forall (isOk_encodeDictionary hkey layout strings)
  · intro xs ys
    have herror (keys : List (Option Nat)) : ¬IsOk (encodeDictionary key keys values) := by
      rw [encodeDictionary.eq_def]
      split
      · rename_i layout strings hkey
        exact absurd ⟨hkey, layout, strings, rfl⟩ hstrings
      · simp
    simp [herror]

theorem encodeArray_slice_add (h : Reservable array) (start m n : Nat) :
    IsOk (encodeArray date monetType (array.slice start (m + n))) ↔
      IsOk (encodeArray date monetType (array.slice start m)) ∧
        IsOk (encodeArray date monetType (array.slice (start + m) n)) := by
  cases array with
  | null | boolean | binary | other => simp [Column.slice, encodeArray]
  | primitive type slots => exact (additive_encodeNative date monetType type).slice slots start m n
  | utf8 layout values =>
    by_cases haddress : IsAddress monetType
    · rcases haddress with rfl | rfl | rfl
      · exact (additive_concat (rowFree_addressRow _ _ _)).slice values start m n
      · exact (additive_concat (rowFree_addressRow _ _ _)).slice values start m n
      · simp [Column.slice, encodeArray]
    · have hslice := fun start len => isOk_encodeUtf8 date haddress (h.slice start len)
      simp only [Column.slice] at hslice ⊢
      rw [hslice, hslice, hslice, List.take_add, List.drop_drop, List.forall_mem_append]
  | fixedSizeBinary width values =>
    by_cases huuid : width = 16 ∧ monetType = .uuid
    · obtain ⟨rfl, rfl⟩ := huuid
      exact (additive_concat rowFree_uuidRow).slice values start m n
    · simp [Column.slice, encodeArray, huuid]
  | dictionary key keys values => exact (additive_encodeDictionary key values).slice keys start m n

end Slices

end MonetdbAdbc
