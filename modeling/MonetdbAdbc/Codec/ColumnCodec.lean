import MonetdbAdbc.Codec.FixedWidth

namespace MonetdbAdbc
open LittleEndian Utf8 Machine Rows Ieee754 Calendar

section Blobs

def blobBytes (values : List (Option Bytes)) : Nat :=
  (values.map fun value => value.elim 0 List.length).sum

theorem encodeBlobs_cons (value : Option Bytes) (values : List (Option Bytes)) :
    encodeBlobs (value :: values) =
      (match value with
        | none => leBytes (BitVec.ofInt 64 (-1))
        | some value => leBytes (BitVec.ofNat 64 value.length) ++ value) ++ encodeBlobs values := by
  cases value <;> rfl

theorem encodeBlobs_length (values : List (Option Bytes)) :
    (encodeBlobs values).length = values.length * 8 + blobBytes values := by
  induction values with
  | nil => rfl
  | cons value values ih =>
    rw [encodeBlobs_cons]
    cases value <;> simp [ih, blobBytes] <;> ring

theorem decodeBlobValues_encodeBlobs {values : List (Option Bytes)} {total : Nat}
    (row pos valueBytes : Nat) (hpos : pos + (encodeBlobs values).length = total) (htotal : total ≤ usizeMax)
    (hvalues : valueBytes + blobBytes values ≤ i32Max) :
    decodeBlobValues total values.length row pos valueBytes (encodeBlobs values) = .ok values := by
  induction values generalizing row pos valueBytes with
  | nil =>
    have hend : pos = total := by simpa [encodeBlobs] using hpos
    simp [decodeBlobValues, encodeBlobs, hend]
  | cons value values ih =>
    rw [encodeBlobs_cons] at hpos ⊢
    have hmax : i32Max ≤ usizeMax := by decide
    cases value with
    | none =>
      simp only [List.length_append, leBytes_length] at hpos
      have hheader : checkedAdd pos 8 = some (pos + 8) :=
        checkedAdd_eq_some.mpr ⟨by omega, rfl⟩
      have hlen : (leBytes (BitVec.ofInt 64 (-1))).length = 8 := rfl
      have hrest := ih (row + 1) (pos + 8) valueBytes (by omega)
        (by simpa [blobBytes] using hvalues)
      simp only [List.length_cons, decodeBlobValues, hheader, okOr_some, ok_bind,
        List.length_append, hlen, List.take_left' hlen, List.drop_left' hlen,
        ofLeBytes_leBytes (by decide : 8 ∣ 64)]
      rw [if_neg (by omega), if_pos (by decide), hrest]
      rfl
    | some value =>
      simp only [List.length_append, leBytes_length] at hpos
      have hbytes : valueBytes + value.length + blobBytes values ≤ i32Max := by
        simpa [blobBytes, add_assoc] using hvalues
      have hi32 : i32Max = 2147483647 := rfl
      have hheader : checkedAdd pos 8 = some (pos + 8) :=
        checkedAdd_eq_some.mpr ⟨by omega, rfl⟩
      have hvalueEnd : checkedAdd (pos + 8) value.length = some (pos + 8 + value.length) :=
        checkedAdd_eq_some.mpr ⟨by omega, rfl⟩
      have hcount : checkedAdd valueBytes value.length = some (valueBytes + value.length) :=
        checkedAdd_eq_some.mpr ⟨by omega, rfl⟩
      have hlen : (leBytes (BitVec.ofNat 64 value.length)).length = 8 := rfl
      have hlength : (BitVec.ofNat 64 value.length).toInt = value.length := by
        rw [BitVec.toInt_eq_toNat_of_lt] <;> rw [BitVec.toNat_ofNat] <;> omega
      have hrest := ih (row + 1) (pos + 8 + value.length) (valueBytes + value.length)
        (by omega) hbytes
      simp only [List.length_cons, decodeBlobValues, hheader, okOr_some, ok_bind,
        List.append_assoc, List.length_append, hlen, List.take_left' hlen, List.drop_left' hlen,
        ofLeBytes_leBytes (by decide : 8 ∣ 64), hlength, Int.toNat_natCast, hvalueEnd, hcount,
        List.take_left, List.drop_left]
      rw [if_neg (by omega), if_neg (by omega), if_neg (by omega), if_neg (by omega),
        if_neg (by omega), hrest]
      rfl

theorem decodeBlob_encodeBlobs {values : List (Option Bytes)}
    (hfit : (encodeBlobs values).length ≤ isizeMax) (hvalues : blobBytes values ≤ i32Max) :
    decodeBlob (encodeBlobs values) values.length = .ok values := by
  have hmax : isizeMax ≤ usizeMax := by decide
  have hlen := encodeBlobs_length values
  have hminimum : checkedMul values.length 8 = some (values.length * 8) :=
    checkedMul_eq_some.mpr ⟨by omega, rfl⟩
  simp only [decodeBlob, hminimum]
  rw [if_neg (by omega), if_neg (by omega)]
  exact decodeBlobValues_encodeBlobs 0 0 0 (by simp) (by omega) (by simpa using hvalues)

end Blobs

section Columns
variable {date : Int → Option Date} {bytes : Bytes} {array : Column} {field : Field}

theorem withinCapacity_ok {out : Bytes} (h : withinCapacity out = .ok bytes) :
    bytes = out ∧ out.length ≤ isizeMax := by
  simp only [withinCapacity] at h
  split_ifs at h with hfit
  exact ⟨(Except.ok.inj h).symm, hfit⟩

theorem encodeColumn_ok (h : encodeColumn date field array = .ok bytes) :
    ∃ t, monetTypeForField field = .ok t ∧ encodeArray date t array = .ok bytes ∧
      bytes.length ≤ isizeMax := by
  simp only [encodeColumn, bind_eq_ok] at h
  obtain ⟨t, ht, -, -, -, -, out, hout, h⟩ := h
  obtain ⟨rfl, hfit⟩ := withinCapacity_ok h
  exact ⟨t, ht, hout, hfit⟩

theorem dataType_boolean (h : array.dataType = .boolean) : ∃ values, array = .boolean values := by
  cases array <;> simp [Column.dataType] at h
  exact ⟨_, rfl⟩

theorem dataType_primitive {type : Primitive} (h : array.dataType = .primitive type) :
    ∃ slots, array = .primitive type slots := by
  cases array <;> simp [Column.dataType] at h
  subst h
  exact ⟨_, rfl⟩

theorem dataType_binary {layout : Layout} (h : array.dataType = .binary layout) :
    ∃ values, array = .binary layout values := by
  cases array <;> simp [Column.dataType] at h
  subst h
  exact ⟨_, rfl⟩

theorem dataType_fixedSizeBinary {width : Nat} (h : array.dataType = .fixedSizeBinary width) :
    ∃ values, array = .fixedSizeBinary width values := by
  cases array <;> simp [Column.dataType] at h
  subst h
  exact ⟨_, rfl⟩

def Survives (result : Except DecodeError Column) (array : Column) : Prop :=
  ∃ decoded, result = .ok decoded ∧ decoded.dataType = array.dataType ∧ decoded.cells = array.cells

theorem primitive_survives (type : Primitive) {slots : List (Slot type.width)}
    {result : Except DecodeError (List (Slot type.width))}
    (h : ∃ decoded, result = .ok decoded ∧ decoded.map Slot.get = slots.map Slot.get) :
    Survives (result.map (.primitive type)) (.primitive type slots) := by
  obtain ⟨decoded, rfl, hsame⟩ := h
  refine ⟨.primitive type decoded, rfl, rfl, ?_⟩
  have hcells := congrArg (List.map (Option.map (Cell.native type.width))) hsame
  simpa [Column.cells, List.map_map, Function.comp_def] using hcells

def Column.valueBytes (array : Column) : Nat :=
  (array.cells.map fun
    | some (.text value) => value.bytes.length
    | some (.bytes value) => value.length
    | _ => 0).sum

theorem valueBytes_binary (layout : Layout) (values : List (Option Bytes)) :
    (Column.binary layout values).valueBytes = blobBytes values := by
  simp only [Column.valueBytes, Column.cells, blobBytes, List.map_map]
  congr 1
  apply List.map_congr_left
  intro value _
  cases value <;> rfl

theorem decodePrimitive_encodePrimitive {w : Nat} (hw : 8 ∣ w) (hpos : 0 < w)
    {slots : List (Slot w)} (h : encodePrimitive slots (BitVec.intMin w) = .ok bytes)
    (hfit : bytes.length ≤ isizeMax) :
    ∃ decoded, decodePrimitive w (· == BitVec.intMin w) bytes slots.length = .ok decoded ∧
      decoded.map Slot.get = slots.map Slot.get :=
  decodePrimitive_encodeChecked hw hpos (by simp) (fun _ hv => hv) h hfit

theorem finite_not_nan {exponent mantissa w : Nat} (v : BitVec w)
    (h : (!isFinite exponent mantissa v) = false) : isNan exponent mantissa v = false :=
  isNan_of_isFinite (by simpa using h)

theorem decodeColumn_decimal {precision scale : Nat} {slots : List (Slot 128)}
    (hp : 1 ≤ precision ∧ precision ≤ 38) (hs : scale ≤ precision)
    (h : encodeDecimal slots precision true = .ok bytes) (hfit : bytes.length ≤ isizeMax) :
    Survives (decodeColumn (.decimal precision scale) bytes slots.length)
      (.primitive (.decimal128 precision scale) slots) := by
  have hscale : decimalScale scale = .ok (scale : Int) := by
    rw [decimalScale, if_pos (by omega)]
  have hwidth : ∃ width, decimalWireWidth precision = some width := by
    simp only [decimalWireWidth]
    split_ifs <;> first | exact ⟨_, rfl⟩ | omega
  obtain ⟨width, hwidth⟩ := hwidth
  rw [decodeColumn, hscale]
  exact primitive_survives (.decimal128 precision scale)
    (decodeDecimal_encodeDecimal ⟨by omega, by omega⟩ hwidth h (.inl rfl) hfit)

theorem decodeColumn_hugeInt {slots : List (Slot 128)}
    (h : encodeDecimal slots 38 false = .ok bytes) (hfit : bytes.length ≤ isizeMax)
    (hbound : ∀ value, some (.native 128 value) ∈
      (Column.primitive (.decimal128 38 0) slots).cells →
        -(10 ^ 38) < value.toInt ∧ value.toInt < 10 ^ 38) :
    Survives (decodeColumn .hugeInt bytes slots.length)
      (.primitive (.decimal128 38 0) slots) := by
  refine primitive_survives (.decimal128 38 0)
    (decodeDecimal_encodeDecimal ⟨le_refl 0, by decide⟩ rfl h (.inr ⟨rfl, ?_⟩) hfit)
  intro slot hslot value hvalue
  exact hbound value (List.mem_map.mpr
    ⟨slot, hslot, congrArg (Option.map (Cell.native 128)) hvalue⟩)

theorem decodeColumn_encodeColumn (hd : Proleptic date) {name : String} {t : MonetType}
    (hfield : fieldForMonetType name t = .ok field)
    (ht : (fixedWireWidth t).isSome = true ∨ t = .blob) (htype : array.dataType = field.dataType)
    (hhuge : t = .hugeInt → ∀ value, some (.native 128 value) ∈ array.cells →
      -(10 ^ 38) < value.toInt ∧ value.toInt < 10 ^ 38)
    (hblob : t = .blob → array.valueBytes ≤ i32Max)
    (h : encodeColumn date field array = .ok bytes) :
    Survives (decodeColumn t bytes array.len) array := by
  obtain ⟨t', ht', hencode, hfit⟩ := encodeColumn_ok h
  rw [monetTypeForField_fieldForMonetType hfield, Except.ok.injEq] at ht'
  subst ht'
  obtain ⟨hdata, -⟩ := fieldForMonetType_ok hfield
  rw [← htype] at hdata
  cases t with
  | varchar | url | inet | inet4 | inet6 | json | geometry | xml =>
    simp [fixedWireWidth] at ht
  | bool =>
    obtain ⟨values, rfl⟩ := dataType_boolean (Except.ok.inj hdata).symm
    cases hencode
    exact ⟨_, by rw [decodeColumn, Column.len, decodeBool_encodeBool hfit]; rfl, rfl, rfl⟩
  | tinyInt | smallInt | int | bigInt | monthInterval =>
    obtain ⟨slots, rfl⟩ := dataType_primitive (Except.ok.inj hdata).symm
    exact primitive_survives _
      (decodePrimitive_encodePrimitive (by decide) (by decide) hencode hfit)
  | hugeInt =>
    obtain ⟨slots, rfl⟩ := dataType_primitive (Except.ok.inj hdata).symm
    exact decodeColumn_hugeInt hencode hfit (hhuge rfl)
  | oid =>
    obtain ⟨slots, rfl⟩ := dataType_primitive (Except.ok.inj hdata).symm
    exact primitive_survives _ (decodePrimitive_encodeOid hencode hfit)
  | decimal precision scale =>
    obtain ⟨hp1, hp2, hs, htype⟩ := dataTypeForMonetType_decimal hdata
    obtain ⟨slots, rfl⟩ := dataType_primitive htype
    exact decodeColumn_decimal ⟨hp1, hp2⟩ hs hencode hfit
  | real | double =>
    obtain ⟨slots, rfl⟩ := dataType_primitive (Except.ok.inj hdata).symm
    exact primitive_survives _
      (decodePrimitive_encodeChecked (by decide) (by decide) (by decide) finite_not_nan
        hencode hfit)
  | dayInterval | secInterval =>
    obtain ⟨slots, rfl⟩ := dataType_primitive (Except.ok.inj hdata).symm
    exact primitive_survives _ (decodePrimitive_encodeDuration hencode hfit)
  | time | timeTz =>
    obtain ⟨slots, rfl⟩ := dataType_primitive (Except.ok.inj hdata).symm
    exact primitive_survives _ (decodeTime_encodeTimeValues hencode hfit)
  | date =>
    obtain ⟨slots, rfl⟩ := dataType_primitive (Except.ok.inj hdata).symm
    exact primitive_survives _ (decodeDate_encodeDate32 hd hencode hfit)
  | timestamp | timestampTz =>
    obtain ⟨slots, rfl⟩ := dataType_primitive (Except.ok.inj hdata).symm
    exact primitive_survives _ (decodeTimestamp_encodeTimestampValues hd hencode hfit)
  | blob =>
    obtain ⟨values, rfl⟩ := dataType_binary (Except.ok.inj hdata).symm
    cases hencode
    have hvalues : blobBytes values ≤ i32Max := by
      rw [← valueBytes_binary .standard]
      exact hblob rfl
    exact ⟨_, by rw [decodeColumn, Column.len, decodeBlob_encodeBlobs hfit hvalues]; rfl, rfl, rfl⟩
  | uuid =>
    obtain ⟨values, rfl⟩ := dataType_fixedSizeBinary (Except.ok.inj hdata).symm
    have hvalues : encodeUuid values = .ok bytes := hencode
    exact ⟨_, by rw [decodeColumn, Column.len, decodeUuid_encodeUuid hvalues hfit]; rfl, rfl, rfl⟩

theorem encodeArray_length {t : MonetType} {width : Nat} (htype : array.dataType = field.dataType)
    (ht : monetTypeForField field = .ok t) (hwidth : fixedWireWidth t = some width)
    (h : encodeArray date t array = .ok bytes) : bytes.length = array.len * width := by
  cases array with
  | null rows =>
    simp only [monetTypeForField, ← htype, Column.dataType, Except.ok.injEq] at ht
    simp [← ht, fixedWireWidth] at hwidth
  | boolean values =>
    simp only [monetTypeForField, ← htype, Column.dataType, Except.ok.injEq] at ht
    subst ht
    cases hwidth
    simp [← Except.ok.inj h, encodeBool, Column.len]
  | primitive type slots =>
    rw [← nativeWireWidth_eq htype.symm ht hwidth]
    exact encodeNative_length h
  | utf8 layout values =>
    simp only [monetTypeForField, ← htype, Column.dataType, Except.ok.injEq] at ht
    subst ht
    split at hwidth <;> simp [fixedWireWidth] at hwidth
  | binary layout values =>
    simp only [monetTypeForField, ← htype, Column.dataType, Except.ok.injEq] at ht
    simp [← ht, fixedWireWidth] at hwidth
  | fixedSizeBinary size values =>
    simp only [monetTypeForField, ← htype, Column.dataType, Except.ok.injEq] at ht
    split_ifs at ht with huuid
    · subst ht
      obtain ⟨rfl, -⟩ := huuid
      cases hwidth
      have hvalues : encodeUuid values = .ok bytes := h
      exact concat_length uuidRow_length hvalues
    · simp [← ht, fixedWireWidth] at hwidth
  | dictionary key keys values =>
    simp only [encodeArray, encodeDictionary] at h
    split at h
    · simp only [monetTypeForField, ← htype, Column.dataType, Except.ok.injEq] at ht
      simp [← ht, fixedWireWidth] at hwidth
    · simp at h
  | other name values => simp [encodeArray] at h

theorem encodeColumn_length {width : Nat} (htype : array.dataType = field.dataType)
    (hwidth : fixedEncodedWidth field = .ok (some width))
    (h : encodeColumn date field array = .ok bytes) : bytes.length = array.len * width := by
  obtain ⟨t, ht, hencode, -⟩ := encodeColumn_ok h
  simp only [fixedEncodedWidth] at hwidth
  split_ifs at hwidth with hnull
  · rw [hnull] at htype
    cases array <;> simp [Column.dataType] at htype
    cases hwidth
    rw [← Except.ok.inj hencode, flatten_length 2, List.length_replicate]
    · rfl
    · intro p hp
      rw [List.eq_of_mem_replicate hp]
      rfl
  · rw [ht] at hwidth
    exact encodeArray_length htype ht (Except.ok.inj hwidth) hencode

theorem fixed_width_and_blob_columns_survive (hd : Proleptic date) :
    (∀ (name : String) (t : MonetType) (field : Field) (array : Column) (bytes : Bytes),
      fieldForMonetType name t = .ok field →
      ((fixedWireWidth t).isSome = true ∨ t = .blob) →
      array.dataType = field.dataType →
      (t = .hugeInt → ∀ value, some (.native 128 value) ∈ array.cells →
        -(10 ^ 38) < value.toInt ∧ value.toInt < 10 ^ 38) →
      (t = .blob → array.valueBytes ≤ i32Max) →
      encodeColumn date field array = .ok bytes →
      ∃ decoded, decodeColumn t bytes array.len = .ok decoded ∧
        decoded.dataType = array.dataType ∧ decoded.cells = array.cells) ∧
    (∀ (field : Field) (array : Column) (width : Nat) (bytes : Bytes),
      array.dataType = field.dataType →
      fixedEncodedWidth field = .ok (some width) →
      encodeColumn date field array = .ok bytes →
      bytes.length = array.len * width) :=
  ⟨fun _ _ _ _ _ hfield ht htype hhuge hblob h =>
      decodeColumn_encodeColumn hd hfield ht htype hhuge hblob h,
    fun _ _ _ _ htype hwidth h => encodeColumn_length htype hwidth h⟩

theorem date_column_survives :
    ∃ decoded,
      decodeColumn .date [1, 2, 0xb2, 7, 0xff, 0xff, 0xff, 0xff] 2 = .ok decoded ∧
      decoded.dataType = .primitive .date32 ∧
      decoded.cells = [some (.native 32 31), none] ∧
      ([1, 2, 0xb2, 7, 0xff, 0xff, 0xff, 0xff] : Bytes).length = 2 * 4 := by
  have hencode : encodeColumn datesFromEpoch ⟨"d", .primitive .date32, true, none⟩
      (.primitive .date32 [⟨false, 31⟩, ⟨true, 0⟩]) =
        .ok [1, 2, 0xb2, 7, 0xff, 0xff, 0xff, 0xff] := by decide +kernel
  obtain ⟨hsurvive, hlength⟩ := fixed_width_and_blob_columns_survive datesFromEpoch_proleptic
  obtain ⟨decoded, hdecode, htype, hcells⟩ := hsurvive "d" .date _ _ _ rfl (.inl rfl) rfl
    (by simp) (by simp) hencode
  exact ⟨decoded, hdecode, htype, hcells, hlength _ _ 4 _ rfl rfl hencode⟩

end Columns

end MonetdbAdbc
