import MonetdbAdbc.Codec.EncodedSize
import MonetdbAdbc.Sql.DateLiteral
import MonetdbAdbc.Sql.LiteralText

namespace MonetdbAdbc.Sql
open LittleEndian Utf8 Machine Rows Calendar Text TextFields Iso8601

def cellValue : Option Cell → Option SqlValue
  | some (.native _ value) => some (.number value.toInt)
  | some (.text value) => some (.text value.bytes)
  | some (.bytes value) => some (.bytes value)
  | _ => none

def isCompared : DataType → Bool
  | .primitive (.decimal128 _ scale) => 0 ≤ scale
  | .primitive (.time32 _) | .primitive (.time64 _) | .primitive (.duration _) => true
  | .utf8 _ | .binary _ | .fixedSizeBinary _ | .dictionary _ (.utf8 _) => true
  | _ => false

-- What an Arrow column of the type that decode_column builds can hold.
def Representable (dataType : DataType) (cell : Cell) : Prop :=
  match dataType, cell with
  | .primitive (.decimal128 precision scale), .native _ value =>
    scale ≤ precision ∧ -(10 ^ 38) < value.toInt ∧ value.toInt < 10 ^ 38
  | _, .text value => value.bytes.length < i32Max
  | _, .bytes value => value.length ≤ i32Max
  | _, _ => True

section Agreement
variable {rendering : Rendering} {date : Int → Option Date} {field : Field} {bytes : Bytes}

structure ReadsAlike (text : Bytes) (monetType : MonetType) (bytes : Bytes) (fits : Prop) : Prop where
  reads : ∃ value, readValue monetType text = some value ∧
    ∀ decoded, decodeColumn monetType bytes 1 = .ok decoded →
      decoded.cells.map cellValue = [some value]
  decodes : IsOk (decodeColumn monetType bytes 1) ↔ fits

theorem ReadsAlike.of {text : Bytes} {monetType : MonetType} {fits : Prop} {value : SqlValue}
    (hread : readValue monetType text = some value)
    (hdecode : fits → ∃ decoded, decodeColumn monetType bytes 1 = .ok decoded ∧
      decoded.cells.map cellValue = [some value])
    (hfits : IsOk (decodeColumn monetType bytes 1) → fits) :
    ReadsAlike text monetType bytes fits where
  reads := by
    refine ⟨value, hread, ?_⟩
    intro decoded hdecoded
    obtain ⟨other, hother, hcells⟩ := hdecode (hfits ⟨decoded, hdecoded⟩)
    rw [← Except.ok.inj (hother.symm.trans hdecoded)]
    exact hcells
  decodes := by
    refine ⟨hfits, ?_⟩
    intro h
    obtain ⟨decoded, hdecoded, -⟩ := hdecode h
    exact ⟨decoded, hdecoded⟩

theorem ReadsAlike.always {text : Bytes} {monetType : MonetType} {value : SqlValue} {decoded : Column}
    (hread : readValue monetType text = some value)
    (hdecode : decodeColumn monetType bytes 1 = .ok decoded)
    (hcells : decoded.cells.map cellValue = [some value]) :
    ReadsAlike text monetType bytes True :=
  .of hread (fun _ => ⟨decoded, hdecode, hcells⟩) (fun _ => trivial)

end Agreement

section Times
variable {bytes : Bytes} {unit : TimeUnit}

theorem encodeTime32_one {value : BitVec 32} (h : encodeTime32 unit [⟨false, value⟩] = .ok bytes) :
    ∃ micros, time32Micros unit value = .ok micros ∧ appendTime micros 0 = .ok bytes := by
  cases unit with
  | second | millisecond => exact ⟨_, rfl, (concat_singleton _ _).symm.trans h⟩
  | microsecond | nanosecond => cases h

theorem encodeTime64_one {value : BitVec 64} (h : encodeTime64 unit [⟨false, value⟩] = .ok bytes) :
    ∃ micros, time64Micros unit value = .ok micros ∧ appendTime micros 0 = .ok bytes := by
  cases unit with
  | second | millisecond => cases h
  | microsecond =>
    have hrow : timeRow 1 0 ⟨false, value⟩ = .ok bytes := (concat_singleton _ _).symm.trans h
    rw [timeRow, if_neg Bool.false_ne_true, mul_one] at hrow
    exact ⟨_, rfl, hrow⟩
  | nanosecond =>
    have hrow : timeNanosRow 0 ⟨false, value⟩ = .ok bytes := (concat_singleton _ _).symm.trans h
    rw [timeNanosRow, if_neg Bool.false_ne_true] at hrow
    split_ifs at hrow with haligned
    · cases hrow
    · exact ⟨_, if_neg haligned, hrow⟩

theorem time_reads {micros : Int} {opening closing : String} (monetType : MonetType)
    (hreader : readValue monetType =
      readNumber opening closing fun body => (readClock body).map (↑))
    (hdecoder : ∀ bytes, decodeColumn monetType bytes 1 =
      (decodeTime bytes 1).map (.primitive (.time64 .microsecond)))
    (h : appendTime micros 0 = .ok bytes) :
    ∃ time, formatTime micros = .ok time ∧
      ReadsAlike (ascii opening ++ time ++ ascii closing) monetType bytes True := by
  obtain ⟨hlow, hhigh, -⟩ := appendTime_ok h
  have hlt : micros < 86400000000 := hhigh
  have hclock : (readClock (clockText micros.toNat)).map (fun n : Nat => (n : Int)) = some micros := by
    rw [readClock_clockText (by omega), Option.map_some, Int.toNat_of_nonneg hlow]
  have hint : (BitVec.ofInt 64 micros).toInt = micros :=
    toInt_ofInt_of_bounds (by decide) (by omega) (by omega)
  have hread : readValue monetType (ascii opening ++ clockText micros.toNat ++ ascii closing) =
      some (.number micros) := by
    rw [hreader]
    exact readNumber_eq hclock
  have hdecode : decodeColumn monetType bytes 1 =
      .ok (.primitive (.time64 .microsecond) [slotOf 64 (some micros)]) := by
    rw [hdecoder]
    exact congrArg (Except.map _) (decode_one 64 (by decide) (by decide) timeValue
      (appendTime_length h) (timeValue_appendTime h))
  exact ⟨_, formatTime_ok hlow hlt, .always hread hdecode
    (congrArg (fun n => [some (SqlValue.number n)]) hint)⟩

theorem time32_agrees {value : BitVec 32} (h : encodeTime32 unit [⟨false, value⟩] = .ok bytes) :
    ∃ text, time32Literal unit value = .ok text ∧ ReadsAlike text .time bytes True := by
  obtain ⟨micros, hmicros, happend⟩ := encodeTime32_one h
  obtain ⟨time, hformat, halike⟩ := time_reads .time rfl (fun _ => rfl) happend
  refine ⟨_, ?_, halike⟩
  rw [time32Literal, hmicros, ok_bind, hformat, ok_bind]
  rfl

theorem time64_agrees {value : BitVec 64} (timezone : Bool)
    (h : encodeTime64 unit [⟨false, value⟩] = .ok bytes) :
    ∃ text, time64Literal unit timezone value = .ok text ∧
      ReadsAlike text (if timezone then .timeTz else .time) bytes True := by
  obtain ⟨micros, hmicros, happend⟩ := encodeTime64_one h
  cases timezone with
  | true =>
    obtain ⟨time, hformat, halike⟩ := time_reads .timeTz rfl (fun _ => rfl) happend
    refine ⟨_, ?_, halike⟩
    rw [time64Literal, hmicros, ok_bind, hformat, ok_bind]
    rfl
  | false =>
    obtain ⟨time, hformat, halike⟩ := time_reads .time rfl (fun _ => rfl) happend
    refine ⟨_, ?_, halike⟩
    rw [time64Literal, hmicros, ok_bind, hformat, ok_bind]
    rfl

end Times

section Durations
variable {bytes : Bytes} {wholeDays : Bool} {value : BitVec 64}

theorem durationRow_one {multiplier divisor : Int}
    (h : durationRow multiplier divisor wholeDays 0 ⟨false, value⟩ = .ok bytes) :
    value.toInt.tmod divisor = 0 ∧ ∃ millis,
      checkedMulI64 (value.toInt.tdiv divisor) multiplier = some millis ∧ millis ≠ -(2 ^ 63) ∧
        bytes = leBytes (BitVec.ofInt 64 millis) := by
  rw [durationRow, if_neg Bool.false_ne_true] at h
  split_ifs at h with haligned
  · cases h
  · simp only [bind_eq_ok, okOr_eq_ok] at h
    obtain ⟨millis, hmul, hrow⟩ := h
    split_ifs at hrow with hmin hdays
    · cases hrow
    · cases hrow
    · exact ⟨not_not.mp haligned, millis, hmul, hmin, (Except.ok.inj hrow).symm⟩

theorem encodeDuration_one {unit : TimeUnit}
    (h : encodeDuration unit wholeDays [⟨false, value⟩] = .ok bytes) :
    ∃ millis, durationMillis unit value = .ok millis ∧ inI64 millis = true ∧
      millis ≠ -(2 ^ 63) ∧ bytes = leBytes (BitVec.ofInt 64 millis) := by
  cases unit with
  | second =>
    obtain ⟨-, millis, hmul, hmin, rfl⟩ := durationRow_one ((concat_singleton _ _).symm.trans h)
    rw [Int.tdiv_one] at hmul
    obtain ⟨hin, rfl⟩ := checkedMulI64_eq_some.mp hmul
    exact ⟨_, okOr_eq_ok.mpr hmul, hin, hmin, rfl⟩
  | millisecond =>
    obtain ⟨-, millis, hmul, hmin, rfl⟩ := durationRow_one ((concat_singleton _ _).symm.trans h)
    obtain ⟨hin, rfl⟩ := checkedMulI64_eq_some.mp hmul
    rw [Int.tdiv_one, mul_one] at hin hmin ⊢
    exact ⟨_, rfl, hin, hmin, rfl⟩
  | microsecond | nanosecond =>
    obtain ⟨haligned, millis, hmul, hmin, rfl⟩ :=
      durationRow_one ((concat_singleton _ _).symm.trans h)
    obtain ⟨hin, rfl⟩ := checkedMulI64_eq_some.mp hmul
    rw [mul_one] at hin hmin ⊢
    exact ⟨_, if_neg (not_not.mpr haligned), hin, hmin, rfl⟩

theorem decodePrimitive_millis {millis : Int} (hin : inI64 millis = true)
    (hmin : millis ≠ -(2 ^ 63)) :
    ∃ slots, decodePrimitive 64 (· == BitVec.intMin 64) (leBytes (BitVec.ofInt 64 millis)) 1 =
        .ok slots ∧
      (Column.primitive (.duration .millisecond) slots).cells.map cellValue =
        [some (.number millis)] := by
  obtain ⟨hlow, hhigh⟩ : -(2 ^ 63) ≤ millis ∧ millis < 2 ^ 63 := by simpa [inI64] using hin
  have hint : (BitVec.ofInt 64 millis).toInt = millis :=
    toInt_ofInt_of_bounds (by decide) hlow hhigh
  have hnull : (BitVec.ofInt 64 millis == BitVec.intMin 64) = false := by
    rw [beq_eq_false_iff_ne]
    intro heq
    have hvalue := congrArg BitVec.toInt heq
    rw [hint] at hvalue
    exact hmin (hvalue.trans (by decide))
  have hslot : primitiveSlot (· == BitVec.intMin 64) (leBytes (BitVec.ofInt 64 millis)) =
      ⟨false, BitVec.ofInt 64 millis⟩ := by
    rw [primitiveSlot, ofLeBytes_leBytes (by decide), hnull]
  refine ⟨[⟨false, BitVec.ofInt 64 millis⟩], ?_, congrArg (fun n => [some (SqlValue.number n)]) hint⟩
  rw [decodePrimitive_eq, decode_chunk (by decide) (by decide) _ (leBytes_length _), hslot]
  rfl

theorem duration_agrees {unit : TimeUnit} {monetType : MonetType}
    {render : TimeUnit → BitVec 64 → Except AdbcError Bytes}
    (hrender : ∀ {millis}, durationMillis unit value = .ok millis →
      ∃ text, render unit value = .ok text ∧ readValue monetType text = some (.number millis))
    (hdecoder : ∀ bytes, decodeColumn monetType bytes 1 =
      (decodePrimitive 64 (· == BitVec.intMin 64) bytes 1).map (.primitive (.duration .millisecond)))
    (h : encodeDuration unit wholeDays [⟨false, value⟩] = .ok bytes) :
    ∃ text, render unit value = .ok text ∧ ReadsAlike text monetType bytes True := by
  obtain ⟨millis, hmillis, hin, hmin, rfl⟩ := encodeDuration_one h
  obtain ⟨text, htext, hread⟩ := hrender hmillis
  obtain ⟨slots, hdecode, hcells⟩ := decodePrimitive_millis hin hmin
  have hcolumn : decodeColumn monetType (leBytes (BitVec.ofInt 64 millis)) 1 =
      .ok (.primitive (.duration .millisecond) slots) := by
    rw [hdecoder]
    exact congrArg (Except.map _) hdecode
  exact ⟨text, htext, .always hread hcolumn hcells⟩

end Durations

section Decimals
variable {bytes : Bytes} {precision : Nat} {value : BitVec 128}

theorem encodeDecimal_one {enforcePrecision : Bool}
    (h : encodeDecimal [⟨false, value⟩] precision enforcePrecision = .ok bytes) :
    ∃ width, decimalWireWidth precision = some width ∧
      narrow (8 * width) 0 (some value.toInt) = .ok bytes ∧
      (enforcePrecision = true → -(10 ^ precision) < value.toInt ∧ value.toInt < 10 ^ precision) := by
  rw [encodeDecimal] at h
  cases hwidth : decimalWireWidth precision with
  | none =>
    rw [hwidth] at h
    cases h
  | some width =>
    rw [hwidth] at h
    obtain ⟨hnarrow, hbound⟩ := decimalRow_ok ((concat_singleton _ _).symm.trans h)
    exact ⟨width, rfl, hnarrow, fun henforce => hbound henforce value rfl⟩

theorem precision_bounds {width : Nat} (h : decimalWireWidth precision = some width) :
    1 ≤ precision ∧ precision ≤ 38 := by
  simp only [decimalWireWidth] at h
  split_ifs at h <;> omega

theorem cells_of_survives {result : Except DecodeError Column} {scale : Int}
    (h : Survives result (.primitive (.decimal128 precision scale) [⟨false, value⟩])) :
    ∃ decoded, result = .ok decoded ∧ decoded.cells.map cellValue = [some (.number value.toInt)] := by
  obtain ⟨decoded, hdecode, -, hcells⟩ := h
  refine ⟨decoded, hdecode, ?_⟩
  rw [hcells]
  rfl

theorem decodeColumn_decimal_scale {scale rows : Nat}
    (h : IsOk (decodeColumn (.decimal precision scale) bytes rows)) : scale ≤ precision := by
  obtain ⟨decoded, hdecode⟩ := h
  simp only [decodeColumn, bind_eq_ok, decimalScale] at hdecode
  obtain ⟨signedScale, hscale, hdecode⟩ := hdecode
  split_ifs at hscale
  cases hscale
  obtain ⟨slots, hslots, -⟩ := map_eq_ok.mp hdecode
  by_contra hgt
  rw [decodeDecimal, if_pos (by omega)] at hslots
  cases hslots

theorem decimal_agrees {scale : Int} (hscale : 0 ≤ scale)
    (h : encodeDecimal [⟨false, value⟩] precision true = .ok bytes)
    (hfit : bytes.length ≤ isizeMax) :
    ∃ text, decimalLiteral value.toInt scale = .ok text ∧
      ReadsAlike text (.decimal precision scale.toNat) bytes
        (scale ≤ precision ∧ -(10 ^ 38) < value.toInt ∧ value.toInt < 10 ^ 38) := by
  obtain ⟨width, hwidth, -, hbound⟩ := encodeDecimal_one h
  obtain ⟨hone, hmax⟩ := precision_bounds hwidth
  obtain ⟨text, htext, hread⟩ := readDecimal_decimalLiteral hscale value.toInt
  refine ⟨text, htext, .of (congrArg (Option.map SqlValue.number) hread) ?_ ?_⟩
  · rintro ⟨hle, -⟩
    have hscaled : scale.toNat ≤ precision := by omega
    have hsurvives := decodeColumn_decimal ⟨hone, hmax⟩ hscaled h hfit
    exact cells_of_survives hsurvives
  · intro hok
    have hle : scale ≤ precision := by
      have hscaled := decodeColumn_decimal_scale hok
      omega
    have hpow : (10 : Int) ^ precision ≤ 10 ^ 38 := pow_le_pow_right₀ (by norm_num) hmax
    obtain ⟨hlow, hhigh⟩ := hbound rfl
    exact ⟨hle, (neg_le_neg hpow).trans_lt hlow, hhigh.trans_le hpow⟩

theorem hugeInt_agrees (h : encodeDecimal [⟨false, value⟩] 38 false = .ok bytes)
    (hfit : bytes.length ≤ isizeMax) :
    ∃ text, decimalLiteral value.toInt 0 = .ok text ∧
      ReadsAlike text .hugeInt bytes
        ((0 : Int) ≤ (38 : Nat) ∧ -(10 ^ 38) < value.toInt ∧ value.toInt < 10 ^ 38) := by
  obtain ⟨width, hwidth, hnarrow, -⟩ := encodeDecimal_one h
  obtain rfl : 16 = width := Option.some.inj hwidth
  obtain ⟨hlow, hhigh, hbytes⟩ := narrow_ok hnarrow
  obtain ⟨text, htext, hread⟩ := readDecimal_decimalLiteral (le_refl 0) value.toInt
  refine ⟨text, htext, .of (congrArg (Option.map SqlValue.number) hread) ?_ ?_⟩
  · rintro ⟨-, hbound⟩
    refine cells_of_survives (decodeColumn_hugeInt h hfit ?_)
    intro other hother
    have hcell : some (Cell.native 128 other) = some (Cell.native 128 value) :=
      List.mem_singleton.mp hother
    obtain rfl : other = value := by simpa using hcell
    exact hbound
  · rintro ⟨decoded, hdecode⟩
    obtain ⟨slots, hslots, -⟩ := map_eq_ok.mp hdecode
    have hlength : bytes.length = 16 := narrow_length hnarrow
    have hchunk : decodeDecimal bytes 1 38 0 true = (decimalValue 16 38 true 0 bytes).map ([·]) :=
      decode_chunk (by decide) (by decide) _ hlength
    rw [hchunk] at hslots
    obtain ⟨slot, hslot, -⟩ := map_eq_ok.mp hslots
    have hint : (BitVec.ofInt (8 * 16) value.toInt).toInt = value.toInt :=
      toInt_ofInt_of_bounds (by decide) hlow.le hhigh
    have hnull : (value.toInt == -(2 ^ (8 * 16 - 1))) = false := by
      rw [beq_eq_false_iff_ne]
      omega
    rw [hbytes, decimalValue, ofLeBytes_leBytes (by decide), hint] at hslot
    simp only [hnull, Bool.not_false, Bool.true_and, Bool.or_eq_true, decide_eq_true_eq] at hslot
    split_ifs at hslot with hlimit
    refine ⟨by decide, ?_⟩
    omega

end Decimals

section Binary
variable {bytes : Bytes}

theorem blob_agrees {value : Bytes} (hfit : (encodeBlobs [some value]).length ≤ isizeMax) :
    ReadsAlike (blobLiteral value) .blob (encodeBlobs [some value]) (value.length ≤ i32Max) := by
  have hbytes : blobBytes [some value] = value.length := by simp [blobBytes]
  refine .of (readValue_blobLiteral value) ?_ ?_
  · intro hle
    have hdecode := decodeBlob_encodeBlobs hfit (hbytes.le.trans hle)
    exact ⟨_, congrArg (Except.map _) hdecode, rfl⟩
  · rintro ⟨decoded, hdecode⟩
    obtain ⟨values, hvalues, -⟩ := map_eq_ok.mp hdecode
    have hlength := encodeBlobs_length [some value]
    rw [hbytes, List.length_singleton] at hlength
    simp only [decodeBlob] at hvalues
    rw [show checkedMul 1 8 = some 8 from rfl] at hvalues
    simp only at hvalues
    split_ifs at hvalues with hshort hlong
    omega

theorem uuid_agrees {value : FixedBytes 16} (h : encodeUuid [some value] = .ok bytes)
    (hfit : bytes.length ≤ isizeMax) :
    ReadsAlike (uuidLiteral value.val) .uuid bytes (value.val.length ≤ i32Max) := by
  have hdecode := decodeUuid_encodeUuid h hfit
  have hsize : value.val.length ≤ i32Max := by
    rw [value.property]
    decide
  exact .of (readValue_uuidLiteral value.property)
    (fun _ => ⟨_, congrArg (Except.map _) hdecode, rfl⟩) (fun _ => hsize)

theorem encodeStrings_one {value : Str} (h : encodeStrings [some value] = .ok bytes) :
    0 ∉ value.bytes ∧ bytes.length = value.bytes.length + 1 := by
  simp only [encodeStrings, encodeStringsFrom, stringPiece] at h
  split_ifs at h with hnul
  · cases h
  · have hbytes : value.bytes ++ [0] ++ [] = bytes := Except.ok.inj h
    refine ⟨by simpa using hnul, ?_⟩
    rw [← hbytes]
    simp

theorem string_agrees {value : Str} (h : encodeStrings [some value] = .ok bytes) (width : Nat) :
    ∃ text, quoteString value = .ok text ∧
      ReadsAlike text (.varchar width) bytes (value.bytes.length < i32Max) := by
  obtain ⟨hnul, hlength⟩ := encodeStrings_one h
  obtain ⟨text, htext, hread⟩ := readValue_quoteString hnul width
  refine ⟨text, htext, .of hread ?_ ?_⟩
  · intro hlt
    have htotal : textBytes [some value] = value.bytes.length := by simp [textBytes]
    have hdecode := decodeStrings_encodeStrings h (by omega) (by omega)
    exact ⟨_, congrArg (Except.map _) hdecode, rfl⟩
  · rintro ⟨decoded, hdecode⟩
    obtain ⟨values, hvalues, -⟩ := map_eq_ok.mp hdecode
    rw [decodeStrings] at hvalues
    split_ifs at hvalues with hshort hlong
    omega

end Binary

section Columns
variable {rendering : Rendering} {field : Field} {cell : Cell} {bytes : Bytes} {layout : Layout}

theorem map_eq_one {α : Type} {f : α → Cell} {values : List (Option α)}
    (h : values.map (Option.map f) = [some cell]) : ∃ value, values = [some value] ∧ f value = cell := by
  obtain ⟨value, rfl, hvalue⟩ := List.map_eq_singleton_iff.mp h
  obtain ⟨content, rfl, hcontent⟩ := Option.map_eq_some_iff.mp hvalue
  exact ⟨content, rfl, hcontent⟩

theorem primitive_cells_one {type : Primitive} {slots : List (Slot type.width)}
    (h : (Column.primitive type slots).cells = [some cell]) :
    ∃ value, slots = [⟨false, value⟩] ∧ cell = .native type.width value := by
  obtain ⟨⟨isNull, value⟩, rfl, hslot⟩ := List.map_eq_singleton_iff.mp h
  obtain ⟨content, hget, hcontent⟩ := Option.map_eq_some_iff.mp hslot
  cases isNull with
  | true => cases hget
  | false =>
    cases hget
    exact ⟨value, rfl, hcontent.symm⟩

def SameValue (rendering : Rendering) (field : Field) (array : Column) (cell : Cell) (bytes : Bytes) :
    Prop :=
  ∃ monetType text, monetTypeForField field = .ok monetType ∧
    literal rendering field array 0 = .ok text ∧
    ReadsAlike text monetType bytes (Representable field.dataType cell)

theorem primitive_agrees {type : Primitive} {value : BitVec type.width}
    (hfield : field.dataType = .primitive type) (hcompared : isCompared (.primitive type) = true)
    (h : encodeColumn rendering.dateFromUnixDays field (oneValue type value) = .ok bytes) :
    SameValue rendering field (oneValue type value) (.native type.width value) bytes := by
  obtain ⟨t, ht, hencode, hfit⟩ := encodeColumn_ok h
  rw [SameValue, hfield, ht]
  rw [monetTypeForField, hfield] at ht
  cases type with
  | int8 | int16 | int32 | int64 | uint8 | uint16 | uint32 | uint64 | float16 | float32 | float64
  | date32 | date64 | timestamp => cases hcompared
  | decimal128 precision scale =>
    have hscale : 0 ≤ scale := by simpa [isCompared] using hcompared
    simp only at ht
    split_ifs at ht with hhuge
    · cases ht
      obtain ⟨rfl, rfl, -⟩ := hhuge
      obtain ⟨text, htext, halike⟩ := hugeInt_agrees hencode hfit
      exact ⟨_, text, rfl, htext, halike⟩
    · cases ht
      obtain ⟨text, htext, halike⟩ := decimal_agrees hscale hencode hfit
      exact ⟨_, text, rfl, htext, halike⟩
  | time32 unit =>
    cases ht
    obtain ⟨text, htext, halike⟩ := time32_agrees hencode
    exact ⟨_, text, rfl, htext, halike⟩
  | time64 unit =>
    cases ht
    obtain ⟨text, htext, halike⟩ :=
      time64_agrees (field.extension == some "monetdb.timetz") hencode
    simp only [beq_iff_eq] at halike
    exact ⟨_, text, rfl, htext, halike⟩
  | duration unit =>
    cases ht
    by_cases hday : field.extension = some "monetdb.interval_day"
    · rw [if_pos hday]
      obtain ⟨text, htext, halike⟩ :=
        duration_agrees readValue_dayIntervalLiteral (fun _ => rfl) hencode
      exact ⟨_, text, rfl, (if_pos hday).trans htext, halike⟩
    · rw [if_neg hday]
      obtain ⟨text, htext, halike⟩ :=
        duration_agrees readValue_durationLiteral (fun _ => rfl) hencode
      exact ⟨_, text, rfl, (if_neg hday).trans htext, halike⟩

theorem fixedSizeBinary_agrees {width : Nat} {value : FixedBytes width}
    (hfield : field.dataType = .fixedSizeBinary width)
    (h : encodeColumn rendering.dateFromUnixDays field (.fixedSizeBinary width [some value]) =
      .ok bytes) :
    SameValue rendering field (.fixedSizeBinary width [some value]) (.bytes value.val) bytes := by
  obtain ⟨t, ht, hencode, hfit⟩ := encodeColumn_ok h
  rw [SameValue, hfield, ht]
  rw [monetTypeForField, hfield] at ht
  cases ht
  by_cases huuid : width = 16 ∧ field.extension = some "arrow.uuid"
  · rw [if_pos huuid] at hencode ⊢
    refine ⟨_, uuidLiteral value.val, rfl, ?_, ?_⟩
    · exact congrArg Except.ok (if_pos huuid)
    · obtain ⟨rfl, -⟩ := huuid
      exact uuid_agrees hencode hfit
  · rw [if_neg huuid] at hencode ⊢
    refine ⟨_, blobLiteral value.val, rfl, ?_, ?_⟩
    · exact congrArg Except.ok (if_neg huuid)
    · rw [encodeArray, dif_neg (fun hboth => absurd hboth.2 (by decide))] at hencode
      cases hencode
      exact blob_agrees hfit

theorem utf8_agrees {value : Str} (hfield : field.dataType = .utf8 layout)
    (hextension : field.extension = none)
    (h : encodeColumn rendering.dateFromUnixDays field (.utf8 layout [some value]) = .ok bytes) :
    SameValue rendering field (.utf8 layout [some value]) (.text value) bytes := by
  obtain ⟨t, ht, hencode, -⟩ := encodeColumn_ok h
  rw [SameValue, hfield, ht]
  rw [monetTypeForField, hfield, hextension] at ht
  cases ht
  have hstrings : encodeStrings [some value] = .ok bytes :=
    encodeUtf8_ok (by simp [IsAddress]) hencode
  obtain ⟨text, htext, halike⟩ := string_agrees hstrings 0
  exact ⟨_, text, rfl, htext, halike⟩

theorem dictionary_cells_one {key : DataType} {keys : List (Option Nat)}
    {strings : List (Option Str)}
    (h : (Column.dictionary key keys (.utf8 layout strings)).cells = [some cell]) :
    ∃ index value, keys = [some index] ∧ strings[index]? = some (some value) ∧ cell = .text value := by
  obtain ⟨index, rfl, hindex⟩ := List.map_eq_singleton_iff.mp h
  cases index with
  | none => cases hindex
  | some index =>
    rw [Option.bind_some, Column.cells, List.getElem?_map] at hindex
    cases hstring : strings[index]? with
    | none =>
      rw [hstring] at hindex
      cases hindex
    | some content =>
      rw [hstring] at hindex
      obtain ⟨value, rfl, hvalue⟩ := Option.map_eq_some_iff.mp hindex
      exact ⟨index, value, rfl, hstring, hvalue.symm⟩

theorem dictionary_agrees {key : DataType} {strings : List (Option Str)} {index : Nat}
    {value : Str} (hfield : field.dataType = .dictionary key (.utf8 layout))
    (hvalue : strings[index]? = some (some value))
    (h : encodeColumn rendering.dateFromUnixDays field
      (.dictionary key [some index] (.utf8 layout strings)) = .ok bytes) :
    SameValue rendering field (.dictionary key [some index] (.utf8 layout strings)) (.text value)
      bytes := by
  obtain ⟨t, ht, hencode, -⟩ := encodeColumn_ok h
  rw [SameValue, hfield, ht]
  rw [monetTypeForField, hfield] at ht
  cases ht
  rw [encodeArray, encodeDictionary.eq_def] at hencode
  cases hkey : isDictionaryKey key with
  | false =>
    rw [hkey] at hencode
    cases hencode
  | true =>
    rw [hkey] at hencode
    simp only [bind_eq_ok, List.map_cons, List.map_nil, Option.bind_some, hvalue,
      Option.join_some] at hencode
    obtain ⟨-, -, hstrings⟩ := hencode
    obtain ⟨text, htext, halike⟩ := string_agrees hstrings 0
    have hlt : index < strings.length := (List.getElem?_eq_some_iff.mp hvalue).1
    refine ⟨_, text, rfl, ?_, halike⟩
    simp only [literal, List.getElem?_cons_zero, orNull, hkey, Bool.not_true, Bool.false_eq_true,
      if_false, Column.len, hvalue, htext]
    rw [if_neg (by omega)]

theorem literal_text_denotes_copied_value (field : Field) (array : Column) (cell : Cell)
    (bytes : Bytes) (htype : array.dataType = field.dataType)
    (hcompared : isCompared field.dataType = true)
    (hextension : ∀ layout, field.dataType = .utf8 layout → field.extension = none)
    (hcells : array.cells = [some cell])
    (h : encodeColumn rendering.dateFromUnixDays field array = .ok bytes) :
    ∃ monetType text, monetTypeForField field = .ok monetType ∧
      literal rendering field array 0 = .ok text ∧
      (∃ value, readValue monetType text = some value ∧
        ∀ decoded, decodeColumn monetType bytes 1 = .ok decoded →
          decoded.cells.map cellValue = [some value]) ∧
      ((∃ decoded, decodeColumn monetType bytes 1 = .ok decoded) ↔
        Representable field.dataType cell) := by
  have hsame : SameValue rendering field array cell bytes := by
    cases array with
    | null | boolean | other =>
      rw [← htype] at hcompared
      cases hcompared
    | primitive type slots =>
      obtain ⟨value, rfl, rfl⟩ := primitive_cells_one hcells
      rw [← htype] at hcompared
      exact primitive_agrees htype.symm hcompared h
    | utf8 layout values =>
      obtain ⟨value, rfl, rfl⟩ := map_eq_one hcells
      exact utf8_agrees htype.symm (hextension layout htype.symm) h
    | binary layout values =>
      obtain ⟨value, rfl, rfl⟩ := map_eq_one hcells
      obtain ⟨t, ht, hencode, hfit⟩ := encodeColumn_ok h
      rw [SameValue, ← htype, ht]
      rw [monetTypeForField, ← htype] at ht
      cases ht
      cases hencode
      exact ⟨_, _, rfl, rfl, blob_agrees hfit⟩
    | fixedSizeBinary width values =>
      obtain ⟨value, rfl, rfl⟩ := map_eq_one hcells
      exact fixedSizeBinary_agrees htype.symm h
    | dictionary key keys values =>
      obtain ⟨layout, strings, rfl⟩ : ∃ layout strings, values = .utf8 layout strings := by
        rw [← htype] at hcompared
        cases values with
        | utf8 layout strings => exact ⟨layout, strings, rfl⟩
        | null | boolean | primitive | binary | fixedSizeBinary | dictionary | other =>
          cases hcompared
      obtain ⟨index, value, rfl, hvalue, rfl⟩ := dictionary_cells_one hcells
      exact dictionary_agrees htype.symm hvalue h
  obtain ⟨monetType, text, ht, htext, halike⟩ := hsame
  exact ⟨monetType, text, ht, htext, halike.reads, halike.decodes⟩

def blobField : Field := ⟨"b", .binary .large, true, none⟩

theorem blobField_copied {value : Bytes} (h : value.length + 8 ≤ isizeMax) :
    encodeColumn gregorian.dateFromUnixDays blobField (.binary .large [some value]) =
      .ok (encodeBlobs [some value]) := by
  have hlength : (encodeBlobs [some value]).length = value.length + 8 := by
    rw [encodeBlobs_length]
    simp [blobBytes, add_comm]
  change withinCapacity (encodeBlobs [some value]) = _
  rw [withinCapacity, hlength, if_pos h]

theorem blobField_literal (value : Bytes) :
    literal gregorian blobField (.binary .large [some value]) 0 = .ok (blobLiteral value) := rfl

theorem decodeColumn_past_offsets {value : Bytes} (hlong : i32Max < value.length)
    (hfit : value.length + 8 ≤ isizeMax) :
    ∃ error, decodeColumn .blob (encodeBlobs [some value]) 1 = .error error := by
  have halike := blob_agrees (encodeColumn_ok (blobField_copied hfit)).choose_spec.2.2
  cases hdecode : decodeColumn .blob (encodeBlobs [some value]) 1 with
  | ok decoded => exact absurd (halike.decodes.mp ⟨decoded, hdecode⟩) (by omega)
  | error error => exact ⟨error, rfl⟩

theorem long_blob_not_decoded :
    ∃ bytes text error,
      encodeColumn gregorian.dateFromUnixDays blobField
        (.binary .large [some (List.replicate 2147483648 0)]) = .ok bytes ∧
      literal gregorian blobField (.binary .large [some (List.replicate 2147483648 0)]) 0 =
        .ok text ∧
      readValue .blob text = some (.bytes (List.replicate 2147483648 0)) ∧
      decodeColumn .blob bytes 1 = .error error := by
  have hlength : (List.replicate 2147483648 (0 : UInt8)).length = 2147483648 := List.length_replicate
  generalize List.replicate 2147483648 (0 : UInt8) = value at hlength ⊢
  have hfit : value.length + 8 ≤ isizeMax := by
    rw [hlength]
    decide
  have hlong : i32Max < value.length := by
    rw [hlength]
    decide
  obtain ⟨error, hdecode⟩ := decodeColumn_past_offsets hlong hfit
  exact ⟨_, _, error, blobField_copied hfit, blobField_literal value, readValue_blobLiteral value,
    hdecode⟩

def intervalField : Field := ⟨"i", .primitive (.duration .second), true, some "monetdb.interval_day"⟩

theorem negative_days_denoted :
    ∃ decoded, decodeColumn .dayInterval [0, 164, 217, 250, 255, 255, 255, 255] 1 = .ok decoded ∧
      decoded.cells.map cellValue =
        [readValue .dayInterval (ascii "INTERVAL '-1 00:00:00' DAY TO SECOND")] := by
  have hencode : encodeColumn gregorian.dateFromUnixDays intervalField
      (oneValue (.duration .second) (-86400#64)) = .ok [0, 164, 217, 250, 255, 255, 255, 255] := by
    decide +kernel
  obtain ⟨monetType, text, ht, htext, ⟨value, hread, hvalue⟩, hfits⟩ :=
    @literal_text_denotes_copied_value gregorian intervalField
      (oneValue (.duration .second) (-86400#64)) (.native 64 (-86400#64)) _ rfl rfl
      (fun _ hlayout => absurd hlayout (by simp [intervalField])) rfl hencode
  obtain rfl : MonetType.dayInterval = monetType := Except.ok.inj ht
  have hliteral : literal gregorian intervalField (oneValue (.duration .second) (-86400#64)) 0 =
      .ok (ascii "INTERVAL '-1 00:00:00' DAY TO SECOND") := by decide +kernel
  obtain rfl := Except.ok.inj (hliteral.symm.trans htext)
  obtain ⟨decoded, hdecode⟩ := hfits.mpr trivial
  rw [hread]
  exact ⟨decoded, hdecode, hvalue decoded hdecode⟩

end Columns

end MonetdbAdbc.Sql
