import MonetdbAdbc.Arrow
import MonetdbAdbc.Library.Machine

namespace MonetdbAdbc
open LittleEndian

inductive EncodeError where
  | unsupported (dataType : DataType)
  | unsupportedMonetType (dataType : MonetType)
  | invalidValue (row : Nat) (message : String)
  | capacityOverflow
  deriving DecidableEq, Repr

inductive FrameError where
  | server (message : Bytes)
  | malformed (what : String)
  deriving DecidableEq, Repr

inductive DecodeError where
  | frame (error : FrameError)
  | resultId (expected : Nat) (actual : Int)
  | startRow (expected actual : Nat)
  | rowCount (requested actual : Nat)
  | columnCount (expected actual : Nat)
  | length (expected actual : Nat)
  | invalidColumn (message : String)
  | invalidValue (row : Nat) (message : String)
  | invalidUtf8 (row : Nat)
  | invalidBackref (row : Nat)
  | unsupported (dataType : MonetType)
  | arrow (message : String)
  | panicked
  deriving DecidableEq, Repr

def decimalWireWidth (precision : Nat) : Option Nat :=
  if 1 ≤ precision ∧ precision ≤ 2 then some 1
  else if 3 ≤ precision ∧ precision ≤ 4 then some 2
  else if 5 ≤ precision ∧ precision ≤ 9 then some 4
  else if 10 ≤ precision ∧ precision ≤ 18 then some 8
  else if 19 ≤ precision ∧ precision ≤ 38 then some 16
  else none

def fixedWireWidth : MonetType → Option Nat
  | .bool | .tinyInt => some 1
  | .smallInt => some 2
  | .int | .real | .monthInterval | .date => some 4
  | .bigInt | .oid | .double | .dayInterval | .secInterval | .time | .timeTz => some 8
  | .timestamp | .timestampTz => some 12
  | .hugeInt | .uuid => some 16
  | .decimal precision _ => decimalWireWidth precision
  | .varchar _ | .blob | .url | .inet | .inet4 | .inet6 | .json | .geometry | .xml => none

def monetTypeForField (field : Field) : Except EncodeError MonetType :=
  match field.dataType with
  | .null => .ok (.varchar 1)
  | .boolean => .ok .bool
  | .primitive .int8 => .ok .tinyInt
  | .primitive .int16 => .ok .smallInt
  | .primitive .int32 =>
    .ok (if field.extension = some "monetdb.interval_month" then .monthInterval else .int)
  | .primitive .int64 => .ok .bigInt
  | .primitive .uint8 => .ok .smallInt
  | .primitive .uint16 => .ok .int
  | .primitive .uint32 => .ok .bigInt
  | .primitive .uint64 => .ok (if field.extension = some "monetdb.oid" then .oid else .hugeInt)
  | .primitive .float16 | .primitive .float32 => .ok .real
  | .primitive .float64 => .ok .double
  | .primitive (.decimal128 precision scale) =>
    if precision = 38 ∧ scale = 0 ∧ field.extension = some "monetdb.hugeint" then .ok .hugeInt
    else if 0 ≤ scale then .ok (.decimal precision scale.toNat)
    else .error (.unsupported field.dataType)
  | .utf8 _ =>
    .ok (match field.extension with
      | some "arrow.json" => .json
      | some "monetdb.inet" => .inet
      | some "monetdb.inet4" => .inet4
      | some "monetdb.inet6" => .inet6
      | some "monetdb.url" => .url
      | _ => .varchar 0)
  | .dictionary _ (.utf8 _) => .ok (.varchar 0)
  | .binary _ => .ok .blob
  | .fixedSizeBinary width =>
    .ok (if width = 16 ∧ field.extension = some "arrow.uuid" then .uuid else .blob)
  | .primitive .date32 | .primitive .date64 => .ok .date
  | .primitive (.time64 _) =>
    .ok (if field.extension = some "monetdb.timetz" then .timeTz else .time)
  | .primitive (.time32 _) => .ok .time
  | .primitive (.timestamp _ timezone) =>
    .ok (if timezone.isSome then .timestampTz else .timestamp)
  | .primitive (.duration _) =>
    .ok (if field.extension = some "monetdb.interval_day" then .dayInterval else .secInterval)
  | dataType => .error (.unsupported dataType)

def fixedEncodedWidth (field : Field) : Except EncodeError (Option Nat) :=
  if field.dataType = .null then .ok (some 2)
  else (monetTypeForField field).map fixedWireWidth

def decimalScale (scale : Nat) : Except DecodeError Int :=
  if scale ≤ 127 then .ok scale
  else .error (.invalidColumn "decimal scale exceeds Arrow's maximum of 127")

def decimalDataType (precision scale : Nat) : Except DecodeError DataType :=
  if ¬(1 ≤ precision ∧ precision ≤ 38) ∨ scale > precision then
    .error (.invalidColumn
      "decimal precision/scale must satisfy 1 <= precision <= 38 and scale <= precision")
  else (decimalScale scale).map fun scale => .primitive (.decimal128 precision scale)

def dataTypeForMonetType : MonetType → Except DecodeError DataType
  | .bool => .ok .boolean
  | .tinyInt => .ok (.primitive .int8)
  | .smallInt => .ok (.primitive .int16)
  | .int => .ok (.primitive .int32)
  | .bigInt => .ok (.primitive .int64)
  | .hugeInt => .ok (.primitive (.decimal128 38 0))
  | .oid => .ok (.primitive .uint64)
  | .decimal precision scale => decimalDataType precision scale
  | .varchar _ | .url | .json | .inet4 | .inet6 => .ok (.utf8 .standard)
  | .real => .ok (.primitive .float32)
  | .double => .ok (.primitive .float64)
  | .monthInterval => .ok (.primitive .int32)
  | .dayInterval | .secInterval => .ok (.primitive (.duration .millisecond))
  | .time | .timeTz => .ok (.primitive (.time64 .microsecond))
  | .date => .ok (.primitive .date32)
  | .timestamp => .ok (.primitive (.timestamp .microsecond none))
  | .timestampTz => .ok (.primitive (.timestamp .microsecond (some "UTC")))
  | .blob => .ok (.binary .standard)
  | .uuid => .ok (.fixedSizeBinary 16)
  | .geometry => .error (.unsupported .geometry)
  | .inet => .error (.unsupported .inet)
  | .xml => .error (.unsupported .xml)

def extensionForMonetType : MonetType → Option String
  | .json => some "arrow.json"
  | .uuid => some "arrow.uuid"
  | .hugeInt => some "monetdb.hugeint"
  | .oid => some "monetdb.oid"
  | .inet4 => some "monetdb.inet4"
  | .inet6 => some "monetdb.inet6"
  | .url => some "monetdb.url"
  | .monthInterval => some "monetdb.interval_month"
  | .dayInterval => some "monetdb.interval_day"
  | .timeTz => some "monetdb.timetz"
  | _ => none

def fieldForMonetType (name : String) (dataType : MonetType) : Except DecodeError Field :=
  (dataTypeForMonetType dataType).map fun arrow =>
    ⟨name, arrow, true, extensionForMonetType dataType⟩

theorem dataTypeForMonetType_decimal {precision scale : Nat} {dataType : DataType}
    (h : dataTypeForMonetType (.decimal precision scale) = .ok dataType) :
    1 ≤ precision ∧ precision ≤ 38 ∧ scale ≤ precision ∧
      dataType = .primitive (.decimal128 precision scale) := by
  simp only [dataTypeForMonetType, decimalDataType] at h
  split_ifs at h with hbad
  have hscale : scale ≤ 127 := by omega
  simp only [decimalScale, hscale, if_true, Except.map, Except.ok.injEq] at h
  exact ⟨by omega, by omega, by omega, h.symm⟩

theorem fieldForMonetType_ok {name : String} {t : MonetType} {field : Field}
    (h : fieldForMonetType name t = .ok field) :
    dataTypeForMonetType t = .ok field.dataType ∧ field.extension = extensionForMonetType t := by
  simp only [fieldForMonetType] at h
  cases hd : dataTypeForMonetType t with
  | error e => simp [hd, Except.map] at h
  | ok dataType =>
    simp only [hd, Except.map, Except.ok.injEq] at h
    simp [← h]

def varcharWidth : MonetType → MonetType
  | .varchar _ => .varchar 0
  | t => t

theorem monetTypeForField_fieldForMonetType {name : String} {t : MonetType} {field : Field}
    (h : fieldForMonetType name t = .ok field) : monetTypeForField field = .ok (varcharWidth t) := by
  obtain ⟨hd, he⟩ := fieldForMonetType_ok h
  cases t with
  | decimal precision scale =>
    obtain ⟨-, -, -, htype⟩ := dataTypeForMonetType_decimal hd
    simp [monetTypeForField, htype, he, extensionForMonetType, varcharWidth]
  | geometry | inet | xml => simp [dataTypeForMonetType] at hd
  | _ =>
    simp only [dataTypeForMonetType, Except.ok.injEq] at hd
    simp [monetTypeForField, ← hd, he, extensionForMonetType, varcharWidth]

end MonetdbAdbc
