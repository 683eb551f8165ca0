import MonetdbAdbc.Wire
import MonetdbAdbc.Library.Calendar
import MonetdbAdbc.Library.Ieee754
import MonetdbAdbc.Library.InetAddress
import MonetdbAdbc.Library.Rows
import MonetdbAdbc.Library.Varint

namespace MonetdbAdbc
open LittleEndian Utf8 Machine Rows Ieee754 Calendar

section Scalars
variable {α : Type} {w : Nat}

def invalid (row : Nat) (message : String) : Except EncodeError α :=
  .error (.invalidValue row message)

def encodeBool (values : List (Option Bool)) : Bytes :=
  values.map fun
    | none => 0x80
    | some value => if value then 1 else 0

def copyNativeWithNulls (slots : List (Slot w)) (null : BitVec w) : Bytes :=
  (slots.map fun slot => leBytes (if slot.isNull then null else slot.value)).flatten

def encodeChecked (reject : BitVec w → Bool) (message : String) (null : BitVec w)
    (slots : List (Slot w)) : Except EncodeError Bytes :=
  (mapRows (fun row slot =>
    if !slot.isNull && reject slot.value then invalid row message else .ok ()) slots).map
      fun _ => copyNativeWithNulls slots null

def encodePrimitive (slots : List (Slot w)) (null : BitVec w) : Except EncodeError Bytes :=
  encodeChecked (· == null) "value collides with MonetDB's NULL sentinel" null slots

def encodeUnsigned (wire : Nat) (slots : List (Slot w)) : Bytes :=
  (slots.map fun slot =>
    leBytes (if slot.isNull then BitVec.intMin wire else slot.value.setWidth wire)).flatten

def oidRow (row : Nat) (slot : Slot 64) : Except EncodeError Bytes :=
  if slot.isNull then .ok (leBytes (BitVec.intMin 64))
  else if slot.value.toNat ≥ 2 ^ 63 then
    invalid row "OID is outside MonetDB's non-NULL range"
  else .ok (leBytes slot.value)

def encodeOid (slots : List (Slot 64)) : Except EncodeError Bytes := concat oidRow slots

def nonFinite : String := "non-finite floats are outside MonetDB's supported value domain"

def encodeF32 (slots : List (Slot 32)) : Except EncodeError Bytes :=
  encodeChecked (fun value => !f32IsFinite value) nonFinite f32Nan slots

def encodeF64 (slots : List (Slot 64)) : Except EncodeError Bytes :=
  encodeChecked (fun value => !f64IsFinite value) nonFinite f64Nan slots

def f16Row (row : Nat) (slot : Slot 16) : Except EncodeError Bytes :=
  if slot.isNull then .ok (leBytes f32Nan)
  else if !f32IsFinite (f16ToF32 slot.value) then invalid row nonFinite
  else .ok (leBytes (f16ToF32 slot.value))

def encodeF16 (slots : List (Slot 16)) : Except EncodeError Bytes := concat f16Row slots

def narrow (wire row : Nat) : Option Int → Except EncodeError Bytes
  | none => .ok (leBytes (BitVec.intMin wire))
  | some value =>
    if ¬(-(2 ^ (wire - 1)) ≤ value ∧ value < 2 ^ (wire - 1)) then
      invalid row "decimal does not fit its MonetDB backing integer"
    else if value = -(2 ^ (wire - 1)) then
      invalid row "decimal collides with MonetDB's NULL sentinel"
    else .ok (leBytes (BitVec.ofInt wire value))

def decimalRow (precision width : Nat) (enforcePrecision : Bool) (row : Nat) (slot : Slot 128) :
    Except EncodeError Bytes :=
  let value := slot.get.map BitVec.toInt
  let limit : Int := 10 ^ precision
  if enforcePrecision && value.any fun value => value ≤ -limit ∨ value ≥ limit then
    invalid row "decimal value exceeds its declared precision"
  else narrow (8 * width) row value

def encodeDecimal (slots : List (Slot 128)) (precision : Nat) (enforcePrecision : Bool) :
    Except EncodeError Bytes :=
  match decimalWireWidth precision with
  | none => invalid 0 "decimal precision must be 1..=38"
  | some width => concat (decimalRow precision width enforcePrecision) slots

end Scalars

section Variable

def appendBackref (distance : Nat) : Bytes :=
  if distance ≤ 63 then [UInt8.ofNat (0x80 + distance)] else 0x80 :: Varint.write distance

structure StringState where
  seen : Bytes → Option Nat
  null : Option Nat

def stringPiece (row : Nat) (state : StringState) :
    Option Str → Except EncodeError (Bytes × StringState)
  | some value =>
    if value.bytes.contains 0 then invalid row "string contains a NUL byte"
    else
      let next := { state with seen := Function.update state.seen value.bytes (some row) }
      match state.seen value.bytes with
      | some previous => .ok (appendBackref (row - previous), next)
      | none => .ok (value.bytes ++ [0], next)
  | none =>
    let next := { state with null := some row }
    match state.null with
    | some previous =>
      if row - previous < 64 then .ok (appendBackref (row - previous), next)
      else .ok ([0x80, 0], next)
    | none => .ok ([0x80, 0], next)

def encodeStringsFrom : Nat → StringState → List (Option Str) → Except EncodeError Bytes
  | _, _, [] => .ok []
  | row, state, value :: values => do
    let (piece, state) ← stringPiece row state value
    let rest ← encodeStringsFrom (row + 1) state values
    .ok (piece ++ rest)

def encodeStrings (values : List (Option Str)) : Except EncodeError Bytes :=
  encodeStringsFrom 0 ⟨fun _ => none, none⟩ values

def reserveStrings (values : List (Option Str)) : Except EncodeError Unit :=
  let valueBytes := (values.map fun value => value.elim 0 fun value => value.bytes.length).sum
  if valueBytes + values.length > usizeMax then
    invalid 0 "encoded string column length overflows"
  else if valueBytes + values.length > isizeMax then
    invalid 0 "encoded string column is too large"
  else .ok ()

def isDictionaryKey : DataType → Bool
  | .primitive .int8 | .primitive .int16 | .primitive .int32 | .primitive .int64
  | .primitive .uint8 | .primitive .uint16 | .primitive .uint32 | .primitive .uint64 => true
  | _ => false

def encodeDictionary (key : DataType) (keys : List (Option Nat)) (values : Column) :
    Except EncodeError Bytes :=
  match isDictionaryKey key, values with
  | true, .utf8 _ strings => do
    let _ ← mapRows (fun row index =>
      if index.any (strings.length ≤ ·) then
        invalid row "dictionary key is outside the dictionary values"
      else .ok ()) keys
    encodeStrings (keys.map fun index => index.bind fun index => strings[index]?.join)
  | _, values => .error (.unsupported (.dictionary key values.dataType))

def encodeBlobs (values : List (Option Bytes)) : Bytes :=
  (values.map fun
    | none => leBytes (BitVec.ofInt 64 (-1))
    | some value => leBytes (BitVec.ofNat 64 value.length) ++ value).flatten

def uuidRow (row : Nat) : Option (FixedBytes 16) → Except EncodeError Bytes
  | none => .ok (List.replicate 16 0)
  | some value =>
    if value.val.all (· == 0) then invalid row "all-zero UUID is MonetDB's NULL sentinel"
    else .ok value.val

def encodeUuid (values : List (Option (FixedBytes 16))) : Except EncodeError Bytes :=
  concat uuidRow values

def addressRow (width : Nat) (parse : Bytes → Option Bytes) (invalidMessage : String) (row : Nat) :
    Option Str → Except EncodeError Bytes
  | none => .ok (List.replicate width 0)
  | some value =>
    match parse value.bytes with
    | none => invalid row invalidMessage
    | some octets =>
      if octets.all (· == 0) then invalid row "address collides with MonetDB's NULL sentinel"
      else .ok octets

def encodeAddresses (width : Nat) (parse : Bytes → Option Bytes) (invalidMessage : String)
    (values : List (Option Str)) : Except EncodeError Bytes :=
  concat (addressRow width parse invalidMessage) values

end Variable

section Temporal
variable (dateFromUnixDays : Int → Option Date)

def dateFromDays (days : Int) (row : Nat) : Except EncodeError Date :=
  okOr (.invalidValue row "date is outside chrono's range") (dateFromUnixDays days)

def appendDate (days : Int) (row : Nat) : Except EncodeError Bytes := do
  let date ← dateFromDays dateFromUnixDays days row
  if date.year < -4712 then invalid row "date is earlier than MonetDB's minimum year -4712"
  else if 32767 < date.year then invalid row "date year is outside MonetDB's range"
  else
    .ok ([UInt8.ofNat date.day, UInt8.ofNat date.month] ++ leBytes (BitVec.ofInt 16 date.year))

def date32Row (row : Nat) (slot : Slot 32) : Except EncodeError Bytes :=
  if slot.isNull then .ok (List.replicate 4 0xff)
  else appendDate dateFromUnixDays slot.value.toInt row

def encodeDate32 (slots : List (Slot 32)) : Except EncodeError Bytes :=
  concat (date32Row dateFromUnixDays) slots

def date64Row (row : Nat) (slot : Slot 64) : Except EncodeError Bytes :=
  if slot.isNull then .ok (List.replicate 4 0xff)
  else if slot.value.toInt.tmod 86400000 ≠ 0 then invalid row "Date64 is not a whole day"
  else appendDate dateFromUnixDays (slot.value.toInt.tdiv 86400000) row

def encodeDate64 (slots : List (Slot 64)) : Except EncodeError Bytes :=
  concat (date64Row dateFromUnixDays) slots

def microsPerDay : Int := 86400000000

def appendTime (micros : Int) (row : Nat) : Except EncodeError Bytes :=
  if ¬(0 ≤ micros ∧ micros < microsPerDay) then invalid row "time is outside one day"
  else
    let seconds := micros / 1000000
    .ok (leBytes (BitVec.ofInt 32 (micros % 1000000)) ++
      [UInt8.ofNat (seconds % 60).toNat, UInt8.ofNat (seconds / 60 % 60).toNat,
        UInt8.ofNat (seconds / 3600).toNat, 0])

def timeRow {w : Nat} (factor : Int) (row : Nat) (slot : Slot w) : Except EncodeError Bytes :=
  if slot.isNull then .ok (List.replicate 8 0xff)
  else appendTime (slot.value.toInt * factor) row

def encodeTimeValues {w : Nat} (factor : Int) (slots : List (Slot w)) : Except EncodeError Bytes :=
  concat (timeRow factor) slots

def encodeTime32 (unit : TimeUnit) (slots : List (Slot 32)) : Except EncodeError Bytes :=
  match unit with
  | .second => encodeTimeValues 1000000 slots
  | .millisecond => encodeTimeValues 1000 slots
  | _ => .error (.unsupported (.primitive (.time32 unit)))

def timeNanosRow (row : Nat) (slot : Slot 64) : Except EncodeError Bytes :=
  if slot.isNull then .ok (List.replicate 8 0xff)
  else if slot.value.toInt.tmod 1000 ≠ 0 then invalid row "time is not microsecond-aligned"
  else appendTime (slot.value.toInt.tdiv 1000) row

def encodeTime64 (unit : TimeUnit) (slots : List (Slot 64)) : Except EncodeError Bytes :=
  match unit with
  | .microsecond => encodeTimeValues 1 slots
  | .nanosecond => concat timeNanosRow slots
  | _ => .error (.unsupported (.primitive (.time64 unit)))

def appendTimestamp (micros : Int) (row : Nat) : Except EncodeError Bytes := do
  let time ← appendTime (micros % microsPerDay) row
  let date ← appendDate dateFromUnixDays (micros / microsPerDay) row
  .ok (time ++ date)

def timestampRow (factor : Int) (row : Nat) (slot : Slot 64) : Except EncodeError Bytes :=
  if slot.isNull then .ok (List.replicate 12 0xff)
  else do
    let micros ← okOr (.invalidValue row "timestamp overflows microseconds")
      (checkedMulI64 slot.value.toInt factor)
    appendTimestamp dateFromUnixDays micros row

def encodeTimestampValues (factor : Int) (slots : List (Slot 64)) : Except EncodeError Bytes :=
  concat (timestampRow dateFromUnixDays factor) slots

def timestampNanosRow (row : Nat) (slot : Slot 64) : Except EncodeError Bytes :=
  if slot.isNull then .ok (List.replicate 12 0xff)
  else if slot.value.toInt.tmod 1000 ≠ 0 then invalid row "timestamp is not microsecond-aligned"
  else appendTimestamp dateFromUnixDays (slot.value.toInt.tdiv 1000) row

def encodeTimestamp (unit : TimeUnit) (slots : List (Slot 64)) : Except EncodeError Bytes :=
  match unit with
  | .second => encodeTimestampValues dateFromUnixDays 1000000 slots
  | .millisecond => encodeTimestampValues dateFromUnixDays 1000 slots
  | .microsecond => encodeTimestampValues dateFromUnixDays 1 slots
  | .nanosecond => concat (timestampNanosRow dateFromUnixDays) slots

def durationRow (multiplier divisor : Int) (requireWholeDays : Bool) (row : Nat) (slot : Slot 64) :
    Except EncodeError Bytes :=
  if slot.isNull then .ok (leBytes (BitVec.intMin 64))
  else if slot.value.toInt.tmod divisor ≠ 0 then
    invalid row "duration is not millisecond-aligned"
  else do
    let value ← okOr (.invalidValue row "duration overflows milliseconds")
      (checkedMulI64 (slot.value.toInt.tdiv divisor) multiplier)
    if value = -(2 ^ 63) then
      invalid row "duration collides with MonetDB's NULL sentinel"
    else if requireWholeDays && value.tmod 86400000 != 0 then
      invalid row "INTERVAL DAY value is not a whole day"
    else .ok (leBytes (BitVec.ofInt 64 value))

def encodeDurationValues (multiplier divisor : Int) (requireWholeDays : Bool)
    (slots : List (Slot 64)) : Except EncodeError Bytes :=
  concat (durationRow multiplier divisor requireWholeDays) slots

def encodeDuration (unit : TimeUnit) (requireWholeDays : Bool) (slots : List (Slot 64)) :
    Except EncodeError Bytes :=
  match unit with
  | .second => encodeDurationValues 1000 1 requireWholeDays slots
  | .millisecond => encodeDurationValues 1 1 requireWholeDays slots
  | .microsecond => encodeDurationValues 1 1000 requireWholeDays slots
  | .nanosecond => encodeDurationValues 1 1000000 requireWholeDays slots

def encodeNative (monetType : MonetType) :
    (type : Primitive) → List (Slot type.width) → Except EncodeError Bytes
  | .int8, slots => encodePrimitive slots (BitVec.intMin 8)
  | .int16, slots => encodePrimitive slots (BitVec.intMin 16)
  | .int32, slots => encodePrimitive slots (BitVec.intMin 32)
  | .int64, slots => encodePrimitive slots (BitVec.intMin 64)
  | .uint8, slots => .ok (encodeUnsigned 16 slots)
  | .uint16, slots => .ok (encodeUnsigned 32 slots)
  | .uint32, slots => .ok (encodeUnsigned 64 slots)
  | .uint64, slots =>
    if monetType = .oid then encodeOid slots else .ok (encodeUnsigned 128 slots)
  | .float16, slots => encodeF16 slots
  | .float32, slots => encodeF32 slots
  | .float64, slots => encodeF64 slots
  | .decimal128 precision _, slots => encodeDecimal slots precision (monetType != .hugeInt)
  | .date32, slots => encodeDate32 dateFromUnixDays slots
  | .date64, slots => encodeDate64 dateFromUnixDays slots
  | .time32 unit, slots => encodeTime32 unit slots
  | .time64 unit, slots => encodeTime64 unit slots
  | .timestamp unit _, slots => encodeTimestamp dateFromUnixDays unit slots
  | .duration unit, slots => encodeDuration unit (monetType == .dayInterval) slots

end Temporal

section Column
variable (dateFromUnixDays : Int → Option Date)

def encodeArray (monetType : MonetType) : Column → Except EncodeError Bytes
  | .utf8 layout values =>
    match monetType with
    | .inet4 =>
      encodeAddresses 4 (fun text => (InetAddress.parseIpv4 text).map InetAddress.ipv4Octets)
        "value is not a valid IPv4 address" values
    | .inet6 =>
      encodeAddresses 16 (fun text => (InetAddress.parseIpv6 text).map InetAddress.ipv6Octets)
        "value is not a valid IPv6 address" values
    | .inet => .error (.unsupportedMonetType .inet)
    | _ => do
      if layout ≠ .view then reserveStrings values
      encodeStrings values
  | .null rows => .ok (List.replicate rows [0x80, 0]).flatten
  | .boolean values => .ok (encodeBool values)
  | .primitive type slots => encodeNative dateFromUnixDays monetType type slots
  | .dictionary key keys values => encodeDictionary key keys values
  | .binary _ values => .ok (encodeBlobs values)
  | .fixedSizeBinary width values =>
    if h : width = 16 ∧ monetType = .uuid then
      encodeUuid (h.1 ▸ values)
    else .ok (encodeBlobs (values.map (·.map Subtype.val)))
  | .other name _ => .error (.unsupported (.other name))

def arrayWireWidth (field : Field) (dataType : DataType) : Except EncodeError (Option Nat) :=
  if dataType = .null then .ok (some 2) else fixedEncodedWidth field

def reserveFixed (rows : Nat) : Option Nat → Except EncodeError Unit
  | none => .ok ()
  | some width =>
    match checkedMul rows width with
    | none => invalid 0 "encoded column length overflows"
    | some bytes => if bytes > isizeMax then invalid 0 "encoded column is too large" else .ok ()

-- A Vec never holds more than isize::MAX bytes: growing past that panics.
def withinCapacity (out : Bytes) : Except EncodeError Bytes :=
  if out.length ≤ isizeMax then .ok out else .error .capacityOverflow

def encodeColumn (field : Field) (array : Column) : Except EncodeError Bytes := do
  let monetType ← monetTypeForField field
  let width ← arrayWireWidth field array.dataType
  reserveFixed array.len width
  let out ← encodeArray dateFromUnixDays monetType array
  withinCapacity out

end Column

end MonetdbAdbc
