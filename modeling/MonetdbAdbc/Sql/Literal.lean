import MonetdbAdbc.Encode
import MonetdbAdbc.Library.Text
import MonetdbAdbc.Library.TextFields
import MonetdbAdbc.Status

namespace MonetdbAdbc.Sql
open LittleEndian Utf8 Machine Ieee754 Calendar AsciiNumber Text TextFields

-- What chrono, the float conversions and the formatters of std and arrow compute.
structure Rendering where
  dateFromUnixDays : Int → Option Date
  timestampDate : Int → Option Date
  displayDate : Date → Bytes
  f64FromF16 : BitVec 16 → BitVec 64
  f64FromF32 : BitVec 32 → BitVec 64
  lowerExp : BitVec 64 → Bytes
  displayType : DataType → String

def invalidData {α : Type} (message : String) : Except AdbcError α :=
  .error (adbcError message .invalidData)

section Numbers

def decimalDigits (scale : Nat) (digits : Bytes) : Bytes :=
  if 0 < scale then
    let digits :=
      if digits.length ≤ scale then List.replicate (scale + 1 - digits.length) 48 ++ digits
      else digits
    let point := digits.length - scale
    digits.take point ++ 46 :: digits.drop point
  else digits

def decimalLiteral (value scale : Int) : Except AdbcError Bytes :=
  if scale < 0 then
    .error (adbcError "negative-scale decimal parameters are not supported" .notImplemented)
  else .ok (withSign (value < 0) (decimalDigits scale.toNat (decimal value.natAbs)))

end Numbers

section Binary

def quoteRawString (value : Bytes) : Bytes := ascii "R'" ++ doubled 39 value ++ [39]

def quoteString (value : Str) : Except AdbcError Bytes :=
  if value.bytes.contains 0 then invalidData "string parameter contains a NUL byte"
  else .ok (quoteRawString value.bytes)

def blobLiteral (value : Bytes) : Bytes := ascii "BLOB '" ++ hexText value ++ [39]

def uuidFrom : Nat → Bytes → Bytes
  | _, [] => []
  | index, byte :: rest =>
    (if index = 4 ∨ index = 6 ∨ index = 8 ∨ index = 10 then [45] else []) ++ hexPair byte ++
      uuidFrom (index + 1) rest

def uuidLiteral (value : Bytes) : Bytes := ascii "UUID '" ++ uuidFrom 0 value ++ [39]

end Binary

section Temporal

def formatTime (micros : Int) : Except AdbcError Bytes :=
  if ¬(0 ≤ micros ∧ micros < 86400000000) then invalidData "time parameter is outside one day"
  else
    let micros := micros.toNat
    let seconds := micros / 1000000
    .ok (padded 2 (seconds / 3600) ++ 58 :: padded 2 (seconds / 60 % 60) ++ 58 ::
      padded 2 (seconds % 60) ++ 46 :: padded 6 (micros % 1000000))

def unitName : TimeUnit → String
  | .second => "Second"
  | .millisecond => "Millisecond"
  | .microsecond => "Microsecond"
  | .nanosecond => "Nanosecond"

def time32Micros (unit : TimeUnit) (value : BitVec 32) : Except AdbcError Int :=
  match unit with
  | .second => .ok (value.toInt * 1000000)
  | .millisecond => .ok (value.toInt * 1000)
  | _ => invalidData ("invalid Time32 unit " ++ unitName unit)

def time32Literal (unit : TimeUnit) (value : BitVec 32) : Except AdbcError Bytes := do
  let micros ← time32Micros unit value
  let time ← formatTime micros
  .ok (ascii "TIME '" ++ time ++ [39])

def time64Micros (unit : TimeUnit) (value : BitVec 64) : Except AdbcError Int :=
  match unit with
  | .microsecond => .ok value.toInt
  | .nanosecond =>
    if value.toInt.tmod 1000 ≠ 0 then invalidData "time parameter is not microsecond-aligned"
    else .ok (value.toInt.tdiv 1000)
  | _ => invalidData ("invalid Time64 unit " ++ unitName unit)

def time64Literal (unit : TimeUnit) (timezone : Bool) (value : BitVec 64) :
    Except AdbcError Bytes := do
  let micros ← time64Micros unit value
  let time ← formatTime micros
  .ok (if timezone then ascii "TIMETZ '" ++ time ++ ascii "+00:00'"
    else ascii "TIME '" ++ time ++ [39])

def timestampMicros (unit : TimeUnit) (value : BitVec 64) : Except AdbcError Int :=
  let scaled (factor : Int) :=
    okOr (adbcError "timestamp parameter overflows" .invalidData) (checkedMulI64 value.toInt factor)
  match unit with
  | .second => scaled 1000000
  | .millisecond => scaled 1000
  | .microsecond => scaled 1
  | .nanosecond =>
    if value.toInt.tmod 1000 ≠ 0 then invalidData "timestamp parameter is not microsecond-aligned"
    else .ok (value.toInt.tdiv 1000)

def intervalFraction (millis : Nat) : Bytes := if millis = 0 then [] else 46 :: padded 3 millis

def durationMillis (unit : TimeUnit) (value : BitVec 64) : Except AdbcError Int :=
  let aligned (divisor : Int) :=
    if value.toInt.tmod divisor ≠ 0 then
      invalidData "duration parameter is not millisecond-aligned"
    else .ok (value.toInt.tdiv divisor)
  match unit with
  | .second =>
    okOr (adbcError "duration parameter overflows" .invalidData) (checkedMulI64 value.toInt 1000)
  | .millisecond => .ok value.toInt
  | .microsecond => aligned 1000
  | .nanosecond => aligned 1000000

def durationLiteral (unit : TimeUnit) (value : BitVec 64) : Except AdbcError Bytes := do
  let millis ← durationMillis unit value
  let absolute := millis.natAbs
  .ok (ascii "INTERVAL '" ++
    withSign (millis < 0) (decimal (absolute / 1000) ++ intervalFraction (absolute % 1000)) ++
      ascii "' SECOND")

def dayClock (absolute : Nat) : Bytes :=
  let totalSeconds := absolute / 1000
  decimal (totalSeconds / 86400) ++ 32 :: padded 2 (totalSeconds / 3600 % 24) ++ 58 ::
    padded 2 (totalSeconds / 60 % 60) ++ 58 :: padded 2 (totalSeconds % 60) ++
      intervalFraction (absolute % 1000)

def dayIntervalLiteral (unit : TimeUnit) (value : BitVec 64) : Except AdbcError Bytes := do
  let millis ← durationMillis unit value
  .ok (ascii "INTERVAL '" ++ withSign (millis < 0) (dayClock millis.natAbs) ++
    ascii "' DAY TO SECOND")

end Temporal

section Values
variable (rendering : Rendering)

def floatLiteral (value : BitVec 64) : Except AdbcError Bytes :=
  if f64IsFinite value then .ok (rendering.lowerExp value)
  else invalidData "non-finite float parameters are not supported by MonetDB"

def parameterDate (days : Int) : Except AdbcError Date :=
  okOr (adbcError "date parameter is out of range" .invalidData) (rendering.dateFromUnixDays days)

def dateLiteral (days : Int) : Except AdbcError Bytes := do
  let date ← parameterDate rendering days
  .ok (ascii "DATE '" ++ rendering.displayDate date ++ [39])

def date64Literal (millis : Int) : Except AdbcError Bytes :=
  if millis.tmod 86400000 ≠ 0 then invalidData "Date64 parameter is not a whole day"
  else dateLiteral rendering (millis.tdiv 86400000)

def timestampLiteral (unit : TimeUnit) (timezone : Bool) (value : BitVec 64) :
    Except AdbcError Bytes := do
  let micros ← timestampMicros unit value
  let date ← okOr (adbcError "timestamp parameter is out of range" .invalidData)
    (rendering.timestampDate micros)
  let time ← formatTime (micros % 86400000000)
  .ok (ascii (if timezone then "TIMESTAMPTZ '" else "TIMESTAMP '") ++
    (rendering.displayDate date ++ 32 :: time) ++ ascii (if timezone then "+00:00'" else "'"))

def oidLiteral (value : BitVec 64) : Except AdbcError Bytes :=
  if value.toNat ≥ 2 ^ 63 then invalidData "OID parameter must be less than 2^63"
  else .ok (decimal value.toNat)

def nativeLiteral (extension : Option String) :
    (type : Primitive) → BitVec type.width → Except AdbcError Bytes
  | .int8, value | .int16, value | .int64, value => .ok (decimalInt value.toInt)
  | .int32, value =>
    .ok (if extension = some "monetdb.interval_month" then
        ascii "INTERVAL '" ++ decimalInt value.toInt ++ ascii "' MONTH"
      else decimalInt value.toInt)
  | .uint8, value | .uint16, value | .uint32, value => .ok (decimal value.toNat)
  | .uint64, value =>
    if extension = some "monetdb.oid" then oidLiteral value else .ok (decimal value.toNat)
  | .float16, value => floatLiteral rendering (rendering.f64FromF16 value)
  | .float32, value => floatLiteral rendering (rendering.f64FromF32 value)
  | .float64, value => floatLiteral rendering value
  | .decimal128 _ scale, value => decimalLiteral value.toInt scale
  | .date32, value => dateLiteral rendering value.toInt
  | .date64, value => date64Literal rendering value.toInt
  | .time32 unit, value => time32Literal unit value
  | .time64 unit, value => time64Literal unit (extension == some "monetdb.timetz") value
  | .timestamp unit timezone, value => timestampLiteral rendering unit timezone.isSome value
  | .duration unit, value =>
    if extension = some "monetdb.interval_day" then dayIntervalLiteral unit value
    else durationLiteral unit value

-- A row past the end of the array panics in the source.
def orNull {α : Type} (render : α → Except AdbcError Bytes) :
    Option (Option α) → Except AdbcError Bytes
  | none => .error (adbcError "row is out of bounds" .internal)
  | some none => .ok (ascii "NULL")
  | some (some value) => render value

def literal (field : Field) : Column → Nat → Except AdbcError Bytes
  | .null _, _ => .ok (ascii "NULL")
  | .boolean values, row =>
    orNull (fun value => .ok (ascii (if value then "TRUE" else "FALSE"))) values[row]?
  | .primitive type slots, row =>
    orNull (nativeLiteral rendering field.extension type) (slots[row]?.map Slot.get)
  | .utf8 _ values, row => orNull quoteString values[row]?
  | .binary _ values, row => orNull (fun value => .ok (blobLiteral value)) values[row]?
  | .fixedSizeBinary width values, row =>
    orNull (fun value =>
      .ok (if width = 16 ∧ field.extension = some "arrow.uuid" then uuidLiteral value.val
        else blobLiteral value.val)) values[row]?
  | .dictionary key keys values, row =>
    orNull (fun index =>
      if !isDictionaryKey key then
        .error (adbcError ("dictionary key type " ++ rendering.displayType key ++
          " is not supported") .notImplemented)
      else if values.len ≤ index then
        invalidData ("dictionary parameter key " ++ toString index ++
          " is outside the values array of length " ++ toString values.len)
      else
        literal { field with name := "", dataType := values.dataType, nullable := true } values
          index) keys[row]?
  | .other name values, row =>
    orNull (fun _ => .error (adbcError ("Arrow parameter type " ++
      rendering.displayType (.other name) ++ " is not supported") .notImplemented)) values[row]?

end Values

end MonetdbAdbc.Sql
