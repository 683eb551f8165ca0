import MonetdbAdbc.Wire
import MonetdbAdbc.Library.Calendar
import MonetdbAdbc.Library.Ieee754
import MonetdbAdbc.Library.InetAddress
import MonetdbAdbc.Library.Rows

namespace MonetdbAdbc
open LittleEndian Utf8 Machine Rows Ieee754 Calendar

def expectFixed (bytes : Bytes) (rows width : Nat) : Except DecodeError Unit :=
  match checkedMul rows width with
  | none => .error (.invalidColumn "column length overflows")
  | some expected =>
    if bytes.length ≠ expected then .error (.length expected bytes.length) else .ok ()

section Scalars

def decodePrimitive (w : Nat) (isNull : BitVec w → Bool) (bytes : Bytes) (rows : Nat) :
    Except DecodeError (List (Slot w)) := do
  expectFixed bytes rows (w / 8)
  .ok ((chunksExact (w / 8) bytes).map fun chunk =>
    let value := ofLeBytes w chunk
    ⟨isNull value, value⟩)

def decodeBool (bytes : Bytes) (rows : Nat) : Except DecodeError (List (Option Bool)) := do
  expectFixed bytes rows 1
  mapRows (fun row byte =>
    if byte = 0x80 then .ok none
    else if 1 < byte then
      .error (.invalidValue row "boolean is not 0, 1, or the NULL sentinel 0x80")
    else .ok (some (byte == 1))) bytes

def decimalValue (width precision : Nat) (hugeint : Bool) (row : Nat) (chunk : Bytes) :
    Except DecodeError (Slot 128) :=
  let value := (ofLeBytes (8 * width) chunk).toInt
  let null := value == -(2 ^ (8 * width - 1))
  let limit : Int := 10 ^ precision
  if !null && (value ≤ -limit || value ≥ limit) then
    .error (.invalidValue row
      (if hugeint then "HUGEINT exceeds Arrow Decimal128's supported 38-digit range"
        else "decimal value exceeds its declared precision"))
  else .ok ⟨null, BitVec.ofInt 128 value⟩

def decodeDecimal (bytes : Bytes) (rows precision : Nat) (scale : Int) (hugeint : Bool) :
    Except DecodeError (List (Slot 128)) :=
  if ¬(1 ≤ precision ∧ precision ≤ 38) ∨ scale < 0 ∨ scale > precision then
    .error (.invalidColumn
      "decimal precision/scale must satisfy 1 <= precision <= 38 and 0 <= scale <= precision")
  else
    match if hugeint then some 16 else decimalWireWidth precision with
    | none => .error .panicked
    | some width => do
      expectFixed bytes rows width
      mapRows (decimalValue width precision hugeint) (chunksExact width bytes)

end Scalars

section Strings

def splitNul : Bytes → Option (Bytes × Bytes)
  | [] => none
  | b :: bs => if b = 0 then some ([], bs) else (splitNul bs).map fun (value, rest) => (b :: value, rest)

def longBackref (row : Nat) : Nat → Nat → Nat → Bytes → Except DecodeError (Nat × Nat)
  | _, _, _, [] => .error (.invalidBackref row)
  | index, shift, distance, byte :: bytes =>
    let low := byte.toNat % 128
    if low > usizeMax / 2 ^ shift then .error (.invalidBackref row)
    else
      match checkedAdd distance (low * 2 ^ shift) with
      | none => .error (.invalidBackref row)
      | some distance =>
        if byte < 0x80 then .ok (distance, index + 1)
        else if shift + 7 < 64 then longBackref row (index + 1) (shift + 7) distance bytes
        else .error (.invalidBackref row)

def offsetLimit : String :=
  "UTF-8 column exceeds Arrow's 32-bit offset limit; lower adbc.monetdb.read_batch_rows"

def literalString (row : Nat) (tail : Bytes) : Except DecodeError (Str × Bytes) :=
  match splitNul tail with
  | none => .error (.invalidValue row "string is not NUL-terminated")
  | some (value, rest) =>
    match fromUtf8 value with
    | none => .error (.invalidUtf8 row)
    | some value => .ok (value, rest)

def decodeStringsWithoutBackrefs (total : Nat) :
    Nat → Nat → Nat → Nat → Bytes → Except DecodeError (Option (List (Option Str)))
  | 0, _, pos, _, _ => if pos ≠ total then .error (.length pos total) else .ok (some [])
  | n + 1, row, pos, valueBytes, tail =>
    match tail with
    | [] => .error (.length (pos + 1) total)
    | first :: rest =>
      if first = 0x80 then do
        let (distance, consumed) ← longBackref row 0 0 0 rest
        if distance ≠ 0 then .ok none
        else
          let values ← decodeStringsWithoutBackrefs total n (row + 1) (pos + (consumed + 1))
            valueBytes (rest.drop consumed)
          .ok (values.map (none :: ·))
      else if 0x81 ≤ first ∧ first ≤ 0xbf then .ok none
      else do
        let (value, rest) ← literalString row tail
        let valueBytes ← okOr (.invalidValue row "UTF-8 column length overflows")
          (checkedAdd valueBytes value.bytes.length)
        if valueBytes > i32Max then .error (.invalidValue row offsetLimit)
        else
          let values ← decodeStringsWithoutBackrefs total n (row + 1)
            (pos + (value.bytes.length + 1)) valueBytes rest
          .ok (values.map (some value :: ·))

def backref (history : List (Option Str)) (row distance : Nat) : Except DecodeError (Option Str) :=
  if distance > row then .error (.invalidBackref row)
  else okOr (.invalidBackref row) history[row - distance]?

def stringValue (history : List (Option Str)) (row : Nat) (first : UInt8) (rest : Bytes) :
    Except DecodeError (Option Str × Nat × Bytes) :=
  if first = 0x80 then do
    let (distance, consumed) ← longBackref row 0 0 0 rest
    let value ← if distance = 0 then .ok none else backref history row distance
    .ok (value, consumed + 1, rest.drop consumed)
  else if 0x81 ≤ first ∧ first ≤ 0xbf then do
    let value ← backref history row (first.toNat - 0x80)
    .ok (value, 1, rest)
  else do
    let (value, rest) ← literalString row (first :: rest)
    .ok (some value, value.bytes.length + 1, rest)

def admitValue (expansionLimit row valueBytes : Nat) : Option Str → Except DecodeError Nat
  | none => .ok valueBytes
  | some value => do
    let valueBytes ← okOr (.invalidValue row "UTF-8 column length overflows")
      (checkedAdd valueBytes value.bytes.length)
    if valueBytes > i32Max ∨ valueBytes > expansionLimit then
      .error (.invalidValue row
        "UTF-8 back-references expand beyond the allowed wire-size multiple")
    else .ok valueBytes

def decodeStringsWithBackrefs (total expansionLimit : Nat) :
    Nat → Nat → Nat → Nat → List (Option Str) → Bytes → Except DecodeError (List (Option Str))
  | 0, _, pos, _, history, _ => if pos ≠ total then .error (.length pos total) else .ok history
  | n + 1, row, pos, valueBytes, history, tail =>
    match tail with
    | [] => .error (.length (pos + 1) total)
    | first :: rest => do
      let (value, consumed, rest) ← stringValue history row first rest
      let valueBytes ← admitValue expansionLimit row valueBytes value
      decodeStringsWithBackrefs total expansionLimit n (row + 1) (pos + consumed) valueBytes
        (history ++ [value]) rest

def expansionLimit (bytes : Bytes) : Nat := max (saturatingMul bytes.length 16) (1024 * 1024)

def decodeStrings (bytes : Bytes) (rows : Nat) : Except DecodeError (List (Option Str)) :=
  if rows > bytes.length then
    .error (.invalidColumn "string column contains fewer encoded bytes than declared rows")
  else if bytes.length > i32Max then .error (.invalidColumn offsetLimit)
  else do
    match ← decodeStringsWithoutBackrefs bytes.length rows 0 0 0 bytes with
    | some values => .ok values
    | none => decodeStringsWithBackrefs bytes.length (expansionLimit bytes) rows 0 0 0 [] bytes

end Strings

section Binary

def decodeBlobValues (total : Nat) :
    Nat → Nat → Nat → Nat → Bytes → Except DecodeError (List (Option Bytes))
  | 0, _, pos, _, _ => if pos ≠ total then .error (.length pos total) else .ok []
  | n + 1, row, pos, valueBytes, tail => do
    let headerEnd ← okOr (.invalidValue row "BLOB header offset overflows") (checkedAdd pos 8)
    if tail.length < 8 then .error (.length headerEnd total)
    else
      let length := (ofLeBytes 64 (tail.take 8)).toInt
      let pos := pos + 8
      let tail := tail.drop 8
      if length = -1 then do
        let values ← decodeBlobValues total n (row + 1) pos valueBytes tail
        .ok (none :: values)
      else if length < -1 then
        .error (.invalidValue row "BLOB length is negative but is not the -1 NULL sentinel")
      else do
        let length := length.toNat
        let valueEnd ← okOr (.invalidValue row "BLOB value offset overflows")
          (checkedAdd pos length)
        if tail.length < length then .error (.length valueEnd total)
        else
          let valueBytes ← okOr (.invalidValue row "BLOB column length overflows")
            (checkedAdd valueBytes length)
          if valueBytes > i32Max then
            .error (.invalidValue row "BLOB column exceeds Arrow's 32-bit offset limit")
          else
            let values ← decodeBlobValues total n (row + 1) (pos + length) valueBytes
              (tail.drop length)
            .ok (some (tail.take length) :: values)

def decodeBlob (bytes : Bytes) (rows : Nat) : Except DecodeError (List (Option Bytes)) :=
  match checkedMul rows 8 with
  | none => .error (.invalidColumn "BLOB header length overflows")
  | some minimum =>
    if minimum > bytes.length then .error (.length minimum bytes.length)
    else if bytes.length - minimum > i32Max then
      .error (.invalidColumn "BLOB column exceeds Arrow's 32-bit offset limit")
    else decodeBlobValues bytes.length rows 0 0 0 bytes

def uuidValue (chunk : Bytes) : Except DecodeError (Option (FixedBytes 16)) :=
  if chunk.all (· == 0) then .ok none
  else if h : chunk.length = 16 then .ok (some ⟨chunk, h⟩)
  else .error .panicked

def decodeUuid (bytes : Bytes) (rows : Nat) : Except DecodeError (List (Option (FixedBytes 16))) := do
  expectFixed bytes rows 16
  mapRows (fun _ chunk => uuidValue chunk) (chunksExact 16 bytes)

end Binary

section Temporal

def daysPerMonth : List Nat := [31, 28, 31, 30, 31, 30, 31, 31, 30, 31, 30, 31]

def validYmd (year : Int) (month day : Nat) : Bool :=
  if ¬(1 ≤ month ∧ month ≤ 12) ∨ day = 0 then false
  else
    let leap := (year.tmod 4 == 0 && year.tmod 100 != 0) || year.tmod 400 == 0
    let lastDay := if month = 2 && leap then 29 else daysPerMonth.getD (month - 1) 0
    day ≤ lastDay

def daysFromCivil (year : Int) (month day : Nat) : Int :=
  let year := if month ≤ 2 then year - 1 else year
  let era := (if 0 ≤ year then year else year - 399).tdiv 400
  let yearOfEra := year - era * 400
  let shiftedMonth := if month > 2 then month - 3 else month + 9
  let dayOfYear := (153 * shiftedMonth + 2) / 5 + day - 1
  let dayOfEra := yearOfEra * 365 + yearOfEra.tdiv 4 - yearOfEra.tdiv 100 + dayOfYear
  era * 146097 + dayOfEra - 719468

def dateValue (row : Nat) : Bytes → Except DecodeError (Option Int)
  | [day, month, low, high] =>
    if month = 0xff then
      if [day, month, low, high].all (· == 0xff) then .ok none
      else .error (.invalidValue row "date has a partial NULL sentinel")
    else
      let year := (ofLeBytes 16 [low, high]).toInt
      if !validYmd year month.toNat day.toNat then
        .error (.invalidValue row "invalid Gregorian date")
      else
        let days := daysFromCivil year month.toNat day.toNat
        if -(2 ^ 31) ≤ days ∧ days < 2 ^ 31 then .ok (some days)
        else .error (.invalidValue row "date is outside Arrow's Date32 range")
  | _ => .error .panicked

def timeValue (row : Nat) : Bytes → Except DecodeError (Option Int)
  | [b0, b1, b2, b3, second, minute, hour, padding] =>
    let micros := (ofLeBytes 32 [b0, b1, b2, b3]).toNat
    if micros = 2 ^ 32 - 1 then
      if [b0, b1, b2, b3, second, minute, hour, padding].all (· == 0xff) then .ok none
      else .error (.invalidValue row "time has a partial NULL sentinel")
    else if micros ≥ 1000000 ∨ second ≥ 60 ∨ minute ≥ 60 ∨ hour ≥ 24 then
      .error (.invalidValue row "invalid time of day")
    else
      .ok (some (((hour.toNat * 60 + minute.toNat) * 60 + second.toNat) * 1000000 + micros : Nat))
  | _ => .error .panicked

def slotOf (w : Nat) : Option Int → Slot w
  | none => ⟨true, 0⟩
  | some value => ⟨false, BitVec.ofInt w value⟩

def decodeDate (bytes : Bytes) (rows : Nat) : Except DecodeError (List (Slot 32)) := do
  expectFixed bytes rows 4
  mapRows (fun row chunk => (dateValue row chunk).map (slotOf 32)) (chunksExact 4 bytes)

def decodeTime (bytes : Bytes) (rows : Nat) : Except DecodeError (List (Slot 64)) := do
  expectFixed bytes rows 8
  mapRows (fun row chunk => (timeValue row chunk).map (slotOf 64)) (chunksExact 8 bytes)

def timestampValue (row : Nat) (chunk : Bytes) : Except DecodeError (Option Int) := do
  let time ← timeValue row (chunk.take 8)
  let date ← dateValue row (chunk.drop 8)
  match date, time with
  | none, none => .ok none
  | some date, some time => .ok (some (date * 86400000000 + time))
  | _, _ => .error (.invalidValue row "timestamp has mismatched date/time NULL sentinels")

def decodeTimestamp (bytes : Bytes) (rows : Nat) : Except DecodeError (List (Slot 64)) := do
  expectFixed bytes rows 12
  mapRows (fun row chunk => (timestampValue row chunk).map (slotOf 64)) (chunksExact 12 bytes)

end Temporal

section Addresses

def pushU8Decimal (value : UInt8) : Bytes :=
  (if value ≥ 100 then [48 + value / 100] else []) ++
    (if value ≥ 10 then [48 + value / 10 % 10] else []) ++ [48 + value % 10]

def inetText (chunk : Bytes) : Bytes :=
  match chunk with
  | [a, b, c, d] =>
    pushU8Decimal a ++ [46] ++ pushU8Decimal b ++ [46] ++ pushU8Decimal c ++ [46] ++ pushU8Decimal d
  | _ => InetAddress.displayIpv6 chunk

def inetValue (chunk : Bytes) : Except DecodeError (Option Str) :=
  if chunk.all (· == 0) then .ok none
  else
    match fromUtf8 (inetText chunk) with
    | none => .error .panicked
    | some text => .ok (some text)

-- StringBuilder::append_value panics when the texts outgrow its 32-bit offsets.
def appendText (valueBytes : Nat) : Option Str → Except DecodeError Nat
  | none => .ok valueBytes
  | some text =>
    if valueBytes + text.bytes.length > i32Max then .error .panicked
    else .ok (valueBytes + text.bytes.length)

def inetRows : Nat → List Bytes → Except DecodeError (List (Option Str))
  | _, [] => .ok []
  | valueBytes, chunk :: chunks => do
    let value ← inetValue chunk
    let valueBytes ← appendText valueBytes value
    let values ← inetRows valueBytes chunks
    .ok (value :: values)

def decodeInet (bytes : Bytes) (rows : Nat) : Except DecodeError (List (Option Str)) :=
  if bytes.length = saturatingMul rows 4 then inetRows 0 (chunksExact 4 bytes)
  else if bytes.length = saturatingMul rows 16 then inetRows 0 (chunksExact 16 bytes)
  else .error (.invalidColumn "INET column length is neither 4 nor 16 bytes per row")

end Addresses

def decodeColumn (dataType : MonetType) (bytes : Bytes) (rowCount : Nat) :
    Except DecodeError Column :=
  match dataType with
  | .bool => (decodeBool bytes rowCount).map .boolean
  | .tinyInt =>
    (decodePrimitive 8 (· == BitVec.intMin 8) bytes rowCount).map (.primitive .int8)
  | .smallInt =>
    (decodePrimitive 16 (· == BitVec.intMin 16) bytes rowCount).map (.primitive .int16)
  | .int =>
    (decodePrimitive 32 (· == BitVec.intMin 32) bytes rowCount).map (.primitive .int32)
  | .bigInt =>
    (decodePrimitive 64 (· == BitVec.intMin 64) bytes rowCount).map (.primitive .int64)
  | .hugeInt => (decodeDecimal bytes rowCount 38 0 true).map (.primitive (.decimal128 38 0))
  | .oid =>
    (decodePrimitive 64 (· == BitVec.intMin 64) bytes rowCount).map (.primitive .uint64)
  | .decimal precision scale => do
    let scale ← decimalScale scale
    (decodeDecimal bytes rowCount precision scale false).map
      (.primitive (.decimal128 precision scale))
  | .varchar _ | .url | .json => (decodeStrings bytes rowCount).map (.utf8 .standard)
  | .real => (decodePrimitive 32 f32IsNan bytes rowCount).map (.primitive .float32)
  | .double => (decodePrimitive 64 f64IsNan bytes rowCount).map (.primitive .float64)
  | .monthInterval =>
    (decodePrimitive 32 (· == BitVec.intMin 32) bytes rowCount).map (.primitive .int32)
  | .dayInterval | .secInterval =>
    (decodePrimitive 64 (· == BitVec.intMin 64) bytes rowCount).map
      (.primitive (.duration .millisecond))
  | .time | .timeTz => (decodeTime bytes rowCount).map (.primitive (.time64 .microsecond))
  | .date => (decodeDate bytes rowCount).map (.primitive .date32)
  | .timestamp =>
    (decodeTimestamp bytes rowCount).map (.primitive (.timestamp .microsecond none))
  | .timestampTz =>
    (decodeTimestamp bytes rowCount).map (.primitive (.timestamp .microsecond (some "UTC")))
  | .blob => (decodeBlob bytes rowCount).map (.binary .standard)
  | .uuid => (decodeUuid bytes rowCount).map (.fixedSizeBinary 16)
  | .inet4 | .inet6 => (decodeInet bytes rowCount).map (.utf8 .standard)
  | .geometry => .error (.unsupported .geometry)
  | .inet => .error (.unsupported .inet)
  | .xml => .error (.unsupported .xml)

end MonetdbAdbc
