import MonetdbAdbc.Decode
import MonetdbAdbc.Read.Exportbin

namespace MonetdbAdbc
open LittleEndian Machine Rows Ieee754

structure ResultColumn where
  name : String
  sqlType : MonetType
  deriving DecidableEq, Repr

structure RecordBatch where
  schema : List Field
  columns : List Column
  numRows : Nat

def tryNewWithOptions (schema : List Field) (columns : List Column) (rowCount : Nat) :
    Except DecodeError RecordBatch :=
  if schema.length ≠ columns.length then
    .error (.arrow "number of columns must match number of fields in schema")
  else if columns.any fun column => column.len ≠ rowCount then
    .error (.arrow "all columns in a record batch must have the specified row count")
  else if (schema.zip columns).any fun pair => !pair.1.nullable && pair.2.cells.any (·.isNone) then
    .error (.arrow "column is declared as non-nullable but contains null values")
  else if (schema.zip columns).any fun pair => pair.1.dataType ≠ pair.2.dataType then
    .error (.arrow "column types must match schema types")
  else .ok ⟨schema, columns, rowCount⟩

def recordBatch (schema : List Field) (arrays : List Column) (rowCount : Nat) :
    Except DecodeError RecordBatch := tryNewWithOptions schema arrays rowCount

def validateFrame (frame : ExportbinFrame) (columns : List ResultColumn) (expectedResultId
    expectedStartRow requestedRows : Nat) : Except DecodeError Nat :=
  if frame.resultId ≠ expectedResultId then
    .error (.resultId expectedResultId frame.resultId)
  else if frame.startRow ≠ expectedStartRow then
    .error (.startRow expectedStartRow frame.startRow)
  else if columns.length ≠ frame.columns.length then
    .error (.columnCount columns.length frame.columns.length)
  else if frame.rowCount > usizeMax then .error (.invalidValue 0 "row count does not fit in memory")
  else if frame.rowCount > requestedRows then .error (.rowCount requestedRows frame.rowCount)
  else .ok frame.rowCount

def parsedFrame (frame : Bytes) : Except DecodeError ExportbinFrame :=
  match parseFrame frame with
  | .ok parsed => .ok parsed
  | .error error => .error (.frame error)

def decodeColumns (columns : List ResultColumn) (bytes : List (Nat × Bytes)) (rowCount : Nat) :
    Except DecodeError (List Column) :=
  mapRows (fun _ (pair : ResultColumn × Nat × Bytes) =>
    decodeColumn pair.1.sqlType pair.2.2 rowCount) (columns.zip bytes)

section Copy
variable (frame : Bytes) (columns : List ResultColumn)
  (expectedResultId expectedStartRow requestedRows : Nat) (schema : List Field)

def decodeFrameWithSchema : Except DecodeError RecordBatch := do
  let frame ← parsedFrame frame
  let rowCount ← validateFrame frame columns expectedResultId expectedStartRow requestedRows
  let arrays ← decodeColumns columns frame.columns rowCount
  recordBatch schema arrays rowCount

end Copy

section Adoption

def adoptionIsWorthwhile (adoptableBytes frameBytes : Nat) : Bool :=
  frameBytes > 0 && adoptableBytes ≥ frameBytes - frameBytes / 4

def adoptedAlignment : MonetType → Option Nat
  | .tinyInt => some 1
  | .smallInt => some 2
  | .int | .real | .monthInterval => some 4
  | .bigInt | .oid | .double | .dayInterval | .secInterval => some 8
  | .hugeInt => some 16
  | .decimal precision _ => if 19 ≤ precision ∧ precision ≤ 38 then some 16 else none
  | _ => none

def aligned (base start alignment : Nat) : Bool := (base + start) % alignment == 0

def totalBytes (columns : List (Nat × Bytes)) : Nat :=
  columns.foldl (fun total column => saturatingAdd total column.2.length) 0

def shouldAdoptFrame (base : Nat) (columns : List ResultColumn) (bytes : List (Nat × Bytes))
    (frameBytes : Nat) : Bool :=
  if frameBytes = 0 then false
  else
    let adoptable := (columns.zip bytes).filterMap fun (pair : ResultColumn × Nat × Bytes) =>
      (adoptedAlignment pair.1.sqlType).bind fun alignment =>
        if aligned base pair.2.1 alignment then some pair.2.2.length else none
    adoptionIsWorthwhile (adoptable.foldl saturatingAdd 0) frameBytes

def adoptPrimitive (base start : Nat) (type : Primitive) (isNull : BitVec type.width → Bool)
    (bytes : Bytes) (rows : Nat) : Except DecodeError (Option Column) := do
  expectFixed bytes rows (type.width / 8)
  if !aligned base start (type.width / 8) then .ok none
  else
    .ok (some (.primitive type ((chunksExact (type.width / 8) bytes).map fun chunk =>
      let value := ofLeBytes type.width chunk
      ⟨isNull value, value⟩)))

def adoptDecimal (base start precision : Nat) (scale : Int) (hugeint : Bool) (bytes : Bytes)
    (rows : Nat) : Except DecodeError (Option Column) := do
  expectFixed bytes rows 16
  if !aligned base start 16 then .ok none
  else
    let slots ← mapRows (decimalValue 16 precision hugeint) (chunksExact 16 bytes)
    if scale > 38 ∨ (scale > 0 ∧ scale > precision) then
      .error (.arrow "scale is greater than precision")
    else .ok (some (.primitive (.decimal128 precision scale) slots))

def adoptColumn (base start : Nat) (dataType : MonetType) (bytes : Bytes) (rows : Nat) :
    Except DecodeError (Option Column) :=
  match dataType with
  | .tinyInt => adoptPrimitive base start .int8 (· == BitVec.intMin 8) bytes rows
  | .smallInt => adoptPrimitive base start .int16 (· == BitVec.intMin 16) bytes rows
  | .int => adoptPrimitive base start .int32 (· == BitVec.intMin 32) bytes rows
  | .bigInt => adoptPrimitive base start .int64 (· == BitVec.intMin 64) bytes rows
  | .oid => adoptPrimitive base start .uint64 (· == BitVec.intMin 64) bytes rows
  | .real => adoptPrimitive base start .float32 f32IsNan bytes rows
  | .double => adoptPrimitive base start .float64 f64IsNan bytes rows
  | .monthInterval => adoptPrimitive base start .int32 (· == BitVec.intMin 32) bytes rows
  | .dayInterval | .secInterval =>
    adoptPrimitive base start (.duration .millisecond) (· == BitVec.intMin 64) bytes rows
  | .hugeInt => adoptDecimal base start 38 0 true bytes rows
  | .decimal precision scale =>
    if 19 ≤ precision ∧ precision ≤ 38 then do
      let scale ← decimalScale scale
      adoptDecimal base start precision scale false bytes rows
    else .ok none
  | _ => .ok none

def decodeOwnedColumn (base start : Nat) (dataType : MonetType) (bytes : Bytes) (rows : Nat) :
    Except DecodeError Column := do
  match ← adoptColumn base start dataType bytes rows with
  | some array => .ok array
  | none => decodeColumn dataType bytes rows

def decodeOwnedColumns (base : Nat) (columns : List ResultColumn) (bytes : List (Nat × Bytes))
    (rowCount : Nat) : Except DecodeError (List Column) :=
  mapRows (fun _ (pair : ResultColumn × Nat × Bytes) =>
    decodeOwnedColumn base pair.2.1 pair.1.sqlType pair.2.2 rowCount) (columns.zip bytes)

def ownedFrameArrays (base : Nat) (columns : List ResultColumn) (frame : ExportbinFrame)
    (rowCount : Nat) : Except DecodeError (List Column) :=
  if !shouldAdoptFrame base columns frame.columns (totalBytes frame.columns) then
    decodeColumns columns frame.columns rowCount
  else decodeOwnedColumns base columns frame.columns rowCount

def decodeFrameOwnedWithSchema (base : Nat) (frame : Bytes) (columns : List ResultColumn)
    (expectedResultId expectedStartRow requestedRows : Nat) (schema : List Field) :
    Except DecodeError RecordBatch := do
  let frame ← parsedFrame frame
  let rowCount ← validateFrame frame columns expectedResultId expectedStartRow requestedRows
  let arrays ← ownedFrameArrays base columns frame rowCount
  recordBatch schema arrays rowCount

end Adoption

section Accepted
variable {columns : List ResultColumn} {resultId startRow requestedRows : Nat} {frame : Bytes}
  {schema : List Field} {batch : RecordBatch}

structure Accepted (header : ExportbinHeader) (resultId startRow requestedRows rows : Nat) :
    Prop where
  resultId : header.resultId = resultId
  startRow : header.startRow = startRow
  rowCount : header.rowCount = rows
  requested : rows ≤ requestedRows

theorem validateFrame_ok {frame : ExportbinFrame} {rows : Nat}
    (h : validateFrame frame columns resultId startRow requestedRows = .ok rows) :
    frame.resultId = resultId ∧ frame.startRow = startRow ∧ frame.rowCount = rows ∧
      rows ≤ requestedRows := by
  simp only [validateFrame] at h
  split_ifs at h with h1 h2 h3 h4 h5
  simp only [Except.ok.injEq] at h
  exact ⟨not_not.mp h1, not_not.mp h2, h, by omega⟩

theorem recordBatch_ok {arrays : List Column} {rowCount : Nat}
    (h : recordBatch schema arrays rowCount = .ok batch) : batch = ⟨schema, arrays, rowCount⟩ := by
  simp only [recordBatch, tryNewWithOptions] at h
  split_ifs at h
  exact (Except.ok.inj h).symm

theorem parsedFrame_ok {parsed : ExportbinFrame} (h : parsedFrame frame = .ok parsed) :
    parseFrame frame = .ok parsed := by
  simp only [parsedFrame] at h
  cases hp : parseFrame frame with
  | error e => simp [hp] at h
  | ok p => simpa [hp] using h

theorem accepted_of_parsed {parsed : ExportbinFrame} {rows : Nat}
    (hparsed : parsedFrame frame = .ok parsed)
    (hvalid : validateFrame parsed columns resultId startRow requestedRows = .ok rows) :
    ∃ header, parseFrameHeader frame = .ok header ∧
      Accepted header resultId startRow requestedRows rows := by
  obtain ⟨header, hheader, hid, hcount, hstart⟩ := parseFrame_header (parsedFrame_ok hparsed)
  obtain ⟨hid', hstart', hcount', hle⟩ := validateFrame_ok hvalid
  exact ⟨header, hheader, hid ▸ hid', hstart ▸ hstart', hcount ▸ hcount', hle⟩

theorem decodeFrameWithSchema_accepted
    (h : decodeFrameWithSchema frame columns resultId startRow requestedRows schema = .ok batch) :
    ∃ header, parseFrameHeader frame = .ok header ∧
      Accepted header resultId startRow requestedRows batch.numRows := by
  simp only [decodeFrameWithSchema, bind_eq_ok] at h
  obtain ⟨parsed, hparsed, rows, hvalid, arrays, -, hbatch⟩ := h
  rw [recordBatch_ok hbatch]
  exact accepted_of_parsed hparsed hvalid

theorem decodeFrameOwnedWithSchema_accepted {base : Nat}
    (h : decodeFrameOwnedWithSchema base frame columns resultId startRow requestedRows schema =
      .ok batch) :
    ∃ header, parseFrameHeader frame = .ok header ∧
      Accepted header resultId startRow requestedRows batch.numRows := by
  simp only [decodeFrameOwnedWithSchema, bind_eq_ok] at h
  obtain ⟨parsed, hparsed, rows, hvalid, arrays, -, hbatch⟩ := h
  rw [recordBatch_ok hbatch]
  exact accepted_of_parsed hparsed hvalid

end Accepted

end MonetdbAdbc
