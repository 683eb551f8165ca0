import MonetdbAdbc.Sql.Literal
import MonetdbAdbc.Sql.Template
import MonetdbAdbc.Driver.RecordBatch

namespace MonetdbAdbc.Sql
open LittleEndian Text AsciiNumber

def sqlType : MonetType → Bytes
  | .bool => ascii "BOOLEAN"
  | .tinyInt => ascii "TINYINT"
  | .smallInt => ascii "SMALLINT"
  | .int => ascii "INT"
  | .bigInt => ascii "BIGINT"
  | .hugeInt => ascii "HUGEINT"
  | .oid => ascii "OID"
  | .decimal precision scale =>
    ascii "DECIMAL(" ++ (decimal precision ++ (ascii ", " ++ (decimal scale ++ ascii ")")))
  | .varchar width =>
    if 0 < width then ascii "VARCHAR(" ++ (decimal width ++ ascii ")") else ascii "STRING"
  | .real => ascii "REAL"
  | .double => ascii "DOUBLE"
  | .secInterval => ascii "INTERVAL SECOND"
  | .monthInterval => ascii "INTERVAL MONTH"
  | .dayInterval => ascii "INTERVAL DAY"
  | .time => ascii "TIME(6)"
  | .timeTz => ascii "TIME(6) WITH TIME ZONE"
  | .date => ascii "DATE"
  | .timestamp => ascii "TIMESTAMP(6)"
  | .timestampTz => ascii "TIMESTAMP(6) WITH TIME ZONE"
  | .blob => ascii "BLOB"
  | .url => ascii "URL"
  | .inet => ascii "INET"
  | .inet4 => ascii "INET4"
  | .inet6 => ascii "INET6"
  | .json => ascii "JSON"
  | .uuid => ascii "UUID"
  | .geometry => ascii "GEOMETRY"
  | .xml => ascii "XML"

def sqlTypeForField (field : Field) : Except EncodeError Bytes :=
  (monetTypeForField field).map sqlType

section Typed
variable (rendering : Rendering)

-- The only error of monet_type_for_field is the unsupported Arrow type.
def unsupportedType : EncodeError → AdbcError
  | .unsupported dataType =>
    adbcError ("Arrow type " ++ rendering.displayType dataType ++ " is not supported") .notImplemented
  | _ => adbcError "" .notImplemented

def valueDependentLiteralType (field : Field) : Bool :=
  match field.dataType with
  | .primitive .int32 => field.extension ≠ some "monetdb.interval_month"
  | .primitive .int8 | .primitive .int16 | .primitive .int64 | .primitive .uint8
  | .primitive .uint16 | .primitive .uint32 | .primitive .uint64 | .primitive .float16
  | .primitive .float32 | .primitive (.decimal128 _ _) => true
  | _ => false

def isNullAt : Column → Nat → Bool
  | .null _, _ => false
  | .boolean values, row => values[row]? == some none
  | .primitive _ slots, row => slots[row]?.any Slot.isNull
  | .utf8 _ values, row => values[row]? == some none
  | .binary _ values, row => values[row]? == some none
  | .fixedSizeBinary _ values, row => values[row]? == some none
  | .dictionary _ keys _, row => keys[row]? == some none
  | .other _ values, row => values[row]? == some none

def typedTemplateLiteral (field : Field) (column : Column) (row : Nat) (value : Bytes) :
    Except AdbcError Bytes :=
  if field.dataType = .null then .ok value
  else if !(isNullAt column row || valueDependentLiteralType field) then .ok value
  else do
    let type ← (sqlTypeForField field).mapError (unsupportedType rendering)
    .ok (ascii "CAST(" ++ (value ++ (ascii " AS " ++ (type ++ ascii ")"))))

def templateArgument (row : Nat) (field : Field) (column : Column) :
    Except AdbcError TemplateArgument := do
  let value ← literal rendering field column row
  let typed ← typedTemplateLiteral rendering field column row value
  .ok ⟨value, typed⟩

def rowOutOfBounds : AdbcError := adbcError "parameter row is out of bounds" .invalidArguments

def renderTemplateArguments (batch : Driver.RecordBatch) (row : Nat) :
    Except AdbcError (List TemplateArgument) :=
  if batch.rows ≤ row then .error rowOutOfBounds
  else (batch.schema.zip batch.columns).mapM fun pair => templateArgument rendering row pair.1 pair.2

def renderArguments (batch : Driver.RecordBatch) (row : Nat) : Except AdbcError (List Bytes) :=
  if batch.rows ≤ row then .error rowOutOfBounds
  else (batch.schema.zip batch.columns).mapM fun pair => literal rendering pair.1 pair.2 row

def fieldNames (batch : Driver.RecordBatch) : List Bytes :=
  batch.schema.map fun field => field.name.toUTF8.toList

def renderBatchRow (template : QueryTemplate) (batch : Driver.RecordBatch) (row : Nat) (bindByName : Bool) :
    Except AdbcError Bytes := do
  let values ← renderTemplateArguments rendering batch row
  template.renderRow ((fieldNames batch).zip values) bindByName

end Typed

end MonetdbAdbc.Sql
