import MonetdbAdbc.Library.Utf8

namespace MonetdbAdbc
open LittleEndian Utf8

inductive TimeUnit where
  | second
  | millisecond
  | microsecond
  | nanosecond
  deriving DecidableEq, Repr

inductive Primitive where
  | int8
  | int16
  | int32
  | int64
  | uint8
  | uint16
  | uint32
  | uint64
  | float16
  | float32
  | float64
  | decimal128 (precision : Nat) (scale : Int)
  | date32
  | date64
  | time32 (unit : TimeUnit)
  | time64 (unit : TimeUnit)
  | timestamp (unit : TimeUnit) (timezone : Option String)
  | duration (unit : TimeUnit)
  deriving DecidableEq, Repr

def Primitive.width : Primitive → Nat
  | .int8 | .uint8 => 8
  | .int16 | .uint16 | .float16 => 16
  | .int32 | .uint32 | .float32 | .date32 | .time32 _ => 32
  | .int64 | .uint64 | .float64 | .date64 | .time64 _ | .timestamp _ _ | .duration _ => 64
  | .decimal128 _ _ => 128

inductive Layout where
  | standard
  | large
  | view
  deriving DecidableEq, Repr

inductive DataType where
  | null
  | boolean
  | primitive (type : Primitive)
  | utf8 (layout : Layout)
  | binary (layout : Layout)
  | fixedSizeBinary (width : Nat)
  | dictionary (key value : DataType)
  | other (name : String)
  deriving DecidableEq, Repr

structure Field where
  name : String
  dataType : DataType
  nullable : Bool
  extension : Option String
  deriving DecidableEq, Repr

inductive MonetType where
  | bool
  | tinyInt
  | smallInt
  | int
  | bigInt
  | hugeInt
  | oid
  | decimal (precision scale : Nat)
  | varchar (width : Nat)
  | real
  | double
  | monthInterval
  | dayInterval
  | secInterval
  | time
  | timeTz
  | date
  | timestamp
  | timestampTz
  | blob
  | url
  | inet
  | inet4
  | inet6
  | json
  | uuid
  | geometry
  | xml
  deriving DecidableEq, Repr

structure Slot (width : Nat) where
  isNull : Bool
  value : BitVec width
  deriving DecidableEq, Repr

def Slot.get {width : Nat} (slot : Slot width) : Option (BitVec width) :=
  if slot.isNull then none else some slot.value

abbrev FixedBytes (width : Nat) := { bytes : Bytes // bytes.length = width }

inductive Column where
  | null (rows : Nat)
  | boolean (values : List (Option Bool))
  | primitive (type : Primitive) (slots : List (Slot type.width))
  | utf8 (layout : Layout) (values : List (Option Str))
  | binary (layout : Layout) (values : List (Option Bytes))
  | fixedSizeBinary (width : Nat) (values : List (Option (FixedBytes width)))
  | dictionary (key : DataType) (keys : List (Option Nat)) (values : Column)
  | other (name : String) (values : List (Option Unit))

def Column.len : Column → Nat
  | .null rows => rows
  | .boolean values => values.length
  | .primitive _ slots => slots.length
  | .utf8 _ values => values.length
  | .binary _ values => values.length
  | .fixedSizeBinary _ values => values.length
  | .dictionary _ keys _ => keys.length
  | .other _ values => values.length

def Column.dataType : Column → DataType
  | .null _ => .null
  | .boolean _ => .boolean
  | .primitive type _ => .primitive type
  | .utf8 layout _ => .utf8 layout
  | .binary layout _ => .binary layout
  | .fixedSizeBinary width _ => .fixedSizeBinary width
  | .dictionary key _ values => .dictionary key values.dataType
  | .other name _ => .other name

def Column.slice (start len : Nat) : Column → Column
  | .null rows => .null (min len (rows - start))
  | .boolean values => .boolean ((values.drop start).take len)
  | .primitive type slots => .primitive type ((slots.drop start).take len)
  | .utf8 layout values => .utf8 layout ((values.drop start).take len)
  | .binary layout values => .binary layout ((values.drop start).take len)
  | .fixedSizeBinary width values => .fixedSizeBinary width ((values.drop start).take len)
  | .dictionary key keys values => .dictionary key ((keys.drop start).take len) values
  | .other name values => .other name ((values.drop start).take len)

inductive Cell where
  | boolean (value : Bool)
  | native (width : Nat) (value : BitVec width)
  | text (value : Str)
  | bytes (value : Bytes)
  deriving DecidableEq, Repr

def Column.cells : Column → List (Option Cell)
  | .null rows => List.replicate rows none
  | .boolean values => values.map (·.map .boolean)
  | .primitive type slots => slots.map (·.get.map (.native type.width))
  | .utf8 _ values => values.map (·.map .text)
  | .binary _ values => values.map (·.map .bytes)
  | .fixedSizeBinary _ values => values.map (·.map fun value => .bytes value.val)
  | .dictionary _ keys values => keys.map fun key => key.bind fun index => (values.cells[index]?).join
  | .other _ values => values.map fun _ => none

@[simp] theorem Column.cells_length (array : Column) : array.cells.length = array.len := by
  cases array <;> simp [Column.cells, Column.len]

@[simp] theorem Column.slice_dataType (start len : Nat) (array : Column) :
    (array.slice start len).dataType = array.dataType := by
  cases array <;> rfl

theorem Column.slice_len (start len : Nat) (array : Column) :
    (array.slice start len).len = min len (array.len - start) := by
  cases array <;> simp [Column.slice, Column.len]

theorem Column.slice_cells (start len : Nat) (array : Column) :
    (array.slice start len).cells = (array.cells.drop start).take len := by
  cases array <;> simp [Column.slice, Column.cells, List.map_take, List.map_drop]

end MonetdbAdbc
