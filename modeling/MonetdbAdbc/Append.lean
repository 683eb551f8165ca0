import MonetdbAdbc.Status
import MonetdbAdbc.Wire
import Mathlib.Data.List.Forall2

namespace MonetdbAdbc
open Machine

structure AppendColumn where
  name : String
  dataType : MonetType
  nullable : Bool
  deriving DecidableEq, Repr

inductive AppendReason where
  | ambiguous (field : String) (candidates : List String)
  | missing (field : String) (columns : List String)
  | duplicate (column : String)
  | unsupported (error : EncodeError)
  | typeMismatch (field : String) (source destination : MonetType)
  | columnCount (source destination : Nat)
  | nulInIdentifier
  | prepareRefused
  | parameterMetadata (error : DecodeError)
  deriving DecidableEq, Repr

structure AppendError where
  reason : AppendReason
  status : Status
  deriving DecidableEq, Repr

inductive AppendColumnMatch where
  | exact (index : Nat)
  | caseInsensitive (index : Nat)
  | ambiguous (candidates : List String)
  | none
  deriving DecidableEq, Repr

def eqIgnoreAsciiCase (a b : String) : Bool :=
  a.toList.map Char.toLower == b.toList.map Char.toLower

def appendColumnIndex (source : String) (columns : List AppendColumn) : AppendColumnMatch :=
  match columns.findIdx? (fun column => source == column.name) with
  | some index => .exact index
  | none =>
    match columns.zipIdx.filter fun entry => eqIgnoreAsciiCase source entry.1.name with
    | [] => .none
    | [(_, index)] => .caseInsensitive index
    | candidates => .ambiguous (candidates.map fun entry => entry.1.name)

def stringWire : MonetType → Bool
  | .varchar _ | .url | .json => true
  | _ => false

def appendMonetTypesMatch (source destination : MonetType) : Bool :=
  source == destination || (stringWire source && stringWire destination)

def appendSource (field : Field) : Except AppendError MonetType :=
  match monetTypeForField field with
  | .ok source => .ok source
  | .error error => .error ⟨.unsupported error, .notImplemented⟩

section Align
variable (columns : List AppendColumn) (mismatchStatus : Status)

def matchedColumn (field : Field) : Except AppendError Nat :=
  match appendColumnIndex field.name columns with
  | .exact index | .caseInsensitive index => .ok index
  | .ambiguous candidates => .error ⟨.ambiguous field.name candidates, mismatchStatus⟩
  | .none => .error ⟨.missing field.name (columns.map AppendColumn.name), mismatchStatus⟩

def alignFrom (matched : List Bool) : List Field → Except AppendError (List String)
  | [] => .ok []
  | field :: fields => do
    let index ← matchedColumn columns mismatchStatus field
    match columns[index]? with
    | none => .error ⟨.missing field.name [], .internal⟩
    | some column =>
      if matched.getD index false then .error ⟨.duplicate column.name, mismatchStatus⟩
      else
        let source ← appendSource field
        if !appendMonetTypesMatch source column.dataType then
          .error ⟨.typeMismatch field.name source column.dataType, mismatchStatus⟩
        else
          let targets ← alignFrom (matched.set index true) fields
          .ok (column.name :: targets)

def alignAppendSchema (schema : List Field) : Except AppendError (List String) :=
  alignFrom columns mismatchStatus (List.replicate columns.length false) schema

end Align

def preparedParameterArrowField (name : String) (dataType : MonetType) : Except AppendError Field :=
  if dataType = .geometry ∨ dataType = .inet ∨ dataType = .xml then
    .ok ⟨name, .utf8 .standard, true, none⟩
  else
    match fieldForMonetType name dataType with
    | .ok field => .ok field
    | .error error => .error ⟨.parameterMetadata error, .invalidData⟩

def parameterFields : Nat → List MonetType → Except AppendError (List Field)
  | _, [] => .ok []
  | index, dataType :: types => do
    let field ← preparedParameterArrowField (toString index) dataType
    let fields ← parameterFields (index + 1) types
    .ok (field :: fields)

def validateParameters (mismatchStatus : Status) : List Field → List Field → Except AppendError Unit
  | field :: source, parameter :: destination => do
    let sourceType ← appendSource field
    match monetTypeForField parameter with
    | .error error => .error ⟨.unsupported error, .invalidData⟩
    | .ok destinationType =>
      if !appendMonetTypesMatch sourceType destinationType then
        .error ⟨.typeMismatch field.name sourceType destinationType, mismatchStatus⟩
      else validateParameters mismatchStatus source destination
  | _, _ => .ok ()

def validatePreparedInsertSchema (source destination : List Field) (mismatchStatus : Status) :
    Except AppendError Unit :=
  if source.length ≠ destination.length then
    .error ⟨.columnCount source.length destination.length, mismatchStatus⟩
  else validateParameters mismatchStatus source destination

section InsertRoute
variable (prepare : List String → Option (List MonetType))

def quotedColumnList (names : List String) : Except AppendError Unit :=
  if names.any fun name => name.toList.contains (Char.ofNat 0) then
    .error ⟨.nulInIdentifier, .invalidArguments⟩
  else .ok ()

def prepareInsert (names : List String) : Except AppendError (List Field) :=
  match prepare names with
  | none => .error ⟨.prepareRefused, .internal⟩
  | some types => parameterFields 0 types

def insertRoute (schema : List Field) (columns : List AppendColumn) (mismatchStatus : Status) :
    Except AppendError (List String) := do
  let streamNames := schema.map Field.name
  quotedColumnList streamNames
  match prepareInsert prepare streamNames with
  | .ok parameters =>
    validatePreparedInsertSchema schema parameters mismatchStatus
    .ok streamNames
  | .error prepareError =>
    let aligned ← alignAppendSchema columns mismatchStatus schema
    if aligned ≠ streamNames then
      quotedColumnList aligned
      match prepareInsert prepare aligned with
      | .ok parameters =>
        validatePreparedInsertSchema schema parameters mismatchStatus
        .ok aligned
      | .error _ => .error prepareError
    else .error prepareError

end InsertRoute

end MonetdbAdbc
