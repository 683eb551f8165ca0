import MonetdbAdbc.Sql.Scan

namespace MonetdbAdbc.Sql
open LittleEndian Text

inductive ParameterLayout where
  | positional (count : Nat)
  | named (names : List Bytes)
  deriving DecidableEq, Repr

namespace ParameterLayout

def count : ParameterLayout → Nat
  | .positional count => count
  | .named names => names.length

def isNamed : ParameterLayout → Bool
  | .positional _ => false
  | .named _ => true

end ParameterLayout

inductive ParameterSlot where
  | positional (index : Nat)
  | named (index : Nat)
  deriving DecidableEq, Repr

structure TemplateSlot where
  parameter : ParameterSlot
  bareIntegerLiteral : Bool
  deriving DecidableEq, Repr

structure QueryTemplate where
  query : Bytes
  segments : List (Nat × Nat)
  slots : List TemplateSlot
  layout : ParameterLayout
  deriving DecidableEq, Repr

structure Compilation where
  segmentStart : Nat
  segments : List (Nat × Nat)
  slots : List TemplateSlot
  positionalCount : Nat
  named : List Bytes
  deriving DecidableEq, Repr

namespace Compilation

def new : Compilation := ⟨0, [], [], 0, []⟩

def push (compilation : Compilation) (scanned : ScannedSlot) (parameter : ParameterSlot) :
    Compilation :=
  { compilation with
    segmentStart := scanned.stop,
    segments := compilation.segments ++ [(compilation.segmentStart, scanned.start)],
    slots := compilation.slots ++ [⟨parameter, scanned.bareIntegerLiteral⟩] }

def mixed : AdbcError :=
  adbcError "positional and named parameters cannot be mixed" .invalidArguments

def addSlot (query : Bytes) (compilation : Compilation) (scanned : ScannedSlot) :
    Except AdbcError Compilation :=
  match scanned.name with
  | none =>
    if !compilation.named.isEmpty then .error mixed
    else
      .ok { compilation.push scanned (.positional compilation.positionalCount) with
        positionalCount := compilation.positionalCount + 1 }
  | some range =>
    if 0 < compilation.positionalCount then .error mixed
    else
      let name := slice query range
      match compilation.named.idxOf? name with
      | some index => .ok (compilation.push scanned (.named index))
      | none =>
        .ok { compilation.push scanned (.named compilation.named.length) with
          named := compilation.named ++ [name] }

end Compilation

section Compile
variable (isAlphanumeric : Bytes → Bool)

def compileQuery (query : Bytes) : Except AdbcError QueryTemplate := do
  let scan ← scanQuery isAlphanumeric query
  if 1 < scan.statements.length then
    .error (adbcError "multiple SQL statements are not supported" .invalidArguments)
  else
    let compiled ← scan.slots.foldlM (Compilation.addSlot query) .new
    let layout :=
      if compiled.named.isEmpty then .positional compiled.positionalCount else .named compiled.named
    .ok ⟨query, compiled.segments ++ [(compiled.segmentStart, query.length)], compiled.slots, layout⟩

def parameterLayout (query : Bytes) : Except AdbcError ParameterLayout := do
  let template ← compileQuery isAlphanumeric query
  .ok template.layout

end Compile

structure TemplateArgument where
  literal : Bytes
  typed : Bytes
  deriving DecidableEq, Repr

def TemplateArgument.render (argument : TemplateArgument) (bareIntegerLiteral : Bool) : Bytes :=
  if bareIntegerLiteral then argument.literal else argument.typed

namespace QueryTemplate

def renderFrom (query : Bytes) (resolve : TemplateSlot → Except AdbcError Bytes) :
    List (Nat × Nat) → List TemplateSlot → Except AdbcError Bytes
  | segment :: segments, slot :: slots => do
    let value ← resolve slot
    let rest ← renderFrom query resolve segments slots
    .ok (slice query segment ++ value ++ rest)
  | segments, _ => .ok ((segments.getLast?.map (slice query)).getD [])

def render (template : QueryTemplate) (resolve : TemplateSlot → Except AdbcError Bytes) :
    Except AdbcError Bytes :=
  renderFrom template.query resolve template.segments template.slots

def renderNulls (template : QueryTemplate) : Except AdbcError Bytes :=
  template.render fun _ => .ok (ascii "NULL")

def positionalValue (values : List TemplateArgument) (slot : TemplateSlot) :
    Except AdbcError Bytes :=
  match slot.parameter with
  | .positional index =>
    match values[index]? with
    | some value => .ok (value.render slot.bareIntegerLiteral)
    | none => .error (adbcError "layout and slots agree" .internal)
  | .named _ => .error (adbcError "layout and slots agree" .internal)

def renderPositional (template : QueryTemplate) (count : Nat) (values : List TemplateArgument) :
    Except AdbcError Bytes :=
  if count ≠ values.length then
    .error (adbcError ("query has " ++ toString count ++ " positional parameters but " ++
      toString values.length ++ " values were bound") .invalidArguments)
  else template.render (positionalValue values)

def text (bytes : Bytes) : String := (String.fromUTF8? bytes.toByteArray).getD ""

def firstDuplicate : List Bytes → Option Bytes
  | [] => none
  | names => (names.inits.find? fun seen =>
      match seen.reverse with
      | [] => false
      | name :: earlier => earlier.contains name).bind List.getLast?

def namedValue (names : List Bytes) (fields : List (Bytes × TemplateArgument))
    (slot : TemplateSlot) : Except AdbcError Bytes :=
  match slot.parameter with
  | .named index =>
    match (names[index]?).bind fun name => fields.find? fun field => field.1 = name with
    | some field => .ok (field.2.render slot.bareIntegerLiteral)
    | none =>
      .error (adbcError ("named parameter '" ++ text ((names[index]?).getD []) ++ "' was not bound")
        .invalidArguments)
  | .positional _ => .error (adbcError "layout and slots agree" .internal)

def renderNamed (template : QueryTemplate) (names : List Bytes)
    (fields : List (Bytes × TemplateArgument)) : Except AdbcError Bytes :=
  match firstDuplicate (fields.map (·.1)) with
  | some name =>
    .error (adbcError ("bound parameter name '" ++ text name ++ "' is duplicated") .invalidArguments)
  | none =>
    match names.find? fun name => !(fields.map (·.1)).contains name with
    | some missing =>
      .error (adbcError ("named parameter '" ++ text missing ++ "' was not bound") .invalidArguments)
    | none =>
      match fields.find? fun field => !names.contains field.1 with
      | some extra =>
        if names.length < fields.length then
          .error (adbcError ("bound parameter '" ++ text extra.1 ++ "' is not present in the query")
            .invalidArguments)
        else template.render (namedValue names fields)
      | none => template.render (namedValue names fields)

def renderRow (template : QueryTemplate) (fields : List (Bytes × TemplateArgument))
    (bindByName : Bool) : Except AdbcError Bytes :=
  match template.layout with
  | .positional count =>
    if bindByName then
      .error (adbcError "positional parameters cannot be bound by name" .invalidArguments)
    else template.renderPositional count (fields.map (·.2))
  | .named names =>
    if !bindByName then
      .error (adbcError "named parameters require adbc.monetdb.bind_by_name" .invalidArguments)
    else template.renderNamed names fields

end QueryTemplate

end MonetdbAdbc.Sql
