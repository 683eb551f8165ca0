import MonetdbAdbc.Driver.Ingest
import MonetdbAdbc.Driver.Unverified

namespace MonetdbAdbc.Driver
open LittleEndian Text Program Sql Machine

-- A batch whose schema or contents the stream refuses still counts its rows when the leading
-- rows of an update are looked at; a failed read ends the stream there.
inductive BoundItem where
  | row (arguments : Except AdbcError (List Bytes)) (values : Except AdbcError (List TemplateArgument))
  | rejected (rows : Nat) (error : AdbcError)
  | failure (error : AdbcError)

structure Bound where
  names : List Bytes
  items : List BoundItem

def BoundItem.toStream (template : QueryTemplate) (bindByName : Bool) (names : List Bytes) :
    BoundItem → StreamItem
  | .row arguments values => .row
      { literal := values.bind fun values => template.renderRow (names.zip values) bindByName
        arguments := arguments.map (List.intercalate (ascii ", ")) }
  | .rejected _ error => .failure error
  | .failure error => .failure error

def boundRows : List BoundItem → Nat
  | [] => 0
  | .row _ _ :: items => 1 + boundRows items
  | .rejected rows _ :: items => rows + boundRows items
  | .failure _ :: _ => 0

structure Statement where
  query : Option Bytes
  bound : Option Bound
  bindByName : Bool
  prepareThreshold : Nat
  target : Option IngestRequest
  prepared : Bool
  preparedEntry : Option Nat
  literalFallback : Option AdbcError
  deferredTemplate : Option QueryTemplate
  preparedResultSchema : Option (List Field)

namespace Statement

def new (prepareThreshold : Nat) : Statement :=
  ⟨none, none, false, prepareThreshold, none, false, none, none, none, none⟩

def clearPrepared (statement : Statement) : Statement :=
  { statement with
    preparedEntry := none, literalFallback := none, deferredTemplate := none,
    preparedResultSchema := none, prepared := false }

end Statement

structure ParameterReader where
  query : Bytes
  stream : BoundQueryStream
  schema : List Field

structure Session (σ : Type) where
  connection : Connection σ
  statements : Nat → Statement
  readers : Nat → Option ParameterReader
  nextSlot : Nat
  nextReader : Nat

abbrev Task (σ α : Type) := Prog (Session σ) AdbcError α

section State
variable {σ α : Type}

def onConnection (m : Action σ α) : Task σ α := fun s =>
  ((m s.connection).1, { s with connection := (m s.connection).2 })

def statementAt (i : Nat) : Task σ Statement := fun s => (.ok (s.statements i), s)

def setStatement (i : Nat) (f : Statement → Statement) : Task σ Unit :=
  update fun s => { s with statements := Function.update s.statements i (f (s.statements i)) }

def newSlot (entry : PreparedEntry) : Task σ Nat := fun s =>
  (.ok s.nextSlot,
    { s with
      connection := (installSlot s.nextSlot entry s.connection).2
      nextSlot := s.nextSlot + 1 })

def newReader (reader : ParameterReader) : Task σ Unit :=
  update fun s =>
    { s with
      readers := Function.update s.readers s.nextReader (some reader)
      nextReader := s.nextReader + 1 }

def setReader (r : Nat) (reader : ParameterReader) : Task σ Unit :=
  update fun s => { s with readers := Function.update s.readers r (some reader) }

end State

def queryNotSet : AdbcError := adbcError "SQL query is not set" .invalidState

def nothingBound : AdbcError := adbcError "no Arrow parameters are bound" .invalidState

def deferredForced : AdbcError :=
  adbcError "forced preparation cannot produce a deferred outcome" .internal

section Prepare
variable {σ : Type} (server : Server σ) (isAlphanumeric : Bytes → Bool) (i : Nat)

def tryDeallocate (id : Nat) : Action σ Unit := unit (attempt (send server (.deallocate id)))

def describeQuery (text : Bytes) : Action σ (List Field) := do
  let metadata ← prepareQuery server text
  tryDeallocate server metadata.1
  pure metadata.2.2

def statementQuery : Task σ Bytes := do
  let statement ← statementAt i
  ofExcept (okOr queryNotSet statement.query)

def refreshSlot (slot : Nat) (query : Bytes) : Task σ PreparedEntry := do
  let _ ← ofExcept (parameterLayout isAlphanumeric query)
  let entry ← onConnection (prepareCached server query)
  onConnection (installSlot slot entry)
  pure entry

def literalSchema (template : QueryTemplate) (diagnostic : AdbcError) : Task σ (List Field) := do
  setStatement i fun statement => { statement with literalFallback := some diagnostic }
  let rendered ← ofExcept template.renderNulls
  match ← attempt (onConnection (prepareQuery server rendered)) with
  | .error _ => fail diagnostic
  | .ok metadata =>
    onConnection (tryDeallocate server metadata.1)
    pure metadata.2.2

def forcedSchema (query : Bytes) (template : QueryTemplate) : Task σ (List Field) := do
  let statement ← statementAt i
  let outcome ← onConnection (prepareOutcomeCached server query statement.prepareThreshold .force)
  match outcome.1 with
  | .prepared entry => pure entry.result
  | .literal diagnostic => literalSchema server i template diagnostic
  | .deferred _ => fail deferredForced

def parsedSchema (query : Bytes) : Task σ (List Field) := do
  let template ← ofExcept (compileQuery isAlphanumeric query)
  if template.layout.isNamed then
    let rendered ← ofExcept template.renderNulls
    onConnection (describeQuery server rendered)
  else if template.layout.count = 0 then onConnection (describeQuery server query)
  else forcedSchema server i query template

def executeSchema : Task σ (List Field) := do
  let statement ← statementAt i
  match statement.preparedEntry, statement.preparedResultSchema with
  | some slot, _ =>
    let query ← statementQuery i
    let entry ← refreshSlot server isAlphanumeric slot query
    setStatement i fun statement => { statement with preparedResultSchema := some entry.result }
    pure entry.result
  | none, some schema => pure schema
  | none, none =>
    let query ← statementQuery i
    parsedSchema server isAlphanumeric i query

def getParameterSchema : Task σ Unit := do
  let statement ← statementAt i
  match statement.preparedEntry, statement.deferredTemplate with
  | some slot, _ =>
    let query ← statementQuery i
    let _ ← refreshSlot server isAlphanumeric slot query
    pure ()
  | none, some _ =>
    let query ← statementQuery i
    let outcome ← onConnection (prepareOutcomeCached server query statement.prepareThreshold .force)
    match outcome.1 with
    | .deferred _ => fail deferredForced
    | _ => pure ()
  | none, none =>
    if statement.prepared ∨ statement.bound.isSome then pure ()
    else
      let query ← statementQuery i
      let _ ← ofExcept (parameterLayout isAlphanumeric query)
      pure ()

def adoptDeclared (template : QueryTemplate) : PrepareOutcome → Task σ Unit
  | .prepared entry => do
    let slot ← newSlot entry
    setStatement i fun statement =>
      { statement with preparedResultSchema := some entry.result, preparedEntry := some slot }
  | .literal diagnostic =>
    setStatement i fun statement => { statement with literalFallback := some diagnostic }
  | .deferred _ =>
    setStatement i fun statement => { statement with deferredTemplate := some template }

def declareParameters (query : Bytes) (template : QueryTemplate) : Task σ Unit := do
  if template.layout.count = 0 then pure ()
  else if template.layout.isNamed then
    let schema ← executeSchema server isAlphanumeric i
    setStatement i fun statement => { statement with preparedResultSchema := some schema }
  else
    let statement ← statementAt i
    let outcome ← onConnection
      (prepareOutcomeCached server query statement.prepareThreshold .declare)
    adoptDeclared i template outcome.1

def prepareText (query : Bytes) : Task σ Unit := do
  if isPrepareStatement query then
    fail (adbcError "Statement::prepare() accepts the SQL to prepare, not a PREPARE statement"
      .invalidArguments)
  else
    let template ← ofExcept (compileQuery isAlphanumeric query)
    declareParameters server isAlphanumeric i query template
    setStatement i fun statement => { statement with prepared := true }

def prepare : Task σ Unit := do
  let statement ← statementAt i
  if statement.prepared then pure ()
  else
    let query ← statementQuery i
    prepareText server isAlphanumeric i query

def adoptResolved (template : QueryTemplate) : PrepareOutcome → Task σ Unit
  | .prepared entry => do
    let slot ← newSlot entry
    setStatement i fun statement =>
      { statement with
        preparedResultSchema := some entry.result, preparedEntry := some slot,
        literalFallback := none, deferredTemplate := none }
  | .literal diagnostic =>
    setStatement i fun statement =>
      { statement with
        preparedResultSchema := none, preparedEntry := none, literalFallback := some diagnostic,
        deferredTemplate := none }
  | .deferred _ =>
    setStatement i fun statement => { statement with deferredTemplate := some template }

def resolveDeferredForExecution (force : Bool) : Task σ Unit := do
  let statement ← statementAt i
  match statement.deferredTemplate with
  | none => pure ()
  | some template =>
    let query ← statementQuery i
    let outcome ← onConnection (prepareOutcomeCached server query statement.prepareThreshold
      (if force then .force else .execute))
    adoptResolved i template outcome.1

def boundMismatch (layout : ParameterLayout) (bindByName : Bool) (names : List Bytes) :
    Except AdbcError Unit :=
  if layout.isNamed ≠ bindByName then
    .error (adbcError (if layout.isNamed then "named parameters require adbc.monetdb.bind_by_name"
      else "positional parameters cannot be bound by name") .invalidArguments)
  else
    match layout with
    | .positional expected =>
      if names.length ≠ expected then
        .error (adbcError ("query has " ++ toString expected ++
          " positional parameters but the bound stream has " ++ toString names.length ++ " columns")
          .invalidArguments)
      else .ok ()
    | .named expected =>
      if names.length ≠ expected.length ∨ ¬ names.Nodup ∨ ¬ expected ⊆ names then
        .error (adbcError "bound parameter names do not match the query" .invalidArguments)
      else .ok ()

def boundTemplate (statement : Statement) (query : Bytes) : Except AdbcError QueryTemplate :=
  match statement.literalFallback, statement.deferredTemplate with
  | none, some template => .ok template
  | _, _ => compileQuery isAlphanumeric query

def boundStream (statement : Statement) (query : Bytes) (bound : Bound) :
    Except AdbcError BoundQueryStream := do
  let template ← boundTemplate isAlphanumeric statement query
  boundMismatch template.layout statement.bindByName bound.names
  .ok
    { items := bound.items.map (·.toStream template statement.bindByName bound.names)
      prepared := statement.preparedEntry.map fun slot =>
        ⟨normalizePreparedQuery query, template.layout.count, slot⟩
      literalFallback := statement.literalFallback
      pending := [] }

def takeBoundQueries : Task σ BoundQueryStream := do
  let query ← statementQuery i
  let statement ← statementAt i
  let bound ← ofExcept (okOr nothingBound statement.bound)
  setStatement i fun statement => { statement with bound := none }
  ofExcept (boundStream isAlphanumeric statement query bound)

end Prepare

section Execute
variable {σ : Type} (server : Server σ) (isAlphanumeric : Bytes → Bool) (i : Nat)

def guardModifies : Option Bytes → Except AdbcError Bool
  | none => .ok true
  | some query => do
    let statements ← parameterizedStatements isAlphanumeric query
    let modifies ← statements.mapM (statementMayModify isAlphanumeric)
    .ok (modifies.any id)

def withWriteGuard {α : Type} (query : Option Bytes) (m : Bool → Task σ α) : Task σ α := do
  let modifies ← ofExcept (guardModifies isAlphanumeric query)
  let s ← read
  onlyIf modifies (onConnection (setModified true))
  let result ← attempt (m s.connection.transactionModified)
  onlyIf modifies (onConnection (setModified true))
  ofExcept result

def boundQueryResult (query : BoundQuery) : Action σ StatementResult := do
  let c ← read
  if query.isUnverified c then executeUnverifiedPreparedResult server isAlphanumeric query
  else queryStatementResult server isAlphanumeric query.sql

def boundQueryReaderWithRetry (query : BoundQuery) : Action σ StatementResult := do
  let query ← currentBoundQuery server query
  match ← attempt (boundQueryResult server isAlphanumeric query) with
  | .ok result => pure result
  | .error value => retryMissing server isAlphanumeric query value

def refreshPreparedLiteralFallback : Task σ Unit :=
  update fun s =>
    match (s.statements i).preparedEntry.bind fun slot =>
      (s.connection.flags (s.connection.slots slot).id).literalFallback with
    | none => s
    | some fallback =>
      { s with
        statements := Function.update s.statements i
          ({ s.statements i with literalFallback := some fallback } : Statement) }

def rememberSchema (schema : List Field) : Task σ Unit :=
  setStatement i fun statement => { statement with preparedResultSchema := some schema }

def withoutCount (result : StatementResult) : StatementResult :=
  if result.schema.isEmpty then result else { result with rowsAffected := none }

def emptyRows : Task σ StatementResult := do
  let statement ← statementAt i
  match statement.preparedResultSchema with
  | some schema => pure ⟨schema, if schema.isEmpty then some 0 else none⟩
  | none =>
    let schema ← executeSchema server isAlphanumeric i
    rememberSchema i schema
    pure ⟨schema, if schema.isEmpty then some 0 else none⟩

def updateRows (priorWrites : Bool) (stream : BoundQueryStream) : Task σ StatementResult := do
  let rows ← onConnection (executeUpdatesAtomic server isAlphanumeric priorWrites stream)
  pure ⟨[], rows⟩

def updateSingleRow (priorWrites : Bool) (stream : BoundQueryStream) (query : BoundQuery) :
    Task σ StatementResult := do
  let query ← onConnection (currentBoundQuery server query)
  let s ← read
  if query.isUnverified s.connection then
    let result ← onConnection (executeUnverifiedPreparedResult server isAlphanumeric query)
    rememberSchema i result.schema
    refreshPreparedLiteralFallback i
    pure (withoutCount result)
  else updateRows server isAlphanumeric priorWrites { stream with pending := query :: stream.pending }

def executeRowUpdates (priorWrites : Bool) (stream : BoundQueryStream) :
    Task σ StatementResult := do
  match ← onConnection (takeIfSingle stream) with
  | (some query, stream) => updateSingleRow server isAlphanumeric i priorWrites stream query
  | (none, stream) => updateRows server isAlphanumeric priorWrites stream

def openReader (stream : BoundQueryStream) : Task σ StatementResult := do
  let query ← statementQuery i
  match ← onConnection (nextQuery stream) with
  | (none, _) => fail (adbcError "no parameter rows to execute" .invalidArguments)
  | (some first, stream) =>
    let result ← onConnection (boundQueryReaderWithRetry server isAlphanumeric first)
    newReader ⟨query, stream, result.schema⟩
    refreshPreparedLiteralFallback i
    pure ⟨result.schema, none⟩

def rowSchema (stream : BoundQueryStream) : Task σ (List Field) := do
  let statement ← statementAt i
  match statement.literalFallback, stream.pending with
  | none, _ => executeSchema server isAlphanumeric i
  | some _, [] => fail (adbcError "no parameter row is pending" .internal)
  | some _, query :: _ => onConnection (describeQuery server query.sql.text)

def executeUnknownRows (priorWrites : Bool) (stream : BoundQueryStream) :
    Task σ StatementResult := do
  let schema ← rowSchema server isAlphanumeric i stream
  if schema.isEmpty then
    let result ← updateRows server isAlphanumeric priorWrites stream
    rememberSchema i schema
    pure result
  else
    rememberSchema i schema
    openReader server isAlphanumeric i stream

def executeLiteralRows (priorWrites : Bool) (stream : BoundQueryStream) :
    Task σ StatementResult := do
  match ← onConnection (takeIfSingle stream) with
  | (some query, _) =>
    let result ← onConnection (queryStatementResult server isAlphanumeric query.sql)
    rememberSchema i result.schema
    pure (withoutCount result)
  | (none, stream) => executeUnknownRows server isAlphanumeric i priorWrites stream

def executeStream (priorWrites : Bool) (stream : BoundQueryStream) : Task σ StatementResult := do
  let statement ← statementAt i
  match statement.preparedResultSchema with
  | some [] => executeRowUpdates server isAlphanumeric i priorWrites stream
  | some _ => openReader server isAlphanumeric i stream
  | none =>
    if statement.literalFallback.isSome ∨ statement.deferredTemplate.isSome then
      executeLiteralRows server isAlphanumeric i priorWrites stream
    else executeUnknownRows server isAlphanumeric i priorWrites stream

def executeRows (priorWrites : Bool) : Task σ StatementResult := do
  prepare server isAlphanumeric i
  resolveDeferredForExecution server i false
  let stream ← takeBoundQueries isAlphanumeric i
  match ← onConnection (streamIsEmpty stream) with
  | (true, _) => emptyRows server isAlphanumeric i
  | (false, stream) => executeStream server isAlphanumeric i priorWrites stream

def clearingCache {α : Type} (query : Bytes) (m : Task σ α) : Task σ α := do
  let invalidates ← ofExcept (queryInvalidatesPreparedCache isAlphanumeric query)
  let result ← attempt m
  onlyIf invalidates (onConnection clearPreparedCache)
  ofExcept result

def invalidatingCache {α : Type} (query : Bytes) (m : Action σ α) : Task σ α := do
  let invalidates ← ofExcept (queryInvalidatesPreparedCache isAlphanumeric query)
  onlyIf invalidates (onConnection clearPreparedCache)
  let result ← attempt (onConnection m)
  onlyIf (invalidates ∧ result.toBool) (onConnection clearPreparedCache)
  ofExcept result

def validateUnboundQuery (query : Bytes) : Except AdbcError Unit := do
  if isPrepareStatement query then
    .error (adbcError
      "execution does not accept a PREPARE statement; call Statement::prepare() instead"
      .invalidArguments)
  else
    let layout ← parameterLayout isAlphanumeric query
    if layout.count ≠ 0 then .error (adbcError "parameters are not bound" .invalidState) else .ok ()

def executeUnbound : Task σ StatementResult := do
  let query ← statementQuery i
  ofExcept (validateUnboundQuery isAlphanumeric query)
  invalidatingCache isAlphanumeric query (queryStatementResult server isAlphanumeric (.literal query))

def executeBound (priorWrites : Bool) : Task σ StatementResult := do
  let statement ← statementAt i
  if statement.target.isSome then
    fail (adbcError "bulk ingestion requires ExecuteUpdate" .invalidState)
  else
    let query ← statementQuery i
    clearingCache isAlphanumeric query (executeRows server isAlphanumeric i priorWrites)

def executeWithRowsAffected : Task σ StatementResult := do
  let statement ← statementAt i
  withWriteGuard isAlphanumeric statement.query fun priorWrites =>
    if statement.bound.isSome then executeBound server isAlphanumeric i priorWrites
    else executeUnbound server isAlphanumeric i

def boundBatchExceedsOneRow : Task σ Bool := do
  let statement ← statementAt i
  let bound ← ofExcept (okOr nothingBound statement.bound)
  pure (1 < boundRows bound.items)

def executeUpdateRows (priorWrites : Bool) : Task σ (Option Int) := do
  let query ← statementQuery i
  let invalidates ← ofExcept (queryInvalidatesPreparedCache isAlphanumeric query)
  prepare server isAlphanumeric i
  let multiRow ← boundBatchExceedsOneRow i
  resolveDeferredForExecution server i multiRow
  let stream ← takeBoundQueries isAlphanumeric i
  let result ← attempt (onConnection (executeUpdatesAtomic server isAlphanumeric priorWrites stream))
  onlyIf invalidates (onConnection clearPreparedCache)
  ofExcept result

def executeUpdateText : Task σ (Option Int) := do
  let query ← statementQuery i
  invalidatingCache isAlphanumeric query (executeUpdateScript server isAlphanumeric query)

def ingestBound (describe : AppendReason → String) (i : Nat) (request : IngestRequest)
    (priorWrites : Bool) : Task σ (Option Int) := do
  setStatement i fun statement => { statement with bound := none }
  onConnection (ingest server describe request priorWrites)

def updateRoute (describe : AppendReason → String) (i : Nat) (statement : Statement)
    (priorWrites : Bool) : Task σ (Option Int) :=
  match statement.bound, statement.target with
  | some _, some request => ingestBound server describe i request priorWrites
  | some _, none => executeUpdateRows server isAlphanumeric i priorWrites
  | none, _ => executeUpdateText server isAlphanumeric i

def executeUpdateStatement (describe : AppendReason → String) (i : Nat) : Task σ (Option Int) := do
  let statement ← statementAt i
  withWriteGuard isAlphanumeric statement.query
    (updateRoute server isAlphanumeric describe i statement)

def checkReaderSchema (reader : ParameterReader) (result : StatementResult) : Except AdbcError Unit :=
  if result.schema = reader.schema then .ok ()
  else .error (adbcError "parameterized query schema changed between rows" .internal)

def readRow (reader : ParameterReader) : Option (Except AdbcError BoundQuery) → Task σ Unit
  | none => pure ()
  | some (.error error) => fail error
  | some (.ok query) => do
    let result ← onConnection (boundQueryReaderWithRetry server isAlphanumeric query)
    ofExcept (checkReaderSchema reader result)

def advanceReader (r : Nat) (reader : ParameterReader) : Task σ Unit := do
  let s ← read
  setReader r { reader with stream := (reader.stream.next s.connection).2 }
  readRow server isAlphanumeric reader (reader.stream.next s.connection).1

def advance (r : Nat) : Task σ Unit := do
  let s ← read
  match s.readers r with
  | none => pure ()
  | some reader => advanceReader server isAlphanumeric r reader

end Execute

end MonetdbAdbc.Driver
