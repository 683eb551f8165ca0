import MonetdbAdbc.Driver.Atomic

namespace MonetdbAdbc.Driver
open LittleEndian Text Program Sql Machine

inductive IngestMode where
  | create
  | append
  | replace
  | createAppend
  | unknown (name : String)
  deriving DecidableEq, Repr

def IngestMode.appends (mode : IngestMode) : Bool := mode == .append || mode == .createAppend

def appendMismatchStatus (mode : IngestMode) : Status :=
  if mode = .createAppend then .alreadyExists else .invalidArguments

inductive IngestPartial where
  | block
  | allow
  deriving DecidableEq, Repr

inductive IngestAtomicity where
  | transaction
  | savepoint
  deriving DecidableEq, Repr

inductive ConstrainedAppend where
  | auto
  | direct
  deriving DecidableEq, Repr

structure InsertCandidate where
  rows : Nat
  arguments : List Bytes

structure IngestWindow where
  rows : Nat
  usesWireLz4 : Bool
  encoder : Except AdbcError Unit

structure IngestSource where
  start : Except AdbcError Unit
  windows : List (Except AdbcError IngestWindow)
  finish : Except AdbcError Unit
  moveDeadline : Except AdbcError Unit
  dropDeadline : Except AdbcError Unit

structure IngestRequest where
  mode : IngestMode
  temporary : Except AdbcError Bool
  targetCatalog : Option String
  schemaName : Option String
  table : String
  fields : List Field
  candidate : Except AdbcError (Option InsertCandidate)
  source : IngestSource
  ingestPartial : IngestPartial
  atomicity : IngestAtomicity
  constrainedAppend : ConstrainedAppend

def quoteIdentifier (identifier : String) : Except AdbcError String :=
  if identifier.toList.contains (Char.ofNat 0) then
    .error (adbcError "SQL identifier contains a NUL byte" .invalidArguments)
  else
    .ok ("\"" ++ String.ofList (identifier.toList.flatMap fun c => if c = '"' then ['"', '"'] else [c])
      ++ "\"")

def qualifiedName (schema : Option String) (table : String) : Except AdbcError String :=
  match schema with
  | none => quoteIdentifier table
  | some schema => do
    let schema ← quoteIdentifier schema
    let table ← quoteIdentifier table
    .ok (schema ++ "." ++ table)

namespace IngestRequest

def isTemporary (request : IngestRequest) : Bool := request.temporary.toOption == some true

def targetSchema (request : IngestRequest) : Option String :=
  if request.isTemporary then some "tmp" else request.schemaName

def operationTarget (request : IngestRequest) : Except AdbcError String :=
  qualifiedName request.targetSchema request.table

end IngestRequest

structure IngestProgress where
  writesStarted : Bool
  targetCopyCount : Nat
  deriving DecidableEq, Repr

def joinStrings (separator : String) : List String → String
  | [] => ""
  | [last] => last
  | piece :: pieces => piece ++ separator ++ joinStrings separator pieces

def quotedNames (names : List String) : Except AdbcError String := do
  let quoted ← names.mapM quoteIdentifier
  .ok (joinStrings ", " quoted)

def insertParameterQuery (target : String) (names : List String) : Except AdbcError Bytes := do
  let columns ← quotedNames names
  .ok ("INSERT INTO " ++ target ++ " (" ++ columns ++ ") VALUES (" ++
    joinStrings ", " (names.map fun _ => "?") ++ ")").toUTF8.toList

section Ingest
variable {σ : Type} (server : Server σ) (describe : AppendReason → String) (request : IngestRequest)

def appendFailure (error : AppendError) : AdbcError := adbcError (describe error.reason) error.status

def appendResult {α : Type} (result : Except AppendError α) : Action σ α :=
  ofExcept (result.mapError (appendFailure describe))

def executeIngestTargetMode (mode : IngestMode) : Action σ Unit :=
  match mode with
  | .create => unit (send server (.ingest (.create false)))
  | .append => pure ()
  | .replace => do
    unit (send server (.ingest .dropTarget))
    unit (send server (.ingest (.create false)))
  | .createAppend => unit (send server (.ingest (.create true)))
  | .unknown name => fail (adbcError ("unknown ingest mode '" ++ name ++ "'") .invalidArguments)

def appendTableColumns : Action σ (List AppendColumn) := do
  let reply ← send server (.catalog (.tableColumns request.targetSchema request.table))
  ofExcept reply.columns

def alignedNames : Action σ (List String) := do
  let destination ← appendTableColumns server request
  appendResult describe
    (alignAppendSchema destination (appendMismatchStatus request.mode) request.fields)

def prepareIngestTarget : Action σ (Option (List String)) := do
  executeIngestTargetMode server request.mode
  if request.mode.appends then
    let names ← alignedNames server describe request
    pure (some names)
  else pure none

def prepareInsertForm (target : String) (names : List String) :
    Action σ (Except AdbcError PreparedEntry) := do
  let query ← ofExcept (insertParameterQuery target names)
  attempt (do
    let entry ← prepareCachedWithStatus server query
    pure entry.1)

def alternativeForm (target : String) (refused : AdbcError) : Action σ PreparedEntry := do
  if request.mode.appends then
    let aligned ← alignedNames server describe request
    if aligned = request.fields.map Field.name then fail refused
    else
      match ← prepareInsertForm server target aligned with
      | .ok entry => pure entry
      | .error _ => fail refused
  else fail refused

def insertEntry (target : String) : Action σ PreparedEntry := do
  match ← prepareInsertForm server target (request.fields.map Field.name) with
  | .ok entry => pure entry
  | .error refused => alternativeForm server describe request target refused

def checkInsertSchema (entry : PreparedEntry) : Action σ Unit :=
  onlyIf request.mode.appends
    (appendResult describe
      (validatePreparedInsertSchema request.fields entry.parameters
        (appendMismatchStatus request.mode)))

def preparedInsert (target : String) : Action σ PreparedEntry := do
  executeIngestTargetMode server request.mode
  let entry ← insertEntry server describe request target
  checkInsertSchema describe request entry
  pure entry

def expectRows (reported : Option Int) (expected : Nat) (unreported exceeds : String)
    (mismatch : Int → String) : Except AdbcError Int :=
  match reported with
  | none => .error (adbcError unreported .invalidData)
  | some rows =>
    if !inI64 expected then .error (adbcError exceeds .internal)
    else if rows ≠ expected then .error (adbcError (mismatch rows) .invalidData)
    else .ok rows

def sendInserts (candidate : InsertCandidate) (entry : PreparedEntry) : Action σ Int := do
  let total ← executeUpdateBatch server
    (candidate.arguments.map fun arguments => ⟨.execute entry.id arguments, none, none⟩) none
  ofExcept (expectRows total candidate.rows "MonetDB did not report the INSERT row count"
    "insert row count exceeds i64" fun rows =>
      "MonetDB inserted " ++ toString rows ++ " rows from a batch containing " ++
        toString candidate.rows ++ " rows")

def insertRows (target : String) (candidate : InsertCandidate) :
    Action σ (Except AdbcError Int × Bool) := do
  match ← attempt (preparedInsert server describe request target) with
  | .error error => pure (.error error, request.mode ≠ .append)
  | .ok entry =>
    let inserted ← attempt (sendInserts server candidate entry)
    pure (inserted, true)

def copyWindow (window : IngestWindow) : Action σ Reply := do
  let reply ← attempt (send server (.ingest (.copy window.usesWireLz4 window.rows)))
  ofExcept (combineError reply window.encoder "ingest encoder cleanup")

def copiedRows (window : IngestWindow) (rows : Int) (reply : Reply) : Except AdbcError Int := do
  let copied ← expectRows (affected reply) window.rows "MonetDB did not report the COPY row count"
    "window row count exceeds i64" fun copied =>
      "MonetDB copied " ++ toString copied ++ " rows from a window containing " ++
        toString window.rows ++ " rows"
  if inI64 (rows + copied) then .ok (rows + copied)
  else .error (adbcError "ingested row count overflows i64" .internal)

def uploadWindows (staged : Bool) : List (Except AdbcError IngestWindow) → Int → IngestProgress →
    Action σ (Except AdbcError Int × IngestProgress)
  | [], rows, progress => pure (.ok rows, progress)
  | .error error :: _, _, progress => pure (.error error, progress)
  | .ok window :: windows, rows, progress => do
    match ← attempt (copyWindow server window) with
    | .error error => pure (.error error, { progress with writesStarted := true })
    | .ok reply =>
      let progress : IngestProgress :=
        ⟨true, if staged then progress.targetCopyCount else progress.targetCopyCount + 1⟩
      match copiedRows window rows reply with
      | .error error => pure (.error error, progress)
      | .ok rows => uploadWindows staged windows rows progress

def moveStaged (source : IngestSource) (rows : Int) : Action σ Int := do
  ofExcept source.moveDeadline
  let reply ← send server (.ingest .moveStage)
  let moved ← ofExcept (match affected reply with
    | none => .error (adbcError "MonetDB did not report the constrained append row count" .invalidData)
    | some moved =>
      if moved ≠ rows then
        .error (adbcError ("MonetDB moved " ++ toString moved ++
          " staged rows from an ingest containing " ++ toString rows ++ " rows") .invalidData)
      else .ok moved)
  ofExcept source.dropDeadline
  let dropped ← attempt (unit (send server (.ingest .dropStage)))
  ofExcept (combineError (.ok moved) dropped "dropping the constrained append staging table")

def finishUpload (source : IngestSource) (staged : Bool) (uploaded : Except AdbcError Int) :
    Action σ (Except AdbcError Int) := do
  match combineError uploaded source.finish "ingest prefetch cleanup" with
  | .error error => pure (.error error)
  | .ok rows => if staged then attempt (moveStaged server source rows) else pure (.ok rows)

def stageQueries (destination : Option (List String)) : Except AdbcError Unit := do
  match destination with
  | none =>
    .error (adbcError "constrained append staging requires an existing destination" .internal)
  | some names =>
    let _ ← quotedNames (request.fields.map Field.name)
    let _ ← quotedNames names
    .ok ()

def prepareStage (staged : Bool) (destination : Option (List String)) : Action σ Unit :=
  if staged then unit (send server (.ingest .createStage))
  else
    match destination with
    | none => pure ()
    | some names => unit (ofExcept (quotedNames names))

def copyRows (staged : Bool) : Action σ (Except AdbcError Int × IngestProgress) := do
  let started := request.mode ≠ .append
  match ← attempt (prepareIngestTarget server describe request) with
  | .error error => pure (.error error, ⟨started, 0⟩)
  | .ok destination =>
    match if staged then stageQueries request destination else .ok () with
    | .error error => pure (.error error, ⟨started, 0⟩)
    | .ok () =>
      let started := staged || started
      match ← attempt (prepareStage server staged destination) with
      | .error error => pure (.error error, ⟨started, 0⟩)
      | .ok () =>
        match request.source.start with
        | .error error => pure (.error error, ⟨started, 0⟩)
        | .ok () =>
          let (uploaded, progress) ← uploadWindows server staged request.source.windows 0 ⟨started, 0⟩
          let result ← finishUpload server request.source staged uploaded
          pure (result, progress)

def checkIngestField (field : Field) : Except AdbcError Unit :=
  match monetTypeForField field with
  | .error error => .error (adbcError (describe (.unsupported error)) .notImplemented)
  | .ok dataType =>
    if dataType = .oid then
      .error (adbcError "COPY BINARY ingestion for OID columns is not supported by MonetDB"
        .notImplemented)
    else if dataType = .inet then
      .error (adbcError "COPY BINARY ingestion for INET columns is not supported by MonetDB"
        .notImplemented)
    else .ok ()

def checkIngest : Except AdbcError String := do
  let temporary ← request.temporary
  if request.targetCatalog.isSome then
    .error (adbcError "adbc-monetdb: ingest target catalogs is not implemented" .notImplemented)
  else if temporary && request.schemaName.isSome then
    .error (adbcError "temporary ingestion cannot specify a schema" .invalidArguments)
  else
    let target ← request.operationTarget
    if request.fields.isEmpty then
      .error (adbcError "cannot ingest a zero-column stream" .invalidArguments)
    else
      let _ ← request.fields.mapM (checkIngestField describe)
      let _ ← quotedNames (request.fields.map Field.name)
      .ok target

def clearPreparedCache : Action σ Unit := withCache fun cache => ((), cache.clear)

def tableFlags (query : CatalogQuery) : Action σ (Bool × Bool) := do
  let reply ← send server (.catalog query)
  ofExcept reply.flags

def ingestTemporaryState : Action σ (Option (Bool × Bool)) := do
  if request.isTemporary && request.mode.appends then
    let state ← temporaryTableState server (some request.table)
    pure (some state)
  else pure none

def refuseTransientAppend (temporaryState : Option (Bool × Bool)) : Action σ Unit := do
  if temporaryState.any (·.2) then
    let autocommit ← serverAutocommit server
    onlyIf autocommit (fail (adbcError
      "cannot append to a temporary table declared ON COMMIT DELETE ROWS while autocommit is enabled; disable autocommit or declare ON COMMIT PRESERVE ROWS"
      .invalidState))
  else pure ()

def appendsToExisting : Action σ Bool := do
  if request.mode = .append then pure true
  else if request.mode = .createAppend then
    let flags ← tableFlags server (.tableExists request.targetSchema request.table)
    pure flags.1
  else pure false

def constraintState (candidate : Option InsertCandidate)
    (existing : Bool) : Action σ (Option (Bool × Bool)) := do
  if candidate.isNone && existing && request.constrainedAppend == .auto then
    let flags ← tableFlags server (.tableConstraints request.targetSchema request.table)
    pure (some flags)
  else pure none

def ingestCallerScope (candidate : Option InsertCandidate)
    (existing : Bool) (constraints : Option (Bool × Bool)) : CallerTransactionScope :=
  if candidate.isSome || constraints.any (·.2) || constraints.any (!·.1) then .savepoint
  else if existing && request.atomicity == .transaction then .direct
  else .savepoint

def refuseDirtySavepoint (priorWrites : Bool) : Action σ Unit := do
  if priorWrites && request.atomicity == .savepoint then
    let autocommit ← serverAutocommit server
    onlyIf (!autocommit) (fail (adbcError
      "ingest_atomicity=savepoint requires a transaction without prior writes; commit or rollback before ingesting"
      .invalidState))
  else pure ()

def invalidateOnSuccess {α : Type} (result : Except AdbcError α) : Action σ Unit :=
  onlyIf (request.mode ≠ .append ∧ result.toBool) clearPreparedCache

def ingestInserts (target : String) (scope : AtomicScope)
    (candidate : InsertCandidate) : Action σ (Option Int) := do
  let (inserted, writesStarted) ← insertRows server describe request target candidate
  onlyIf (inserted.toBool = false ∧ scope = .callerTransaction ∧ writesStarted)
    (poisonIngest target 0)
  let result ← attempt (finishAtomic server scope inserted)
  invalidateOnSuccess request result
  ofExcept (result.map some)

def partialAllowed (staged : Bool) (result : Except AdbcError Int)
    (progress : IngestProgress) : Bool :=
  request.ingestPartial == .allow && !staged && request.mode == .append &&
    decide (0 < progress.targetCopyCount) &&
    match result with
    | .ok _ => false
    | .error error => error.sqlstate.isNone

def ingestCopies (target : String) (scope : AtomicScope)
    (staged : Bool) : Action σ (Option Int) := do
  let (copied, progress) ← copyRows server describe request staged
  let result ← attempt (finishAtomic server scope copied)
  onlyIf (copied.toBool = false ∧ progress.writesStarted ∧ scope = .callerTransaction ∧
      !partialAllowed request staged copied progress)
    (poisonIngest target progress.targetCopyCount)
  invalidateOnSuccess request result
  ofExcept (result.map some)

def ingestRoute (target : String) (candidate : Option InsertCandidate)
    (staged : Bool) (scope : AtomicScope) : Action σ (Option Int) := do
  onlyIf staged clearPreparedCache
  match candidate with
  | some candidate => ingestInserts server describe request target scope candidate
  | none => ingestCopies server describe request target scope staged

def ingest (priorWrites : Bool) : Action σ (Option Int) := do
  onlyIf (request.mode ≠ .append) clearPreparedCache
  let target ← ofExcept (checkIngest describe request)
  let candidate ← ofExcept request.candidate
  let temporaryState ← ingestTemporaryState server request
  refuseTransientAppend server temporaryState
  let existing ← appendsToExisting server request
  let constraints ← constraintState server request candidate existing
  refuseDirtySavepoint server request priorWrites
  let scope ← beginAtomic server "ingest" (ingestCallerScope request candidate existing constraints)
    priorWrites (temporaryState.map (·.1))
  ingestRoute server describe request target candidate (constraints.any (·.2)) scope

end Ingest

end MonetdbAdbc.Driver
