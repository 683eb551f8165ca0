import MonetdbAdbc.Driver.Atomic
import MonetdbAdbc.Sql.Template

namespace MonetdbAdbc.Driver
open LittleEndian Text Program Sql Machine

structure StatementResult where
  schema : List Field
  rowsAffected : Option Int
  deriving DecidableEq, Repr

structure PreparedExecutionSavepoint where
  name : SavepointName
  retainUntilTransactionEnd : Bool
  deriving DecidableEq, Repr

def fallbackUnavailable : AdbcError := adbcError "prepared fallback SQL is unavailable" .internal

def BoundQuery.isUnverified {σ : Type} (c : Connection σ) (query : BoundQuery) : Bool :=
  query.prepared.any fun invocation => !(c.flags invocation.entry.id).verified

def alsoFailed (root : AdbcError) (context : String) (secondary : AdbcError) : AdbcError :=
  { root with message := root.message ++ "; " ++ context ++ " also failed: " ++ secondary.message }

section Savepoint
variable {σ : Type} (server : Server σ)

def beginPreparedExecutionSavepoint : Action σ (Option PreparedExecutionSavepoint) := do
  let autocommit ← serverAutocommit server
  if autocommit then pure none
  else
    let temporary ← temporaryTableState server none
    let name ← savepointName "prepared_execution"
    unit (send server (.savepoint name))
    pure (some ⟨name, temporary.1⟩)

def completePreparedExecutionSavepoint : Option PreparedExecutionSavepoint → Action σ Unit
  | none => pure ()
  | some savepoint =>
    onlyIf (!savepoint.retainUntilTransactionEnd) (unit (send server (.release savepoint.name)))

def rollbackPreparedExecutionSavepoint : Option PreparedExecutionSavepoint → Action σ Unit
  | none => pure ()
  | some savepoint => unit (send server (.rollbackTo savepoint.name))

def demotePreparedBoundQuery (invocation : PreparedInvocation) (diagnostic : AdbcError) :
    Action σ Unit := do
  let fallback ← withCache
    (·.replacePreparedWithLiteral invocation.plan.query invocation.entry.id diagnostic)
  demote invocation.entry.id fallback

end Savepoint

section Execution
variable {σ : Type} (server : Server σ) (isAlphanumeric : Bytes → Bool)

def queryStatementResult (sql : BoundSql) : Action σ StatementResult := do
  let reply ← queryResult server isAlphanumeric sql
  let shape ← ofExcept reply.shape
  pure ⟨shape.2, affected reply⟩

def executeLiteralSql (invocation : PreparedInvocation) : Action σ StatementResult := do
  let sql ← ofExcept (okOr fallbackUnavailable invocation.literalSql)
  queryStatementResult server isAlphanumeric (.literal sql)

def recoverLiteral (savepoint : Option PreparedExecutionSavepoint) (value : AdbcError) :
    Action σ StatementResult := do
  match ← attempt (rollbackPreparedExecutionSavepoint server savepoint) with
  | .error recovery =>
    fail (alsoFailed value "restoring the transaction after literal remote execution" recovery)
  | .ok () =>
    match ← attempt (completePreparedExecutionSavepoint server savepoint) with
    | .error recovery => fail (alsoFailed value "releasing the prepared execution savepoint" recovery)
    | .ok () => fail value

def literalPreparedBoundQuery (invocation : PreparedInvocation) : Except AdbcError Bytes := do
  let sql ← okOr fallbackUnavailable invocation.literalSql
  let _ ← compileQuery isAlphanumeric invocation.plan.query
  .ok sql

def executeDemoted (invocation : PreparedInvocation)
    (savepoint : Option PreparedExecutionSavepoint) (diagnostic : AdbcError) :
    Action σ StatementResult := do
  let sql ← ofExcept (literalPreparedBoundQuery isAlphanumeric invocation)
  match ← attempt (queryStatementResult server isAlphanumeric (.literal sql)) with
  | .error value => recoverLiteral server savepoint value
  | .ok result =>
    completePreparedExecutionSavepoint server savepoint
    demotePreparedBoundQuery invocation diagnostic
    pure result

def recoverRemote (invocation : PreparedInvocation) (savepoint : Option PreparedExecutionSavepoint)
    (value : AdbcError) : Action σ StatementResult := do
  match ← attempt (rollbackPreparedExecutionSavepoint server savepoint) with
  | .error recovery =>
    fail (alsoFailed value "restoring the transaction after prepared remote execution" recovery)
  | .ok () => executeDemoted server isAlphanumeric invocation savepoint value

def executeProbe (invocation : PreparedInvocation) (sql : BoundSql) : Action σ StatementResult := do
  let savepoint ← beginPreparedExecutionSavepoint server
  match ← attempt (queryStatementResult server isAlphanumeric sql) with
  | .ok result =>
    completePreparedExecutionSavepoint server savepoint
    markVerified invocation.entry.id
    pure result
  | .error value =>
    if remotePreparedExecutionFailed value then
      recoverRemote server isAlphanumeric invocation savepoint value
    else fail value

def inModifiedTransaction : Action σ Bool := do
  let c ← read
  if c.transactionModified then
    let autocommit ← serverAutocommit server
    pure !autocommit
  else pure false

def executeUnverifiedPreparedResult (query : BoundQuery) : Action σ StatementResult :=
  match query.prepared with
  | none =>
    fail (adbcError "prepared execution verification requires a prepared query" .internal)
  | some invocation => do
    let modified ← inModifiedTransaction server
    if modified then executeLiteralSql server isAlphanumeric invocation
    else executeProbe server isAlphanumeric invocation query.sql

def retryMissing (query : BoundQuery) (value : AdbcError) : Action σ StatementResult := do
  if query.prepared.isSome ∧ preparedStatementMissing value then
    let autocommit ← serverAutocommit server
    if autocommit then
      let retry ← retryBoundQuery server query
      queryStatementResult server isAlphanumeric retry.sql
    else fail value
  else fail value

end Execution

end MonetdbAdbc.Driver
