import MonetdbAdbc.Driver.Prepared

namespace MonetdbAdbc.Driver
open LittleEndian Text Program Sql Machine

inductive AtomicScope where
  | autocommit
  | callerTransaction
  | savepoint (name : SavepointName) (retainUntilTransactionEnd : Bool)
  deriving DecidableEq, Repr

inductive CallerTransactionScope where
  | direct
  | savepoint
  deriving DecidableEq, Repr

def parameterUpdateBatchRows : Nat := 1024

def parameterUpdateBatchBytes : Nat := 8 * 1024 * 1024

section Scope
variable {σ : Type} (server : Server σ)

def temporaryTableState (table : Option String) : Action σ (Bool × Bool) := do
  let reply ← send server (.catalog (.temporaryTables table))
  ofExcept reply.flags

def retainSavepoint (temporaryExists : Option Bool) : Action σ Bool := do
  match temporaryExists with
  | some temporary => pure temporary
  | none =>
    let state ← temporaryTableState server none
    pure state.1

def beginAtomic (purpose : String) (callerScope : CallerTransactionScope) (priorWrites : Bool)
    (temporaryExists : Option Bool) : Action σ AtomicScope := do
  let originallyAutocommit ← serverAutocommit server
  if originallyAutocommit then
    unit (send server (.setAutocommit false))
    pure .autocommit
  else if priorWrites ∨ callerScope = .direct then pure .callerTransaction
  else
    let retain ← retainSavepoint server temporaryExists
    let name ← savepointName purpose
    unit (send server (.savepoint name))
    pure (.savepoint name retain)

def finalizeScope : AtomicScope → Action σ Unit
  | .autocommit => unit (send server .commit)
  | .callerTransaction => pure ()
  | .savepoint name retain => if retain then pure () else unit (send server (.release name))

def recoverScope : AtomicScope → Action σ Unit
  | .autocommit => unit (send server .rollback)
  | .callerTransaction => pure ()
  | .savepoint name retain => do
    unit (send server (.rollbackTo name))
    if retain then pure () else unit (send server (.release name))

def settleScope {α : Type} (scope : AtomicScope) (operation : Except AdbcError α) :
    Action σ (Except AdbcError α) := do
  match operation with
  | .error root =>
    let recovery ← attempt (recoverScope server scope)
    pure (combineError (.error root) recovery "transaction recovery")
  | .ok value =>
    match ← attempt (finalizeScope server scope) with
    | .ok () => pure (.ok value)
    | .error root =>
      let recovery ← attempt (recoverScope server scope)
      pure (combineError (.error root) recovery "transaction recovery")

def finishAtomic {α : Type} (scope : AtomicScope) (operation : Except AdbcError α) : Action σ α := do
  let settled ← settleScope server scope operation
  match scope with
  | .autocommit =>
    let restored ← attempt (unit (send server (.setAutocommit true)))
    ofExcept (combineError settled restored "restoring autocommit")
  | _ => ofExcept settled

end Scope

section Updates
variable {σ : Type} (server : Server σ) (isAlphanumeric : Bytes → Bool)

def fillBatch : Nat → BoundQueryStream → List BoundQuery → Nat →
    Action σ (List BoundQuery × Option BoundQuery × BoundQueryStream)
  | 0, stream, batch, _ => pure (batch, none, stream)
  | room + 1, stream, batch, sqlBytes => do
    match ← nextQuery stream with
    | (none, stream) => pure (batch, none, stream)
    | (some query, stream) =>
      let nextBytes := saturatingAdd (saturatingAdd sqlBytes query.sql.text.length) 2
      if batch ≠ [] ∧ parameterUpdateBatchBytes < nextBytes then pure (batch, some query, stream)
      else fillBatch room stream (batch ++ [query]) nextBytes

def collectBatch (stream : BoundQueryStream) (pending : Option BoundQuery) :
    Action σ (List BoundQuery × Option BoundQuery × BoundQueryStream) :=
  match pending with
  | none => fillBatch parameterUpdateBatchRows stream [] 0
  | some query => fillBatch (parameterUpdateBatchRows - 1) stream [query] query.sql.text.length

def executeUpdateBatch (batch : List BoundQuery) (total : Option Int) : Action σ (Option Int) := do
  let reply ← send server (.script (batch.map (·.sql)))
  ofExcept (addAffectedRows total reply.counts)

def executeBatches : Nat → BoundQueryStream → Option BoundQuery → Option Int → Action σ (Option Int)
  | 0, _, _, total => pure total
  | fuel + 1, stream, pending, total => do
    let (batch, pending, stream) ← collectBatch stream pending
    if batch = [] then pure total
    else
      let total ← executeUpdateBatch server batch total
      executeBatches fuel stream pending total

def executeRemaining (stream : BoundQueryStream) (reply : Reply) : Action σ (Option Int) := do
  let total ← ofExcept (addAffectedRows none [affected reply])
  executeBatches server (stream.size + 1) stream none total

def poisonParameterBatch : Action σ Unit :=
  poisonTransaction
    "parameter batch failed in a caller transaction that may contain partial writes"

def poisonIfCaller (scope : AtomicScope) : Action σ Unit :=
  match scope with
  | .callerTransaction => poisonParameterBatch
  | _ => pure ()

def poisonOnError {α : Type} (scope : AtomicScope) : Except AdbcError α → Action σ Unit
  | .ok _ => pure ()
  | .error _ => poisonIfCaller scope

def updateAttempt (priorWrites : Bool) (stream : BoundQueryStream)
    (again : Option (BoundQuery → Action σ (Option Int))) (first : BoundQuery) :
    Action σ (Option Int) := do
  let first ← currentBoundQuery server first
  let scope ← beginAtomic server "parameter_batch" .savepoint priorWrites none
  match ← attempt (send server (.statement first.sql)) with
  | .ok reply =>
    let result ← attempt (executeRemaining server stream reply)
    poisonOnError scope result
    finishAtomic server scope result
  | .error root =>
    poisonIfCaller scope
    let result ← attempt (finishAtomic server scope (.error root : Except AdbcError (Option Int)))
    match again, result with
    | some again, .error value =>
      if scope ≠ .callerTransaction ∧ first.prepared.isSome ∧ preparedStatementMissing root ∧
          value.message = root.message then do
        let retry ← retryBoundQuery server first
        again retry
      else fail value
    | _, result => ofExcept result

def executeUpdatesAtomicFromFirst (priorWrites : Bool) (stream : BoundQueryStream)
    (first : BoundQuery) : Bool → Action σ (Option Int)
  | false => updateAttempt server priorWrites stream none first
  | true =>
    updateAttempt server priorWrites stream
      (some (updateAttempt server priorWrites stream none)) first

def canRetry (query : BoundQuery) : Action σ Bool :=
  if query.prepared.isSome then serverAutocommit server else pure false

def executeSingleBoundUpdate (query : BoundQuery) : Action σ (Option Int) := do
  let query ← currentBoundQuery server query
  let canRetry ← canRetry server query
  match ← attempt (executeUpdate server isAlphanumeric query.sql) with
  | .ok total => pure total
  | .error value =>
    if canRetry ∧ preparedStatementMissing value then do
      let retry ← retryBoundQuery server query
      executeUpdate server isAlphanumeric retry.sql
    else fail value

def executeUpdatesAtomic (priorWrites : Bool) (stream : BoundQueryStream) :
    Action σ (Option Int) := do
  match ← nextQuery stream with
  | (none, _) => pure (some 0)
  | (some first, stream) =>
    let (empty, stream) ← streamIsEmpty stream
    if empty then executeSingleBoundUpdate server isAlphanumeric first
    else executeUpdatesAtomicFromFirst server priorWrites stream first true

end Updates

end MonetdbAdbc.Driver
