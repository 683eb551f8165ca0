import MonetdbAdbc.Append
import MonetdbAdbc.Driver.PreparedCache
import MonetdbAdbc.Library.Program

namespace MonetdbAdbc.Driver
open LittleEndian Text Program Sql Machine

inductive BoundSql where
  | literal (text : Bytes)
  | execute (id : Nat) (arguments : Bytes)
  deriving DecidableEq, Repr

def BoundSql.text : BoundSql → Bytes
  | .literal text => text
  | .execute id arguments =>
    ascii "EXECUTE " ++ ascii (toString id) ++ ascii "(" ++ arguments ++ ascii ")"

structure SavepointName where
  purpose : String
  id : Nat
  deriving DecidableEq, Repr

inductive CatalogQuery where
  | temporaryTables (target : Option String)
  | tableExists (schema : Option String) (table : String)
  | tableConstraints (schema : Option String) (table : String)
  | tableColumns (schema : Option String) (table : String)
  | declaredTypes
  deriving DecidableEq, Repr

inductive IngestStep where
  | create (ifNotExists : Bool)
  | dropTarget
  | createStage
  | copy (lz4 : Bool) (rows : Nat)
  | moveStage
  | dropStage
  deriving DecidableEq, Repr

inductive Command where
  | statement (sql : BoundSql)
  | script (rows : List BoundSql)
  | prepare (query : Bytes)
  | deallocate (id : Nat)
  | commit
  | rollback
  | savepoint (name : SavepointName)
  | rollbackTo (name : SavepointName)
  | release (name : SavepointName)
  | setAutocommit (enabled : Bool)
  | catalog (query : CatalogQuery)
  | ingest (step : IngestStep)
  deriving DecidableEq, Repr

structure Reply where
  counts : List (Option Int) := [none]
  preparedId : Option Nat := none
  shape : Except AdbcError (List Field × List Field) := .ok ([], [])
  hasOriginTables : Bool := false
  flags : Except AdbcError (Bool × Bool) := .ok (false, false)
  columns : Except AdbcError (List AppendColumn) := .ok []

structure Answer (σ : Type) where
  result : Except AdbcError Reply
  rolledBack : Bool
  state : σ

structure Server (σ : Type) where
  execute : σ → Command → Answer σ
  autocommit : σ → Except AdbcError Bool

inductive Event where
  | sent (command : Command) (succeeded rolledBack : Bool)
  | poisoned
  | installed (slot id : Nat)
  deriving DecidableEq, Repr

structure EntryFlags where
  verified : Bool
  literalFallback : Option AdbcError
  deriving DecidableEq, Repr

structure Connection (σ : Type) where
  server : σ
  transactionModified : Bool
  transactionPoison : Option String
  savepointId : Nat
  cache : PreparedCache
  flags : Nat → EntryFlags
  slots : Nat → PreparedEntry
  events : List Event

abbrev Action (σ α : Type) := Prog (Connection σ) AdbcError α

section Basics
variable {σ : Type} (server : Server σ)

def send (command : Command) : Action σ Reply := fun c =>
  let answer := server.execute c.server command
  (answer.result,
    { c with
      server := answer.state,
      events := c.events ++ [.sent command answer.result.toBool answer.rolledBack] })

def serverAutocommit : Action σ Bool := fun c => (server.autocommit c.server, c)

def savepointName (purpose : String) : Action σ SavepointName := fun c =>
  (.ok ⟨purpose, c.savepointId⟩, { c with savepointId := c.savepointId + 1 })

def poisonTransaction (reason : String) : Action σ Unit :=
  update fun c =>
    match c.transactionPoison with
    | some _ => c
    | none => { c with transactionPoison := some reason, events := c.events ++ [.poisoned] }

def poisonIngest (target : String) (windows : Nat) : Action σ Unit :=
  poisonTransaction ("ingest into " ++ target ++ " failed after " ++ toString windows ++
    " COPY windows; the transaction may contain partial writes")

def commitError (c : Connection σ) : Option AdbcError :=
  c.transactionPoison.map fun poison =>
    ⟨poison ++ "; ROLLBACK is required", .invalidState, some "25000"⟩

def clearTransactionPoison : Action σ Unit := update fun c => { c with transactionPoison := none }

def setModified (modified : Bool) : Action σ Unit :=
  update fun c => { c with transactionModified := modified }

def guardTransactionCommit (effects : TransactionEffects) : Action σ Unit := fun c =>
  match effects.commit, commitError c with
  | true, some poison => (.error poison, c)
  | _, _ => (.ok (), c)

def applyTransactionRollback (effects : TransactionEffects) : Action σ Unit := do
  onlyIf (effects.commit ∨ effects.rollback) (setModified false)
  onlyIf effects.rollback clearTransactionPoison

def combineError {α : Type} (result : Except AdbcError α) (secondary : Except AdbcError Unit)
    (context : String) : Except AdbcError α :=
  match result, secondary with
  | result, .ok () => result
  | .error root, .error secondary =>
    .error { root with
      message := root.message ++ "; " ++ context ++ " also failed: " ++ secondary.message }
  | .ok _, .error secondary =>
    .error { secondary with message := context ++ " failed: " ++ secondary.message }

def unit {α : Type} (m : Action σ α) : Action σ Unit := do
  let _ ← m
  pure ()

def affected (reply : Reply) : Option Int := reply.counts.head?.join

def addAffectedRows (total : Option Int) : List (Option Int) → Except AdbcError (Option Int)
  | [] => .ok total
  | none :: counts => addAffectedRows total counts
  | some rows :: counts =>
    let sum := total.getD 0 + rows
    if inI64 sum then addAffectedRows (some sum) counts
    else .error (adbcError "affected row count overflows i64" .internal)

end Basics

section Statements
variable {σ : Type} (server : Server σ) (isAlphanumeric : Bytes → Bool)

def executeGuarded (sql : BoundSql) : Action σ Reply := do
  let effects ← ofExcept (transactionEffects isAlphanumeric sql.text)
  guardTransactionCommit effects
  let reply ← send server (.statement sql)
  applyTransactionRollback effects
  pure reply

def executeUpdate (sql : BoundSql) : Action σ (Option Int) := do
  if isPrepareStatement sql.text then
    fail (adbcError
      "execute_update() does not accept a PREPARE statement; call Statement::prepare() instead"
      .invalidArguments)
  else
    let reply ← executeGuarded server isAlphanumeric sql
    pure (affected reply)

def queryResult (sql : BoundSql) : Action σ Reply := do
  if isPrepareStatement sql.text then
    fail (adbcError
      "execute() does not accept a PREPARE statement; call Statement::prepare() instead"
      .invalidArguments)
  else executeGuarded server isAlphanumeric sql

def executeStatements (total : Option Int) : List Bytes → Action σ (Option Int)
  | [] => pure total
  | statement :: statements => do
    let reply ← send server (.statement (.literal statement))
    applyTransactionRollback ⟨false, isTransactionRollback statement⟩
    let total ← ofExcept (addAffectedRows total [affected reply])
    executeStatements total statements

def executeUpdateScript (query : Bytes) : Action σ (Option Int) := do
  let statements ← ofExcept (unboundStatements isAlphanumeric query)
  if statements.any isPrepareStatement then
    fail (adbcError
      "execute_update() does not accept a PREPARE statement; call Statement::prepare() instead"
      .invalidArguments)
  else
    let effects ← ofExcept (transactionEffects isAlphanumeric query)
    guardTransactionCommit effects
    executeStatements server none statements

def commit : Action σ Unit := unit (executeUpdate server isAlphanumeric (.literal (ascii "COMMIT")))

def rollback : Action σ Unit :=
  unit (executeUpdate server isAlphanumeric (.literal (ascii "ROLLBACK")))

def setAutocommit (enabled : Bool) : Action σ Unit := do
  guardTransactionCommit ⟨enabled, false⟩
  let current ← serverAutocommit server
  onlyIf (enabled ∧ !current) (unit (send server .commit))
  onlyIf (enabled ≠ current) (unit (send server (.setAutocommit enabled)))
  onlyIf (enabled ∨ enabled ≠ current) (setModified false)

end Statements

end MonetdbAdbc.Driver
