import MonetdbAdbc.Driver.Statement
import MonetdbAdbc.Driver.Steady
import MonetdbAdbc.Library.Transition

namespace MonetdbAdbc.Driver
open LittleEndian Text Program Sql Machine

inductive Operation where
  | newStatement (i prepareThreshold : Nat)
  | setSqlQuery (i : Nat) (query : Bytes)
  | setTarget (i : Nat) (target : Option IngestRequest)
  | setBindByName (i : Nat) (bindByName : Bool)
  | setPrepareThreshold (i threshold : Nat)
  | bind (i : Nat) (bound : Bound)
  | prepare (i : Nat)
  | executeSchema (i : Nat)
  | getParameterSchema (i : Nat)
  | execute (i : Nat)
  | executeUpdate (i : Nat)
  | advance (r : Nat)
  | commit
  | rollback
  | setAutocommit (enabled : Bool)
  | setCurrentSchema (schema : String)
  | setCacheCapacity (capacity : Nat) (positive : 0 < capacity)

namespace Statement

def setSqlQuery (query : Bytes) (statement : Statement) : Statement :=
  { statement.clearPrepared with target := none, query := some query }

end Statement

def ignore {σ α : Type} (m : Task σ α) : Task σ Unit := do
  let _ ← m
  pure ()

section Perform
variable {σ : Type} (server : Server σ) (isAlphanumeric : Bytes → Bool)
  (describe : AppendReason → String)

def setCurrentSchema (schema : String) : Action σ Unit := do
  let quoted ← ofExcept (quoteIdentifier schema)
  let _ ← executeUpdate server isAlphanumeric
    (.literal ("SET SCHEMA " ++ quoted).toUTF8.toList)
  clearPreparedCache

def perform : Operation → Task σ Unit
  | .newStatement i prepareThreshold => setStatement i fun _ => .new prepareThreshold
  | .setSqlQuery i query => setStatement i (.setSqlQuery query)
  | .setTarget i target => setStatement i fun statement => { statement with target := target }
  | .setBindByName i bindByName =>
    setStatement i fun statement => { statement with bindByName := bindByName }
  | .setPrepareThreshold i threshold =>
    setStatement i fun statement => { statement with prepareThreshold := threshold }
  | .bind i bound => setStatement i fun statement => { statement with bound := some bound }
  | .prepare i => prepare server isAlphanumeric i
  | .executeSchema i => ignore (executeSchema server isAlphanumeric i)
  | .getParameterSchema i => getParameterSchema server isAlphanumeric i
  | .execute i => ignore (executeWithRowsAffected server isAlphanumeric i)
  | .executeUpdate i => ignore (executeUpdateStatement server isAlphanumeric describe i)
  | .advance r => advance server isAlphanumeric r
  | .commit => onConnection (commit server isAlphanumeric)
  | .rollback => onConnection (rollback server isAlphanumeric)
  | .setAutocommit enabled => onConnection (setAutocommit server enabled)
  | .setCurrentSchema schema => onConnection (setCurrentSchema server isAlphanumeric schema)
  | .setCacheCapacity capacity positive =>
    onConnection (withCache fun cache => ((), cache.setCapacity capacity positive))

def step (s : Session σ) (operation : Operation) : Option (Session σ) :=
  some (perform server isAlphanumeric describe operation s).2

end Perform

def Connection.start {σ : Type} (server : σ) (capacity : Nat) (positive : 0 < capacity) :
    Connection σ :=
  { server := server
    transactionModified := false
    transactionPoison := none
    savepointId := 0
    cache := .new capacity positive
    flags := fun _ => ⟨false, none⟩
    slots := fun _ => ⟨0, [], []⟩
    events := [] }

def Session.start {σ : Type} (server : σ) (capacity prepareThreshold : Nat)
    (positive : 0 < capacity) : Session σ :=
  { connection := .start server capacity positive
    statements := fun _ => .new prepareThreshold
    readers := fun _ => none
    nextSlot := 0
    nextReader := 0 }

end MonetdbAdbc.Driver
