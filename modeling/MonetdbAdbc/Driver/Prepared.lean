import MonetdbAdbc.Driver.Connection

namespace MonetdbAdbc.Driver
open LittleEndian Text Program Sql Machine

structure PreparedPlan where
  query : Bytes
  parameterCount : Nat
  slot : Nat
  deriving DecidableEq, Repr

structure PreparedInvocation where
  plan : PreparedPlan
  entry : PreparedEntry
  arguments : Bytes
  literalSql : Option Bytes
  deriving DecidableEq, Repr

structure BoundQuery where
  sql : BoundSql
  prepared : Option PreparedInvocation
  prepareDiagnostic : Option AdbcError
  deriving DecidableEq, Repr

namespace BoundQuery

def ofPrepared (plan : PreparedPlan) (entry : PreparedEntry) (arguments : Bytes)
    (literalSql : Option Bytes) : BoundQuery :=
  ⟨.execute entry.id arguments, some ⟨plan, entry, arguments, literalSql⟩, none⟩

def ofLiteral (sql : Bytes) (fallback : Option AdbcError) : BoundQuery :=
  ⟨.literal sql, none, fallback⟩

end BoundQuery

structure BoundRow where
  literal : Except AdbcError Bytes
  arguments : Except AdbcError Bytes

inductive StreamItem where
  | row (row : BoundRow)
  | failure (error : AdbcError)

structure BoundQueryStream where
  items : List StreamItem
  prepared : Option PreparedPlan
  literalFallback : Option AdbcError
  pending : List BoundQuery

section Stream
variable {σ : Type}

def renderPrepared (c : Connection σ) (plan : PreparedPlan) (row : BoundRow) :
    Except AdbcError BoundQuery :=
  let entry := c.slots plan.slot
  match (c.flags entry.id).literalFallback with
  | some fallback => do
    let sql ← row.literal
    .ok (.ofLiteral sql (some fallback))
  | none =>
    if (c.flags entry.id).verified then do
      let arguments ← row.arguments
      .ok (.ofPrepared plan entry arguments none)
    else do
      let literal ← row.literal
      let arguments ← row.arguments
      .ok (.ofPrepared plan entry arguments (some literal))

def renderRow (c : Connection σ) (stream : BoundQueryStream) (row : BoundRow) :
    Except AdbcError BoundQuery :=
  match stream.prepared with
  | some plan => renderPrepared c plan row
  | none => row.literal.map fun sql => .ofLiteral sql stream.literalFallback

namespace BoundQueryStream

def next (c : Connection σ) (stream : BoundQueryStream) :
    Option (Except AdbcError BoundQuery) × BoundQueryStream :=
  match stream.pending, stream.items with
  | query :: pending, _ => (some (.ok query), { stream with pending := pending })
  | [], [] => (none, stream)
  | [], .failure error :: _ => (some (.error error), { stream with items := [] })
  | [], .row row :: items => (some (renderRow c stream row), { stream with items := items })

def size (stream : BoundQueryStream) : Nat := stream.pending.length + stream.items.length

end BoundQueryStream

def nextQuery (stream : BoundQueryStream) : Action σ (Option BoundQuery × BoundQueryStream) :=
  fun c =>
    match stream.next c with
    | (none, stream) => (.ok (none, stream), c)
    | (some (.ok query), stream) => (.ok (some query, stream), c)
    | (some (.error error), _) => (.error error, c)

def streamIsEmpty (stream : BoundQueryStream) : Action σ (Bool × BoundQueryStream) := do
  match ← nextQuery stream with
  | (some query, stream) => pure (false, { stream with pending := stream.pending ++ [query] })
  | (none, stream) => pure (true, stream)

def takeIfSingle (stream : BoundQueryStream) :
    Action σ (Option BoundQuery × BoundQueryStream) := do
  match ← nextQuery stream with
  | (none, stream) => pure (none, stream)
  | (some first, stream) =>
    match ← nextQuery stream with
    | (none, stream) => pure (some first, stream)
    | (some second, stream) =>
      pure (none, { stream with pending := first :: second :: stream.pending })

end Stream

def preparedStatementMissing (value : AdbcError) : Bool :=
  value.sqlstate == some "42000" && contains value.message "EXEC: PREPARED Statement missing"

def remotePreparedExecutionFailed (value : AdbcError) : Bool :=
  contains value.message "Exception occurred in the remote server, please check the log there"

section Prepare
variable {σ : Type} (server : Server σ)

def withCache {α : Type} (f : PreparedCache → α × PreparedCache) : Action σ α := fun c =>
  (.ok (f c.cache).1, { c with cache := (f c.cache).2 })

def installSlot (slot : Nat) (entry : PreparedEntry) : Action σ Unit :=
  update fun c =>
    { c with
      slots := Function.update c.slots slot entry,
      events := c.events ++ [.installed slot entry.id] }

def setFlags (id : Nat) (flags : EntryFlags) : Action σ Unit :=
  update fun c => { c with flags := Function.update c.flags id flags }

def markVerified (id : Nat) : Action σ Unit :=
  update fun c =>
    { c with flags := Function.update c.flags id { c.flags id with verified := true } }

def demote (id : Nat) (fallback : AdbcError) : Action σ Unit :=
  update fun c =>
    { c with flags := Function.update c.flags id { c.flags id with literalFallback := some fallback } }

theorem withCache_apply {α : Type} (f : PreparedCache → α × PreparedCache) (c : Connection σ) :
    withCache f c = (.ok (f c.cache).1, { c with cache := (f c.cache).2 }) := rfl

theorem installSlot_apply (slot : Nat) (entry : PreparedEntry) (c : Connection σ) :
    installSlot slot entry c = (.ok (),
      { c with
        slots := Function.update c.slots slot entry,
        events := c.events ++ [.installed slot entry.id] }) := rfl

def beginProbe (autocommit : Bool) : Action σ (Option SavepointName) := do
  if autocommit then pure none
  else
    let name ← savepointName "prepare_probe"
    unit (send server (.savepoint name))
    pure (some name)

def recoverProbe (savepoint : Option SavepointName) (root : AdbcError) :
    Action σ (Nat × List Field × List Field) := do
  match savepoint with
  | none => fail root
  | some name =>
    let recovery ← attempt (do
      unit (send server (.rollbackTo name))
      unit (send server (.release name)))
    ofExcept (combineError (.error root) recovery "restoring the transaction after PREPARE")

def parsePrepared (reply : Reply) : Action σ (List Field × List Field) := do
  let shape ← ofExcept reply.shape
  if reply.hasOriginTables then
    let declared ← send server (.catalog .declaredTypes)
    ofExcept declared.shape
  else pure shape

def discardUnreadable (id : Nat) : Except AdbcError (List Field × List Field) → Action σ Unit
  | .ok _ => pure ()
  | .error _ => unit (attempt (send server (.deallocate id)))

def releaseProbe : Option SavepointName → Action σ Unit
  | none => pure ()
  | some name => unit (send server (.release name))

def finishProbe (savepoint : Option SavepointName) (reply : Reply) :
    Action σ (Nat × List Field × List Field) := do
  match reply.preparedId with
  | none => fail (adbcError "MonetDB did not return prepared statement metadata" .invalidData)
  | some id =>
    let parsed ← attempt (parsePrepared server reply)
    discardUnreadable server id parsed
    let release ← attempt (releaseProbe server savepoint)
    ofExcept (combineError (parsed.map fun shape => (id, shape)) release
      "releasing the PREPARE savepoint")

def prepareQuery (query : Bytes) : Action σ (Nat × List Field × List Field) := do
  let autocommit ← serverAutocommit server
  let savepoint ← beginProbe server autocommit
  match ← attempt (send server (.prepare (normalizePreparedQuery query))) with
  | .error root => recoverProbe server savepoint root
  | .ok reply => finishProbe server savepoint reply

def newEntry (query : Bytes) (metadata : Nat × List Field × List Field) :
    Action σ PreparedEntry := do
  setFlags metadata.1 ⟨!preparedRowExecutionNeedsVerification query, none⟩
  pure ⟨metadata.1, metadata.2.1, metadata.2.2⟩

def prepareCachedWithStatus (query : Bytes) : Action σ (PreparedEntry × Bool) := do
  let query := normalizePreparedQuery query
  match ← withCache (·.get query) with
  | some entry => pure (entry, true)
  | none =>
    let metadata ← prepareQuery server query
    let candidate ← newEntry query metadata
    let entry ← withCache (·.insert query candidate)
    pure (entry, false)

def prepareCached (query : Bytes) : Action σ PreparedEntry := do
  let entry ← prepareCachedWithStatus server query
  pure entry.1

def permitsLiteralParameterFallback (value : AdbcError) : Bool :=
  value.sqlstate.isSome || value.message == "unknown MonetDB prepared type 'any'" ||
    "invalid structural split in PREPARE metadata".toList.isPrefixOf value.message.toList

def conflictEndings : List String :=
  ["conflict with another transaction", "conflicts with another transaction",
    "transaction conflict detected", "transaction conflict detected while setting default value",
    "failed due to transaction conflict"]

def isWhiteSpace (c : Char) : Bool :=
  let n := c.toNat
  9 ≤ n && n ≤ 13 || 0x2000 ≤ n && n ≤ 0x200A ||
    [0x20, 0x85, 0xA0, 0x1680, 0x2028, 0x2029, 0x202F, 0x205F, 0x3000].contains n

def isTransactionConflict (value : AdbcError) : Bool :=
  (value.sqlstate == some "42000" || value.sqlstate == some "25000" ||
    value.sqlstate == some "25S01") &&
  (conflictEndings.any (fun ending =>
      ending.toList.isSuffixOf (trimmed value.message)) ||
    "TRANSACTION CONFLICT in storage_api.".toList.isPrefixOf value.message.toList)
where
  trimmed (message : String) : List Char :=
    (message.toList.reverse.dropWhile isWhiteSpace).reverse

def transientPrepareDiagnostic (value : AdbcError) : Bool :=
  value.sqlstate.any (fun sqlstate => ["25", "40", "HY"].any fun code =>
    code.toList.isPrefixOf sqlstate.toList) || isTransactionConflict value

def prepareOutcomeCached (query : Bytes) (threshold : Nat) (request : PrepareRequest) :
    Action σ (PrepareOutcome × Bool) := do
  let query := normalizePreparedQuery query
  match ← withCache (·.prepareDecision query threshold request) with
  | .outcome outcome cacheHit => pure (outcome, cacheHit)
  | .prepare =>
    match ← attempt (prepareQuery server query) with
    | .ok metadata =>
      let candidate ← newEntry query metadata
      let entry ← withCache (·.insert query candidate)
      pure (.prepared entry, false)
    | .error diagnostic =>
      if transientPrepareDiagnostic diagnostic then fail diagnostic
      else if permitsLiteralParameterFallback diagnostic then
        let outcome ← withCache (·.insertLiteral query diagnostic)
        pure (outcome, false)
      else fail diagnostic

end Prepare

section Recover
variable {σ : Type} (server : Server σ)

def refreshedEntry (plan : PreparedPlan) : Action σ PreparedEntry := do
  match ← withCache (·.get plan.query) with
  | some entry => pure entry
  | none => prepareCached server plan.query

def currentBoundQuery (query : BoundQuery) : Action σ BoundQuery := do
  match query.prepared with
  | none => pure query
  | some invocation =>
    let c ← read
    match (c.flags invocation.entry.id).literalFallback with
    | some fallback =>
      match invocation.literalSql with
      | none => fail (adbcError "prepared fallback SQL is unavailable" .internal)
      | some sql => pure (.ofLiteral sql (some fallback))
    | none =>
      let entry ← refreshedEntry server invocation.plan
      onlyIf (entry.id ≠ invocation.entry.id) (installSlot invocation.plan.slot entry)
      pure (.ofPrepared invocation.plan entry invocation.arguments invocation.literalSql)

def replacedEntry (invocation : PreparedInvocation) : Action σ PreparedEntry := do
  let plan := invocation.plan
  let c ← read
  if (c.slots plan.slot).id ≠ invocation.entry.id then pure (c.slots plan.slot)
  else
    withCache fun cache => ((), cache.removeIfId plan.query invocation.entry.id)
    let refreshed ← prepareCached server plan.query
    let c ← read
    if (c.slots plan.slot).id = invocation.entry.id then
      installSlot plan.slot refreshed
      pure refreshed
    else pure (c.slots plan.slot)

def retryBoundQuery (query : BoundQuery) : Action σ BoundQuery := do
  match query.prepared with
  | none => fail (adbcError "cannot recover an unprepared parameter query" .internal)
  | some invocation =>
    let entry ← replacedEntry server invocation
    let c ← read
    onlyIf (c.flags invocation.entry.id).verified (markVerified entry.id)
    pure (.ofPrepared invocation.plan entry invocation.arguments invocation.literalSql)

end Recover

end MonetdbAdbc.Driver
