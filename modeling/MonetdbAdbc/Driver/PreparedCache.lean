import MonetdbAdbc.Arrow
import MonetdbAdbc.Library.Machine
import MonetdbAdbc.Sql.Effects

namespace MonetdbAdbc.Driver
open LittleEndian Sql Machine

structure PreparedEntry where
  id : Nat
  parameters : List Field
  result : List Field
  deriving DecidableEq, Repr

inductive PrepareOutcome where
  | prepared (entry : PreparedEntry)
  | literal (diagnostic : AdbcError)
  | deferred (executions : Nat)
  deriving DecidableEq, Repr

structure CachedPrepared where
  outcome : PrepareOutcome
  lastUsed : Nat
  deriving DecidableEq, Repr

inductive PrepareRequest where
  | declare
  | execute
  | force
  deriving DecidableEq, Repr

inductive PrepareDecision where
  | outcome (outcome : PrepareOutcome) (cacheHit : Bool)
  | prepare
  deriving DecidableEq, Repr

abbrev CacheEntries := List (Bytes × CachedPrepared)

structure PreparedCache where
  capacity : Nat
  entries : CacheEntries
  useCounter : Nat
  capacity_pos : 0 < capacity

namespace CacheEntries

def outcome (entries : CacheEntries) (query : Bytes) : Option PrepareOutcome :=
  (List.find? (fun entry => entry.1 = query) entries).map fun entry => entry.2.outcome

def remove (entries : CacheEntries) (query : Bytes) : CacheEntries :=
  List.filter (fun entry => entry.1 ≠ query) entries

def put (entries : CacheEntries) (query : Bytes) (cached : CachedPrepared) : CacheEntries :=
  (query, cached) :: remove entries query

def oldest : CacheEntries → Option (Bytes × Nat)
  | [] => none
  | (query, cached) :: rest =>
    match oldest rest with
    | none => some (query, cached.lastUsed)
    | some (other, lastUsed) =>
      if cached.lastUsed ≤ lastUsed then some (query, cached.lastUsed) else some (other, lastUsed)

def trim (capacity : Nat) : Nat → CacheEntries → CacheEntries
  | 0, entries => entries
  | fuel + 1, entries =>
    if capacity < entries.length then
      match oldest entries with
      | none => entries
      | some (query, _) => trim capacity fuel (remove entries query)
    else entries

end CacheEntries

namespace PreparedCache
variable (cache : PreparedCache)

def new (capacity : Nat) (h : 0 < capacity) : PreparedCache := ⟨capacity, [], 0, h⟩

def trim : PreparedCache :=
  { cache with entries := CacheEntries.trim cache.capacity cache.entries.length cache.entries }

def nextUse : PreparedCache :=
  { cache with useCounter := saturatingAdd cache.useCounter 1 }

def put (query : Bytes) (outcome : PrepareOutcome) : PreparedCache :=
  { cache with entries := CacheEntries.put cache.entries query ⟨outcome, cache.useCounter⟩ }

def getOutcome (query : Bytes) : Option PrepareOutcome × PreparedCache :=
  let query := normalizePreparedQuery query
  let cache := cache.nextUse
  match CacheEntries.outcome cache.entries query with
  | none => (none, cache)
  | some outcome => (some outcome, cache.put query outcome)

def get (query : Bytes) : Option PreparedEntry × PreparedCache :=
  match cache.getOutcome query with
  | (some (.prepared entry), cache) => (some entry, cache)
  | (_, cache) => (none, cache)

def prepareDecision (query : Bytes) (threshold : Nat)
    (request : PrepareRequest) : PrepareDecision × PreparedCache :=
  let query := normalizePreparedQuery query
  let cache := cache.nextUse
  match CacheEntries.outcome cache.entries query with
  | some (.prepared entry) =>
    (.outcome (.prepared entry) true, cache.put query (.prepared entry))
  | some (.literal diagnostic) =>
    (.outcome (.literal diagnostic) true, cache.put query (.literal diagnostic))
  | some (.deferred executions) =>
    let counted := saturatingAdd executions 1
    match request with
    | .declare =>
      (.outcome (.deferred executions) true, cache.put query (.deferred executions))
    | .execute =>
      if threshold = 0 ∨ counted < threshold then
        (.outcome (.deferred counted) true, cache.put query (.deferred counted))
      else (.prepare, { cache with entries := CacheEntries.remove cache.entries query })
    | .force => (.prepare, { cache with entries := CacheEntries.remove cache.entries query })
  | none =>
    if request ≠ .force ∧ threshold ≠ 1 then
      let executions := if request = .execute then 1 else 0
      (.outcome (.deferred executions) false, (cache.put query (.deferred executions)).trim)
    else (.prepare, cache)

def insert (query : Bytes) (candidate : PreparedEntry) : PreparedEntry × PreparedCache :=
  let query := normalizePreparedQuery query
  match cache.getOutcome query with
  | (some (.prepared existing), cache) => (existing, cache)
  | (_, cache) => (candidate, (cache.nextUse.put query (.prepared candidate)).trim)

def insertLiteral (query : Bytes) (candidate : AdbcError) : PrepareOutcome × PreparedCache :=
  let query := normalizePreparedQuery query
  match cache.getOutcome query with
  | (some (.prepared existing), cache) => (.prepared existing, cache)
  | (some (.literal existing), cache) => (.literal existing, cache)
  | (_, cache) => (.literal candidate, (cache.nextUse.put query (.literal candidate)).trim)

def replacePreparedWithLiteral (query : Bytes) (id : Nat)
    (candidate : AdbcError) : AdbcError × PreparedCache :=
  let query := normalizePreparedQuery query
  let replaced := (candidate, (cache.nextUse.put query (.literal candidate)).trim)
  match CacheEntries.outcome cache.entries query with
  | some (.literal fallback) => (fallback, cache)
  | some (.prepared entry) => if entry.id ≠ id then (candidate, cache) else replaced
  | _ => replaced

def removeIfId (query : Bytes) (id : Nat) : PreparedCache :=
  let query := normalizePreparedQuery query
  match CacheEntries.outcome cache.entries query with
  | some (.prepared entry) =>
    if entry.id = id then { cache with entries := CacheEntries.remove cache.entries query }
    else cache
  | _ => cache

def clear : PreparedCache := { cache with entries := [] }

def setCapacity (capacity : Nat) (h : 0 < capacity) : PreparedCache :=
  trim ⟨capacity, cache.entries, cache.useCounter, h⟩

end PreparedCache

end MonetdbAdbc.Driver
