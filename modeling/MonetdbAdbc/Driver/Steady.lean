import MonetdbAdbc.Driver.Atomic
import MonetdbAdbc.Driver.CacheLru

namespace MonetdbAdbc.Driver
open LittleEndian Text Program Sql Machine

def Command.isControl : Command → Bool
  | .commit | .rollback | .setAutocommit _ => true
  | _ => false

@[grind] def Command.isProbe : Command → Bool
  | .prepare _ | .deallocate _ | .savepoint _ | .rollbackTo _ | .release _ | .catalog _ => true
  | _ => false

structure Quiet {σ : Type} (server : Server σ) (I : Connection σ → Prop) : Prop where
  probe : ∀ command, command.isProbe = true → Keeps I (send server command)
  savepointName : ∀ purpose, Keeps I (savepointName purpose : Action σ SavepointName)

structure Steady {σ : Type} (server : Server σ) (I : Connection σ → Prop) : Prop where
  probe : ∀ command, command.isProbe = true → Keeps I (send server command)
  bookkeeping : ∀ c savepointId cache flags, I c →
    I { c with savepointId := savepointId, cache := cache, flags := flags }

section Reading
variable {σ : Type} {I : Connection σ → Prop}

theorem keeps_of_state {α : Type} {m : Action σ α} (h : ∀ c, (m c).2 = c) : Keeps I m := by
  intro c hc
  rw [h c]
  exact hc

theorem keeps_poisonIfCaller {scope : AtomicScope} (h : scope = .callerTransaction →
      ∀ reason, Keeps I (poisonTransaction reason : Action σ Unit)) :
    Keeps I (poisonIfCaller scope : Action σ Unit) := by
  cases scope with
  | callerTransaction => exact h rfl _
  | autocommit | savepoint name retain => exact keeps_pure ()

theorem keeps_poisonOnError {α : Type} {scope : AtomicScope} (h : scope = .callerTransaction →
      ∀ reason, Keeps I (poisonTransaction reason : Action σ Unit)) (result : Except AdbcError α) :
    Keeps I (poisonOnError scope result : Action σ Unit) := by
  cases result with
  | ok value => exact keeps_pure ()
  | error error => exact keeps_poisonIfCaller h

@[grind ←] theorem keeps_unit {α : Type} {m : Action σ α} (h : Keeps I m) : Keeps I (unit m) :=
  keeps_bind h fun _ => keeps_pure ()

theorem serverAutocommit_state (server : Server σ) (c : Connection σ) :
    (serverAutocommit server c).2 = c := rfl

@[grind ←] theorem keeps_serverAutocommit (server : Server σ) : Keeps I (serverAutocommit server) :=
  keeps_of_state (serverAutocommit_state server)

theorem nextQuery_state (stream : BoundQueryStream) (c : Connection σ) :
    (nextQuery stream c).2 = c := by
  simp only [nextQuery]
  rcases stream.next c with ⟨_ | _ | _, _⟩ <;> rfl

theorem streamIsEmpty_state (stream : BoundQueryStream) (c : Connection σ) :
    (streamIsEmpty stream c).2 = c := by
  have hnext := nextQuery_state stream c
  rcases hq : nextQuery stream c with ⟨_ | ⟨_ | _, _⟩, c'⟩ <;> rw [hq] at hnext <;> subst hnext
  · rw [streamIsEmpty, bind_of_error hq]
  · rw [streamIsEmpty, bind_of_ok hq]
    rfl
  · rw [streamIsEmpty, bind_of_ok hq]
    rfl

theorem fillBatch_state (room : Nat) (stream : BoundQueryStream) (batch : List BoundQuery)
    (sqlBytes : Nat) (c : Connection σ) : (fillBatch room stream batch sqlBytes c).2 = c := by
  induction room generalizing stream batch sqlBytes with
  | zero => rfl
  | succ room ih =>
    have hnext := nextQuery_state stream c
    rcases hq : nextQuery stream c with ⟨_ | ⟨_ | query, rest⟩, c'⟩ <;> rw [hq] at hnext <;>
      subst hnext
    · rw [fillBatch, bind_of_error hq]
    · rw [fillBatch, bind_of_ok hq]
      rfl
    · rw [fillBatch, bind_of_ok hq]
      dsimp only
      split_ifs
      · rfl
      · exact ih _ _ _

theorem collectBatch_state (stream : BoundQueryStream) (pending : Option BoundQuery)
    (c : Connection σ) : (collectBatch stream pending c).2 = c := by
  cases pending with
  | none | some query => exact fillBatch_state _ _ _ _ c

theorem nextQuery_cases {stream rest : BoundQueryStream} {found : Option BoundQuery} {c : Connection σ}
    (h : (nextQuery stream c).1 = .ok (found, rest)) :
    (found = none ∧ rest = stream ∧ stream.size = 0) ∨ ∃ query, found = some query ∧
      rest.prepared = stream.prepared ∧
      (stream.pending = query :: rest.pending ∧ stream.items = rest.items ∨
        ∃ row, stream.pending = [] ∧ rest.pending = [] ∧ stream.items = .row row :: rest.items ∧
          renderRow c stream row = .ok query) := by
  obtain ⟨items, prepared, fallback, pending⟩ := stream
  cases pending with
  | cons query pending =>
    cases h
    exact .inr ⟨query, rfl, rfl, .inl ⟨rfl, rfl⟩⟩
  | nil =>
    rcases items with _ | ⟨row | error, items⟩
    · cases h
      exact .inl ⟨rfl, rfl, rfl⟩
    · simp only [nextQuery, BoundQueryStream.next] at h
      cases hrender : renderRow c ⟨.row row :: items, prepared, fallback, []⟩ row with
      | error error =>
        rw [hrender] at h
        cases h
      | ok query =>
        rw [hrender] at h
        cases h
        exact .inr ⟨query, rfl, rfl, .inr ⟨row, rfl, rfl, rfl, hrender⟩⟩
    · cases h

section Yields
variable {K : BoundQueryStream → Prop} {R : BoundQuery → Prop} {c : Connection σ}
  (hnext : ∀ {stream rest found}, K stream → (nextQuery stream c).1 = .ok (found, rest) →
    K rest ∧ ∀ query ∈ found, R query)
  {stream rest : BoundQueryStream} {out : List BoundQuery} {left : Option BoundQuery}
include hnext

theorem fillBatch_yields {room sqlBytes : Nat} {batch : List BoundQuery} (hstream : K stream)
    (h : (fillBatch room stream batch sqlBytes c).1 = .ok (out, left, rest)) :
    (∃ queries, out = batch ++ queries ∧ ∀ query ∈ queries, R query) ∧
      (∀ query ∈ left, R query) ∧ K rest := by
  induction room generalizing stream batch sqlBytes with
  | zero =>
    obtain ⟨rfl, rfl, rfl⟩ : batch = out ∧ none = left ∧ stream = rest := by
      simpa using Except.ok.inj h
    exact ⟨⟨[], by simp⟩, by simp, hstream⟩
  | succ room ih =>
    obtain ⟨⟨found, later⟩, d, hfound, h⟩ := bind_result h
    have hsame := nextQuery_state stream c
    rw [hfound] at hsame
    obtain rfl : d = c := hsame
    obtain ⟨hlater, hqueries⟩ := hnext hstream (by rw [hfound])
    cases found with
    | none =>
      obtain ⟨rfl, rfl, rfl⟩ : batch = out ∧ none = left ∧ later = rest := by
        simpa using Except.ok.inj h
      exact ⟨⟨[], by simp⟩, by simp, hlater⟩
    | some query =>
      dsimp only at h
      split_ifs at h
      · obtain ⟨rfl, rfl, rfl⟩ : batch = out ∧ some query = left ∧ later = rest := by
          simpa using Except.ok.inj h
        exact ⟨⟨[], by simp⟩, hqueries, hlater⟩
      · obtain ⟨⟨queries, rfl, hmore⟩, hend⟩ := ih hlater h
        exact ⟨⟨query :: queries, by simp, List.forall_mem_cons.mpr ⟨hqueries query rfl, hmore⟩⟩, hend⟩

theorem collectBatch_yields {pending : Option BoundQuery} (hstream : K stream)
    (hpending : ∀ query ∈ pending, R query)
    (h : (collectBatch stream pending c).1 = .ok (out, left, rest)) :
    (∀ query ∈ out, R query) ∧ (∀ query ∈ left, R query) ∧ K rest := by
  cases pending with
  | none =>
    obtain ⟨⟨queries, rfl, hqueries⟩, hend⟩ := fillBatch_yields hnext hstream h
    exact ⟨hqueries, hend⟩
  | some query =>
    obtain ⟨⟨queries, rfl, hqueries⟩, hend⟩ := fillBatch_yields hnext hstream h
    exact ⟨List.forall_mem_cons.mpr ⟨hpending query rfl, hqueries⟩, hend⟩

end Yields

end Reading

theorem Steady.and {σ : Type} {server : Server σ} {I J : Connection σ → Prop}
    (hi : Steady server I) (hj : Steady server J) : Steady server fun c => I c ∧ J c where
  probe command hprobe := keeps_and (hi.probe command hprobe) (hj.probe command hprobe)
  bookkeeping c savepointId cache flags hc :=
    ⟨hi.bookkeeping c savepointId cache flags hc.1, hj.bookkeeping c savepointId cache flags hc.2⟩

namespace Quiet
variable {σ : Type} {server : Server σ} {I : Connection σ → Prop} (h : Quiet server I)
include h

@[grind ←] theorem keeps_probe {command : Command} (hprobe : command.isProbe = true) :
    Keeps I (send server command) :=
  h.probe command hprobe

theorem keeps_send {command : Command} (hprobe : command.isProbe = true) :
    Keeps I (unit (send server command)) :=
  keeps_unit (h.probe command hprobe)

theorem keeps_beginProbe (autocommit : Bool) : Keeps I (beginProbe server autocommit) := by
  cases autocommit with
  | true => exact keeps_pure none
  | false =>
    exact keeps_bind (h.savepointName _) fun name =>
      keeps_bind (h.keeps_send rfl) fun _ => keeps_pure _

theorem keeps_recoverProbe (savepoint : Option SavepointName) (root : AdbcError) :
    Keeps I (recoverProbe server savepoint root) := by
  cases savepoint with
  | none => exact keeps_fail root
  | some name =>
    refine keeps_bind (keeps_attempt ?_) fun _ => keeps_ofExcept _
    exact keeps_bind (h.keeps_send rfl) fun _ => h.keeps_send rfl

theorem keeps_parsePrepared (reply : Reply) : Keeps I (parsePrepared server reply) := by
  refine keeps_bind (keeps_ofExcept _) fun shape => ?_
  split_ifs
  · exact keeps_bind (h.probe _ rfl) fun _ => keeps_ofExcept _
  · exact keeps_pure _

theorem keeps_discardUnreadable (id : Nat) (parsed : Except AdbcError (List Field × List Field)) :
    Keeps I (discardUnreadable server id parsed) := by
  cases parsed with
  | ok shape => exact keeps_pure ()
  | error error => exact keeps_unit (keeps_attempt (h.probe _ rfl))

theorem keeps_releaseProbe (savepoint : Option SavepointName) :
    Keeps I (releaseProbe server savepoint) := by
  cases savepoint with
  | none => exact keeps_pure ()
  | some name => exact h.keeps_send rfl

theorem keeps_finishProbe (savepoint : Option SavepointName) (reply : Reply) :
    Keeps I (finishProbe server savepoint reply) := by
  unfold finishProbe
  cases reply.preparedId with
  | none => exact keeps_fail _
  | some id =>
    refine keeps_bind (keeps_attempt (h.keeps_parsePrepared reply)) fun parsed => ?_
    refine keeps_bind (h.keeps_discardUnreadable id parsed) fun _ => ?_
    exact keeps_bind (keeps_attempt (h.keeps_releaseProbe savepoint)) fun _ => keeps_ofExcept _

@[grind ←] theorem keeps_prepareQuery (query : Bytes) : Keeps I (prepareQuery server query) := by
  refine keeps_bind (keeps_serverAutocommit server) fun autocommit => ?_
  refine keeps_bind (h.keeps_beginProbe autocommit) fun savepoint => ?_
  refine keeps_bind (keeps_attempt (h.probe _ rfl)) fun result => ?_
  cases result with
  | error root => exact h.keeps_recoverProbe savepoint root
  | ok reply => exact h.keeps_finishProbe savepoint reply

@[grind ←] theorem keeps_temporaryTableState (table : Option String) :
    Keeps I (temporaryTableState server table) :=
  keeps_bind (h.probe _ rfl) fun _ => keeps_ofExcept _

theorem keeps_retainSavepoint (temporaryExists : Option Bool) :
    Keeps I (retainSavepoint server temporaryExists) := by
  cases temporaryExists with
  | some temporary => exact keeps_pure temporary
  | none => exact keeps_bind (h.keeps_temporaryTableState none) fun _ => keeps_pure _

theorem keeps_beginAtomic
    (hcontrol : ∀ command, command.isControl = true → Keeps I (send server command))
    (purpose : String) (callerScope : CallerTransactionScope) (priorWrites : Bool)
    (temporaryExists : Option Bool) :
    Keeps I (beginAtomic server purpose callerScope priorWrites temporaryExists) := by
  refine keeps_bind (keeps_serverAutocommit server) fun autocommit => ?_
  split_ifs
  · exact keeps_bind (keeps_unit (hcontrol _ rfl)) fun _ => keeps_pure _
  · exact keeps_pure _
  · refine keeps_bind (h.keeps_retainSavepoint _) fun retain => ?_
    refine keeps_bind (h.savepointName _) fun name => ?_
    exact keeps_bind (h.keeps_send rfl) fun _ => keeps_pure _

section Scopes
variable {scope : AtomicScope} (hcontrol : scope = .autocommit → ∀ command,
  command.isControl = true → Keeps I (send server command))
include hcontrol

theorem keeps_finalizeScope : Keeps I (finalizeScope server scope) := by
  cases scope with
  | autocommit => exact keeps_unit (hcontrol rfl _ rfl)
  | callerTransaction => exact keeps_pure ()
  | savepoint name retain =>
    cases retain with
    | true => exact keeps_pure ()
    | false => exact h.keeps_send rfl

theorem keeps_recoverScope : Keeps I (recoverScope server scope) := by
  cases scope with
  | autocommit => exact keeps_unit (hcontrol rfl _ rfl)
  | callerTransaction => exact keeps_pure ()
  | savepoint name retain =>
    refine keeps_bind (h.keeps_send rfl) fun _ => ?_
    split_ifs
    · exact keeps_pure ()
    · exact h.keeps_send rfl

theorem keeps_settleScope {α : Type} (operation : Except AdbcError α) :
    Keeps I (settleScope server scope operation) := by
  have hrecover := keeps_attempt (h.keeps_recoverScope hcontrol)
  cases operation with
  | error root => exact keeps_bind hrecover fun _ => keeps_pure _
  | ok value =>
    refine keeps_bind (keeps_attempt (h.keeps_finalizeScope hcontrol)) fun finalized => ?_
    cases finalized with
    | ok _ => exact keeps_pure _
    | error root => exact keeps_bind hrecover fun _ => keeps_pure _

theorem keeps_finishAtomic {α : Type} (operation : Except AdbcError α) :
    Keeps I (finishAtomic server scope operation) := by
  refine keeps_bind (h.keeps_settleScope hcontrol operation) fun settled => ?_
  cases scope with
  | autocommit =>
    exact keeps_bind (keeps_attempt (keeps_unit (hcontrol rfl _ rfl))) fun _ => keeps_ofExcept _
  | callerTransaction | savepoint name retain => exact keeps_ofExcept _

end Scopes

end Quiet

inductive PrepareOutcomeCalls (query : Bytes) : CacheCall → Prop
  | decision (threshold : Nat) (request : PrepareRequest) :
    PrepareOutcomeCalls query (.prepareDecision (normalizePreparedQuery query) threshold request)
  | insert (candidate : PreparedEntry) :
    PrepareOutcomeCalls query (.insert (normalizePreparedQuery query) candidate)
  | insertLiteral (candidate : AdbcError) :
    PrepareOutcomeCalls query (.insertLiteral (normalizePreparedQuery query) candidate)

inductive PrepareCachedCalls (query : Bytes) : CacheCall → Prop
  | get : PrepareCachedCalls query (.get (normalizePreparedQuery query))
  | insert (candidate : PreparedEntry) :
    PrepareCachedCalls query (.insert (normalizePreparedQuery query) candidate)

inductive PlanCalls (query : Bytes) : CacheCall → Prop
  | current : PlanCalls query (.get query)
  | remove (id : Nat) : PlanCalls query (.removeIfId query id)
  | replace (id : Nat) (candidate : AdbcError) :
    PlanCalls query (.replacePreparedWithLiteral query id candidate)
  | prepare {call : CacheCall} (h : PrepareCachedCalls query call) : PlanCalls query call

-- The cache calls that keep the invariant are those of P.
structure Calling {σ : Type} (server : Server σ) (P : CacheCall → Prop) (I : Connection σ → Prop) :
    Prop extends Quiet server I where
  withCache : ∀ {α : Type} (f : PreparedCache → α × PreparedCache) (call : CacheCall), P call →
    (∀ cache, (f cache).2 = call.apply cache) → Keeps I (withCache f : Action σ α)
  setFlags : ∀ id flags, Keeps I (setFlags id flags : Action σ Unit)

namespace Calling
variable {σ : Type} {server : Server σ} {P : CacheCall → Prop} {I : Connection σ → Prop}
  (h : Calling server P I) (hinstall : ∀ slot entry, Keeps I (installSlot slot entry))
include h

theorem keeps_newEntry (query : Bytes) (metadata : Nat × List Field × List Field) :
    Keeps I (newEntry query metadata : Action σ PreparedEntry) :=
  keeps_bind (h.setFlags _ _) fun _ => keeps_pure _

theorem keeps_prepareCachedWithStatus {query : Bytes}
    (hcalls : ∀ call, PrepareCachedCalls query call → P call) :
    Keeps I (prepareCachedWithStatus server query) := by
  refine keeps_bind (h.withCache _ _ (hcalls _ .get) fun _ => rfl) fun cached => ?_
  cases cached with
  | some entry => exact keeps_pure _
  | none =>
    refine keeps_bind (h.keeps_prepareQuery _) fun metadata => ?_
    refine keeps_bind (h.keeps_newEntry _ _) fun candidate => ?_
    exact keeps_bind (h.withCache _ _ (hcalls _ (.insert candidate)) fun _ => rfl) fun _ => keeps_pure _

theorem keeps_prepareCached {query : Bytes} (hcalls : ∀ call, PrepareCachedCalls query call → P call) :
    Keeps I (prepareCached server query) :=
  keeps_bind (h.keeps_prepareCachedWithStatus hcalls) fun _ => keeps_pure _

theorem keeps_prepareOutcomeCached {query : Bytes} (threshold : Nat) (request : PrepareRequest)
    (hcalls : ∀ call, PrepareOutcomeCalls query call → P call) :
    Keeps I (prepareOutcomeCached server query threshold request) := by
  refine keeps_bind (h.withCache _ _ (hcalls _ (.decision threshold request)) fun _ => rfl)
    fun decision => ?_
  cases decision with
  | outcome outcome cacheHit => exact keeps_pure _
  | prepare =>
    refine keeps_bind (keeps_attempt (h.keeps_prepareQuery _)) fun result => ?_
    cases result with
    | ok metadata =>
      exact keeps_bind (h.keeps_newEntry _ _) fun candidate =>
        keeps_bind (h.withCache _ _ (hcalls _ (.insert candidate)) fun _ => rfl) fun _ => keeps_pure _
    | error diagnostic =>
      dsimp only
      split_ifs
      · exact keeps_fail _
      · exact keeps_bind (h.withCache _ _ (hcalls _ (.insertLiteral diagnostic)) fun _ => rfl)
          fun _ => keeps_pure _
      · exact keeps_fail _

theorem keeps_refreshedEntry {plan : PreparedPlan} (hcalls : ∀ call, PlanCalls plan.query call → P call) :
    Keeps I (refreshedEntry server plan) := by
  refine keeps_bind (h.withCache _ _ (hcalls _ .current) fun _ => rfl) fun cached => ?_
  cases cached with
  | some entry => exact keeps_pure entry
  | none => exact h.keeps_prepareCached fun call hcall => hcalls call (.prepare hcall)

include hinstall

theorem keeps_replacedEntry {invocation : PreparedInvocation}
    (hcalls : ∀ call, PlanCalls invocation.plan.query call → P call) :
    Keeps I (replacedEntry server invocation) := by
  refine keeps_bind keeps_read fun c => ?_
  split_ifs
  · exact keeps_pure _
  · refine keeps_bind (h.withCache _ _ (hcalls _ (.remove _)) fun _ => rfl) fun _ => ?_
    refine keeps_bind (h.keeps_prepareCached fun call hcall => hcalls call (.prepare hcall))
      fun refreshed => ?_
    refine keeps_bind keeps_read fun c => ?_
    split_ifs
    · exact keeps_bind (hinstall _ _) fun _ => keeps_pure _
    · exact keeps_pure _

variable {query : BoundQuery} (hcalls : ∀ invocation, query.prepared = some invocation →
  ∀ call, PlanCalls invocation.plan.query call → P call)
include hcalls

theorem keeps_currentBoundQuery : Keeps I (currentBoundQuery server query) := by
  unfold currentBoundQuery
  cases hprepared : query.prepared with
  | none => exact keeps_pure query
  | some invocation =>
    refine keeps_bind keeps_read fun c => ?_
    cases (c.flags invocation.entry.id).literalFallback with
    | some fallback =>
      cases invocation.literalSql with
      | none => exact keeps_fail _
      | some sql => exact keeps_pure _
    | none =>
      refine keeps_bind (h.keeps_refreshedEntry (hcalls invocation hprepared)) fun entry => ?_
      exact keeps_bind (keeps_onlyIf fun _ => hinstall _ _) fun _ => keeps_pure _

theorem keeps_retryBoundQuery : Keeps I (retryBoundQuery server query) := by
  unfold retryBoundQuery
  cases hprepared : query.prepared with
  | none => exact keeps_fail _
  | some invocation =>
    refine keeps_bind (h.keeps_replacedEntry hinstall (hcalls invocation hprepared)) fun entry => ?_
    refine keeps_bind keeps_read fun c => ?_
    exact keeps_bind (keeps_onlyIf fun _ c hc => h.setFlags _ _ c hc) fun _ => keeps_pure _

end Calling

namespace Steady
variable {σ : Type} {server : Server σ} {I : Connection σ → Prop} (h : Steady server I)
include h

@[grind ←] theorem quiet : Quiet server I where
  probe := h.probe
  savepointName _ c hc := h.bookkeeping c _ _ _ hc

theorem keeps_withCache {α : Type} (f : PreparedCache → α × PreparedCache) :
    Keeps I (withCache f : Action σ α) :=
  fun c hc => h.bookkeeping c _ _ _ hc

theorem keeps_setFlags (id : Nat) (flags : EntryFlags) :
    Keeps I (setFlags id flags : Action σ Unit) :=
  fun c hc => h.bookkeeping c _ _ _ hc

theorem keeps_markVerified (id : Nat) : Keeps I (markVerified id : Action σ Unit) :=
  fun c hc => h.bookkeeping c _ _ _ hc

theorem calling : Calling server (fun _ => True) I where
  toQuiet := h.quiet
  withCache f _ _ _ := h.keeps_withCache f
  setFlags := h.keeps_setFlags

@[grind ←] theorem keeps_prepareCachedWithStatus (query : Bytes) :
    Keeps I (prepareCachedWithStatus server query) :=
  h.calling.keeps_prepareCachedWithStatus fun _ _ => trivial

@[grind ←] theorem keeps_prepareCached (query : Bytes) : Keeps I (prepareCached server query) :=
  h.calling.keeps_prepareCached fun _ _ => trivial

@[grind ←] theorem keeps_prepareOutcomeCached (query : Bytes) (threshold : Nat) (request : PrepareRequest) :
    Keeps I (prepareOutcomeCached server query threshold request) :=
  h.calling.keeps_prepareOutcomeCached threshold request fun _ _ => trivial

theorem keeps_refreshedEntry (plan : PreparedPlan) : Keeps I (refreshedEntry server plan) :=
  h.calling.keeps_refreshedEntry fun _ _ => trivial

variable (hinstall : ∀ slot entry, Keeps I (installSlot slot entry)) (query : BoundQuery)
include hinstall

theorem keeps_currentBoundQuery : Keeps I (currentBoundQuery server query) :=
  h.calling.keeps_currentBoundQuery hinstall fun _ _ _ _ => trivial

theorem keeps_retryBoundQuery : Keeps I (retryBoundQuery server query) :=
  h.calling.keeps_retryBoundQuery hinstall fun _ _ _ _ => trivial

end Steady

end MonetdbAdbc.Driver
