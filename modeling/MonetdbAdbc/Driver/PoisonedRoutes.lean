import MonetdbAdbc.Driver.PoisonedBatch

namespace MonetdbAdbc.Driver
open LittleEndian Text Program Sql Machine

section Queries
variable {σ : Type} {w : World σ} {unpoisoned : Prop} {query : BoundQuery}
  {invocation : PreparedInvocation}

@[grind ←] theorem holding_completeSavepoint (savepoint : Option PreparedExecutionSavepoint) :
    Keeps (Holding w unpoisoned) (completePreparedExecutionSavepoint w.server savepoint) := by
  cases savepoint with
  | none => exact keeps_pure ()
  | some savepoint => exact keeps_onlyIf fun _ => by grind

@[grind ←] theorem holding_rollbackSavepoint (savepoint : Option PreparedExecutionSavepoint) :
    Keeps (Holding w unpoisoned) (rollbackPreparedExecutionSavepoint w.server savepoint) := by
  unfold rollbackPreparedExecutionSavepoint
  grind

theorem holding_executeDemoted (hliteral : ∀ text, invocation.literalSql = some text →
      ¬unpoisoned → PlainRollbacks w.isAlphanumeric text)
    (savepoint : Option PreparedExecutionSavepoint) (diagnostic : AdbcError) :
    Keeps (Holding w unpoisoned)
      (executeDemoted w.server w.isAlphanumeric invocation savepoint diagnostic) := by
  have hdemote : Keeps (Holding w unpoisoned)
      (demotePreparedBoundQuery invocation diagnostic : Action σ Unit) :=
    keeps_bind (holding_steady.keeps_withCache _) fun _ c hc =>
      holding_steady.bookkeeping c _ _ _ hc
  have hrecover (value : AdbcError) : Keeps (Holding w unpoisoned)
      (recoverLiteral w.server savepoint value) := by
    grind [recoverLiteral]
  refine keeps_ofExcept_bind fun sql hsql => ?_
  obtain ⟨text, htext, h⟩ := bind_eq_ok.mp hsql
  obtain ⟨_, -, h⟩ := bind_eq_ok.mp h
  obtain rfl := Except.ok.inj h
  refine keeps_bind (keeps_attempt (holding_queryStatementResult
    (hliteral text (okOr_eq_ok.mp htext)))) fun result => ?_
  grind

theorem holding_executeProbe {sql : BoundSql}
    (hsql : ¬unpoisoned → PlainRollbacks w.isAlphanumeric sql.text)
    (hliteral : ∀ text, invocation.literalSql = some text →
      ¬unpoisoned → PlainRollbacks w.isAlphanumeric text) :
    Keeps (Holding w unpoisoned) (executeProbe w.server w.isAlphanumeric invocation sql) := by
  have hquiet : Quiet w.server (Holding w unpoisoned) := holding_steady.quiet
  have hbegin : Keeps (Holding w unpoisoned)
      (beginPreparedExecutionSavepoint w.server) := by
    have hname := hquiet.savepointName
    grind [beginPreparedExecutionSavepoint]
  have hmark (id : Nat) : Keeps (Holding w unpoisoned)
      (markVerified id : Action σ Unit) :=
    holding_steady.keeps_markVerified id
  have hdemoted := holding_executeDemoted hliteral
  refine keeps_bind hbegin fun savepoint => ?_
  refine keeps_bind (keeps_attempt (holding_queryStatementResult hsql)) fun result => ?_
  grind [recoverRemote]

theorem holding_executeUnverified
    (hquery : query.All fun text => ¬unpoisoned → PlainRollbacks w.isAlphanumeric text) :
    Keeps (Holding w unpoisoned)
      (executeUnverifiedPreparedResult w.server w.isAlphanumeric query) := by
  unfold executeUnverifiedPreparedResult
  cases hprepared : query.prepared with
  | none => exact keeps_fail _
  | some invocation =>
    have hliteral := hquery.literal invocation hprepared
    refine keeps_bind (by grind [inModifiedTransaction]) fun modified => ?_
    split_ifs
    · exact keeps_ofExcept_bind fun text htext =>
        holding_queryStatementResult (hliteral text (okOr_eq_ok.mp htext))
    · exact holding_executeProbe hquery.sql hliteral

theorem holding_boundQueryReader
    (hquery : query.All fun text => ¬unpoisoned → PlainRollbacks w.isAlphanumeric text) :
    Keeps (Holding w unpoisoned) (boundQueryReaderWithRetry w.server w.isAlphanumeric query) := by
  refine keeps_result (holding_currentBoundQuery query) (fun c _ h => hquery.current h)
    fun current hcurrent => ?_
  have hresult : Keeps (Holding w unpoisoned)
      (boundQueryResult w.server w.isAlphanumeric current) := by
    refine keeps_bind keeps_read fun c => ?_
    split_ifs
    · exact holding_executeUnverified hcurrent
    · exact holding_queryStatementResult hcurrent.sql
  refine keeps_bind (keeps_attempt hresult) fun result => ?_
  cases result with
  | ok result => exact keeps_pure result
  | error value =>
    dsimp only
    unfold retryMissing
    split_ifs
    · refine keeps_bind (keeps_serverAutocommit w.server) fun autocommit => ?_
      split_ifs
      · exact keeps_result (holding_retryBoundQuery current) (fun c _ h => hcurrent.retry h)
          fun retry hall => holding_queryStatementResult hall.sql
      · exact keeps_fail value
    · exact keeps_fail value

end Queries

section Ingest
variable {σ : Type} {server : Server σ} {I : Connection σ → Prop} (h : Steady server I)
  (hingest : ∀ step, Keeps I (send server (.ingest step))) (describe : AppendReason → String)
include h

@[grind ←] theorem keeps_alignedNames (request : IngestRequest) :
    Keeps I (alignedNames server describe request) := by
  grind [alignedNames, appendTableColumns, appendResult]

@[grind ←] theorem keeps_prepareInsertForm (target : String) (names : List String) :
    Keeps I (prepareInsertForm server target names) := by
  grind [prepareInsertForm]

@[grind ←] theorem keeps_alternativeForm (request : IngestRequest) (target : String)
    (refused : AdbcError) : Keeps I (alternativeForm server describe request target refused) := by
  grind [alternativeForm]

@[grind ←] theorem keeps_insertEntry (request : IngestRequest) (target : String) :
    Keeps I (insertEntry server describe request target) := by
  grind [insertEntry]

theorem keeps_clearPreparedCache : Keeps I (clearPreparedCache : Action σ Unit) :=
  h.keeps_withCache _

@[grind ←] theorem keeps_ingestTemporaryState (request : IngestRequest) :
    Keeps I (ingestTemporaryState server request) := by
  grind [ingestTemporaryState]

@[grind ←] theorem keeps_appendsToExisting (request : IngestRequest) :
    Keeps I (appendsToExisting server request) := by
  grind [appendsToExisting, tableFlags]

@[grind ←] theorem keeps_constraintState (request : IngestRequest)
    (candidate : Option InsertCandidate) (existing : Bool) :
    Keeps I (constraintState server request candidate existing) := by
  grind [constraintState, tableFlags]

include hingest

omit h in
@[grind ←] theorem keeps_executeIngestTargetMode (mode : IngestMode) :
    Keeps I (executeIngestTargetMode server mode) := by
  unfold executeIngestTargetMode
  grind

omit h in
@[grind ←] theorem keeps_copyWindow (window : IngestWindow) : Keeps I (copyWindow server window) := by
  grind [copyWindow]

omit h in
@[grind ←] theorem keeps_uploadWindows (staged : Bool)
    (windows : List (Except AdbcError IngestWindow)) (rows : Int) (progress : IngestProgress) :
    Keeps I (uploadWindows server staged windows rows progress) := by
  fun_induction uploadWindows with grind

omit h in
@[grind ←] theorem keeps_finishUpload (source : IngestSource) (staged : Bool)
    (uploaded : Except AdbcError Int) : Keeps I (finishUpload server source staged uploaded) := by
  have hmove (rows : Int) : Keeps I (moveStaged server source rows) := by grind [moveStaged]
  grind [finishUpload]

omit h in
@[grind ←] theorem keeps_prepareStage (staged : Bool) (destination : Option (List String)) :
    Keeps I (prepareStage server staged destination) := by
  unfold prepareStage
  grind

@[grind ←] theorem keeps_copyRows (request : IngestRequest) (staged : Bool) :
    Keeps I (copyRows server describe request staged) := by
  have htarget : Keeps I (prepareIngestTarget server describe request) := by
    grind [prepareIngestTarget]
  refine keeps_bind (keeps_attempt htarget) fun prepared => ?_
  split
  · exact keeps_pure _
  · split
    · exact keeps_pure _
    · refine keeps_bind (keeps_attempt (keeps_prepareStage hingest staged _)) fun _ => ?_
      grind

theorem keeps_insertRows (request : IngestRequest) (target : String) {candidate : InsertCandidate}
    (hinserts : ∀ id, Keeps I (send server
      (.script (candidate.arguments.map fun arguments => .execute id arguments)))) :
    Keeps I (insertRows server describe request target candidate) := by
  have hprepared : Keeps I (preparedInsert server describe request target) := by
    grind [preparedInsert, checkInsertSchema, appendResult]
  have hsend (entry : PreparedEntry) : Keeps I (sendInserts server candidate entry) := by
    have hbatch := hinserts entry.id
    simp only [sendInserts, executeUpdateBatch, List.map_map, Function.comp_def]
    grind
  grind [insertRows]

end Ingest

section Scopes
variable {σ : Type} {w : World σ} {unpoisoned : Prop} (describe : AppendReason → String)

theorem ingestRoute_guarded (request : IngestRequest) (target : String)
    {candidate : Option InsertCandidate} (staged : Bool) (scope : AtomicScope)
    (hcandidate : ¬unpoisoned → ∀ inserts, candidate = some inserts → ∀ arguments ∈ inserts.arguments,
      LiteralArguments w.isAlphanumeric arguments) :
    Spec (Holding w (unpoisoned ∨ scope = .autocommit))
      (ingestRoute w.server describe request target candidate staged scope)
      (fun _ => Guarded w) (Guarded w) := by
  have hsteady : Steady w.server (Holding w (unpoisoned ∨ scope = .autocommit)) :=
    holding_steady
  have hscope : Steady w.server (InScope w unpoisoned scope) :=
    inScope_steady scope
  have hingest (step : IngestStep) : Keeps (Holding w
      (unpoisoned ∨ scope = .autocommit)) (send w.server (.ingest step)) :=
    keeps_send fun _ => rfl
  have hend {m : Action σ (Option Int)} (h : Keeps (InScope w unpoisoned scope) m) :
      Spec (Holding w (unpoisoned ∨ scope = .autocommit)) m
        (fun _ => Guarded w) (Guarded w) :=
    (h.spec fun _ hc => hc.guarded).conseq (fun _ hc => hc.inScope) (fun _ _ hc => hc.guarded)
      fun _ hc => hc
  refine Spec.bind ((keeps_onlyIf fun _ => keeps_clearPreparedCache hsteady).spec
    fun _ hc => hc.toGuarded) fun _ => ?_
  cases candidate with
  | some inserts =>
    have hinserts : Keeps (Holding w (unpoisoned ∨ scope = .autocommit))
        (insertRows w.server describe request target inserts) := by
      refine keeps_insertRows hsteady hingest describe request target fun id =>
        keeps_send fun hpoisoned => commits_eq_false rfl (script_uncommitted ?_).keeps
      intro text hmem
      rw [List.map_map] at hmem
      obtain ⟨arguments, harguments, rfl⟩ := List.mem_map.mp hmem
      exact execute_batchRow (hcandidate (fun hshut => hpoisoned (.inl hshut)) inserts rfl arguments
        harguments) id
    refine Spec.bind (hinserts.spec fun _ hc => hc.toGuarded) fun inserted => hend ?_
    refine keeps_bind (keeps_onlyIf fun hfailed => inScope_poison hfailed.2.1 _) fun _ => ?_
    exact keeps_bind (keeps_attempt (inScope_finishAtomic scope _)) fun _ =>
      keeps_bind (keeps_onlyIf fun _ => keeps_clearPreparedCache hscope) fun _ => keeps_ofExcept _
  | none =>
    refine Spec.bind ((keeps_copyRows hsteady hingest describe request staged).spec
      fun _ hc => hc.toGuarded) fun copied => hend ?_
    refine keeps_bind (keeps_attempt (inScope_finishAtomic scope _)) fun _ => ?_
    refine keeps_bind (keeps_onlyIf fun hfailed => inScope_poison hfailed.2.2.1 _) fun _ => ?_
    exact keeps_bind (keeps_onlyIf fun _ => keeps_clearPreparedCache hscope) fun _ => keeps_ofExcept _

theorem ingest_guarded (request : IngestRequest) (priorWrites : Bool)
    (hcandidate : ¬unpoisoned → ∀ inserts, request.candidate = .ok (some inserts) →
      ∀ arguments ∈ inserts.arguments, LiteralArguments w.isAlphanumeric arguments) :
    Spec (Holding w unpoisoned) (ingest w.server describe request priorWrites)
      (fun _ => Guarded w) (Guarded w) := by
  have hsteady : Steady w.server (Holding w unpoisoned) := holding_steady
  have hguarded (c : Connection σ) (hc : Holding w unpoisoned c) :
    Guarded w c := hc.toGuarded
  refine Spec.bind ((keeps_onlyIf fun _ => keeps_clearPreparedCache hsteady).spec hguarded) fun _ => ?_
  refine Spec.bind ((keeps_ofExcept _).spec hguarded) fun target => ?_
  refine Spec.bind (Spec.ofExcept (fun candidate hok c hc => ⟨hok, hc⟩) hguarded) fun candidate =>
    Spec.assume fun hok => ?_
  refine Spec.bind ((keeps_ingestTemporaryState hsteady request).spec hguarded) fun temporary => ?_
  refine Spec.bind (Keeps.spec (by unfold refuseTransientAppend; grind) hguarded) fun _ => ?_
  refine Spec.bind ((keeps_appendsToExisting hsteady request).spec hguarded) fun existing => ?_
  refine Spec.bind ((keeps_constraintState hsteady request candidate existing).spec hguarded)
    fun constraints => ?_
  refine Spec.bind (Keeps.spec (by unfold refuseDirtySavepoint; grind) hguarded) fun _ => ?_
  refine Spec.bind (beginAtomic_scope _ _ _ _) fun scope => ?_
  exact ingestRoute_guarded describe request target _ scope fun hpoisoned inserts hinserts =>
    hcandidate hpoisoned inserts (hok.trans (congrArg _ hinserts))

end Scopes

end MonetdbAdbc.Driver
