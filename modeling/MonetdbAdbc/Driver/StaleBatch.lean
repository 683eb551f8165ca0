import MonetdbAdbc.Driver.StalePlan

namespace MonetdbAdbc.Driver
open LittleEndian Text Program Sql Machine

section Accept
variable {σ : Type} (server : Server σ)

def acceptAttempt (priorWrites : Bool)
    (again : Option (BoundQuery → Action σ (AtomicScope × Reply))) (first : BoundQuery) :
    Action σ (AtomicScope × Reply) := do
  let first ← currentBoundQuery server first
  let scope ← beginAtomic server "parameter_batch" .savepoint priorWrites none
  match ← attempt (send server (.statement first.sql)) with
  | .ok reply => pure (scope, reply)
  | .error root =>
    poisonIfCaller scope
    let result ← attempt (finishAtomic server scope (.error root : Except AdbcError (Option Int)))
    match again, result with
    | some again, .error value =>
      if scope ≠ .callerTransaction ∧ first.prepared.isSome ∧ preparedStatementMissing root ∧
          value.message = root.message then do
        let retry ← retryBoundQuery server first
        again retry
      else fail value
    | none, .error value => fail value
    | _, .ok _ => fail root

def acceptFirst (priorWrites : Bool) (first : BoundQuery) : Action σ (AtomicScope × Reply) :=
  acceptAttempt server priorWrites (some (acceptAttempt server priorWrites none)) first

def finishRows (stream : BoundQueryStream) (accepted : AtomicScope × Reply) :
    Action σ (Option Int) := do
  let result ← attempt (executeRemaining server stream accepted.2)
  poisonOnError accepted.1 result
  finishAtomic server accepted.1 result

variable {server}

theorem combineError_error {α : Type} (root : AdbcError) (secondary : Except AdbcError Unit)
    (context : String) :
    ∃ e, combineError (.error root : Except AdbcError α) secondary context = .error e := by
  cases secondary with
  | ok _ => exact ⟨root, rfl⟩
  | error e => exact ⟨_, rfl⟩

theorem settleScope_error {α : Type} (scope : AtomicScope) (root : AdbcError) (c : Connection σ) :
    ∃ e, settleScope server scope (.error root : Except AdbcError α) c =
      (.ok (.error e), (recoverScope server scope c).2) := by
  obtain ⟨e, he⟩ := @combineError_error α root (recoverScope server scope c).1 "transaction recovery"
  exact ⟨e, by simp [settleScope, bind_apply, he]⟩

theorem finishAtomic_error {α : Type} (scope : AtomicScope) (root : AdbcError) (c : Connection σ) :
    ∃ e, (finishAtomic server scope (.error root : Except AdbcError α) c).1 = .error e := by
  obtain ⟨e, hsettled⟩ := @settleScope_error σ server α scope root c
  rw [finishAtomic, bind_of_ok hsettled]
  cases scope with
  | autocommit =>
    obtain ⟨e', he'⟩ := @combineError_error α e
      (unit (send server (.setAutocommit true)) (recoverScope server .autocommit c).2).1
      "restoring autocommit"
    exact ⟨e', by simp [bind_apply, he']⟩
  | callerTransaction | savepoint name retain => exact ⟨e, rfl⟩

theorem updateAttempt_eq (priorWrites : Bool) (stream : BoundQueryStream) (first : BoundQuery)
    (again : Option (BoundQuery → Action σ (AtomicScope × Reply))) :
    updateAttempt server priorWrites stream
        (again.map fun accept query => accept query >>= finishRows server stream) first =
      acceptAttempt server priorWrites again first >>= finishRows server stream := by
  simp only [updateAttempt, acceptAttempt, bind_bind]
  refine congrArg _ (funext fun current => congrArg _ (funext fun scope =>
    congrArg _ (funext fun sent => ?_)))
  cases sent with
  | ok reply => rfl
  | error root =>
    simp only [bind_bind]
    refine congrArg _ (funext fun _ => funext fun c => ?_)
    obtain ⟨value, hvalue⟩ := @finishAtomic_error σ server (Option Int) scope root c
    rw [bind_of_ok (attempt_apply _ c), bind_of_ok (attempt_apply _ c), hvalue]
    cases again with
    | none => rfl
    | some accept =>
      dsimp only [Option.map_some]
      split_ifs
      · rw [bind_bind]
      · rfl

theorem executeUpdatesAtomicFromFirst_eq (priorWrites : Bool) (stream : BoundQueryStream)
    (first : BoundQuery) :
    executeUpdatesAtomicFromFirst server priorWrites stream first true =
      acceptFirst server priorWrites first >>= finishRows server stream := by
  have hlast : updateAttempt server priorWrites stream none = fun query =>
      acceptAttempt server priorWrites none query >>= finishRows server stream :=
    funext fun query => updateAttempt_eq priorWrites stream query none
  rw [executeUpdatesAtomicFromFirst, hlast]
  exact updateAttempt_eq priorWrites stream first (some (acceptAttempt server priorWrites none))

end Accept

section Tracking
variable {σ : Type} {server : Server σ} {slot id : Nat} {base : List Event}

def TracksQuery (slot id : Nat) (base : List Event) (query : BoundQuery) (c : Connection σ) :
    Prop :=
  Tracked slot id base c ∧ Invokes slot c query

theorem tracksQuery_steady (query : BoundQuery) : Steady server (TracksQuery slot id base query) :=
  tracked_steady.and (invokes_steady query)

theorem tracksQuery_control (query : BoundQuery) (command : Command)
    (h : command.isControl = true) :
    Keeps (TracksQuery slot id base query) (send server command) :=
  keeps_and (tracked_control command h) fun _ hc => hc

theorem tracksQuery_poison (query : BoundQuery) (reason : String) :
    Keeps (TracksQuery slot id base query) (poisonTransaction reason : Action σ Unit) := by
  refine keeps_and (tracked_poison reason) fun c hc => ?_
  simp only [poisonTransaction, update_apply]
  cases c.transactionPoison with
  | some poison | none => exact hc

theorem tracksQuery_send (query : BoundQuery) :
    Keeps (TracksQuery slot id base query) (send server (.statement query.sql)) :=
  fun _ hc => ⟨hc.1.send hc.2.fresh.statement, hc.2⟩

theorem currentBoundQuery_tracks (query : BoundQuery) :
    Spec (TracksQuery slot id base query) (currentBoundQuery server query)
      (TracksQuery slot id base) (Tracked slot id base) :=
  (tracked_steady.keeps_currentBoundQuery tracked_install query).and_spec
    (currentBoundQuery_invokes query)

theorem retryBoundQuery_tracks (query : BoundQuery) :
    Spec (TracksQuery slot id base query) (retryBoundQuery server query)
      (TracksQuery slot id base) (Tracked slot id base) :=
  (tracked_steady.keeps_retryBoundQuery tracked_install query).and_spec
    (retryBoundQuery_invokes query)

theorem acceptAttempt_tracked (priorWrites : Bool)
    (again : Option (BoundQuery → Action σ (AtomicScope × Reply)))
    (hagain : ∀ accept ∈ again, ∀ query, Spec (TracksQuery slot id base query) (accept query)
      (fun _ => Tracked slot id base) (Tracked slot id base))
    (first : BoundQuery) :
    Spec (TracksQuery slot id base first) (acceptAttempt server priorWrites again first)
      (fun _ => Tracked slot id base) (Tracked slot id base) := by
  refine Spec.bind (currentBoundQuery_tracks first) fun current => ?_
  have hsteady : Steady server (TracksQuery slot id base current) := tracksQuery_steady current
  have htracked (c : Connection σ) (hc : TracksQuery slot id base current c) :
    Tracked slot id base c := hc.1
  have hbegin := hsteady.quiet.keeps_beginAtomic (tracksQuery_control current) "parameter_batch"
    .savepoint priorWrites none
  refine Spec.bind (hbegin.spec htracked) fun scope => ?_
  refine Spec.bind ((keeps_attempt (tracksQuery_send current)).spec htracked) fun sent => ?_
  cases sent with
  | ok reply => exact Spec.pure htracked
  | error root =>
    refine Spec.bind ((keeps_poisonIfCaller fun _ => tracksQuery_poison current).spec htracked)
      fun _ => ?_
    refine Spec.bind ((keeps_attempt (hsteady.quiet.keeps_finishAtomic
      (fun _ => tracksQuery_control current) _)).spec htracked) fun result => ?_
    cases again with
    | none => cases result with
      | ok _ | error _ => exact Spec.fail htracked
    | some accept =>
      cases result with
      | ok _ => exact Spec.fail htracked
      | error value =>
        dsimp only
        split_ifs
        · exact Spec.bind (retryBoundQuery_tracks current) fun retry => hagain accept rfl retry
        · exact Spec.fail htracked

theorem acceptFirst_tracked (priorWrites : Bool) (first : BoundQuery) :
    Spec (TracksQuery slot id base first) (acceptFirst server priorWrites first)
      (fun _ => Tracked slot id base) (Tracked slot id base) := by
  refine acceptAttempt_tracked priorWrites _ ?_ first
  rintro accept ⟨⟩ query
  exact acceptAttempt_tracked priorWrites none (by simp) query

end Tracking

section Rows
variable {σ : Type} {server : Server σ} {id : Nat} {base : List Event} {plan : PreparedPlan}
  {c : Connection σ} {query : BoundQuery} {stream rest : BoundQueryStream}

structure FreshRows (plan : PreparedPlan) (c : Connection σ) (stream : BoundQueryStream) : Prop where
  prepared : stream.prepared = some plan
  pending : ∀ query ∈ stream.pending, Fresh plan.slot c query

theorem renderPrepared_invokes {row : BoundRow} (h : renderPrepared c plan row = .ok query) :
    Invokes plan.slot c query := by
  simp only [renderPrepared] at h
  cases hf : (c.flags (c.slots plan.slot).id).literalFallback with
  | some fallback =>
    simp only [hf, bind_eq_ok, Except.ok.injEq] at h
    obtain ⟨sql, -, rfl⟩ := h
    rfl
  | none =>
    simp only [hf] at h
    split_ifs at h
    · simp only [bind_eq_ok, Except.ok.injEq] at h
      obtain ⟨arguments, -, rfl⟩ := h
      exact ⟨rfl, rfl, rfl⟩
    · simp only [bind_eq_ok, Except.ok.injEq] at h
      obtain ⟨literal, -, arguments, -, rfl⟩ := h
      exact ⟨rfl, rfl, rfl⟩

theorem nextQuery_all {R : BoundQuery → Prop} {d : Connection σ}
    (hrender : ∀ row query, renderPrepared c plan row = .ok query → R query)
    (hprepared : stream.prepared = some plan) (hpending : ∀ query ∈ stream.pending, R query)
    (h : nextQuery stream c = (.ok (some query, rest), d)) :
    R query ∧ rest.prepared = some plan ∧ rest.pending = stream.pending.tail := by
  rcases nextQuery_cases (congrArg Prod.fst h) with ⟨⟨⟩, -⟩ | ⟨_, ⟨⟩, hplan, hquery⟩
  rcases hquery with ⟨hfirst, -⟩ | ⟨row, hnil, hrest, -, hrow⟩
  · exact ⟨hpending _ (by simp [hfirst]), hplan.trans hprepared, by simp [hfirst]⟩
  · rw [renderRow, hprepared] at hrow
    exact ⟨hrender row query hrow, hplan.trans hprepared, by simp [hnil, hrest]⟩

theorem FreshRows.nextQuery {found : Option BoundQuery} (hrows : FreshRows plan c stream)
    (h : (Driver.nextQuery stream c).1 = .ok (found, rest)) :
    FreshRows plan c rest ∧ ∀ query ∈ found, Fresh plan.slot c query := by
  cases found with
  | none =>
    rcases nextQuery_cases h with ⟨-, rfl, -⟩ | ⟨_, ⟨⟩, -⟩
    exact ⟨hrows, by simp⟩
  | some query =>
    obtain ⟨hquery, hprepared, htail⟩ := nextQuery_all (fun row query hr =>
      (renderPrepared_invokes hr).fresh) hrows.prepared hrows.pending (Prod.ext h rfl)
    exact ⟨⟨hprepared, fun q hq => hrows.pending q (List.mem_of_mem_tail (htail ▸ hq))⟩, by simpa⟩

theorem executeUpdateBatch_state (batch : List BoundQuery) (total : Option Int)
    (c : Connection σ) :
    (executeUpdateBatch server batch total c).2 =
      (send server (.script (batch.map (·.sql))) c).2 := by
  rcases hs : send server (.script (batch.map (·.sql))) c with ⟨e | reply, d⟩
  · rw [executeUpdateBatch, bind_of_error hs, hs]
  · rw [executeUpdateBatch, bind_of_ok hs, hs]
    rfl

theorem executeBatches_tracked (fuel : Nat) (total : Option Int) {pending : Option BoundQuery}
    (htracked : Tracked plan.slot id base c) (hrows : FreshRows plan c stream)
    (hpending : ∀ query ∈ pending, Fresh plan.slot c query) :
    Tracked plan.slot id base (executeBatches server fuel stream pending total c).2 := by
  induction fuel generalizing stream pending total c with
  | zero => exact htracked
  | succ fuel ih =>
    have hstate := collectBatch_state stream pending c
    rcases hb : collectBatch stream pending c with ⟨_ | ⟨batch, left, rest⟩, c'⟩ <;>
      rw [hb] at hstate <;> subst hstate
    · rw [executeBatches, bind_of_error hb]
      exact htracked
    · obtain ⟨hbatch, hleft, hrest⟩ := collectBatch_yields FreshRows.nextQuery hrows hpending
        (congrArg Prod.fst hb)
      rw [executeBatches, bind_of_ok hb]
      dsimp only
      split_ifs
      · exact htracked
      · have hsent : Tracked plan.slot id base (send server (.script (batch.map (·.sql))) c').2 :=
          htracked.send (Fresh.script hbatch)
        have hready : Tracked plan.slot id base (executeUpdateBatch server batch total c').2 ∧
            FreshRows plan (executeUpdateBatch server batch total c').2 rest ∧
            ∀ query ∈ left, Fresh plan.slot (executeUpdateBatch server batch total c').2 query := by
          rw [executeUpdateBatch_state]
          exact ⟨hsent, ⟨hrest.prepared, hrest.pending⟩, hleft⟩
        rcases hu : executeUpdateBatch server batch total c' with ⟨e | total, d⟩ <;> rw [hu] at hready
        · rw [bind_of_error hu]
          exact hready.1
        · rw [bind_of_ok hu]
          exact ih total hready.1 hready.2.1 hready.2.2

theorem collectBatch_head {out : List BoundQuery} {left : Option BoundQuery} {d : Connection σ}
    {queue : List BoundQuery} (hpending : stream.pending = query :: queue)
    (h : collectBatch stream none c = (.ok (out, left, rest), d)) : query ∈ out := by
  have hnext : nextQuery stream c = (.ok (some query, { stream with pending := queue }), c) := by
    simp [nextQuery, BoundQueryStream.next, hpending]
  rw [collectBatch, parameterUpdateBatchRows, fillBatch, bind_of_ok hnext] at h
  simp only [ne_eq, not_true_eq_false, false_and, if_false, List.nil_append] at h
  obtain ⟨⟨queries, rfl, -⟩, -⟩ := fillBatch_yields (K := fun _ => True) (R := fun _ => True)
    (fun _ _ => by simp) trivial (congrArg Prod.fst h)
  simp

theorem executeRemaining_tracked (reply : Reply) (htracked : Tracked plan.slot id base c)
    (hrows : FreshRows plan c stream) :
    Tracked plan.slot id base (executeRemaining server stream reply c).2 := by
  rw [executeRemaining]
  cases addAffectedRows none [affected reply] with
  | error error => exact htracked
  | ok total => exact executeBatches_tracked _ total htracked hrows (by simp)

end Rows

section Single
variable {σ : Type} {server : Server σ} {I : Connection σ → Prop}
  {slot id : Nat} {base : List Event} {isAlphanumeric : Bytes → Bool}

theorem guardTransactionCommit_state (effects : TransactionEffects) (c : Connection σ) :
    (guardTransactionCommit effects c).2 = c := by
  unfold guardTransactionCommit
  split <;> rfl

theorem keeps_applyTransactionRollback
    (hmarks : ∀ c modified poison, I c →
      I { c with transactionModified := modified, transactionPoison := poison })
    (effects : TransactionEffects) : Keeps I (applyTransactionRollback effects : Action σ Unit) :=
  keeps_bind (keeps_onlyIf fun _ => fun c hc => hmarks c false c.transactionPoison hc) fun _ =>
    keeps_onlyIf fun _ => fun c hc => hmarks c c.transactionModified none hc

theorem keeps_executeGuarded
    (hmarks : ∀ c modified poison, I c →
      I { c with transactionModified := modified, transactionPoison := poison })
    {sql : BoundSql} (hsend : Keeps I (send server (.statement sql))) :
    Keeps I (executeGuarded server isAlphanumeric sql) := by
  refine keeps_bind (keeps_ofExcept _) fun effects => ?_
  refine keeps_bind (keeps_of_state (guardTransactionCommit_state effects)) fun _ => ?_
  refine keeps_bind hsend fun reply => ?_
  exact keeps_bind (keeps_applyTransactionRollback hmarks effects) fun _ => keeps_pure _

theorem keeps_executeUpdate
    (hmarks : ∀ c modified poison, I c →
      I { c with transactionModified := modified, transactionPoison := poison })
    {sql : BoundSql} (hsend : Keeps I (send server (.statement sql))) :
    Keeps I (executeUpdate server isAlphanumeric sql) := by
  unfold executeUpdate
  split_ifs
  · exact keeps_fail _
  · exact keeps_bind (keeps_executeGuarded hmarks hsend) fun _ => keeps_pure _

theorem executeSingleBoundUpdate_tracked (query : BoundQuery) :
    Spec (TracksQuery slot id base query) (executeSingleBoundUpdate server isAlphanumeric query)
      (fun _ => Tracked slot id base) (Tracked slot id base) := by
  have htracked {q : BoundQuery} (c : Connection σ) (hc : TracksQuery slot id base q c) :
    Tracked slot id base c := hc.1
  have hupdate (q : BoundQuery) :
      Keeps (TracksQuery slot id base q) (executeUpdate server isAlphanumeric q.sql) :=
    keeps_executeUpdate (fun _ _ _ hc => hc) (tracksQuery_send q)
  refine Spec.bind (currentBoundQuery_tracks query) fun current => ?_
  have hretry : Keeps (TracksQuery slot id base current) (canRetry server current) := by
    unfold canRetry
    split_ifs
    · exact keeps_of_state (serverAutocommit_state server)
    · exact keeps_pure _
  refine Spec.bind (hretry.spec htracked) fun again => ?_
  refine Spec.bind ((keeps_attempt (hupdate current)).spec htracked) fun result => ?_
  cases result with
  | ok total => exact Spec.pure htracked
  | error value =>
    dsimp only
    split_ifs
    · exact Spec.bind (retryBoundQuery_tracks current) fun retry =>
        ((hupdate retry).spec htracked).conseq (fun _ hc => hc) (fun _ => htracked) fun _ hc => hc
    · exact Spec.fail htracked

end Single

section Main
variable {σ : Type} (server : Server σ) {d : Connection σ} {slot : Nat} {stream : BoundQueryStream}

def LeavesStaleRow (plan : PreparedPlan) (priorWrites : Bool) (first second : BoundQuery)
    (rows : BoundQueryStream) (c : Connection σ) : Prop :=
  ∃ scope reply d,
    second.sql.executeId = some (c.slots plan.slot).id ∧
    acceptFirst server priorWrites first c = (.ok (scope, reply), d) ∧
    (d.slots plan.slot).id ≠ (c.slots plan.slot).id ∧
    (addAffectedRows none [affected reply]).toBool ∧
    (collectBatch rows none d).1.toBool

def StaleBatch (plan : PreparedPlan) (priorWrites : Bool) (stream : BoundQueryStream)
    (c : Connection σ) : Prop :=
  ∃ first second stream₁ stream₂,
    nextQuery stream c = (.ok (some first, stream₁), c) ∧
    nextQuery stream₁ c = (.ok (some second, stream₂), c) ∧
    LeavesStaleRow server plan priorWrites first second
      { stream₂ with pending := stream₂.pending ++ [second] } c

variable {server} {plan : PreparedPlan} {c : Connection σ}

theorem tracked_self : Tracked plan.slot (c.slots plan.slot).id c.events c :=
  ⟨[], by simp, rfl⟩

theorem Tracked.usesCurrentPlan {id : Nat} (h : Tracked slot id c.events d) :
    UsesCurrentPlan slot id (d.events.drop c.events.length) := by
  obtain ⟨events, hevents, hcurrent⟩ := h
  simp [UsesCurrentPlan, hevents, hcurrent]

theorem Broken.not_usesCurrentPlan {id : Nat} (h : Broken slot id c.events d) :
    ¬ UsesCurrentPlan slot id (d.events.drop c.events.length) := by
  obtain ⟨events, hevents, hcurrent⟩ := h
  simp [UsesCurrentPlan, hevents, hcurrent]

theorem finishRows_keeps {I : Connection σ → Prop} (hsteady : Steady server I)
    (hcontrol : ∀ command, command.isControl = true → Keeps I (send server command))
    (hpoison : ∀ reason, Keeps I (poisonTransaction reason : Action σ Unit))
    {accepted : AtomicScope × Reply} (h : I (executeRemaining server stream accepted.2 d).2) :
    I (finishRows server stream accepted d).2 := by
  rw [finishRows, bind_of_ok (attempt_apply _ d)]
  exact keeps_bind (keeps_poisonOnError (fun _ => hpoison) _)
    (fun _ => hsteady.quiet.keeps_finishAtomic (fun _ => hcontrol) _) _ h

theorem executeBatches_keeps {I : Connection σ → Prop}
    (hsend : ∀ command, Keeps I (send server command)) (fuel : Nat) (stream : BoundQueryStream)
    (pending : Option BoundQuery) (total : Option Int) :
    Keeps I (executeBatches server fuel stream pending total) := by
  induction fuel generalizing stream pending total with
  | zero => exact keeps_pure total
  | succ fuel ih =>
    refine keeps_bind (keeps_of_state (collectBatch_state stream pending)) fun collected => ?_
    dsimp only
    split_ifs
    · exact keeps_pure total
    · refine keeps_bind (keeps_bind (hsend _) fun _ => keeps_ofExcept _) fun total => ?_
      exact ih _ _ _

theorem executeRemaining_broken {reply : Reply} {id : Nat} {base : List Event}
    {query : BoundQuery} {queue : List BoundQuery} {e : Nat} (htracked : Tracked slot id base d)
    (hpending : stream.pending = query :: queue) (hid : query.sql.executeId = some e)
    (hne : e ≠ (d.slots slot).id)
    (hcounts : (addAffectedRows none [affected reply]).toBool = true)
    (hcollect : (collectBatch stream none d).1.toBool = true) :
    Broken slot id base (executeRemaining server stream reply d).2 := by
  rw [executeRemaining]
  cases hadd : addAffectedRows none [affected reply] with
  | error error => simp [hadd, Except.toBool] at hcounts
  | ok total =>
    have hstate := collectBatch_state stream none d
    rcases hb : collectBatch stream none d with ⟨error | ⟨batch, left, rest⟩, d'⟩
    · simp [hb, Except.toBool] at hcollect
    · rw [hb] at hstate
      obtain rfl : d' = d := hstate
      have hmem := collectBatch_head hpending hb
      have hnonempty : batch ≠ [] := List.ne_nil_of_mem hmem
      have hsent : Broken slot id base (executeUpdateBatch server batch total d').2 := by
        rw [executeUpdateBatch_state]
        refine htracked.broken ?_ hne
        simp only [Command.executeIds, List.filterMap_map, List.mem_filterMap, Function.comp]
        exact ⟨query, hmem, hid⟩
      rw [bind_of_ok (ofExcept_apply (.ok total) d'), executeBatches, bind_of_ok hb]
      dsimp only
      rw [if_neg hnonempty]
      rcases hu : executeUpdateBatch server batch total d' with ⟨error | total, d⟩ <;> rw [hu] at hsent
      · rw [bind_of_error hu]
        exact hsent
      · rw [bind_of_ok hu]
        exact executeBatches_keeps broken_send _ _ _ _ d hsent

theorem executeRemaining_tracked_of_unsent {reply : Reply} {id : Nat} {base : List Event}
    (htracked : Tracked slot id base d)
    (hunsent : ¬ ((addAffectedRows none [affected reply]).toBool = true ∧
      (collectBatch stream none d).1.toBool = true)) :
    Tracked slot id base (executeRemaining server stream reply d).2 := by
  rw [executeRemaining]
  cases hadd : addAffectedRows none [affected reply] with
  | error error => exact htracked
  | ok total =>
    have hstate := collectBatch_state stream none d
    rcases hb : collectBatch stream none d with ⟨error | collected, d'⟩
    · rw [hb] at hstate
      obtain rfl : d' = d := hstate
      rw [bind_of_ok (ofExcept_apply (.ok total) d'), executeBatches, bind_of_error hb]
      exact htracked
    · exact absurd ⟨by simp [hadd, Except.toBool], by simp [hb, Except.toBool]⟩ hunsent

theorem two_rows_use_current_plan_iff {priorWrites : Bool} {first second : BoundQuery}
    {rows : BoundQueryStream} (hplan : rows.prepared = some plan) (hrows : rows.pending = [second])
    (hfirst : Invokes plan.slot c first) (hsecond : Invokes plan.slot c second) :
    UsesCurrentPlan plan.slot (c.slots plan.slot).id
        ((executeUpdatesAtomicFromFirst server priorWrites rows first true c).2.events.drop
          c.events.length) ↔
      ¬ LeavesStaleRow server plan priorWrites first second rows c := by
  rw [executeUpdatesAtomicFromFirst_eq]
  have htracked : Tracked plan.slot (c.slots plan.slot).id c.events
      (acceptFirst server priorWrites first c).2 :=
    (acceptFirst_tracked priorWrites first).after ⟨tracked_self, hfirst⟩
  rcases ha : acceptFirst server priorWrites first c with ⟨error | ⟨scope, reply⟩, d⟩ <;>
    rw [ha] at htracked
  · rw [bind_of_error ha]
    refine iff_of_true htracked.usesCurrentPlan ?_
    rintro ⟨_, _, _, -, h, -⟩
    simp [ha] at h
  · rw [bind_of_ok ha]
    by_cases hfresh : Fresh plan.slot d second
    · have hready : FreshRows plan d rows := ⟨hplan, by simpa [hrows] using hfresh⟩
      have hremaining := @executeRemaining_tracked σ server _ _ _ _ _ reply htracked hready
      refine iff_of_true (Tracked.usesCurrentPlan
        (finishRows_keeps tracked_steady tracked_control tracked_poison hremaining)) ?_
      rintro ⟨_, _, d', hid, h, hne, -⟩
      simp only [ha, Prod.mk.injEq] at h
      exact hne (h.2 ▸ (hfresh _ hid).symm)
    · obtain ⟨e, hid, hne⟩ : ∃ e, second.sql.executeId = some e ∧ e ≠ (d.slots plan.slot).id := by
        simpa [Fresh] using hfresh
      obtain rfl := hsecond.fresh e hid
      by_cases hsent : (addAffectedRows none [affected reply]).toBool = true ∧
          (collectBatch rows none d).1.toBool = true
      · have hbroken := @executeRemaining_broken σ server _ _ _ _ _ _ _ _ _ htracked hrows hid hne hsent.1 hsent.2
        refine iff_of_false (Broken.not_usesCurrentPlan
          (finishRows_keeps broken_steady (fun command _ => broken_send command) broken_poison
            hbroken)) ?_
        exact not_not.mpr ⟨scope, reply, d, hid, ha, hne.symm, hsent.1, hsent.2⟩
      · have hremaining := @executeRemaining_tracked_of_unsent σ server _ _ _ _ _ _ htracked hsent
        refine iff_of_true (Tracked.usesCurrentPlan
          (finishRows_keeps tracked_steady tracked_control tracked_poison hremaining)) ?_
        rintro ⟨_, _, d', -, h, -, hcounts, hcollect⟩
        simp only [ha, Prod.mk.injEq, Except.ok.injEq] at h
        obtain ⟨⟨rfl, rfl⟩, rfl⟩ := h
        exact hsent ⟨hcounts, hcollect⟩

section Replaced
variable {slot : Nat} {first : BoundQuery} {invocation : PreparedInvocation} {priorWrites : Bool}
  {accepted : AtomicScope × Reply}

def CacheHolds (plan : PreparedPlan) (c : Connection σ) : Prop :=
  ∃ entry, (c.cache.get plan.query).1 = some entry ∧ entry.id = (c.slots plan.slot).id

def FirstMissing (server : Server σ) (priorWrites : Bool) (first : BoundQuery) (c : Connection σ) :
    Prop :=
  ∃ current c₁ scope c₂ root, currentBoundQuery server first c = (.ok current, c₁) ∧
    beginAtomic server "parameter_batch" .savepoint priorWrites none c₁ = (.ok scope, c₂) ∧
    (send server (.statement current.sql) c₂).1 = .error root ∧ current.prepared.isSome = true ∧
    preparedStatementMissing root = true ∧ scope ≠ .callerTransaction

theorem currentBoundQuery_slots (hprepared : first.prepared = some invocation)
    (hinvokes : Invokes slot c first) (hcache : CacheHolds invocation.plan c) :
    (currentBoundQuery server first c).2.slots = c.slots := by
  unfold Invokes at hinvokes
  rw [hprepared] at hinvokes
  obtain ⟨rfl, hentry, -⟩ := hinvokes
  obtain ⟨entry, hfound, hid⟩ := hcache
  rw [currentBoundQuery, hprepared]
  dsimp only
  rw [bind_of_ok (read_apply c)]
  cases (c.flags invocation.entry.id).literalFallback with
  | some fallback => cases invocation.literalSql <;> rfl
  | none =>
    have hrefreshed : refreshedEntry server invocation.plan c =
        (.ok entry, { c with cache := (c.cache.get invocation.plan.query).2 }) := by
      rw [refreshedEntry, bind_of_ok (withCache_apply _ c), hfound]
      rfl
    dsimp only
    rw [bind_of_ok hrefreshed, onlyIf_neg (not_not.mpr (hid.trans hentry.symm)), Program.pure_bind]
    rfl

-- Between the refresh of the first row and its acceptance nothing installs a plan but the retry.
theorem acceptFirst_slots {d : Connection σ}
    (hmissing : ¬ FirstMissing server priorWrites first c)
    (h : acceptFirst server priorWrites first c = (.ok accepted, d)) :
    d.slots = (currentBoundQuery server first c).2.slots := by
  rw [acceptFirst, acceptAttempt] at h
  rcases hcurrent : currentBoundQuery server first c with ⟨error | current, c₁⟩
  · rw [bind_of_error hcurrent] at h
    cases h
  have hsteady : Steady server fun d => d.slots = c₁.slots := slots_steady (· = c₁.slots)
  have hbegin := hsteady.quiet.keeps_beginAtomic (fun _ _ _ hd => hd) "parameter_batch" .savepoint
    priorWrites none c₁ rfl
  rw [bind_of_ok hcurrent] at h
  rcases hscope : beginAtomic server "parameter_batch" .savepoint priorWrites none c₁ with
    ⟨error | scope, c₂⟩
  · rw [bind_of_error hscope] at h
    cases h
  rw [hscope] at hbegin
  rw [bind_of_ok hscope, bind_of_ok (attempt_apply _ c₂)] at h
  cases hsent : (send server (.statement current.sql) c₂).1 with
  | ok reply =>
    rw [hsent] at h
    cases h
    exact hbegin
  | error root =>
    rw [hsent] at h
    dsimp only at h
    have hpoison (e : Connection σ) : ∃ e', poisonIfCaller scope e = (.ok (), e') := by
      cases scope with
      | callerTransaction | autocommit | savepoint name retain => exact ⟨_, rfl⟩
    obtain ⟨c₃, hpoisoned⟩ := hpoison (send server (.statement current.sql) c₂).2
    rw [bind_of_ok hpoisoned, bind_of_ok (attempt_apply _ c₃)] at h
    rcases hresult : (finishAtomic server scope (.error root : Except AdbcError (Option Int)) c₃).1 with
      value | total
    · rw [hresult] at h
      dsimp only at h
      split_ifs at h with hretry
      · exact absurd ⟨current, c₁, scope, c₂, root, hcurrent, hscope, hsent, hretry.2.1, hretry.2.2.1,
          hretry.1⟩ hmissing
      · cases h
    · rw [hresult] at h
      cases h

theorem acceptFirst_replaces {d : Connection σ} (hinvokes : Invokes slot c first)
    (h : acceptFirst server priorWrites first c = (.ok accepted, d))
    (hne : (d.slots slot).id ≠ (c.slots slot).id) :
    ∃ invocation, first.prepared = some invocation ∧
      (¬ CacheHolds invocation.plan c ∨ FirstMissing server priorWrites first c) := by
  cases hprepared : first.prepared with
  | none =>
    have hcurrent : currentBoundQuery server first c = (.ok first, c) := by
      rw [currentBoundQuery, hprepared]
      rfl
    have hmissing : ¬ FirstMissing server priorWrites first c := by
      rintro ⟨current, _, _, _, _, hfirst, -, -, hsome, -⟩
      rw [hcurrent] at hfirst
      cases hfirst
      rw [hprepared] at hsome
      cases hsome
    rw [acceptFirst_slots hmissing h, hcurrent] at hne
    exact absurd rfl hne
  | some invocation =>
    refine ⟨invocation, rfl, ?_⟩
    by_contra hkept
    obtain ⟨hcache, hmissing⟩ := not_or.mp hkept
    rw [acceptFirst_slots hmissing h,
      currentBoundQuery_slots hprepared hinvokes (not_not.mp hcache)] at hne
    exact hne rfl

theorem StaleBatch.second {stream stream₁ : BoundQueryStream}
    (h : StaleBatch server plan priorWrites stream c)
    (hfirst : nextQuery stream c = (.ok (some first, stream₁), c)) :
    ∃ second stream₂, nextQuery stream₁ c = (.ok (some second, stream₂), c) ∧
      LeavesStaleRow server plan priorWrites first second
        { stream₂ with pending := stream₂.pending ++ [second] } c := by
  obtain ⟨_, second, _, stream₂, hread, hsecond, hstale⟩ := h
  rw [hfirst] at hread
  cases hread
  exact ⟨second, stream₂, hsecond, hstale⟩

theorem StaleBatch.replaces {stream : BoundQueryStream}
    (h : StaleBatch server plan priorWrites stream c) (hplan : stream.prepared = some plan)
    (hrendered : ∀ query ∈ stream.pending, Invokes plan.slot c query) :
    ∃ first rest invocation, nextQuery stream c = (.ok (some first, rest), c) ∧
      first.prepared = some invocation ∧
      (¬ CacheHolds invocation.plan c ∨ FirstMissing server priorWrites first c) := by
  obtain ⟨first, _, rest, _, hfirst, -, _, _, _, -, haccept, hne, -⟩ := h
  obtain ⟨hinvokes, -⟩ := nextQuery_all (fun row query hr => renderPrepared_invokes hr) hplan
    hrendered hfirst
  obtain ⟨invocation, hprepared, hreplaced⟩ := acceptFirst_replaces hinvokes haccept hne
  exact ⟨first, rest, invocation, hfirst, hprepared, hreplaced⟩

end Replaced

theorem multi_row_update_uses_current_plan_iff (server : Server σ) (isAlphanumeric : Bytes → Bool)
    (priorWrites : Bool) (plan : PreparedPlan) (stream : BoundQueryStream) (c : Connection σ)
    (hplan : stream.prepared = some plan) (hlook : stream.pending.length ≤ 2)
    (hrendered : ∀ query ∈ stream.pending, Invokes plan.slot c query) :
    UsesCurrentPlan plan.slot (c.slots plan.slot).id
        ((executeUpdatesAtomic server isAlphanumeric priorWrites stream c).2.events.drop
          c.events.length) ↔
      ¬ StaleBatch server plan priorWrites stream c := by
  have hstate := nextQuery_state stream c
  rcases hfirst : nextQuery stream c with ⟨error | ⟨_ | first, stream₁⟩, c'⟩ <;>
    rw [hfirst] at hstate <;> obtain rfl : c' = c := hstate
  · rw [executeUpdatesAtomic, bind_of_error hfirst]
    refine iff_of_true tracked_self.usesCurrentPlan ?_
    rintro ⟨_, _, _, _, h, -⟩
    simp [hfirst] at h
  · rw [executeUpdatesAtomic, bind_of_ok hfirst]
    refine iff_of_true tracked_self.usesCurrentPlan ?_
    rintro ⟨_, _, _, _, h, -⟩
    simp [hfirst] at h
  · obtain ⟨hinvokes, hplan₁, htail₁⟩ := nextQuery_all
      (fun row query hr => renderPrepared_invokes hr) hplan hrendered hfirst
    have hrendered₁ : ∀ query ∈ stream₁.pending, Invokes plan.slot c' query :=
      fun q hq => hrendered q (List.mem_of_mem_tail (htail₁ ▸ hq))
    rw [executeUpdatesAtomic, bind_of_ok hfirst]
    have hstate := nextQuery_state stream₁ c'
    rcases hsecond : nextQuery stream₁ c' with ⟨error | ⟨_ | second, stream₂⟩, c⟩ <;>
      rw [hsecond] at hstate <;> obtain rfl : c = c' := hstate
    · have hempty : streamIsEmpty stream₁ c = (.error error, c) := by
        rw [streamIsEmpty, bind_of_error hsecond]
      dsimp only
      rw [bind_of_error hempty]
      refine iff_of_true tracked_self.usesCurrentPlan ?_
      intro h
      obtain ⟨_, _, hread, -⟩ := h.second hfirst
      simp [hsecond] at hread
    · have hempty : streamIsEmpty stream₁ c = (.ok (true, stream₂), c) := by
        rw [streamIsEmpty, bind_of_ok hsecond]
        rfl
      dsimp only
      rw [bind_of_ok hempty]
      refine iff_of_true (Tracked.usesCurrentPlan
        ((executeSingleBoundUpdate_tracked first).after ⟨tracked_self, hinvokes⟩)) ?_
      intro h
      obtain ⟨_, _, hread, -⟩ := h.second hfirst
      simp [hsecond] at hread
    · obtain ⟨hinvokes₂, hplan₂, htail₂⟩ := nextQuery_all
        (fun row query hr => renderPrepared_invokes hr) hplan₁ hrendered₁ hsecond
      have hnil : stream₂.pending = [] := by
        rw [htail₂, htail₁]
        exact List.eq_nil_of_length_eq_zero (by simp; omega)
      have hempty : streamIsEmpty stream₁ c =
          (.ok (false, { stream₂ with pending := stream₂.pending ++ [second] }), c) := by
        rw [streamIsEmpty, bind_of_ok hsecond]
        rfl
      have hrows : (BoundQueryStream.mk stream₂.items stream₂.prepared stream₂.literalFallback
          (stream₂.pending ++ [second])).pending = [second] := by simp [hnil]
      have hprepared : (BoundQueryStream.mk stream₂.items stream₂.prepared stream₂.literalFallback
          (stream₂.pending ++ [second])).prepared = some plan := hplan₂
      dsimp only
      rw [bind_of_ok hempty]
      simp only [Bool.false_eq_true, if_false]
      rw [two_rows_use_current_plan_iff hprepared hrows hinvokes hinvokes₂]
      refine not_congr ⟨fun h => ⟨first, second, stream₁, stream₂, hfirst, hsecond, h⟩, ?_⟩
      intro h
      obtain ⟨_, _, hread, hstale⟩ := h.second hfirst
      rw [hsecond] at hread
      cases hread
      exact hstale

end Main

structure PlanServer where
  nextId : Nat
  autocommit : Bool

def planServer : Server PlanServer where
  execute s
    | .prepare _ => ⟨.ok { preparedId := some s.nextId }, false, { s with nextId := s.nextId + 1 }⟩
    | .setAutocommit enabled => ⟨.ok {}, false, { s with autocommit := enabled }⟩
    | .statement _ => ⟨.ok { counts := [some 1] }, false, s⟩
    | .script rows => ⟨.ok { counts := rows.map fun _ => some 1 }, false, s⟩
    | _ => ⟨.ok {}, false, s⟩
  autocommit s := .ok s.autocommit

def insertPlan : PreparedPlan := ⟨ascii "INSERT INTO t VALUES (?)", 1, 0⟩

def insertRow (value : String) : StreamItem := .row ⟨.ok (ascii value), .ok (ascii value)⟩

def twoInserts : BoundQueryStream := ⟨[insertRow "7", insertRow "8"], some insertPlan, none, []⟩

def clearedCache : Connection PlanServer where
  server := ⟨2, true⟩
  transactionModified := false
  transactionPoison := none
  savepointId := 0
  cache := .new 512 (by decide)
  flags _ := ⟨true, none⟩
  slots _ := ⟨1, [], []⟩
  events := []

theorem cleared_cache_sends_replaced_plan :
    let run := executeUpdatesAtomic planServer (fun _ => false) false twoInserts clearedCache
    (run.2.slots 0).id = 2 ∧
      .sent (.script [.execute 1 (ascii "8")]) true false ∈ run.2.events ∧
      ¬ UsesCurrentPlan 0 1 run.2.events := by
  decide +kernel

def cachedPlan : Connection PlanServer :=
  { clearedCache with cache := (clearedCache.cache.insert insertPlan.query ⟨1, [], []⟩).2 }

theorem cachedPlan_not_stale : ¬ StaleBatch planServer insertPlan false twoInserts cachedPlan := by
  intro h
  obtain ⟨first, rest, invocation, hfirst, hprepared, hreplaced⟩ :=
    h.replaces rfl (by simp [twoInserts])
  cases hfirst
  cases hprepared
  rcases hreplaced with hcache | ⟨_, _, _, _, _, -, -, hsent, -⟩
  · exact hcache ⟨⟨1, [], []⟩, by decide +kernel, rfl⟩
  · cases hsent

theorem two_inserts_need_the_cached_plan :
    StaleBatch planServer insertPlan false twoInserts clearedCache ∧
      UsesCurrentPlan 0 1 ((executeUpdatesAtomic planServer (fun _ => false) false twoInserts
        cachedPlan).2.events.drop cachedPlan.events.length) := by
  have hcleared := multi_row_update_uses_current_plan_iff planServer (fun _ => false) false insertPlan
    twoInserts clearedCache rfl (by decide) (by simp [twoInserts])
  have hcached := multi_row_update_uses_current_plan_iff planServer (fun _ => false) false insertPlan
    twoInserts cachedPlan rfl (by decide) (by simp [twoInserts])
  refine ⟨not_not.mp fun h => absurd (hcleared.mpr h) (by decide +kernel), ?_⟩
  exact hcached.mpr cachedPlan_not_stale

end MonetdbAdbc.Driver
