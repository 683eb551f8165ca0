import MonetdbAdbc.Driver.PoisonedRoutes

namespace MonetdbAdbc.Driver
open LittleEndian Text Program Sql Machine Transition

section Conditions
variable {σ : Type} (isAlphanumeric : Bytes → Bool)

-- The templates that a bound execution of the statement may render.
def Statement.Renders (statement : Statement) (template : QueryTemplate) : Prop :=
  statement.deferredTemplate = some template ∨
    ∃ query, statement.query = some query ∧ compileQuery isAlphanumeric query = .ok template

structure SafeRows (statement : Statement) (bound : Bound) : Prop where
  arguments : ∀ arguments values, .row (.ok arguments) values ∈ bound.items →
    ∀ literal ∈ arguments, IsLiteral isAlphanumeric literal
  literal : ∀ template arguments values text, statement.Renders isAlphanumeric template →
    .row arguments (.ok values) ∈ bound.items →
    template.renderRow (bound.names.zip values) statement.bindByName = .ok text →
      PlainRollbacks isAlphanumeric text ∧ (2 ≤ bound.items.length → BatchRow isAlphanumeric text)

def IngestRequest.LiteralRows (request : IngestRequest) : Prop :=
  ∀ inserts, request.candidate = .ok (some inserts) →
    ∀ arguments ∈ inserts.arguments, LiteralArguments isAlphanumeric arguments

def Statement.Safe (statement : Statement) : Prop :=
  match statement.bound, statement.target with
  | none, _ => ∀ query, statement.query = some query →
    Utf8.valid query = true ∧ PlainRollbacks isAlphanumeric query
  | some bound, none => SafeRows isAlphanumeric statement bound
  | some _, some request => request.LiteralRows isAlphanumeric

def Operation.Safe (s : Session σ) : Operation → Prop
  | .execute i | .executeUpdate i => (s.statements i).Safe isAlphanumeric
  | .advance r => ∀ reader, s.readers r = some reader →
    reader.stream.All (PlainRollbacks isAlphanumeric)
  | .setCurrentSchema schema => ∀ quoted, quoteIdentifier schema = .ok quoted →
    PlainRollbacks isAlphanumeric ("SET SCHEMA " ++ quoted).toUTF8.toList
  | _ => True

-- What a step on a poisoned connection must meet.
def StepSafe (w : World σ) (s : Session σ) (operation : Operation) : Prop :=
  s.connection.transactionPoison.isSome = true →
    w.server.autocommit s.connection.server ≠ .ok true ∧ operation.Safe w.isAlphanumeric s

-- What preparing a statement leaves as it was.
@[grind cases, grind intro] structure Stated (before statement : Statement) : Prop where
  query : statement.query = before.query
  bound : statement.bound = before.bound
  bindByName : statement.bindByName = before.bindByName
  target : statement.target = before.target
  template : ∀ template, statement.deferredTemplate = some template →
    before.Renders isAlphanumeric template

structure Ready (w : World σ) (unpoisoned : Prop) (i : Nat) (before : Statement) (s : Session σ) :
    Prop where
  holding : Holding w unpoisoned s.connection
  stated : Stated w.isAlphanumeric before (s.statements i)

def Watched (w : World σ) (s : Session σ) : Prop := Guarded w s.connection

def Guards (w : World σ) (unpoisoned : Prop) (i : Nat) (before : Statement) {α : Type}
    (m : Task σ α) : Prop :=
  Spec (Ready w unpoisoned i before) m (fun _ => Watched w) (Watched w)

end Conditions

section Rules
variable {σ α β : Type} {w : World σ} {unpoisoned : Prop}
  {i : Nat} {before : Statement} {m : Task σ α} {f : α → Task σ β}

theorem Ready.guarded {s : Session σ} (h : Ready w unpoisoned i before s) :
    Watched w s := h.holding.toGuarded

@[grind ←] theorem ready_onConnection {m : Action σ α} (h : Keeps (Holding w unpoisoned) m) :
    Keeps (Ready w unpoisoned i before) (onConnection m) :=
  fun _ hs => ⟨h _ hs.holding, hs.stated⟩

@[grind ←] theorem ready_setStatement {f : Statement → Statement}
    (h : ∀ statement, Stated w.isAlphanumeric before statement → Stated w.isAlphanumeric before (f statement)) :
    Keeps (Ready w unpoisoned i before) (setStatement i f) := by
  intro s hs
  refine ⟨hs.holding, ?_⟩
  simp only [setStatement, update_apply, Function.update_self]
  exact h _ hs.stated

@[grind ←] theorem ready_statementAt {f : Statement → Task σ α}
    (h : ∀ statement, Stated w.isAlphanumeric before statement →
      Keeps (Ready w unpoisoned i before) (f statement)) :
    Keeps (Ready w unpoisoned i before) (statementAt i >>= f) :=
  fun s hs => h _ hs.stated s hs

@[grind ←] theorem ready_statementQuery {f : Bytes → Task σ α}
    (h : ∀ query, before.query = some query →
      Keeps (Ready w unpoisoned i before) (f query)) :
    Keeps (Ready w unpoisoned i before) (statementQuery i >>= f) := by
  rw [statementQuery, bind_bind]
  refine ready_statementAt fun statement hstated => keeps_ofExcept_bind fun query hquery => ?_
  exact h query (hstated.query ▸ okOr_eq_ok.mp hquery)

@[grind ←] theorem ready_newSlot (entry : PreparedEntry) :
    Keeps (Ready w unpoisoned i before) (newSlot entry) :=
  fun _ hs => ⟨holding_install _ entry _ hs.holding, hs.stated⟩

@[grind ←] theorem guards_of_keeps (h : Keeps (Ready w unpoisoned i before) m) :
    Guards w unpoisoned i before m :=
  (h.spec fun _ hs => hs.guarded).conseq (fun _ hs => hs) (fun _ _ hs => hs.guarded) fun _ hs => hs

theorem guards_bind (hm : Keeps (Ready w unpoisoned i before) m)
    (hf : ∀ a, Guards w unpoisoned i before (f a)) :
    Guards w unpoisoned i before (m >>= f) :=
  Spec.bind (hm.spec fun _ hs => hs.guarded) hf

theorem guards_statementAt {f : Statement → Task σ α}
    (h : ∀ statement, Stated w.isAlphanumeric before statement →
      Guards w unpoisoned i before (f statement)) :
    Guards w unpoisoned i before (statementAt i >>= f) :=
  fun s hs => h _ hs.stated s hs

theorem guards_then (hm : Guards w unpoisoned i before m) (hf : ∀ a, Keeps (Watched w) (f a)) :
    Guards w unpoisoned i before (m >>= f) :=
  Spec.bind hm fun a => (hf a).spec fun _ hs => hs

theorem guards_attempt (h : Guards w unpoisoned i before m) :
    Guards w unpoisoned i before (attempt m) :=
  fun _ hs => ⟨fun _ _ => Spec.after h hs, fun _ he => (nomatch he)⟩

theorem guards_onConnection {m : Action σ α} (h : Spec (Holding w unpoisoned) m (fun _ => Guarded w)
      (Guarded w)) :
    Guards w unpoisoned i before (onConnection m) :=
  fun s hs => h s.connection hs.holding

theorem guards_result {m : Action σ α} {R : α → Prop}
    (hm : Keeps (Holding w unpoisoned) m) (hr : ∀ c a, (m c).1 = .ok a → R a)
    (hf : ∀ a, R a → Guards w unpoisoned i before (f a)) :
    Guards w unpoisoned i before (onConnection m >>= f) :=
  Spec.bind ((ready_onConnection hm).result (fun _ hs => hs.guarded)
    fun s a ha => hr s.connection a ha) fun a => Spec.assume (hf a)

@[grind ←] theorem watched_modified (modified : Bool) : Keeps (Watched w)
    (onConnection (setModified modified)) :=
  fun _ hs => ⟨hs.safe, hs.poisoned⟩

@[grind ←] theorem watched_clear :
    Keeps (Watched w) (onConnection clearPreparedCache) :=
  fun _ hs => ⟨hs.safe, hs.poisoned⟩

end Rules

section Preparing
variable {σ : Type} {w : World σ} {unpoisoned : Prop} {i : Nat} {before : Statement}

@[grind ←] theorem holding_describeQuery (text : Bytes) :
    Keeps (Holding w unpoisoned) (describeQuery w.server text) := by
  grind [describeQuery, tryDeallocate]

@[grind ←] theorem ready_refreshSlot (slot : Nat) (query : Bytes) :
    Keeps (Ready w unpoisoned i before) (refreshSlot w.server w.isAlphanumeric slot query) := by
  refine keeps_bind (keeps_ofExcept _) fun _ => ?_
  grind

@[grind ←] theorem ready_literalSchema (template : QueryTemplate) (diagnostic : AdbcError) :
    Keeps (Ready w unpoisoned i before) (literalSchema w.server i template diagnostic) := by
  have hdeallocate (statementId : Nat) : Keeps (Holding w unpoisoned)
      (tryDeallocate w.server statementId) := by
    unfold tryDeallocate
    grind
  refine keeps_bind (by grind) fun _ => keeps_bind (keeps_ofExcept _) fun rendered => ?_
  grind

@[grind ←] theorem ready_forcedSchema (query : Bytes) (template : QueryTemplate) :
    Keeps (Ready w unpoisoned i before) (forcedSchema w.server i query template) := by
  grind [forcedSchema]

@[grind ←] theorem ready_executeSchema :
    Keeps (Ready w unpoisoned i before) (executeSchema w.server w.isAlphanumeric i) := by
  refine ready_statementAt fun statement _ => ?_
  split <;> grind [parsedSchema]

theorem ready_getParameterSchema :
    Keeps (Ready w unpoisoned i before) (getParameterSchema w.server w.isAlphanumeric i) := by
  refine ready_statementAt fun statement _ => ?_
  split <;> grind

@[grind ←] theorem ready_declareParameters {query : Bytes} {template : QueryTemplate}
    (h : before.Renders w.isAlphanumeric template) :
    Keeps (Ready w unpoisoned i before)
      (declareParameters w.server w.isAlphanumeric i query template) := by
  have hadopt (outcome : PrepareOutcome) :
      Keeps (Ready w unpoisoned i before) (adoptDeclared i template outcome) := by
    cases outcome with grind [adoptDeclared]
  grind [declareParameters]

@[grind ←] theorem ready_prepare :
    Keeps (Ready w unpoisoned i before) (prepare w.server w.isAlphanumeric i) := by
  have htext {query : Bytes} (hquery : before.query = some query) :
      Keeps (Ready w unpoisoned i before)
        (prepareText w.server w.isAlphanumeric i query) := by
    unfold prepareText
    split_ifs
    · exact keeps_fail _
    · refine keeps_ofExcept_bind fun template hcompile => ?_
      have hrenders : before.Renders w.isAlphanumeric template := .inr ⟨query, hquery, hcompile⟩
      grind
  grind [prepare]

@[grind ←] theorem ready_resolveDeferred (force : Bool) :
    Keeps (Ready w unpoisoned i before) (resolveDeferredForExecution w.server i force) := by
  refine ready_statementAt fun statement hstated => ?_
  cases htemplate : statement.deferredTemplate with
  | none => exact keeps_pure ()
  | some template =>
    have hrenders := hstated.template template htemplate
    have hadopt (outcome : PrepareOutcome) :
        Keeps (Ready w unpoisoned i before) (adoptResolved i template outcome) := by
      cases outcome with grind [adoptResolved]
    grind

end Preparing

section Taking
variable {isAlphanumeric : Bytes → Bool} {unpoisoned : Prop} {before : Statement}

def Sendable (isAlphanumeric : Bytes → Bool) (unpoisoned : Prop) (stream : BoundQueryStream) : Prop :=
  stream.Clean (fun text => ¬unpoisoned → PlainRollbacks isAlphanumeric text) fun text =>
    ¬unpoisoned → BatchRow isAlphanumeric text

theorem boundStream_all {P : Bytes → Prop} {template : QueryTemplate} {bindByName : Bool} {bound : Bound}
    (hliteral : ∀ arguments values text, .row arguments (.ok values) ∈ bound.items →
      template.renderRow (bound.names.zip values) bindByName = .ok text → P text)
    (hexecute : ∀ arguments values, .row (.ok arguments) values ∈ bound.items → ∀ id,
      P (BoundSql.execute id (List.intercalate (ascii ", ") arguments)).text) :
    ∀ row, .row row ∈ bound.items.map (·.toStream template bindByName bound.names) → row.All P := by
  intro row hrow
  obtain ⟨item, hitem, heq⟩ := List.mem_map.mp hrow
  cases item with
  | rejected rows error | failure error => cases heq
  | row arguments values =>
    obtain rfl := StreamItem.row.inj heq
    constructor
    · intro text htext
      obtain ⟨fields, rfl, hrender⟩ := bind_eq_ok.mp htext
      exact hliteral arguments fields text hitem hrender
    · intro joined hjoined
      obtain ⟨texts, rfl, rfl⟩ := map_eq_ok.mp hjoined
      exact hexecute texts values hitem

theorem boundStream_sendable {statement : Statement} {bound : Bound} {query : Bytes}
    {stream : BoundQueryStream} (hstated : Stated isAlphanumeric before statement)
    (hquery : before.query = some query)
    (hrows : ¬unpoisoned → SafeRows isAlphanumeric before bound)
    (h : boundStream isAlphanumeric statement query bound = .ok stream) :
    Sendable isAlphanumeric unpoisoned stream := by
  obtain ⟨template, htemplate, h⟩ := bind_eq_ok.mp h
  obtain ⟨_, -, h⟩ := bind_eq_ok.mp h
  cases h
  have hrenders : before.Renders isAlphanumeric template := by
    unfold boundTemplate at htemplate
    split at htemplate
    · next hdeferred =>
      cases htemplate
      exact hstated.template _ hdeferred
    · exact .inr ⟨query, hquery, htemplate⟩
  have harguments (hpoisoned : ¬unpoisoned) {arguments : List Bytes}
      {values : Except AdbcError (List TemplateArgument)} (hitem : .row (.ok arguments) values ∈ bound.items) :
      LiteralArguments isAlphanumeric (List.intercalate (ascii ", ") arguments) :=
    ⟨arguments, (hrows hpoisoned).arguments arguments values hitem, rfl⟩
  rw [hstated.bindByName]
  refine ⟨⟨by simp, boundStream_all ?_ ?_⟩, fun hsize => ⟨by simp, boundStream_all ?_ ?_⟩⟩
  · intro arguments values text hitem hrender hpoisoned
    exact ((hrows hpoisoned).literal template arguments values text hrenders hitem hrender).1
  · intro arguments values hitem id hpoisoned
    exact execute_plain (harguments hpoisoned hitem) id
  · intro arguments values text hitem hrender hpoisoned
    refine ((hrows hpoisoned).literal template arguments values text hrenders hitem hrender).2 ?_
    simpa [BoundQueryStream.size] using hsize
  · intro arguments values hitem id hpoisoned
    exact execute_batchRow (harguments hpoisoned hitem) id

theorem guards_take {σ α : Type} {w : World σ} {i : Nat} {f : BoundQueryStream → Task σ α}
    (hrows : ¬unpoisoned → ∀ bound, before.bound = some bound → SafeRows w.isAlphanumeric before bound)
    (hf : ∀ stream, Sendable w.isAlphanumeric unpoisoned stream →
      Guards w unpoisoned i { before with bound := none } (f stream)) :
    Guards w unpoisoned i before (takeBoundQueries w.isAlphanumeric i >>= f) := by
  have hguarded (s : Session σ) (hs : Ready w unpoisoned i before s) :
    Watched w s := hs.guarded
  refine Spec.bind (Q := fun stream s => Sendable w.isAlphanumeric unpoisoned stream ∧
    Ready w unpoisoned i { before with bound := none } s) ?_ fun stream =>
      Spec.assume (hf stream)
  unfold takeBoundQueries
  refine Spec.bind (Q := fun query s => before.query = some query ∧
    Ready w unpoisoned i before s) (fun s hs =>
      ⟨fun query h => ⟨hs.stated.query ▸ okOr_eq_ok.mp h, hs⟩, fun _ _ => hs.guarded⟩) fun query =>
        Spec.assume fun hquery => ?_
  refine Spec.bind (Q := fun statement s => Stated w.isAlphanumeric before statement ∧
    Ready w unpoisoned i before s) (fun s hs =>
      ⟨by rintro _ ⟨⟩; exact ⟨hs.stated, hs⟩, fun _ _ => hs.guarded⟩) fun statement =>
        Spec.assume fun hstated => ?_
  refine Spec.bind (Spec.ofExcept (fun bound hbound s hs => And.intro hbound hs) hguarded) fun bound =>
    Spec.assume fun hbound => ?_
  refine Spec.bind (Q := fun _ => Ready w unpoisoned i { before with bound := none })
    (fun s hs => ⟨fun _ _ => ⟨hs.holding, ?_⟩, fun _ h => (nomatch h)⟩) fun _ =>
      Spec.ofExcept (fun stream hstream s hs => ⟨?_, hs⟩) fun _ hs => hs.guarded
  · simp only [setStatement, update_apply, Function.update_self]
    exact ⟨hs.stated.query, rfl, hs.stated.bindByName, hs.stated.target, hs.stated.template⟩
  · exact boundStream_sendable hstated hquery (fun hpoisoned => hrows hpoisoned bound
      (hstated.bound ▸ okOr_eq_ok.mp hbound)) hstream

end Taking

section Executing
variable {σ : Type} {w : World σ} {unpoisoned : Prop} {i : Nat} {before : Statement}
  (priorWrites : Bool) {stream : BoundQueryStream}

@[grind ←] theorem ready_rememberSchema (schema : List Field) :
    Keeps (Ready w unpoisoned i before) (rememberSchema i schema) := by
  grind [rememberSchema]

@[grind ←] theorem ready_newReader (reader : ParameterReader) :
    Keeps (Ready w unpoisoned i before) (newReader reader) :=
  fun _ hs => ⟨hs.holding, hs.stated⟩

@[grind ←] theorem ready_refreshFallback :
    Keeps (Ready w unpoisoned i before) (refreshPreparedLiteralFallback i) := by
  intro s hs
  simp only [refreshPreparedLiteralFallback, update_apply]
  split
  · exact hs
  · refine ⟨hs.holding, ?_⟩
    have h := hs.stated
    simp only [Function.update_self]
    exact ⟨h.1, h.2, h.3, h.4, h.5⟩

theorem keeps_takeIfSingle {I : Connection σ → Prop} (stream : BoundQueryStream) :
    Keeps I (takeIfSingle stream) := by
  have hnext (stream : BoundQueryStream) : Keeps I (nextQuery stream) :=
    keeps_of_state (nextQuery_state stream)
  grind [takeIfSingle]

theorem guards_updateRows (hstream : Sendable w.isAlphanumeric unpoisoned stream) :
    Guards w unpoisoned i before (updateRows w.server w.isAlphanumeric priorWrites stream) :=
  guards_then (guards_onConnection (executeUpdatesAtomic_guarded priorWrites hstream))
    fun _ => keeps_pure _

theorem guards_executeRowUpdates (hstream : Sendable w.isAlphanumeric unpoisoned stream) :
    Guards w unpoisoned i before
      (executeRowUpdates w.server w.isAlphanumeric i priorWrites stream) := by
  refine guards_result (keeps_takeIfSingle stream) (fun c taken h => takeIfSingle_rows h)
    fun taken hrows => ?_
  obtain ⟨_ | query, rest⟩ := taken
  · exact guards_updateRows priorWrites (hrows.1.clean hstream)
  · obtain ⟨hrest, hquery⟩ := hrows.1.all _ hstream.each
    refine guards_result (holding_currentBoundQuery query) (fun c current h =>
      (hquery query (by simp)).current h) fun current hcurrent => guards_bind keeps_read fun s => ?_
    split_ifs
    · have hresult := holding_executeUnverified hcurrent
      grind
    · refine guards_updateRows priorWrites ⟨⟨List.forall_mem_cons.mpr
        ⟨hcurrent, hrest.pending⟩, hrest.items⟩, fun htwo => ?_⟩
      have hsize := hrows.2 rfl
      simp only [BoundQueryStream.size, List.length_cons] at htwo hsize
      omega

theorem guards_openReader
    (hstream : stream.All fun text => ¬unpoisoned → PlainRollbacks w.isAlphanumeric text) :
    Guards w unpoisoned i before (openReader w.server w.isAlphanumeric i stream) := by
  refine guards_bind (by grind [statementQuery]) fun text => ?_
  refine guards_result (keeps_of_state (nextQuery_state stream))
    (fun c found h => (hstream.nextQuery h).2) fun found hfirst => ?_
  obtain ⟨_ | first, rest⟩ := found
  · exact guards_of_keeps (keeps_fail _)
  · have hresult := holding_boundQueryReader (hfirst first rfl)
    grind

theorem guards_executeUnknownRows (hstream : Sendable w.isAlphanumeric unpoisoned stream) :
    Guards w unpoisoned i before
      (executeUnknownRows w.server w.isAlphanumeric i priorWrites stream) := by
  refine guards_bind (by grind [rowSchema]) fun schema => ?_
  split_ifs
  · exact guards_then (guards_updateRows priorWrites hstream) fun _ =>
      keeps_bind (fun _ hs => hs) fun _ => keeps_pure _
  · exact guards_bind (ready_rememberSchema _) fun _ => guards_openReader hstream.each

theorem guards_executeLiteralRows (hstream : Sendable w.isAlphanumeric unpoisoned stream) :
    Guards w unpoisoned i before
      (executeLiteralRows w.server w.isAlphanumeric i priorWrites stream) := by
  refine guards_result (keeps_takeIfSingle stream) (fun c taken h => takeIfSingle_rows h)
    fun taken hrows => ?_
  obtain ⟨_ | query, rest⟩ := taken
  · exact guards_executeUnknownRows priorWrites (hrows.1.clean hstream)
  · have hresult := holding_queryStatementResult
      ((hrows.1.all _ hstream.each).2 query (by simp)).sql
    grind

theorem guards_executeRows
    (hrows : ¬unpoisoned → ∀ bound, before.bound = some bound → SafeRows w.isAlphanumeric before bound) :
    Guards w unpoisoned i before (executeRows w.server w.isAlphanumeric i priorWrites) := by
  refine guards_bind ready_prepare fun _ => guards_bind (ready_resolveDeferred _)
    fun _ => guards_take hrows fun stream hstream => ?_
  refine guards_result (keeps_of_state (streamIsEmpty_state stream)) (fun c looked h =>
    (streamIsEmpty_rows h).1) fun looked hsame => ?_
  obtain ⟨_ | _, rest⟩ := looked
  · have hrest := hsame.clean hstream
    refine guards_statementAt fun statement _ => ?_
    split
    · exact guards_executeRowUpdates priorWrites hrest
    · exact guards_openReader hrest.each
    · split_ifs
      · exact guards_executeLiteralRows priorWrites hrest
      · exact guards_executeUnknownRows priorWrites hrest
  · grind [emptyRows]

theorem guards_executeBound
    (hrows : ¬unpoisoned → before.target = none → ∀ bound, before.bound = some bound →
      SafeRows w.isAlphanumeric before bound) :
    Guards w unpoisoned i before (executeBound w.server w.isAlphanumeric i priorWrites) := by
  refine guards_statementAt fun statement hstated => ?_
  split_ifs with htarget
  · exact guards_of_keeps (keeps_fail _)
  rw [Option.not_isSome_iff_eq_none, hstated.target] at htarget
  refine guards_bind (by grind [statementQuery]) fun query => guards_bind (keeps_ofExcept _) fun _ => ?_
  exact guards_then (guards_attempt (guards_executeRows priorWrites fun hpoisoned =>
    hrows hpoisoned htarget)) fun _ => by grind

theorem guards_executeUpdateRows
    (hrows : ¬unpoisoned → ∀ bound, before.bound = some bound → SafeRows w.isAlphanumeric before bound) :
    Guards w unpoisoned i before (executeUpdateRows w.server w.isAlphanumeric i priorWrites) := by
  refine guards_bind (by grind [statementQuery]) fun query => guards_bind (keeps_ofExcept _) fun _ => ?_
  refine guards_bind ready_prepare fun _ => guards_bind (by grind [boundBatchExceedsOneRow])
    fun multiRow => guards_bind (ready_resolveDeferred _) fun _ => ?_
  refine guards_take hrows fun stream hstream => guards_then (guards_attempt (guards_onConnection
    (executeUpdatesAtomic_guarded priorWrites hstream))) fun _ => by grind

theorem ready_invalidatingCache {α : Type} {m : Action σ α} (query : Bytes)
    (h : Keeps (Holding w unpoisoned) m) :
    Keeps (Ready w unpoisoned i before) (invalidatingCache w.isAlphanumeric query m) := by
  have hclear : Keeps (Holding w unpoisoned) (clearPreparedCache : Action σ Unit) :=
    keeps_clearPreparedCache holding_steady
  refine keeps_bind (keeps_ofExcept _) fun _ => keeps_bind (by grind) fun _ => ?_
  grind

theorem guards_withWriteGuard {α : Type} {m : Bool → Task σ α} (query : Option Bytes)
    (h : ∀ priorWrites, Guards w unpoisoned i before (m priorWrites)) :
    Guards w unpoisoned i before (withWriteGuard w.isAlphanumeric query m) := by
  refine guards_bind (keeps_ofExcept _) fun modifies => guards_bind keeps_read fun s => ?_
  refine guards_bind (keeps_onlyIf fun _ => ready_onConnection fun _ hc => hc.modified true) fun _ => ?_
  exact guards_then (guards_attempt (h _)) fun _ => by grind

theorem executeWithRowsAffected_guarded {s : Session σ}
    (hs : Ready w unpoisoned i (s.statements i) s)
    (hsafe : ¬unpoisoned → (s.statements i).Safe w.isAlphanumeric) :
    Watched w (executeWithRowsAffected w.server w.isAlphanumeric i s).2 := by
  refine Spec.after (guards_withWriteGuard (s.statements i).query fun priorWrites => ?_) hs
  split_ifs with hbound
  · refine guards_executeBound priorWrites fun hpoisoned htarget bound hsome => ?_
    have hown := hsafe hpoisoned
    rwa [Statement.Safe, hsome, htarget] at hown
  · rw [Option.not_isSome_iff_eq_none] at hbound
    refine guards_of_keeps (ready_statementQuery fun query hquery => ?_)
    refine keeps_bind (keeps_ofExcept _) fun _ => ready_invalidatingCache query
      (holding_queryStatementResult fun hpoisoned => ?_)
    have hown := hsafe hpoisoned
    rw [Statement.Safe, hbound] at hown
    exact (hown query hquery).2

theorem executeUpdateStatement_guarded (describe : AppendReason → String) {s : Session σ}
    (hs : Ready w unpoisoned i (s.statements i) s)
    (hsafe : ¬unpoisoned → (s.statements i).Safe w.isAlphanumeric) :
    Watched w (executeUpdateStatement w.server w.isAlphanumeric describe i s).2 := by
  refine Spec.after (guards_withWriteGuard (s.statements i).query fun priorWrites => ?_) hs
  unfold updateRoute
  split
  · next bound request hbound htarget =>
    refine Spec.bind (Q := fun _ t => Holding w unpoisoned t.connection)
      (fun t ht => ⟨fun _ _ => ht.holding, fun _ _ => ht.guarded⟩) fun _ t ht => ?_
    refine ingest_guarded describe request priorWrites (fun hpoisoned => ?_) t.connection ht
    have hown := hsafe hpoisoned
    rwa [Statement.Safe, hbound, htarget] at hown
  · next bound hbound htarget =>
    refine guards_executeUpdateRows priorWrites fun hpoisoned other hother => ?_
    have hown := hsafe hpoisoned
    rwa [Statement.Safe, hother, htarget] at hown
  · next hbound =>
    refine guards_of_keeps (ready_statementQuery fun query hquery => ready_invalidatingCache query
      (holding_executeUpdateScript fun hpoisoned => ?_))
    have hown := hsafe hpoisoned
    rw [Statement.Safe, hbound] at hown
    exact hown query hquery

end Executing

section Runs
variable {σ : Type} {w : World σ} (describe : AppendReason → String)

theorem advance_guarded {unpoisoned : Prop} {s : Session σ} {r : Nat}
    (hs : Holding w unpoisoned s.connection)
    (hreader : ¬unpoisoned → ∀ reader, s.readers r = some reader →
      reader.stream.All (PlainRollbacks w.isAlphanumeric)) :
    Guarded w (advance w.server w.isAlphanumeric r s).2.connection := by
  rw [advance, bind_of_ok (read_apply s)]
  cases hfound : s.readers r with
  | none => exact hs.toGuarded
  | some reader =>
    have hstream : reader.stream.All fun text => ¬unpoisoned → PlainRollbacks w.isAlphanumeric text := by
      by_cases hshut : unpoisoned
      · exact ⟨fun _ _ => ⟨absurd hshut, fun _ _ _ => absurd hshut, fun _ _ _ _ => absurd hshut⟩,
          fun _ _ => ⟨fun _ _ => absurd hshut, fun _ _ _ => absurd hshut⟩⟩
      · exact (hreader hshut reader hfound).mono fun _ hplain _ => hplain
    dsimp only
    rw [advanceReader, bind_of_ok (read_apply s), setReader, bind_of_ok (update_apply _ s)]
    rcases hnext : reader.stream.next s.connection with ⟨_ | _ | query, later⟩
    · exact hs.toGuarded
    · exact hs.toGuarded
    · have hread : (nextQuery reader.stream s.connection).1 = .ok (some query, later) := by
        simp [nextQuery, hnext]
      have hquery := (hstream.nextQuery hread).2 query rfl
      have hresult : Keeps (fun t : Session σ => Holding w unpoisoned t.connection)
          (onConnection (boundQueryReaderWithRetry w.server w.isAlphanumeric query)) :=
        fun t ht => holding_boundQueryReader hquery t.connection ht
      refine (keeps_bind hresult (fun _ => keeps_ofExcept _) _ ?_).toGuarded
      exact hs

theorem perform_guarded {s : Session σ} {operation : Operation} (hguarded : Guarded w s.connection)
    (hsafe : StepSafe w s operation) :
    Guarded w (perform w.server w.isAlphanumeric describe operation s).2.connection := by
  have hholding : Holding w (s.connection.transactionPoison = none) s.connection :=
    ⟨hguarded, hguarded.shut, fun hopen => (hsafe (hguarded.poisoned hopen)).1⟩
  have hready (i : Nat) : Ready w (s.connection.transactionPoison = none) i
      (s.statements i) s :=
    ⟨hholding, rfl, rfl, rfl, rfl, fun _ => .inl⟩
  have hoperation (hpoisoned : ¬s.connection.transactionPoison = none) : operation.Safe w.isAlphanumeric s :=
    (hsafe (Option.isSome_iff_ne_none.mpr hpoisoned)).2
  have hignore {α : Type} {m : Task σ α} (h : Guarded w (m s).2.connection) :
      Guarded w (ignore m s).2.connection := by
    rcases hm : m s with ⟨_ | _, t⟩ <;> rw [hm] at h
    · rwa [ignore, bind_of_error hm]
    · rwa [ignore, bind_of_ok hm]
  cases operation with
  | newStatement | setSqlQuery | setTarget | setBindByName | setPrepareThreshold | bind => exact hguarded
  | prepare i => exact (ready_prepare s (hready i)).guarded
  | executeSchema i => exact hignore (ready_executeSchema s (hready i)).guarded
  | getParameterSchema i => exact (ready_getParameterSchema s (hready i)).guarded
  | execute i => exact hignore (executeWithRowsAffected_guarded (hready i) hoperation)
  | executeUpdate i =>
    exact hignore (executeUpdateStatement_guarded describe (hready i) hoperation)
  | advance r => exact advance_guarded hholding hoperation
  | commit =>
    exact (keeps_unit (holding_executeUpdate fun _ => commit_plain) _ hholding).toGuarded
  | rollback =>
    exact (keeps_unit (holding_executeUpdate fun _ => rollback_plain) _ hholding).toGuarded
  | setAutocommit enabled => exact (holding_setAutocommit enabled _ hholding).toGuarded
  | setCurrentSchema schema =>
    have hset : Keeps (Holding w (s.connection.transactionPoison = none))
        (setCurrentSchema w.server w.isAlphanumeric schema) :=
      keeps_ofExcept_bind fun quoted hquoted => keeps_bind (holding_executeUpdate
        fun hpoisoned => hoperation hpoisoned quoted hquoted) fun _ =>
          keeps_clearPreparedCache holding_steady
    exact (hset _ hholding).toGuarded
  | setCacheCapacity capacity positive =>
    exact (holding_steady.keeps_withCache (fun cache =>
      ((), cache.setCapacity capacity positive)) _ hholding).toGuarded

end Runs

-- The server refuses DELETE FROM u and every ROLLBACK but the plain one.
def refusingServer : Server Bool where
  execute s command :=
    match command with
    | .statement sql =>
      if sql.text = ascii "ROLLBACK" then ⟨.ok {}, true, s⟩
      else if sql.text = ascii "DELETE FROM u" ∨
          (heldStatements (fun _ => false) sql.text).any fun statement =>
            (leadingSqlKeyword statement).any (isKeyword · "rollback") then
        ⟨.error (adbcError "refused" .invalidState), false, s⟩
      else ⟨.ok {}, false, s⟩
    | .setAutocommit enabled => ⟨.ok {}, false, enabled⟩
    | _ => ⟨.ok {}, false, s⟩
  autocommit s := .ok s

def refusing : World Bool where
  server := refusingServer
  isAlphanumeric _ := false
  rollsBack s sql statement hok hmem hkeyword _ := by
    simp only [refusingServer] at hok ⊢
    split_ifs at hok ⊢ with hplain hrefused
    · rfl
    · cases hok
    · exact absurd (.inr (List.any_eq_true.mpr ⟨statement, hmem, hkeyword⟩)) hrefused
  staysOff s command hcommit _ hoff := by
    cases command with
    | setAutocommit enabled =>
      obtain rfl : enabled = false := hcommit
      exact fun h => by cases h
    | statement sql =>
      simp only [refusingServer] at hoff ⊢
      split_ifs <;> exact hoff
    | _ => exact hoff

def zeroColumnRows : Bound := ⟨[], [.row (.ok []) (.ok []), .row (.ok []) (.ok [])]⟩

def poisoningRun : List Operation :=
  [.setAutocommit false, .setSqlQuery 0 (ascii "DELETE FROM t"), .executeUpdate 0,
    .setSqlQuery 0 (ascii "DELETE FROM u"), .bind 0 zeroColumnRows, .executeUpdate 0]

def poisonedCommit : Option (Session Bool) :=
  exec (step refusingServer (fun _ => false) fun _ => "") (.start true 4 2 (by decide))
    (poisoningRun ++ [.setSqlQuery 0 (ascii "COMMIT"), .bind 0 zeroColumnRows, .executeUpdate 0])

def poisonedEvents : List Event :=
  [.sent (.setAutocommit false) true false, .sent (.statement (.literal (ascii "DELETE FROM t"))) true false,
    .sent (.statement (.literal (ascii "DELETE FROM u"))) false false, .poisoned]

def endsTransaction (s : Session Bool) : Operation → Bool
  | .commit | .rollback => !s.connection.server
  | _ => s.connection.transactionPoison.isNone

end MonetdbAdbc.Driver
