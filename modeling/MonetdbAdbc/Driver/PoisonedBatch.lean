import MonetdbAdbc.Driver.Poison

namespace MonetdbAdbc.Driver
open LittleEndian Text Lexing Program Sql Machine TextFields

section Texts
variable (isAlphanumeric : Bytes → Bool)

def LiteralArguments (arguments : Bytes) : Prop :=
  ∃ literals, (∀ literal ∈ literals, IsLiteral isAlphanumeric literal) ∧
    arguments = List.intercalate [44, 32] literals

structure Uncommitted (statements : List Bytes) : Prop where
  some : statements ≠ []
  keeps : ∀ statement ∈ statements, (statementEffects statement).commit = false

-- A row that a batch may hold: alone and as a part of the batch's script it is one or more
-- statements, none of them a COMMIT.
structure BatchRow (text : Bytes) : Prop where
  alone : Uncommitted (heldStatements isAlphanumeric text)
  within : ∃ statements read, WholeText isAlphanumeric (updateStatement text) statements read ∧
    Uncommitted statements

variable {isAlphanumeric} {text arguments : Bytes}

theorem uncommitted_blank : Uncommitted (heldStatements isAlphanumeric []) := by
  have hheld : heldStatements isAlphanumeric [] = [[]] := rfl
  rw [hheld]
  exact ⟨by simp, by simp [statementEffects, leadingSqlKeyword, splitKeyword, skipBlank]⟩

theorem script_uncommitted {texts : List Bytes} (h : ∀ text ∈ texts, BatchRow isAlphanumeric text) :
    Uncommitted (heldStatements isAlphanumeric (updateScript texts)) := by
  have hwhole : ∃ parts reads, WholeTexts isAlphanumeric (texts.map updateStatement) parts reads ∧
      (texts ≠ [] → Uncommitted parts.flatten) := by
    induction texts with
    | nil => exact ⟨[], [], .nil, fun hne => absurd rfl hne⟩
    | cons text texts ih =>
      rw [List.forall_mem_cons] at h
      obtain ⟨statements, read, hread, hown⟩ := h.1.within
      obtain ⟨parts, reads, hreads, hrest⟩ := ih h.2
      refine ⟨statements :: parts, read :: reads, .cons hread hreads, fun _ => ?_⟩
      rw [List.flatten_cons]
      refine ⟨List.append_ne_nil_of_left_ne_nil hown.some _, List.forall_mem_append.mpr
        ⟨hown.keeps, ?_⟩⟩
      by_cases htexts : texts = []
      · subst htexts
        cases hreads
        simp
      · exact (hrest htexts).keeps
  obtain ⟨parts, reads, hreads, hparts⟩ := hwhole
  by_cases htexts : texts = []
  · subst htexts
    exact uncommitted_blank
  · have hscript : updateScript texts = closedTexts (texts.map updateStatement) := by
      rw [updateScript, closedTexts, List.flatMap_map]
    rw [hscript, heldStatements, hreads.unbound (hparts htexts).some]
    exact hparts htexts

theorem WholeText.held {statements : List Bytes} {read : List Lexeme}
    (h : WholeText isAlphanumeric text statements read) (hne : statements ≠ []) :
    heldStatements isAlphanumeric text = statements := by
  have hscan := scanQuery_ok_iff.mpr ⟨read, reads_whole h.reads, .inl h.normal, rfl⟩
  rw [heldStatements, unboundStatements_eq_ok.mpr ⟨_, hscan, fold_slots_eq_nil.mpr h.slots, fun hnil =>
    hne (h.statements_eq.trans (List.map_eq_nil_iff.mpr hnil)), h.statements_eq.symm⟩]

theorem execute_leading (id : Nat) (arguments : Bytes) :
    leadingSqlKeyword (BoundSql.execute id arguments).text = some (ascii "EXECUTE") := by
  rw [leadingSqlKeyword, BoundSql.text, List.append_assoc, List.append_assoc, List.append_assoc,
    show ascii "EXECUTE " = ascii "EXECUTE" ++ [32] from rfl, List.append_assoc,
    splitKeyword_word (by decide) (by decide) (show Breaks ([32] ++ _) from rfl)]
  rfl

theorem execute_whole (h : LiteralArguments isAlphanumeric arguments) (id : Nat) :
    updateStatement (BoundSql.execute id arguments).text = (BoundSql.execute id arguments).text ∧
      ∃ read, WholeText isAlphanumeric (BoundSql.execute id arguments).text
        [(BoundSql.execute id arguments).text] read := by
  obtain ⟨literals, hliterals, rfl⟩ := h
  obtain ⟨hhead, hlast⟩ := execute_ends id (List.intercalate [44, 32] literals)
  exact ⟨updateStatement_closed hlast,
    Solid.wholeText (execute_solid id hliterals) (trim_closed hhead hlast)⟩

theorem execute_held (h : LiteralArguments isAlphanumeric arguments) (id : Nat) :
    heldStatements isAlphanumeric (BoundSql.execute id arguments).text =
      [(BoundSql.execute id arguments).text] := by
  obtain ⟨-, read, hread⟩ := execute_whole h id
  exact WholeText.held hread (by simp)

theorem execute_batchRow (h : LiteralArguments isAlphanumeric arguments) (id : Nat) :
    BatchRow isAlphanumeric (BoundSql.execute id arguments).text := by
  have hkeeps : Uncommitted [(BoundSql.execute id arguments).text] := by
    refine ⟨by simp, fun statement hmem => ?_⟩
    rw [List.mem_singleton.mp hmem, statementEffects, execute_leading, Option.any_some]
    rfl
  obtain ⟨hsame, read, hread⟩ := execute_whole h id
  exact ⟨by rwa [execute_held h id], _, read, by rwa [hsame], hkeeps⟩

theorem plain_of_keyword {keyword : Bytes} (hheld : heldStatements isAlphanumeric text = [text])
    (hkeyword : leadingSqlKeyword text = some keyword) (hother : isKeyword keyword "ROLLBACK" = false) :
    PlainRollbacks isAlphanumeric text := by
  intro command hmem
  rw [hheld, List.mem_singleton] at hmem
  have hown := command.leadingSqlKeyword_text
  rw [hmem, hkeyword] at hown
  have hspelled := command.keyword_spelled
  rw [← Option.some.inj hown, hother] at hspelled
  cases hspelled

theorem execute_plain (h : LiteralArguments isAlphanumeric arguments) (id : Nat) :
    PlainRollbacks isAlphanumeric (BoundSql.execute id arguments).text :=
  plain_of_keyword (execute_held h id) (execute_leading id arguments) rfl

theorem commit_plain : PlainRollbacks isAlphanumeric (ascii "COMMIT") :=
  plain_of_keyword rfl rfl rfl

theorem rollback_plain : PlainRollbacks isAlphanumeric (ascii "ROLLBACK") := by
  intro command hmem
  have hheld : heldStatements isAlphanumeric (ascii "ROLLBACK") = [ascii "ROLLBACK"] := rfl
  rw [hheld, List.mem_singleton] at hmem
  have hkeyword := command.keyword_spelled
  rw [isKeyword, eqIgnoreCase, beq_iff_eq] at hkeyword
  have hlength := congrArg List.length hmem
  have hletters := congrArg List.length hkeyword
  simp only [RollbackCommand.text, List.length_append, List.length_map] at hlength hletters
  refine .inl ?_
  cases hsavepoint : command.savepoint with
  | nil => rfl
  | cons word words =>
    have hword := (command.separated word (by simp [hsavepoint])).2
    have hpositive := List.length_pos_iff.mpr hword
    rw [hsavepoint, phrase, List.length_append] at hlength
    have hshort : (ascii "ROLLBACK").length = 8 := rfl
    omega

end Texts

section Rows
variable {σ : Type} {server : Server σ} {c : Connection σ} {P : Bytes → Prop}
  {stream rest : BoundQueryStream} {query : BoundQuery}

structure BoundRow.All (P : Bytes → Prop) (row : BoundRow) : Prop where
  literal : ∀ text, row.literal = .ok text → P text
  execute : ∀ arguments, row.arguments = .ok arguments → ∀ id, P (BoundSql.execute id arguments).text

structure BoundQuery.All (P : Bytes → Prop) (query : BoundQuery) : Prop where
  sql : P query.sql.text
  execute : ∀ invocation, query.prepared = some invocation → ∀ id,
    P (BoundSql.execute id invocation.arguments).text
  literal : ∀ invocation, query.prepared = some invocation → ∀ text,
    invocation.literalSql = some text → P text

structure BoundQueryStream.All (P : Bytes → Prop) (stream : BoundQueryStream) : Prop where
  pending : ∀ query ∈ stream.pending, query.All P
  items : ∀ row, .row row ∈ stream.items → row.All P

-- What is known of one row, and of every row when there are several.
structure BoundQueryStream.Clean (single many : Bytes → Prop) (stream : BoundQueryStream) : Prop where
  each : stream.All single
  batch : 2 ≤ stream.size → stream.All many

theorem BoundQueryStream.All.mono {Q : Bytes → Prop} (h : stream.All P) (hmono : ∀ text, P text → Q text) :
    stream.All Q where
  pending query hquery :=
    have hown := h.pending query hquery
    ⟨hmono _ hown.sql, fun invocation hinvocation id => hmono _ (hown.execute invocation hinvocation id),
      fun invocation hinvocation text htext => hmono _ (hown.literal invocation hinvocation text htext)⟩
  items row hrow :=
    have hown := h.items row hrow
    ⟨fun text htext => hmono _ (hown.literal text htext),
      fun arguments harguments id => hmono _ (hown.execute arguments harguments id)⟩

theorem ofLiteral_all {sql : Bytes} (h : P sql) (fallback : Option AdbcError) :
    (BoundQuery.ofLiteral sql fallback).All P :=
  ⟨h, by rintro _ ⟨⟩, by rintro _ ⟨⟩⟩

theorem ofPrepared_all {plan : PreparedPlan} {entry : PreparedEntry} {arguments : Bytes}
    {literalSql : Option Bytes} (hexecute : ∀ id, P (BoundSql.execute id arguments).text)
    (hliteral : ∀ text, literalSql = some text → P text) :
    (BoundQuery.ofPrepared plan entry arguments literalSql).All P :=
  ⟨hexecute entry.id, by rintro _ ⟨⟩; exact hexecute, by rintro _ ⟨⟩; exact hliteral⟩

theorem renderRow_all {row : BoundRow} (hrow : row.All P) (h : renderRow c stream row = .ok query) :
    query.All P := by
  rw [renderRow] at h
  cases hprepared : stream.prepared with
  | none =>
    rw [hprepared] at h
    cases hliteral : row.literal with
    | error error => rw [hliteral] at h; cases h
    | ok text =>
      rw [hliteral] at h
      cases h
      exact ofLiteral_all (hrow.literal text hliteral) _
  | some plan =>
    rw [hprepared] at h
    dsimp only [renderPrepared] at h
    split at h
    · obtain ⟨text, htext, h⟩ := bind_eq_ok.mp h
      cases h
      exact ofLiteral_all (hrow.literal text htext) _
    · split_ifs at h
      · obtain ⟨arguments, harguments, h⟩ := bind_eq_ok.mp h
        cases h
        exact ofPrepared_all (hrow.execute arguments harguments) (by rintro _ ⟨⟩)
      · obtain ⟨text, htext, h⟩ := bind_eq_ok.mp h
        obtain ⟨arguments, harguments, h⟩ := bind_eq_ok.mp h
        cases h
        refine ofPrepared_all (hrow.execute arguments harguments) ?_
        rintro _ ⟨⟩
        exact hrow.literal text htext

theorem BoundQueryStream.All.nextQuery {found : Option BoundQuery} (hstream : stream.All P)
    (h : (Driver.nextQuery stream c).1 = .ok (found, rest)) :
    rest.All P ∧ ∀ query ∈ found, query.All P := by
  rcases nextQuery_cases h with ⟨rfl, rfl, -⟩ | ⟨query, rfl, -, ⟨hfirst, hitems⟩ | ⟨row, -, hnil, hitems, hrow⟩⟩
  · exact ⟨hstream, by simp⟩
  · have hpending := hstream.pending
    rw [hfirst, List.forall_mem_cons] at hpending
    exact ⟨⟨hpending.2, hitems ▸ hstream.items⟩, by simpa using hpending.1⟩
  · have hrows := hstream.items
    rw [hitems] at hrows
    exact ⟨⟨by simp [hnil], fun other hother => hrows other (List.mem_cons_of_mem _ hother)⟩,
      by simpa using renderRow_all (hrows row List.mem_cons_self) hrow⟩

theorem nextQuery_size {found : Option BoundQuery} (h : (nextQuery stream c).1 = .ok (found, rest)) :
    stream.size = rest.size + found.toList.length ∧ (found = none → rest.size = 0) := by
  rcases nextQuery_cases h with ⟨rfl, rfl, hsize⟩ | ⟨query, rfl, -, ⟨hfirst, hitems⟩ | ⟨row, hnil, hrest, hitems, -⟩⟩
  · exact ⟨rfl, fun _ => hsize⟩
  · exact ⟨by simp [BoundQueryStream.size, hfirst, hitems]; omega, by rintro ⟨⟩⟩
  · exact ⟨by simp [BoundQueryStream.size, hnil, hrest, hitems], by rintro ⟨⟩⟩

-- The rows of a stream that was looked into: the same rows, some of them now pending.
structure SameRows (stream rest : BoundQueryStream) (found : List BoundQuery) : Prop where
  all : ∀ P, stream.All P → rest.All P ∧ ∀ query ∈ found, query.All P
  size : stream.size = rest.size + found.length

theorem streamIsEmpty_rows {empty : Bool} (h : (streamIsEmpty stream c).1 = .ok (empty, rest)) :
    SameRows stream rest [] ∧ (empty = false → 1 ≤ stream.size) := by
  obtain ⟨⟨found, later⟩, d, hnext, h⟩ := bind_result h
  have hnext : (nextQuery stream c).1 = .ok (found, later) := by rw [hnext]
  obtain ⟨hsize, -⟩ := nextQuery_size hnext
  cases found with
  | none =>
    cases h
    exact ⟨⟨fun P hall => ⟨(hall.nextQuery hnext).1, by simp⟩, hsize⟩, by rintro ⟨⟩⟩
  | some query =>
    cases h
    refine ⟨⟨fun P hall => ⟨?_, by simp⟩, ?_⟩, fun _ => ?_⟩
    · obtain ⟨hlater, hquery⟩ := hall.nextQuery hnext
      refine ⟨List.forall_mem_append.mpr ⟨hlater.pending, ?_⟩, hlater.items⟩
      rw [List.forall_mem_singleton]
      exact hquery query rfl
    · simp only [BoundQueryStream.size, List.length_append, Option.toList_some, List.length_singleton,
        List.length_nil] at hsize ⊢
      omega
    · rw [hsize]
      exact Nat.le_add_left _ _

theorem takeIfSingle_rows {single : Option BoundQuery}
    (h : (takeIfSingle stream c).1 = .ok (single, rest)) :
    SameRows stream rest single.toList ∧ (single.isSome = true → rest.size = 0) := by
  obtain ⟨⟨found, later⟩, d, hnext, h⟩ := bind_result h
  have hnext : (nextQuery stream c).1 = .ok (found, later) := by rw [hnext]
  obtain ⟨hsize, -⟩ := nextQuery_size hnext
  cases found with
  | none =>
    cases h
    exact ⟨⟨fun P hall => ⟨(hall.nextQuery hnext).1, by simp⟩, hsize⟩, by rintro ⟨⟩⟩
  | some first =>
    obtain ⟨⟨second, last⟩, e, hsecond, h⟩ := bind_result h
    have hsecond : (nextQuery later d).1 = .ok (second, last) := by rw [hsecond]
    obtain ⟨hlast, hnone⟩ := nextQuery_size hsecond
    cases second with
    | none =>
      cases h
      refine ⟨⟨fun P hall => ?_, hsize.trans (congrArg (· + 1) hlast)⟩, fun _ => hnone rfl⟩
      obtain ⟨hlater, hfirst⟩ := hall.nextQuery hnext
      exact ⟨(hlater.nextQuery hsecond).1, by simpa using hfirst first rfl⟩
    | some second =>
      cases h
      refine ⟨⟨fun P hall => ⟨?_, by simp⟩, ?_⟩, by rintro ⟨⟩⟩
      · obtain ⟨hlater, hfirst⟩ := hall.nextQuery hnext
        obtain ⟨hrest, hother⟩ := hlater.nextQuery hsecond
        exact ⟨List.forall_mem_cons.mpr ⟨hfirst first rfl, List.forall_mem_cons.mpr
          ⟨hother second rfl, hrest.pending⟩⟩, hrest.items⟩
      · simp only [BoundQueryStream.size, Option.toList_some, Option.toList_none, List.length_cons,
          List.length_nil] at hsize hlast ⊢
        omega

theorem SameRows.clean (h : SameRows stream rest []) {single many : Bytes → Prop}
    (hstream : stream.Clean single many) : rest.Clean single many :=
  ⟨(h.all _ hstream.each).1, fun hsize => (h.all _ (hstream.batch (by rw [h.size]; exact hsize))).1⟩

theorem BoundQuery.All.current {current : BoundQuery} (hquery : query.All P)
    (h : (currentBoundQuery server query c).1 = .ok current) : current.All P := by
  rw [currentBoundQuery] at h
  cases hprepared : query.prepared with
  | none =>
    rw [hprepared] at h
    cases h
    exact hquery
  | some invocation =>
    rw [hprepared] at h
    obtain ⟨d, e, -, h⟩ := bind_result h
    cases hfallback : (d.flags invocation.entry.id).literalFallback with
    | some fallback =>
      rw [hfallback] at h
      cases hliteral : invocation.literalSql with
      | none => rw [hliteral] at h; cases h
      | some sql =>
        rw [hliteral] at h
        cases h
        exact ofLiteral_all (hquery.literal invocation hprepared sql hliteral) _
    | none =>
      rw [hfallback] at h
      obtain ⟨entry, _, -, h⟩ := bind_result h
      obtain ⟨_, _, -, h⟩ := bind_result h
      cases h
      exact ofPrepared_all (hquery.execute invocation hprepared) (hquery.literal invocation hprepared)

theorem BoundQuery.All.retry {retry : BoundQuery} (hquery : query.All P)
    (h : (retryBoundQuery server query c).1 = .ok retry) : retry.All P := by
  rw [retryBoundQuery] at h
  cases hprepared : query.prepared with
  | none => rw [hprepared] at h; cases h
  | some invocation =>
    rw [hprepared] at h
    obtain ⟨entry, _, -, h⟩ := bind_result h
    obtain ⟨_, _, -, h⟩ := bind_result h
    obtain ⟨_, _, -, h⟩ := bind_result h
    cases h
    exact ofPrepared_all (hquery.execute invocation hprepared) (hquery.literal invocation hprepared)

end Rows

section Scopes
variable {σ : Type} {w : World σ} {unpoisoned : Prop} {scope : AtomicScope} {c : Connection σ}

-- What holds between begin_atomic and finish_atomic: the driver's own transaction is never begun on
-- a poisoned connection, and only a caller's transaction is poisoned.
def InScope (w : World σ) (unpoisoned : Prop) :
    AtomicScope → Connection σ → Prop
  | .autocommit => Holding w True
  | .callerTransaction => Guarded w
  | .savepoint _ _ => Holding w unpoisoned

theorem Holding.inScope (h : Holding w (unpoisoned ∨ scope = .autocommit) c) :
    InScope w unpoisoned scope c := by
  cases scope with
  | autocommit => exact h.weaken fun _ => .inr rfl
  | callerTransaction => exact h.toGuarded
  | savepoint name retain => exact h.weaken .inl

theorem InScope.guarded (h : InScope w unpoisoned scope c) :
    Guarded w c := by
  cases scope with
  | autocommit => exact h.toGuarded
  | callerTransaction => exact h
  | savepoint name retain => exact h.toGuarded

theorem InScope.holding (h : InScope w unpoisoned scope c)
    (hscope : scope ≠ .callerTransaction) : Holding w unpoisoned c := by
  cases scope with
  | autocommit => exact h.weaken fun _ => trivial
  | callerTransaction => exact absurd rfl hscope
  | savepoint name retain => exact h

theorem inScope_poison (hscope : scope = .callerTransaction) (reason : String) :
    Keeps (InScope w unpoisoned scope) (poisonTransaction reason) := by
  subst hscope
  exact guarded_poison reason

theorem inScope_steady (scope : AtomicScope) :
    Steady w.server (InScope w unpoisoned scope) := by
  cases scope with
  | autocommit => exact holding_steady
  | callerTransaction => exact guarded_steady
  | savepoint name retain => exact holding_steady

theorem inScope_finishAtomic {α : Type} (scope : AtomicScope) (operation : Except AdbcError α) :
    Keeps (InScope w unpoisoned scope) (finishAtomic w.server scope operation) := by
  refine (inScope_steady scope).quiet.keeps_finishAtomic (fun hscope command _ => ?_) operation
  subst hscope
  exact keeps_send fun h => absurd trivial h

theorem beginAtomic_scope (purpose : String) (callerScope : CallerTransactionScope)
    (priorWrites : Bool) (temporaryExists : Option Bool) :
    Spec (Holding w unpoisoned)
      (beginAtomic w.server purpose callerScope priorWrites temporaryExists)
      (fun scope => Holding w (unpoisoned ∨ scope = .autocommit)) (Guarded w) := by
  have hquiet : Quiet w.server (Holding w unpoisoned) := holding_steady.quiet
  have hguarded (c : Connection σ) (hc : Holding w unpoisoned c) :
    Guarded w c := hc.toGuarded
  have hinside {scope : AtomicScope} (hscope : scope ≠ .autocommit) (c : Connection σ)
      (hc : Holding w unpoisoned c) :
      Holding w (unpoisoned ∨ scope = .autocommit) c :=
    hc.weaken fun h => h.resolve_right hscope
  refine Spec.bind (Q := fun autocommit c => (autocommit = true → poisonOpen c.events = false) ∧
    Holding w unpoisoned c) (fun c hc => ⟨fun autocommit hok => ⟨?_, hc⟩,
      fun _ _ => hc.toGuarded⟩) fun autocommit => ?_
  · rintro rfl
    rw [Bool.eq_false_iff]
    exact fun hopen => hc.off hopen hok
  cases autocommit with
  | true =>
    have hoff : Keeps (Holding w True) (unit (send w.server (.setAutocommit false))) :=
      keeps_unit (keeps_send fun _ => rfl)
    refine Spec.weaken (R := Holding w True) ?_ fun c hc =>
      ⟨hc.2.toGuarded, fun _ => hc.1 rfl, hc.2.off⟩
    exact Spec.bind (hoff.spec fun _ hc => hc.toGuarded) fun _ =>
      Spec.pure fun c hc => hc.weaken fun _ => trivial
  | false =>
    refine Spec.weaken (R := Holding w unpoisoned) ?_ fun c hc => hc.2
    rw [if_neg Bool.false_ne_true]
    split_ifs
    · exact Spec.pure (hinside (by simp))
    · refine Spec.bind ((hquiet.keeps_retainSavepoint _).spec hguarded) fun retain => ?_
      refine Spec.bind ((hquiet.savepointName _).spec hguarded) fun name => ?_
      refine Spec.bind ((hquiet.keeps_send rfl).spec hguarded) fun _ => ?_
      exact Spec.pure (hinside (by simp))

end Scopes

section Updates
variable {σ : Type} {w : World σ} {unpoisoned : Prop} {stream : BoundQueryStream}

theorem holding_currentBoundQuery (query : BoundQuery) :
    Keeps (Holding w unpoisoned) (currentBoundQuery w.server query) :=
  holding_steady.keeps_currentBoundQuery holding_install query

theorem holding_retryBoundQuery (query : BoundQuery) :
    Keeps (Holding w unpoisoned) (retryBoundQuery w.server query) :=
  holding_steady.keeps_retryBoundQuery holding_install query

theorem holding_executeBatches (fuel : Nat) {pending : Option BoundQuery} (total : Option Int)
    (hstream : stream.All fun text => ¬unpoisoned → BatchRow w.isAlphanumeric text)
    (hpending : ∀ query ∈ pending,
      query.All fun text => ¬unpoisoned → BatchRow w.isAlphanumeric text) :
    Keeps (Holding w unpoisoned) (executeBatches w.server fuel stream pending total) := by
  induction fuel generalizing stream pending total with
  | zero => exact keeps_pure total
  | succ fuel ih =>
    refine keeps_result (keeps_of_state (collectBatch_state stream pending)) (fun c _ hcollected =>
      collectBatch_yields BoundQueryStream.All.nextQuery hstream hpending hcollected)
      fun collected hrows => ?_
    dsimp only
    split_ifs
    · exact keeps_pure total
    · refine keeps_bind (keeps_bind (keeps_send fun hpoisoned => ?_) fun _ => keeps_ofExcept _)
        fun total => ih total hrows.2.2 hrows.2.1
      refine commits_eq_false rfl (script_uncommitted fun text hmem => ?_).keeps
      rw [List.map_map] at hmem
      obtain ⟨query, hquery, rfl⟩ := List.mem_map.mp hmem
      exact (hrows.1 query hquery).sql hpoisoned

theorem holding_executeRemaining (reply : Reply)
    (hstream : stream.All fun text => ¬unpoisoned → BatchRow w.isAlphanumeric text) :
    Keeps (Holding w unpoisoned) (executeRemaining w.server stream reply) :=
  keeps_bind (keeps_ofExcept _) fun total =>
    holding_executeBatches _ total hstream (by rintro _ ⟨⟩)

theorem retried_guarded {current : BoundQuery} {f : BoundQuery → Action σ (Option Int)}
    (hcurrent : current.All fun text => ¬unpoisoned → BatchRow w.isAlphanumeric text)
    (hagain : ∀ query : BoundQuery,
      (query.All fun text => ¬unpoisoned → BatchRow w.isAlphanumeric text) →
      Spec (Holding w unpoisoned) (f query) (fun _ => Guarded w) (Guarded w)) :
    Spec (Holding w unpoisoned) (retryBoundQuery w.server current >>= f)
      (fun _ => Guarded w) (Guarded w) :=
  Spec.bind ((holding_retryBoundQuery current).result (fun _ hc => hc.toGuarded)
    fun c retry hresult => hcurrent.retry hresult) fun retry => Spec.assume (hagain retry)

theorem updateAttempt_guarded (priorWrites : Bool)
    {again : Option (BoundQuery → Action σ (Option Int))}
    (hstream : stream.All fun text => ¬unpoisoned → BatchRow w.isAlphanumeric text)
    (hagain : ∀ f, again = some f → ∀ query : BoundQuery,
      (query.All fun text => ¬unpoisoned → BatchRow w.isAlphanumeric text) →
      Spec (Holding w unpoisoned) (f query) (fun _ => Guarded w) (Guarded w)) {first : BoundQuery}
    (hfirst : first.All fun text => ¬unpoisoned → BatchRow w.isAlphanumeric text) :
    Spec (Holding w unpoisoned)
      (updateAttempt w.server priorWrites stream again first) (fun _ => Guarded w) (Guarded w) := by
  refine Spec.bind ((holding_currentBoundQuery first).result (fun _ hc => hc.toGuarded)
    fun c current hcurrent => hfirst.current hcurrent) fun current => Spec.assume fun hcurrent => ?_
  refine Spec.bind (beginAtomic_scope _ _ _ _) fun scope => ?_
  have hsend : Keeps (Holding w (unpoisoned ∨ scope = .autocommit))
      (send w.server (.statement current.sql)) :=
    keeps_send fun hpoisoned =>
      commits_eq_false rfl (hcurrent.sql fun hshut => hpoisoned (.inl hshut)).alone.keeps
  refine Spec.bind ((keeps_attempt hsend).spec fun _ hc => hc.toGuarded) fun sent => ?_
  have hguarded (c : Connection σ) (hc : InScope w unpoisoned scope c) :
    Guarded w c := hc.guarded
  have hfinish (result : Except AdbcError (Option Int)) :
      Keeps (InScope w unpoisoned scope) (finishAtomic w.server scope result) :=
    inScope_finishAtomic scope result
  cases sent with
  | ok reply =>
    have hrows : stream.All fun text => ¬(unpoisoned ∨ scope = .autocommit) →
        BatchRow w.isAlphanumeric text :=
      hstream.mono fun _ hrow hpoisoned => hrow fun hshut => hpoisoned (.inl hshut)
    refine Spec.bind ((keeps_attempt (holding_executeRemaining reply hrows)).spec
      fun _ hc => hc.toGuarded) fun result => ?_
    refine Spec.weaken (R := InScope w unpoisoned scope) ?_ fun _ hc => hc.inScope
    refine Spec.bind ((keeps_poisonOnError inScope_poison result).spec hguarded) fun _ => ?_
    exact ((hfinish result).spec hguarded).conseq (fun _ hc => hc) (fun _ => hguarded) fun _ hc => hc
  | error root =>
    refine Spec.weaken (R := InScope w unpoisoned scope) ?_ fun _ hc => hc.inScope
    refine Spec.bind ((keeps_poisonIfCaller inScope_poison).spec hguarded) fun _ => ?_
    refine Spec.bind ((keeps_attempt (hfinish _)).spec hguarded) fun result => ?_
    have hend (result : Except AdbcError (Option Int)) :
        Spec (InScope w unpoisoned scope) (Program.ofExcept result)
          (fun _ => Guarded w) (Guarded w) :=
      Spec.ofExcept (fun _ _ => hguarded) hguarded
    cases again with
    | none => exact hend result
    | some f =>
      cases result with
      | ok total => exact hend _
      | error value =>
        dsimp only
        split_ifs with hretry
        · exact (retried_guarded hcurrent (hagain f rfl)).weaken fun _ hc => hc.holding hretry.1
        · exact Spec.fail hguarded

theorem holding_executeSingleBoundUpdate {query : BoundQuery}
    (hquery : query.All fun text => ¬unpoisoned → PlainRollbacks w.isAlphanumeric text) :
    Keeps (Holding w unpoisoned) (executeSingleBoundUpdate w.server w.isAlphanumeric query) := by
  refine keeps_result (holding_currentBoundQuery query) (fun c _ h => hquery.current h)
    fun current hcurrent => ?_
  have hcanRetry : Keeps (Holding w unpoisoned) (canRetry w.server current) := by
    unfold canRetry
    split_ifs
    · exact keeps_serverAutocommit w.server
    · exact keeps_pure false
  refine keeps_bind hcanRetry fun retries => ?_
  refine keeps_bind (keeps_attempt (holding_executeUpdate hcurrent.sql)) fun result => ?_
  cases result with
  | ok total => exact keeps_pure total
  | error value =>
    dsimp only
    split_ifs
    · exact keeps_result (holding_retryBoundQuery current) (fun c _ h => hcurrent.retry h)
        fun retry hall => holding_executeUpdate hall.sql
    · exact keeps_fail value

theorem executeUpdatesAtomic_guarded (priorWrites : Bool)
    (hstream : stream.Clean (fun text => ¬unpoisoned → PlainRollbacks w.isAlphanumeric text)
      fun text => ¬unpoisoned → BatchRow w.isAlphanumeric text) :
    Spec (Holding w unpoisoned) (executeUpdatesAtomic w.server w.isAlphanumeric priorWrites stream)
      (fun _ => Guarded w) (Guarded w) := by
  refine Spec.bind ((keeps_of_state (nextQuery_state stream)).result (fun _ hc => hc.toGuarded)
    (R := fun found => ∃ c : Connection σ, (nextQuery stream c).1 = .ok found)
    fun c found hfound => ⟨c, hfound⟩) fun found => Spec.assume ?_
  rintro ⟨c, hfound⟩
  obtain ⟨_ | first, rest⟩ := found
  · exact Spec.pure fun _ hc => hc.toGuarded
  · refine Spec.bind ((keeps_of_state (streamIsEmpty_state rest)).result (fun _ hc => hc.toGuarded)
      fun d looked hlooked => streamIsEmpty_rows hlooked) fun looked => Spec.assume fun hlooked => ?_
    dsimp only
    split_ifs with hempty
    · refine ((holding_executeSingleBoundUpdate
        ((hstream.each.nextQuery hfound).2 first rfl)).spec fun _ hc => hc.toGuarded).conseq
        (fun _ hc => hc) (fun _ _ hc => hc.toGuarded) fun _ hc => hc
    · have htwo : 2 ≤ stream.size := by
        have hone := hlooked.2 (Bool.eq_false_iff.mpr hempty)
        have hsize := (nextQuery_size hfound).1
        rw [Option.toList_some, List.length_singleton] at hsize
        omega
      obtain ⟨hrest, hfirst⟩ := (hstream.batch htwo).nextQuery hfound
      have hlater := (hlooked.1.all _ hrest).1
      refine updateAttempt_guarded priorWrites hlater ?_ (hfirst first rfl)
      rintro f ⟨⟩ query hquery
      exact updateAttempt_guarded priorWrites hlater (by rintro f ⟨⟩) hquery

end Updates

end MonetdbAdbc.Driver
