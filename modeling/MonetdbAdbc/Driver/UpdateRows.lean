import MonetdbAdbc.Driver.StaleBatch
import MonetdbAdbc.Sql.UpdateScript

namespace MonetdbAdbc.Driver
open LittleEndian Text Lexing Machine TextFields AsciiNumber Program Sql

def executeRow (rendering : Rendering) (row : Nat × RecordBatch × Nat) : Except AdbcError Bytes := do
  let arguments ← renderArguments rendering row.2.1 row.2.2
  .ok (BoundSql.execute row.1 (List.intercalate [44, 32] arguments)).text

section Whole
variable {isAlphanumeric : Bytes → Bool} {text : Bytes}

theorem trimEnd_closed (h : text.getLast? = some 41) : trimEnd text = text := by
  obtain ⟨init, rfl⟩ := List.getLast?_eq_some_iff.mp h
  have hkeep (rest : Bytes) : dropSpace isSpace₁ (fun b a => isSpace₂ a b)
      (fun c b a => isSpace₃ a b c) (41 :: rest) = 41 :: rest := by
    match rest with
    | [] => rfl
    | [a] => simp [dropSpace, isSpace₁, isSpace₂]
    | a :: b :: rest => simp [dropSpace, isSpace₁, isSpace₂, isSpace₃]
  rw [trimEnd, List.reverse_append, List.reverse_singleton, List.singleton_append, hkeep,
    List.reverse_cons, List.reverse_reverse]

theorem trim_closed (h : text.head? = some 69) (hlast : text.getLast? = some 41) :
    trim text = text := by
  have hstart : trimStart text = text := by
    match text, h with
    | [_], rfl => rfl
    | [_, _], rfl => rfl
    | _ :: _ :: _ :: _, rfl => rfl
  rw [trim, hstart, trimEnd_closed hlast]

theorem updateStatement_closed (h : text.getLast? = some 41) : updateStatement text = text := by
  rw [updateStatement, trimEnd_closed h, trimEndMatches_of_ne]
  rw [h]
  decide

theorem Solid.wholeText (h : Solid isAlphanumeric never .normal text .normal)
    (htrim : trim text = text) : ∃ read, WholeText isAlphanumeric text [text] read := by
  obtain ⟨read, hstands, hinert, hsolid⟩ := h
  have hfold := Scan.new.fold_inert hinert
  have hcode : (read.foldl Scan.advance .new).statementHasCode = true :=
    hfold.hasCode.trans (List.any_eq_true.mpr hsolid)
  have hone : (read.foldl Scan.advance .new).addStatement text.length = [(0, text.length)] := by
    rw [Scan.addStatement_open hcode hfold.statements, hfold.start]
    rfl
  refine ⟨read, hstands.reads none [] rfl, fun lexeme hmem => Token.isSlot_of_isInert
    (hinert lexeme hmem), hstands.ends, (hfold.idle ProceduralScan.idle_new).semicolon, ?_, ?_⟩
  · rw [hone, List.forall_mem_singleton]
  · rw [hone, List.map_singleton, slice, List.take_length, List.drop_zero, htrim]

end Whole

section Execute
variable {isAlphanumeric : Bytes → Bool} {rendering : Rendering}

theorem isDigit_toString {n : Nat} : ∀ b ∈ ascii (toString n), IsDigit b := by
  intro b hb
  obtain ⟨c, hc, rfl⟩ := List.mem_map.mp hb
  rw [Nat.toString_eq_repr, Nat.toList_repr] at hc
  have hdigit := Nat.isDigit_of_mem_toDigits (by decide) (by decide) hc
  rw [Char.isDigit, Bool.and_eq_true, decide_eq_true_eq, decide_eq_true_eq, ge_iff_le,
    UInt32.le_iff_toNat_le, UInt32.le_iff_toNat_le] at hdigit
  have hrange : 48 ≤ c.toNat ∧ c.toNat ≤ 57 := hdigit
  constructor
  · rw [UInt8.le_iff_toNat_le, UInt8.toNat_ofNat']
    change 48 ≤ _
    omega
  · rw [UInt8.le_iff_toNat_le, UInt8.toNat_ofNat']
    change _ ≤ 57
    omega

theorem joined_literals {arguments : List Bytes}
    (h : ∀ argument ∈ arguments, IsLiteral isAlphanumeric argument) :
    Inert isAlphanumeric literalJoins .normal (List.intercalate [44, 32] arguments) .normal := by
  have hcomma : Solid isAlphanumeric never .normal [44, 32] .normal := keyword_solid rfl rfl
  induction arguments with
  | nil => exact (inert_nil .normal).weaken fun y hy => absurd hy Bool.false_ne_true
  | cons argument arguments ih =>
    rw [List.forall_mem_cons] at h
    cases arguments with
    | nil =>
      rw [List.intercalate_singleton]
      exact h.1.inert
    | cons next arguments =>
      rw [List.intercalate_cons_cons]
      rw [List.append_assoc]
      exact h.1.inert.append (hcomma.then (ih h.2)).inert fun _ _ => rfl

theorem execute_solid (id : Nat) {arguments : List Bytes}
    (h : ∀ argument ∈ arguments, IsLiteral isAlphanumeric argument) :
    Solid isAlphanumeric never .normal
      (BoundSql.execute id (List.intercalate [44, 32] arguments)).text .normal := by
  have hexecute : Solid isAlphanumeric never .normal (ascii "EXECUTE ") .normal :=
    keyword_solid rfl rfl
  have hid : Inert isAlphanumeric never .normal (ascii (toString id)) .normal :=
    marks_inert fun b hb => isMark_of_isDigit (isDigit_toString b hb)
  have hopen : Solid isAlphanumeric never .normal (ascii "(") .normal := keyword_solid rfl rfl
  have hclose : Solid isAlphanumeric never .normal (ascii ")") .normal := keyword_solid rfl rfl
  have hlist := (joined_literals h).append hclose.inert fun _ _ => rfl
  rw [BoundSql.text, List.append_assoc, List.append_assoc, List.append_assoc]
  exact hexecute.then (hid.then (hopen.then hlist).inert)

theorem execute_ends (id : Nat) (arguments : Bytes) :
    (BoundSql.execute id arguments).text.head? = some 69 ∧
      (BoundSql.execute id arguments).text.getLast? = some 41 := by
  rw [BoundSql.text]
  constructor
  · simp only [List.append_assoc]
    rfl
  · rw [List.getLast?_append]
    rfl

theorem executeRow_wholeText (hr : rendering.Formats) {row : Nat × RecordBatch × Nat} {text : Bytes}
    (h : executeRow rendering row = .ok text) :
    updateStatement text = text ∧ ∃ read, WholeText isAlphanumeric text [text] read := by
  obtain ⟨arguments, harguments, h⟩ := bind_eq_ok.mp h
  cases h
  rw [renderArguments] at harguments
  split_ifs at harguments
  have hliterals : ∀ argument ∈ arguments, IsLiteral isAlphanumeric argument := by
    intro argument hmem
    obtain ⟨pair, -, hpair⟩ := mapM_mem harguments argument hmem
    exact literal_isLiteral hr hpair
  obtain ⟨hhead, hlast⟩ := execute_ends row.1 (List.intercalate [44, 32] arguments)
  exact ⟨updateStatement_closed hlast,
    Solid.wholeText (execute_solid row.1 hliterals) (trim_closed hhead hlast)⟩

theorem executeRows_wholeTexts (hr : rendering.Formats) {rows : List (Nat × RecordBatch × Nat)}
    {texts : List Bytes} (h : rows.mapM (executeRow rendering) = .ok texts) :
    updateScript texts = closedTexts texts ∧
      ∃ reads, WholeTexts isAlphanumeric texts (texts.map fun text => [text]) reads := by
  induction rows generalizing texts with
  | nil =>
    cases h
    exact ⟨rfl, [], .nil⟩
  | cons row rows ih =>
    rw [List.mapM_cons] at h
    obtain ⟨text, htext, h⟩ := bind_eq_ok.mp h
    obtain ⟨rest, hrest, h⟩ := bind_eq_ok.mp h
    cases h
    obtain ⟨hkept, read, hread⟩ := @executeRow_wholeText isAlphanumeric _ hr _ _ htext
    obtain ⟨hscript, reads, hreads⟩ := ih hrest
    refine ⟨?_, read :: reads, .cons hread hreads⟩
    change updateStatement text ++ [59, 10] ++ updateScript rest = _
    rw [hkept, hscript]
    rfl

theorem execute_script_splits (isAlphanumeric : Bytes → Bool) (rendering : Rendering)
    (hformats : rendering.Formats) (rows : List (Nat × RecordBatch × Nat)) (texts : List Bytes)
    (hne : rows ≠ []) (hrows : rows.mapM (executeRow rendering) = .ok texts) :
    unboundStatements isAlphanumeric (updateScript texts) = .ok texts := by
  obtain ⟨hscript, reads, hreads⟩ := @executeRows_wholeTexts isAlphanumeric _ hformats _ _ hrows
  have hflat : (texts.map fun text => [text]).flatten = texts := by
    rw [← List.flatMap_def, List.flatMap_singleton']
  have hsome : texts ≠ [] := by
    rintro rfl
    exact hne (List.length_eq_zero_iff.mp (length_mapM hrows).symm)
  rw [hscript, hreads.unbound (by rwa [hflat]), hflat]

theorem quoted_rows_split :
    [(5, quotedBatch, 0), (12, quotedBatch, 0)].mapM (executeRow zeroFloats) =
        .ok [ascii "EXECUTE 5(R'x''; --', 5)", ascii "EXECUTE 12(R'x''; --', 5)"] ∧
      unboundStatements (fun _ => false)
          (updateScript [ascii "EXECUTE 5(R'x''; --', 5)", ascii "EXECUTE 12(R'x''; --', 5)"]) =
        .ok [ascii "EXECUTE 5(R'x''; --', 5)", ascii "EXECUTE 12(R'x''; --', 5)"] := by
  have hrows : [(5, quotedBatch, 0), (12, quotedBatch, 0)].mapM (executeRow zeroFloats) =
      .ok [ascii "EXECUTE 5(R'x''; --', 5)", ascii "EXECUTE 12(R'x''; --', 5)"] := by
    decide +kernel
  exact ⟨hrows, execute_script_splits (fun _ => false) zeroFloats zeroFloats_formats _ _ (by simp)
    hrows⟩

end Execute

section Batches
variable {σ : Type} {server : Server σ} {c : Connection σ} {stream : BoundQueryStream}
  {rows : List BoundQuery}

def BoundQueryStream.queries (c : Connection σ) (stream : BoundQueryStream) :
    Except AdbcError (List BoundQuery) := do
  let rows ← stream.items.mapM fun
    | .row row => renderRow c stream row
    | .failure error => .error error
  .ok (stream.pending ++ rows)

theorem nextQuery_of_queries (h : stream.queries c = .ok rows) :
    rows = [] ∧ nextQuery stream c = (.ok (none, stream), c) ∨
      ∃ query later rest, rows = query :: later ∧ rest.queries c = .ok later ∧
        nextQuery stream c = (.ok (some query, rest), c) := by
  obtain ⟨rendered, hrendered, h⟩ := bind_eq_ok.mp h
  cases h
  obtain ⟨items, prepared, fallback, pending⟩ := stream
  cases pending with
  | cons query pending =>
    exact .inr ⟨query, pending ++ rendered, ⟨items, prepared, fallback, pending⟩, rfl,
      bind_eq_ok.mpr ⟨rendered, hrendered, rfl⟩, rfl⟩
  | nil =>
    cases items with
    | nil =>
      cases hrendered
      exact .inl ⟨rfl, rfl⟩
    | cons item items =>
      rw [List.mapM_cons] at hrendered
      obtain ⟨query, hquery, hrendered⟩ := bind_eq_ok.mp hrendered
      obtain ⟨later, hlater, hrendered⟩ := bind_eq_ok.mp hrendered
      cases hrendered
      cases item with
      | failure error => cases hquery
      | row row =>
        refine .inr ⟨query, later, ⟨items, prepared, fallback, []⟩, rfl,
          bind_eq_ok.mpr ⟨later, hlater, rfl⟩, ?_⟩
        simp only [nextQuery, BoundQueryStream.next, hquery]

theorem length_queries (h : stream.queries c = .ok rows) : rows.length = stream.size := by
  obtain ⟨rendered, hrendered, h⟩ := bind_eq_ok.mp h
  cases h
  rw [List.length_append, length_mapM hrendered, BoundQueryStream.size]

def scriptBytes (batch : List BoundQuery) : Nat := (batch.map fun query => query.sql.text.length + 2).sum

def BatchBound (batch : List BoundQuery) : Prop :=
  batch.length ≤ parameterUpdateBatchRows ∧
    (batch.length ≤ 1 ∨ scriptBytes batch ≤ parameterUpdateBatchBytes + 2)

-- What one turn of the loop takes from the rows, what it holds back and what the stream still has.
structure BatchTaken (c : Connection σ) (rows out : List BoundQuery) (left : Option BoundQuery)
    (rest : BoundQueryStream) (later : List BoundQuery) : Prop where
  queries : rest.queries c = .ok later
  rows_eq : rows = out ++ (left.toList ++ later)
  bound : BatchBound out
  progress : out = [] → rows = []

-- A held back query is counted without its separator, and one huge query may saturate the counter.
theorem counted_bytes {weight sqlBytes length next : Nat}
    (hnext : saturatingAdd (saturatingAdd sqlBytes length) 2 = next)
    (hbytes : weight ≤ sqlBytes + 2 ∨ parameterUpdateBatchBytes < sqlBytes)
    (hfits : ¬parameterUpdateBatchBytes < next) : weight + (length + 2) ≤ next + 2 := by
  have hlimit : parameterUpdateBatchBytes + 2 < usizeMax := by decide
  rw [saturatingAdd, saturatingAdd] at hnext
  omega

theorem fillBatch_taken (room : Nat) {batch : List BoundQuery} {sqlBytes : Nat}
    (h : stream.queries c = .ok rows) (hroom : batch.length + room = parameterUpdateBatchRows)
    (hbytes : scriptBytes batch ≤ sqlBytes + 2 ∨ parameterUpdateBatchBytes < sqlBytes)
    (hbound : batch.length ≤ 1 ∨ scriptBytes batch ≤ parameterUpdateBatchBytes + 2) :
    ∃ out left rest later, fillBatch room stream batch sqlBytes c = (.ok (out, left, rest), c) ∧
      BatchTaken c (batch ++ rows) out left rest later := by
  induction room generalizing stream rows batch sqlBytes with
  | zero =>
    refine ⟨batch, none, stream, rows, rfl, h, rfl, ⟨hroom.le, hbound⟩, ?_⟩
    rintro rfl
    cases hroom
  | succ room ih =>
    obtain ⟨rfl, hnone⟩ | ⟨query, later, rest, rfl, hrest, hsome⟩ := nextQuery_of_queries h
    · rw [fillBatch, bind_of_ok hnone]
      exact ⟨batch, none, stream, [], rfl, h, rfl, ⟨by omega, hbound⟩, fun hnil => by rw [hnil]; rfl⟩
    · rw [fillBatch, bind_of_ok hsome]
      dsimp only
      split_ifs with hfull
      · exact ⟨batch, some query, rest, later, rfl, hrest, rfl, ⟨by omega, hbound⟩,
          fun hnil => absurd hnil hfull.1⟩
      · generalize hnext : saturatingAdd (saturatingAdd sqlBytes query.sql.text.length) 2 = next at hfull ⊢
        rw [not_and', not_not] at hfull
        have hlength : (batch ++ [query]).length = batch.length + 1 := List.length_append
        have hcounted : ¬parameterUpdateBatchBytes < next → scriptBytes (batch ++ [query]) ≤ next + 2 := by
          intro hfits
          have hweight : scriptBytes (batch ++ [query]) =
              scriptBytes batch + (query.sql.text.length + 2) := by simp [scriptBytes]
          rw [hweight]
          exact counted_bytes hnext hbytes hfits
        have htaken := @ih rest later (batch ++ [query]) next hrest (by omega) (by tauto) ?_
        · rwa [List.append_assoc] at htaken
        · by_cases hover : parameterUpdateBatchBytes < next
          · rw [hfull hover]
            exact .inl le_rfl
          · have hfits := hcounted hover
            exact .inr (by omega)

theorem collectBatch_taken (pending : Option BoundQuery) (h : stream.queries c = .ok rows) :
    ∃ out left rest later, collectBatch stream pending c = (.ok (out, left, rest), c) ∧
      BatchTaken c (pending.toList ++ rows) out left rest later := by
  cases pending with
  | none => exact fillBatch_taken parameterUpdateBatchRows h rfl (.inl (Nat.zero_le _)) (.inl (by simp))
  | some query =>
    refine fillBatch_taken (parameterUpdateBatchRows - 1) h rfl (.inl ?_) (.inl le_rfl)
    simp [scriptBytes]

def Event.script : Event → Option (List BoundSql)
  | .sent (.script rows) _ _ => some rows
  | _ => none

-- The scripts of a run: consecutive, non-empty, bounded batches of the rows from the first one on.
structure SendsRows (before after : List Event) (rows : List BoundQuery) (finished : Bool)
    (sent : List Event) (batches : List (List BoundQuery)) : Prop where
  events : after = before ++ sent
  scripts : sent.map Event.script = batches.map fun batch => some (batch.map (·.sql))
  inOrder : batches.flatten <+: rows
  complete : finished = true → batches.flatten = rows
  bound : ∀ batch ∈ batches, batch ≠ [] ∧ BatchBound batch

theorem executeBatches_sends (fuel : Nat) {pending : Option BoundQuery} (total : Option Int)
    (h : stream.queries c = .ok rows) (hfuel : (pending.toList ++ rows).length < fuel) :
    ∃ sent batches, SendsRows c.events (executeBatches server fuel stream pending total c).2.events
      (pending.toList ++ rows) (executeBatches server fuel stream pending total c).1.toBool sent
      batches := by
  induction fuel generalizing stream rows pending total c with
  | zero => cases hfuel
  | succ fuel ih =>
    obtain ⟨out, left, rest, later, hcollect, htaken⟩ := collectBatch_taken pending h
    rw [executeBatches, bind_of_ok hcollect]
    dsimp only
    split_ifs with hout
    · exact ⟨[], [], by simp, rfl, List.nil_prefix, fun _ => (htaken.progress hout).symm, by simp⟩
    · have hown := htaken.rows_eq
      rw [hown] at hfuel ⊢
      have hstate := @executeUpdateBatch_state σ server out total c
      rcases hrun : executeUpdateBatch server out total c with ⟨result, d⟩
      obtain rfl : d = (send server (.script (out.map (·.sql))) c).2 := by rw [← hstate, hrun]
      obtain ⟨event, hevent, hscript⟩ : ∃ event, (send server (.script (out.map (·.sql))) c).2.events =
          c.events ++ [event] ∧ event.script = some (out.map (·.sql)) := ⟨_, rfl, rfl⟩
      cases result with
      | error error =>
        rw [bind_of_error hrun]
        refine ⟨[event], [out], hevent, ?_, ?_, fun hok => absurd hok Bool.false_ne_true, ?_⟩
        · rw [List.map_singleton, hscript, List.map_singleton]
        · simp
        · simpa using ⟨hout, htaken.bound⟩
      | ok total =>
        rw [bind_of_ok hrun]
        have hpos := List.length_pos_of_ne_nil hout
        rw [List.length_append] at hfuel
        obtain ⟨sent, batches, hsent⟩ := @ih (send server (.script (out.map (·.sql))) c).2 rest later
          left total htaken.queries (by omega)
        refine ⟨event :: sent, out :: batches, ?_, ?_, ?_, fun hok => ?_, ?_⟩
        · rw [hsent.events, hevent, List.append_assoc, List.singleton_append]
        · rw [List.map_cons, List.map_cons, hsent.scripts, hscript]
        · rw [List.flatten_cons, List.prefix_append_right_inj]
          exact hsent.inOrder
        · rw [List.flatten_cons, hsent.complete hok]
        · exact List.forall_mem_cons.mpr ⟨⟨hout, htaken.bound⟩, hsent.bound⟩

theorem remaining_rows_sent_in_batches (server : Server σ) (stream : BoundQueryStream) (reply : Reply)
    (c : Connection σ) (rows : List BoundQuery) (h : stream.queries c = .ok rows) :
    ∃ sent batches, SendsRows c.events (executeRemaining server stream reply c).2.events rows
      (executeRemaining server stream reply c).1.toBool sent batches := by
  rw [executeRemaining]
  cases addAffectedRows none [affected reply] with
  | error error =>
    exact ⟨[], [], (List.append_nil _).symm, rfl, List.nil_prefix,
      fun hok => absurd hok Bool.false_ne_true, by simp⟩
  | ok total =>
    refine @executeBatches_sends σ server c stream rows _ none total h ?_
    rw [Option.toList_none, List.nil_append, length_queries h]
    exact Nat.lt_succ_self _

theorem two_inserts_sent_in_batches :
    ∃ sent batches, SendsRows [] (executeRemaining planServer twoInserts {} clearedCache).2.events
      [.ofPrepared insertPlan ⟨1, [], []⟩ (ascii "7") none,
        .ofPrepared insertPlan ⟨1, [], []⟩ (ascii "8") none]
      (executeRemaining planServer twoInserts {} clearedCache).1.toBool sent batches :=
  remaining_rows_sent_in_batches planServer twoInserts {} clearedCache _ rfl

end Batches

end MonetdbAdbc.Driver
