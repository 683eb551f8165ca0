import MonetdbAdbc.Sql.Transactions
import MonetdbAdbc.Sql.UpdateScript

namespace MonetdbAdbc.Sql
open LittleEndian Text Lexing Machine
open scoped Computability

section Segments

structure Scan.Unsplit (scan : Scan) : Prop where
  statements : scan.statements = []
  start : scan.statementStart = 0

theorem Scan.unsplit_new : Scan.new.Unsplit := ⟨rfl, rfl⟩

theorem Scan.Unsplit.before {scan : Scan} {lexeme : Lexeme} (h : (scan.advance lexeme).Unsplit) :
    scan.Unsplit := by
  have hmoved := scan.advance_moved lexeme
  cases hmove : scan.procedural.move lexeme.token with
  | keeps | opens =>
    rw [hmove] at hmoved
    exact ⟨hmoved.1.symm.trans h.statements, hmoved.2.1.symm.trans h.start⟩
  | closes =>
    rw [hmove] at hmoved
    exact absurd (hmoved.2.1.symm.trans h.start) (Nat.succ_ne_zero _)

theorem Scan.Unsplit.first {scan : Scan} {read : List Lexeme}
    (h : (read.foldl Scan.advance scan).Unsplit) : scan.Unsplit := by
  induction read generalizing scan with
  | nil => exact h
  | cons lexeme read ih => exact (ih h).before

-- The lexemes before a statement: none, or all up to the semicolon that closes the one before.
structure Starts (before : List Lexeme) : Prop where
  between : (before.foldl Scan.advance .new).Between 0
  closed : before = [] ∨ ∃ init, before = init ++ [semicolonLexeme]

theorem starts_nil : Starts [] := ⟨⟨rfl, rfl, rfl, rfl, rfl⟩, .inl rfl⟩

structure Segment (read before part after : List Lexeme) : Prop where
  lexemes : read = before ++ (part ++ after)
  starts : Starts before
  unsplit : (part.foldl Scan.advance .new).Unsplit

structure ScannedStatement (read before part after : List Lexeme) (range : Nat × Nat) : Prop
    extends Segment read before part after where
  hasCode : (part.foldl Scan.advance .new).statementHasCode = true
  start : range.1 = (before.map Lexeme.length).sum
  stop : range.2 = (before.map Lexeme.length).sum + (part.map Lexeme.length).sum
  ends : after = [] ∨ ∃ later, after = semicolonLexeme :: later

variable {read before part after : List Lexeme}

theorem Segment.beside (h : Segment read before part []) :
    Beside (before.map Lexeme.length).sum 0 (before.foldl Scan.advance .new).statements
      (read.foldl Scan.advance .new) (part.foldl Scan.advance .new) := by
  have hbeside := h.starts.between.beside.fold part
  rwa [fold_index, show Scan.new.index = 0 from rfl, Nat.zero_add, ← List.foldl_append,
    ← List.append_nil part, ← h.lexemes, List.append_nil] at hbeside

theorem Segment.open_range (h : Segment read before part []) :
    (read.foldl Scan.advance .new).statementStart = (before.map Lexeme.length).sum ∧
      (read.foldl Scan.advance .new).index =
        (before.map Lexeme.length).sum + (part.map Lexeme.length).sum := by
  have hbeside := h.beside
  refine ⟨?_, ?_⟩
  · rw [hbeside.start, h.unsplit.start]
    rfl
  · rw [hbeside.index, fold_index, show Scan.new.index = 0 from rfl]
    omega

-- One lexeme more either joins the open statement or closes it.
theorem Segment.extend (h : Segment read before part []) {lexeme : Lexeme}
    (hslots : ∀ other ∈ read ++ [lexeme], other.token.isSlot = false)
    (hsemicolon : lexeme.token = .semicolon → lexeme = semicolonLexeme) :
    (∃ before part, Segment (read ++ [lexeme]) before part []) ∧
      ∀ range ∈ ((read ++ [lexeme]).foldl Scan.advance .new).statements,
        range ∈ (read.foldl Scan.advance .new).statements ∨
          ScannedStatement (read ++ [lexeme]) before part [lexeme] range := by
  have hbeside := h.beside
  have hjoined : read ++ [lexeme] = before ++ (part ++ [lexeme]) := by
    rw [h.lexemes, List.append_nil, List.append_assoc]
  have hmoved := (read.foldl Scan.advance .new).advance_moved lexeme
  have hown := (part.foldl Scan.advance .new).advance_moved lexeme
  rw [hbeside.procedural] at hmoved
  have hfold (lexemes : List Lexeme) : (lexemes ++ [lexeme]).foldl Scan.advance .new =
      (lexemes.foldl Scan.advance .new).advance lexeme := by
    rw [List.foldl_append]
    rfl
  have hstays (hstatements : ((part.foldl Scan.advance .new).advance lexeme).statements =
        (part.foldl Scan.advance .new).statements)
      (hstart : ((part.foldl Scan.advance .new).advance lexeme).statementStart =
        (part.foldl Scan.advance .new).statementStart) :
      ∃ before part, Segment (read ++ [lexeme]) before part [] := by
    refine ⟨before, part ++ [lexeme], by rw [hjoined, List.append_nil], h.starts, ?_⟩
    rw [hfold]
    exact ⟨hstatements.trans h.unsplit.statements, hstart.trans h.unsplit.start⟩
  cases hmove : (part.foldl Scan.advance .new).procedural.move lexeme.token with
  | keeps | opens =>
    rw [hmove] at hmoved hown
    refine ⟨hstays hown.1 hown.2.1, fun range hrange => .inl ?_⟩
    rwa [hfold, hmoved.1] at hrange
  | closes =>
    rw [hmove] at hmoved
    have htoken : lexeme.token = .semicolon := by
      cases htoken : lexeme.token with
      | semicolon => rfl
      | silent | slot | code | word =>
        rw [htoken] at hmove
        cases hmove
    have hlexeme := hsemicolon htoken
    have hexternal : ¬(read.foldl Scan.advance .new).procedural.semicolonIsInternal = true := by
      intro hinternal
      rw [← hbeside.procedural, htoken, ProceduralScan.move, if_pos hinternal] at hmove
      cases hmove
    refine ⟨⟨read ++ [lexeme], [], by rw [List.append_nil, List.append_nil], ⟨?_, .inr ⟨read, by rw [hlexeme]⟩⟩,
      Scan.unsplit_new⟩, fun range hrange => ?_⟩
    · refine ⟨?_, ?_, ?_, ?_, fold_slots_eq_nil.mpr hslots⟩
      all_goals
        rw [hfold, hlexeme]
        simp only [Scan.advance, Scan.observe, semicolonLexeme, if_neg hexternal]
    · obtain ⟨hstart, hindex⟩ := h.open_range
      rw [hfold, hmoved.1, Scan.addStatement] at hrange
      split_ifs at hrange with hcode
      · rcases List.mem_append.mp hrange with hold | hnew
        · exact .inl hold
        · obtain rfl := List.mem_singleton.mp hnew
          exact .inr ⟨⟨hjoined, h.starts, h.unsplit⟩, hbeside.hasCode ▸ hcode, hstart, hindex,
            .inr ⟨[], by rw [hlexeme]⟩⟩
      · exact .inl hrange

theorem ScannedStatement.extend {range : Nat × Nat} (h : ScannedStatement read before part after range)
    (hends : after ≠ []) (lexeme : Lexeme) :
    ScannedStatement (read ++ [lexeme]) before part (after ++ [lexeme]) range := by
  refine ⟨⟨?_, h.starts, h.unsplit⟩, h.hasCode, h.start, h.stop, .inr ?_⟩
  · rw [h.lexemes, List.append_assoc, List.append_assoc]
  · obtain ⟨later, rfl⟩ := h.ends.resolve_left hends
    exact ⟨later ++ [lexeme], rfl⟩

theorem segments (hslots : ∀ lexeme ∈ read, lexeme.token.isSlot = false)
    (hsemicolon : ∀ lexeme ∈ read, lexeme.token = .semicolon → lexeme = semicolonLexeme) :
    (∃ before part, Segment read before part []) ∧
      ∀ range ∈ (read.foldl Scan.advance .new).statements,
        ∃ before part after, ScannedStatement read before part after range ∧ after ≠ [] := by
  induction read using List.reverseRecOn with
  | nil => exact ⟨⟨[], [], rfl, starts_nil, Scan.unsplit_new⟩, by rintro range ⟨⟩⟩
  | append_singleton read lexeme ih =>
    have hall := List.forall_mem_append.mp hsemicolon
    obtain ⟨⟨before, part, hopen⟩, hstatements⟩ :=
      ih (List.forall_mem_append.mp hslots).1 hall.1
    obtain ⟨hnext, hranges⟩ := hopen.extend hslots (hall.2 lexeme (List.mem_singleton_self _))
    refine ⟨hnext, fun range hrange => ?_⟩
    rcases hranges range hrange with hold | hnew
    · obtain ⟨before, part, after, hstatement, hends⟩ := hstatements range hold
      exact ⟨before, part, after ++ [lexeme], hstatement.extend hends lexeme, by simp⟩
    · exact ⟨before, part, [lexeme], hnew, by simp⟩

theorem statement_of_range (hslots : ∀ lexeme ∈ read, lexeme.token.isSlot = false)
    (hsemicolon : ∀ lexeme ∈ read, lexeme.token = .semicolon → lexeme = semicolonLexeme)
    {range : Nat × Nat} (h : range ∈ (read.foldl Scan.advance .new).addStatement
      (read.foldl Scan.advance .new).index) :
    ∃ before part after, ScannedStatement read before part after range := by
  obtain ⟨⟨before, part, hopen⟩, hstatements⟩ := segments hslots hsemicolon
  rw [Scan.addStatement] at h
  have hclosed (hmem : range ∈ (read.foldl Scan.advance .new).statements) :
      ∃ before part after, ScannedStatement read before part after range := by
    obtain ⟨before, part, after, hstatement, -⟩ := hstatements range hmem
    exact ⟨before, part, after, hstatement⟩
  split_ifs at h with hcode
  · rcases List.mem_append.mp h with hold | hlast
    · exact hclosed hold
    · obtain rfl := List.mem_singleton.mp hlast
      obtain ⟨hstart, hindex⟩ := hopen.open_range
      exact ⟨before, part, [], hopen, hopen.beside.hasCode ▸ hcode, hstart, hindex, .inl rfl⟩
  · exact hclosed h

end Segments

section Alone
variable {isAlphanumeric : Bytes → Bool} {state : LexState} {previous : Option UInt8}
  {text after : Bytes} {read : List Lexeme}

theorem reads_semicolon (h : Lexing.Reads (sqlLexer isAlphanumeric) after state previous text read) :
    ∀ lexeme ∈ read, lexeme.token = .semicolon → lexeme = semicolonLexeme := by
  induction h with
  | nil => simp
  | cons hread _ _ ih =>
    rw [List.forall_mem_cons]
    exact ⟨fun htoken => (lex_semicolon hread htoken).2.2, ih⟩

theorem reads_closing {later : List Lexeme}
    (h : Lexing.Reads (sqlLexer isAlphanumeric) after state previous text (semicolonLexeme :: later)) :
    state = .normal ∧ ∃ rest, text = 59 :: rest ∧ (later = [] → rest = []) := by
  cases h with
  | @cons _ _ b body piece _ _ hread hlength htail =>
    obtain ⟨hstate, rfl, -⟩ := lex_semicolon hread rfl
    obtain rfl : body = [] := List.length_eq_zero_iff.mp (Nat.succ.inj hlength).symm
    refine ⟨hstate, piece, rfl, ?_⟩
    rintro rfl
    cases htail
    rfl

theorem reads_valid (h : Lexing.Reads (sqlLexer isAlphanumeric) after state previous text read)
    (hvalid : Utf8.valid (text ++ after) = true) : Utf8.valid after = true := by
  induction h with
  | nil => exact hvalid
  | @cons s p a body piece lexeme read hread hlength _ ih =>
    refine ih ?_
    rw [List.cons_append, List.append_assoc] at hvalid
    have hwhole := (lex_whole isAlphanumeric hvalid hread).2
    rwa [show lexeme.length = body.length + 1 from hlength, List.drop_succ_cons,
      List.drop_left] at hwhole

theorem Starts.not_colon {before : List Lexeme} (h : Starts before)
    (hreads : Lexing.Reads (sqlLexer isAlphanumeric) after .normal none text before) :
    lastOr none text ≠ some 58 := by
  rcases h.closed with rfl | ⟨init, rfl⟩
  · cases hreads
    simp [lastOr]
  · obtain ⟨first, second, rfl, -, hlast⟩ := hreads.split
    obtain ⟨-, rest, rfl, hrest⟩ := reads_closing hlast
    obtain rfl := hrest rfl
    rw [lastOr_append]
    exact fun h => absurd (Option.some.inj h) (by decide)

theorem ScannedStatement.reads {query : Bytes} {before part tail : List Lexeme} {range : Nat × Nat}
    (h : ScannedStatement read before part tail range)
    (hreads : Lexing.Reads (sqlLexer isAlphanumeric) [] .normal none query read)
    (hslots : ∀ lexeme ∈ read, lexeme.token.isSlot = false)
    (hend : endState (sqlLexer isAlphanumeric) .normal read = .normal ∨
      endState (sqlLexer isAlphanumeric) .normal read = .lineComment)
    (hvalid : Utf8.valid query = true) :
    Lexing.Reads (sqlLexer isAlphanumeric) [] .normal none (slice query range) part ∧
      (endState (sqlLexer isAlphanumeric) .normal part = .normal ∨
        endState (sqlLexer isAlphanumeric) .normal part = .lineComment) ∧
      Utf8.valid (slice query range) = true := by
  have hlexemes := h.lexemes
  subst hlexemes
  obtain ⟨first, rest, rfl, hfirst, hrest⟩ := hreads.split
  obtain ⟨piece, behind, rfl, hpiece, hbehind⟩ := hrest.split
  have hnormal : endState (sqlLexer isAlphanumeric) .normal before = .normal :=
    (fold_state Scan.new before).symm.trans h.starts.between.state
  rw [hnormal] at hpiece hbehind
  rw [List.append_nil] at hfirst hpiece
  have hslice : slice (first ++ (piece ++ behind)) range = piece := by
    have hstart : range.1 = 0 + first.length := by
      rw [h.start, Nat.zero_add]
      exact hfirst.size_eq
    have hstop : range.2 = piece.length + first.length := by
      rw [h.stop, Nat.add_comm]
      exact congrArg₂ _ hpiece.size_eq hfirst.size_eq
    have hshift := slice_shift first piece behind (le_refl (0, piece.length).2)
    rw [← hstart, ← hstop] at hshift
    rw [show range = (range.1, range.2) from rfl, hshift, slice, List.take_length]
    rfl
  have hmiddle := reads_valid hfirst hvalid
  have hown := Utf8.valid_left (reads_valid hpiece hmiddle) hmiddle
  have hnone : (none : Option UInt8) ≠ some 58 := by simp
  have hplain : ∀ lexeme ∈ part, lexeme.token.isSlot = false := fun lexeme hmem =>
    hslots lexeme (by simp [hmem])
  rw [hslice]
  refine ⟨reads_previous (h.starts.not_colon hfirst) hnone ?_, ?_, hown⟩
  · rcases h.ends with rfl | ⟨later, rfl⟩
    · cases hbehind
      exact hpiece
    · obtain ⟨-, rest, rfl, -⟩ := reads_closing hbehind
      exact reads_seam hpiece hplain (sealed_semicolon piece rest) (sealed_nil piece)
        (fun hnil => absurd hnil (List.cons_ne_nil _ _))
  · rcases h.ends with rfl | ⟨later, rfl⟩
    · rwa [List.append_nil, endState_append, hnormal] at hend
    · exact .inl (reads_closing hbehind).1

-- The statements that a text sent to the server holds; a text that cannot be split is one statement.
def heldStatements (isAlphanumeric : Bytes → Bool) (text : Bytes) : List Bytes :=
  match unboundStatements isAlphanumeric text with
  | .ok statements => statements
  | .error _ => [text]

theorem heldStatements_of_unsplit {read : List Lexeme} {text : Bytes} (hvalid : Utf8.valid text = true)
    (hreads : Lexing.Reads (sqlLexer isAlphanumeric) [] .normal none text read)
    (hend : endState (sqlLexer isAlphanumeric) .normal read = .normal ∨
      endState (sqlLexer isAlphanumeric) .normal read = .lineComment)
    (hunsplit : (read.foldl Scan.advance .new).Unsplit) :
    heldStatements isAlphanumeric (trim text) = [trim text] := by
  obtain ⟨lead, hlead, hstart⟩ := trimStart_star text
  obtain ⟨tail, htail, hstop⟩ := trimEnd_star (trimStart text)
  have htrailer : tail ∈ trailer := star_mono (fun _ => .inl) htail
  have hparts : text = lead ++ (trim text ++ tail) := hstart.trans (congrArg (lead ++ ·) hstop)
  have hmiddle : Utf8.valid (trim text ++ tail) = true :=
    Utf8.valid_right (star_valid (fun _ => wideSpace_valid) hlead) (hparts ▸ hvalid)
  have hown := Utf8.valid_left (star_valid (fun _ => piece_valid) htrailer) hmiddle
  have hread : readText isAlphanumeric (lead ++ (trim text ++ tail)) = .ok read :=
    hparts ▸ reads_whole hreads
  obtain ⟨leads, first, last, rfl, hnew, hfirst, hlength, hstate, -⟩ :=
    readText_parts hlead htrailer hown hread hend
  rw [List.foldl_append, List.foldl_append] at hunsplit
  have hwhole := hunsplit.first
  have hweight : (first.foldl Scan.advance (leads.foldl Scan.advance .new)).weight ≤ 1 := by
    rw [Scan.weight, hwhole.statements]
    split_ifs <;> simp
  have haligned := hnew.fold first hweight
  have hscan : scanQuery isAlphanumeric (trim text) =
      .ok ((first.foldl Scan.advance .new).result (trim text).length) :=
    scanQuery_ok_iff.mpr ⟨first, hfirst, hstate, rfl⟩
  rw [heldStatements]
  cases hsplit : unboundStatements isAlphanumeric (trim text) with
  | error error => rfl
  | ok statements =>
    obtain ⟨scan, hother, -, hsome, rfl⟩ := unboundStatements_eq_ok.mp hsplit
    obtain rfl := Except.ok.inj (hscan.symm.trans hother)
    cases haligned.phase with
    | blank statements code start =>
      exact absurd ((Scan.addStatement_closed code _).trans statements) hsome
    | opened statements statements' code code' start =>
      have hzero : (first.foldl Scan.advance Scan.new).statementStart = 0 := by
        rw [hwhole.start, Shifted] at start
        omega
      rw [Scan.result, Scan.addStatement_open code' statements', hzero, List.map_singleton, slice,
        List.take_length, List.drop_zero, trim_trim]
    | closed statements statements' code code' start =>
      rw [hwhole.statements] at statements
      cases statements

theorem heldStatements_of_split {query statement : Bytes} {statements : List Bytes}
    (hvalid : Utf8.valid query = true)
    (h : unboundStatements isAlphanumeric query = .ok statements) (hmem : statement ∈ statements) :
    heldStatements isAlphanumeric statement = [statement] := by
  obtain ⟨scan, hscan, hslots, -, rfl⟩ := unboundStatements_eq_ok.mp h
  obtain ⟨read, hread, hend, rfl⟩ := scanQuery_ok_iff.mp hscan
  obtain ⟨range, hrange, rfl⟩ := List.mem_map.mp hmem
  have hplain := fold_slots_eq_nil.mp hslots
  have hreads := reads_of_scan hvalid hread hend
  have hindex : (read.foldl Scan.advance .new).index = query.length := by
    rw [fold_index]
    exact (Nat.zero_add _).trans hreads.size_eq
  rw [Scan.result, ← hindex] at hrange
  obtain ⟨before, part, after, hstatement⟩ := statement_of_range hplain (reads_semicolon hreads) hrange
  obtain ⟨hown, hstate, hpiece⟩ := hstatement.reads hreads hplain hend hvalid
  exact heldStatements_of_unsplit hpiece hown hstate hstatement.unsplit

end Alone

section Held
variable {isAlphanumeric : Bytes → Bool} {text statement : Bytes} {effects : TransactionEffects}

theorem commit_of_held (h : transactionEffects isAlphanumeric text = .ok effects)
    (hmem : statement ∈ heldStatements isAlphanumeric text)
    (hcommit : (statementEffects statement).commit = true) : effects.commit = true := by
  rw [heldStatements] at hmem
  cases hsplit : unboundStatements isAlphanumeric text with
  | ok statements =>
    rw [hsplit] at hmem
    rw [transactionEffects_of_statements hsplit, scriptEffects_eq] at h
    cases h
    exact List.any_eq_true.mpr ⟨statement, hmem, hcommit⟩
  | error error =>
    rw [hsplit] at hmem
    obtain rfl := List.mem_singleton.mp hmem
    rw [transactionEffects, contains_commit List.infix_rfl hcommit, hsplit] at h
    cases h

theorem rollback_held (h : transactionEffects isAlphanumeric text = .ok effects)
    (hrollback : effects.rollback = true) :
    ∃ statement ∈ heldStatements isAlphanumeric text, isTransactionRollback statement = true := by
  rw [heldStatements]
  cases hsplit : unboundStatements isAlphanumeric text with
  | ok statements =>
    rw [transactionEffects_of_statements hsplit, scriptEffects_eq] at h
    cases h
    exact List.any_eq_true.mp hrollback
  | error error =>
    rw [transactionEffects, hsplit] at h
    split_ifs at h
    · cases h
      cases hrollback
    · cases h

-- No statement of the text is a rollback to a savepoint that is_transaction_rollback takes for a
-- full one.
def PlainRollbacks (isAlphanumeric : Bytes → Bool) (text : Bytes) : Prop :=
  ∀ command : RollbackCommand, command.text ∈ heldStatements isAlphanumeric text →
    command.savepoint = [] ∨ ∀ word ∈ command.options ++ command.savepoint.take 1, word.1 ∈ blank

theorem PlainRollbacks.full (h : PlainRollbacks isAlphanumeric text)
    (hmem : statement ∈ heldStatements isAlphanumeric text)
    (hrollback : isTransactionRollback statement = true) (command : RollbackCommand)
    (htext : command.text = statement) : command.savepoint = [] := by
  subst htext
  have hempty := command.recognised_iff.mpr (h command hmem)
  rw [hrollback] at hempty
  exact List.isEmpty_iff.mp hempty.symm

theorem RollbackCommand.leadingSqlKeyword_text (command : RollbackCommand) :
    leadingSqlKeyword command.text = some command.keyword := by
  rw [leadingSqlKeyword, command.splitKeyword_text]
  rfl

theorem leadingSqlKeyword_of_rollback (h : isTransactionRollback statement = true) :
    (leadingSqlKeyword statement).any (isKeyword · "rollback") = true := by
  rw [isTransactionRollback] at h
  rw [leadingSqlKeyword]
  cases hsplit : splitKeyword statement with
  | none => simp [hsplit] at h
  | some split =>
    simp only [hsplit, Bool.and_eq_true] at h
    exact h.1

end Held

end MonetdbAdbc.Sql
