import MonetdbAdbc.Sql.RenderedTemplate

namespace MonetdbAdbc.Sql
open LittleEndian Text Lexing Machine TextFields

-- The text of execute_update_batch.
def updateStatement (sql : Bytes) : Bytes := trimEndMatches 59 (trimEnd sql)

def updateScript (queries : List Bytes) : Bytes :=
  queries.flatMap fun sql => updateStatement sql ++ [59, 10]

theorem updateStatement_valid {sql : Bytes} (h : Utf8.valid sql = true) :
    Utf8.valid (updateStatement sql) = true := by
  obtain ⟨outer, houter, hsql⟩ := trimEnd_star sql
  obtain ⟨inner, hinner, htrim⟩ := trimEndMatches_star (trimEnd sql)
  rw [hsql] at h
  have hmiddle := Utf8.valid_left (star_valid (fun _ => wideSpace_valid) houter) h
  rw [htrim] at hmiddle
  exact Utf8.valid_left (star_valid (fun _ => piece_valid) hinner) hmiddle

section Closing
variable {isAlphanumeric : Bytes → Bool} {state : LexState} {previous : Option UInt8} {later : Bytes}

theorem reads_closed {piece : Bytes} {read : List Lexeme}
    (h : Lexing.Reads (sqlLexer isAlphanumeric) [] state previous piece read)
    (hslots : ∀ lexeme ∈ read, lexeme.token.isSlot = false) (hlater : Sealed piece later)
    (hend : endState (sqlLexer isAlphanumeric) state read = .normal) :
    Lexing.Reads (sqlLexer isAlphanumeric) later state previous piece read := by
  induction h with
  | nil s p => exact .nil s p
  | @cons s p a body piece lexeme read hread hlength htail ih =>
    rw [List.forall_mem_cons] at hslots
    have hpiece : Sealed piece later := by
      by_cases hnil : piece = []
      · subst hnil
        rintro x y ⟨⟩
      · exact hlater.suffix ((List.suffix_append body piece).trans (List.suffix_cons a _)) hnil
    refine .cons ?_ hlength (ih hslots.2 hpiece hend)
    rw [← List.append_assoc]
    rw [← List.append_assoc] at hread
    refine lex_sealed hread hslots.1 (sealed_nil _) hlater ?_
    rintro rfl hnil rfl
    obtain ⟨rfl, rfl⟩ := List.append_eq_nil_iff.mp hnil
    cases htail
    cases hread
    cases hend

end Closing

section Beside
variable {shift lead : Nat} {before : List (Nat × Nat)} {whole part : Scan}

-- Where a statement of a text stands in a script that holds the text at an offset; the blanks before
-- the text belong to its first statement.
def placeStart (shift lead start : Nat) : Nat := if start = 0 then shift - lead else start + shift

def place (shift lead : Nat) (range : Nat × Nat) : Nat × Nat :=
  (placeStart shift lead range.1, range.2 + shift)

structure Beside (shift lead : Nat) (before : List (Nat × Nat)) (whole part : Scan) : Prop where
  index : whole.index = part.index + shift
  start : whole.statementStart = placeStart shift lead part.statementStart
  hasCode : whole.statementHasCode = part.statementHasCode
  statements : whole.statements = before ++ part.statements.map (place shift lead)
  procedural : whole.procedural = part.procedural

theorem Beside.addStatement (h : Beside shift lead before whole part) :
    whole.addStatement whole.index =
      before ++ (part.addStatement part.index).map (place shift lead) := by
  rw [Scan.addStatement, Scan.addStatement, h.hasCode, h.statements, h.start, h.index]
  split_ifs
  · rw [List.map_append, List.append_assoc]
    rfl
  · rfl

theorem Beside.advance (h : Beside shift lead before whole part) (lexeme : Lexeme) :
    Beside shift lead before (whole.advance lexeme) (part.advance lexeme) := by
  have hindex : (whole.advance lexeme).index = (part.advance lexeme).index + shift := by
    change whole.index + _ = part.index + _ + shift
    rw [h.index]
    omega
  obtain ⟨token, length, state⟩ := lexeme
  cases token with
  | semicolon =>
    by_cases hinternal : part.procedural.semicolonIsInternal = true
    · have hwhole : whole.procedural.semicolonIsInternal = true := h.procedural ▸ hinternal
      refine ⟨hindex, ?_, ?_, ?_, ?_⟩ <;>
        simp only [Scan.advance, Scan.observe, if_pos hinternal, if_pos hwhole]
      · exact h.start
      · exact h.hasCode
      · exact h.statements
      · rw [h.procedural]
    · have hwhole : ¬whole.procedural.semicolonIsInternal = true := h.procedural ▸ hinternal
      refine ⟨hindex, ?_, ?_, ?_, ?_⟩ <;>
        simp only [Scan.advance, Scan.observe, if_neg hinternal, if_neg hwhole]
      · rw [placeStart, if_neg (by omega), h.index]
        omega
      · exact h.addStatement
  | silent => exact ⟨hindex, h.start, h.hasCode, h.statements, h.procedural⟩
  | slot named | code => exact ⟨hindex, h.start, rfl, h.statements, h.procedural⟩
  | word text =>
    exact ⟨hindex, h.start, rfl, h.statements, congrArg (·.observeWord text) h.procedural⟩

theorem Beside.fold (h : Beside shift lead before whole part) (read : List Lexeme) :
    Beside shift lead before (read.foldl Scan.advance whole) (read.foldl Scan.advance part) := by
  induction read generalizing whole part with
  | nil => exact h
  | cons lexeme read ih => exact ih (h.advance lexeme)

structure Scan.Between (scan : Scan) (lead : Nat) : Prop where
  start : scan.statementStart + lead = scan.index
  hasCode : scan.statementHasCode = false
  procedural : scan.procedural = .new
  state : scan.state = .normal
  slots : scan.slots = []

theorem Scan.Between.beside {scan : Scan} (h : scan.Between lead) :
    Beside scan.index lead scan.statements scan .new := by
  refine ⟨(Nat.zero_add _).symm, ?_, h.hasCode, (List.append_nil _).symm, h.procedural⟩
  have := h.start
  change _ = scan.index - lead
  omega

def semicolonLexeme : Lexeme := ⟨.semicolon, 1, .normal⟩

def newlineLexeme : Lexeme := ⟨.silent, 1, .normal⟩

theorem Scan.Between.text {scan : Scan} (h : scan.Between lead) {read : List Lexeme}
    (hslots : ∀ lexeme ∈ read, lexeme.token.isSlot = false)
    (hclosed : (read.foldl Scan.advance .new).procedural.semicolonIsInternal = false) :
    ((read ++ [semicolonLexeme, newlineLexeme]).foldl Scan.advance scan).Between 1 ∧
      ((read ++ [semicolonLexeme, newlineLexeme]).foldl Scan.advance scan).statements =
        scan.statements ++ ((read.foldl Scan.advance .new).addStatement
          (read.foldl Scan.advance .new).index).map (place scan.index lead) := by
  have hbeside := h.beside.fold read
  have hexternal : ¬(read.foldl Scan.advance scan).procedural.semicolonIsInternal = true := by
    rw [hbeside.procedural, hclosed]
    decide
  have hranges := Scan.fold_ranges scan read
  rw [slotRanges_plain hslots, h.slots] at hranges
  rw [List.foldl_append]
  constructor
  · constructor <;>
      simp only [List.foldl_cons, List.foldl_nil, Scan.advance, Scan.observe, semicolonLexeme,
        newlineLexeme, if_neg hexternal]
    exact List.map_eq_nil_iff.mp hranges
  · simp only [List.foldl_cons, List.foldl_nil, Scan.advance, Scan.observe, semicolonLexeme,
      newlineLexeme, if_neg hexternal]
    exact hbeside.addStatement

end Beside

section Slices

theorem trim_newline (text : Bytes) : trim (10 :: text) = trim text := by
  rw [trim, trim]
  congr 1
  rcases text with _ | ⟨a, _ | ⟨b, rest⟩⟩ <;> rfl

theorem slice_shift (pre text after : Bytes) {range : Nat × Nat} (h : range.2 ≤ text.length) :
    slice (pre ++ (text ++ after)) (range.1 + pre.length, range.2 + pre.length) = slice text range := by
  rw [slice, slice, Nat.add_comm range.2, List.take_length_add_append, Nat.add_comm range.1,
    List.drop_length_add_append, List.take_append_of_le_length h]

theorem trim_place {pre text after : Bytes} {lead : Nat}
    (hlead : lead = 0 ∨ lead = 1 ∧ pre.getLast? = some 10) {range : Nat × Nat}
    (h : range.2 ≤ text.length) :
    trim (slice (pre ++ (text ++ after)) (place pre.length lead range)) = trim (slice text range) := by
  obtain ⟨start, stop⟩ := range
  rw [place, placeStart]
  split_ifs with hstart
  · obtain rfl : start = 0 := hstart
    rcases hlead with rfl | ⟨rfl, hlast⟩
    · have hshift := @slice_shift pre text after (0, stop) h
      rw [Nat.zero_add] at hshift
      rw [Nat.sub_zero, hshift]
    · obtain ⟨init, rfl⟩ := List.getLast?_eq_some_iff.mp hlast
      have hshift := @slice_shift init (10 :: text) after (0, stop + 1) (Nat.succ_le_succ h)
      have hlength : (init ++ [10]).length - 1 = 0 + init.length := by simp
      have hstop : stop + (init ++ [10]).length = stop + 1 + init.length := by simp; omega
      rw [hlength, hstop, List.append_assoc]
      refine (congrArg trim hshift).trans ?_
      exact trim_newline _
  · rw [slice_shift pre text after h]

end Slices

section Script
variable (isAlphanumeric : Bytes → Bool)

-- The text ends outside of strings, comments and routine bodies.
def endsWhole (text : Bytes) : Bool :=
  match scanFrom isAlphanumeric .new none 0 text with
  | .error _ => false
  | .ok scan => scan.state == .normal && !scan.procedural.semicolonIsInternal

structure WholeText (text : Bytes) (statements : List Bytes) (read : List Lexeme) : Prop where
  reads : Lexing.Reads (sqlLexer isAlphanumeric) [] .normal none text read
  slots : ∀ lexeme ∈ read, lexeme.token.isSlot = false
  normal : endState (sqlLexer isAlphanumeric) .normal read = .normal
  closed : (read.foldl Scan.advance .new).procedural.semicolonIsInternal = false
  within : ∀ range ∈ (read.foldl Scan.advance .new).addStatement text.length, range.2 ≤ text.length
  statements_eq : statements =
    ((read.foldl Scan.advance .new).addStatement text.length).map fun range => trim (slice text range)

variable {isAlphanumeric} {text : Bytes} {statements : List Bytes} {read : List Lexeme}

theorem unboundStatements_ne_nil (h : unboundStatements isAlphanumeric text = .ok statements) :
    statements ≠ [] := by
  obtain ⟨scan, -, -, hsome, rfl⟩ := unboundStatements_eq_ok.mp h
  exact fun hnil => hsome (List.map_eq_nil_iff.mp hnil)

theorem wholeText_of_unbound (hvalid : Utf8.valid text = true)
    (h : unboundStatements isAlphanumeric text = .ok statements)
    (hwhole : endsWhole isAlphanumeric text = true) :
    ∃ read, WholeText isAlphanumeric text statements read := by
  obtain ⟨scan, hscan, hslots, -, h⟩ := unboundStatements_eq_ok.mp h
  have hsound := scanQuery_sound hvalid hscan
  obtain ⟨read, hread, hend, rfl⟩ := scanQuery_ok_iff.mp hscan
  have hfrom : scanFrom isAlphanumeric .new none 0 text = .ok (read.foldl Scan.advance .new) := by
    rw [scanFrom_eq_fold]
    exact congrArg (Except.map _) hread
  rw [endsWhole, hfrom] at hwhole
  simp only [Bool.and_eq_true, beq_iff_eq, Bool.not_eq_true'] at hwhole
  refine ⟨read, reads_of_scan hvalid hread hend, fold_slots_eq_nil.mp hslots, ?_, hwhole.2,
    fun range hrange => (hsound.statements range hrange).2.1, h.symm⟩
  exact (fold_state Scan.new read).symm.trans hwhole.1

theorem sealed_semicolon (text later : Bytes) : Sealed text (59 :: later) := by
  rintro x y - ⟨⟩
  exact apart_loose x rfl

theorem closing_stands : Stands (sqlLexer isAlphanumeric) never .normal [59, 10]
    [semicolonLexeme, newlineLexeme] .normal := by
  have hsemicolon : Stands (sqlLexer isAlphanumeric) never .normal [59] [semicolonLexeme] .normal :=
    stands_one (fun _ _ _ => rfl) rfl
  have hnewline : Stands (sqlLexer isAlphanumeric) never .normal [10] [newlineLexeme] .normal :=
    stands_one (fun _ _ _ => rfl) rfl
  exact hsemicolon.append hnewline fun _ _ => rfl

theorem WholeText.closing (h : WholeText isAlphanumeric text statements read) (later : Bytes)
    {previous : Option UInt8} (hprevious : previous ≠ some 58) :
    Lexing.Reads (sqlLexer isAlphanumeric) later .normal previous (text ++ [59, 10])
      (read ++ [semicolonLexeme, newlineLexeme]) := by
  have hnone : (none : Option UInt8) ≠ some 58 := by simp
  have htext := reads_closed h.reads h.slots (sealed_semicolon text ([10] ++ later)) h.normal
  have hclosing := (@closing_stands isAlphanumeric).reads (lastOr previous text) later
    (startsWith_never _)
  rw [← h.normal] at hclosing
  exact (reads_previous hnone hprevious htext).append hclosing

def closedTexts (texts : List Bytes) : Bytes := texts.flatMap fun text => text ++ [59, 10]

def closedLexemes (reads : List (List Lexeme)) : List Lexeme :=
  reads.flatMap fun read => read ++ [semicolonLexeme, newlineLexeme]

theorem closedLexemes_cons (read : List Lexeme) (reads : List (List Lexeme)) :
    closedLexemes (read :: reads) =
      (read ++ [semicolonLexeme, newlineLexeme]) ++ closedLexemes reads :=
  rfl

inductive WholeTexts (isAlphanumeric : Bytes → Bool) :
    List Bytes → List (List Bytes) → List (List Lexeme) → Prop
  | nil : WholeTexts isAlphanumeric [] [] []
  | cons {text : Bytes} {statements : List Bytes} {read : List Lexeme} {texts : List Bytes}
      {parts : List (List Bytes)} {reads : List (List Lexeme)}
      (head : WholeText isAlphanumeric text statements read)
      (tail : WholeTexts isAlphanumeric texts parts reads) :
      WholeTexts isAlphanumeric (text :: texts) (statements :: parts) (read :: reads)

variable {texts : List Bytes} {parts : List (List Bytes)} {reads : List (List Lexeme)}

theorem WholeTexts.closing (h : WholeTexts isAlphanumeric texts parts reads)
    {previous : Option UInt8} (hprevious : previous ≠ some 58) :
    Lexing.Reads (sqlLexer isAlphanumeric) [] .normal previous (closedTexts texts)
      (closedLexemes reads) := by
  induction h generalizing previous with
  | nil => exact .nil _ _
  | @cons text statements read texts parts reads head tail ih =>
    have hlast : lastOr previous (text ++ [59, 10]) ≠ some 58 := by
      rw [lastOr_append]
      exact fun h => absurd (Option.some.inj h) (by decide)
    have hfirst := head.closing (closedTexts texts ++ []) hprevious
    have hrest := ih hlast
    have hnormal : endState (sqlLexer isAlphanumeric) .normal
        (read ++ [semicolonLexeme, newlineLexeme]) = .normal := by
      rw [endState_append]
      rfl
    rw [← hnormal] at hrest
    exact hfirst.append hrest

theorem WholeTexts.split (h : WholeTexts isAlphanumeric texts parts reads) {script pre : Bytes}
    (hscript : script = pre ++ closedTexts texts) {scan : Scan} {lead : Nat}
    (hlead : lead = 0 ∨ lead = 1 ∧ pre.getLast? = some 10) (hbetween : scan.Between lead)
    (hindex : scan.index = pre.length) :
    (∃ lead, ((closedLexemes reads).foldl Scan.advance scan).Between lead) ∧
      ((closedLexemes reads).foldl Scan.advance scan).statements.map
          (fun range => trim (slice script range)) =
        scan.statements.map (fun range => trim (slice script range)) ++ parts.flatten := by
  induction h generalizing pre scan lead with
  | nil => exact ⟨⟨lead, hbetween⟩, by simp [closedLexemes]⟩
  | @cons text statements read texts parts reads head tail ih =>
    have hnext : script = (pre ++ (text ++ [59, 10])) ++ closedTexts texts := by
      rw [hscript, List.append_assoc]
      rfl
    have hsize : (read.map Lexeme.length).sum = text.length := head.reads.size_eq
    have hwidth : (read.foldl Scan.advance .new).index = text.length := by
      rw [fold_index, hsize]
      exact Nat.zero_add _
    obtain ⟨hafter, hstatements⟩ := hbetween.text head.slots head.closed
    have hposition : ((read ++ [semicolonLexeme, newlineLexeme]).foldl Scan.advance scan).index =
        (pre ++ (text ++ [59, 10])).length := by
      rw [fold_index, List.map_append, List.sum_append, hsize, hindex, List.length_append,
        List.length_append]
      rfl
    have hbehind : (pre ++ (text ++ [59, 10])).getLast? = some 10 := by
      rw [← List.append_assoc, List.getLast?_append]
      rfl
    obtain ⟨hfinal, hrest⟩ := ih hnext (.inr ⟨rfl, hbehind⟩) hafter hposition
    rw [closedLexemes_cons, List.foldl_append]
    refine ⟨hfinal, hrest.trans ?_⟩
    rw [hstatements, List.map_append, List.map_map, hwidth, List.append_assoc, List.flatten_cons,
      head.statements_eq]
    refine congrArg (_ ++ ·) (congrArg (· ++ _) (List.map_congr_left fun range hrange => ?_))
    have hplace := @trim_place pre text ([59, 10] ++ closedTexts texts) lead hlead range
      (head.within range hrange)
    rw [Function.comp_apply, hindex, hscript, ← hplace, ← List.append_assoc text]
    rfl

theorem wholeTexts_of_unbound {queries : List Utf8.Str}
    (h : List.Forall₂ (fun query statements =>
      unboundStatements isAlphanumeric (updateStatement query.bytes) = .ok statements) queries parts)
    (hwhole : ∀ query ∈ queries, endsWhole isAlphanumeric (updateStatement query.bytes) = true) :
    ∃ reads, WholeTexts isAlphanumeric (queries.map fun query => updateStatement query.bytes) parts
      reads := by
  induction h with
  | nil => exact ⟨[], .nil⟩
  | @cons query statements queries parts hquery _ ih =>
    rw [List.forall_mem_cons] at hwhole
    obtain ⟨read, hread⟩ := wholeText_of_unbound (updateStatement_valid query.utf8) hquery hwhole.1
    obtain ⟨reads, hreads⟩ := ih hwhole.2
    exact ⟨read :: reads, .cons hread hreads⟩

theorem WholeTexts.unbound (h : WholeTexts isAlphanumeric texts parts reads)
    (hne : parts.flatten ≠ []) :
    unboundStatements isAlphanumeric (closedTexts texts) = .ok parts.flatten := by
  have hnone : (none : Option UInt8) ≠ some 58 := by simp
  have hreads := h.closing hnone
  have hnew : Scan.new.Between 0 := ⟨rfl, rfl, rfl, rfl, rfl⟩
  obtain ⟨⟨lead, hfinal⟩, hsplit⟩ := h.split (List.nil_append _).symm (.inl rfl) hnew rfl
  have hempty : Scan.new.statements = [] := rfl
  rw [hempty, List.map_nil, List.nil_append] at hsplit
  have hscan := scanQuery_ok_iff.mpr ⟨_, reads_whole hreads,
    .inl ((fold_state Scan.new _).symm.trans hfinal.state), rfl⟩
  have hstatements : ((closedLexemes reads).foldl Scan.advance .new).addStatement
      (closedTexts texts).length = ((closedLexemes reads).foldl Scan.advance .new).statements :=
    Scan.addStatement_closed hfinal.hasCode _
  have hsome : ((closedLexemes reads).foldl Scan.advance .new).statements ≠ [] := by
    intro hnil
    rw [hnil] at hsplit
    exact hne hsplit.symm
  refine unboundStatements_eq_ok.mpr ⟨_, hscan, hfinal.slots, ?_⟩
  rw [Scan.result, hstatements]
  exact ⟨hsome, hsplit⟩

theorem update_script_splits (isAlphanumeric : Bytes → Bool) (queries : List Utf8.Str)
    (parts : List (List Bytes)) (hne : queries ≠ [])
    (hparts : List.Forall₂ (fun query statements =>
      unboundStatements isAlphanumeric (updateStatement query.bytes) = .ok statements) queries parts)
    (hwhole : ∀ query ∈ queries, endsWhole isAlphanumeric (updateStatement query.bytes) = true) :
    unboundStatements isAlphanumeric (updateScript (queries.map Utf8.Str.bytes)) =
      .ok parts.flatten := by
  obtain ⟨reads, hreads⟩ := wholeTexts_of_unbound hparts hwhole
  have hscript : updateScript (queries.map Utf8.Str.bytes) =
      closedTexts (queries.map fun query => updateStatement query.bytes) := by
    rw [updateScript, closedTexts, List.flatMap_map, List.flatMap_map]
  rw [hscript]
  refine hreads.unbound ?_
  cases hparts with
  | nil => exact absurd rfl hne
  | cons hquery _ =>
    rw [List.flatten_cons]
    exact List.append_ne_nil_of_left_ne_nil (unboundStatements_ne_nil hquery) _

theorem three_queries_split :
    unboundStatements (fun _ => false) (updateScript [ascii "INSERT INTO t VALUES ('a;b') ; ",
        ascii "SELECT 1; SELECT 2", ascii "UPDATE t SET a = 1 /* ; */;;"]) =
      .ok [ascii "INSERT INTO t VALUES ('a;b')", ascii "SELECT 1", ascii "SELECT 2",
        ascii "UPDATE t SET a = 1 /* ; */"] :=
  update_script_splits (fun _ => false)
    [⟨ascii "INSERT INTO t VALUES ('a;b') ; ", by decide⟩, ⟨ascii "SELECT 1; SELECT 2", by decide⟩,
      ⟨ascii "UPDATE t SET a = 1 /* ; */;;", by decide⟩]
    [[ascii "INSERT INTO t VALUES ('a;b')"], [ascii "SELECT 1", ascii "SELECT 2"],
      [ascii "UPDATE t SET a = 1 /* ; */"]] (by simp)
    (.cons (by decide +kernel) (.cons (by decide +kernel) (.cons (by decide +kernel) .nil)))
    (by decide +kernel)

end Script

end MonetdbAdbc.Sql
