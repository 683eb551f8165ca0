import MonetdbAdbc.Sql.Blank

namespace MonetdbAdbc.Sql
open LittleEndian Text Lexing
open scoped Computability

section Reading
variable {P : Lexeme → Prop}

def Yields (P : Lexeme → Prop) (read : Except AdbcError Lexeme) : Prop :=
  ∀ lexeme, read = .ok lexeme → P lexeme

theorem yields_ok {lexeme : Lexeme} (h : P lexeme) : Yields P (.ok lexeme) := by
  rintro _ ⟨⟩
  exact h

theorem yields_error (error : AdbcError) : Yields P (.error error) := by
  intro lexeme h
  cases h

theorem Yields.ite {c : Prop} [Decidable c] {x y : Except AdbcError Lexeme} (hx : c → Yields P x)
    (hy : Yields P y) : Yields P (if c then x else y) := by
  by_cases hc : c
  · rw [if_pos hc]
    exact hx hc
  · rwa [if_neg hc]

end Reading

section Consumption
variable (isAlphanumeric : Bytes → Bool) {b : UInt8} {rest : Bytes}

def Consumes (text : Bytes) (lexeme : Lexeme) : Prop := Whole text lexeme.length

theorem whole_next {c : UInt8} (hb : b < 0x80) (hc : c < 0x80)
    (hvalid : Utf8.valid (b :: rest) = true) (hnext : rest.head? = some c) :
    Whole (b :: rest) 2 := by
  obtain ⟨after, rfl⟩ := List.head?_eq_some_iff.mp hnext
  exact (whole_zero (valid_tail hc (valid_tail hb hvalid))).cons.cons

theorem whole_third {c d : UInt8} (hb : b < 0x80) (hc : c < 0x80) (hd : d < 0x80)
    (hvalid : Utf8.valid (b :: rest) = true) (hnext : rest.head? = some c)
    (hthird : rest[1]? = some d) : Whole (b :: rest) 3 := by
  obtain ⟨after, rfl⟩ := List.head?_eq_some_iff.mp hnext
  have hafter : after.head? = some d := by simpa [List.head?_eq_getElem?] using hthird
  exact (whole_next hc hd (valid_tail hb hvalid) hafter).cons

theorem identifier_ascii (b : UInt8) (h : isIdentifierContinue b = true) : b < 0x80 := by
  simp only [isIdentifierContinue, isIdentifierStart, isAlphabetic, isUppercase, isLowercase, isDigit,
    Bool.or_eq_true, Bool.and_eq_true, beq_iff_eq, decide_eq_true_eq] at h
  simp only [UInt8.le_iff_toNat_le, UInt8.lt_iff_toNat_lt, ← UInt8.toNat_inj, UInt8.reduceToNat]
    at h ⊢
  omega

theorem whole_identifier (hb : b < 0x80) (hvalid : Utf8.valid (b :: rest) = true) :
    Whole (b :: rest) (1 + continueLength rest) := by
  rw [Nat.add_comm]
  exact (whole_run identifier_ascii (valid_tail hb hvalid)).cons

theorem ascii_of_mem {letters : List UInt8} (hletters : letters.all (· < 0x80) = true)
    (h : b ∈ letters) : b < 0x80 := by
  simpa using List.all_eq_true.mp hletters b h

theorem lexNormal_consumes (previous : Option UInt8) (hvalid : Utf8.valid (b :: rest) = true) :
    Yields (Consumes (b :: rest)) (lexNormal isAlphanumeric previous b rest) := by
  have hone {c : UInt8} (hc : c < 0x80) (hb : b = c) : Whole (b :: rest) 1 :=
    (whole_zero (valid_tail (hb ▸ hc) hvalid)).cons
  have hnamed (hb : b = 58) : Yields (Consumes (b :: rest)) (lexNamed isAlphanumeric rest) :=
    .ite (fun _ => yields_error _) (yields_ok (whole_identifier (hb ▸ by decide) hvalid))
  have htwo {c d : UInt8} (hc : c < 0x80) (hd : d < 0x80) (hb : b = c) (hnext : rest.head? = some d) :
      Whole (b :: rest) 2 := whole_next (hb ▸ hc) hd hvalid hnext
  refine .ite (fun hb => yields_ok (hone (by decide) hb)) ?_
  refine .ite (fun _ => yields_ok (whole_char hvalid).1) ?_
  refine .ite (fun hb => yields_ok (htwo (by decide) (by decide) hb.1 hb.2)) ?_
  refine .ite (fun hb => yields_ok (hone (by decide) hb)) ?_
  refine .ite (fun hb => yields_ok (htwo (by decide) (by decide) hb.1 hb.2)) ?_
  refine .ite (fun hb => yields_ok (hone (by decide) hb)) ?_
  refine .ite (fun hb => hnamed hb.1) ?_
  refine .ite (fun hb => yields_ok
    (whole_next (ascii_of_mem (by decide) hb.1) (by decide) hvalid hb.2)) ?_
  refine .ite (fun hb => yields_ok
    (whole_next (ascii_of_mem (by decide) hb.1) (by decide) hvalid hb.2)) ?_
  refine .ite (fun hb => yields_ok (whole_third (ascii_of_mem (by decide) hb.1) (by decide)
    (by decide) hvalid hb.2.1 hb.2.2)) ?_
  refine .ite (fun hb => yields_ok (whole_third (ascii_of_mem (by decide) hb.1) (by decide)
    (by decide) hvalid hb.2.1 hb.2.2)) ?_
  refine .ite (fun hb => yields_ok (hone (by decide) hb)) ?_
  refine .ite (fun hb => yields_ok (hone (by decide) hb)) ?_
  refine .ite (fun hb => yields_ok (whole_identifier (identifier_ascii b ?_) hvalid)) ?_
  · rw [isIdentifierContinue, hb, Bool.true_or]
  · exact yields_ok (whole_char hvalid).1

theorem quoted_whole (state : LexState) {quote : UInt8} (hquote : quote < 0x80)
    (hvalid : Utf8.valid (b :: rest) = true) :
    Whole (b :: rest) (quoted state quote b rest.head?).length := by
  rw [quoted]
  split_ifs with hb hnext
  · exact whole_next (hb ▸ hquote) hquote hvalid hnext
  · exact (whole_zero (valid_tail (hb ▸ hquote) hvalid)).cons
  · exact (whole_char hvalid).1

theorem lex_whole {state : LexState} {previous : Option UInt8} {lexeme : Lexeme}
    (hvalid : Utf8.valid (b :: rest) = true)
    (h : lex isAlphanumeric state previous b rest = .ok lexeme) :
    Whole (b :: rest) lexeme.length := by
  cases state with
  | normal => exact lexNormal_consumes isAlphanumeric previous hvalid lexeme h
  | singleQuote =>
    simp only [lex] at h
    split_ifs at h
    cases h
    exact quoted_whole _ (by decide) hvalid
  | escapedSingleQuote =>
    simp only [lex] at h
    split at h
    · rename_i escaped hb hnext
      cases h
      obtain ⟨after, rfl⟩ := List.head?_eq_some_iff.mp hnext
      have hascii : b < 0x80 := by
        rw [beq_iff_eq.mp hb]
        decide
      simp only [Nat.add_comm 1]
      exact (whole_char (valid_tail hascii hvalid)).1.cons
    · cases h
      exact quoted_whole _ (by decide) hvalid
  | rawSingleQuote | doubleQuote =>
    cases h
    exact quoted_whole _ (by decide) hvalid
  | lineComment =>
    cases h
    exact (whole_char hvalid).1
  | blockComment =>
    simp only [lex] at h
    split_ifs at h with hb <;> cases h
    · exact whole_next (hb.1 ▸ by decide) (by decide) hvalid hb.2
    · exact (whole_char hvalid).1

end Consumption

section Inversion
variable {isAlphanumeric : Bytes → Bool} {state : LexState} {previous : Option UInt8} {b : UInt8}
  {rest : Bytes} {lexeme : Lexeme}

inductive NormalStep (b : UInt8) (rest : Bytes) : Lexeme → Prop
  | semicolon (here : b = 59) : NormalStep b rest ⟨.semicolon, 1, .normal⟩
  | space (here : AsciiNumber.isWhitespace b = true) : NormalStep b rest ⟨.silent, 1, .normal⟩
  | dashes (here : b = 45) (next : rest.head? = some 45) :
    NormalStep b rest ⟨.silent, 2, .lineComment⟩
  | hash (here : b = 35) : NormalStep b rest ⟨.silent, 1, .lineComment⟩
  | opens (here : b = 47) (next : rest.head? = some 42) :
    NormalStep b rest ⟨.silent, 2, .blockComment⟩
  | placeholder (here : b = 63) : NormalStep b rest ⟨.slot false, 1, .normal⟩
  | named (here : b = 58) : NormalStep b rest ⟨.slot true, 1 + continueLength rest, .normal⟩
  | code {lexeme : Lexeme} (token : lexeme.token = .code ∨ ∃ word, lexeme.token = .word word) :
    NormalStep b rest lexeme

theorem lexNormal_step (h : lexNormal isAlphanumeric previous b rest = .ok lexeme) :
    NormalStep b rest lexeme := by
  have hspace (hb : AsciiNumber.isWhitespace b = true) :
      Yields (NormalStep b rest) (.ok ⟨.silent, charLength b, .normal⟩) := by
    have hone : charLength b = 1 := by
      have hcases : b = 32 ∨ b = 9 ∨ b = 10 ∨ b = 12 ∨ b = 13 := by
        simpa [AsciiNumber.isWhitespace, or_assoc] using hb
      rcases hcases with rfl | rfl | rfl | rfl | rfl <;> rfl
    rw [hone]
    exact yields_ok (.space hb)
  have hnamed (hb : b = 58) : Yields (NormalStep b rest) (lexNamed isAlphanumeric rest) :=
    .ite (fun _ => yields_error _) (yields_ok (.named hb))
  have hcode (length : Nat) (state : LexState) :
      Yields (NormalStep b rest) (.ok ⟨.code, length, state⟩) := yields_ok (.code (.inl rfl))
  refine Yields.ite (fun hb => yields_ok (.semicolon hb)) ?_ lexeme h
  refine .ite hspace (.ite (fun hb => yields_ok (.dashes hb.1 hb.2)) ?_)
  refine .ite (fun hb => yields_ok (.hash hb)) (.ite (fun hb => yields_ok (.opens hb.1 hb.2)) ?_)
  refine .ite (fun hb => yields_ok (.placeholder hb)) (.ite (fun hb => hnamed hb.1) ?_)
  refine .ite (fun _ => hcode _ _) (.ite (fun _ => hcode _ _) (.ite (fun _ => hcode _ _) ?_))
  refine .ite (fun _ => hcode _ _) (.ite (fun _ => hcode _ _) (.ite (fun _ => hcode _ _) ?_))
  exact .ite (fun _ => yields_ok (.code (.inr ⟨_, rfl⟩))) (hcode _ _)

theorem quoted_silent (state : LexState) (quote b : UInt8) (next : Option UInt8) :
    (quoted state quote b next).token = .silent := by
  rw [quoted]
  split_ifs <;> rfl

theorem lex_silent (hstate : state ≠ .normal)
    (h : lex isAlphanumeric state previous b rest = .ok lexeme) : lexeme.token = .silent := by
  cases state with
  | normal => exact absurd rfl hstate
  | singleQuote =>
    simp only [lex] at h
    split_ifs at h
    cases h
    exact quoted_silent _ _ _ _
  | escapedSingleQuote =>
    simp only [lex] at h
    split at h
    · cases h
      rfl
    · cases h
      exact quoted_silent _ _ _ _
  | rawSingleQuote | doubleQuote =>
    cases h
    exact quoted_silent _ _ _ _
  | lineComment =>
    cases h
    rfl
  | blockComment =>
    simp only [lex] at h
    split_ifs at h <;> cases h <;> rfl

theorem lex_semicolon (h : lex isAlphanumeric state previous b rest = .ok lexeme)
    (htoken : lexeme.token = .semicolon) :
    state = .normal ∧ b = 59 ∧ lexeme = ⟨.semicolon, 1, .normal⟩ := by
  by_cases hstate : state = .normal
  · subst hstate
    cases lexNormal_step h with
    | semicolon here => exact ⟨rfl, here, rfl⟩
    | code token => rcases token with htok | ⟨word, htok⟩ <;> rw [htok] at htoken <;> cases htoken
    | _ => cases htoken
  · rw [lex_silent hstate h] at htoken
    cases htoken

theorem lex_slot (h : lex isAlphanumeric state previous b rest = .ok lexeme) {named : Bool}
    (htoken : lexeme.token = .slot named) :
    if named then b = 58 ∧ lexeme.length = 1 + continueLength rest else b = 63 ∧ lexeme.length = 1 := by
  by_cases hstate : state = .normal
  · subst hstate
    cases lexNormal_step h with
    | placeholder here | named here =>
      cases htoken
      exact ⟨here, rfl⟩
    | code token => rcases token with htok | ⟨word, htok⟩ <;> rw [htok] at htoken <;> cases htoken
    | _ => cases htoken
  · rw [lex_silent hstate h] at htoken
    cases htoken

end Inversion

section Run

variable (isAlphanumeric : Bytes → Bool) (query : Bytes)

inductive Reached : Scan → Prop
  | start : Reached .new
  | step {scan : Scan} {b : UInt8} {rest : Bytes} {lexeme : Lexeme} (reached : Reached scan)
    (here : query.drop scan.index = b :: rest)
    (read : lex isAlphanumeric scan.state (query.take scan.index).getLast? b rest = .ok lexeme) :
    Reached (scan.advance lexeme)

variable {isAlphanumeric query} {scan : Scan}

theorem Reached.whole (hvalid : Utf8.valid query = true) (h : Reached isAlphanumeric query scan) :
    Whole query scan.index := by
  induction h with
  | start => exact whole_zero hvalid
  | @step scan b rest lexeme reached here read ih =>
    refine ih.add ?_
    have hrest := ih.2
    rw [here] at hrest ⊢
    exact lex_whole isAlphanumeric hrest read

theorem scanFrom_step {scan : Scan} {previous : Option UInt8} {b : UInt8} {rest : Bytes}
    {lexeme : Lexeme} (hread : lex isAlphanumeric scan.state previous b rest = .ok lexeme)
    (hwhole : Whole (b :: rest) lexeme.length) :
    scanFrom isAlphanumeric scan previous 0 (b :: rest) =
      scanFrom isAlphanumeric (scan.advance lexeme)
        (((b :: rest).take lexeme.length).getLast?.or previous) 0
        ((b :: rest).drop lexeme.length) := by
  obtain ⟨more, hlength⟩ : ∃ more, lexeme.length = more + 1 :=
    ⟨lexeme.length - 1, (Nat.succ_pred_eq_of_pos (lex_length_pos isAlphanumeric hread)).symm⟩
  have hmore : (rest.take more).length = more := by
    have hle := hwhole.1
    rw [List.length_cons, hlength] at hle
    rw [List.length_take]
    omega
  have hskip := lexemes_skip (M := sqlLexer isAlphanumeric) lexeme.state (some b) (rest.take more)
    (rest.drop more)
  rw [List.take_append_drop, hmore, lastOr_eq_or] at hskip
  have hlast : ((b :: rest).take (more + 1)).getLast?.or previous =
      (rest.take more).getLast?.or (some b) := by
    rw [List.take_succ_cons, List.getLast?_cons]
    cases (rest.take more).getLast? <;> rfl
  rw [scanFrom, hread]
  simp only [scanFrom_eq_fold, hlength, Nat.add_sub_cancel, hlast, List.drop_succ_cons]
  exact congrArg _ hskip

theorem Reached.scanFrom_eq (hvalid : Utf8.valid query = true)
    (h : Reached isAlphanumeric query scan) :
    scanFrom isAlphanumeric .new none 0 query =
      scanFrom isAlphanumeric scan (query.take scan.index).getLast? 0 (query.drop scan.index) := by
  induction h with
  | start => rfl
  | @step scan b rest lexeme reached here read ih =>
    have hrest := (reached.whole hvalid).2
    rw [here] at hrest
    have htake : query.take (scan.index + lexeme.length) =
        query.take scan.index ++ (b :: rest).take lexeme.length := by
      rw [List.take_add, here]
    rw [ih, here, scanFrom_step read (lex_whole isAlphanumeric hrest read)]
    change _ = scanFrom isAlphanumeric (scan.advance lexeme)
      (query.take (scan.index + lexeme.length)).getLast? 0
      (query.drop (scan.index + lexeme.length))
    rw [htake, List.getLast?_append, ← List.drop_drop, here]

theorem scan_ends_from (hvalid : Utf8.valid query = true) (h : Reached isAlphanumeric query scan) :
    (∃ final, Reached isAlphanumeric query final ∧ final.index = query.length ∧
      scanFrom isAlphanumeric .new none 0 query = .ok final) ∨
    ∃ last b rest error, Reached isAlphanumeric query last ∧ query.drop last.index = b :: rest ∧
      lex isAlphanumeric last.state (query.take last.index).getLast? b rest = .error error ∧
      scanFrom isAlphanumeric .new none 0 query = .error error := by
  induction hleft : query.length - scan.index using Nat.strong_induction_on generalizing scan with
  | h left ih =>
    have hwhole := h.whole hvalid
    cases hrest : query.drop scan.index with
    | nil =>
      refine .inl ⟨scan, h, Nat.le_antisymm hwhole.1 (List.drop_eq_nil_iff.mp hrest), ?_⟩
      rw [h.scanFrom_eq hvalid, hrest, scanFrom]
    | cons b rest =>
      cases hread : lex isAlphanumeric scan.state (query.take scan.index).getLast? b rest with
      | error error =>
        refine .inr ⟨scan, b, rest, error, h, hrest, hread, ?_⟩
        rw [h.scanFrom_eq hvalid, hrest, scanFrom, hread]
      | ok lexeme =>
        have hnext := h.step hrest hread
        have hpos := lex_length_pos isAlphanumeric hread
        have hlt : scan.index < query.length := by
          by_contra hge
          rw [List.drop_eq_nil_of_le (Nat.le_of_not_lt hge)] at hrest
          cases hrest
        exact ih _ (by rw [← hleft]; change _ - (scan.index + lexeme.length) < _; omega) hnext rfl

theorem scanQuery_ok (hvalid : Utf8.valid query = true) {result : QueryScan}
    (h : scanQuery isAlphanumeric query = .ok result) :
    ∃ scan, Reached isAlphanumeric query scan ∧ scan.index = query.length ∧
      (scan.state = .normal ∨ scan.state = .lineComment) ∧
      result = ⟨scan.addStatement query.length, scan.slots, scan.firstKeyword, scan.hasDataChange⟩ := by
  rw [scanQuery] at h
  have hstart : Reached isAlphanumeric query .new := .start
  rcases scan_ends_from hvalid hstart with
    ⟨final, hfinal, hindex, hscan⟩ | ⟨_, _, _, error, _, _, _, hscan⟩
  · rw [hscan] at h
    simp only [bind, Except.bind] at h
    split_ifs at h with hstate
    exact ⟨final, hfinal, hindex, hstate, (Except.ok.inj h).symm⟩
  · rw [hscan] at h
    cases h

end Run

section Ranges
variable {isAlphanumeric : Bytes → Bool} {query : Bytes} {scan : Scan} {next : Scan}

theorem slice_whole {p i : Nat} (h : p ≤ i) (hi : i ≤ query.length) (n : Nat) :
    slice query (p, i + n) = slice query (p, i) ++ (query.drop i).take n := by
  rw [slice, slice, List.take_add, List.drop_append_of_le_length]
  rw [List.length_take]
  omega

theorem slice_self (query : Bytes) (i : Nat) : slice query (i, i) = [] := by
  rw [slice, List.drop_eq_nil_iff, List.length_take]
  exact Nat.min_le_left _ _

theorem slice_append {p i j : Nat} (hi : p ≤ i) (hj : i ≤ j) (hlength : j ≤ query.length) :
    slice query (p, i) ++ slice query (i, j) = slice query (p, j) := by
  obtain ⟨n, rfl⟩ := Nat.exists_eq_add_of_le hj
  rw [slice_whole hi (by omega), slice_whole le_rfl (by omega), slice_self, List.nil_append]

def SlotText (query : Bytes) (slot : ScannedSlot) : Prop :=
  match slot.name with
  | none => slice query (slot.start, slot.stop) = [63]
  | some range =>
    range = (slot.start + 1, slot.stop) ∧
      slice query (slot.start, slot.stop) = 58 :: slice query range

structure SlotPlaced (query : Bytes) (scan : Scan) (slot : ScannedSlot) : Prop where
  nonempty : slot.start < slot.stop
  read : slot.stop ≤ scan.index
  start_whole : Whole query slot.start
  stop_whole : Whole query slot.stop
  text : SlotText query slot
  inside : (∃ range ∈ scan.statements, range.1 ≤ slot.start ∧ slot.stop ≤ range.2) ∨
    (scan.statementHasCode = true ∧ scan.statementStart ≤ slot.start)

structure Placed (query : Bytes) (scan : Scan) : Prop where
  whole : Whole query scan.index
  start_whole : Whole query scan.statementStart
  start_le : scan.statementStart ≤ scan.index
  code_lt : scan.statementHasCode = true → scan.statementStart < scan.index
  ordered : scan.statements.Pairwise fun range later => range.2 ≤ later.1
  statements : ∀ range ∈ scan.statements, range.1 < range.2 ∧ range.2 ≤ scan.statementStart ∧
    Whole query range.1 ∧ Whole query range.2
  slots_ordered : scan.slots.Pairwise fun slot later => slot.stop ≤ later.start
  slots : ∀ slot ∈ scan.slots, SlotPlaced query scan slot

theorem SlotPlaced.later {scan : Scan} {slot : ScannedSlot} (h : SlotPlaced query scan slot)
    (hindex : scan.index ≤ next.index) (hstatements : next.statements = scan.statements)
    (hstart : next.statementStart = scan.statementStart)
    (hcode : scan.statementHasCode = true → next.statementHasCode = true) :
    SlotPlaced query next slot := by
  refine ⟨h.nonempty, h.read.trans hindex, h.start_whole, h.stop_whole, h.text, ?_⟩
  rw [hstatements, hstart]
  exact h.inside.imp_right fun hopen => ⟨hcode hopen.1, hopen.2⟩

theorem Placed.keeps (h : Placed query scan) (hwhole : Whole query next.index)
    (hindex : scan.index < next.index) (hstatements : next.statements = scan.statements)
    (hstart : next.statementStart = scan.statementStart) (hslots : next.slots = scan.slots)
    (hcode : scan.statementHasCode = true → next.statementHasCode = true) :
    Placed query next where
  whole := hwhole
  start_whole := hstart ▸ h.start_whole
  start_le := hstart ▸ h.start_le.trans hindex.le
  code_lt := fun _ => hstart ▸ h.start_le.trans_lt hindex
  ordered := hstatements ▸ h.ordered
  statements := by
    rw [hstatements, hstart]
    exact h.statements
  slots_ordered := hslots ▸ h.slots_ordered
  slots := by
    rw [hslots]
    exact fun slot hslot => (h.slots slot hslot).later hindex.le hstatements hstart hcode

theorem Placed.closed (h : Placed query scan) {stop : Nat} (hstop : Whole query stop)
    (hle : scan.index ≤ stop) :
    (scan.addStatement stop).Pairwise (fun range later => range.2 ≤ later.1) ∧
      (∀ range ∈ scan.addStatement stop, range.1 < range.2 ∧ range.2 ≤ stop ∧
        Whole query range.1 ∧ Whole query range.2) ∧
      ∀ slot ∈ scan.slots, ∃ range ∈ scan.addStatement stop,
        range.1 ≤ slot.start ∧ slot.stop ≤ range.2 := by
  have hold : ∀ range ∈ scan.statements, range.1 < range.2 ∧ range.2 ≤ stop ∧
      Whole query range.1 ∧ Whole query range.2 := by
    intro range hrange
    obtain ⟨hne, hbefore, hwhole⟩ := h.statements range hrange
    exact ⟨hne, (hbefore.trans h.start_le).trans hle, hwhole⟩
  rw [Scan.addStatement]
  split_ifs with hcode
  · refine ⟨?_, ?_, ?_⟩
    · rw [List.pairwise_append]
      refine ⟨h.ordered, List.pairwise_singleton _ _, fun range hrange last hlast => ?_⟩
      rw [List.mem_singleton.mp hlast]
      exact (h.statements range hrange).2.1
    · rw [List.forall_mem_append, List.forall_mem_singleton]
      exact ⟨hold, (h.code_lt hcode).trans_le hle, le_rfl, h.start_whole, hstop⟩
    · intro slot hslot
      have hplaced := h.slots slot hslot
      rcases hplaced.inside with ⟨range, hrange, hinside⟩ | ⟨-, hopen⟩
      · exact ⟨range, List.mem_append_left _ hrange, hinside⟩
      · exact ⟨_, List.mem_append_right _ (List.mem_singleton_self _), hopen,
          hplaced.read.trans hle⟩
  · refine ⟨h.ordered, hold, fun slot hslot => ?_⟩
    rcases (h.slots slot hslot).inside with hinside | ⟨htrue, -⟩
    · exact hinside
    · exact absurd htrue hcode

theorem slotText_of_read {previous : Option UInt8} {b : UInt8} {rest : Bytes} {lexeme : Lexeme}
    {named : Bool} (hwhole : Whole query scan.index) (here : query.drop scan.index = b :: rest)
    (hread : lex isAlphanumeric scan.state previous b rest = .ok lexeme)
    (htoken : lexeme.token = .slot named) (bare : Bool) :
    SlotText query ⟨scan.index, scan.index + lexeme.length,
      if named then some (scan.index + 1, scan.index + lexeme.length) else none, bare⟩ := by
  have hslice (n : Nat) : slice query (scan.index, scan.index + n) = (b :: rest).take n := by
    rw [slice_whole le_rfl hwhole.1, slice_self, here, List.nil_append]
  have hslot := lex_slot hread htoken
  cases named with
  | false =>
    obtain ⟨rfl, hlength⟩ := hslot
    change slice query (scan.index, scan.index + lexeme.length) = [63]
    rw [hslice, hlength]
    rfl
  | true =>
    obtain ⟨rfl, hlength⟩ := hslot
    refine ⟨rfl, ?_⟩
    have hlt : scan.index < query.length := by
      by_contra hge
      rw [List.drop_eq_nil_of_le (Nat.le_of_not_lt hge)] at here
      cases here
    rw [hslice, hlength, Nat.add_comm 1, List.take_succ_cons, List.cons.injEq]
    refine ⟨rfl, ?_⟩
    rw [← Nat.add_assoc, Nat.add_right_comm,
      slice_whole le_rfl (show scan.index + 1 ≤ query.length from hlt), slice_self, List.nil_append,
      ← List.drop_drop, here]
    rfl

theorem Placed.closes (h : Placed query scan) (hwhole : Whole query (scan.index + 1))
    (hindex : next.index = scan.index + 1) (hstart : next.statementStart = scan.index + 1)
    (hstatements : next.statements = scan.addStatement scan.index)
    (hslots : next.slots = scan.slots) (hcode : next.statementHasCode = false) :
    Placed query next := by
  obtain ⟨hordered, hranges, hinside⟩ := h.closed h.whole le_rfl
  refine ⟨hindex ▸ hwhole, hstart ▸ hwhole, by rw [hstart, hindex], fun htrue => ?_,
    hstatements ▸ hordered, ?_, hslots ▸ h.slots_ordered, ?_⟩
  · rw [hcode] at htrue
    cases htrue
  · rw [hstatements, hstart]
    intro range hrange
    obtain ⟨hne, hle, hrange⟩ := hranges range hrange
    exact ⟨hne, Nat.le_succ_of_le hle, hrange⟩
  · rw [hslots]
    intro slot hslot
    have hplaced := h.slots slot hslot
    refine ⟨hplaced.nonempty, ?_, hplaced.start_whole, hplaced.stop_whole, hplaced.text,
      .inl (hstatements ▸ hinside slot hslot)⟩
    rw [hindex]
    exact Nat.le_succ_of_le hplaced.read

theorem Placed.adds {slot : ScannedSlot} (h : Placed query scan) (hstop : slot.stop = next.index)
    (hfrom : slot.start = scan.index) (hlt : scan.index < next.index)
    (hwhole : Whole query next.index) (htext : SlotText query slot)
    (hstatements : next.statements = scan.statements)
    (hstart : next.statementStart = scan.statementStart)
    (hslots : next.slots = scan.slots ++ [slot]) (hcode : next.statementHasCode = true) :
    Placed query next := by
  refine ⟨hwhole, hstart ▸ h.start_whole, hstart ▸ h.start_le.trans hlt.le,
    fun _ => hstart ▸ h.start_le.trans_lt hlt, hstatements ▸ h.ordered, ?_, ?_, ?_⟩
  · rw [hstatements, hstart]
    exact h.statements
  · rw [hslots, List.pairwise_append]
    refine ⟨h.slots_ordered, List.pairwise_singleton _ _, fun earlier hearlier last hlast => ?_⟩
    rw [List.mem_singleton.mp hlast, hfrom]
    exact (h.slots earlier hearlier).read
  · rw [hslots, List.forall_mem_append, List.forall_mem_singleton]
    refine ⟨fun earlier hearlier => (h.slots earlier hearlier).later hlt.le hstatements hstart
      fun _ => hcode, ?_⟩
    refine ⟨by rwa [hfrom, hstop], hstop.le, hfrom ▸ h.whole, hstop ▸ hwhole, htext,
      .inr ⟨hcode, ?_⟩⟩
    rw [hstart, hfrom]
    exact h.start_le

theorem Scan.advance_internal (scan : Scan) (h : scan.procedural.semicolonIsInternal = true) :
    scan.advance ⟨.semicolon, 1, .normal⟩ = { scan with
      procedural := scan.procedural.passSemicolon, state := .normal, index := scan.index + 1 } := by
  simp [Scan.advance, Scan.observe, h]

theorem Scan.advance_closing (scan : Scan) (h : ¬scan.procedural.semicolonIsInternal = true) :
    scan.advance ⟨.semicolon, 1, .normal⟩ = { scan with
      statements := scan.addStatement scan.index, statementStart := scan.index + 1,
      statementHasCode := false, procedural := .new, bareIntegerParameter := false,
      fetchRowCount := false, state := .normal, index := scan.index + 1 } := by
  simp [Scan.advance, Scan.observe, h]

theorem Placed.advance (h : Placed query scan) {b : UInt8}
    {rest : Bytes} {lexeme : Lexeme} (here : query.drop scan.index = b :: rest)
    (hread : lex isAlphanumeric scan.state (query.take scan.index).getLast? b rest = .ok lexeme) :
    Placed query (scan.advance lexeme) := by
  have hrest := h.whole.2
  rw [here] at hrest
  have hwhole : Whole query (scan.index + lexeme.length) :=
    h.whole.add (here ▸ lex_whole isAlphanumeric hrest hread)
  have hpos := lex_length_pos isAlphanumeric hread
  have hlt : scan.index < scan.index + lexeme.length := Nat.lt_add_of_pos_right hpos
  cases htoken : lexeme.token with
  | semicolon =>
    obtain ⟨-, -, rfl⟩ := lex_semicolon hread htoken
    by_cases hinternal : scan.procedural.semicolonIsInternal = true
    · rw [scan.advance_internal hinternal]
      exact h.keeps hwhole hlt rfl rfl rfl id
    · rw [scan.advance_closing hinternal]
      exact h.closes hwhole rfl rfl rfl rfl rfl
  | silent =>
    rw [Scan.advance, htoken]
    exact h.keeps hwhole hlt rfl rfl rfl id
  | slot named =>
    have htext := slotText_of_read h.whole here hread htoken scan.bareIntegerParameter
    rw [Scan.advance, htoken]
    exact h.adds rfl rfl hlt hwhole htext rfl rfl rfl rfl
  | code | word text =>
    rw [Scan.advance, htoken]
    exact h.keeps hwhole hlt rfl rfl rfl fun _ => rfl

theorem Reached.placed (hvalid : Utf8.valid query = true) (h : Reached isAlphanumeric query scan) :
    Placed query scan := by
  induction h with
  | start =>
    have hzero := whole_zero hvalid
    exact ⟨hzero, hzero, le_rfl, (fun h => by cases h), .nil, by simp [Scan.new], .nil,
      by simp [Scan.new]⟩
  | step reached here read ih => exact ih.advance here read

end Ranges

def filler : Language UInt8 := (asciiSpace + comment + {[59]})∗

section Gaps
variable {isAlphanumeric : Bytes → Bool} {query : Bytes} {scan : Scan} {rest text : Bytes}
  {b : UInt8} {lexeme : Lexeme}

def gaps : Nat → List (Nat × Nat) → List (Nat × Nat)
  | _, [] => []
  | from_, range :: ranges => (from_, range.1) :: gaps range.2 ranges

def lastStop : Nat → List (Nat × Nat) → Nat
  | from_, [] => from_
  | _, range :: ranges => lastStop range.2 ranges

theorem gaps_snoc (from_ : Nat) (ranges : List (Nat × Nat)) (range : Nat × Nat) :
    gaps from_ (ranges ++ [range]) = gaps from_ ranges ++ [(lastStop from_ ranges, range.1)] := by
  induction ranges generalizing from_ with
  | nil => rfl
  | cons first ranges ih => exact congrArg (_ :: ·) (ih first.2)

theorem lastStop_snoc (from_ : Nat) (ranges : List (Nat × Nat)) (range : Nat × Nat) :
    lastStop from_ (ranges ++ [range]) = range.2 := by
  induction ranges generalizing from_ with
  | nil => rfl
  | cons first ranges ih => exact ih first.2

theorem lastStop_le {from_ bound : Nat} {ranges : List (Nat × Nat)} (hfrom : from_ ≤ bound)
    (h : ∀ range ∈ ranges, range.2 ≤ bound) : lastStop from_ ranges ≤ bound := by
  induction ranges generalizing from_ with
  | nil => exact hfrom
  | cons range ranges ih =>
    rw [List.forall_mem_cons] at h
    exact ih h.1 h.2

def Fills (state : LexState) (text after : Bytes) : Prop :=
  match state with
  | .normal => text ∈ filler
  | .lineComment => text ∈ filler * openLine
  | .blockComment => ∃ lead ∈ filler, ∃ body, text = lead ++ 47 :: 42 :: body ∧
      ¬[42, 47] <:+: body ++ after.take 1
  | _ => False

theorem infix_pair_snoc {x y z : UInt8} (h : [x, y] <:+: text ++ [z]) :
    [x, y] <:+: text ∨ text.getLast? = some x ∧ z = y := by
  obtain ⟨before, after, heq⟩ := h
  rcases List.eq_nil_or_concat after with rfl | ⟨after, last, rfl⟩
  · right
    have hsplit : (before ++ [x]) ++ [y] = text ++ [z] := by simpa using heq
    obtain ⟨rfl, hlast⟩ := List.append_inj' hsplit rfl
    exact ⟨by simp, (List.cons.inj hlast).1.symm⟩
  · left
    have hsplit : (before ++ [x, y] ++ after) ++ [last] = text ++ [z] := by
      simpa [List.append_assoc] using heq
    exact ⟨before, after, (List.append_inj' hsplit rfl).1⟩

theorem filler_append {piece : Bytes} (htext : text ∈ filler)
    (hpiece : piece ∈ asciiSpace + comment + {[59]}) : text ++ piece ∈ filler :=
  append_mem_star htext (mem_star hpiece)

theorem take_char (b : UInt8) (rest : Bytes) :
    (b :: rest).take (charLength b) = b :: rest.take (charLength b - 1) := by
  obtain ⟨n, hn⟩ : ∃ n, charLength b = n + 1 :=
    ⟨charLength b - 1, (Nat.succ_pred_eq_of_pos (charLength_pos b)).symm⟩
  rw [hn]
  rfl

theorem Fills.line (hvalid : Utf8.valid (b :: rest) = true) (h : text ∈ filler * openLine)
    (after : Bytes) :
    Fills (if b = 10 then .normal else .lineComment) (text ++ (b :: rest).take (charLength b)) after := by
  obtain ⟨lead, hlead, opened, hopened, rfl⟩ := h
  rw [take_char]
  split_ifs with hb
  · subst hb
    have hone : charLength 10 = 1 := by decide
    rw [hone]
    change lead ++ opened ++ [10] ∈ filler
    rw [List.append_assoc]
    exact filler_append hlead (.inl (.inr (.inl ⟨opened, hopened, rfl⟩)))
  · obtain ⟨mark, body, hmark, hbody, rfl⟩ := hopened
    refine ⟨lead, hlead, mark ++ (body ++ b :: rest.take (charLength b - 1)), ?_, by simp⟩
    refine ⟨mark, _, hmark, ?_, rfl⟩
    rw [List.mem_append, List.mem_cons, not_or, not_or]
    refine ⟨hbody, Ne.symm hb, fun hmem => ?_⟩
    exact absurd ((whole_char hvalid).2 10 hmem) (by decide)

theorem infix_wide {wide : Bytes} (hwide : ∀ c ∈ wide, 0x80 ≤ c) (h : ¬[42, 47] <:+: text) :
    ¬[42, 47] <:+: text ++ wide := by
  induction wide generalizing text with
  | nil => rwa [List.append_nil]
  | cons c wide ih =>
    rw [List.forall_mem_cons] at hwide
    have hnext : ¬[42, 47] <:+: text ++ [c] := by
      intro hwithin
      rcases infix_pair_snoc hwithin with hwithin | ⟨-, rfl⟩
      · exact h hwithin
      · exact absurd hwide.1 (by decide)
    rw [List.append_cons]
    exact ih hwide.2 hnext

theorem infix_char {body : Bytes} (hvalid : Utf8.valid (b :: rest) = true)
    (hopen : ¬(b = 42 ∧ rest.head? = some 47)) (h : ¬[42, 47] <:+: body ++ [b]) :
    ¬[42, 47] <:+: body ++ (b :: rest).take (charLength b) ++
      ((b :: rest).drop (charLength b)).take 1 := by
  have hwide := (whole_char hvalid).2
  have hchar : ¬[42, 47] <:+: body ++ (b :: rest).take (charLength b) := by
    rw [take_char, List.append_cons]
    exact infix_wide hwide h
  cases hafter : (b :: rest).drop (charLength b) with
  | nil => rwa [List.take_nil, List.append_nil]
  | cons z after =>
    intro hwithin
    rcases infix_pair_snoc hwithin with hwithin | ⟨hlast, rfl⟩
    · exact hchar hwithin
    · rw [take_char, List.getLast?_append, List.getLast?_cons, Option.some_or,
        Option.some.injEq] at hlast
      cases hconts : (rest.take (charLength b - 1)).getLast? with
      | some c =>
        rw [hconts] at hlast
        have hc := hwide c (List.mem_of_getLast? hconts)
        obtain rfl : c = 42 := hlast
        exact absurd hc (by decide)
      | none =>
        rw [hconts] at hlast
        obtain rfl : b = 42 := hlast
        have hrest : rest = 47 :: after := hafter
        exact hopen ⟨rfl, by rw [hrest]; rfl⟩

theorem Fills.block (hvalid : Utf8.valid (b :: rest) = true)
    (hopen : ¬(b = 42 ∧ rest.head? = some 47)) (h : Fills .blockComment text (b :: rest)) :
    Fills .blockComment (text ++ (b :: rest).take (charLength b))
      ((b :: rest).drop (charLength b)) := by
  obtain ⟨lead, hlead, body, rfl, hbody⟩ := h
  refine ⟨lead, hlead, body ++ (b :: rest).take (charLength b), by simp, ?_⟩
  exact infix_char hvalid hopen hbody

theorem Fills.close (hb : b = 42) (hnext : rest.head? = some 47)
    (h : Fills .blockComment text (b :: rest)) (after : Bytes) :
    Fills .normal (text ++ (b :: rest).take 2) after := by
  obtain ⟨lead, hlead, body, rfl, hbody⟩ := h
  obtain ⟨tail, rfl⟩ := List.head?_eq_some_iff.mp hnext
  subst hb
  have hinside : ¬[42, 47] <:+: body := fun hwithin =>
    hbody (hwithin.trans (List.prefix_append _ _).isInfix)
  have hcomment : 47 :: 42 :: (body ++ [42, 47]) ∈ comment := .inr ⟨body, hinside, rfl⟩
  have hmem := filler_append hlead (.inl (.inr hcomment))
  simpa [Fills] using hmem

theorem Fills.step {state : LexState} {previous : Option UInt8}
    (hvalid : Utf8.valid (b :: rest) = true) (h : Fills state text (b :: rest))
    (hread : lex isAlphanumeric state previous b rest = .ok lexeme)
    (htoken : lexeme.token = .silent ∨ lexeme.token = .semicolon) :
    Fills lexeme.state (text ++ (b :: rest).take lexeme.length)
      ((b :: rest).drop lexeme.length) := by
  cases state with
  | normal =>
    have hopens {mark : Bytes} (hmark : mark = [45, 45] ∨ mark = [35]) :
        text ++ mark ∈ filler * openLine := by
      refine ⟨text, h, mark, ⟨mark, [], hmark, by simp, by simp⟩, rfl⟩
    cases lexNormal_step hread with
    | semicolon here =>
      subst here
      exact filler_append h (.inr rfl)
    | space here => exact filler_append h (.inl (.inl ⟨b, here, rfl⟩))
    | dashes here next =>
      obtain ⟨tail, rfl⟩ := List.head?_eq_some_iff.mp next
      subst here
      exact hopens (.inl rfl)
    | hash here =>
      subst here
      exact hopens (.inr rfl)
    | opens here next =>
      obtain ⟨tail, rfl⟩ := List.head?_eq_some_iff.mp next
      subst here
      refine ⟨text, h, [], rfl, fun hwithin => ?_⟩
      have hlength := hwithin.length_le
      simp only [List.nil_append, List.length_take, List.length_cons, List.length_nil] at hlength
      omega
    | placeholder here | named here => simp at htoken
    | code token =>
      rcases token with htok | ⟨word, htok⟩
      · simp [htok] at htoken
      · simp [htok] at htoken
  | lineComment =>
    cases hread
    exact Fills.line hvalid h _
  | blockComment =>
    simp only [lex] at hread
    split_ifs at hread with hclose
    · cases hread
      exact Fills.close hclose.1 hclose.2 h _
    · cases hread
      exact Fills.block hvalid hclose h
  | singleQuote | escapedSingleQuote | rawSingleQuote | doubleQuote => exact absurd h id

structure Filled (query : Bytes) (scan : Scan) : Prop where
  between : ∀ gap ∈ gaps 0 scan.statements, slice query gap ∈ filler
  before : slice query (lastStop 0 scan.statements, scan.statementStart) ∈ filler
  blank : scan.statementHasCode = false →
    Fills scan.state (slice query (lastStop 0 scan.statements, scan.index)) (query.drop scan.index)

theorem Placed.lastStop_le (h : Placed query scan) :
    lastStop 0 scan.statements ≤ scan.statementStart :=
  Sql.lastStop_le (Nat.zero_le _) fun range hrange => (h.statements range hrange).2.1

theorem Placed.blank_step (hplaced : Placed query scan) (h : Filled query scan)
    (here : query.drop scan.index = b :: rest)
    (hread : lex isAlphanumeric scan.state (query.take scan.index).getLast? b rest = .ok lexeme)
    (htoken : lexeme.token = .silent ∨ lexeme.token = .semicolon)
    (hcode : scan.statementHasCode = false) :
    Fills lexeme.state (slice query (lastStop 0 scan.statements, scan.index + lexeme.length))
      (query.drop (scan.index + lexeme.length)) := by
  have hvalid := hplaced.whole.2
  have hfills := h.blank hcode
  rw [here] at hvalid hfills
  have hstep := hfills.step hvalid hread htoken
  rwa [slice_whole (hplaced.lastStop_le.trans hplaced.start_le) hplaced.whole.1, here,
    ← List.drop_drop, here]

theorem Filled.closed (h : Filled query scan) (stop : Nat) :
    ∀ gap ∈ gaps 0 (scan.addStatement stop), slice query gap ∈ filler := by
  rw [Scan.addStatement]
  split_ifs
  · rw [gaps_snoc, List.forall_mem_append, List.forall_mem_singleton]
    exact ⟨h.between, h.before⟩
  · exact h.between

theorem Placed.semicolon_filler (hplaced : Placed query scan) (h : Filled query scan)
    (here : query.drop scan.index = 59 :: rest) (hread : lex isAlphanumeric scan.state
      (query.take scan.index).getLast? 59 rest = .ok ⟨.semicolon, 1, .normal⟩) :
    slice query (lastStop 0 (scan.addStatement scan.index), scan.index + 1) ∈ filler := by
  cases hcode : scan.statementHasCode with
  | true =>
    rw [Scan.addStatement, if_pos hcode, lastStop_snoc, slice_whole le_rfl hplaced.whole.1,
      slice_self, here]
    exact mem_star (.inr rfl)
  | false =>
    have hfills := hplaced.blank_step h here hread (.inr rfl) hcode
    rwa [Scan.addStatement, if_neg (by simp [hcode])]

theorem Filled.advance (hplaced : Placed query scan) (h : Filled query scan)
    (here : query.drop scan.index = b :: rest)
    (hread : lex isAlphanumeric scan.state (query.take scan.index).getLast? b rest = .ok lexeme) :
    Filled query (scan.advance lexeme) := by
  cases htoken : lexeme.token with
  | semicolon =>
    obtain ⟨hstate, rfl, rfl⟩ := lex_semicolon hread htoken
    by_cases hinternal : scan.procedural.semicolonIsInternal = true
    · rw [scan.advance_internal hinternal]
      exact ⟨h.between, h.before, hplaced.blank_step h here hread (.inr rfl)⟩
    · have hfiller := hplaced.semicolon_filler h here hread
      rw [scan.advance_closing hinternal]
      exact ⟨h.closed scan.index, hfiller, fun _ => hfiller⟩
  | silent =>
    have hblank := hplaced.blank_step h here hread (.inl htoken)
    rw [Scan.advance, htoken]
    exact ⟨h.between, h.before, hblank⟩
  | slot named | code | word text =>
    rw [Scan.advance, htoken]
    exact ⟨h.between, h.before, fun hfalse => by cases hfalse⟩

theorem Reached.filled (hvalid : Utf8.valid query = true) (h : Reached isAlphanumeric query scan) :
    Filled query scan := by
  induction h with
  | start =>
    have hnil : slice query (0, 0) ∈ filler := by
      rw [slice_self]
      exact Language.nil_mem_kstar _
    exact ⟨by simp [Scan.new, gaps], hnil, fun _ => hnil⟩
  | step reached here read ih => exact ih.advance (reached.placed hvalid) here read

end Gaps

structure SoundScan (query : Bytes) (scan : QueryScan) : Prop where
  ordered : scan.statements.Pairwise fun range later => range.2 ≤ later.1
  statements : ∀ range ∈ scan.statements, range.1 < range.2 ∧ range.2 ≤ query.length ∧
    isCharBoundary query range.1 = true ∧ isCharBoundary query range.2 = true
  slots_ordered : scan.slots.Pairwise fun slot later => slot.stop ≤ later.start
  slots : ∀ slot ∈ scan.slots, slot.start < slot.stop ∧ slot.stop ≤ query.length ∧
    isCharBoundary query slot.start = true ∧ isCharBoundary query slot.stop = true
  slots_text : ∀ slot ∈ scan.slots, SlotText query slot
  slots_inside : ∀ slot ∈ scan.slots, ∃! range, range ∈ scan.statements ∧
    range.1 ≤ slot.start ∧ slot.stop ≤ range.2
  between : ∀ gap ∈ gaps 0 scan.statements, slice query gap ∈ filler
  behind : slice query (lastStop 0 scan.statements, query.length) ∈ filler + filler * openLine

theorem disjoint_unique {ranges : List (Nat × Nat)} {start stop : Nat} (hne : start < stop)
    (h : ranges.Pairwise fun range later => range.2 ≤ later.1) {range other : Nat × Nat}
    (hrange : range ∈ ranges) (hother : other ∈ ranges) (hin : range.1 ≤ start ∧ stop ≤ range.2)
    (hin' : other.1 ≤ start ∧ stop ≤ other.2) : range = other := by
  induction h with
  | nil => cases hrange
  | @cons first ranges hfirst _ ih =>
    rcases List.mem_cons.mp hrange with rfl | hlater
    · rcases List.mem_cons.mp hother with rfl | hlater
      · rfl
      · have hle := hfirst other hlater
        omega
    · rcases List.mem_cons.mp hother with rfl | hlast
      · have hle := hfirst range hlater
        omega
      · exact ih hlater hlast

theorem scanQuery_sound {isAlphanumeric : Bytes → Bool} {query : Bytes}
    (hvalid : Utf8.valid query = true) {result : QueryScan}
    (h : scanQuery isAlphanumeric query = .ok result) : SoundScan query result := by
  obtain ⟨scan, hreached, hindex, hstate, rfl⟩ := scanQuery_ok hvalid h
  have hplaced := hreached.placed hvalid
  have hfilled := hreached.filled hvalid
  have hend : Whole query query.length := hindex ▸ hplaced.whole
  obtain ⟨hordered, hranges, hinside⟩ := hplaced.closed hend hindex.le
  refine ⟨hordered, fun range hrange => ?_, hplaced.slots_ordered, fun slot hslot => ?_,
    fun slot hslot => (hplaced.slots slot hslot).text, fun slot hslot => ?_,
    hfilled.closed query.length, ?_⟩
  · obtain ⟨hne, hle, hstart, hstop⟩ := hranges range hrange
    exact ⟨hne, hle, isCharBoundary_of_whole hstart, isCharBoundary_of_whole hstop⟩
  · have hslot := hplaced.slots slot hslot
    exact ⟨hslot.nonempty, hslot.stop_whole.1, isCharBoundary_of_whole hslot.start_whole,
      isCharBoundary_of_whole hslot.stop_whole⟩
  · obtain ⟨range, hrange, hin⟩ := hinside slot hslot
    refine ⟨range, ⟨hrange, hin⟩, fun other hother => ?_⟩
    exact disjoint_unique (hplaced.slots slot hslot).nonempty hordered hother.1 hrange hother.2 hin
  · change slice query (lastStop 0 (scan.addStatement query.length), query.length) ∈ _
    cases hcode : scan.statementHasCode with
    | true =>
      rw [Scan.addStatement, if_pos hcode, lastStop_snoc, slice_self]
      exact .inl (Language.nil_mem_kstar _)
    | false =>
      have hblank := hfilled.blank hcode
      rw [Scan.addStatement, if_neg (by simp [hcode]), ← hindex]
      rcases hstate with hnormal | hline
      · rw [hnormal] at hblank
        exact .inl hblank
      · rw [hline] at hblank
        exact .inr hblank

end MonetdbAdbc.Sql
