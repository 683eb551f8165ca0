import MonetdbAdbc.Sql.DateLiteral
import MonetdbAdbc.Sql.LiteralShape

namespace MonetdbAdbc.Sql
open LittleEndian Text Lexing Machine AsciiNumber TextFields Iso8601 Calendar

-- The lexemes of a rendered text: those of the template, with inert lexemes for each slot.
inductive Substituted (isAlphanumeric : Bytes → Bool) : List Lexeme → List Lexeme → Prop
  | nil : Substituted isAlphanumeric [] []
  | keep {read rendered : List Lexeme} (lexeme : Lexeme) (here : lexeme.token.isSlot = false)
      (tail : Substituted isAlphanumeric read rendered) :
      Substituted isAlphanumeric (lexeme :: read) (lexeme :: rendered)
  | fill {read rendered : List Lexeme} (slot : Lexeme) (value : List Lexeme)
      (here : slot.token.isSlot = true) (state : slot.state = .normal)
      (ends : endState (sqlLexer isAlphanumeric) .normal value = .normal)
      (inert : ∀ lexeme ∈ value, lexeme.token.isInert = true)
      (solid : ∃ lexeme ∈ value, lexeme.token.isSolid = true)
      (tail : Substituted isAlphanumeric read rendered) :
      Substituted isAlphanumeric (slot :: read) (value ++ rendered)

def apartBefore (segment : Bytes) : Bool :=
  !segment.getLast?.any fun b => isIdentifierContinue b || b == 45 || b == 58

def apartAfter (segment : Bytes) : Bool := !startsWith literalJoins segment

def segmentsApart : List Bytes → Bool
  | [] | [_] => true
  | segment :: next :: segments =>
    apartBefore segment && apartAfter next && (segments.isEmpty || next ≠ []) &&
      segmentsApart (next :: segments)

-- No slot touches a word, a string or another slot, and none follows a minus or a colon.
def QueryTemplate.slotsApart (template : QueryTemplate) : Bool :=
  segmentsApart (template.segments.map (slice template.query))

def slotRanges : Nat → List Lexeme → List (Nat × Nat)
  | _, [] => []
  | index, lexeme :: read =>
    if lexeme.token.isSlot then
      (index, index + lexeme.length) :: slotRanges (index + lexeme.length) read
    else slotRanges (index + lexeme.length) read

section Ranges

theorem Scan.advance_ranges (scan : Scan) (lexeme : Lexeme) :
    (scan.advance lexeme).slots.map ScannedSlot.range =
      scan.slots.map ScannedSlot.range ++ slotRanges scan.index [lexeme] := by
  obtain ⟨token, length, state⟩ := lexeme
  cases token with
  | semicolon =>
    simp only [Scan.advance, Scan.observe, slotRanges, Token.isSlot, Bool.false_eq_true, if_false,
      List.append_nil]
    split_ifs <;> rfl
  | slot named => simp [Scan.advance, Scan.observe, slotRanges, Token.isSlot, ScannedSlot.range]
  | _ => simp [Scan.advance, Scan.observe, slotRanges, Token.isSlot]

theorem slotRanges_append (index : Nat) (read later : List Lexeme) :
    slotRanges index (read ++ later) =
      slotRanges index read ++ slotRanges (index + (read.map Lexeme.length).sum) later := by
  induction read generalizing index with
  | nil => simp [slotRanges]
  | cons lexeme read ih =>
    simp only [List.cons_append, slotRanges, ih, List.map_cons, List.sum_cons, Nat.add_assoc]
    split_ifs <;> rfl

theorem slotRanges_eq_nil {read : List Lexeme} {index : Nat} :
    slotRanges index read = [] ↔ ∀ lexeme ∈ read, lexeme.token.isSlot = false := by
  induction read generalizing index with
  | nil => simp [slotRanges]
  | cons lexeme read ih =>
    rw [slotRanges, List.forall_mem_cons]
    split_ifs with hslot
    · simp [hslot]
    · rw [ih, Bool.not_eq_true] at *
      simp [hslot]

theorem slotRanges_plain {read : List Lexeme} (h : ∀ lexeme ∈ read, lexeme.token.isSlot = false)
    (index : Nat) : slotRanges index read = [] :=
  slotRanges_eq_nil.mpr h

theorem Scan.fold_ranges (scan : Scan) (read : List Lexeme) :
    (read.foldl Scan.advance scan).slots.map ScannedSlot.range =
      scan.slots.map ScannedSlot.range ++ slotRanges scan.index read := by
  induction read generalizing scan with
  | nil => simp [slotRanges]
  | cons lexeme read ih =>
    have hindex : (scan.advance lexeme).index = scan.index + lexeme.length := rfl
    rw [List.foldl_cons, ih, Scan.advance_ranges, hindex, List.append_assoc]
    have hsplit := slotRanges_append scan.index [lexeme] read
    rw [List.singleton_append, List.map_singleton, List.sum_singleton] at hsplit
    rw [hsplit]

theorem fold_slots_eq_nil {read : List Lexeme} :
    (read.foldl Scan.advance .new).slots = [] ↔ ∀ lexeme ∈ read, lexeme.token.isSlot = false := by
  rw [← @slotRanges_eq_nil read 0, ← List.map_eq_nil_iff, Scan.fold_ranges]
  rfl

end Ranges

section Segments
variable {isAlphanumeric : Bytes → Bool} {s : LexState} {p : Option UInt8} {rest : Bytes}
  {read : List Lexeme} {after segment text : Bytes} {slots : List TemplateSlot}
  {plain : List Lexeme}

theorem lex_slot_opens {state : LexState} {previous : Option UInt8} {b : UInt8} {lexeme : Lexeme}
    (h : lex isAlphanumeric state previous b rest = .ok lexeme) (hslot : lexeme.token.isSlot = true) :
    state = .normal ∧ lexeme.state = .normal ∧ (b = 63 ∧ lexeme.length = 1 ∨
      b = 58 ∧ lexeme.length = 1 + continueLength rest ∧
        rest.head?.any isIdentifierStart = true) := by
  by_cases hstate : state = .normal
  · subst hstate
    have hnamed : b = 58 → rest.head?.any isIdentifierStart = true := by
      rintro rfl
      by_contra hnext
      have hcode : lexNormal isAlphanumeric previous 58 rest = .ok ⟨.code, charLength 58, .normal⟩ :=
        lexNormal_symbol isAlphanumeric
          ⟨by decide, by decide, by decide, by decide, by decide, by decide, by decide⟩
          (fun hb => absurd hb.1 (by decide)) (fun hb => absurd hb.1 (by decide))
          fun hb => hnext hb.2.1
      obtain rfl := Except.ok.inj (h.symm.trans hcode)
      cases hslot
    cases lexNormal_step h with
    | placeholder here => exact ⟨rfl, rfl, .inl ⟨here, rfl⟩⟩
    | named here => exact ⟨rfl, rfl, .inr ⟨here, rfl, hnamed here⟩⟩
    | code token => rcases token with htok | ⟨word, htok⟩ <;> rw [htok] at hslot <;> cases hslot
    | _ => cases hslot
  · rw [lex_silent hstate h] at hslot
    cases hslot

theorem continue_ne_colon {c : UInt8} (h : isIdentifierContinue c = true) : c ≠ 58 := by
  rintro rfl
  exact absurd h (by decide)

theorem lastOr_continue {body : Bytes} (hne : body ≠ [])
    (h : ∀ c ∈ body, isIdentifierContinue c = true) (p : Option UInt8) : lastOr p body ≠ some 58 := by
  rw [lastOr_eq_or, List.getLast?_eq_some_getLast hne, Option.some_or, ne_eq, Option.some.injEq]
  exact continue_ne_colon (h _ (List.getLast_mem hne))

theorem slot_closes {b : UInt8} {body : Bytes} {previous : Option UInt8} {lexeme : Lexeme}
    {state : LexState} (h : lex isAlphanumeric state previous b (body ++ after) = .ok lexeme)
    (hslot : lexeme.token.isSlot = true) (hlength : lexeme.length = body.length + 1) :
    lastOr (some b) body ≠ some 58 := by
  obtain ⟨-, -, ⟨rfl, hone⟩ | ⟨rfl, hname, hnext⟩⟩ := lex_slot_opens h hslot
  · obtain rfl : body = [] := List.length_eq_zero_iff.mp (by omega)
    decide
  · have hbody : body = (body ++ after).takeWhile isIdentifierContinue := by
      have hcount : ((body ++ after).takeWhile isIdentifierContinue).length = body.length := by
        rw [continueLength] at hname
        omega
      obtain ⟨later, hlater⟩ := List.takeWhile_prefix isIdentifierContinue (l := body ++ after)
      exact (List.append_inj_left hlater hcount).symm
    refine lastOr_continue ?_ (fun c hc => ?_) _
    · rintro rfl
      cases after with
      | nil => cases hnext
      | cons c after =>
        rw [List.nil_append, List.takeWhile_cons_of_pos (continue_of_start hnext)] at hbody
        cases hbody
    · rw [hbody] at hc
      exact List.all_eq_true.mp List.all_takeWhile c hc

theorem split_first (read : List Lexeme) : (∀ lexeme ∈ read, lexeme.token.isSlot = false) ∨
    ∃ plain slot later, read = plain ++ slot :: later ∧
      (∀ lexeme ∈ plain, lexeme.token.isSlot = false) ∧ slot.token.isSlot = true := by
  induction read with
  | nil => exact .inl (by simp)
  | cons lexeme read ih =>
    cases hslot : lexeme.token.isSlot with
    | true => exact .inr ⟨[], lexeme, read, rfl, by simp, hslot⟩
    | false =>
      rcases ih with hplain | ⟨plain, slot, later, rfl, hplain, hfound⟩
      · exact .inl (List.forall_mem_cons.mpr ⟨hslot, hplain⟩)
      · exact .inr ⟨lexeme :: plain, slot, later, rfl, List.forall_mem_cons.mpr ⟨hslot, hplain⟩,
          hfound⟩

structure FirstSlot (isAlphanumeric : Bytes → Bool) (p : Option UInt8) (rest : Bytes)
    (read : List Lexeme) (segment own after : Bytes) (plain : List Lexeme) (slot : Lexeme)
    (later : List Lexeme) : Prop where
  text_eq : rest = segment ++ (own ++ after)
  read_eq : read = plain ++ slot :: later
  before : Lexing.Reads (sqlLexer isAlphanumeric) (own ++ after) .normal p segment plain
  slotFree : ∀ lexeme ∈ plain, lexeme.token.isSlot = false
  isSlot : slot.token.isSlot = true
  normal : endState (sqlLexer isAlphanumeric) .normal plain = .normal
  state_eq : slot.state = .normal
  length_eq : slot.length = own.length
  opens : startsWith (fun b => b == 63 || b == 58) own = true
  closes : lastOr p (segment ++ own) ≠ some 58
  following : Lexing.Reads (sqlLexer isAlphanumeric) [] .normal (lastOr p (segment ++ own)) after later

theorem first_slot (h : Lexing.Reads (sqlLexer isAlphanumeric) [] .normal p rest read) :
    (∀ lexeme ∈ read, lexeme.token.isSlot = false) ∨
      ∃ segment own after plain slot later,
        FirstSlot isAlphanumeric p rest read segment own after plain slot later := by
  rcases split_first read with hplain | ⟨plain, slot, later, rfl, hplain, hslot⟩
  · exact .inl hplain
  · obtain ⟨segment, second, rfl, hsegment, hsecond⟩ := h.split
    cases hsecond with
    | @cons _ _ b body after _ _ hlex hlength hafter =>
      obtain ⟨hnormal, hstate, hopens⟩ := lex_slot_opens hlex hslot
      have hcloses := slot_closes hlex hslot hlength
      rw [sqlLexer_state, hstate] at hafter
      refine .inr ⟨segment, b :: body, after, plain, slot, later, rfl, rfl, ?_, hplain, hslot, hnormal,
        hstate, hlength, ?_, ?_, ?_⟩
      · simpa using hsegment
      · rcases hopens with ⟨rfl, -⟩ | ⟨rfl, -⟩ <;> rfl
      · rw [lastOr_append]
        exact hcloses
      · rw [lastOr_append]
        exact hafter

def segmentsFrom (from_ : Nat) (ranges : List (Nat × Nat)) (length : Nat) : List (Nat × Nat) :=
  gaps from_ ranges ++ [(lastStop from_ ranges, length)]

theorem FirstSlot.ranges {own : Bytes} {later : List Lexeme} {slot : Lexeme}
    (h : FirstSlot isAlphanumeric p rest read segment own after plain slot later) (index : Nat) :
    slotRanges index read = (index + segment.length, index + segment.length + own.length) ::
      slotRanges (index + segment.length + own.length) later := by
  have hsize : (plain.map Lexeme.length).sum = segment.length := h.before.size_eq
  rw [h.read_eq, slotRanges_append, slotRanges_plain h.slotFree, hsize, List.nil_append]
  simp only [slotRanges, h.isSlot, if_true, h.length_eq]

theorem slice_middle (pre segment after : Bytes) :
    slice (pre ++ (segment ++ after)) (pre.length, pre.length + segment.length) = segment := by
  rw [slice, List.take_length_add_append, List.take_left, List.drop_left]

theorem slice_tail (pre after : Bytes) :
    slice (pre ++ after) (pre.length, (pre ++ after).length) = after := by
  rw [slice, List.take_length, List.drop_left]

theorem Substituted.prepend {rendered : List Lexeme}
    (h : Substituted isAlphanumeric read rendered)
    (hplain : ∀ lexeme ∈ plain, lexeme.token.isSlot = false) :
    Substituted isAlphanumeric (plain ++ read) (plain ++ rendered) := by
  induction plain with
  | nil => exact h
  | cons lexeme plain ih =>
    rw [List.forall_mem_cons] at hplain
    exact .keep lexeme hplain.1 (ih hplain.2)

theorem substituted_refl (h : ∀ lexeme ∈ read, lexeme.token.isSlot = false) :
    Substituted isAlphanumeric read read := by
  have hself := (@Substituted.nil isAlphanumeric).prepend h
  rwa [List.append_nil] at hself

theorem apart_slot (x : UInt8) {y : UInt8} (hy : y = 63 ∨ y = 58) : Apart x y := by
  rcases hy with rfl | rfl <;> exact apart_loose x rfl

theorem apart_literal {x y : UInt8}
    (hx : (isIdentifierContinue x || x == 45 || x == 58) = false) (hy : isLiteralStart y = true) :
    Apart x y := by
  simp only [Bool.or_eq_false_iff, beq_eq_false_iff_ne] at hx
  obtain ⟨⟨hword, hminus⟩, hcolon⟩ := hx
  have hne : ∀ c : UInt8, isLiteralStart c = false → y ≠ c := by
    rintro c hc rfl
    rw [hy] at hc
    cases hc
  refine ⟨fun hx => ?_, fun hx => absurd hx hminus, fun _ => hne 42 (by decide),
    fun _ => hne 47 (by decide), fun hx => absurd hx hcolon, fun _ => hne 39 (by decide),
    fun _ => hne 34 (by decide), fun _ => hne 38 (by decide)⟩
  rw [hword] at hx
  cases hx

theorem sealed_of_startsWith {P : UInt8 → Bool}
    (h : ∀ x y, segment.getLast? = some x → P y = true → Apart x y)
    (hafter : startsWith P after = true) : Sealed segment after := by
  intro x y hx hy
  rw [startsWith, hy, Option.any_some] at hafter
  exact h x y hx hafter

theorem FirstSlot.refilled {own value rendered : Bytes} {later : List Lexeme} {slot : Lexeme}
    {p' : Option UInt8}
    (h : FirstSlot isAlphanumeric p rest read segment own after plain slot later)
    (hp : p ≠ some 58) (hp' : p' ≠ some 58) (hbefore : apartBefore segment = true)
    (hvalue : IsLiteral isAlphanumeric value) :
    Lexing.Reads (sqlLexer isAlphanumeric) (value ++ rendered) .normal p' segment plain := by
  have hne : own ≠ [] := by
    rintro rfl
    cases h.opens
  refine reads_previous hp hp' (reads_seam h.before h.slotFree ?_ ?_ fun hnil => ?_)
  · refine sealed_of_startsWith (P := fun b => b == 63 || b == 58) (fun x y _ hy => ?_) ?_
    · exact apart_slot x (by simpa using hy)
    · rw [startsWith_append_of_ne_nil _ hne]
      exact h.opens
  · refine sealed_of_startsWith (fun x y hx hy => apart_literal ?_ hy) ?_
    · rw [apartBefore, hx, Option.any_some, Bool.not_eq_true'] at hbefore
      exact hbefore
    · rw [startsWith_append_of_ne_nil _ hvalue.ne_nil]
      exact hvalue.first
  · simp [hne] at hnil

theorem literal_closes {value : Bytes} (h : IsLiteral isAlphanumeric value) (p : Option UInt8) :
    lastOr p value ≠ some 58 := by
  rw [lastOr_eq_or, List.getLast?_eq_some_getLast h.ne_nil, Option.some_or]
  intro hcolon
  have hlast := h.last
  rw [List.getLast?_eq_some_getLast h.ne_nil, Option.some.inj hcolon] at hlast
  cases hlast

variable {query : Bytes} {resolve : TemplateSlot → Except AdbcError Bytes}

theorem renderFrom_cons {segment : Nat × Nat} {segments : List (Nat × Nat)} {slot : TemplateSlot}
    (h : QueryTemplate.renderFrom query resolve (segment :: segments) (slot :: slots) = .ok text) :
    ∃ value rest, resolve slot = .ok value ∧
      QueryTemplate.renderFrom query resolve segments slots = .ok rest ∧
      text = slice query segment ++ (value ++ rest) := by
  obtain ⟨value, hvalue, h⟩ := bind_eq_ok.mp h
  obtain ⟨rest, hrest, h⟩ := bind_eq_ok.mp h
  exact ⟨value, rest, hvalue, hrest, by rw [← List.append_assoc]; exact (Except.ok.inj h).symm⟩

theorem renderFrom_head {segment : Nat × Nat} {segments : List (Nat × Nat)}
    (hcount : slots.length = segments.length)
    (h : QueryTemplate.renderFrom query resolve (segment :: segments) slots = .ok text) :
    ∃ tail, text = slice query segment ++ tail ∧ (segments = [] → tail = []) := by
  cases slots with
  | nil =>
    obtain rfl : segments = [] := List.length_eq_zero_iff.mp hcount.symm
    cases h
    exact ⟨[], by simp, fun _ => rfl⟩
  | cons slot slots =>
    obtain ⟨value, rest, -, -, rfl⟩ := renderFrom_cons h
    refine ⟨value ++ rest, rfl, ?_⟩
    rintro rfl
    cases hcount

theorem length_gaps (from_ : Nat) (ranges : List (Nat × Nat)) :
    (gaps from_ ranges).length = ranges.length := by
  induction ranges generalizing from_ with
  | nil => rfl
  | cons range ranges ih => exact congrArg (· + 1) (ih range.2)

theorem segmentsFrom_cons (from_ : Nat) (range : Nat × Nat) (ranges : List (Nat × Nat)) (length : Nat) :
    segmentsFrom from_ (range :: ranges) length = (from_, range.1) :: segmentsFrom range.2 ranges length :=
  rfl

theorem segmentsFrom_uncons (from_ : Nat) (ranges : List (Nat × Nat)) (length : Nat) :
    ∃ segment segments, segmentsFrom from_ ranges length = segment :: segments ∧
      segments.length = ranges.length := by
  cases ranges with
  | nil => exact ⟨_, [], rfl, rfl⟩
  | cons range ranges =>
    refine ⟨_, _, segmentsFrom_cons from_ range ranges length, ?_⟩
    rw [segmentsFrom, List.length_append, length_gaps]
    rfl

theorem segmentsFrom_ne_nil (from_ : Nat) (ranges : List (Nat × Nat)) (length : Nat) :
    (segmentsFrom from_ ranges length).map (slice query) ≠ [] := by
  simp [segmentsFrom]

theorem segmentsApart_cons {segments : List Bytes} (hne : segments ≠ [])
    (h : segmentsApart (segment :: segments) = true) :
    apartBefore segment = true ∧ segmentsApart segments = true := by
  obtain ⟨next, segments, rfl⟩ := List.exists_cons_of_ne_nil hne
  simp only [segmentsApart, Bool.and_eq_true] at h
  exact ⟨h.1.1.1, h.2⟩

theorem rendered_apart {from_ : Nat} {ranges : List (Nat × Nat)} {length : Nat} {before : Bytes}
    (hcount : slots.length = ranges.length)
    (hapart : segmentsApart (before :: (segmentsFrom from_ ranges length).map (slice query)) = true)
    (h : QueryTemplate.renderFrom query resolve (segmentsFrom from_ ranges length) slots = .ok text) :
    startsWith literalJoins text = false := by
  obtain ⟨segment, segments, hsegments, hlength⟩ := segmentsFrom_uncons from_ ranges length
  rw [hsegments] at hapart h
  rw [List.map_cons, segmentsApart] at hapart
  simp only [Bool.and_eq_true, Bool.or_eq_true, List.isEmpty_iff, List.map_eq_nil_iff,
    decide_eq_true_eq, apartAfter, Bool.not_eq_true'] at hapart
  obtain ⟨tail, rfl, htail⟩ := renderFrom_head (hcount.trans hlength.symm) h
  rcases hapart.1.2 with hlast | hne
  · rw [htail hlast, List.append_nil]
    exact hapart.1.1.2
  · rw [startsWith_append_of_ne_nil _ hne]
    exact hapart.1.1.2

theorem render_reads
    (hliteral : ∀ slot value, resolve slot = .ok value → IsLiteral isAlphanumeric value)
    {pre : Bytes} {p' : Option UInt8} (hquery : query = pre ++ rest)
    (hreads : Lexing.Reads (sqlLexer isAlphanumeric) [] .normal p rest read) (hp : p ≠ some 58)
    (hp' : p' ≠ some 58) (hcount : slots.length = (slotRanges pre.length read).length)
    (hapart : segmentsApart ((segmentsFrom pre.length (slotRanges pre.length read)
      query.length).map (slice query)) = true)
    (hrender : QueryTemplate.renderFrom query resolve
      (segmentsFrom pre.length (slotRanges pre.length read) query.length) slots = .ok text) :
    ∃ rendered, Lexing.Reads (sqlLexer isAlphanumeric) [] .normal p' text rendered ∧
      Substituted isAlphanumeric read rendered := by
  induction slots generalizing pre rest text p p' read with
  | nil =>
    rcases first_slot hreads with hplain | ⟨segment, own, after, plain, slot, later, hfirst⟩
    · have hend : QueryTemplate.renderFrom query resolve (segmentsFrom pre.length [] query.length) [] =
          .ok (slice query (pre.length, query.length)) := rfl
      rw [slotRanges_plain hplain, hend, hquery, slice_tail] at hrender
      cases hrender
      exact ⟨read, reads_previous hp hp' hreads, substituted_refl hplain⟩
    · rw [hfirst.ranges] at hcount
      cases hcount
  | cons slot slots ih =>
    rcases first_slot hreads with hplain | ⟨segment, own, after, plain, lexeme, later, hfirst⟩
    · rw [slotRanges_plain hplain] at hcount
      cases hcount
    · have hwhole : query = (pre ++ segment ++ own) ++ after := by
        rw [hquery, hfirst.text_eq]
        simp
      have hlength : (pre ++ segment ++ own).length = pre.length + segment.length + own.length := by
        simp only [List.length_append]
      rw [hfirst.ranges, ← hlength] at hcount hapart hrender
      rw [segmentsFrom_cons] at hapart hrender
      have hsegment : slice query (pre.length, pre.length + segment.length) = segment := by
        rw [hquery, hfirst.text_eq, slice_middle]
      rw [List.map_cons, hsegment] at hapart
      obtain ⟨value, rendered, hvalue, hrest, rfl⟩ := renderFrom_cons hrender
      have hcount : slots.length = (slotRanges (pre ++ segment ++ own).length later).length := by
        simpa using hcount
      have hshape := hliteral slot value hvalue
      have hjoin := rendered_apart hcount hapart hrest
      obtain ⟨hbefore, hafter⟩ := segmentsApart_cons (segmentsFrom_ne_nil _ _ _) hapart
      obtain ⟨lexemes, hlexemes, hsubstituted⟩ := ih hwhole hfirst.following hfirst.closes
        (literal_closes hshape (lastOr p' segment)) hcount hafter hrest
      obtain ⟨own, hown, hinert, hsolid⟩ := hshape.solid
      refine ⟨plain ++ (own ++ lexemes), ?_, ?_⟩
      · rw [hsegment]
        have hliteral := hown.reads (lastOr p' segment) (rendered ++ [])
          (by rwa [List.append_nil])
        rw [← hown.ends] at hlexemes
        have htail := hliteral.append hlexemes
        rw [← hfirst.normal] at htail
        refine Lexing.Reads.append ?_ htail
        rw [List.append_nil]
        exact hfirst.refilled hp hp' hbefore hshape
      · rw [hfirst.read_eq]
        exact Substituted.prepend (.fill lexeme own hfirst.isSlot hfirst.state_eq hown.ends hinert
          hsolid hsubstituted) hfirst.slotFree

end Segments

section Structure
variable {isAlphanumeric : Bytes → Bool} {read rendered : List Lexeme} {scan next : Scan}
  {lexeme : Lexeme}

def Token.isCreate : Token → Bool
  | .word text => isKeyword text "CREATE"
  | _ => false

structure ProceduralScan.Idle (scan : ProceduralScan) : Prop where
  inactive : scan.active = false
  before : scan.createPrefix = .start ∨ scan.createPrefix = .other

theorem ProceduralScan.idle_new : ProceduralScan.new.Idle := ⟨rfl, .inl rfl⟩

theorem ProceduralScan.Idle.observeWord {scan : ProceduralScan} (h : scan.Idle) {word : Bytes}
    (hword : isKeyword word "CREATE" = false) : (scan.observeWord word).Idle := by
  have hkeyword : isKeyword word "create" = false := by
    have hcase : (ascii "create").map toUppercase = (ascii "CREATE").map toUppercase := by decide
    rw [isKeyword, eqIgnoreCase, hcase]
    exact hword
  have hnext : nextPrefix word scan.createPrefix = .other := by
    rcases h.before with hbefore | hbefore
    · simp [nextPrefix, hbefore, hkeyword]
    · simp [nextPrefix, hbefore]
  have hobserve : scan.observeWord word = { scan with createPrefix := .other } := by
    simp [ProceduralScan.observeWord, h.inactive, observeInactive, hnext]
  rw [hobserve]
  exact ⟨h.inactive, .inr rfl⟩

theorem ProceduralScan.Idle.semicolon {scan : ProceduralScan} (h : scan.Idle) :
    scan.semicolonIsInternal = false := by
  rw [ProceduralScan.semicolonIsInternal, h.inactive, Bool.false_and]

theorem isInert_word {word : Bytes} (h : (Token.word word).isInert = true) :
    isOneOf word ["INSERT", "UPDATE", "DELETE", "MERGE", "TRUNCATE"] = false ∧
      isKeyword word "CREATE" = false := by
  simp only [Token.isInert, isOneOf, List.any_cons, List.any_nil, Bool.not_eq_true',
    Bool.or_eq_false_iff, Bool.or_false] at h ⊢
  obtain ⟨hinsert, hupdate, hdelete, hmerge, htruncate, hcreate⟩ := h
  exact ⟨⟨hinsert, hupdate, hdelete, hmerge, htruncate⟩, hcreate⟩

structure Scan.Inertly (scan next : Scan) (solid : Bool) : Prop where
  slots : next.slots = scan.slots
  hasDataChange : next.hasDataChange = scan.hasDataChange
  statements : next.statements = scan.statements
  start : next.statementStart = scan.statementStart
  hasCode : next.statementHasCode = (scan.statementHasCode || solid)
  idle : scan.procedural.Idle → next.procedural.Idle

theorem Scan.advance_inert (scan : Scan) (h : lexeme.token.isInert = true) :
    scan.Inertly (scan.advance lexeme) lexeme.token.isSolid := by
  obtain ⟨token, length, state⟩ := lexeme
  cases token with
  | silent => exact ⟨rfl, rfl, rfl, rfl, (Bool.or_false _).symm, id⟩
  | code => exact ⟨rfl, rfl, rfl, rfl, (Bool.or_true _).symm, id⟩
  | word text =>
    obtain ⟨hchange, hcreate⟩ := isInert_word h
    refine ⟨rfl, ?_, rfl, rfl, (Bool.or_true _).symm, fun hidle => hidle.observeWord hcreate⟩
    change (scan.hasDataChange || _) = _
    rw [hchange, Bool.or_false]
  | semicolon | slot named => cases h

theorem Scan.fold_inert (scan : Scan) {value : List Lexeme}
    (h : ∀ lexeme ∈ value, lexeme.token.isInert = true) :
    scan.Inertly (value.foldl Scan.advance scan) (value.any fun lexeme => lexeme.token.isSolid) := by
  induction value generalizing scan with
  | nil => exact ⟨rfl, rfl, rfl, rfl, (Bool.or_false _).symm, id⟩
  | cons lexeme value ih =>
    rw [List.forall_mem_cons] at h
    have hfirst := scan.advance_inert h.1
    have hrest := ih (scan.advance lexeme) h.2
    refine ⟨hrest.slots.trans hfirst.slots, hrest.hasDataChange.trans hfirst.hasDataChange,
      hrest.statements.trans hfirst.statements, hrest.start.trans hfirst.start, ?_, fun hidle => hrest.idle (hfirst.idle hidle)⟩
    rw [List.foldl_cons, hrest.hasCode, hfirst.hasCode, List.any_cons, Bool.or_assoc]

theorem endState_nonempty {s s' : LexState} {value : List Lexeme} (hne : value ≠ []) :
    endState (sqlLexer isAlphanumeric) s value = endState (sqlLexer isAlphanumeric) s' value := by
  cases value with
  | nil => exact absurd rfl hne
  | cons lexeme value => rfl

theorem Substituted.endState_eq (h : Substituted isAlphanumeric read rendered) (s : LexState) :
    endState (sqlLexer isAlphanumeric) s rendered = endState (sqlLexer isAlphanumeric) s read := by
  induction h generalizing s with
  | nil => rfl
  | keep lexeme _ _ ih => exact ih lexeme.state
  | @fill read rendered slot value _ hstate hends _ hsolid _ ih =>
    obtain ⟨lexeme, hmem, -⟩ := hsolid
    rw [endState_append, endState_nonempty (List.ne_nil_of_mem hmem), hends, ih]
    exact congrArg (fun state => endState (sqlLexer isAlphanumeric) state read) hstate.symm

structure Scan.Follows (scan next : Scan) : Prop where
  slots : next.slots = []
  hasDataChange : next.hasDataChange = scan.hasDataChange

theorem Scan.Follows.keep (h : scan.Follows next) (hslot : lexeme.token.isSlot = false) :
    (scan.advance lexeme).Follows (next.advance lexeme) := by
  refine ⟨(Scan.advance_slots hslot).trans h.slots, ?_⟩
  obtain ⟨token, length, state⟩ := lexeme
  cases token with
  | semicolon =>
    simp only [Scan.advance, Scan.observe]
    split_ifs <;> exact h.hasDataChange
  | word text => exact congrArg (· || _) h.hasDataChange
  | _ => exact h.hasDataChange

theorem Scan.advance_slot {slot : Lexeme} (h : slot.token.isSlot = true) :
    (scan.advance slot).hasDataChange = scan.hasDataChange ∧
      (scan.advance slot).statementHasCode = true ∧
      (scan.advance slot).statements = scan.statements ∧
      (scan.advance slot).procedural = scan.procedural := by
  obtain ⟨token, length, state⟩ := slot
  cases token with
  | slot named => exact ⟨rfl, rfl, rfl, rfl⟩
  | _ => cases h

theorem Substituted.follows (h : Substituted isAlphanumeric read rendered)
    (hscan : scan.Follows next) :
    (read.foldl Scan.advance scan).Follows (rendered.foldl Scan.advance next) := by
  induction h generalizing scan next with
  | nil => exact hscan
  | keep lexeme hslot _ ih => exact ih (hscan.keep hslot)
  | @fill read rendered slot value hslot _ _ hinert _ _ ih =>
    have hvalue := next.fold_inert hinert
    rw [List.foldl_append]
    refine ih ⟨hvalue.slots.trans hscan.slots, ?_⟩
    rw [hvalue.hasDataChange, hscan.hasDataChange, (Scan.advance_slot hslot).1]

structure Scan.Aside (scan next : Scan) : Prop where
  hasCode : next.statementHasCode = scan.statementHasCode
  statements : next.statements.length = scan.statements.length
  idle : scan.procedural.Idle
  idle' : next.procedural.Idle

theorem Scan.Aside.length_addStatement (h : scan.Aside next) (stop stop' : Nat) :
    (next.addStatement stop').length = (scan.addStatement stop).length := by
  rw [Scan.length_addStatement, Scan.length_addStatement, Scan.weight, Scan.weight, h.hasCode,
    h.statements]

theorem Scan.Aside.keep (h : scan.Aside next) (hslot : lexeme.token.isSlot = false)
    (hcreate : lexeme.token.isCreate = false) :
    (scan.advance lexeme).Aside (next.advance lexeme) := by
  obtain ⟨token, length, state⟩ := lexeme
  cases token with
  | semicolon =>
    simp only [Scan.advance, Scan.observe, h.idle.semicolon, h.idle'.semicolon, Bool.false_eq_true,
      if_false]
    exact ⟨rfl, h.length_addStatement _ _, ProceduralScan.idle_new, ProceduralScan.idle_new⟩
  | word text =>
    exact ⟨rfl, h.statements, h.idle.observeWord hcreate, h.idle'.observeWord hcreate⟩
  | silent => exact ⟨h.hasCode, h.statements, h.idle, h.idle'⟩
  | code => exact ⟨rfl, h.statements, h.idle, h.idle'⟩
  | slot named => cases hslot

theorem Substituted.aside (h : Substituted isAlphanumeric read rendered)
    (hcreate : ∀ lexeme ∈ read, lexeme.token.isCreate = false) (hscan : scan.Aside next) :
    (read.foldl Scan.advance scan).Aside (rendered.foldl Scan.advance next) := by
  induction h generalizing scan next with
  | nil => exact hscan
  | keep lexeme hslot _ ih =>
    rw [List.forall_mem_cons] at hcreate
    exact ih hcreate.2 (hscan.keep hslot hcreate.1)
  | @fill read rendered slot value hslot _ _ hinert hsolid _ ih =>
    rw [List.forall_mem_cons] at hcreate
    have hvalue := next.fold_inert hinert
    obtain ⟨-, hcode, hstatements, hprocedural⟩ := @Scan.advance_slot scan slot hslot
    rw [List.foldl_append]
    refine ih hcreate.2 ⟨?_, ?_, ?_, hvalue.idle hscan.idle'⟩
    · rw [hvalue.hasCode, hcode, List.any_eq_true.mpr hsolid, Bool.or_true]
    · rw [hvalue.statements, hstatements, hscan.statements]
    · rw [hprocedural]
      exact hscan.idle

end Structure

section Rendered
variable {isAlphanumeric : Bytes → Bool} {rendering : Rendering} {template : QueryTemplate}
  {query : Bytes} {bindByName : Bool} {read : List Lexeme}
  {fields : List (Bytes × TemplateArgument)}

theorem positionalValue_argument {values : List TemplateArgument} {slot : TemplateSlot}
    {value : Bytes} (h : QueryTemplate.positionalValue values slot = .ok value) :
    ∃ argument ∈ values, ∃ bare, value = TemplateArgument.render argument bare := by
  rw [QueryTemplate.positionalValue] at h
  split at h
  · split at h
    next argument hindex =>
      exact ⟨argument, List.mem_of_getElem? hindex, _, (Except.ok.inj h).symm⟩
    · cases h
  · cases h

theorem namedValue_argument {names : List Bytes} {slot : TemplateSlot} {value : Bytes}
    (h : QueryTemplate.namedValue names fields slot = .ok value) :
    ∃ argument ∈ fields.map Prod.snd, ∃ bare, value = TemplateArgument.render argument bare := by
  rw [QueryTemplate.namedValue] at h
  split at h
  · split at h
    next field hfound =>
      obtain ⟨name, -, hfind⟩ := Option.bind_eq_some_iff.mp hfound
      exact ⟨field.2, List.mem_map_of_mem (List.mem_of_find?_eq_some hfind), _,
        (Except.ok.inj h).symm⟩
    · cases h
  · cases h

theorem renderRow_resolve {text : Bytes} (h : template.renderRow fields bindByName = .ok text) :
    ∃ resolve, template.render resolve = .ok text ∧ ∀ slot value, resolve slot = .ok value →
      ∃ argument ∈ fields.map Prod.snd, ∃ bare, value = TemplateArgument.render argument bare := by
  rw [QueryTemplate.renderRow] at h
  split at h
  · split_ifs at h
    rw [QueryTemplate.renderPositional] at h
    split_ifs at h
    exact ⟨_, h, fun _ _ => positionalValue_argument⟩
  · split_ifs at h
    rw [QueryTemplate.renderNamed] at h
    split at h
    · cases h
    split at h
    · cases h
    split at h
    · split_ifs at h
      exact ⟨_, h, fun _ _ => namedValue_argument⟩
    · exact ⟨_, h, fun _ _ => namedValue_argument⟩

theorem templateArgument_literal (hr : rendering.Formats) {field : Field} {column : Column} {row : Nat}
    {argument : TemplateArgument} (h : templateArgument rendering row field column = .ok argument)
    (bare : Bool) : IsLiteral isAlphanumeric (argument.render bare) := by
  obtain ⟨value, hvalue, h⟩ := bind_eq_ok.mp h
  obtain ⟨typed, htyped, h⟩ := bind_eq_ok.mp h
  cases h
  have hliteral : IsLiteral isAlphanumeric value := literal_isLiteral hr hvalue
  cases bare with
  | true => exact hliteral
  | false => exact typed_isLiteral hliteral htyped

variable (isAlphanumeric) in
theorem renderBatchRow_resolve (hr : rendering.Formats) {batch : Driver.RecordBatch} {row : Nat}
    {text : Bytes} (h : renderBatchRow rendering template batch row bindByName = .ok text) :
    ∃ resolve, template.render resolve = .ok text ∧
      ∀ slot value, resolve slot = .ok value → IsLiteral isAlphanumeric value := by
  obtain ⟨values, hvalues, h⟩ := bind_eq_ok.mp h
  obtain ⟨resolve, hresolve, harguments⟩ := renderRow_resolve h
  refine ⟨resolve, hresolve, fun slot value hvalue => ?_⟩
  obtain ⟨argument, hmem, bare, rfl⟩ := harguments slot value hvalue
  obtain ⟨pair, hpair, rfl⟩ := List.mem_map.mp hmem
  rw [renderTemplateArguments] at hvalues
  split_ifs at hvalues
  obtain ⟨source, -, hsource⟩ := mapM_mem hvalues pair.2 (List.of_mem_zip hpair).2
  exact templateArgument_literal hr hsource bare

theorem reads_of_scan (hvalid : Utf8.valid query = true)
    (hread : readText isAlphanumeric query = .ok read)
    (hend : endState (sqlLexer isAlphanumeric) .normal read = .normal ∨
      endState (sqlLexer isAlphanumeric) .normal read = .lineComment) :
    Lexing.Reads (sqlLexer isAlphanumeric) [] .normal none query read := by
  have hread : lexemes (sqlLexer isAlphanumeric) .normal none 0 (query ++ []) = .ok read := by
    rw [List.append_nil]
    exact hread
  obtain ⟨first, last, rfl, hreads, -, hlast⟩ := lexemes_split (by simp) hvalid hread hend
  obtain rfl : last = [] := (Except.ok.inj hlast).symm
  rwa [List.append_nil]

theorem Compiled.length_slots {scanned : List ScannedSlot} {compiled : Compilation}
    (h : Compiled query scanned compiled) : compiled.slots.length = scanned.length := by
  rcases h.kind with hpositional | hnamed
  · simpa using congrArg List.length hpositional.slots
  · exact hnamed.slots.length_eq

theorem template_segments (hread : readText isAlphanumeric query = .ok read)
    (hcompile : compileQuery isAlphanumeric query = .ok template) :
    template.query = query ∧ template.slots.length = (slotRanges 0 read).length ∧
      template.segments = segmentsFrom 0 (slotRanges 0 read) query.length := by
  obtain ⟨scan, hscan, -⟩ := bind_eq_ok.mp hcompile
  obtain ⟨compiled, hcompiled, rfl⟩ := compileQuery_ok hscan hcompile
  obtain ⟨read', hread', -, rfl⟩ := scanQuery_ok_iff.mp hscan
  obtain rfl := Except.ok.inj (hread.symm.trans hread')
  have hranges : ((read.foldl Scan.advance .new).result query.length).slots.map
      ScannedSlot.range = slotRanges 0 read := Scan.fold_ranges .new read
  refine ⟨rfl, ?_, ?_⟩
  · rw [hcompiled.length_slots, ← hranges, List.length_map]
  · rw [hcompiled.segments, hcompiled.segmentStart, hranges]
    rfl

theorem renderBatchRow_reads (hr : rendering.Formats)
    (hreads : Lexing.Reads (sqlLexer isAlphanumeric) [] .normal none query read)
    (hcompile : compileQuery isAlphanumeric query = .ok template)
    (hapart : template.slotsApart = true) {batch : Driver.RecordBatch} {row : Nat} {text : Bytes}
    (hrender : renderBatchRow rendering template batch row bindByName = .ok text) :
    ∃ rendered, readText isAlphanumeric text = .ok rendered ∧
      Substituted isAlphanumeric read rendered := by
  obtain ⟨hquery, hcount, hsegments⟩ := template_segments (reads_whole hreads) hcompile
  obtain ⟨resolve, hresolve, hliteral⟩ := renderBatchRow_resolve isAlphanumeric hr hrender
  rw [QueryTemplate.render, hquery, hsegments] at hresolve
  rw [QueryTemplate.slotsApart, hquery, hsegments] at hapart
  have hnone : (none : Option UInt8) ≠ some 58 := by simp
  obtain ⟨rendered, hrendered, hsubstituted⟩ := render_reads hliteral (List.nil_append _).symm
    hreads hnone hnone hcount hapart hresolve
  exact ⟨rendered, reads_whole hrendered, hsubstituted⟩

theorem rendered_row_keeps_structure (isAlphanumeric : Bytes → Bool) (rendering : Rendering)
    (hformats : rendering.Formats) (query : Utf8.Str) (template : QueryTemplate)
    (hcompile : compileQuery isAlphanumeric query.bytes = .ok template)
    (hapart : template.slotsApart = true) (batch : Driver.RecordBatch) (row : Nat) (bindByName : Bool)
    (text : Bytes) (hrender : renderBatchRow rendering template batch row bindByName = .ok text) :
    ∃ read rendered scan scan', readText isAlphanumeric query.bytes = .ok read ∧
      readText isAlphanumeric text = .ok rendered ∧ Substituted isAlphanumeric read rendered ∧
      scanQuery isAlphanumeric query.bytes = .ok scan ∧ scanQuery isAlphanumeric text = .ok scan' ∧
      scan'.slots = [] ∧ scan'.hasDataChange = scan.hasDataChange ∧
      ((∀ lexeme ∈ read, lexeme.token.isCreate = false) →
        scan'.statements.length = scan.statements.length) := by
  obtain ⟨scan, hscan, -⟩ := bind_eq_ok.mp hcompile
  obtain ⟨read, hread, hend, rfl⟩ := scanQuery_ok_iff.mp hscan
  obtain ⟨rendered, htext, hsubstituted⟩ := renderBatchRow_reads hformats
    (reads_of_scan query.utf8 hread hend) hcompile hapart hrender
  have hfinal := hsubstituted.endState_eq .normal
  rw [← hfinal] at hend
  have hfollows : Scan.new.Follows Scan.new := ⟨rfl, rfl⟩
  have hfollows := hsubstituted.follows hfollows
  refine ⟨read, rendered, _, _, hread, htext, hsubstituted, hscan,
    scanQuery_ok_iff.mpr ⟨rendered, htext, hend, rfl⟩, hfollows.slots, hfollows.hasDataChange,
    fun hcreate => ?_⟩
  have haside : Scan.new.Aside Scan.new :=
    ⟨rfl, rfl, ProceduralScan.idle_new, ProceduralScan.idle_new⟩
  exact (hsubstituted.aside hcreate haside).length_addStatement _ _

def zeroFloats : Rendering := { gregorian with lowerExp := fun _ => ascii "0e0" }

theorem dateText_byte (date : Date) : ∀ b ∈ dateText date, IsDigit b ∨ b = 43 ∨ b = 45 := by
  have hpadded (width n : Nat) : ∀ b ∈ padded width n, IsDigit b ∨ b = 43 ∨ b = 45 :=
    fun b hb => .inl (padded_isDigit width n b hb)
  rw [dateText_eq, yearText, List.forall_mem_append, List.forall_mem_cons, List.forall_mem_append,
    List.forall_mem_cons]
  refine ⟨?_, .inr (.inr rfl), hpadded _ _, .inr (.inr rfl), hpadded _ _⟩
  split_ifs
  · exact hpadded _ _
  · exact List.forall_mem_cons.mpr ⟨.inr (.inr rfl), hpadded _ _⟩
  · exact List.forall_mem_cons.mpr ⟨.inr (.inl rfl), hpadded _ _⟩

theorem zeroFloats_formats : zeroFloats.Formats where
  dates := dateText_byte
  floats _ _ := by
    have hzero : IsDigit 48 := ⟨by decide, by decide⟩
    exact ⟨false, [48], false, [48], rfl, by simpa using hzero, ⟨48, rfl, hzero⟩,
      by simpa using hzero, by simp⟩

def quotedQuery : Utf8.Str := ⟨ascii "SELECT * FROM t WHERE a = ? AND b = ?", by decide⟩

def quotedTemplate : QueryTemplate :=
  ⟨quotedQuery.bytes, [(0, 26), (27, 36), (37, 37)],
    [⟨.positional 0, false⟩, ⟨.positional 1, false⟩], .positional 2⟩

def quotedBatch : Driver.RecordBatch where
  schema := [⟨"a", .utf8 .standard, true, none⟩, ⟨"b", .primitive .int32, true, none⟩]
  columns := [.utf8 .standard [some ⟨ascii "x'; --", by decide⟩], .primitive .int32 [⟨false, 5⟩]]
  rows := 1
  aligned := .cons ⟨rfl, rfl⟩ (.cons ⟨rfl, rfl⟩ .nil)
  resident := by
    simp [Resident, Machine.isizeMax, Primitive.width]

def quotedRow : Bytes := ascii "SELECT * FROM t WHERE a = R'x''; --' AND b = CAST(5 AS INT)"

theorem quoted_row_keeps_structure :
    renderBatchRow zeroFloats quotedTemplate quotedBatch 0 false = .ok quotedRow ∧
      ∃ read rendered scan scan', readText (fun _ => false) quotedQuery.bytes = .ok read ∧
        readText (fun _ => false) quotedRow = .ok rendered ∧
        Substituted (fun _ => false) read rendered ∧
        scanQuery (fun _ => false) quotedQuery.bytes = .ok scan ∧
        scanQuery (fun _ => false) quotedRow = .ok scan' ∧
        scan'.slots = [] ∧ scan'.hasDataChange = scan.hasDataChange ∧
        ((∀ lexeme ∈ read, lexeme.token.isCreate = false) →
          scan'.statements.length = scan.statements.length) :=
  ⟨by decide +kernel, rendered_row_keeps_structure _ zeroFloats zeroFloats_formats quotedQuery quotedTemplate
    (by decide +kernel) (by decide +kernel) quotedBatch 0 false _ (by decide +kernel)⟩

end Rendered

end MonetdbAdbc.Sql
