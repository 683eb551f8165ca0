import MonetdbAdbc.Sql.TemplateSound
import MonetdbAdbc.Sql.Normalize

namespace MonetdbAdbc.Sql
open LittleEndian Text Lexing
open scoped Computability

def trailerPiece : Language UInt8 := wideSpace + {[59]}

def trailer : Language UInt8 := trailerPiece∗

section Trimming
variable {text : Bytes}

def spaces (p₁ : UInt8 → Bool) (p₂ : UInt8 → UInt8 → Bool) (p₃ : UInt8 → UInt8 → UInt8 → Bool) :
    Language UInt8 :=
  {text | (∃ a, p₁ a = true ∧ text = [a]) ∨ (∃ a b, p₂ a b = true ∧ text = [a, b]) ∨
    ∃ a b c, p₃ a b c = true ∧ text = [a, b, c]}

theorem dropSpace_star (p₁ : UInt8 → Bool) (p₂ : UInt8 → UInt8 → Bool)
    (p₃ : UInt8 → UInt8 → UInt8 → Bool) (text : Bytes) :
    ∃ dropped ∈ (spaces p₁ p₂ p₃)∗, text = dropped ++ dropSpace p₁ p₂ p₃ text := by
  have hnil : ([] : Bytes) ∈ (spaces p₁ p₂ p₃)∗ := Language.nil_mem_kstar _
  fun_induction dropSpace p₁ p₂ p₃ text with
  | case1 => exact ⟨[], hnil, rfl⟩
  | case2 a ha => exact ⟨[a], mem_star (.inl ⟨a, ha, rfl⟩), rfl⟩
  | case3 a ha => exact ⟨[], hnil, rfl⟩
  | case4 a b ha ih =>
    obtain ⟨dropped, hdropped, heq⟩ := ih
    refine ⟨[a] ++ dropped, append_mem_star (mem_star (.inl ⟨a, ha, rfl⟩)) hdropped, ?_⟩
    rw [List.append_assoc, ← heq]
    rfl
  | case5 a b ha hb => exact ⟨[a, b], mem_star (.inr (.inl ⟨a, b, hb, rfl⟩)), rfl⟩
  | case6 a b ha hb => exact ⟨[], hnil, rfl⟩
  | case7 a b c bs ha ih =>
    obtain ⟨dropped, hdropped, heq⟩ := ih
    refine ⟨[a] ++ dropped, append_mem_star (mem_star (.inl ⟨a, ha, rfl⟩)) hdropped, ?_⟩
    rw [List.append_assoc, ← heq]
    rfl
  | case8 a b c bs ha hb ih =>
    obtain ⟨dropped, hdropped, heq⟩ := ih
    refine ⟨[a, b] ++ dropped, append_mem_star (mem_star (.inr (.inl ⟨a, b, hb, rfl⟩))) hdropped, ?_⟩
    rw [List.append_assoc, ← heq]
    rfl
  | case9 a b c bs ha hb hc ih =>
    obtain ⟨dropped, hdropped, heq⟩ := ih
    refine ⟨[a, b, c] ++ dropped,
      append_mem_star (mem_star (.inr (.inr ⟨a, b, c, hc, rfl⟩))) hdropped, ?_⟩
    rw [List.append_assoc, ← heq]
    rfl
  | case10 a b c bs ha hb hc => exact ⟨[], hnil, rfl⟩

theorem trimStart_star (text : Bytes) :
    ∃ dropped ∈ wideSpace∗, text = dropped ++ trimStart text :=
  dropSpace_star isSpace₁ isSpace₂ isSpace₃ text

theorem reverse_spaces
    (h : text ∈ spaces isSpace₁ (fun b a => isSpace₂ a b) fun c b a => isSpace₃ a b c) :
    text ∈ wideSpace.reverse := by
  rcases h with ⟨a, ha, rfl⟩ | ⟨b, a, hab, rfl⟩ | ⟨c, b, a, habc, rfl⟩
  · exact .inl ⟨a, ha, rfl⟩
  · exact .inr (.inl ⟨a, b, hab, rfl⟩)
  · exact .inr (.inr ⟨a, b, c, habc, rfl⟩)

theorem star_mono {l m : Language UInt8} (h : ∀ text ∈ l, text ∈ m) (htext : text ∈ l∗) :
    text ∈ m∗ := by
  obtain ⟨pieces, rfl, hpieces⟩ := Language.mem_kstar.mp htext
  exact Language.join_mem_kstar fun piece hpiece => h piece (hpieces piece hpiece)

theorem trimEnd_star (text : Bytes) :
    ∃ dropped ∈ wideSpace∗, text = trimEnd text ++ dropped := by
  obtain ⟨dropped, hdropped, heq⟩ := dropSpace_star isSpace₁ (fun b a => isSpace₂ a b)
    (fun c b a => isSpace₃ a b c) text.reverse
  refine ⟨dropped.reverse, ?_, ?_⟩
  · have hreverse := star_mono (fun _ => reverse_spaces) hdropped
    rw [← Language.reverse_kstar] at hreverse
    exact hreverse
  · rw [trimEnd, ← List.reverse_append, ← heq, List.reverse_reverse]

theorem trimEndMatches_star (text : Bytes) :
    ∃ dropped ∈ trailer, text = trimEndMatches 59 text ++ dropped := by
  obtain ⟨dropped, heq, hall⟩ := trimEndMatches_append 59 text
  refine ⟨dropped, ?_, heq⟩
  clear heq
  induction dropped with
  | nil => exact Language.nil_mem_kstar _
  | cons b dropped ih =>
    rw [List.forall_mem_cons] at hall
    have hsemicolon : [b] ∈ trailerPiece := .inr (by rw [hall.1]; rfl)
    exact append_mem_star (mem_star hsemicolon) (ih hall.2)

theorem normalize_parts (query : Bytes) :
    ∃ lead ∈ wideSpace∗, ∃ tail ∈ trailer,
      query = lead ++ (normalizePreparedQuery query ++ tail) := by
  have hspace {text : Bytes} (h : text ∈ wideSpace∗) : text ∈ trailer := star_mono (fun _ => .inl) h
  obtain ⟨lead, hlead, hquery⟩ := trimStart_star query
  obtain ⟨outer, houter, hstart⟩ := trimEnd_star (trimStart query)
  obtain ⟨middle, hmiddle, htrim⟩ := trimEndMatches_star (trim query)
  obtain ⟨inner, hinner, hmatches⟩ := trimEnd_star (trimEndMatches 59 (trim query))
  refine ⟨lead, hlead, inner ++ (middle ++ outer),
    append_mem_star (hspace hinner) (append_mem_star hmiddle (hspace houter)), ?_⟩
  calc
    query = lead ++ trimStart query := hquery
    _ = lead ++ (trim query ++ outer) := congrArg (lead ++ ·) hstart
    _ = lead ++ (trimEndMatches 59 (trim query) ++ middle ++ outer) := by rw [← htrim]
    _ = lead ++ (normalizePreparedQuery query ++ inner ++ middle ++ outer) := by
      rw [normalizePreparedQuery, ← hmatches]
    _ = lead ++ (normalizePreparedQuery query ++ (inner ++ (middle ++ outer))) := by
      simp only [List.append_assoc]

theorem wideSpace_valid (h : text ∈ wideSpace) : Utf8.valid text = true := by
  rcases h with ⟨a, ha, rfl⟩ | ⟨a, b, hab, rfl⟩ | ⟨a, b, c, habc, rfl⟩
  · refine Utf8.valid_of_ascii fun b hb => ?_
    rw [List.mem_singleton.mp hb]
    simp only [isSpace₁, Bool.or_eq_true, Bool.and_eq_true, beq_iff_eq, decide_eq_true_eq,
      UInt8.le_iff_toNat_le, UInt8.lt_iff_toNat_lt, ← UInt8.toNat_inj, UInt8.reduceToNat] at ha ⊢
    omega
  · simp only [isSpace₂, Bool.and_eq_true, Bool.or_eq_true, beq_iff_eq] at hab
    obtain ⟨rfl, rfl | rfl⟩ := hab <;> decide
  · simp only [isSpace₃, Bool.and_eq_true, Bool.or_eq_true, beq_iff_eq, decide_eq_true_eq] at habc
    have hthird {c : UInt8} (hlow : 0x80 ≤ c) (hhigh : c ≤ 0xBF) :
        Utf8.valid [0xE2, 0x80, c] = true := by
      simp [Utf8.valid, Utf8.run, Utf8.next, Utf8.lead, hlow, hhigh]
    obtain ((⟨⟨rfl, rfl⟩, rfl⟩ | ⟨⟨rfl, rfl⟩, hc⟩) | ⟨⟨rfl, rfl⟩, rfl⟩) | ⟨⟨rfl, rfl⟩, rfl⟩ := habc
    · decide
    · rcases hc with ((hc | rfl) | rfl) | rfl
      · exact hthird hc.1 (UInt8.le_trans hc.2 (by decide))
      · decide
      · decide
      · decide
    · decide
    · decide

theorem piece_valid (h : text ∈ trailerPiece) : Utf8.valid text = true := by
  rcases h with hspace | rfl
  · exact wideSpace_valid hspace
  · decide

theorem star_valid {l : Language UInt8} (hl : ∀ text ∈ l, Utf8.valid text = true) (h : text ∈ l∗) :
    Utf8.valid text = true :=
  star_induction (P := fun text => Utf8.valid text = true) rfl
    (fun piece hpiece _ _ ih => Utf8.valid_append (hl piece hpiece) ih) h

theorem piece_following {piece : Bytes} (h : piece ∈ trailerPiece) :
    ∀ b ∈ piece, isFollowing b = true := by
  rcases h with (⟨a, ha, rfl⟩ | ⟨a, b, hab, rfl⟩ | ⟨a, b, c, habc, rfl⟩) | rfl
  · simp [isFollowing, isTrailing_of_space₁ ha]
  · simp [isFollowing, isTrailing_of_space₂ hab]
  · simp [isFollowing, isTrailing_of_space₃ habc]
  · rw [List.forall_mem_singleton]
    decide

theorem trailer_following (h : text ∈ trailer) : ∀ b ∈ text, isFollowing b = true := by
  refine star_induction (P := fun text => ∀ b ∈ text, isFollowing b = true) (by simp) ?_ h
  intro piece hpiece text _ ih
  rw [List.forall_mem_append]
  exact ⟨piece_following hpiece, ih⟩

end Trimming

section Following
variable {isAlphanumeric : Bytes → Bool} {state : LexState} {previous : Option UInt8} {b : UInt8}
  {rest tail : Bytes}

theorem head_followed (htail : ∀ c ∈ tail, isFollowing c = true) {c : UInt8}
    (hc : isFollowing c = false) : (rest ++ tail).head? = some c ↔ rest.head? = some c := by
  cases rest with
  | cons x rest => rfl
  | nil =>
    cases tail with
    | nil => rfl
    | cons x tail =>
      simp only [List.nil_append, List.head?_cons, List.head?_nil, reduceCtorEq, iff_false,
        Option.some.injEq]
      rintro rfl
      rw [htail x List.mem_cons_self] at hc
      cases hc

theorem takeWhile_followed (htail : ∀ c ∈ tail, isFollowing c = true) (rest : Bytes) :
    (rest ++ tail).takeWhile isIdentifierContinue = rest.takeWhile isIdentifierContinue := by
  induction rest with
  | nil =>
    cases tail with
    | nil => rfl
    | cons x tail => simp [following_not_continue (htail x List.mem_cons_self)]
  | cons x rest ih => simp only [List.cons_append, List.takeWhile_cons, ih]

theorem any_followed (htail : ∀ c ∈ tail, isFollowing c = true) (rest : Bytes) :
    (rest ++ tail).head?.any isIdentifierStart = rest.head?.any isIdentifierStart := by
  cases rest with
  | cons x rest => rfl
  | nil =>
    cases tail with
    | nil => rfl
    | cons x tail =>
      have hx := following_not_continue (htail x List.mem_cons_self)
      rw [isIdentifierContinue, Bool.or_eq_false_iff] at hx
      simpa using hx.1

theorem third_followed (htail : ∀ c ∈ tail, isFollowing c = true) {quote : UInt8}
    (hquote : isFollowing quote = false) :
    (rest ++ tail).head? = some 38 ∧ (rest ++ tail)[1]? = some quote ↔
      rest.head? = some 38 ∧ rest[1]? = some quote := by
  rw [head_followed htail (by decide)]
  refine and_congr_right fun hhead => ?_
  obtain ⟨after, rfl⟩ := List.head?_eq_some_iff.mp hhead
  simp only [List.cons_append, List.getElem?_cons_succ, ← List.head?_eq_getElem?]
  exact head_followed htail hquote

theorem look_followed (htail : ∀ c ∈ tail, isFollowing c = true)
    (hescape : ¬(state = .escapedSingleQuote ∧ b = 92 ∧ rest = [])) :
    look state previous b (rest ++ tail) = look state previous b rest := by
  have hhead {c : UInt8} (hc : isFollowing c = false) :
      (rest ++ tail).head? = some c ↔ rest.head? = some c := head_followed htail hc
  cases state with
  | normal =>
    simp only [look, hhead (show isFollowing 45 = false by decide),
      hhead (show isFollowing 42 = false by decide), hhead (show isFollowing 39 = false by decide),
      third_followed htail (show isFollowing 39 = false by decide),
      third_followed htail (show isFollowing 34 = false by decide), takeWhile_followed htail,
      any_followed htail]
  | escapedSingleQuote =>
    have hnext : (if b = 92 then (rest ++ tail).head? else none) = if b = 92 then rest.head? else none := by
      split_ifs with hb
      · cases rest with
        | nil => exact absurd ⟨rfl, hb, rfl⟩ hescape
        | cons x rest => rfl
      · rfl
    simp only [look, hhead (show isFollowing 39 = false by decide), hnext]
  | singleQuote | rawSingleQuote => simp only [look, hhead (show isFollowing 39 = false by decide)]
  | doubleQuote => simp only [look, hhead (show isFollowing 34 = false by decide)]
  | lineComment => rfl
  | blockComment => simp only [look, hhead (show isFollowing 47 = false by decide)]

theorem lexNamed_followed (htail : ∀ c ∈ tail, isFollowing c = true)
    (hvalid : Utf8.valid rest = true) {lexeme : Lexeme}
    (h : lexNamed isAlphanumeric (rest ++ tail) = .ok lexeme) :
    lexNamed isAlphanumeric rest = .ok lexeme := by
  have hlength : continueLength (rest ++ tail) = continueLength rest := by
    rw [continueLength, continueLength, takeWhile_followed htail]
  have hwhole : Whole rest (continueLength rest) := whole_run identifier_ascii hvalid
  rw [lexNamed, hlength, List.drop_append_of_le_length hwhole.1] at h
  rw [lexNamed]
  split_ifs at h with hbad
  rw [if_neg ?_]
  · exact h
  · cases hafter : rest.drop (continueLength rest) with
    | nil => simp
    | cons lead after =>
      have hafterValid := hwhole.2
      rw [hafter] at hafterValid
      have hchar := (whole_char hafterValid).1.1
      rw [hafter, List.cons_append, List.head?_cons, Option.any_some, ← List.cons_append,
        List.take_append_of_le_length hchar] at hbad
      exact hbad

theorem lex_followed (htail : ∀ c ∈ tail, isFollowing c = true)
    (hvalid : Utf8.valid (b :: rest) = true)
    (hescape : ¬(state = .escapedSingleQuote ∧ b = 92 ∧ rest = [])) {lexeme : Lexeme}
    (h : lex isAlphanumeric state previous b (rest ++ tail) = .ok lexeme) :
    lex isAlphanumeric state previous b rest = .ok lexeme := by
  cases hslot : lexeme.token.isSlot with
  | false => exact lex_congr isAlphanumeric h hslot (look_followed htail hescape)
  | true =>
    by_cases hstate : state = .normal
    · subst hstate
      cases lexNormal_step h with
      | placeholder here =>
        subst here
        rfl
      | named here =>
        subst here
        by_cases hcolon : rest.head?.any isIdentifierStart = true ∧ previous ≠ some 58
        · have hread : lexNormal isAlphanumeric previous 58 (rest ++ tail) = _ :=
            lexNormal_colon isAlphanumeric (by rw [any_followed htail]; exact hcolon.1) hcolon.2
          rw [show lex isAlphanumeric .normal previous 58 (rest ++ tail) = _ from hread] at h
          exact (lexNormal_colon isAlphanumeric hcolon.1 hcolon.2).trans
            (lexNamed_followed htail (valid_tail (by decide) hvalid) h)
        · have hsymbol : IsSymbol 58 := by constructor <;> decide
          have hread : lexNormal isAlphanumeric previous 58 (rest ++ tail) = _ :=
            lexNormal_symbol isAlphanumeric hsymbol (by simp) (by simp) (by
              rw [any_followed htail]
              exact fun hall => hcolon hall.2)
          rw [show lex isAlphanumeric .normal previous 58 (rest ++ tail) = _ from hread] at h
          cases h
      | code token => rcases token with htok | ⟨word, htok⟩ <;> simp [htok, Token.isSlot] at hslot
      | _ => cases hslot
    · rw [lex_silent hstate h] at hslot
      cases hslot

theorem lex_stuck {c : UInt8} (hc : isFollowing c = true)
    (hstate : ¬(state = .normal ∨ state = .lineComment)) :
    lex isAlphanumeric state previous c rest = .ok ⟨.silent, charLength c, state⟩ := by
  have hne {d : UInt8} (hd : isFollowing d = false) : c ≠ d := by
    rintro rfl
    rw [hc] at hd
    cases hd
  have hquoted (quote : UInt8) (hquote : isFollowing quote = false) (next : Option UInt8) :
      quoted state quote c next = ⟨.silent, charLength c, state⟩ := if_neg (hne hquote)
  have hslash := hne (show isFollowing 92 = false by decide)
  cases state with
  | normal => exact absurd (.inl rfl) hstate
  | lineComment => exact absurd (.inr rfl) hstate
  | singleQuote =>
    rw [lex, if_neg fun h => hslash h.1]
    exact congrArg Except.ok (hquoted 39 (by decide) _)
  | escapedSingleQuote =>
    simp only [lex, beq_eq_false_iff_ne.mpr hslash]
    exact congrArg Except.ok (hquoted 39 (by decide) _)
  | rawSingleQuote => exact congrArg Except.ok (hquoted 39 (by decide) _)
  | doubleQuote => exact congrArg Except.ok (hquoted 34 (by decide) _)
  | blockComment =>
    rw [lex, if_neg fun h => hne (show isFollowing 42 = false by decide) h.1]

theorem lexemes_stuck (htail : ∀ c ∈ tail, isFollowing c = true)
    (hstate : ¬(state = .normal ∨ state = .lineComment)) {skip : Nat} {read : List Lexeme}
    (h : lexemes (sqlLexer isAlphanumeric) state previous skip tail = .ok read) :
    endState (sqlLexer isAlphanumeric) state read = state := by
  induction tail generalizing previous skip read with
  | nil =>
    cases skip <;> obtain rfl := Except.ok.inj h <;> rfl
  | cons c tail ih =>
    rw [List.forall_mem_cons] at htail
    cases skip with
    | succ skip => exact ih htail.2 h
    | zero =>
      obtain ⟨lexeme, later, rfl⟩ := lexemes_uncons h
      obtain ⟨hlexeme, hlater⟩ := lexemes_cons_ok h
      rw [sqlLexer_lex, lex_stuck htail.1 hstate] at hlexeme
      cases hlexeme
      rw [endState]
      exact ih htail.2 hlater

-- Only a backslash at the very end of the text could join a lexeme to what follows, and then the
-- quoted string is still open at the end of the whole text.
theorem lexemes_split (htail : ∀ c ∈ tail, isFollowing c = true) {text : Bytes}
    (hvalid : Utf8.valid text = true) {read : List Lexeme}
    (h : lexemes (sqlLexer isAlphanumeric) state previous 0 (text ++ tail) = .ok read)
    (hend : endState (sqlLexer isAlphanumeric) state read = .normal ∨
      endState (sqlLexer isAlphanumeric) state read = .lineComment) :
    ∃ first last, read = first ++ last ∧ Reads (sqlLexer isAlphanumeric) [] state previous text first ∧
      (endState (sqlLexer isAlphanumeric) state first = .normal ∨
        endState (sqlLexer isAlphanumeric) state first = .lineComment) ∧
      lexemes (sqlLexer isAlphanumeric) (endState (sqlLexer isAlphanumeric) state first)
        (lastOr previous text) 0 tail = .ok last := by
  induction hlength : text.length using Nat.strong_induction_on
    generalizing state previous text read with
  | h length ih =>
    cases text with
    | nil =>
      refine ⟨[], read, rfl, .nil _ _, ?_, h⟩
      rw [endState]
      by_contra hstate
      rw [lexemes_stuck htail hstate h] at hend
      exact hstate hend
    | cons b rest =>
      obtain ⟨lexeme, later, rfl⟩ := lexemes_uncons h
      obtain ⟨hread, hlater⟩ := lexemes_cons_ok h
      change lex isAlphanumeric state previous b (rest ++ tail) = .ok lexeme at hread
      change lexemes (sqlLexer isAlphanumeric) lexeme.state (some b) (lexeme.length - 1)
        (rest ++ tail) = .ok later at hlater
      by_cases hescape : state = .escapedSingleQuote ∧ b = 92 ∧ rest = [] ∧ tail ≠ []
      · obtain ⟨rfl, rfl, rfl, hne⟩ := hescape
        obtain ⟨c, tail, rfl⟩ := List.exists_cons_of_ne_nil hne
        cases hread
        have hopen : ¬(LexState.escapedSingleQuote = .normal ∨
            LexState.escapedSingleQuote = .lineComment) := by decide
        rw [endState, sqlLexer_state, lexemes_stuck htail hopen hlater] at hend
        exact absurd hend hopen
      · have hown : lex isAlphanumeric state previous b rest = .ok lexeme := by
          by_cases hnil : tail = []
          · rwa [hnil, List.append_nil] at hread
          · exact lex_followed htail hvalid (fun hall => hescape ⟨hall.1, hall.2.1, hall.2.2, hnil⟩) hread
        have hwhole := lex_whole isAlphanumeric hvalid hown
        have hpos := lex_length_pos isAlphanumeric hown
        have hle := hwhole.1
        rw [List.length_cons] at hle
        obtain ⟨body, piece, rfl, hbody⟩ : ∃ body piece, rest = body ++ piece ∧
            lexeme.length = body.length + 1 := by
          refine ⟨rest.take (lexeme.length - 1), rest.drop (lexeme.length - 1),
            (List.take_append_drop _ _).symm, ?_⟩
          rw [List.length_take]
          omega
        have hpiece : Utf8.valid piece = true := by
          have hdrop := hwhole.2
          rwa [hbody, List.drop_succ_cons, List.drop_left] at hdrop
        rw [hbody, Nat.add_sub_cancel, List.append_assoc, lexemes_skip] at hlater
        obtain ⟨first, last, rfl, hfirst, hstate, hlast⟩ :=
          ih piece.length (by rw [← hlength]; simp) hpiece hlater hend rfl
        refine ⟨lexeme :: first, last, rfl, .cons (by simpa using hown) hbody hfirst, hstate, ?_⟩
        rw [lastOr, lastOr_append]
        exact hlast

end Following

section Counting
variable {scan : Scan}

def Scan.weight (scan : Scan) : Nat :=
  scan.statements.length + if scan.statementHasCode then 1 else 0

theorem Scan.length_addStatement (scan : Scan) (stop : Nat) :
    (scan.addStatement stop).length = scan.weight := by
  rw [addStatement, weight]
  split_ifs
  · exact List.length_append
  · rfl

inductive Move where
  | keeps
  | opens
  | closes

def ProceduralScan.move (procedural : ProceduralScan) : Token → Move
  | .semicolon => if procedural.semicolonIsInternal then .keeps else .closes
  | .silent => .keeps
  | .slot _ | .code | .word _ => .opens

theorem Scan.addStatement_closed (h : scan.statementHasCode = false) (stop : Nat) :
    scan.addStatement stop = scan.statements := by
  rw [addStatement, if_neg (by simp [h])]

theorem Scan.addStatement_open (h : scan.statementHasCode = true) (hnone : scan.statements = [])
    (stop : Nat) : scan.addStatement stop = [(scan.statementStart, stop)] := by
  rw [addStatement, if_pos h, hnone]
  rfl

def Scan.Moved (scan next : Scan) : Move → Prop
  | .keeps => next.statements = scan.statements ∧ next.statementStart = scan.statementStart ∧
      next.statementHasCode = scan.statementHasCode
  | .opens => next.statements = scan.statements ∧ next.statementStart = scan.statementStart ∧
      next.statementHasCode = true
  | .closes => next.statements = scan.addStatement scan.index ∧
      next.statementStart = scan.index + 1 ∧ next.statementHasCode = false

theorem Scan.advance_moved (scan : Scan) (lexeme : Lexeme) :
    scan.Moved (scan.advance lexeme) (scan.procedural.move lexeme.token) := by
  rw [advance]
  cases lexeme.token with
  | semicolon =>
    by_cases hinternal : scan.procedural.semicolonIsInternal = true
    · simp only [observe, ProceduralScan.move, if_pos hinternal]
      exact ⟨rfl, rfl, rfl⟩
    · simp only [observe, ProceduralScan.move, if_neg hinternal]
      exact ⟨rfl, rfl, rfl⟩
  | silent | slot | code | word => exact ⟨rfl, rfl, rfl⟩

theorem Scan.Moved.weight_le {next : Scan} {move : Move} (h : scan.Moved next move) :
    scan.weight ≤ next.weight := by
  cases move with
  | keeps =>
    obtain ⟨hstatements, -, hcode⟩ := h
    rw [weight, weight, hstatements, hcode]
  | opens =>
    obtain ⟨hstatements, -, hcode⟩ := h
    rw [weight, weight, hstatements, hcode, if_pos rfl]
    split_ifs <;> omega
  | closes =>
    obtain ⟨hstatements, -, -⟩ := h
    rw [← scan.length_addStatement scan.index, weight, hstatements]
    exact Nat.le_add_right _ _

theorem Scan.weight_fold (scan : Scan) (read : List Lexeme) :
    scan.weight ≤ (read.foldl advance scan).weight := by
  induction read generalizing scan with
  | nil => exact le_rfl
  | cons lexeme read ih => exact (scan.advance_moved lexeme).weight_le.trans (ih (scan.advance lexeme))

theorem Scan.Moved.closed {next : Scan} {move : Move} (h : scan.Moved next move)
    {range : Nat × Nat} (hstatements : scan.statements = [range])
    (hcode : scan.statementHasCode = false) (hweight : next.weight ≤ 1) :
    next.statements = [range] ∧ next.statementHasCode = false := by
  cases move with
  | keeps => exact ⟨h.1.trans hstatements, h.2.2.trans hcode⟩
  | opens =>
    rw [weight, h.1, hstatements, h.2.2] at hweight
    exact absurd hweight (by simp)
  | closes =>
    exact ⟨h.1.trans ((addStatement_closed hcode _).trans hstatements), h.2.2⟩

theorem Scan.closed_fold {range : Nat × Nat} {read : List Lexeme}
    (hstatements : scan.statements = [range]) (hcode : scan.statementHasCode = false)
    (hweight : (read.foldl advance scan).weight ≤ 1) :
    (read.foldl advance scan).statements = [range] ∧
      (read.foldl advance scan).statementHasCode = false := by
  induction read generalizing scan with
  | nil => exact ⟨hstatements, hcode⟩
  | cons lexeme read ih =>
    obtain ⟨hstep, hstepCode⟩ := (scan.advance_moved lexeme).closed hstatements hcode
      (((scan.advance lexeme).weight_fold read).trans hweight)
    exact ih hstep hstepCode hweight

end Counting

section Alignment
variable {shift : Nat} {whole part : Scan}

def ScannedSlot.moved (shift : Nat) (slot : ScannedSlot) : ScannedSlot :=
  ⟨slot.start + shift, slot.stop + shift, slot.name.map fun range => (range.1 + shift, range.2 + shift),
    slot.bareIntegerLiteral⟩

def Shifted (shift start start' : Nat) : Prop := start = start' + shift ∨ start = 0 ∧ start' = 0

-- The scan of the whole text beside the scan of the text without its leading blanks: leading
-- characters may already count as code of the first statement, but there is at most one statement.
inductive Phase (shift : Nat) (whole part : Scan) : Prop
  | blank (statements : part.statements = []) (code : part.statementHasCode = false)
    (start : Shifted shift whole.statementStart part.statementStart)
  | opened (statements : whole.statements = []) (statements' : part.statements = [])
    (code : whole.statementHasCode = true) (code' : part.statementHasCode = true)
    (start : Shifted shift whole.statementStart part.statementStart)
  | closed {start start' stop : Nat} (statements : whole.statements = [(start, stop + shift)])
    (statements' : part.statements = [(start', stop)]) (code : whole.statementHasCode = false)
    (code' : part.statementHasCode = false) (start : Shifted shift start start')

structure Aligned (shift : Nat) (whole part : Scan) : Prop where
  index : whole.index = part.index + shift
  procedural : whole.procedural = part.procedural
  bare : whole.bareIntegerParameter = part.bareIntegerParameter
  fetch : whole.fetchRowCount = part.fetchRowCount
  slots : whole.slots = part.slots.map (ScannedSlot.moved shift)
  phase : Phase shift whole part

theorem Phase.step {whole' part' : Scan} {move : Move} (h : Phase shift whole part)
    (hindex : whole.index = part.index + shift) (hwhole : whole.Moved whole' move)
    (hpart : part.Moved part' move) (hweight : whole'.weight ≤ 1) : Phase shift whole' part' := by
  cases move with
  | keeps =>
    obtain ⟨hs, hst, hc⟩ := hwhole
    obtain ⟨hs', hst', hc'⟩ := hpart
    cases h with
    | blank statements code start =>
      exact .blank (hs'.trans statements) (hc'.trans code) (by rwa [hst, hst'])
    | opened statements statements' code code' start =>
      exact .opened (hs.trans statements) (hs'.trans statements') (hc.trans code) (hc'.trans code')
        (by rwa [hst, hst'])
    | closed statements statements' code code' start =>
      exact .closed (hs.trans statements) (hs'.trans statements') (hc.trans code) (hc'.trans code')
        start
  | opens =>
    obtain ⟨hs, hst, hc⟩ := hwhole
    obtain ⟨hs', hst', hc'⟩ := hpart
    have hnone : whole'.statements = [] := by
      rw [Scan.weight, hc, if_pos rfl] at hweight
      exact List.length_eq_zero_iff.mp (by omega)
    cases h with
    | blank statements code start =>
      exact .opened hnone (hs'.trans statements) hc hc' (by rwa [hst, hst'])
    | opened statements statements' code code' start =>
      exact .opened hnone (hs'.trans statements') hc hc' (by rwa [hst, hst'])
    | closed statements statements' code code' start =>
      rw [hs, statements] at hnone
      cases hnone
  | closes =>
    obtain ⟨hs, hst, hc⟩ := hwhole
    obtain ⟨hs', hst', hc'⟩ := hpart
    cases h with
    | blank statements code start =>
      refine .blank (hs'.trans ((Scan.addStatement_closed code _).trans statements)) hc' (.inl ?_)
      rw [hst, hst', hindex]
      omega
    | opened statements statements' code code' start =>
      rw [Scan.addStatement_open code statements, hindex] at hs
      rw [Scan.addStatement_open code' statements'] at hs'
      exact .closed hs hs' hc hc' start
    | closed statements statements' code code' start =>
      exact .closed (hs.trans ((Scan.addStatement_closed code _).trans statements))
        (hs'.trans ((Scan.addStatement_closed code' _).trans statements')) hc hc' start

theorem Aligned.advance (h : Aligned shift whole part) (lexeme : Lexeme)
    (hweight : (whole.advance lexeme).weight ≤ 1) :
    Aligned shift (whole.advance lexeme) (part.advance lexeme) := by
  have hindex : whole.index + lexeme.length = part.index + lexeme.length + shift := by
    rw [h.index]
    omega
  have hmoved := whole.advance_moved lexeme
  rw [h.procedural] at hmoved
  have hphase := h.phase.step h.index hmoved (part.advance_moved lexeme) hweight
  cases htoken : lexeme.token with
  | semicolon =>
    refine ⟨hindex, ?_, ?_, ?_, ?_, hphase⟩
    all_goals
      simp only [Scan.advance, Scan.observe, htoken, h.procedural]
      split_ifs
    · rfl
    · rfl
    · exact h.bare
    · rfl
    · exact h.fetch
    · rfl
    · exact h.slots
    · exact h.slots
  | silent =>
    refine ⟨hindex, ?_, ?_, ?_, ?_, hphase⟩ <;> simp only [Scan.advance, Scan.observe, htoken]
    · exact h.procedural
    · exact h.bare
    · exact h.fetch
    · exact h.slots
  | slot named =>
    refine ⟨hindex, ?_, ?_, ?_, ?_, hphase⟩ <;> simp only [Scan.advance, Scan.observe, htoken]
    · exact h.procedural
    · rw [List.map_append, ← h.slots, h.bare, hindex, h.index]
      cases named <;> simp [ScannedSlot.moved, Nat.add_right_comm]
  | code =>
    refine ⟨hindex, ?_, ?_, ?_, ?_, hphase⟩ <;> simp only [Scan.advance, Scan.observe, htoken]
    · exact h.procedural
    · exact h.slots
  | word text =>
    refine ⟨hindex, ?_, ?_, ?_, ?_, hphase⟩ <;>
      simp only [Scan.advance, Scan.observe, htoken, h.procedural, h.fetch]
    exact h.slots

theorem Aligned.fold (h : Aligned shift whole part) (read : List Lexeme)
    (hweight : (read.foldl Scan.advance whole).weight ≤ 1) :
    Aligned shift (read.foldl Scan.advance whole) (read.foldl Scan.advance part) := by
  induction read generalizing whole part with
  | nil => exact h
  | cons lexeme read ih =>
    exact ih (h.advance lexeme (((whole.advance lexeme).weight_fold read).trans hweight)) hweight

theorem Aligned.lead {read : List Lexeme} (h : Aligned shift whole .new)
    (hstart : whole.statementStart = 0)
    (hread : ∀ lexeme ∈ read, lexeme.token = .silent ∨ lexeme.token = .code) :
    Aligned (shift + (read.map Lexeme.length).sum) (read.foldl Scan.advance whole) .new := by
  induction read generalizing shift whole with
  | nil => exact h
  | cons lexeme read ih =>
    rw [List.forall_mem_cons] at hread
    have hindex : (whole.advance lexeme).index = Scan.new.index + (shift + lexeme.length) := by
      rw [← Nat.add_assoc, ← h.index]
      rfl
    rw [List.map_cons, List.sum_cons, ← Nat.add_assoc]
    rcases hread.1 with htoken | htoken
    · refine ih ⟨hindex, ?_, ?_, ?_, ?_, .blank rfl rfl (.inr ⟨?_, rfl⟩)⟩ ?_ hread.2
      all_goals simp only [Scan.advance, Scan.observe, htoken]
      · exact h.procedural
      · exact h.bare
      · exact h.fetch
      · exact h.slots
      · exact hstart
      · exact hstart
    · refine ih ⟨hindex, ?_, ?_, ?_, ?_, .blank rfl rfl (.inr ⟨?_, rfl⟩)⟩ ?_ hread.2
      all_goals simp only [Scan.advance, Scan.observe, htoken]
      · exact h.procedural
      · rfl
      · rfl
      · exact h.slots
      · exact hstart
      · exact hstart

end Alignment

section Ends
variable (isAlphanumeric : Bytes → Bool) {piece : Bytes}

theorem following_symbol {b : UInt8} (h : isTrailing b = true)
    (hspace : AsciiNumber.isWhitespace b = false) : IsSymbol b ∧ b ≠ 45 ∧ b ≠ 47 ∧ b ≠ 58 := by
  have hfollowing : isFollowing b = true := by rw [isFollowing, h, Bool.or_true]
  have hletter := following_not_continue hfollowing
  rw [isIdentifierContinue, Bool.or_eq_false_iff] at hletter
  refine ⟨⟨?_, ?_, ?_, ?_, ?_, hspace, hletter.1⟩, ?_, ?_, ?_⟩
  all_goals
    rintro rfl
    exact absurd h (by decide)

theorem space_char (h : piece ∈ wideSpace) :
    ∃ b body, piece = b :: body ∧ isTrailing b = true ∧ charLength b = body.length + 1 := by
  rcases h with ⟨a, ha, rfl⟩ | ⟨a, b, hab, rfl⟩ | ⟨a, b, c, habc, rfl⟩
  · refine ⟨a, [], rfl, isTrailing_of_space₁ ha, ?_⟩
    have hascii : a < 0x80 := by
      simp only [isSpace₁, Bool.or_eq_true, Bool.and_eq_true, beq_iff_eq, decide_eq_true_eq,
        UInt8.le_iff_toNat_le, UInt8.lt_iff_toNat_lt, ← UInt8.toNat_inj, UInt8.reduceToNat] at ha ⊢
      omega
    rw [charLength, if_pos hascii]
    rfl
  · refine ⟨a, [b], rfl, (isTrailing_of_space₂ hab).1, ?_⟩
    simp only [isSpace₂, Bool.and_eq_true, beq_iff_eq] at hab
    obtain ⟨rfl, -⟩ := hab
    rfl
  · refine ⟨a, [b, c], rfl, (isTrailing_of_space₃ habc).1, ?_⟩
    simp only [isSpace₃, Bool.and_eq_true, Bool.or_eq_true, beq_iff_eq] at habc
    rcases habc with ((⟨⟨rfl, -⟩, -⟩ | ⟨⟨rfl, -⟩, -⟩) | ⟨⟨rfl, -⟩, -⟩) | ⟨⟨rfl, -⟩, -⟩ <;> rfl

theorem space_read (h : piece ∈ wideSpace) (previous : Option UInt8) (rest : Bytes) :
    ∃ b body lexeme, piece = b :: body ∧
      lex isAlphanumeric .normal previous b (body ++ rest) = .ok lexeme ∧
      lexeme.length = body.length + 1 ∧ (lexeme.token = .silent ∨ lexeme.token = .code) ∧
      lexeme.state = .normal := by
  obtain ⟨b, body, rfl, hb, hlength⟩ := space_char h
  cases hspace : AsciiNumber.isWhitespace b with
  | true =>
    have hone : charLength b = 1 := by
      have hcases : b = 32 ∨ b = 9 ∨ b = 10 ∨ b = 12 ∨ b = 13 := by
        simpa [AsciiNumber.isWhitespace, or_assoc] using hspace
      rcases hcases with rfl | rfl | rfl | rfl | rfl <;> rfl
    exact ⟨b, body, _, rfl, lexNormal_space isAlphanumeric previous (body ++ rest) hspace,
      hone.symm.trans hlength, .inl rfl, rfl⟩
  | false =>
    obtain ⟨hsymbol, hdash, hslash, hcolon⟩ := following_symbol hb hspace
    exact ⟨b, body, _, rfl, lexNormal_symbol isAlphanumeric hsymbol (fun h => hdash h.1)
      (fun h => hslash h.1) (fun h => hcolon h.1), hlength, .inr rfl, rfl⟩

theorem piece_read (h : piece ∈ trailerPiece) {state : LexState}
    (hstate : state = .normal ∨ state = .lineComment) (previous : Option UInt8) (rest : Bytes) :
    ∃ b body lexeme, piece = b :: body ∧
      lex isAlphanumeric state previous b (body ++ rest) = .ok lexeme ∧
      lexeme.length = body.length + 1 ∧ lexeme.token.isSlot = false ∧
      (lexeme.state = .normal ∨ lexeme.state = .lineComment) := by
  rcases hstate with rfl | rfl
  · rcases h with hspace | rfl
    · obtain ⟨b, body, lexeme, hpiece, hread, hlength, htoken, hnormal⟩ :=
        space_read isAlphanumeric hspace previous rest
      refine ⟨b, body, lexeme, hpiece, hread, hlength, ?_, .inl hnormal⟩
      rcases htoken with htoken | htoken <;> rw [htoken] <;> rfl
    · exact ⟨59, [], _, rfl, lexNormal_semicolon isAlphanumeric previous rest, rfl, rfl, .inl rfl⟩
  · obtain ⟨b, body, rfl, hlength⟩ : ∃ b body, piece = b :: body ∧ charLength b = body.length + 1 := by
      rcases h with hspace | rfl
      · obtain ⟨b, body, hpiece, -, hlength⟩ := space_char hspace
        exact ⟨b, body, hpiece, hlength⟩
      · exact ⟨59, [], rfl, rfl⟩
    refine ⟨b, body, _, rfl, rfl, hlength, rfl, ?_⟩
    by_cases hb : b = 10
    · exact .inl (if_pos hb)
    · exact .inr (if_neg hb)

theorem lead_read {lead : Bytes} (h : lead ∈ wideSpace∗) (previous : Option UInt8) (rest : Bytes) :
    ∃ read, Reads (sqlLexer isAlphanumeric) rest .normal previous lead read ∧
      (∀ lexeme ∈ read, lexeme.token = .silent ∨ lexeme.token = .code) ∧
      endState (sqlLexer isAlphanumeric) .normal read = .normal := by
  refine star_induction (P := fun lead => ∀ previous, ∃ read,
    Reads (sqlLexer isAlphanumeric) rest .normal previous lead read ∧
      (∀ lexeme ∈ read, lexeme.token = .silent ∨ lexeme.token = .code) ∧
      endState (sqlLexer isAlphanumeric) .normal read = .normal) ?_ ?_ h previous
  · exact fun previous => ⟨[], .nil _ _, by simp, rfl⟩
  · intro piece hpiece text _ ih previous
    obtain ⟨b, body, lexeme, rfl, hread, hlength, htoken, hstate⟩ :=
      space_read isAlphanumeric hpiece previous (text ++ rest)
    obtain ⟨read, hreads, htokens, hend⟩ := ih (lastOr (some b) body)
    refine ⟨lexeme :: read, .cons hread hlength ?_, ?_, ?_⟩
    · rwa [sqlLexer_state, hstate]
    · rw [List.forall_mem_cons]
      exact ⟨htoken, htokens⟩
    · rwa [endState, sqlLexer_state, hstate]

theorem Scan.advance_slots {scan : Scan} {lexeme : Lexeme} (h : lexeme.token.isSlot = false) :
    (scan.advance lexeme).slots = scan.slots := by
  rw [advance]
  cases htoken : lexeme.token with
  | semicolon =>
    simp only [observe]
    split_ifs <;> rfl
  | slot named =>
    rw [htoken] at h
    cases h
  | silent | code | word => rfl

structure Trails (tail : Bytes) (scan final : Scan) : Prop where
  slots : final.slots = scan.slots
  index : final.index = scan.index + tail.length
  statement : scan.statements = [] → scan.statementHasCode = true → final.weight ≤ 1 →
    ∃ n ≤ tail.length, tail.take n ∈ trailer ∧
      final.addStatement final.index = [(scan.statementStart, scan.index + n)]

theorem Trails.cons {text : Bytes} (hpiece : piece ∈ trailerPiece) {scan : Scan} {lexeme : Lexeme}
    {read : List Lexeme} (hlength : lexeme.length = piece.length)
    (hslot : lexeme.token.isSlot = false)
    (h : Trails text (scan.advance lexeme) (read.foldl Scan.advance (scan.advance lexeme))) :
    Trails (piece ++ text) scan (read.foldl Scan.advance (scan.advance lexeme)) := by
  have hindex : (scan.advance lexeme).index = scan.index + piece.length :=
    congrArg (scan.index + ·) hlength
  refine ⟨h.slots.trans (Scan.advance_slots hslot), ?_, fun hnone hcode hweight => ?_⟩
  · rw [h.index, hindex, List.length_append, Nat.add_assoc]
  · have hmoved := scan.advance_moved lexeme
    have hstays (hopen : (scan.advance lexeme).statements = [] ∧
        (scan.advance lexeme).statementStart = scan.statementStart ∧
        (scan.advance lexeme).statementHasCode = true) :
        ∃ n ≤ (piece ++ text).length, (piece ++ text).take n ∈ trailer ∧
          (read.foldl Scan.advance (scan.advance lexeme)).addStatement
            (read.foldl Scan.advance (scan.advance lexeme)).index =
              [(scan.statementStart, scan.index + n)] := by
      obtain ⟨n, hn, htake, hstatement⟩ := h.statement hopen.1 hopen.2.2 hweight
      refine ⟨piece.length + n, ?_, ?_, ?_⟩
      · rw [List.length_append]
        omega
      · rw [List.take_length_add_append]
        exact append_mem_star (mem_star hpiece) htake
      · rw [hstatement, hopen.2.1, hindex, Nat.add_assoc]
    cases hmove : scan.procedural.move lexeme.token with
    | keeps =>
      rw [hmove] at hmoved
      exact hstays ⟨hmoved.1.trans hnone, hmoved.2.1, hmoved.2.2.trans hcode⟩
    | opens =>
      rw [hmove] at hmoved
      exact hstays ⟨hmoved.1.trans hnone, hmoved.2.1, hmoved.2.2⟩
    | closes =>
      rw [hmove] at hmoved
      obtain ⟨hstatements, -, hclosed⟩ := hmoved
      rw [Scan.addStatement_open hcode hnone] at hstatements
      obtain ⟨hfinal, hfinalCode⟩ := Scan.closed_fold hstatements hclosed hweight
      exact ⟨0, Nat.zero_le _, Language.nil_mem_kstar _,
        (Scan.addStatement_closed hfinalCode _).trans hfinal⟩

theorem trailer_read {tail : Bytes} (h : tail ∈ trailer) {state : LexState}
    (hstate : state = .normal ∨ state = .lineComment) (previous : Option UInt8) :
    ∃ read, Reads (sqlLexer isAlphanumeric) [] state previous tail read ∧
      ∀ scan, Trails tail scan (read.foldl Scan.advance scan) := by
  refine star_induction (P := fun tail => ∀ state previous,
    (state = .normal ∨ state = .lineComment) → ∃ read,
      Reads (sqlLexer isAlphanumeric) [] state previous tail read ∧
        ∀ scan, Trails tail scan (read.foldl Scan.advance scan)) ?_ ?_ h state previous hstate
  · refine fun state previous _ => ⟨[], .nil _ _, fun scan => ⟨rfl, rfl, fun hnone hcode _ => ?_⟩⟩
    exact ⟨0, le_rfl, Language.nil_mem_kstar _, Scan.addStatement_open hcode hnone _⟩
  · intro piece hpiece text _ ih state previous hstate
    obtain ⟨b, body, lexeme, rfl, hread, hlength, hslot, hnext⟩ :=
      piece_read isAlphanumeric hpiece hstate previous (text ++ [])
    obtain ⟨read, hreads, htrails⟩ := ih lexeme.state (lastOr (some b) body) hnext
    exact ⟨lexeme :: read, .cons hread hlength hreads,
      fun scan => .cons hpiece (by rw [hlength]; rfl) hslot (htrails (scan.advance lexeme))⟩

end Ends

section Normalized
variable {isAlphanumeric : Bytes → Bool} {query : Bytes} {scan : QueryScan} {lead : Bytes}
  {state : LexState} {previous : Option UInt8} {read : List Lexeme}

def SameStatement (query part : Bytes) (range range' : Nat × Nat) : Prop :=
  ∃ lead ∈ wideSpace∗, ∃ tail ∈ trailer, slice query range = lead ++ (slice part range' ++ tail)

theorem fold_state (scan : Scan) (read : List Lexeme) :
    (read.foldl Scan.advance scan).state = endState (sqlLexer isAlphanumeric) scan.state read := by
  induction read generalizing scan with
  | nil => rfl
  | cons lexeme read ih => exact ih (scan.advance lexeme)

def Scan.result (scan : Scan) (length : Nat) : QueryScan :=
  ⟨scan.addStatement length, scan.slots, scan.firstKeyword, scan.hasDataChange⟩

theorem scanQuery_ok_iff : scanQuery isAlphanumeric query = .ok scan ↔
    ∃ read, readText isAlphanumeric query = .ok read ∧
      (endState (sqlLexer isAlphanumeric) .normal read = .normal ∨
        endState (sqlLexer isAlphanumeric) .normal read = .lineComment) ∧
      scan = (read.foldl Scan.advance .new).result query.length := by
  have hfold := scanFrom_eq_fold isAlphanumeric .new none 0 query
  change _ = (readText isAlphanumeric query).map _ at hfold
  rw [scanQuery, hfold]
  cases readText isAlphanumeric query with
  | error error =>
    constructor
    · intro h
      cases h
    · rintro ⟨_, h, -⟩
      cases h
  | ok read =>
    simp only [Except.map, bind, Except.bind, @fold_state isAlphanumeric, Except.ok.injEq,
      exists_eq_left']
    constructor
    · intro h
      split_ifs at h with hstate
      exact ⟨hstate, (Except.ok.inj h).symm⟩
    · rintro ⟨hstate, rfl⟩
      exact if_pos hstate

theorem slice_part {part tail : Bytes} {start start' stop more : Nat}
    (hstart : Shifted lead.length start start') (hle : start' ≤ stop) (hstop : stop ≤ part.length)
    (hmore : more ≤ tail.length) (hend : more = 0 ∨ stop = part.length) :
    ∃ kept, (kept = lead ∨ kept = []) ∧
      slice (lead ++ (part ++ tail)) (start, stop + lead.length + more) =
        kept ++ (slice part (start', stop) ++ tail.take more) := by
  have htake : (lead ++ (part ++ tail)).take (stop + lead.length + more) =
      lead ++ (part.take stop ++ tail.take more) := by
    rw [Nat.add_right_comm, Nat.add_comm, List.take_length_add_append]
    rcases hend with rfl | rfl
    · rw [Nat.add_zero, List.take_append_of_le_length hstop, List.take_zero, List.append_nil]
    · rw [List.take_length_add_append, List.take_length]
  have hlength : start' ≤ (part.take stop).length := by
    rw [List.length_take]
    omega
  rcases hstart with rfl | ⟨rfl, rfl⟩
  · refine ⟨[], .inr rfl, ?_⟩
    rw [slice, htake, slice, Nat.add_comm, List.drop_length_add_append, List.nil_append,
      List.drop_append_of_le_length hlength]
  · exact ⟨lead, .inl rfl, by rw [slice, htake, slice]; rfl⟩

theorem lex_previous {previous' : Option UInt8} {b : UInt8} {rest : Bytes}
    (h : previous ≠ some 58) (h' : previous' ≠ some 58) :
    lex isAlphanumeric state previous b rest = lex isAlphanumeric state previous' b rest := by
  cases state with
  | normal => simp only [lex, lexNormal, ne_eq, h, h', not_false_eq_true, and_true]
  | _ => rfl

theorem reads_previous {previous' : Option UInt8} {text after : Bytes} (hp : previous ≠ some 58)
    (hp' : previous' ≠ some 58)
    (h : Reads (sqlLexer isAlphanumeric) after state previous text read) :
    Reads (sqlLexer isAlphanumeric) after state previous' text read := by
  cases h with
  | nil => exact .nil _ _
  | cons hread hlength htail =>
    rw [sqlLexer_lex, lex_previous hp hp'] at hread
    exact .cons hread hlength htail

theorem reads_whole {text : Bytes}
    (h : Reads (sqlLexer isAlphanumeric) [] state previous text read) :
    lexemes (sqlLexer isAlphanumeric) state previous 0 text = .ok read := by
  have hlexemes := h.lexemes
  rwa [List.append_nil, lexemes, Except.map, List.append_nil] at hlexemes

theorem fold_index (scan : Scan) (read : List Lexeme) :
    (read.foldl Scan.advance scan).index = scan.index + (read.map Lexeme.length).sum := by
  induction read generalizing scan with
  | nil => rfl
  | cons lexeme read ih =>
    rw [List.foldl_cons, ih, List.map_cons, List.sum_cons, ← Nat.add_assoc]
    rfl

theorem lead_previous (h : lead ∈ wideSpace∗) : lastOr none lead ≠ some 58 := by
  have hfollowing := trailer_following (star_mono (fun _ => .inl) h : lead ∈ trailer)
  rw [lastOr_eq_or, Option.or_none]
  intro hlast
  exact absurd (hfollowing 58 (List.mem_of_getLast? hlast)) (by decide)

theorem readText_parts {part tail : Bytes} (hlead : lead ∈ wideSpace∗) (htail : tail ∈ trailer)
    (hvalid : Utf8.valid part = true)
    (hread : readText isAlphanumeric (lead ++ (part ++ tail)) = .ok read)
    (hend : endState (sqlLexer isAlphanumeric) .normal read = .normal ∨
      endState (sqlLexer isAlphanumeric) .normal read = .lineComment) :
    ∃ leads first last, read = leads ++ (first ++ last) ∧
      Aligned lead.length (leads.foldl Scan.advance .new) .new ∧
      readText isAlphanumeric part = .ok first ∧
      (first.map Lexeme.length).sum = part.length ∧
      (endState (sqlLexer isAlphanumeric) .normal first = .normal ∨
        endState (sqlLexer isAlphanumeric) .normal first = .lineComment) ∧
      ∀ scan, Trails tail scan (last.foldl Scan.advance scan) := by
  obtain ⟨leads, hleads, htokens, hnormal⟩ := lead_read isAlphanumeric hlead none (part ++ tail)
  have hrest := hleads.lexemes
  rw [hnormal] at hrest
  cases hlater : lexemes (sqlLexer isAlphanumeric) .normal (lastOr none lead) 0 (part ++ tail) with
  | error error =>
    rw [readText, hrest, hlater] at hread
    cases hread
  | ok later =>
    rw [readText, hrest, hlater] at hread
    cases hread
    rw [endState_append, hnormal] at hend
    obtain ⟨first, last, rfl, hfirst, hstate, hlast⟩ :=
      lexemes_split (trailer_following htail) hvalid hlater hend
    obtain ⟨trail, htrail, htrails⟩ := trailer_read isAlphanumeric htail hstate
      (lastOr (lastOr none lead) part)
    obtain rfl : trail = last := Except.ok.inj ((reads_whole htrail).symm.trans hlast)
    have hnew : Aligned 0 .new .new := ⟨rfl, rfl, rfl, rfl, rfl, .blank rfl rfl (.inl rfl)⟩
    have haligned := hnew.lead rfl htokens
    rw [Nat.zero_add, show (leads.map Lexeme.length).sum = lead.length from hleads.size_eq] at haligned
    exact ⟨leads, first, trail, rfl, haligned,
      reads_whole (reads_previous (lead_previous hlead) (by simp) hfirst), hfirst.size_eq, hstate, htrails⟩

theorem scanQuery_part {part tail : Bytes} (hlead : lead ∈ wideSpace∗) (htail : tail ∈ trailer)
    (hvalid : Utf8.valid part = true)
    (hscan : scanQuery isAlphanumeric (lead ++ (part ++ tail)) = .ok scan)
    (hone : scan.statements.length ≤ 1) :
    ∃ own, scanQuery isAlphanumeric part = .ok own ∧
      scan.slots = own.slots.map (ScannedSlot.moved lead.length) ∧
      (own.statements = [] ∨ ∃ range range', scan.statements = [range] ∧
        own.statements = [range'] ∧ SameStatement (lead ++ (part ++ tail)) part range range') := by
  obtain ⟨read, hread, hend, rfl⟩ := scanQuery_ok_iff.mp hscan
  obtain ⟨leads, first, last, rfl, hnew, hown, hlength, hstate, htrails⟩ :=
    readText_parts hlead htail hvalid hread hend
  have hownScan : scanQuery isAlphanumeric part =
      .ok ((first.foldl Scan.advance .new).result part.length) :=
    scanQuery_ok_iff.mpr ⟨first, hown, hstate, rfl⟩
  have hsound := (scanQuery_sound hvalid hownScan).statements
  simp only [List.foldl_append, Scan.result, Scan.length_addStatement] at hone hownScan hsound ⊢
  have htrail := htrails (first.foldl Scan.advance (leads.foldl Scan.advance .new))
  have haligned := hnew.fold first ((Scan.weight_fold _ last).trans hone)
  refine ⟨_, hownScan, htrail.slots.trans haligned.slots, ?_⟩
  have hindex : (first.foldl Scan.advance Scan.new).index = part.length := by
    rw [fold_index, hlength]
    exact Nat.zero_add _
  have htotal : (last.foldl Scan.advance
      (first.foldl Scan.advance (leads.foldl Scan.advance .new))).index =
      (lead ++ (part ++ tail)).length := by
    rw [htrail.index, haligned.index, hindex]
    simp only [List.length_append]
    omega
  have hkept {kept : Bytes} (h : kept = lead ∨ kept = []) : kept ∈ wideSpace∗ := by
    rcases h with rfl | rfl
    · exact hlead
    · exact Language.nil_mem_kstar _
  cases haligned.phase with
  | blank statements code start =>
    exact .inl ((Scan.addStatement_closed code _).trans statements)
  | opened statements statements' code code' start =>
    right
    obtain ⟨n, hn, htake, hstatement⟩ := htrail.statement statements code hone
    rw [htotal, haligned.index, hindex] at hstatement
    have hownStatement := Scan.addStatement_open code' statements' part.length
    obtain ⟨hlt, -⟩ := hsound _ (hownStatement ▸ List.mem_singleton_self _)
    obtain ⟨kept, hkeptCases, hslice⟩ := slice_part start hlt.le le_rfl hn (.inr rfl)
    exact ⟨_, _, hstatement, hownStatement, kept, hkept hkeptCases, _, htake, hslice⟩
  | closed statements statements' code code' start =>
    right
    obtain ⟨hfinal, hfinalCode⟩ := Scan.closed_fold statements code hone
    have hownStatement := (Scan.addStatement_closed code' part.length).trans statements'
    obtain ⟨hlt, hle, -⟩ := hsound _ (hownStatement ▸ List.mem_singleton_self _)
    obtain ⟨kept, hkeptCases, hslice⟩ := slice_part start hlt.le hle (Nat.zero_le tail.length) (.inl rfl)
    exact ⟨_, _, (Scan.addStatement_closed hfinalCode _).trans hfinal, hownStatement, kept,
      hkept hkeptCases, _, Language.nil_mem_kstar _, hslice⟩

def HasStatement (isAlphanumeric : Bytes → Bool) (text : Bytes) : Prop :=
  ∃ scan, scanQuery isAlphanumeric text = .ok scan ∧ scan.statements ≠ []

structure KeepsStatement (isAlphanumeric : Bytes → Bool) (query : Bytes) (scan : QueryScan)
    (lead tail : Bytes) (own : QueryScan) : Prop where
  lead_blank : lead ∈ wideSpace∗
  tail_trailer : tail ∈ trailer
  text : query = lead ++ (normalizePreparedQuery query ++ tail)
  scanned : scanQuery isAlphanumeric (normalizePreparedQuery query) = .ok own
  slots : scan.slots = own.slots.map (ScannedSlot.moved lead.length)
  statements : List.Forall₂ (SameStatement query (normalizePreparedQuery query)) scan.statements
    own.statements

theorem keepsStatement_iff (hvalid : Utf8.valid query = true)
    (hscan : scanQuery isAlphanumeric query = .ok scan) (hone : scan.statements.length ≤ 1) :
    (∃ lead tail own, KeepsStatement isAlphanumeric query scan lead tail own) ↔
      (HasStatement isAlphanumeric query →
        HasStatement isAlphanumeric (normalizePreparedQuery query)) := by
  constructor
  · rintro ⟨lead, tail, own, h⟩ ⟨other, hother, hne⟩
    obtain rfl := Except.ok.inj (hscan.symm.trans hother)
    refine ⟨own, h.scanned, fun hnone => hne ?_⟩
    have hstatements := h.statements
    rw [hnone] at hstatements
    exact List.forall₂_nil_right_iff.mp hstatements
  · intro hkeeps
    obtain ⟨lead, hlead, tail, htail, hparts⟩ := normalize_parts query
    have hmiddle : Utf8.valid (normalizePreparedQuery query ++ tail) = true :=
      Utf8.valid_right (star_valid (fun _ => wideSpace_valid) hlead) (hparts ▸ hvalid)
    have hpart := Utf8.valid_left (star_valid (fun _ => piece_valid) htail) hmiddle
    obtain ⟨own, hown, hslots, hstatements⟩ :=
      scanQuery_part hlead htail hpart (hparts ▸ hscan) hone
    refine ⟨lead, tail, own, hlead, htail, hparts, hown, hslots, ?_⟩
    rcases hstatements with hnone | ⟨range, range', hwhole, hrange, hsame⟩
    · have hempty : scan.statements = [] := by
        by_contra hne
        obtain ⟨other, hother, hsome⟩ := hkeeps ⟨scan, hscan, hne⟩
        obtain rfl := Except.ok.inj (hown.symm.trans hother)
        exact hsome hnone
      rw [hempty, hnone]
      exact .nil
    · rw [← hparts] at hsame
      rw [hwhole, hrange]
      exact .cons hsame .nil

end Normalized

end MonetdbAdbc.Sql
