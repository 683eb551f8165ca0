import MonetdbAdbc.Library.Lexing

namespace Lexing

variable {α ε σ τ : Type} {M : Lexer α ε σ τ}

def startsWith (p : α → Bool) (text : List α) : Bool := text.head?.any p

-- A text that is read as the same lexemes wherever it stands: whatever comes before it, and
-- whatever follows it unless that begins with an element that joins the text's last lexeme.
structure Stands (M : Lexer α ε σ τ) (joins : α → Bool) (s : σ) (text : List α) (read : List τ)
    (s' : σ) : Prop where
  reads : ∀ p after, startsWith joins after = false → Reads M after s p text read
  ends : endState M s read = s'

section Stands
variable {joins next : α → Bool} {s s' s'' : σ} {text more : List α} {read later : List τ}

@[simp] theorem startsWith_cons (p : α → Bool) (a : α) (text : List α) :
    startsWith p (a :: text) = p a := rfl

theorem startsWith_append_of_ne_nil (p : α → Bool) (h : text ≠ []) :
    startsWith p (text ++ more) = startsWith p text := by
  cases text with
  | nil => exact absurd rfl h
  | cons a text => rfl

theorem stands_nil (joins : α → Bool) (s : σ) : Stands M joins s [] [] s :=
  ⟨fun p _ _ => .nil s p, rfl⟩

theorem Stands.append (h : Stands M joins s text read s') (hmore : Stands M next s' more later s'')
    (hjoin : ∀ after, startsWith next after = false → startsWith joins (more ++ after) = false) :
    Stands M next s (text ++ more) (read ++ later) s'' := by
  refine ⟨fun p after hafter => ?_, ?_⟩
  · have hfirst := h.reads p (more ++ after) (hjoin after hafter)
    have hsecond := hmore.reads (lastOr p text) after hafter
    rw [← h.ends] at hsecond
    exact hfirst.append hsecond
  · rw [endState_append, h.ends, hmore.ends]

theorem Stands.weaken (h : Stands M joins s text read s')
    (hle : ∀ a, joins a = true → next a = true) : Stands M next s text read s' := by
  refine ⟨fun p after hafter => h.reads p after ?_, h.ends⟩
  cases after with
  | nil => rfl
  | cons a after =>
    rw [startsWith_cons] at hafter ⊢
    by_contra hjoin
    rw [hle a (by simpa using hjoin)] at hafter
    cases hafter

theorem stands_one {a : α} {body : List α} {t : τ}
    (hread : ∀ p after, startsWith joins after = false → M.lex s p a (body ++ after) = .ok t)
    (hlength : M.length t = body.length + 1) : Stands M joins s (a :: body) [t] (M.state t) := by
  refine ⟨fun p after hafter => ?_, rfl⟩
  have hone : Reads M after s p (a :: (body ++ [])) [t] :=
    .cons (by simpa using hread p after hafter) hlength (.nil _ _)
  rwa [List.append_nil] at hone

end Stands

section Reads
variable {after later piece : List α} {s : σ} {p : Option α} {ts us : List τ}

theorem Reads.split (h : Reads M after s p piece (ts ++ us)) :
    ∃ first second, piece = first ++ second ∧ Reads M (second ++ after) s p first ts ∧
      Reads M after (endState M s ts) (lastOr p first) second us := by
  induction ts generalizing s p piece with
  | nil => exact ⟨[], piece, rfl, .nil s p, h⟩
  | cons t ts ih =>
    cases h with
    | @cons _ _ a body rest _ _ hread hlength htail =>
      obtain ⟨first, second, rfl, hfirst, hsecond⟩ := ih htail
      refine ⟨a :: (body ++ first), second, by simp, .cons ?_ hlength hfirst, ?_⟩
      · simpa using hread
      · rwa [← lastOr_append] at hsecond

-- What follows a piece may be changed when no lexeme notices: the lexeme at a suffix of the piece
-- is read the same before the new text.
theorem Reads.refollow (h : Reads M after s p piece ts)
    (hkeep : ∀ s p a rest t, a :: rest <:+ piece → t ∈ ts → M.lex s p a (rest ++ after) = .ok t →
      M.length t ≤ rest.length + 1 → M.lex s p a (rest ++ later) = .ok t) :
    Reads M later s p piece ts := by
  induction h with
  | nil s p => exact .nil s p
  | @cons s p a body piece t ts hread hlength _ ih =>
    refine .cons ?_ hlength (ih fun s p b rest u hsuffix hu => ?_)
    · rw [← List.append_assoc] at hread ⊢
      exact hkeep s p a (body ++ piece) t List.suffix_rfl (by simp) hread (by rw [hlength]; simp)
    · refine hkeep s p b rest u (hsuffix.trans ?_) (by simp [hu])
      exact (List.suffix_append body piece).trans (List.suffix_cons a _)

end Reads

end Lexing
