import Mathlib.Tactic
import Mathlib.Computability.Language

namespace Lexing
open scoped Computability

structure Lexer (α ε σ τ : Type) where
  lex : σ → Option α → α → List α → Except ε τ
  length : τ → Nat
  state : τ → σ
  length_pos : ∀ {s p a rest t}, lex s p a rest = .ok t → 0 < length t

variable {α ε σ τ : Type} (M : Lexer α ε σ τ)

def lexemes : σ → Option α → Nat → List α → Except ε (List τ)
  | _, _, _, [] => .ok []
  | s, _, skip + 1, a :: rest => lexemes s (some a) skip rest
  | s, p, 0, a :: rest =>
    match M.lex s p a rest with
    | .error e => .error e
    | .ok t => (lexemes (M.state t) (some a) (M.length t - 1) rest).map (t :: ·)

def endState : σ → List τ → σ
  | s, [] => s
  | _, t :: ts => endState (M.state t) ts

def size (ts : List τ) : Nat := (ts.map M.length).sum

def lastOr : Option α → List α → Option α
  | p, [] => p
  | _, a :: xs => lastOr (some a) xs

-- The lexemes of a piece of text that is followed by other text: what follows is visible to the
-- lexer, but none of it is consumed.
inductive Reads (after : List α) : σ → Option α → List α → List τ → Prop
  | nil (s : σ) (p : Option α) : Reads after s p [] []
  | cons {s : σ} {p : Option α} {a : α} {body piece : List α} {t : τ} {ts : List τ}
      (read : M.lex s p a (body ++ (piece ++ after)) = .ok t)
      (length : M.length t = body.length + 1)
      (tail : Reads after (M.state t) (lastOr (some a) body) piece ts) :
      Reads after s p (a :: (body ++ piece)) (t :: ts)

section Lexemes
variable {M} {s : σ} {p : Option α} {ts : List τ} {after rest piece : List α}

theorem lastOr_append (p : Option α) (xs ys : List α) :
    lastOr p (xs ++ ys) = lastOr (lastOr p xs) ys := by
  induction xs generalizing p with
  | nil => rfl
  | cons x xs ih => exact ih (some x)

theorem lastOr_eq_or (p : Option α) (xs : List α) : lastOr p xs = xs.getLast?.or p := by
  induction xs generalizing p with
  | nil => rfl
  | cons x xs ih =>
    rw [lastOr, ih, List.getLast?_cons]
    cases xs.getLast? <;> rfl

theorem endState_append (s : σ) (ts us : List τ) :
    endState M s (ts ++ us) = endState M (endState M s ts) us := by
  induction ts generalizing s with
  | nil => rfl
  | cons t ts ih => exact ih (M.state t)

theorem lexemes_skip (s : σ) (p : Option α) (body rest : List α) :
    lexemes M s p body.length (body ++ rest) = lexemes M s (lastOr p body) 0 rest := by
  induction body generalizing p with
  | nil => rfl
  | cons a body ih =>
    rw [List.cons_append, List.length_cons, lexemes, ih]
    rfl

theorem lexemes_cons_of_read {a : α} {body : List α} {t : τ}
    (hread : M.lex s p a (body ++ rest) = .ok t) (hlength : M.length t = body.length + 1) :
    lexemes M s p 0 (a :: (body ++ rest)) =
      (lexemes M (M.state t) (lastOr (some a) body) 0 rest).map (t :: ·) := by
  have hskip : M.length t - 1 = body.length := by omega
  simp only [lexemes, hread, hskip, lexemes_skip]

theorem lexemes_cons_ok {a : α} {t : τ} (h : lexemes M s p 0 (a :: rest) = .ok (t :: ts)) :
    M.lex s p a rest = .ok t ∧
      lexemes M (M.state t) (some a) (M.length t - 1) rest = .ok ts := by
  rw [lexemes] at h
  cases hread : M.lex s p a rest with
  | error e => simp [hread] at h
  | ok u =>
    cases htail : lexemes M (M.state u) (some a) (M.length u - 1) rest with
    | error e => simp [hread, htail, Except.map] at h
    | ok us =>
      simp only [hread, htail, Except.map, Except.ok.injEq, List.cons.injEq] at h
      obtain ⟨rfl, rfl⟩ := h
      exact ⟨rfl, htail⟩

theorem lexemes_uncons {a : α} {read : List τ} (h : lexemes M s p 0 (a :: rest) = .ok read) :
    ∃ t ts, read = t :: ts := by
  rw [lexemes] at h
  cases hread : M.lex s p a rest with
  | error e => simp [hread] at h
  | ok t =>
    cases htail : lexemes M (M.state t) (some a) (M.length t - 1) rest with
    | error e => simp [hread, htail, Except.map] at h
    | ok ts =>
      simp only [hread, htail, Except.map, Except.ok.injEq] at h
      exact ⟨t, ts, h.symm⟩

theorem Reads.lexemes (h : Reads M after s p piece ts) :
    Lexing.lexemes M s p 0 (piece ++ after) =
      (Lexing.lexemes M (endState M s ts) (lastOr p piece) 0 after).map (ts ++ ·) := by
  induction h with
  | nil s p =>
    change Lexing.lexemes M s p 0 after = (Lexing.lexemes M s p 0 after).map id
    cases Lexing.lexemes M s p 0 after <;> rfl
  | @cons s p a body piece t ts hread hlength _ ih =>
    rw [List.cons_append, List.append_assoc, lexemes_cons_of_read hread hlength, ih]
    change _ = (Lexing.lexemes M (endState M (M.state t) ts)
      (lastOr (some a) (body ++ piece)) 0 after).map _
    rw [lastOr_append]
    cases Lexing.lexemes M (endState M (M.state t) ts) (lastOr (lastOr (some a) body) piece) 0 after <;>
      rfl

theorem reads_of_lexemes {us : List τ} (h : lexemes M s p 0 (piece ++ after) = .ok (ts ++ us))
    (hlength : size M ts = piece.length) :
    Reads M after s p piece ts ∧
      lexemes M (endState M s ts) (lastOr p piece) 0 after = .ok us := by
  induction ts generalizing s p piece with
  | nil =>
    obtain rfl : piece = [] := List.length_eq_zero_iff.mp hlength.symm
    exact ⟨.nil s p, h⟩
  | cons t ts ih =>
    have hsize : M.length t + size M ts = piece.length := by
      simpa only [size, List.map_cons, List.sum_cons] using hlength
    cases piece with
    | nil =>
      cases after with
      | nil => simp [lexemes] at h
      | cons a after =>
        have hpos := M.length_pos (lexemes_cons_ok h).1
        simp only [List.length_nil] at hsize
        omega
    | cons a rest =>
      obtain ⟨hread, htail⟩ := lexemes_cons_ok h
      change M.lex s p a (rest ++ after) = .ok t at hread
      change Lexing.lexemes M (M.state t) (some a) (M.length t - 1) (rest ++ after) =
        .ok (ts ++ us) at htail
      have hpos := M.length_pos hread
      obtain ⟨body, tail, rfl, hbody⟩ : ∃ body tail, rest = body ++ tail ∧
          body.length = M.length t - 1 := by
        refine ⟨rest.take (M.length t - 1), rest.drop (M.length t - 1),
          (List.take_append_drop _ _).symm, ?_⟩
        rw [List.length_take]
        simp only [List.length_cons] at hsize
        omega
      rw [List.append_assoc] at hread htail
      rw [← hbody, lexemes_skip] at htail
      have hrest : size M ts = tail.length := by
        simp only [List.length_cons, List.length_append] at hsize
        omega
      obtain ⟨hreads, hafter⟩ := ih htail hrest
      refine ⟨.cons hread (by omega) hreads, ?_⟩
      change lexemes M _ (lastOr (some a) (body ++ tail)) 0 after = .ok us
      rwa [lastOr_append]

theorem Reads.size_eq (h : Reads M after s p piece ts) : size M ts = piece.length := by
  induction h with
  | nil => rfl
  | @cons s p a body piece t ts _ hlength _ ih =>
    have hsize : size M (t :: ts) = M.length t + size M ts := by simp [size]
    rw [hsize, hlength, ih, List.length_cons, List.length_append]
    omega

theorem Reads.append {first second : List α} {us : List τ}
    (hfirst : Reads M (second ++ after) s p first ts)
    (hsecond : Reads M after (endState M s ts) (lastOr p first) second us) :
    Reads M after s p (first ++ second) (ts ++ us) := by
  induction hfirst with
  | nil => exact hsecond
  | @cons s p a body piece t ts hread hlength _ ih =>
    rw [List.cons_append, List.append_assoc, List.cons_append]
    refine .cons (by rwa [List.append_assoc]) hlength (ih ?_)
    rwa [lastOr, lastOr_append] at hsecond

end Lexemes

section Pieces
variable {l m : Language α}

theorem star_induction {P : List α → Prop} (hnil : P [])
    (happend : ∀ piece ∈ l, ∀ text ∈ l∗, P text → P (piece ++ text)) {text : List α}
    (h : text ∈ l∗) : P text := by
  obtain ⟨pieces, rfl, hpieces⟩ := Language.mem_kstar.mp h
  induction pieces with
  | nil => exact hnil
  | cons piece pieces ih =>
    have hrest : ∀ y ∈ pieces, y ∈ l := fun y hy => hpieces y (by simp [hy])
    have htext := Language.join_mem_kstar hrest
    exact happend piece (hpieces piece (by simp)) _ htext (ih hrest htext)

theorem append_mem_star {text rest : List α} (htext : text ∈ l∗) (hrest : rest ∈ l∗) :
    text ++ rest ∈ l∗ := by
  obtain ⟨pieces, rfl, hpieces⟩ := Language.mem_kstar.mp htext
  obtain ⟨others, rfl, hothers⟩ := Language.mem_kstar.mp hrest
  rw [← List.flatten_append]
  refine Language.join_mem_kstar fun y hy => ?_
  rcases List.mem_append.mp hy with hy | hy
  · exact hpieces y hy
  · exact hothers y hy

theorem mem_star {piece : List α} (h : piece ∈ l) : piece ∈ l∗ := by
  have hmem := Language.join_mem_kstar (show ∀ y ∈ [piece], y ∈ l by simpa using h)
  simpa using hmem

end Pieces

end Lexing
