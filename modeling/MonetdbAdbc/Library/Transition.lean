import Mathlib.Tactic

namespace Transition
variable {σ α : Type} {step : σ → α → Option σ} {as : List α}

def exec (step : σ → α → Option σ) : σ → List α → Option σ
  | s, [] => some s
  | s, a :: as => (step s a).bind fun t => exec step t as

theorem exec_history {P : List α → σ → Prop}
    (hstep : ∀ as s a t, P as s → step s a = some t → P (as ++ [a]) t) {s t : σ} (hs : P [] s)
    (h : exec step s as = some t) : P as t := by
  suffices hrun : ∀ (as taken : List α) (s : σ), P taken s → exec step s as = some t →
      P (taken ++ as) t from hrun as [] s hs h
  intro as
  induction as with
  | nil =>
    intro taken s hs h
    rw [exec, Option.some.injEq] at h
    rw [List.append_nil]
    exact h ▸ hs
  | cons a as ih =>
    intro taken s hs h
    rw [exec, Option.bind_eq_some_iff] at h
    obtain ⟨u, hu, h⟩ := h
    rw [List.append_cons]
    exact ih (taken ++ [a]) u (hstep taken s a u hs hu) h

theorem exec_invariant {P : σ → Prop} (hstep : ∀ s a t, P s → step s a = some t → P t) {s t : σ}
    (hs : P s) (h : exec step s as = some t) : P t :=
  exec_history (P := fun _ s => P s) (fun _ => hstep) hs h

def Meets (step : σ → α → Option σ) (C : σ → α → Prop) : σ → List α → Prop
  | _, [] => True
  | s, a :: as => C s a ∧ ∀ t, step s a = some t → Meets step C t as

theorem exec_invariant_of_meets {P : σ → Prop} {C : σ → α → Prop}
    (hstep : ∀ s a t, P s → C s a → step s a = some t → P t) {s t : σ} (hs : P s)
    (hmeets : Meets step C s as) (h : exec step s as = some t) : P t := by
  induction as generalizing s with
  | nil =>
    simp only [exec, Option.some.injEq] at h
    exact h ▸ hs
  | cons a as ih =>
    simp only [exec, Option.bind_eq_some_iff] at h
    obtain ⟨u, hu, h⟩ := h
    exact ih (hstep s a u hs hmeets.1 hu) (hmeets.2 u hu) h

def passes (step : σ → α → Option σ) (check : σ → α → Bool) : σ → List α → Bool
  | _, [] => true
  | s, a :: as => check s a && (step s a).all fun t => passes step check t as

theorem meets_of_passes {C : σ → α → Prop} {check : σ → α → Bool}
    (h : ∀ s a, check s a = true → C s a) {s : σ} (hs : passes step check s as = true) :
    Meets step C s as := by
  induction as generalizing s with
  | nil => trivial
  | cons a as ih =>
    rw [passes, Bool.and_eq_true] at hs
    refine ⟨h s a hs.1, fun t ht => ih ?_⟩
    have hrest := hs.2
    rwa [ht, Option.all_some] at hrest

end Transition
