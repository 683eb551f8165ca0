import Mathlib.Tactic

namespace Program
variable {σ ε α β : Type}

def Prog (σ ε α : Type) : Type := σ → Except ε α × σ

instance : Monad (Prog σ ε) where
  pure a := fun s => (.ok a, s)
  bind m f := fun s =>
    match m s with
    | (.ok a, t) => f a t
    | (.error e, t) => (.error e, t)

def fail (e : ε) : Prog σ ε α := fun s => (.error e, s)

def attempt (m : Prog σ ε α) : Prog σ ε (Except ε α) := fun s => (.ok (m s).1, (m s).2)

def ofExcept (x : Except ε α) : Prog σ ε α := fun s => (x, s)

def read : Prog σ ε σ := fun s => (.ok s, s)

def update (f : σ → σ) : Prog σ ε Unit := fun s => (.ok (), f s)

def onlyIf (c : Prop) [Decidable c] (m : Prog σ ε Unit) : Prog σ ε Unit := if c then m else pure ()

theorem onlyIf_pos {c : Prop} [Decidable c] (h : c) (m : Prog σ ε Unit) : onlyIf c m = m :=
  if_pos h

theorem onlyIf_neg {c : Prop} [Decidable c] (h : ¬ c) (m : Prog σ ε Unit) :
    onlyIf c m = pure () :=
  if_neg h

@[simp] theorem pure_apply (a : α) (s : σ) : (pure a : Prog σ ε α) s = (.ok a, s) := rfl

@[simp] theorem attempt_apply (m : Prog σ ε α) (s : σ) :
    attempt m s = (.ok (m s).1, (m s).2) := rfl

@[simp] theorem ofExcept_apply (x : Except ε α) (s : σ) : ofExcept x s = (x, s) := rfl

@[simp] theorem read_apply (s : σ) : (read : Prog σ ε σ) s = (.ok s, s) := rfl

@[simp] theorem update_apply (f : σ → σ) (s : σ) : (update f : Prog σ ε Unit) s = (.ok (), f s) :=
  rfl

theorem bind_apply (m : Prog σ ε α) (f : α → Prog σ ε β) (s : σ) :
    (m >>= f) s = match m s with
      | (.ok a, t) => f a t
      | (.error e, t) => (.error e, t) := rfl

variable {m : Prog σ ε α}

theorem bind_of_ok {s t : σ} {a : α} (h : m s = (.ok a, t)) (f : α → Prog σ ε β) :
    (m >>= f) s = f a t := by
  rw [bind_apply, h]

theorem bind_of_error {s t : σ} {e : ε} (h : m s = (.error e, t)) (f : α → Prog σ ε β) :
    (m >>= f) s = (.error e, t) := by
  rw [bind_apply, h]

theorem bind_result {f : α → Prog σ ε β} {s : σ} {b : β} (h : ((m >>= f) s).1 = .ok b) :
    ∃ a t, m s = (.ok a, t) ∧ (f a t).1 = .ok b := by
  rcases hm : m s with ⟨e | a, t⟩
  · rw [bind_of_error hm] at h
    cases h
  · rw [bind_of_ok hm] at h
    exact ⟨a, t, rfl, h⟩

theorem bind_bind (m : Prog σ ε α) (f : α → Prog σ ε β) {γ : Type} (g : β → Prog σ ε γ) :
    (m >>= f) >>= g = m >>= fun a => f a >>= g := by
  funext s
  rcases h : m s with ⟨e | a, t⟩
  · rw [bind_of_error (bind_of_error h f), bind_of_error h]
  · rw [bind_of_ok h, bind_apply (m >>= f), bind_of_ok h, bind_apply]

theorem pure_bind (a : α) (f : α → Prog σ ε β) : (pure a >>= f) = f a := rfl

def Keeps (I : σ → Prop) (m : Prog σ ε α) : Prop := ∀ s, I s → I (m s).2

section Invariants
variable {I : σ → Prop} {m : Prog σ ε α}

@[grind ←] theorem keeps_pure (a : α) : Keeps I (pure a : Prog σ ε α) := fun _ h => h

@[grind ←] theorem keeps_fail (e : ε) : Keeps I (fail e : Prog σ ε α) := fun _ h => h

@[grind ←] theorem keeps_ofExcept (x : Except ε α) : Keeps I (ofExcept x : Prog σ ε α) := fun _ h => h

@[grind ←] theorem keeps_read : Keeps I (read : Prog σ ε σ) := fun _ h => h

@[grind ←] theorem keeps_attempt (h : Keeps I m) : Keeps I (attempt m) := h

@[grind ←] theorem keeps_onlyIf {c : Prop} [Decidable c] {m : Prog σ ε Unit} (h : c → Keeps I m) :
    Keeps I (onlyIf c m) := by
  unfold onlyIf
  split_ifs with hc
  · exact h hc
  · exact keeps_pure ()

theorem keeps_and {J : σ → Prop} (hi : Keeps I m) (hj : Keeps J m) : Keeps (fun s => I s ∧ J s) m :=
  fun s hs => ⟨hi s hs.1, hj s hs.2⟩

theorem keeps_result {f : α → Prog σ ε β} {R : α → Prop} (hm : Keeps I m)
    (hr : ∀ s a, (m s).1 = .ok a → R a) (hf : ∀ a, R a → Keeps I (f a)) : Keeps I (m >>= f) := by
  intro s hs
  have ht := hm s hs
  rw [bind_apply]
  rcases hms : m s with ⟨r, t⟩
  rw [hms] at ht
  cases r with
  | ok a => exact hf a (hr s a (by rw [hms])) t ht
  | error e => exact ht

@[grind ←] theorem keeps_bind {f : α → Prog σ ε β} (hm : Keeps I m) (hf : ∀ a, Keeps I (f a)) :
    Keeps I (m >>= f) :=
  keeps_result hm (fun _ _ _ => trivial) fun a _ => hf a

theorem keeps_ofExcept_bind {x : Except ε α} {f : α → Prog σ ε β} (h : ∀ a, x = .ok a → Keeps I (f a)) :
    Keeps I (ofExcept x >>= f) := by
  cases x with
  | ok a => exact h a rfl
  | error e => exact keeps_fail e

end Invariants

-- P before, Q of the result after a success, E after a failure.
def Spec (P : σ → Prop) (m : Prog σ ε α) (Q : α → σ → Prop) (E : σ → Prop) : Prop :=
  ∀ s, P s → (∀ a, (m s).1 = .ok a → Q a (m s).2) ∧ ∀ e, (m s).1 = .error e → E (m s).2

section Specs
variable {P R E E' : σ → Prop} {Q Q' : α → σ → Prop} {S : β → σ → Prop} {m : Prog σ ε α}
  {I : σ → Prop}

theorem Spec.bind {f : α → Prog σ ε β} (hm : Spec P m Q E) (hf : ∀ a, Spec (Q a) (f a) S E) :
    Spec P (m >>= f) S E := by
  intro s hs
  obtain ⟨hok, herror⟩ := hm s hs
  rw [bind_apply]
  rcases hms : m s with ⟨e | a, t⟩ <;> rw [hms] at hok herror
  · exact ⟨fun _ h => (nomatch h), fun _ _ => herror e rfl⟩
  · exact hf a t (hok a rfl)

theorem Spec.pure {a : α} (h : ∀ s, P s → Q a s) : Spec P (Pure.pure a : Prog σ ε α) Q E := by
  refine fun s hs => ⟨?_, fun _ he => (nomatch he)⟩
  rintro _ ⟨⟩
  exact h s hs

theorem Spec.fail {e : ε} (h : ∀ s, P s → E s) : Spec P (Program.fail e : Prog σ ε α) Q E :=
  fun s hs => ⟨fun _ ha => (nomatch ha), fun _ _ => h s hs⟩

theorem Spec.ofExcept {x : Except ε α} (hok : ∀ a, x = .ok a → ∀ s, P s → Q a s)
    (herror : ∀ s, P s → E s) : Spec P (Program.ofExcept x) Q E :=
  fun s hs => ⟨fun a ha => hok a ha s hs, fun _ _ => herror s hs⟩

theorem Spec.read {f : σ → Prog σ ε β} (h : ∀ s, P s → Spec P (f s) S E) :
    Spec P (Program.read >>= f) S E :=
  fun s hs => h s hs s hs

theorem Spec.conseq (h : Spec R m Q' E') (hp : ∀ s, P s → R s) (hq : ∀ a s, Q' a s → Q a s)
    (he : ∀ s, E' s → E s) : Spec P m Q E :=
  fun s hs => ⟨fun a ha => hq a _ ((h s (hp s hs)).1 a ha),
    fun e he' => he _ ((h s (hp s hs)).2 e he')⟩

theorem Spec.weaken (h : Spec R m Q E) (hp : ∀ s, P s → R s) : Spec P m Q E :=
  h.conseq hp (fun _ _ hq => hq) fun _ he => he

theorem Spec.assume {p : Prop} (h : p → Spec P m Q E) : Spec (fun s => p ∧ P s) m Q E :=
  fun s hs => h hs.1 s hs.2

theorem Keeps.spec (h : Keeps I m) (he : ∀ s, I s → E s) : Spec I m (fun _ => I) E :=
  fun s hs => ⟨fun _ _ => h s hs, fun _ _ => he _ (h s hs)⟩

theorem Keeps.result {R : α → Prop} (h : Keeps I m) (he : ∀ s, I s → E s)
    (hr : ∀ s a, (m s).1 = .ok a → R a) : Spec I m (fun a s => R a ∧ I s) E :=
  fun s hs => ⟨fun a ha => ⟨hr s a ha, h s hs⟩, fun _ _ => he _ (h s hs)⟩

theorem Keeps.and_spec (h : Keeps I m) (hm : Spec P m Q E) :
    Spec (fun s => I s ∧ P s) m (fun a s => I s ∧ Q a s) I :=
  fun s hs => ⟨fun a ha => ⟨h s hs.1, (hm s hs.2).1 a ha⟩, fun _ _ => h s hs.1⟩

theorem Spec.after (h : Spec P m (fun _ => I) I) {s : σ} (hs : P s) : I (m s).2 := by
  obtain ⟨hok, herror⟩ := h s hs
  cases hm : (m s).1 with
  | ok a => exact hok a hm
  | error e => exact herror e hm

end Specs

end Program
