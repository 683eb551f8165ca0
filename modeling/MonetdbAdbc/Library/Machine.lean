import Mathlib.Tactic

namespace Machine
variable {α β ε : Type} {x : Except ε α} {f : α → Except ε β}

def usizeMax : Nat := 2 ^ 64 - 1

def isizeMax : Nat := 2 ^ 63 - 1

def i32Max : Nat := 2 ^ 31 - 1

def checkedAdd (a b : Nat) : Option Nat := if a + b ≤ usizeMax then some (a + b) else none

def checkedMul (a b : Nat) : Option Nat := if a * b ≤ usizeMax then some (a * b) else none

def saturatingAdd (a b : Nat) : Nat := min (a + b) usizeMax

def saturatingMul (a b : Nat) : Nat := min (a * b) usizeMax

def wrappingSub (a b : Nat) : Nat := (a + 2 ^ 64 - b) % 2 ^ 64

theorem wrappingSub_of_le {a b : Nat} (hle : b ≤ a) (ha : a ≤ usizeMax) :
    wrappingSub a b = a - b := by
  rw [wrappingSub, usizeMax] at *
  omega

def inI64 (n : Int) : Bool := -(2 ^ 63) ≤ n ∧ n < 2 ^ 63

def checkedMulI64 (a b : Int) : Option Int := if inI64 (a * b) then some (a * b) else none

def okOr (error : ε) : Option α → Except ε α
  | none => .error error
  | some a => .ok a

@[simp] theorem okOr_eq_ok {error : ε} {x : Option α} {a : α} :
    okOr error x = .ok a ↔ x = some a := by
  cases x <;> simp [okOr]

@[simp] theorem okOr_some (error : ε) (a : α) : okOr error (some a) = .ok a := rfl

@[simp] theorem okOr_none (error : ε) : okOr error (none : Option α) = .error error := rfl

@[simp] theorem ok_bind (a : α) (f : α → Except ε β) : (Except.ok a >>= f) = f a := rfl

@[simp] theorem error_bind (e : ε) (f : α → Except ε β) : (Except.error e >>= f) = .error e := rfl

@[simp] theorem bind_eq_ok {b : β} : (x >>= f) = .ok b ↔ ∃ a, x = .ok a ∧ f a = .ok b := by
  cases x with
  | error e | ok a => simp [bind, Except.bind]

theorem mapM_mem {xs : List α} {ys : List β} (h : xs.mapM f = .ok ys) :
    ∀ y ∈ ys, ∃ x ∈ xs, f x = .ok y := by
  induction xs generalizing ys with
  | nil =>
    cases h
    simp
  | cons x xs ih =>
    rw [List.mapM_cons] at h
    obtain ⟨y, hy, h⟩ := bind_eq_ok.mp h
    obtain ⟨rest, hrest, h⟩ := bind_eq_ok.mp h
    cases h
    rw [List.forall_mem_cons]
    refine ⟨⟨x, List.mem_cons_self, hy⟩, fun z hz => ?_⟩
    obtain ⟨x', hx', hf⟩ := ih hrest z hz
    exact ⟨x', List.mem_cons_of_mem x hx', hf⟩

theorem length_mapM {xs : List α} {ys : List β} (h : xs.mapM f = .ok ys) :
    ys.length = xs.length := by
  induction xs generalizing ys with
  | nil =>
    cases h
    rfl
  | cons x xs ih =>
    rw [List.mapM_cons] at h
    obtain ⟨y, -, h⟩ := bind_eq_ok.mp h
    obtain ⟨rest, hrest, h⟩ := bind_eq_ok.mp h
    cases h
    exact congrArg (· + 1) (ih hrest)

theorem map_eq_ok {f : α → β} {b : β} : x.map f = .ok b ↔ ∃ a, x = .ok a ∧ f a = b := by
  cases x with
  | error e | ok a => simp [Except.map]

theorem bind_eq_error {e : ε} :
    (x >>= f) = .error e ↔ x = .error e ∨ ∃ a, x = .ok a ∧ f a = .error e := by
  cases x with
  | error e' | ok a => simp

theorem map_eq_error {f : α → β} {e : ε} : x.map f = .error e ↔ x = .error e := by
  cases x with
  | error e' | ok a => simp [Except.map]

theorem ite_error_eq_ok {p : Prop} [Decidable p] {e : ε} {a : α} :
    (if p then .error e else x) = .ok a ↔ ¬p ∧ x = .ok a := by
  split_ifs with h <;> simp [h]

@[simp] theorem checkedAdd_eq_some {a b n : Nat} :
    checkedAdd a b = some n ↔ a + b ≤ usizeMax ∧ n = a + b := by
  simp only [checkedAdd]
  split_ifs with h <;> simp [h, eq_comm]

@[simp] theorem checkedMul_eq_some {a b n : Nat} :
    checkedMul a b = some n ↔ a * b ≤ usizeMax ∧ n = a * b := by
  simp only [checkedMul]
  split_ifs with h <;> simp [h, eq_comm]

theorem checkedMulI64_eq_some {a b n : Int} :
    checkedMulI64 a b = some n ↔ inI64 (a * b) = true ∧ n = a * b := by
  simp only [checkedMulI64]
  split_ifs with h <;> simp [h, eq_comm]

def IsOk (x : Except ε α) : Prop := ∃ a, x = .ok a

@[simp] theorem isOk_ok (a : α) : IsOk (.ok a : Except ε α) := ⟨a, rfl⟩

@[simp] theorem not_isOk_error (e : ε) : ¬IsOk (.error e : Except ε α) := nofun

theorem isOk_bind : IsOk (x >>= f) ↔ ∃ a, x = .ok a ∧ IsOk (f a) := by
  cases x <;> simp

@[simp] theorem isOk_map {f : α → β} : IsOk (x.map f) ↔ IsOk x := by
  cases x <;> simp [Except.map]

theorem isOk_congr {y : Except ε α} (h : x.toOption = y.toOption) : IsOk x ↔ IsOk y := by
  cases x <;> cases y <;> simp_all [Except.toOption]

@[simp] theorem toOption_ok (a : α) : (.ok a : Except ε α).toOption = some a := rfl

@[simp] theorem toOption_error (e : ε) : (.error e : Except ε α).toOption = none := rfl

@[simp] theorem toOption_bind (x : Except ε α) (f : α → Except ε β) :
    (x >>= f).toOption = x.toOption.bind fun a => (f a).toOption := by
  cases x <;> rfl

@[simp] theorem toOption_okOr (error : ε) (x : Option α) : (okOr error x).toOption = x := by
  cases x <;> rfl

theorem toOption_ite {p : Prop} [Decidable p] (x y : Except ε α) :
    (if p then x else y).toOption = if p then x.toOption else y.toOption := by
  split_ifs <;> rfl

end Machine
