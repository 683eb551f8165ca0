import MonetdbAdbc.Library.Rows

namespace Slices
open LittleEndian Machine Rows
variable {α β ε : Type}

structure Slice where
  bytes : Bytes
  fits : bytes.length ≤ isizeMax

inductive Stop (ε : Type) where
  | fails (error : ε)
  | panics
  deriving DecidableEq, Repr

def orFail (x : Except ε α) : Except (Stop ε) α := x.mapError .fails

def slice (xs : List α) (start finish : Nat) : Except (Stop ε) (List α) :=
  if start ≤ finish ∧ finish ≤ xs.length then .ok ((xs.take finish).drop start) else .error .panics

theorem slice_ok {xs : List α} {start finish : Nat} (hstart : start ≤ finish)
    (hfinish : finish ≤ xs.length) :
    (slice xs start finish : Except (Stop ε) (List α)) = .ok ((xs.take finish).drop start) :=
  if_pos ⟨hstart, hfinish⟩

@[simp] theorem orFail_ok (a : α) : orFail (.ok a : Except ε α) = .ok a := rfl

@[simp] theorem orFail_error (e : ε) : orFail (.error e : Except ε α) = .error (.fails e) := rfl

@[simp] theorem orFail_bind (x : Except ε α) (f : α → Except ε β) :
    orFail (x >>= f) = orFail x >>= fun a => orFail (f a) := by
  cases x <;> rfl

@[simp] theorem orFail_map (x : Except ε α) (f : α → β) :
    orFail (x.map f) = (orFail x).map f := by
  cases x <;> rfl

theorem orFail_ite (p : Prop) [Decidable p] (x y : Except ε α) :
    orFail (if p then x else y) = if p then orFail x else orFail y := by
  split_ifs <;> rfl

theorem orFail_not_panics (x : Except ε α) : orFail x ≠ .error .panics := by
  cases x <;> simp

@[simp] theorem orFail_eq_ok {x : Except ε α} {a : α} : orFail x = .ok a ↔ x = .ok a := by
  cases x <;> simp

theorem mapFrom_orFail {f : Nat → α → Except ε β} {g : Nat → α → Except (Stop ε) β} {xs : List α}
    (h : ∀ row, ∀ x ∈ xs, g row x = orFail (f row x)) (row : Nat) :
    mapFrom g row xs = orFail (mapFrom f row xs) := by
  induction xs generalizing row with
  | nil => rfl
  | cons x xs ih =>
    have hxs := ih (fun row y hy => h row y (List.mem_cons_of_mem x hy)) (row + 1)
    rw [mapFrom, mapFrom, h row x List.mem_cons_self, hxs]
    cases f row x with
    | error e => rfl
    | ok y => cases mapFrom f (row + 1) xs <;> rfl

theorem mapFrom_ok_of_forall {f : α → β} {g : Nat → α → Except ε β} {xs : List α}
    (h : ∀ row, ∀ x ∈ xs, g row x = .ok (f x)) (row : Nat) :
    mapFrom g row xs = .ok (xs.map f) := by
  induction xs generalizing row with
  | nil => rfl
  | cons x xs ih =>
    exact mapFrom_cons_of_ok (h row x List.mem_cons_self)
      (ih (fun row y hy => h row y (List.mem_cons_of_mem x hy)) (row + 1))

end Slices
