import Mathlib.Tactic

namespace Transposition

variable {α κ : Type}

def scatter (place : κ → Nat) (value : κ → α) (keys : List κ) (out : List α) : List α :=
  keys.foldl (fun out key => out.set (place key) (value key)) out

-- The position holds a if it did before and every key placed there writes a; the first key that
-- is placed there makes the second case the first.
theorem scatter_get {place : κ → Nat} {value : κ → α} {keys : List κ} {out : List α} {i : Nat}
    {a : α} (hi : i < out.length) (hvalue : ∀ key ∈ keys, place key = i → value key = a)
    (hstart : out[i]? = some a ∨ ∃ key ∈ keys, place key = i) :
    (scatter place value keys out)[i]? = some a := by
  induction keys generalizing out with
  | nil =>
    rcases hstart with hstart | ⟨key, hkey, -⟩
    · exact hstart
    · cases hkey
  | cons key keys ih =>
    have hrest : ∀ k ∈ keys, place k = i → value k = a :=
      fun k hk => hvalue k (List.mem_cons_of_mem key hk)
    refine ih (by simpa using hi) hrest ?_
    dsimp only
    by_cases hplace : place key = i
    · left
      rw [hplace, List.getElem?_set_self hi, hvalue key List.mem_cons_self hplace]
    · rw [List.getElem?_set_ne hplace]
      rcases hstart with hstart | ⟨k, hk, hki⟩
      · exact .inl hstart
      · rcases List.mem_cons.mp hk with rfl | hk
        · exact absurd hki hplace
        · exact .inr ⟨k, hk, hki⟩

def grid (rows : Nat) (f : Nat → Nat → α) (width : Nat) : List α :=
  (List.range width).flatMap fun column => (List.range rows).map (f column)

theorem grid_succ (rows : Nat) (f : Nat → Nat → α) (width : Nat) :
    grid rows f (width + 1) = grid rows f width ++ (List.range rows).map (f width) := by
  simp [grid, List.range_succ, List.flatMap_append]

theorem length_grid (rows : Nat) (f : Nat → Nat → α) (width : Nat) :
    (grid rows f width).length = width * rows := by
  induction width with
  | zero => simp [grid]
  | succ width ih => rw [grid_succ, List.length_append, ih, List.length_map, List.length_range,
      Nat.succ_mul]

theorem grid_get {rows width column row : Nat} (f : Nat → Nat → α) (hcolumn : column < width)
    (hrow : row < rows) : (grid rows f width)[column * rows + row]? = some (f column row) := by
  induction width with
  | zero => omega
  | succ width ih =>
    have hlen := length_grid rows f width
    rw [grid_succ]
    rcases Nat.lt_succ_iff_lt_or_eq.mp hcolumn with hlt | rfl
    · have hle : (column + 1) * rows ≤ width * rows := Nat.mul_le_mul_right rows hlt
      rw [Nat.succ_mul] at hle
      rw [List.getElem?_append_left (by omega)]
      exact ih hlt
    · rw [List.getElem?_append_right (by omega), hlen, Nat.add_sub_cancel_left]
      simp [hrow]

end Transposition
