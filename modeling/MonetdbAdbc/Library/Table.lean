import Mathlib.Tactic

namespace Table
variable {α : Type} {rows : Nat} {columns : List (List α)}

def transpose (rows : Nat) : List (List α) → List (List α)
  | [] => List.replicate rows []
  | column :: columns => List.zipWith (· :: ·) column (transpose rows columns)

theorem transpose_length (h : ∀ column ∈ columns, column.length = rows) :
    (transpose rows columns).length = rows := by
  induction columns with
  | nil => simp [transpose]
  | cons column columns ih =>
    obtain ⟨hcolumn, hcolumns⟩ := List.forall_mem_cons.mp h
    rw [transpose, List.length_zipWith, ih hcolumns, hcolumn, min_self]

theorem transpose_slice (rows start len : Nat) (columns : List (List α)) :
    transpose (min len (rows - start)) (columns.map fun column => (column.drop start).take len) =
      ((transpose rows columns).drop start).take len := by
  induction columns with
  | nil => simp [transpose]
  | cons column columns ih =>
    rw [List.map_cons, transpose, ih, transpose, List.drop_zipWith, List.take_zipWith]

def weigh (weights : List (α → Nat)) (row : List α) : Nat :=
  (List.zipWith (fun weight cell => weight cell) weights row).sum

theorem sum_zipWith_cons {weight : α → Nat} {weights : List (α → Nat)} {column : List α}
    {table : List (List α)} (h : column.length = table.length) :
    ((List.zipWith (· :: ·) column table).map (weigh (weight :: weights))).sum =
      (column.map weight).sum + (table.map (weigh weights)).sum := by
  induction column generalizing table with
  | nil =>
    rw [List.length_eq_zero_iff.mp h.symm]
    rfl
  | cons cell column ih =>
    cases table with
    | nil => simp at h
    | cons row table =>
      have hrest := ih (Nat.succ.inj h)
      simp only [List.zipWith_cons_cons, List.map_cons, List.sum_cons, hrest, weigh]
      omega

theorem sum_weigh {weights : List (α → Nat)} (hlength : weights.length = columns.length)
    (h : ∀ column ∈ columns, column.length = rows) :
    ((transpose rows columns).map (weigh weights)).sum =
      (List.zipWith (fun weight column => (column.map weight).sum) weights columns).sum := by
  induction columns generalizing weights with
  | nil =>
    rw [List.length_eq_zero_iff.mp hlength]
    simp [transpose, weigh]
  | cons column columns ih =>
    cases weights with
    | nil => simp at hlength
    | cons weight weights =>
      obtain ⟨hcolumn, hcolumns⟩ := List.forall_mem_cons.mp h
      rw [transpose, sum_zipWith_cons (by rw [transpose_length hcolumns, hcolumn]),
        ih (Nat.succ.inj hlength) hcolumns, List.zipWith_cons_cons, List.sum_cons]

end Table
