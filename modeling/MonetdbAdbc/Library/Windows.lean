import Mathlib.Tactic

namespace Windows
variable {β ε : Type} {rows : β → Nat} {total : Nat} {entries : List (Nat × Except ε β)}
  {position : Option Nat} {i row : Nat}

def outcomeRows (rows : β → Nat) : Option (Except ε β) → Nat
  | some (.ok b) => rows b
  | _ => 0

def delivered (rows : β → Nat) (outcomes : List (Option (Except ε β))) : Nat :=
  (outcomes.map (outcomeRows rows)).sum

structure Exact (rows : β → Nat) (total : Nat) (outcomes : List (Option (Except ε β))) :
    Prop where
  windows : ∀ i b, outcomes[i]? = some (some (.ok b)) →
    0 < rows b ∧ delivered rows (outcomes.take i) + rows b ≤ total
  complete : none ∈ outcomes →
    (∃ e, some (Except.error e) ∈ outcomes) ∨ delivered rows outcomes = total
  final : ∀ (i j : Nat) (e : ε) outcome, i < j → outcomes[i]? = some (some (.error e)) →
    outcomes[j]? = some outcome → outcome = none

inductive Delivered (rows : β → Nat) (total : Nat) :
    List (Nat × Except ε β) → Option Nat → Prop
  | nil : Delivered rows total [] (some 0)
  | batch {entries : List (Nat × Except ε β)} {row : Nat} {b : β} :
    Delivered rows total entries (some row) → row < total → 0 < rows b → row + rows b ≤ total →
      Delivered rows total (entries ++ [(row, .ok b)]) (some (row + rows b))
  | fail {entries : List (Nat × Except ε β)} {row : Nat} {e : ε} :
    Delivered rows total entries (some row) → row < total →
      Delivered rows total (entries ++ [(row, .error e)]) none

def results (entries : List (Nat × Except ε β)) : List (Option (Except ε β)) :=
  entries.map fun entry => some entry.2

theorem delivered_append (xs ys : List (Option (Except ε β))) :
    delivered rows (xs ++ ys) = delivered rows xs + delivered rows ys := by
  simp [delivered]

theorem delivered_replicate (m : Nat) :
    delivered rows (List.replicate m (none : Option (Except ε β))) = 0 := by
  simp [delivered, outcomeRows]

theorem results_snoc (entries : List (Nat × Except ε β)) (entry : Nat × Except ε β) :
    results (entries ++ [entry]) = results entries ++ [some entry.2] := by
  simp [results]

theorem Delivered.rows_eq (h : Delivered rows total entries position) (hrow : position = some row) :
    delivered rows (results entries) = row := by
  induction h generalizing row with
  | nil => simpa [results, delivered] using hrow
  | batch _ _ _ _ ih =>
    rw [results_snoc, delivered_append, ih rfl]
    simpa [delivered, outcomeRows] using hrow
  | fail => simp at hrow

@[simp] theorem results_length (entries : List (Nat × Except ε β)) :
    (results entries).length = entries.length := by
  simp [results]

theorem results_take_snoc {entry : Nat × Except ε β} (hi : i ≤ entries.length) :
    (results (entries ++ [entry])).take i = (results entries).take i := by
  rw [results_snoc, List.take_append_of_le_length (by simpa using hi)]

theorem getElem_snoc {α : Type} {xs : List α} {x y : α} (h : (xs ++ [x])[i]? = some y) :
    (i < xs.length ∧ xs[i]? = some y) ∨ (i = xs.length ∧ x = y) := by
  rw [List.getElem?_append] at h
  split_ifs at h with hlt
  · exact .inl ⟨hlt, h⟩
  · obtain ⟨hzero, -⟩ := List.getElem?_eq_some_iff.mp h
    have hi : i - xs.length = 0 := by simpa using hzero
    rw [hi] at h
    exact .inr ⟨by omega, by simpa using h⟩

theorem Delivered.start (h : Delivered rows total entries position) {result : Except ε β}
    (hi : entries[i]? = some (row, result)) :
    row < total ∧ row = delivered rows ((results entries).take i) := by
  induction h with
  | nil => simp at hi
  | batch hdelivered hlt _ _ ih | fail hdelivered hlt ih =>
    rcases getElem_snoc hi with ⟨hlast, hi⟩ | ⟨rfl, heq⟩
    · rw [results_take_snoc hlast.le]
      exact ih hi
    · rw [results_take_snoc le_rfl, List.take_of_length_le (by simp), hdelivered.rows_eq rfl]
      obtain ⟨rfl, -⟩ := Prod.mk.inj heq
      exact ⟨hlt, rfl⟩

theorem Delivered.window (h : Delivered rows total entries position) {b : β}
    (hi : entries[i]? = some (row, .ok b)) : 0 < rows b ∧ row + rows b ≤ total := by
  induction h with
  | nil => simp at hi
  | batch _ _ hpos hle ih =>
    rcases getElem_snoc hi with ⟨-, hi⟩ | ⟨-, heq⟩
    · exact ih hi
    · simp only [Prod.mk.injEq, Except.ok.injEq] at heq
      obtain ⟨rfl, rfl⟩ := heq
      exact ⟨hpos, hle⟩
  | fail _ _ ih =>
    rcases getElem_snoc hi with ⟨-, hi⟩ | ⟨-, heq⟩
    · exact ih hi
    · simp at heq

theorem Delivered.failed (h : Delivered rows total entries position) {e : ε}
    (hi : entries[i]? = some (row, .error e)) : i + 1 = entries.length ∧ position = none := by
  induction h with
  | nil => simp at hi
  | batch _ _ _ _ ih =>
    rcases getElem_snoc hi with ⟨-, hi⟩ | ⟨-, heq⟩
    · exact absurd (ih hi).2 (by simp)
    · simp at heq
  | fail _ _ ih =>
    rcases getElem_snoc hi with ⟨-, hi⟩ | ⟨rfl, -⟩
    · exact absurd (ih hi).2 (by simp)
    · exact ⟨by simp, rfl⟩

theorem Delivered.last_failed (h : Delivered rows total entries position)
    (hnone : position = none) : ∃ (i row : Nat) (e : ε), entries[i]? = some (row, .error e) := by
  cases h with
  | nil | batch => simp at hnone
  | @fail entries row e _ _ => exact ⟨entries.length, row, e, by simp⟩

theorem Delivered.exact {m : Nat} (h : Delivered rows total entries position)
    (hm : 0 < m → position = none ∨ position = some total) :
    Exact rows total (results entries ++ List.replicate m none) := by
  have hget : ∀ {i : Nat} {outcome : Option (Except ε β)},
      (results entries ++ List.replicate m none)[i]? = some outcome → outcome ≠ none →
        ∃ row result, entries[i]? = some (row, result) ∧ outcome = some result := by
    intro i outcome hi hne
    rw [List.getElem?_append] at hi
    split_ifs at hi with hlt
    · simp only [results, List.getElem?_map, Option.map_eq_some_iff] at hi
      obtain ⟨⟨row, result⟩, hentry, rfl⟩ := hi
      exact ⟨row, result, hentry, rfl⟩
    · have := List.mem_of_getElem? hi
      exact absurd (List.eq_of_mem_replicate this) hne
  refine ⟨?_, ?_, ?_⟩
  · intro i b hi
    obtain ⟨row, result, hentry, heq⟩ := hget hi (by simp)
    cases heq
    have hlt := (List.getElem?_eq_some_iff.mp hentry).1
    rw [List.take_append_of_le_length (by simpa using hlt.le), ← (h.start hentry).2]
    exact h.window hentry
  · intro hnone
    have hpos : 0 < m := by
      rcases List.mem_append.mp hnone with hmem | hmem
      · simp [results] at hmem
      · exact Nat.pos_of_ne_zero fun hzero => by simp [hzero] at hmem
    rcases hm hpos with hposition | hposition
    · obtain ⟨i, row, e, hentry⟩ := h.last_failed hposition
      refine .inl ⟨e, List.mem_append_left _ ?_⟩
      exact List.mem_map.mpr ⟨_, List.mem_of_getElem? hentry, rfl⟩
    · rw [delivered_append, delivered_replicate, h.rows_eq hposition]
      exact .inr rfl
  · intro i j e outcome hij hi hj
    obtain ⟨row, result, hentry, heq⟩ := hget hi (by simp)
    cases heq
    obtain ⟨hlast, -⟩ := h.failed hentry
    by_contra hne
    obtain ⟨row', result', hentry', -⟩ := hget hj hne
    have hlt := (List.getElem?_eq_some_iff.mp hentry').1
    omega

end Windows
