import Mathlib.Tactic

namespace Recency
variable {κ : Type} [DecidableEq κ]

-- Histories are written newest first.
def recent : List κ → List κ
  | [] => []
  | k :: history => k :: (recent history).filter (· ≠ k)

def UsedAfter (history : List κ) (later earlier : κ) : Prop :=
  ∃ newer older, history = newer ++ later :: older ∧ earlier ∉ newer ∧ earlier ≠ later

theorem recent_usedAfter (history : List κ) : (recent history).Pairwise (UsedAfter history) := by
  induction history with
  | nil => exact .nil
  | cons k history ih =>
    rw [recent, List.pairwise_cons]
    constructor
    · intro earlier hearlier
      exact ⟨[], history, rfl, by simp, by simpa using (List.mem_filter.mp hearlier).2⟩
    · refine (ih.filter _).imp_of_mem fun {later earlier} _ hearlier h => ?_
      obtain ⟨newer, older, rfl, hnewer, hne⟩ := h
      have hk : earlier ≠ k := by simpa using (List.mem_filter.mp hearlier).2
      exact ⟨k :: newer, older, rfl, by simp [hk, hnewer], hne⟩

theorem sublist_touch {keys history : List κ} (k : κ) (h : keys.Sublist (recent history)) :
    (k :: keys.filter (· ≠ k)).Sublist (recent (k :: history)) :=
  (h.filter _).cons_cons k

theorem sublist_use {keys history : List κ} {k : κ} (h : keys.Sublist (recent history))
    (hk : k ∉ keys) : keys.Sublist (recent (k :: history)) := by
  have hsame : keys.filter (· ≠ k) = keys := by
    rw [List.filter_eq_self]
    intro key hkey
    simpa using fun heq : key = k => hk (heq ▸ hkey)
  exact hsame ▸ (h.filter _).cons k

end Recency
