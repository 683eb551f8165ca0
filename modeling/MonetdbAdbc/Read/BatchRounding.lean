import MonetdbAdbc.Library.Rounding
import MonetdbAdbc.Read.WindowRuns

namespace MonetdbAdbc
open Machine Rounding ReadWindowScheduler

def i64Max : Nat := 2 ^ 63 - 1

def roundReadBatchRows (rows : Nat) : Nat :=
  if rows % exportGranuleRows = 0 then rows
  else if rows < exportGranuleRows then
    let lower := exportAlignmentRows rows
    if lower = rows then rows
    else
      let upper := min (saturatingMul lower 2) exportGranuleRows
      if rows - lower ≥ upper - rows then upper else lower
  else
    let lower := rows / exportGranuleRows * exportGranuleRows
    let upper := checkedAdd lower exportGranuleRows
    if lower = 0 ∨ rows - lower ≥ exportGranuleRows / 2 then
      (upper.filter fun upper => upper ≤ i64Max).getD lower
    else lower

def admissible : Set Nat :=
  {rows | rows = 0 ∨ (∃ k ≤ 17, rows = 2 ^ k) ∨ exportGranuleRows ∣ rows ∧ rows ≤ i64Max}

theorem admissible_power {k : Nat} (h : k ≤ 17) : 2 ^ k ∈ admissible := .inr (.inl ⟨k, h, rfl⟩)

theorem admissible_multiple {rows : Nat} (hdvd : exportGranuleRows ∣ rows) (h : rows ≤ i64Max) :
    rows ∈ admissible := .inr (.inr ⟨hdvd, h⟩)

theorem admissible_le {rows : Nat} (h : rows ∈ admissible) : rows ≤ i64Max := by
  rcases h with rfl | ⟨k, hk, rfl⟩ | ⟨-, hle⟩
  · exact Nat.zero_le _
  · exact (Nat.pow_le_pow_right (by decide) hk).trans (by decide)
  · exact hle

theorem granule_eq : exportGranuleRows = 2 ^ 17 := by decide

section Below
variable {rows k : Nat}

theorem admissible_between_powers (hk : k ≤ 16) :
    ∀ v ∈ admissible, v ≤ 2 ^ k ∨ 2 ^ (k + 1) ≤ v := by
  rintro v (rfl | ⟨j, -, rfl⟩ | ⟨⟨m, rfl⟩, -⟩)
  · exact .inl (Nat.zero_le _)
  · rcases le_or_gt j k with hle | hlt
    · exact .inl (Nat.pow_le_pow_right (by decide) hle)
    · exact .inr (Nat.pow_le_pow_right (by decide) hlt)
  · rcases Nat.eq_zero_or_pos m with rfl | hpos
    · exact .inl (Nat.zero_le _)
    · have hgranule : 2 ^ (k + 1) ≤ exportGranuleRows := by
        rw [granule_eq]
        exact Nat.pow_le_pow_right (by decide) (by omega)
      exact .inr (hgranule.trans (Nat.le_mul_of_pos_right _ hpos))

theorem exportAlignmentRows_below (hpos : 0 < rows) (hlt : rows < exportGranuleRows) :
    ∃ k ≤ 16, exportAlignmentRows rows = 2 ^ k ∧ 2 ^ k ≤ rows ∧ rows < 2 ^ (k + 1) := by
  obtain ⟨⟨⟨k, hk⟩, hle⟩, hgreatest⟩ := exportAlignmentRows_isGreatest hpos
  rw [hk] at hle
  have hrows : 2 ^ k ≤ rows := hle.trans (Nat.min_le_left _ _)
  have hbound : k < 17 := by
    rw [granule_eq] at hlt
    exact (Nat.pow_lt_pow_iff_right (by decide)).mp (hrows.trans_lt hlt)
  refine ⟨k, Nat.le_of_lt_succ hbound, hk, hrows, ?_⟩
  by_contra hge
  have hmem : 2 ^ (k + 1) ≤ exportAlignmentRows rows := by
    refine hgreatest ⟨⟨k + 1, rfl⟩, ?_⟩
    omega
  rw [hk] at hmem
  have hgrow : 2 ^ k < 2 ^ (k + 1) := Nat.pow_lt_pow_right (by decide) (Nat.lt_succ_self k)
  omega

theorem round_below (hpos : 0 < rows) (hlt : rows < exportGranuleRows) :
    Nearest admissible rows (roundReadBatchRows rows) := by
  obtain ⟨k, hk, halign, hle, hnext⟩ := exportAlignmentRows_below hpos hlt
  have hmultiple : ¬rows % exportGranuleRows = 0 := by
    rw [Nat.mod_eq_of_lt hlt]
    omega
  have hupper : min (saturatingMul (2 ^ k) 2) exportGranuleRows = 2 ^ (k + 1) := by
    have hsmall : 2 ^ (k + 1) ≤ 2 ^ 17 := Nat.pow_le_pow_right (by decide) (by omega)
    rw [saturatingMul, usizeMax, granule_eq, Nat.pow_succ] at *
    omega
  simp only [roundReadBatchRows, if_neg hmultiple, if_pos hlt, halign, hupper]
  have hgap := admissible_between_powers hk
  split_ifs with hsame hcloser
  · exact nearest_self (hsame ▸ admissible_power (by omega))
  · exact nearest_upper hle (admissible_power (by omega)) hnext hgap hcloser
  · exact nearest_lower (admissible_power (by omega)) hle hnext hgap (Nat.lt_of_not_le hcloser)

end Below

section Above
variable {rows : Nat}

theorem admissible_between_multiples {m : Nat} (hm : 0 < m) :
    ∀ v ∈ admissible, v ≤ m * exportGranuleRows ∨ (m + 1) * exportGranuleRows ≤ v := by
  rintro v (rfl | ⟨j, hj, rfl⟩ | ⟨⟨n, rfl⟩, -⟩)
  · exact .inl (Nat.zero_le _)
  · refine .inl (le_trans ?_ (Nat.le_mul_of_pos_left _ hm))
    rw [granule_eq]
    exact Nat.pow_le_pow_right (by decide) hj
  · rw [Nat.mul_comm exportGranuleRows n]
    rcases le_or_gt n m with hle | hlt
    · exact .inl (Nat.mul_le_mul_right _ hle)
    · exact .inr (Nat.mul_le_mul_right _ hlt)

theorem round_above (hge : exportGranuleRows ≤ rows) (hmultiple : ¬rows % exportGranuleRows = 0)
    (hmax : rows ≤ i64Max) : Nearest admissible rows (roundReadBatchRows rows) := by
  have hgranule : exportGranuleRows = 131072 := rfl
  obtain ⟨m, hm⟩ : ∃ m, m = rows / exportGranuleRows := ⟨_, rfl⟩
  have hpos : 0 < m := hm ▸ Nat.div_pos hge (by decide)
  have hlower : m * exportGranuleRows ≤ rows := hm ▸ Nat.div_mul_le_self _ _
  have hrest : rows < (m + 1) * exportGranuleRows := by
    rw [hm, Nat.mul_comm]
    exact Nat.lt_mul_div_succ rows (by decide)
  have hnonzero : ¬m * exportGranuleRows = 0 := Nat.ne_of_gt (Nat.mul_pos hpos (by decide))
  have hgap := admissible_between_multiples hpos
  have hlowerMem : m * exportGranuleRows ∈ admissible :=
    admissible_multiple (Nat.dvd_mul_left _ _) (hlower.trans hmax)
  simp only [roundReadBatchRows, if_neg hmultiple, if_neg (Nat.not_lt.mpr hge), ← hm, hnonzero,
    false_or]
  rw [Nat.succ_mul] at hrest hgap
  split_ifs with hhalf
  · by_cases hfits : m * exportGranuleRows + exportGranuleRows ≤ i64Max
    · have hupper : checkedAdd (m * exportGranuleRows) exportGranuleRows =
          some (m * exportGranuleRows + exportGranuleRows) := by
        rw [checkedAdd, if_pos]
        rw [i64Max] at hfits
        rw [usizeMax]
        omega
      rw [hupper, Option.filter_some, if_pos (by simpa using hfits), Option.getD_some]
      refine nearest_upper hlower (admissible_multiple ?_ hfits) hrest hgap ?_
      · exact Nat.dvd_add (Nat.dvd_mul_left _ _) (Nat.dvd_refl _)
      · omega
    · have hnone : (checkedAdd (m * exportGranuleRows) exportGranuleRows).filter
          (fun upper => upper ≤ i64Max) = none := by
        rw [checkedAdd]
        split_ifs
        · rw [Option.filter_some, if_neg (by simpa using hfits)]
        · rfl
      rw [hnone, Option.getD_none]
      refine nearest_last hlowerMem hlower fun v hv => ?_
      rcases hgap v hv with hbelow | habove
      · exact hbelow
      · exact absurd (habove.trans (admissible_le hv)) hfits
  · refine nearest_lower hlowerMem hlower hrest hgap ?_
    omega

end Above

theorem round_nearest {rows : Nat} (hmax : rows ≤ i64Max) :
    Nearest admissible rows (roundReadBatchRows rows) := by
  by_cases hmultiple : rows % exportGranuleRows = 0
  · rw [roundReadBatchRows, if_pos hmultiple]
    exact nearest_self (admissible_multiple (Nat.dvd_of_mod_eq_zero hmultiple) hmax)
  · rcases Nat.lt_or_ge rows exportGranuleRows with hlt | hge
    · refine round_below (Nat.pos_of_ne_zero ?_) hlt
      rintro rfl
      exact hmultiple rfl
    · exact round_above hge hmultiple hmax

theorem read_batch_rounding_nearest (rows : Nat) (h : rows ≤ i64Max) :
    Nearest admissible rows (roundReadBatchRows rows) ∧
      roundReadBatchRows (roundReadBatchRows rows) = roundReadBatchRows rows := by
  have hnearest := round_nearest h
  exact ⟨hnearest, (round_nearest (admissible_le hnearest.mem)).eq_self hnearest.mem⟩

theorem halfway_rounds_up :
    3 ≤ i64Max ∧ roundReadBatchRows 3 = 4 ∧ Nearest admissible 3 (roundReadBatchRows 3) ∧
      roundReadBatchRows (roundReadBatchRows 3) = roundReadBatchRows 3 :=
  ⟨by decide, by decide +kernel, read_batch_rounding_nearest 3 (by decide)⟩

end MonetdbAdbc
