import MonetdbAdbc.Decode

namespace MonetdbAdbc
open Calendar
variable {d : Date} {month : Nat}

def civilYear (year : Int) (month : Nat) : Int := if month ≤ 2 then year - 1 else year

def monthOffset (month : Nat) : Nat :=
  (153 * (if month > 2 then month - 3 else month + 9) + 2) / 5

theorem era_eq_floor (year : Int) :
    (if 0 ≤ year then year else year - 399).tdiv 400 = year / 400 := by
  have hsign : Int.sign 400 = 1 := rfl
  rw [Int.tdiv_eq_ediv, hsign]
  split_ifs <;> omega

theorem daysFromCivil_eq {year : Int} {day : Nat} (hday : 1 ≤ day) :
    daysFromCivil year month day =
      365 * civilYear year month + civilYear year month / 4 - civilYear year month / 100 +
        civilYear year month / 400 + monthOffset month + day - 719469 := by
  simp only [daysFromCivil, era_eq_floor]
  rw [show (if month ≤ 2 then year - 1 else year) = civilYear year month from rfl,
    show (153 * (if month > 2 then month - 3 else month + 9) + 2) / 5 = monthOffset month from rfl]
  generalize civilYear year month = y
  have hera : 0 ≤ y - y / 400 * 400 := by omega
  rw [Int.tdiv_eq_ediv_of_nonneg hera, Int.tdiv_eq_ediv_of_nonneg hera]
  omega

theorem isLeap_iff (year : Int) :
    isLeap year = true ↔ (year % 4 = 0 ∧ year % 100 ≠ 0) ∨ year % 400 = 0 := by
  simp [isLeap]

theorem monthOffset_succ (year : Int) (h1 : 1 ≤ month) (h2 : month < 12) (hfeb : month ≠ 2) :
    monthOffset (month + 1) = monthOffset month + monthDays year month ∧
      civilYear year (month + 1) = civilYear year month := by
  interval_cases month <;> simp_all [monthOffset, monthDays, civilYear]

theorem february_length (year : Int) :
    (monthDays year 2 : Int) = 28 + ((year / 4 - (year - 1) / 4) - (year / 100 - (year - 1) / 100) +
      (year / 400 - (year - 1) / 400)) := by
  have hleap := isLeap_iff year
  simp only [monthDays, if_true]
  split_ifs with h
  · rw [hleap] at h
    push_cast
    omega
  · rw [hleap] at h
    push_cast
    omega

theorem daysFromCivil_next (h : d.Valid) :
    daysFromCivil d.next.year d.next.month d.next.day =
      daysFromCivil d.year d.month d.day + 1 := by
  obtain ⟨hm1, hm2, hd1, hd2⟩ := h
  simp only [Date.next]
  split_ifs with hday hmonth
  · rw [daysFromCivil_eq (Nat.le_add_left 1 d.day), daysFromCivil_eq hd1]
    push_cast
    ring
  · have hlast : d.day = monthDays d.year d.month := le_antisymm hd2 (not_lt.mp hday)
    rw [daysFromCivil_eq (le_refl 1), daysFromCivil_eq hd1, hlast]
    by_cases hfeb : d.month = 2
    · rw [hfeb, february_length]
      simp only [civilYear, monthOffset]
      norm_num
      ring
    · obtain ⟨hoffset, hyear⟩ := monthOffset_succ d.year hm1 hmonth hfeb
      rw [hoffset, hyear]
      push_cast
      ring
  · have hdec : d.month = 12 := by omega
    have hlast : d.day = 31 := by
      rw [hdec] at hday hd2
      exact le_antisymm hd2 (not_lt.mp hday)
    rw [daysFromCivil_eq (le_refl 1), daysFromCivil_eq hd1, hlast, hdec]
    simp only [civilYear, monthOffset]
    norm_num
    ring

theorem daysFromCivil_epoch :
    daysFromCivil epoch.year epoch.month epoch.day = 0 := by decide

theorem validYmd_eq {year : Int} {day : Nat} (hmonth : 1 ≤ month ∧ month ≤ 12) (hday : 1 ≤ day) :
    validYmd year month day = decide (day ≤ monthDays year month) := by
  have hzero : ∀ k : Int, (year.tmod k == 0) = decide (year % k = 0) := by
    intro k
    rw [Bool.eq_iff_iff, beq_iff_eq, decide_eq_true_eq, ← Int.dvd_iff_tmod_eq_zero,
      ← Int.dvd_iff_emod_eq_zero]
  simp only [validYmd, bne, hzero]
  rw [if_neg (by omega)]
  have hleap := isLeap_iff year
  obtain ⟨hm1, hm2⟩ := hmonth
  interval_cases month <;> simp_all [monthDays, daysPerMonth]

theorem validYmd_of_valid (h : d.Valid) : validYmd d.year d.month d.day = true := by
  rw [validYmd_eq ⟨h.month_pos, h.month_le⟩ h.day_pos, decide_eq_true_eq]
  exact h.day_le

theorem valid_of_validYmd {year : Int} {day : Nat} (h : validYmd year month day = true) :
    (⟨year, month, day⟩ : Date).Valid := by
  obtain ⟨hm1, hm2, hd1⟩ : 1 ≤ month ∧ month ≤ 12 ∧ 1 ≤ day := by
    by_contra hrange
    rw [validYmd, if_pos (by omega)] at h
    cases h
  rw [validYmd_eq ⟨hm1, hm2⟩ hd1, decide_eq_true_eq] at h
  exact ⟨hm1, hm2, hd1, h⟩

theorem daysFromCivil_of_proleptic {date : Int → Option Date} (hd : Proleptic date) {n : Int}
    {x : Date} (hx : date n = some x) : daysFromCivil x.year x.month x.day = n :=
  hd.number_eq (fun x => daysFromCivil x.year x.month x.day) daysFromCivil_epoch
    (fun _ hv => daysFromCivil_next hv) hx

theorem date_daysFromCivil {date : Int → Option Date} {first last : Int} (hd : Proleptic date)
    (hyears : HasYears date first last) (hvalid : d.Valid) (hfirst : first ≤ d.year)
    (hlast : d.year ≤ last) : date (daysFromCivil d.year d.month d.day) = some d := by
  obtain ⟨n, hn⟩ := hyears d hvalid hfirst hlast
  rw [daysFromCivil_of_proleptic hd hn, hn]

theorem eq_epoch (h : d.Valid) (hzero : daysFromCivil d.year d.month d.day = 0) : d = epoch := by
  obtain ⟨year, month, day⟩ := d
  obtain ⟨hm1, hm2, hd1, hd2⟩ := h
  simp only at hm1 hm2 hd1 hd2 hzero
  rw [daysFromCivil_eq hd1] at hzero
  have hdays : monthDays year month ≤ 31 := by
    unfold monthDays
    split_ifs <;> omega
  have hoffset : monthOffset month ≤ 337 := by
    unfold monthOffset
    split_ifs <;> omega
  have hyear : civilYear year month = 1969 := by
    generalize civilYear year month = y at hzero
    have hlow : 1968 < y := by omega
    have hhigh : y < 1970 := by omega
    omega
  rw [hyear] at hzero
  have hday : day = 1 ∧ month = 1 ∧ year = 1970 := by
    unfold civilYear at hyear
    unfold monthOffset at hzero
    interval_cases month <;> simp at hzero hyear <;> omega
  rw [hday.1, hday.2.1, hday.2.2]
  rfl

theorem exists_allDates (hvalid : d.Valid) : ∃ n, allDates n = some d := by
  generalize hk : (daysFromCivil d.year d.month d.day).natAbs = k
  induction k generalizing d with
  | zero =>
    rw [Int.natAbs_eq_zero] at hk
    exact ⟨0, by rw [eq_epoch hvalid hk]; rfl⟩
  | succ k ih =>
    rcases lt_or_ge 0 (daysFromCivil d.year d.month d.day) with hpositive | hnegative
    · have hnext := daysFromCivil_next hvalid.prev
      rw [hvalid.next_prev] at hnext
      obtain ⟨n, hn⟩ := ih hvalid.prev (by omega)
      have hsucc := allDates_next hn
      rw [hvalid.next_prev] at hsucc
      exact ⟨n + 1, hsucc⟩
    · have hnext := daysFromCivil_next hvalid
      obtain ⟨n, hn⟩ := ih hvalid.next (by omega)
      obtain ⟨y, hy⟩ : ∃ y, allDates (n - 1) = some y := ⟨_, rfl⟩
      have hsame : y.next = d.next := by
        have hsucc := allDates_next hy
        rw [sub_add_cancel, hn] at hsucc
        exact (Option.some.inj hsucc).symm
      rw [← hvalid.prev_next, ← hsame, (allDates_valid hy).prev_next]
      exact ⟨n - 1, hy⟩

theorem allDates_hasYears (first last : Int) : HasYears allDates first last :=
  fun _ hvalid _ _ => exists_allDates hvalid

section Count

theorem daysFromCivil_injective {d e : Date} (hd : d.Valid) (he : e.Valid)
    (h : daysFromCivil d.year d.month d.day = daysFromCivil e.year e.month e.day) : d = e := by
  obtain ⟨n, hn⟩ := exists_allDates hd
  obtain ⟨m, hm⟩ := exists_allDates he
  rw [daysFromCivil_of_proleptic allDates_proleptic hn,
    daysFromCivil_of_proleptic allDates_proleptic hm] at h
  rw [← h, hn] at hm
  exact Option.some.inj hm

theorem daysFromCivil_surjective (n : Int) :
    ∃ d : Date, d.Valid ∧ daysFromCivil d.year d.month d.day = n :=
  ⟨_, allDates_valid rfl, daysFromCivil_of_proleptic allDates_proleptic rfl⟩

theorem daysFromCivil_lt_iff {d e : Date} (hd : d.Valid) (he : e.Valid) :
    daysFromCivil d.year d.month d.day < daysFromCivil e.year e.month e.day ↔ d.Before e :=
  @number_lt_iff (fun d => daysFromCivil d.year d.month d.day)
    (fun _ h => daysFromCivil_next h) (fun _ _ => daysFromCivil_injective) d e hd he

end Count

section Intermediates
variable {year : Int} {month : Nat}

def i32 (n : Int) : Option Int := if -(2 ^ 31) ≤ n ∧ n < 2 ^ 31 then some n else none

def u32 (n : Int) : Option Nat := if 0 ≤ n ∧ n < 2 ^ 32 then some n.toNat else none

def i64 (n : Int) : Option Int := if -(2 ^ 63) ≤ n ∧ n < 2 ^ 63 then some n else none

-- days_from_civil with every addition, subtraction and multiplication checked in its own type.
def checkedCivilYear (year : Int) (month : Nat) : Option Int :=
  if month ≤ 2 then i32 (year - 1) else some year

def checkedEra (year : Int) : Option Int :=
  (if 0 ≤ year then some year else i32 (year - 399)).map fun year => year.tdiv 400

def checkedYearOfEra (year era : Int) : Option Int := do
  let eraYears ← i32 (era * 400)
  i32 (year - eraYears)

def checkedShiftedMonth (month : Nat) : Option Nat :=
  if month > 2 then u32 (month - 3) else u32 (month + 9)

def checkedDayOfYear (month day : Nat) : Option Nat := do
  let shiftedMonth ← checkedShiftedMonth month
  let product ← u32 (153 * shiftedMonth)
  let offset ← u32 (product + 2)
  let dayAfter ← u32 (offset / 5 + day : Nat)
  u32 (dayAfter - 1)

def checkedDayOfEra (yearOfEra : Int) (dayOfYear : Nat) : Option Int := do
  let yearDays ← i64 (yearOfEra * 365)
  let leapDays ← i64 (yearDays + yearOfEra.tdiv 4)
  let centuryDays ← i64 (leapDays - yearOfEra.tdiv 100)
  i64 (centuryDays + dayOfYear)

def checkedDaysFromCivil (year : Int) (month day : Nat) : Option Int := do
  let year ← checkedCivilYear year month
  let era ← checkedEra year
  let yearOfEra ← checkedYearOfEra year era
  let dayOfYear ← checkedDayOfYear month day
  let dayOfEra ← checkedDayOfEra yearOfEra dayOfYear
  let eraDays ← i64 (era * 146097)
  let total ← i64 (eraDays + dayOfEra)
  i64 (total - 719468)

theorem i32_eq_some {n : Int} (hlow : -(2 ^ 31) ≤ n) (hhigh : n < 2 ^ 31) : i32 n = some n :=
  if_pos ⟨hlow, hhigh⟩

theorem u32_eq_some {n : Int} {m : Nat} (hn : n = m) (hm : m < 2 ^ 32) : u32 n = some m := by
  rw [u32, if_pos (by omega), hn, Int.toNat_natCast]

theorem i64_eq_some {n : Int} (hlow : -(2 ^ 63) ≤ n) (hhigh : n < 2 ^ 63) : i64 n = some n :=
  if_pos ⟨hlow, hhigh⟩

theorem checkedCivilYear_eq (hhigh : year < 2 ^ 31) (hfits : -(2 ^ 31) ≤ civilYear year month) :
    checkedCivilYear year month = some (civilYear year month) ∧ civilYear year month < 2 ^ 31 := by
  rw [checkedCivilYear]
  rw [civilYear] at hfits ⊢
  split_ifs with hearly
  · rw [if_pos hearly] at hfits
    exact ⟨i32_eq_some hfits (by omega), by omega⟩
  · exact ⟨rfl, hhigh⟩

theorem checkedEra_eq (hlow : -(2 ^ 31) + 399 ≤ year) : checkedEra year = some (year / 400) := by
  have hfloor := era_eq_floor year
  rw [checkedEra]
  split_ifs at hfloor ⊢ with hsign
  · rw [Option.map_some, hfloor]
  · rw [i32_eq_some (by omega) (by omega), Option.map_some, hfloor]

theorem checkedYearOfEra_eq (hlow : -(2 ^ 31) + 399 ≤ year) (hhigh : year < 2 ^ 31) :
    checkedYearOfEra year (year / 400) = some (year - year / 400 * 400) := by
  rw [checkedYearOfEra, i32_eq_some (by omega) (by omega)]
  exact i32_eq_some (by omega) (by omega)

theorem checkedDayOfYear_eq {day : Nat} (hmonth : 1 ≤ month ∧ month ≤ 12)
    (hday : 1 ≤ day ∧ day ≤ 31) :
    checkedDayOfYear month day = some (monthOffset month + day - 1) := by
  have hshift : checkedShiftedMonth month = some (if month > 2 then month - 3 else month + 9) := by
    rw [checkedShiftedMonth]
    split_ifs
    · exact u32_eq_some (by omega) (by omega)
    · exact u32_eq_some (by omega) (by omega)
  have hmonths : (if month > 2 then month - 3 else month + 9) ≤ 11 := by
    split_ifs <;> omega
  rw [checkedDayOfYear, hshift, monthOffset]
  generalize (if month > 2 then month - 3 else month + 9) = m at *
  have hproduct : u32 (153 * m) = some (153 * m) := u32_eq_some (by push_cast; ring) (by omega)
  have hoffset : u32 ((153 * m : Nat) + 2) = some (153 * m + 2) :=
    u32_eq_some (by push_cast; ring) (by omega)
  have hafter : u32 (((153 * m + 2) / 5 + day : Nat)) = some ((153 * m + 2) / 5 + day) :=
    u32_eq_some rfl (by omega)
  rw [Option.bind_eq_bind, Option.bind_some, hproduct, Option.bind_some, hoffset, Option.bind_some,
    hafter, Option.bind_some]
  exact u32_eq_some (by omega) (by omega)

theorem checkedDayOfEra_eq {yearOfEra : Int} {dayOfYear : Nat}
    (hera : 0 ≤ yearOfEra ∧ yearOfEra < 400) (hday : dayOfYear < 400) :
    checkedDayOfEra yearOfEra dayOfYear =
      some (yearOfEra * 365 + yearOfEra.tdiv 4 - yearOfEra.tdiv 100 + dayOfYear) := by
  rw [checkedDayOfEra, Int.tdiv_eq_ediv_of_nonneg hera.1, Int.tdiv_eq_ediv_of_nonneg hera.1,
    i64_eq_some (by omega) (by omega)]
  simp only [Option.bind_eq_bind, Option.bind_some]
  rw [i64_eq_some (by omega) (by omega), Option.bind_some, i64_eq_some (by omega) (by omega),
    Option.bind_some, i64_eq_some (by omega) (by omega)]

theorem monthOffset_le (month : Nat) (h : 1 ≤ month ∧ month ≤ 12) : monthOffset month ≤ 337 := by
  rw [monthOffset]
  split_ifs <;> omega

theorem checkedDaysFromCivil_of_fits {day : Nat} (hhigh : year < 2 ^ 31)
    (hmonth : 1 ≤ month ∧ month ≤ 12) (hday : 1 ≤ day ∧ day ≤ 31)
    (hfits : -(2 ^ 31) + 399 ≤ civilYear year month) :
    checkedDaysFromCivil year month day = some (daysFromCivil year month day) := by
  obtain ⟨hcivil, hbound⟩ := checkedCivilYear_eq hhigh (le_trans (by decide) hfits)
  have hoffset := monthOffset_le month hmonth
  have hexact : daysFromCivil year month day =
      civilYear year month / 400 * 146097 +
        ((civilYear year month - civilYear year month / 400 * 400) * 365 +
          (civilYear year month - civilYear year month / 400 * 400).tdiv 4 -
          (civilYear year month - civilYear year month / 400 * 400).tdiv 100 +
          (monthOffset month + day - 1 : Nat)) - 719468 := by
    simp only [daysFromCivil, era_eq_floor]
    rfl
  rw [hexact, checkedDaysFromCivil, hcivil]
  generalize civilYear year month = y at *
  simp only [Option.bind_eq_bind, Option.bind_some, checkedEra_eq hfits,
    checkedYearOfEra_eq hfits hbound, checkedDayOfYear_eq hmonth hday]
  have hera : 0 ≤ y - y / 400 * 400 ∧ y - y / 400 * 400 < 400 := by omega
  rw [checkedDayOfEra_eq hera (by omega), Int.tdiv_eq_ediv_of_nonneg hera.1,
    Int.tdiv_eq_ediv_of_nonneg hera.1, Option.bind_some, i64_eq_some (by omega) (by omega),
    Option.bind_some, i64_eq_some (by omega) (by omega), Option.bind_some,
    i64_eq_some (by omega) (by omega)]

theorem checkedDaysFromCivil_overflows {day : Nat} (h : civilYear year month < -(2 ^ 31) + 399) :
    checkedDaysFromCivil year month day = none := by
  rw [checkedDaysFromCivil]
  rw [civilYear] at h
  cases hcivil : checkedCivilYear year month with
  | none => rfl
  | some y =>
    have hy : y < -(2 ^ 31) + 399 := by
      rw [checkedCivilYear] at hcivil
      split_ifs at hcivil h with hearly
      · rw [i32] at hcivil
        split_ifs at hcivil
        rw [← Option.some.inj hcivil]
        exact h
      · rw [← Option.some.inj hcivil]
        exact h
    have hera : checkedEra y = none := by
      rw [checkedEra, if_neg (by omega), i32, if_neg (by omega)]
      rfl
    rw [Option.bind_eq_bind, Option.bind_some, hera]
    rfl

end Intermediates

theorem civil_days_count_gregorian :
    daysFromCivil 1970 1 1 = 0 ∧
    (∀ d : Date, validYmd d.year d.month d.day = true →
      validYmd d.next.year d.next.month d.next.day = true ∧
        daysFromCivil d.next.year d.next.month d.next.day =
          daysFromCivil d.year d.month d.day + 1) ∧
    (∀ d e : Date, validYmd d.year d.month d.day = true → validYmd e.year e.month e.day = true →
      (daysFromCivil d.year d.month d.day < daysFromCivil e.year e.month e.day ↔ d.Before e)) ∧
    Function.Bijective (fun d : {d : Date // validYmd d.year d.month d.day = true} =>
      daysFromCivil d.1.year d.1.month d.1.day) ∧
    (∀ (year : Int) (month day : Nat), year < 2 ^ 31 → validYmd year month day = true →
      checkedDaysFromCivil year month day =
        if -(2 ^ 31) + 399 ≤ civilYear year month then some (daysFromCivil year month day)
        else none) ∧
    ∀ (year : Int) (month day : Nat), -(2 ^ 15) ≤ year → year < 2 ^ 15 →
      validYmd year month day = true →
      checkedDaysFromCivil year month day = some (daysFromCivil year month day) := by
  have hrange {year : Int} {month day : Nat} (h : validYmd year month day = true) :
      (1 ≤ month ∧ month ≤ 12) ∧ 1 ≤ day ∧ day ≤ 31 := by
    obtain ⟨hm1, hm2, hd1, hd2⟩ := valid_of_validYmd h
    refine ⟨⟨hm1, hm2⟩, hd1, hd2.trans ?_⟩
    unfold monthDays
    split_ifs <;> omega
  refine ⟨by decide, fun d hd => ?_, fun d e hd he => ?_, ⟨?_, ?_⟩, ?_, ?_⟩
  · have hvalid := valid_of_validYmd hd
    exact ⟨validYmd_of_valid hvalid.next, daysFromCivil_next hvalid⟩
  · exact daysFromCivil_lt_iff (valid_of_validYmd hd) (valid_of_validYmd he)
  · rintro ⟨d, hd⟩ ⟨e, he⟩ heq
    exact Subtype.ext (daysFromCivil_injective (valid_of_validYmd hd) (valid_of_validYmd he) heq)
  · intro n
    obtain ⟨d, hvalid, hn⟩ := daysFromCivil_surjective n
    exact ⟨⟨d, validYmd_of_valid hvalid⟩, hn⟩
  · intro year month day hhigh h
    split_ifs with hfits
    · exact checkedDaysFromCivil_of_fits hhigh (hrange h).1 (hrange h).2 hfits
    · exact checkedDaysFromCivil_overflows (lt_of_not_ge hfits)
  · intro year month day hlow hhigh h
    refine checkedDaysFromCivil_of_fits (by omega) (hrange h).1 (hrange h).2 ?_
    rw [civilYear]
    split_ifs <;> omega

theorem leap_day_counted :
    validYmd 2000 2 29 = true ∧ (⟨2000, 2, 29⟩ : Date).next = ⟨2000, 3, 1⟩ ∧
      daysFromCivil 2000 3 1 = daysFromCivil 2000 2 29 + 1 :=
  ⟨by decide, by decide, (civil_days_count_gregorian.2.1 ⟨2000, 2, 29⟩ (by decide)).2⟩

end MonetdbAdbc
