import Mathlib.Tactic

namespace Calendar

structure Date where
  year : Int
  month : Nat
  day : Nat
  deriving DecidableEq, Repr

def isLeap (year : Int) : Bool := (year % 4 = 0 ∧ year % 100 ≠ 0) ∨ year % 400 = 0

def monthDays (year : Int) (month : Nat) : Nat :=
  if month = 2 then (if isLeap year then 29 else 28)
  else if month = 4 ∨ month = 6 ∨ month = 9 ∨ month = 11 then 30
  else 31

structure Date.Valid (d : Date) : Prop where
  month_pos : 1 ≤ d.month
  month_le : d.month ≤ 12
  day_pos : 1 ≤ d.day
  day_le : d.day ≤ monthDays d.year d.month

def epoch : Date := ⟨1970, 1, 1⟩

theorem epoch_valid : epoch.Valid :=
  ⟨by decide, by decide, by decide, by decide⟩

def Date.next (d : Date) : Date :=
  if d.day < monthDays d.year d.month then { d with day := d.day + 1 }
  else if d.month < 12 then ⟨d.year, d.month + 1, 1⟩
  else ⟨d.year + 1, 1, 1⟩

theorem one_le_monthDays (year : Int) (month : Nat) : 1 ≤ monthDays year month := by
  unfold monthDays
  split_ifs <;> omega

variable {d : Date}

theorem Date.Valid.next (h : d.Valid) : d.next.Valid := by
  unfold Date.next
  split_ifs with hday hmonth
  · exact ⟨h.month_pos, h.month_le, by simp, hday⟩
  · exact ⟨by simp, hmonth, le_refl 1, one_le_monthDays _ _⟩
  · exact ⟨le_refl 1, by simp, le_refl 1, one_le_monthDays _ _⟩

def Date.prev (d : Date) : Date :=
  if 1 < d.day then { d with day := d.day - 1 }
  else if 1 < d.month then ⟨d.year, d.month - 1, monthDays d.year (d.month - 1)⟩
  else ⟨d.year - 1, 12, 31⟩

theorem Date.Valid.prev (h : d.Valid) : d.prev.Valid := by
  obtain ⟨hm1, hm2, hd1, hd2⟩ := h
  unfold Date.prev
  split_ifs with hday hmonth
  · exact ⟨hm1, hm2, by simp; omega, by simp; omega⟩
  · exact ⟨by simp; omega, by simp; omega, one_le_monthDays _ _, le_refl _⟩
  · exact ⟨by simp, le_refl 12, by simp, le_refl 31⟩

theorem Date.Valid.next_prev (h : d.Valid) : d.prev.next = d := by
  obtain ⟨year, month, day⟩ := d
  obtain ⟨hm1, hm2, hd1, hd2⟩ := h
  simp only at hm1 hm2 hd1 hd2
  unfold Date.prev
  split_ifs with hday hmonth
  · simp only at hday
    have hlt : day - 1 < monthDays year month := by omega
    simp [Date.next, hlt, Nat.sub_add_cancel hd1]
  · simp only at hday hmonth
    have hlt : month - 1 < 12 := by omega
    simp [Date.next, hlt, Nat.sub_add_cancel hm1]
    omega
  · simp only at hday hmonth
    have hdec : monthDays (year - 1) 12 = 31 := rfl
    simp [Date.next, hdec]
    omega

theorem Date.Valid.prev_next (h : d.Valid) : d.next.prev = d := by
  obtain ⟨year, month, day⟩ := d
  obtain ⟨hm1, hm2, hd1, hd2⟩ := h
  simp only at hm1 hm2 hd1 hd2
  unfold Date.next
  split_ifs with hday hmonth
  · simp only at hday
    have hlt : 1 < day + 1 := by omega
    simp [Date.prev, hlt]
  · simp only at hday hmonth
    have hlt : 1 < month + 1 := by omega
    simp [Date.prev, hlt]
    omega
  · simp only at hday hmonth
    obtain rfl : month = 12 := by omega
    have hdec : monthDays year 12 = 31 := rfl
    rw [hdec] at hday hd2
    simp [Date.prev]
    omega

def Date.Before (d e : Date) : Prop :=
  d.year < e.year ∨ d.year = e.year ∧ (d.month < e.month ∨ d.month = e.month ∧ d.day < e.day)

theorem Date.Before.trans {e f : Date} (hde : d.Before e) (hef : e.Before f) : d.Before f := by
  unfold Date.Before at *
  omega

theorem Date.Before.asymm {e : Date} (hde : d.Before e) : ¬e.Before d := by
  unfold Date.Before at *
  omega

theorem Date.before_next (d : Date) : d.Before d.next := by
  unfold Date.next Date.Before
  split_ifs <;> simp

structure Proleptic (date : Int → Option Date) : Prop where
  epoch : date 0 = some epoch
  valid : ∀ {n x}, date n = some x → x.Valid
  next : ∀ {n x y}, date n = some x → date (n + 1) = some y → y = x.next
  interval : ∀ {a b c x z}, date a = some x → date c = some z → a ≤ b → b ≤ c →
    ∃ y, date b = some y

section
variable {date : Int → Option Date} {number : Date → Int}

theorem Proleptic.number_forward (hd : Proleptic date) (h0 : number Calendar.epoch = 0)
    (hs : ∀ x : Date, x.Valid → number x.next = number x + 1) (n : Nat) :
    ∀ {x}, date n = some x → number x = n := by
  induction n with
  | zero =>
    intro x hx
    have he : x = Calendar.epoch := Option.some.inj (hx.symm.trans hd.epoch)
    simpa [he] using h0
  | succ n ih =>
    intro y hy
    obtain ⟨x, hx⟩ := hd.interval (b := (n : Int)) hd.epoch hy (by omega) (by omega)
    have hnext : y = x.next := hd.next hx (by simpa using hy)
    rw [hnext, hs x (hd.valid hx), ih hx]
    simp

theorem Proleptic.number_backward (hd : Proleptic date) (h0 : number Calendar.epoch = 0)
    (hs : ∀ x : Date, x.Valid → number x.next = number x + 1) (n : Nat) :
    ∀ {x}, date (-(n : Int)) = some x → number x = -(n : Int) := by
  induction n with
  | zero =>
    intro x hx
    exact hd.number_forward h0 hs 0 (by simpa using hx)
  | succ n ih =>
    intro x hx
    obtain ⟨y, hy⟩ := hd.interval (b := -(n : Int)) hx hd.epoch (by omega) (by omega)
    have hpred : -((n + 1 : Nat) : Int) + 1 = -(n : Int) := by omega
    have hnext : y = x.next := hd.next hx (by rw [hpred]; exact hy)
    have hnumber := hs x (hd.valid hx)
    rw [← hnext, ih hy] at hnumber
    omega

theorem Proleptic.number_eq (hd : Proleptic date) (number : Date → Int) (h0 : number Calendar.epoch = 0)
    (hs : ∀ x : Date, x.Valid → number x.next = number x + 1) {n : Int} {x : Date}
    (hx : date n = some x) : number x = n := by
  rcases Int.eq_nat_or_neg n with ⟨k, rfl | rfl⟩
  · exact hd.number_forward h0 hs k hx
  · exact hd.number_backward h0 hs k hx

end

section Order
variable {number : Date → Int} (hs : ∀ x : Date, x.Valid → number x.next = number x + 1)
include hs

theorem number_iterate {d : Date} (h : d.Valid) (k : Nat) :
    number (Date.next^[k] d) = number d + k ∧ (Date.next^[k] d).Valid := by
  induction k with
  | zero => simpa using h
  | succ k ih =>
    rw [Function.iterate_succ_apply', hs _ ih.2, ih.1]
    exact ⟨by push_cast; ring, ih.2.next⟩

omit hs in
theorem before_iterate (d : Date) (k : Nat) : d.Before (Date.next^[k + 1] d) := by
  induction k with
  | zero => exact d.before_next
  | succ k ih =>
    rw [Function.iterate_succ_apply']
    exact ih.trans (Date.before_next _)

theorem number_lt_iff (hinj : ∀ d e : Date, d.Valid → e.Valid → number d = number e → d = e)
    {d e : Date} (hd : d.Valid) (he : e.Valid) : number d < number e ↔ d.Before e := by
  have hbefore {d e : Date} (hd : d.Valid) (he : e.Valid) (hlt : number d < number e) :
      d.Before e := by
    obtain ⟨k, hk⟩ : ∃ k : Nat, number e = number d + (k + 1 : Nat) :=
      ⟨(number e - number d - 1).toNat, by omega⟩
    obtain ⟨hnumber, hvalid⟩ := number_iterate hs hd (k + 1)
    rw [← hinj _ _ hvalid he (hnumber.trans hk.symm)]
    exact before_iterate d k
  refine ⟨hbefore hd he, fun h => ?_⟩
  by_contra hge
  rcases lt_or_eq_of_le (not_lt.mp hge) with hlt | heq
  · exact h.asymm (hbefore he hd hlt)
  · rw [hinj e d he hd heq] at h
    exact h.asymm h

end Order

def HasYears (date : Int → Option Date) (first last : Int) : Prop :=
  ∀ d : Date, d.Valid → first ≤ d.year → d.year ≤ last → ∃ n, date n = some d

def allDates (n : Int) : Option Date :=
  some (if 0 ≤ n then Date.next^[n.toNat] epoch else Date.prev^[(-n).toNat] epoch)

theorem iterate_valid {step : Date → Date} (hstep : ∀ d : Date, d.Valid → (step d).Valid) (k : Nat) :
    (step^[k] epoch).Valid := by
  induction k with
  | zero => exact epoch_valid
  | succ k ih =>
    rw [Function.iterate_succ_apply']
    exact hstep _ ih

theorem allDates_valid {n : Int} {x : Date} (h : allDates n = some x) : x.Valid := by
  rw [← Option.some.inj h]
  split_ifs
  · exact iterate_valid (fun _ => Date.Valid.next) _
  · exact iterate_valid (fun _ => Date.Valid.prev) _

theorem allDates_next {n : Int} {x : Date} (h : allDates n = some x) :
    allDates (n + 1) = some x.next := by
  rw [← Option.some.inj h, allDates]
  by_cases hn : 0 ≤ n
  · have hsucc : (n + 1).toNat = n.toNat + 1 := by omega
    rw [if_pos hn, if_pos (by omega), hsucc, Function.iterate_succ_apply']
  · obtain ⟨k, hk⟩ : ∃ k : Nat, (-n).toNat = k + 1 := ⟨(-n).toNat - 1, by omega⟩
    have hnext : (if 0 ≤ n + 1 then Date.next^[(n + 1).toNat] epoch
        else Date.prev^[(-(n + 1)).toNat] epoch) = Date.prev^[k] epoch := by
      split_ifs with hzero
      · have hzero : (n + 1).toNat = 0 ∧ k = 0 := by omega
        rw [hzero.1, hzero.2]
        rfl
      · have hpred : (-(n + 1)).toNat = k := by omega
        rw [hpred]
    have hvalid : (Date.prev^[k] epoch).Valid := iterate_valid (fun _ => Date.Valid.prev) k
    rw [hnext, if_neg hn, hk, Function.iterate_succ_apply', hvalid.next_prev]

theorem allDates_proleptic : Proleptic allDates where
  epoch := rfl
  valid := allDates_valid
  next := by
    intro n x y hx hy
    exact Option.some.inj (hy.symm.trans (allDates_next hx))
  interval := fun _ _ _ _ => ⟨_, rfl⟩

def datesFromEpoch (n : Int) : Option Date :=
  if 0 ≤ n then some (Date.next^[n.toNat] epoch) else none

theorem datesFromEpoch_proleptic : Proleptic datesFromEpoch where
  epoch := rfl
  valid := by
    intro n x hx
    unfold datesFromEpoch at hx
    split_ifs at hx
    cases hx
    exact iterate_valid (fun _ => Date.Valid.next) _
  next := by
    intro n x y hx hy
    unfold datesFromEpoch at hx hy
    split_ifs at hx with hn
    rw [if_pos (by omega)] at hy
    have hsucc : (n + 1).toNat = n.toNat + 1 := by omega
    rw [hsucc, Function.iterate_succ_apply'] at hy
    simp_all
  interval := by
    intro a b c x z ha _ hab _
    unfold datesFromEpoch at ha ⊢
    split_ifs at ha with hn
    exact ⟨_, if_pos (by omega)⟩

end Calendar
