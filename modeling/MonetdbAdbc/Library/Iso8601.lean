import MonetdbAdbc.Library.Calendar
import MonetdbAdbc.Library.TextFields

namespace Iso8601
open LittleEndian AsciiNumber Calendar TextFields

section Numbers

def readExactly (width : Nat) (text : Bytes) : Option Nat :=
  if text.length = width then parseDigits text else none

def readAtLeast (width : Nat) (text : Bytes) : Option Nat :=
  if width ≤ text.length then parseDigits text else none

theorem readExactly_padded {width n : Nat} (hwidth : 0 < width) (h : n < 10 ^ width) :
    readExactly width (padded width n) = some n := by
  rw [readExactly, if_pos (padded_length hwidth h), parseDigits_padded]

theorem readAtLeast_padded (width n : Nat) : readAtLeast width (padded width n) = some n := by
  rw [readAtLeast, if_pos (le_padded_length width n), parseDigits_padded]

theorem cut_padded {width n : Nat} {separator : UInt8} (h : ¬IsDigit separator) (rest : Bytes) :
    cut separator (padded width n ++ separator :: rest) = some (padded width n, rest) :=
  cut_append (notMem_of_isDigit (padded_isDigit width n) h) rest

end Numbers

section Dates
variable {date : Date}

def yearText (year : Int) : Bytes :=
  if 0 ≤ year ∧ year ≤ 9999 then padded 4 year.toNat
  else (if year < 0 then 45 else 43) :: padded 4 year.natAbs

def dateText (date : Date) : Bytes :=
  yearText date.year ++ 45 :: padded 2 date.month ++ 45 :: padded 2 date.day

def makeDate (year : Int) (month day : Nat) : Option Date :=
  if 1 ≤ month ∧ month ≤ 12 ∧ 1 ≤ day ∧ day ≤ monthDays year month then some ⟨year, month, day⟩
  else none

def readFields (negative : Bool) (text : Bytes) : Option Date := do
  let (year, rest) ← cut 45 text
  let (month, day) ← cut 45 rest
  let year ← readAtLeast 4 year
  let month ← readExactly 2 month
  let day ← readExactly 2 day
  makeDate (if negative then -(year : Int) else year) month day

-- An optional minus sign, at least four digits, and two digits each for the month and the day.
def readDate (text : Bytes) : Option Date :=
  if text.head? = some 45 then readFields true text.tail else readFields false text

theorem makeDate_valid (h : date.Valid) : makeDate date.year date.month date.day = some date :=
  if_pos ⟨h.month_pos, h.month_le, h.day_pos, h.day_le⟩

theorem day_lt (h : date.Valid) : date.day < 10 ^ 2 := by
  have hle := h.day_le
  unfold monthDays at hle
  split_ifs at hle <;> omega

theorem month_lt (h : date.Valid) : date.month < 10 ^ 2 := by
  have hle := h.month_le
  omega

theorem padded_head_ne {width n : Nat} {b : UInt8} (h : ¬IsDigit b) (rest : Bytes) :
    (padded width n ++ rest).head? ≠ some b := by
  rw [List.head?_append_of_ne_nil _ (padded_ne_nil width n)]
  intro hhead
  exact h (padded_isDigit width n b (List.mem_of_mem_head? hhead))

theorem notDigit_dash : ¬IsDigit 45 := by
  unfold IsDigit
  decide

theorem yearText_eq {year : Int} (h : year ≤ 9999) :
    yearText year = withSign (year < 0) (padded 4 year.natAbs) := by
  by_cases hneg : year < 0
  · rw [yearText, if_neg (by omega), if_pos hneg, withSign, if_pos (by simpa using hneg)]
  · have hnat : year.toNat = year.natAbs := by omega
    rw [yearText, if_pos (by omega), withSign, if_neg (by simpa using hneg), hnat]

theorem readDate_withSign {negative : Bool} {text : Bytes} (h : text.head? ≠ some 45) :
    readDate (withSign negative text) = readFields negative text := by
  cases negative with
  | true => exact if_pos rfl
  | false => exact if_neg h

theorem readFields_cut {negative : Bool} {year : Bytes} {month day : Nat} (hyear : 45 ∉ year)
    (hmonth : month < 10 ^ 2) (hday : day < 10 ^ 2) :
    readFields negative (year ++ 45 :: (padded 2 month ++ 45 :: padded 2 day)) =
      (readAtLeast 4 year).bind fun year =>
        makeDate (if negative then -(year : Int) else year) month day := by
  simp only [readFields, cut_append hyear, cut_padded notDigit_dash, Option.bind_eq_bind,
    Option.bind_some, readExactly_padded two_pos hmonth, readExactly_padded two_pos hday]

theorem dateText_eq (date : Date) : dateText date =
    yearText date.year ++ 45 :: (padded 2 date.month ++ 45 :: padded 2 date.day) := by
  rw [dateText, List.append_assoc, List.cons_append]

theorem readDate_dateText (h : date.Valid) (hyear : date.year ≤ 9999) :
    readDate (dateText date) = some date := by
  have hsign : ∀ rest, withSign (date.year < 0) (padded 4 date.year.natAbs) ++ rest =
      withSign (date.year < 0) (padded 4 date.year.natAbs ++ rest) := by
    intro rest
    unfold withSign
    split_ifs <;> rfl
  have hvalue : (if decide (date.year < 0) then -(date.year.natAbs : Int) else date.year.natAbs) =
      date.year := by
    simp only [decide_eq_true_eq]
    split_ifs <;> omega
  have hdash := notMem_of_isDigit (padded_isDigit 4 date.year.natAbs) notDigit_dash
  rw [dateText_eq, yearText_eq hyear, hsign, readDate_withSign (padded_head_ne notDigit_dash _),
    readFields_cut hdash (month_lt h) (day_lt h), readAtLeast_padded, Option.bind_some, hvalue]
  exact makeDate_valid h

-- Past the year 9999 the text begins with a plus sign, which is no digit.
theorem readDate_expanded (h : date.Valid) (hyear : 9999 < date.year) :
    readDate (dateText date) = none := by
  have hdash : 45 ∉ 43 :: padded 4 date.year.natAbs := by
    have hdigits := notMem_of_isDigit (padded_isDigit 4 date.year.natAbs) notDigit_dash
    simpa using hdigits
  have hplus : readAtLeast 4 (43 :: padded 4 date.year.natAbs) = none := by
    rw [readAtLeast]
    split_ifs
    · rw [parseDigits, if_neg (List.cons_ne_nil _ _), digitsFrom, if_neg (by decide)]
    · rfl
  have hhead : ∀ rest : Bytes, (43 :: padded 4 date.year.natAbs ++ rest).head? ≠ some 45 :=
    fun rest => by simp
  rw [dateText_eq, yearText, if_neg (by omega), if_neg (by omega), readDate, if_neg (hhead _),
    readFields_cut hdash (month_lt h) (day_lt h), hplus]
  rfl

end Dates

section Clocks

-- Two digits each for the hour, the minute and the second, and a fraction of six digits.
def readClock (text : Bytes) : Option Nat := do
  let (hour, rest) ← cut 58 text
  let (minute, rest) ← cut 58 rest
  let (second, fraction) ← cut 46 rest
  let hour ← readExactly 2 hour
  let minute ← readExactly 2 minute
  let second ← readExactly 2 second
  let fraction ← readExactly 6 fraction
  if hour < 24 ∧ minute < 60 ∧ second < 60 then
    some (((hour * 60 + minute) * 60 + second) * 1000000 + fraction)
  else none

def clockText (micros : Nat) : Bytes :=
  padded 2 (micros / 1000000 / 3600) ++ 58 :: padded 2 (micros / 1000000 / 60 % 60) ++ 58 ::
    padded 2 (micros / 1000000 % 60) ++ 46 :: padded 6 (micros % 1000000)

theorem notDigit_colon : ¬IsDigit 58 := by
  unfold IsDigit
  decide

theorem notDigit_point : ¬IsDigit 46 := by
  unfold IsDigit
  decide

theorem readClock_clockText {micros : Nat} (h : micros < 86400000000) :
    readClock (clockText micros) = some micros := by
  have hsum : ((micros / 1000000 / 3600 * 60 + micros / 1000000 / 60 % 60) * 60 +
      micros / 1000000 % 60) * 1000000 + micros % 1000000 = micros := by omega
  rw [clockText]
  simp only [List.append_assoc, List.cons_append, readClock, cut_padded notDigit_colon,
    cut_padded notDigit_point, Option.bind_eq_bind, Option.bind_some]
  rw [readExactly_padded (by decide) (by omega), readExactly_padded (by decide) (by omega),
    readExactly_padded (by decide) (by omega), readExactly_padded (by decide) (by omega)]
  simp only [Option.bind_some]
  rw [if_pos (by omega), hsum]

end Clocks

end Iso8601
