import MonetdbAdbc.Codec.FixedWidth

namespace MonetdbAdbc
open LittleEndian Calendar Machine Rows

structure RawDate where
  day : UInt8
  month : UInt8
  year : BitVec 16
  deriving DecidableEq, Repr

structure RawTime where
  microseconds : BitVec 32
  seconds : UInt8
  minutes : UInt8
  hours : UInt8
  deriving DecidableEq, Repr

structure NaiveTime where
  hour : Nat
  minute : Nat
  second : Nat
  nanosecond : Nat
  deriving DecidableEq, Repr

structure NaiveDateTime where
  date : Date
  time : NaiveTime
  deriving DecidableEq, Repr

structure Chrono where
  fromYmdOpt : Int → Nat → Nat → Option Date
  fromHmsMicroOpt : Nat → Nat → Nat → Nat → Option NaiveTime
  eastOpt : Int → Option Int
  naiveUtc : Int → NaiveDateTime → Option NaiveDateTime

def appendTimeWire (value : RawTime) : Bytes :=
  leBytes value.microseconds ++ [value.seconds, value.minutes, value.hours, 0]

def appendDateWire (value : RawDate) : Bytes := [value.day, value.month] ++ leBytes value.year

def appendTimestampWire (date : RawDate) (time : RawTime) : Bytes :=
  appendTimeWire time ++ appendDateWire date

def rawTimeFromNaive (value : NaiveTime) : RawTime :=
  ⟨BitVec.ofNat 32 (value.nanosecond / 1000), UInt8.ofNat value.second, UInt8.ofNat value.minute,
    UInt8.ofNat value.hour⟩

def yearDoesNotFit : DecodeError :=
  .invalidValue 0 "timestamp year does not fit MonetDB's wire format"

def rawDateFromNaive (value : Date) : Except DecodeError RawDate :=
  if -(2 ^ 15) ≤ value.year ∧ value.year < 2 ^ 15 then
    .ok ⟨UInt8.ofNat value.day, UInt8.ofNat value.month, BitVec.ofInt 16 value.year⟩
  else .error yearDoesNotFit

section Normalize
variable (chrono : Chrono)

def naiveDate (value : RawDate) (row : Nat) : Except DecodeError Date :=
  okOr (.invalidValue row "invalid Gregorian date")
    (chrono.fromYmdOpt value.year.toInt value.month.toNat value.day.toNat)

def naiveTime (value : RawTime) (row : Nat) : Except DecodeError NaiveTime :=
  okOr (.invalidValue row "invalid time of day")
    (chrono.fromHmsMicroOpt value.hours.toNat value.minutes.toNat value.seconds.toNat
      value.microseconds.toNat)

def fixedOffset (secondsEast : Int) : Except DecodeError Int :=
  okOr (.invalidValue 0 "invalid UTC offset") (chrono.eastOpt secondsEast)

def normalizeTime (value : RawTime) (secondsEast : Int) : Except DecodeError RawTime := do
  let date ← okOr (.invalidValue 0 "could not construct reference date") (chrono.fromYmdOpt 2000 1 2)
  let time ← naiveTime chrono value 0
  let offset ← fixedOffset chrono secondsEast
  let utc ← okOr (.invalidValue 0 "invalid time zone conversion") (chrono.naiveUtc offset ⟨date, time⟩)
  .ok (rawTimeFromNaive utc.time)

def normalizeTimestamp (date : RawDate) (time : RawTime) (secondsEast : Int) :
    Except DecodeError (RawDate × RawTime) := do
  let date ← naiveDate chrono date 0
  let time ← naiveTime chrono time 0
  let offset ← fixedOffset chrono secondsEast
  let utc ← okOr (.invalidValue 0 "invalid timestamp time zone conversion")
    (chrono.naiveUtc offset ⟨date, time⟩)
  let date ← rawDateFromNaive utc.date
  .ok (date, rawTimeFromNaive utc.time)

end Normalize

section Exact

def NaiveTime.Valid (time : NaiveTime) : Prop :=
  time.hour < 24 ∧ time.minute < 60 ∧ time.second < 60 ∧ time.nanosecond < 1000000000

def NaiveTime.secondsOfDay (time : NaiveTime) : Nat :=
  (time.hour * 60 + time.minute) * 60 + time.second

def NaiveTime.ofSeconds (seconds nanosecond : Nat) : NaiveTime :=
  ⟨seconds / 3600, seconds / 60 % 60, seconds % 60, nanosecond⟩

def exactUtc (offset : Int) (local_ : NaiveDateTime) : NaiveDateTime :=
  let total := (local_.time.secondsOfDay : Int) - offset
  ⟨if total < 0 then local_.date.prev else if 86400 ≤ total then local_.date.next else local_.date,
    .ofSeconds (total % 86400).toNat local_.time.nanosecond⟩

-- What chrono documents of dates with 16-bit years and of offsets within one day.
structure Chrono.Exact (chrono : Chrono) : Prop where
  fromYmd : ∀ d : Date, d.Valid → -(2 ^ 15) ≤ d.year → d.year < 2 ^ 15 →
    chrono.fromYmdOpt d.year d.month d.day = some d
  fromHms : ∀ hour minute second micro, hour < 24 → minute < 60 → second < 60 → micro < 1000000 →
    chrono.fromHmsMicroOpt hour minute second micro = some ⟨hour, minute, second, micro * 1000⟩
  east : ∀ offset, -86400 < offset → offset < 86400 → chrono.eastOpt offset = some offset
  utc : ∀ offset local_, -86400 < offset → offset < 86400 → local_.date.Valid →
    -(2 ^ 15) ≤ local_.date.year → local_.date.year < 2 ^ 15 → local_.time.Valid →
    chrono.naiveUtc offset local_ = some (exactUtc offset local_)

theorem ofSeconds_valid {seconds nanosecond : Nat} (hseconds : seconds < 86400)
    (hnano : nanosecond < 1000000000) :
    (NaiveTime.ofSeconds seconds nanosecond).Valid ∧
      (NaiveTime.ofSeconds seconds nanosecond).secondsOfDay = seconds := by
  simp only [NaiveTime.ofSeconds, NaiveTime.Valid, NaiveTime.secondsOfDay]
  omega

theorem daysFromCivil_prev {d : Date} (h : d.Valid) :
    daysFromCivil d.prev.year d.prev.month d.prev.day = daysFromCivil d.year d.month d.day - 1 := by
  have hnext := daysFromCivil_next h.prev
  rw [h.next_prev] at hnext
  omega

theorem exactUtc_instant {offset : Int} {local_ : NaiveDateTime} (hlow : -86400 < offset)
    (hhigh : offset < 86400) (hdate : local_.date.Valid) (htime : local_.time.Valid) :
    (exactUtc offset local_).date.Valid ∧ (exactUtc offset local_).time.Valid ∧
      (exactUtc offset local_).time.nanosecond = local_.time.nanosecond ∧
      daysFromCivil (exactUtc offset local_).date.year (exactUtc offset local_).date.month
          (exactUtc offset local_).date.day * 86400 +
        (exactUtc offset local_).time.secondsOfDay =
      daysFromCivil local_.date.year local_.date.month local_.date.day * 86400 +
        local_.time.secondsOfDay - offset := by
  have hseconds : local_.time.secondsOfDay < 86400 := by
    obtain ⟨hhour, hminute, hsecond, -⟩ := htime
    rw [NaiveTime.secondsOfDay]
    omega
  obtain ⟨hvalid, hsum⟩ := @ofSeconds_valid
    (((local_.time.secondsOfDay : Int) - offset) % 86400).toNat local_.time.nanosecond
    (by omega) htime.2.2.2
  simp only [exactUtc]
  refine ⟨?_, hvalid, rfl, ?_⟩
  · split_ifs
    · exact hdate.prev
    · exact hdate.next
    · exact hdate
  · rw [hsum]
    split_ifs
    · rw [daysFromCivil_prev hdate]
      omega
    · rw [daysFromCivil_next hdate]
      omega
    · omega

end Exact

section Wire
variable {value time : RawTime} {date : RawDate}

def RawDate.civil (value : RawDate) : Date :=
  ⟨value.year.toInt, value.month.toNat, value.day.toNat⟩

def RawDate.days (value : RawDate) : Int :=
  daysFromCivil value.year.toInt value.month.toNat value.day.toNat

def RawTime.Valid (value : RawTime) : Prop :=
  value.microseconds.toNat ≤ 999999 ∧ value.seconds.toNat < 60 ∧ value.minutes.toNat < 60 ∧
    value.hours.toNat < 24

def RawTime.micros (value : RawTime) : Nat :=
  ((value.hours.toNat * 60 + value.minutes.toNat) * 60 + value.seconds.toNat) * 1000000 +
    value.microseconds.toNat

def localMicros (date : RawDate) (time : RawTime) : Int := date.days * 86400000000 + time.micros

def Date.FitsWire (d : Date) : Prop := -(2 ^ 15) ≤ d.year ∧ d.year < 2 ^ 15

theorem RawDate.civil_fitsWire (value : RawDate) : Date.FitsWire value.civil := by
  have hlow := BitVec.le_toInt value.year
  have hhigh := @BitVec.toInt_lt 16 value.year
  exact ⟨by simpa [RawDate.civil] using hlow, by simpa [RawDate.civil] using hhigh⟩

theorem daysFromCivil_fitsWire {d : Date} (h : d.Valid) (hfit : Date.FitsWire d) :
    -13000000 ≤ daysFromCivil d.year d.month d.day ∧
      daysFromCivil d.year d.month d.day ≤ 12000000 := by
  obtain ⟨hlow, hhigh⟩ := hfit
  have hday := Date.Valid.day_le_31 h
  have hm := h.month_le
  have hoffset : monthOffset d.month ≤ 400 := by
    unfold monthOffset
    split_ifs <;> omega
  rw [daysFromCivil_eq h.day_pos]
  unfold civilYear
  split_ifs <;> omega

theorem dateValue_appendDateWire {value : RawDate} (h : value.civil.Valid) (row : Nat) :
    dateValue row (appendDateWire value) = .ok (some value.days) := by
  have hrange := daysFromCivil_fitsWire h value.civil_fitsWire
  have hmonth := h.month_le
  have hvalid := validYmd_of_valid h
  simp only [RawDate.civil] at hrange hmonth hvalid
  have hsentinel : value.month ≠ 0xff := by
    intro heq
    rw [heq] at hmonth
    exact absurd hmonth (by decide)
  have hyear := @ofLeBytes_leBytes 16 (by decide) value.year
  rw [appendDateWire, leBytes_16] at *
  simp only [List.cons_append, List.nil_append, dateValue, if_neg hsentinel, hyear, hvalid,
    Bool.not_true, Bool.false_eq_true, if_false]
  rw [if_pos (by omega)]
  rfl

theorem appendTimeWire_length (value : RawTime) : (appendTimeWire value).length = 8 := by
  simp [appendTimeWire, leBytes_length]

theorem appendTimestampWire_length (date : RawDate) (time : RawTime) :
    (appendTimestampWire date time).length = 12 := by
  simp [appendTimestampWire, appendDateWire, appendTimeWire_length, leBytes_length]

theorem timeValue_appendTimeWire (h : value.Valid) (row : Nat) :
    timeValue row (appendTimeWire value) = .ok (some (value.micros : Int)) := by
  obtain ⟨hmicros, hseconds, hminutes, hhours⟩ := h
  have hfraction := @ofLeBytes_leBytes 32 (by decide) value.microseconds
  rw [appendTimeWire, leBytes_32] at *
  simp only [List.cons_append, List.nil_append, timeValue, hfraction]
  rw [if_neg (by omega), if_neg]
  · rfl
  · simp only [ge_iff_le, UInt8.le_iff_toNat_le, UInt8.reduceToNat]
    omega

theorem timestampValue_appendTimestampWire (hdate : date.civil.Valid) (htime : time.Valid)
    (row : Nat) :
    timestampValue row (appendTimestampWire date time) = .ok (some (localMicros date time)) := by
  have hlen := appendTimeWire_length time
  simp only [timestampValue, appendTimestampWire, List.take_left' hlen, List.drop_left' hlen,
    timeValue_appendTimeWire htime, dateValue_appendDateWire hdate]
  rfl

def seenMicros (slot : Slot 64) : Option Int := slot.get.map BitVec.toInt

theorem seenMicros_slotOf {value : Int} (hlow : -(2 ^ 63) ≤ value) (hhigh : value < 2 ^ 63) :
    seenMicros (slotOf 64 (some value)) = some value := by
  have hint : (BitVec.ofInt 64 value).toInt = value := by
    rw [BitVec.toInt_ofInt]
    apply Int.bmod_eq_of_le <;> omega
  simp [seenMicros, slotOf, Slot.get, hint]

theorem decode_chunk {β : Type} {width : Nat} (hw : 0 < width) (hfit : width ≤ isizeMax)
    (g : Nat → Bytes → Except DecodeError β) {bytes : Bytes} (hlen : bytes.length = width) :
    (expectFixed bytes 1 width >>= fun _ => mapRows g (chunksExact width bytes)) =
      (g 0 bytes).map ([·]) := by
  rw [expectFixed_ok (by omega) (by omega), chunksExact, hlen, Nat.div_self hw]
  have htake : takeChunks width 1 bytes = [bytes] := by
    simp [takeChunks, List.take_of_length_le hlen.le]
  simp only [htake, ok_bind, mapRows, mapFrom]
  cases g 0 bytes <;> rfl

theorem decode_one (w : Nat) {width : Nat} (hw : 0 < width) (hfit : width ≤ isizeMax)
    (g : Nat → Bytes → Except DecodeError (Option Int)) {bytes : Bytes} {value : Int}
    (hlen : bytes.length = width) (hvalue : g 0 bytes = .ok (some value)) :
    (expectFixed bytes 1 width >>= fun _ =>
      mapRows (fun row chunk => (g row chunk).map (slotOf w)) (chunksExact width bytes)) =
      .ok [slotOf w (some value)] := by
  rw [decode_chunk hw hfit (fun row chunk => (g row chunk).map (slotOf w)) hlen, hvalue]
  rfl

theorem RawTime.micros_lt (h : value.Valid) : value.micros < 86400000000 := by
  obtain ⟨hmicros, hseconds, hminutes, hhours⟩ := h
  rw [RawTime.micros]
  omega

theorem decodeTime_appendTimeWire (h : value.Valid) :
    (decodeTime (appendTimeWire value) 1).map (List.map seenMicros) =
      .ok [some (value.micros : Int)] := by
  have hlt := RawTime.micros_lt h
  have hone := decode_one 64 (by decide) (by decide) timeValue (appendTimeWire_length value)
    (timeValue_appendTimeWire h 0)
  rw [decodeTime, hone, Except.map, List.map_singleton, seenMicros_slotOf (by omega) (by omega)]

theorem localMicros_bounds (hdate : date.civil.Valid) (htime : time.Valid) :
    -(2 ^ 63) ≤ localMicros date time ∧ localMicros date time < 2 ^ 63 := by
  have hlt := RawTime.micros_lt htime
  have hdays := daysFromCivil_fitsWire hdate date.civil_fitsWire
  rw [show daysFromCivil date.civil.year date.civil.month date.civil.day = date.days from rfl] at hdays
  rw [localMicros]
  omega

theorem decodeTimestamp_appendTimestampWire (hdate : date.civil.Valid) (htime : time.Valid) :
    (decodeTimestamp (appendTimestampWire date time) 1).map (List.map seenMicros) =
      .ok [some (localMicros date time)] := by
  obtain ⟨hlow, hhigh⟩ := localMicros_bounds hdate htime
  have hone := decode_one 64 (by decide) (by decide) timestampValue
    (appendTimestampWire_length date time) (timestampValue_appendTimestampWire hdate htime 0)
  rw [decodeTimestamp, hone, Except.map, List.map_singleton, seenMicros_slotOf hlow hhigh]

end Wire

section Conversion
variable {chrono : Chrono} {time : RawTime} {secondsEast : Int} {date : RawDate}

def RawTime.naive (value : RawTime) : NaiveTime :=
  ⟨value.hours.toNat, value.minutes.toNat, value.seconds.toNat, value.microseconds.toNat * 1000⟩

theorem RawTime.Valid.naive {value : RawTime} (h : value.Valid) : value.naive.Valid := by
  obtain ⟨hmicros, hseconds, hminutes, hhours⟩ := h
  exact ⟨hhours, hminutes, hseconds, by simp only [RawTime.naive]; omega⟩

theorem naiveTime_ok (hc : chrono.Exact) {value : RawTime} (h : value.Valid) (row : Nat) :
    naiveTime chrono value row = .ok value.naive := by
  obtain ⟨hmicros, hseconds, hminutes, hhours⟩ := h
  rw [naiveTime, hc.fromHms _ _ _ _ hhours hminutes hseconds (by omega)]
  rfl

theorem naiveDate_ok (hc : chrono.Exact) {value : RawDate} (h : value.civil.Valid) (row : Nat) :
    naiveDate chrono value row = .ok value.civil := by
  have hymd := hc.fromYmd value.civil h value.civil_fitsWire.1 value.civil_fitsWire.2
  simp only [RawDate.civil] at hymd
  rw [naiveDate, hymd]
  rfl

theorem rawTimeFromNaive_micros {value : NaiveTime} {micros : Nat} (h : value.Valid)
    (hnano : value.nanosecond = micros * 1000) :
    (rawTimeFromNaive value).Valid ∧
      (rawTimeFromNaive value).micros = value.secondsOfDay * 1000000 + micros := by
  obtain ⟨hhour, hminute, hsecond, hlt⟩ := h
  have hbyte : ∀ k : Nat, k < 60 → (UInt8.ofNat k).toNat = k := by
    intro k hk
    rw [UInt8.toNat_ofNat']
    omega
  have hmicros : (BitVec.ofNat 32 (value.nanosecond / 1000)).toNat = micros := by
    rw [BitVec.toNat_ofNat]
    omega
  simp only [RawTime.Valid, RawTime.micros, rawTimeFromNaive, NaiveTime.secondsOfDay, hmicros,
    hbyte _ hminute, hbyte _ hsecond, hbyte _ (show value.hour < 60 by omega)]
  exact ⟨⟨by omega, hsecond, hminute, hhour⟩, trivial⟩

theorem rawDateFromNaive_ok {d : Date} (h : d.Valid) (hfit : Date.FitsWire d) :
    ∃ value, rawDateFromNaive d = .ok value ∧ value.civil = d := by
  obtain ⟨hlow, hhigh⟩ := hfit
  have hday := Date.Valid.day_le_31 h
  have hmonth := h.month_le
  refine ⟨_, if_pos ⟨hlow, hhigh⟩, ?_⟩
  have hyear : (BitVec.ofInt 16 d.year).toInt = d.year := by
    rw [BitVec.toInt_ofInt]
    apply Int.bmod_eq_of_le <;> omega
  have hdayNat : (UInt8.ofNat d.day).toNat = d.day := by
    rw [UInt8.toNat_ofNat']
    omega
  have hmonthNat : (UInt8.ofNat d.month).toNat = d.month := by
    rw [UInt8.toNat_ofNat']
    omega
  simp only [RawDate.civil, hyear, hdayNat, hmonthNat]

theorem rawDateFromNaive_error {d : Date} (hfit : ¬Date.FitsWire d) :
    rawDateFromNaive d = .error yearDoesNotFit :=
  if_neg hfit

-- The carry of the offset into the date is one equation of microseconds; the date and the time of
-- the instant are then its quotient and remainder.
theorem utc_micros {d : Date} (hdate : d.Valid) (htime : time.Valid) (hlow : -86400 < secondsEast)
    (hhigh : secondsEast < 86400) :
    (exactUtc secondsEast ⟨d, time.naive⟩).date.Valid ∧
      (rawTimeFromNaive (exactUtc secondsEast ⟨d, time.naive⟩).time).Valid ∧
      daysFromCivil (exactUtc secondsEast ⟨d, time.naive⟩).date.year
          (exactUtc secondsEast ⟨d, time.naive⟩).date.month
          (exactUtc secondsEast ⟨d, time.naive⟩).date.day * 86400000000 +
        (rawTimeFromNaive (exactUtc secondsEast ⟨d, time.naive⟩).time).micros =
      daysFromCivil d.year d.month d.day * 86400000000 + time.micros - secondsEast * 1000000 := by
  obtain ⟨hvalid, hutcTime, hnano, hinstant⟩ :=
    @exactUtc_instant secondsEast ⟨d, time.naive⟩ hlow hhigh hdate htime.naive
  obtain ⟨hraw, hmicros⟩ := rawTimeFromNaive_micros hutcTime hnano
  have hlocal : time.micros = time.naive.secondsOfDay * 1000000 + time.microseconds.toNat := rfl
  refine ⟨hvalid, hraw, ?_⟩
  rw [hmicros, hlocal]
  dsimp only at hinstant
  push_cast
  omega

section Normalize
variable (hc : chrono.Exact) (htime : time.Valid) (hlow : -86400 < secondsEast)
  (hhigh : secondsEast < 86400)
include hc htime hlow hhigh

theorem normalizeTime_eq :
    normalizeTime chrono time secondsEast =
      .ok (rawTimeFromNaive (exactUtc secondsEast ⟨⟨2000, 1, 2⟩, time.naive⟩).time) := by
  have href : (⟨2000, 1, 2⟩ : Date).Valid := ⟨by decide, by decide, by decide, by decide⟩
  have hfit : Date.FitsWire ⟨2000, 1, 2⟩ := ⟨by decide, by decide⟩
  have hymd := hc.fromYmd ⟨2000, 1, 2⟩ href hfit.1 hfit.2
  have hutc := hc.utc secondsEast ⟨⟨2000, 1, 2⟩, time.naive⟩ hlow hhigh href hfit.1 hfit.2
    htime.naive
  rw [normalizeTime, hymd, naiveTime_ok hc htime, fixedOffset, hc.east _ hlow hhigh]
  simp only [okOr, bind, Except.bind, hutc]

theorem normalizeTime_decodes :
    ∃ utcTime, normalizeTime chrono time secondsEast = .ok utcTime ∧
      (decodeTime (appendTimeWire utcTime) 1).map (List.map seenMicros) =
        .ok [some (((time.micros : Int) - secondsEast * 1000000) % 86400000000)] := by
  have href : (⟨2000, 1, 2⟩ : Date).Valid := ⟨by decide, by decide, by decide, by decide⟩
  obtain ⟨-, hraw, hsum⟩ := utc_micros href htime hlow hhigh
  refine ⟨_, normalizeTime_eq hc htime hlow hhigh, ?_⟩
  rw [decodeTime_appendTimeWire hraw]
  have hlt := RawTime.micros_lt hraw
  refine congrArg (fun n => Except.ok [some n]) ?_
  generalize daysFromCivil _ _ _ = days at hsum
  omega

variable (hdate : date.civil.Valid)
include hdate

theorem normalizeTimestamp_eq :
    normalizeTimestamp chrono date time secondsEast =
      (rawDateFromNaive (exactUtc secondsEast ⟨date.civil, time.naive⟩).date).map fun utc =>
        (utc, rawTimeFromNaive (exactUtc secondsEast ⟨date.civil, time.naive⟩).time) := by
  have hutc := hc.utc secondsEast ⟨date.civil, time.naive⟩ hlow hhigh hdate
    date.civil_fitsWire.1 date.civil_fitsWire.2 htime.naive
  rw [normalizeTimestamp, naiveDate_ok hc hdate, naiveTime_ok hc htime, fixedOffset,
    hc.east _ hlow hhigh]
  simp only [okOr, bind, Except.bind, hutc]
  cases rawDateFromNaive (exactUtc secondsEast ⟨date.civil, time.naive⟩).date <;> rfl

theorem normalizeTimestamp_decodes {utcDate : RawDate} {utcTime : RawTime}
    (h : normalizeTimestamp chrono date time secondsEast = .ok (utcDate, utcTime)) :
    (decodeTimestamp (appendTimestampWire utcDate utcTime) 1).map (List.map seenMicros) =
      .ok [some (localMicros date time - secondsEast * 1000000)] := by
  obtain ⟨hvalid, hraw, hsum⟩ := utc_micros hdate htime hlow hhigh
  rw [normalizeTimestamp_eq hc htime hlow hhigh hdate] at h
  generalize exactUtc secondsEast ⟨date.civil, time.naive⟩ = utc at h hvalid hraw hsum
  by_cases hfit : Date.FitsWire utc.date
  · obtain ⟨value, hvalue, hcivil⟩ := rawDateFromNaive_ok hvalid hfit
    rw [hvalue, Except.map, Except.ok.injEq, Prod.mk.injEq] at h
    obtain ⟨rfl, rfl⟩ := h
    rw [← hcivil] at hvalid hsum
    rw [decodeTimestamp_appendTimestampWire hvalid hraw]
    exact congrArg (fun n => Except.ok [some n]) hsum
  · rw [rawDateFromNaive_error hfit] at h
    cases h

theorem normalizeTimestamp_fails_iff (error : DecodeError) :
    normalizeTimestamp chrono date time secondsEast = .error error ↔
      error = yearDoesNotFit ∧
        ¬Date.FitsWire (exactUtc secondsEast ⟨date.civil, time.naive⟩).date := by
  obtain ⟨hvalid, -, -⟩ := utc_micros hdate htime hlow hhigh
  rw [normalizeTimestamp_eq hc htime hlow hhigh hdate]
  generalize exactUtc secondsEast ⟨date.civil, time.naive⟩ = utc at hvalid ⊢
  by_cases hfit : Date.FitsWire utc.date
  · obtain ⟨value, hvalue, -⟩ := rawDateFromNaive_ok hvalid hfit
    simp [hvalue, Except.map, hfit]
  · rw [rawDateFromNaive_error hfit]
    simp [Except.map, hfit, eq_comm]

end Normalize

theorem inline_zone_exact (hc : chrono.Exact) (date : RawDate) (time : RawTime)
    (secondsEast : Int)
    (hdate : validYmd date.year.toInt date.month.toNat date.day.toNat = true)
    (htime : time.Valid) (hlow : -86400 < secondsEast) (hhigh : secondsEast < 86400) :
    (∃ utc : Date, utc.Valid ∧
      daysFromCivil utc.year utc.month utc.day =
        (localMicros date time - secondsEast * 1000000) / 86400000000 ∧
      ∀ error, normalizeTimestamp chrono date time secondsEast = .error error ↔
        error = yearDoesNotFit ∧ ¬Date.FitsWire utc) ∧
    (∀ utcDate utcTime,
      normalizeTimestamp chrono date time secondsEast = .ok (utcDate, utcTime) →
      (decodeTimestamp (appendTimestampWire utcDate utcTime) 1).map (List.map seenMicros) =
        .ok [some (localMicros date time - secondsEast * 1000000)]) ∧
    ∃ utcTime, normalizeTime chrono time secondsEast = .ok utcTime ∧
      (decodeTime (appendTimeWire utcTime) 1).map (List.map seenMicros) =
        .ok [some (((time.micros : Int) - secondsEast * 1000000) % 86400000000)] := by
  have hvalid : date.civil.Valid := valid_of_validYmd hdate
  refine ⟨?_, ?_, normalizeTime_decodes hc htime hlow hhigh⟩
  · obtain ⟨hutc, hraw, hsum⟩ := utc_micros hvalid htime hlow hhigh
    refine ⟨_, hutc, ?_, normalizeTimestamp_fails_iff hc htime hlow hhigh hvalid⟩
    have hlt := RawTime.micros_lt hraw
    have hlocal : localMicros date time = daysFromCivil date.civil.year date.civil.month
        date.civil.day * 86400000000 + time.micros := rfl
    rw [hlocal, ← hsum]
    generalize daysFromCivil _ _ _ = days
    omega
  · intro utcDate utcTime h
    exact normalizeTimestamp_decodes hc htime hlow hhigh hvalid h

def civilChrono : Chrono where
  fromYmdOpt year month day := if validYmd year month day then some ⟨year, month, day⟩ else none
  fromHmsMicroOpt hour minute second micro :=
    if hour < 24 ∧ minute < 60 ∧ second < 60 ∧
        (micro < 1000000 ∨ second = 59 ∧ micro < 2000000) then
      some ⟨hour, minute, second, micro * 1000⟩
    else none
  eastOpt offset := if -86400 < offset ∧ offset < 86400 then some offset else none
  naiveUtc offset local_ := some (exactUtc offset local_)

theorem civilChrono_exact : civilChrono.Exact where
  fromYmd d h _ _ := by simp [civilChrono, validYmd_of_valid h]
  fromHms hour minute second micro hh hm hs hu := by simp [civilChrono, hh, hm, hs, hu]
  east offset hlow hhigh := by simp [civilChrono, hlow, hhigh]
  utc _ _ _ _ _ _ _ _ := rfl

theorem new_year_crosses_zone :
    normalizeTimestamp civilChrono ⟨1, 1, 2000⟩ ⟨0, 0, 30, 0⟩ 3600 =
        .ok (⟨31, 12, 1999⟩, ⟨0, 0, 30, 23⟩) ∧
      (decodeTimestamp (appendTimestampWire ⟨31, 12, 1999⟩ ⟨0, 0, 30, 23⟩) 1).map
        (List.map seenMicros) =
          .ok [some (localMicros ⟨1, 1, 2000⟩ ⟨0, 0, 30, 0⟩ - 3600 * 1000000)] := by
  have hstep : normalizeTimestamp civilChrono ⟨1, 1, 2000⟩ ⟨0, 0, 30, 0⟩ 3600 =
      .ok (⟨31, 12, 1999⟩, ⟨0, 0, 30, 23⟩) := by rfl
  refine ⟨hstep, ?_⟩
  exact (inline_zone_exact civilChrono_exact ⟨1, 1, 2000⟩ ⟨0, 0, 30, 0⟩ 3600 (by decide)
    ⟨by decide, by decide, by decide, by decide⟩ (by decide) (by decide)).2.1 _ _ hstep

end Conversion

end MonetdbAdbc
