import MonetdbAdbc.Codec.ColumnCodec
import MonetdbAdbc.Codec.InlineZone
import MonetdbAdbc.Library.Iso8601
import MonetdbAdbc.Sql.Literal

namespace MonetdbAdbc.Sql
open LittleEndian Machine Rows Calendar Text TextFields Iso8601

structure Rendering.Documented (rendering : Rendering) : Prop where
  proleptic : Proleptic rendering.dateFromUnixDays
  timestampDate : ∀ micros, inI64 micros = true →
    rendering.timestampDate micros = rendering.dateFromUnixDays (micros / microsPerDay)
  displayDate : ∀ date : Date, date.Valid → rendering.displayDate date = dateText date

def oneValue (type : Primitive) (value : BitVec type.width) : Column :=
  .primitive type [⟨false, value⟩]

def isDateType : Primitive → Bool
  | .date32 | .date64 | .timestamp _ _ => true
  | _ => false

def unitsPerDay : TimeUnit → Int
  | .second => 86400
  | .millisecond => 86400000
  | .microsecond => 86400000000
  | .nanosecond => 86400000000000

def unixDay : (type : Primitive) → BitVec type.width → Int
  | .date32, value => value.toInt
  | .date64, value => value.toInt / 86400000
  | .timestamp unit _, value => value.toInt / unitsPerDay unit
  | _, _ => 0

section Reading

def readInstant (type : Primitive) (text : Bytes) : Option (Date × Nat) :=
  match type with
  | .timestamp _ timezone => do
    let body ← within (ascii (if timezone.isSome then "TIMESTAMPTZ '" else "TIMESTAMP '"))
      (ascii (if timezone.isSome then "+00:00'" else "'")) text
    let (date, clock) ← cut 32 body
    let date ← readDate date
    let micros ← readClock clock
    some (date, micros)
  | _ => do
    let body ← within (ascii "DATE '") [39] text
    let date ← readDate body
    some (date, 0)

def wireNumber (type : Primitive) (day : Int) (micros : Nat) : Int :=
  match type with
  | .timestamp _ _ => day * microsPerDay + micros
  | _ => day

def cellNumber : Option Cell → Option Int
  | some (.native _ value) => some value.toInt
  | _ => none

def SameInstant (rendering : Rendering) (field : Field) (type : Primitive)
    (value : BitVec type.width) (bytes : Bytes) : Prop :=
  ∃ text date micros day monetType decoded,
    literal rendering field (oneValue type value) 0 = .ok text ∧
    readInstant type text = some (date, micros) ∧
    allDates day = some date ∧
    monetTypeForField field = .ok monetType ∧
    decodeColumn monetType bytes 1 = .ok decoded ∧
    decoded.cells.map cellNumber = [some (wireNumber type day micros)]

theorem space_notMem_dateText (date : Date) : 32 ∉ dateText date := by
  have hdigits : ∀ width n, (32 : UInt8) ∉ padded width n := fun width n =>
    notMem_of_isDigit (padded_isDigit width n) (by unfold AsciiNumber.IsDigit; decide)
  have hyear : 32 ∉ yearText date.year := by
    unfold yearText
    split_ifs <;> simp [hdigits]
  rw [dateText_eq]
  simp [hyear, hdigits]

theorem readInstant_date {type : Primitive} (htype : type = .date32 ∨ type = .date64) (body : Bytes) :
    readInstant type (ascii "DATE '" ++ body ++ [39]) = (readDate body).map fun date => (date, 0) := by
  rcases htype with rfl | rfl
  all_goals
    simp only [readInstant, within_append, Option.bind_eq_bind, Option.bind_some]
    cases readDate body <;> rfl

theorem readInstant_timestamp (unit : TimeUnit) (timezone : Option String) (date : Date)
    {micros : Nat} (hmicros : micros < 86400000000) :
    readInstant (.timestamp unit timezone)
      (ascii (if timezone.isSome then "TIMESTAMPTZ '" else "TIMESTAMP '") ++
        (dateText date ++ 32 :: clockText micros) ++
          ascii (if timezone.isSome then "+00:00'" else "'")) =
      (readDate (dateText date)).map fun date => (date, micros) := by
  simp only [readInstant, within_append, Option.bind_eq_bind, Option.bind_some,
    cut_append (space_notMem_dateText date), readClock_clockText hmicros]
  cases readDate (dateText date) <;> rfl

theorem readDate_dateText_ite {date : Date} (h : date.Valid) :
    readDate (dateText date) = if date.year ≤ 9999 then some date else none := by
  split_ifs with hyear
  · exact readDate_dateText h hyear
  · exact readDate_expanded h (by omega)

end Reading

section Days
variable {date : Int → Option Date} {day : Int} {d : Date}

theorem allDates_of_proleptic (hd : Proleptic date) (h : date day = some d) :
    allDates day = some d := by
  have hvalid := hd.valid h
  rw [← daysFromCivil_of_proleptic hd h]
  exact date_daysFromCivil allDates_proleptic (allDates_hasYears d.year d.year) hvalid
    (le_refl _) (le_refl _)

-- The first day whose year has five digits, 10000-01-01.
def firstExpandedDay : Int := 2932897

theorem year_le_iff (h : allDates day = some d) : d.year ≤ 9999 ↔ day < firstExpandedDay := by
  have hvalid := allDates_valid h
  have hexpanded : (⟨10000, 1, 1⟩ : Date).Valid := ⟨by decide, by decide, by decide, by decide⟩
  have hcount : daysFromCivil 10000 1 1 = firstExpandedDay := by decide
  have hlt := daysFromCivil_lt_iff hvalid hexpanded
  rw [daysFromCivil_of_proleptic allDates_proleptic h, hcount] at hlt
  rw [hlt]
  have hmonth := hvalid.month_pos
  have hday := hvalid.day_pos
  simp only [Date.Before]
  omega

theorem toInt_ofInt_of_bounds {w : Nat} {n : Int} (hw : 0 < w) (hlow : -(2 ^ (w - 1)) ≤ n)
    (hhigh : n < 2 ^ (w - 1)) : (BitVec.ofInt w n).toInt = n := by
  rw [BitVec.toInt_ofInt]
  have hpow : ((2 ^ w : Nat) : Int) = 2 * 2 ^ (w - 1) := by
    obtain ⟨k, rfl⟩ : ∃ k, w = k + 1 := ⟨w - 1, by omega⟩
    push_cast
    rw [pow_succ, mul_comm]
  apply Int.bmod_eq_of_le
  · rw [hpow]
    omega
  · rw [hpow]
    omega

theorem decodeDate_one (hd : Proleptic date) {bytes : Bytes}
    (h : appendDate date day 0 = .ok bytes) :
    ∃ slots, decodeDate bytes 1 = .ok slots ∧
      (Column.primitive .date32 slots).cells.map cellNumber = [some day] := by
  obtain ⟨d, hdate, hlow, hhigh, -⟩ := appendDate_ok h
  have hbounds := daysFromCivil_bounds (hd.valid hdate) hlow hhigh
  rw [daysFromCivil_of_proleptic hd hdate] at hbounds
  have hint : (BitVec.ofInt 32 day).toInt = day :=
    toInt_ofInt_of_bounds (by decide) (by omega) (by omega)
  refine ⟨_, decode_one 32 (by decide) (by decide) dateValue (appendDate_length h)
    (dateValue_appendDate hd h), ?_⟩
  exact congrArg (fun n => [some n]) hint

theorem decodeTimestamp_one (hd : Proleptic date) {micros : Int} {bytes : Bytes}
    (hmicros : inI64 micros = true) (h : appendTimestamp date micros 0 = .ok bytes)
    (timezone : Option String) :
    ∃ slots, decodeTimestamp bytes 1 = .ok slots ∧
      (Column.primitive (.timestamp .microsecond timezone) slots).cells.map cellNumber =
        [some micros] := by
  obtain ⟨hlow, hhigh⟩ : -(2 ^ 63) ≤ micros ∧ micros < 2 ^ 63 := by simpa [inI64] using hmicros
  have hint : (BitVec.ofInt 64 micros).toInt = micros :=
    toInt_ofInt_of_bounds (by decide) hlow hhigh
  refine ⟨_, decode_one 64 (by decide) (by decide) timestampValue (appendTimestamp_length h)
    (timestampValue_appendTimestamp hd h), ?_⟩
  exact congrArg (fun n => [some n]) hint

end Days

section Encoded
variable {date : Int → Option Date} {bytes : Bytes} {value : BitVec 64}

theorem ediv_of_tmod {n k : Int} (h : n.tmod k = 0) : n.tdiv k = n / k :=
  Int.tdiv_eq_ediv_of_dvd (Int.dvd_of_tmod_eq_zero h)

theorem date64Row_one (h : date64Row date 0 ⟨false, value⟩ = .ok bytes) :
    value.toInt.tmod 86400000 = 0 ∧ appendDate date (value.toInt / 86400000) 0 = .ok bytes := by
  simp only [date64Row, Bool.false_eq_true, if_false] at h
  split_ifs at h with haligned
  · cases h
  · rw [not_not] at haligned
    rw [ediv_of_tmod haligned] at h
    exact ⟨haligned, h⟩

theorem timestampRow_one {factor : Int}
    (h : timestampRow date factor 0 ⟨false, value⟩ = .ok bytes) :
    checkedMulI64 value.toInt factor = some (value.toInt * factor) ∧
      inI64 (value.toInt * factor) = true ∧
      appendTimestamp date (value.toInt * factor) 0 = .ok bytes := by
  simp only [timestampRow, Bool.false_eq_true, if_false, bind_eq_ok, okOr_eq_ok] at h
  obtain ⟨micros, hmul, happend⟩ := h
  obtain ⟨hin, rfl⟩ := checkedMulI64_eq_some.mp hmul
  exact ⟨hmul, hin, happend⟩

theorem inI64_toInt_div (value : BitVec 64) : inI64 (value.toInt / 1000) = true := by
  have hlow := value.le_toInt
  have hhigh := value.toInt_lt
  simp only [inI64, decide_eq_true_eq]
  omega

theorem encodeTimestamp_one {unit : TimeUnit}
    (h : encodeTimestamp date unit [⟨false, value⟩] = .ok bytes) :
    ∃ micros, timestampMicros unit value = .ok micros ∧ inI64 micros = true ∧
      micros / microsPerDay = value.toInt / unitsPerDay unit ∧
      appendTimestamp date micros 0 = .ok bytes := by
  cases unit with
  | second | millisecond =>
    obtain ⟨hmul, hin, happend⟩ := timestampRow_one ((concat_singleton _ _).symm.trans h)
    refine ⟨_, okOr_eq_ok.mpr hmul, hin, ?_, happend⟩
    simp only [microsPerDay, unitsPerDay]
    omega
  | microsecond =>
    obtain ⟨hmul, hin, happend⟩ := timestampRow_one ((concat_singleton _ _).symm.trans h)
    refine ⟨_, okOr_eq_ok.mpr hmul, hin, ?_, happend⟩
    simp only [microsPerDay, unitsPerDay, mul_one]
  | nanosecond =>
    have hrow : timestampNanosRow date 0 ⟨false, value⟩ = .ok bytes :=
      (concat_singleton _ _).symm.trans h
    simp only [timestampNanosRow, Bool.false_eq_true, if_false] at hrow
    split_ifs at hrow with haligned
    · cases hrow
    · rw [not_not] at haligned
      rw [ediv_of_tmod haligned] at hrow
      refine ⟨value.toInt / 1000, ?_, inI64_toInt_div value, ?_, hrow⟩
      · rw [timestampMicros, if_neg (not_not.mpr haligned), ediv_of_tmod haligned]
      · simp only [microsPerDay, unitsPerDay]
        omega

end Encoded

section Agreement
variable {rendering : Rendering} {field : Field} {bytes : Bytes}

theorem sameInstant_iff {type : Primitive} {value : BitVec type.width} {text : Bytes} {date : Date}
    {micros : Nat} {day : Int} {monetType : MonetType} {decoded : Column}
    (hliteral : literal rendering field (oneValue type value) 0 = .ok text)
    (hread : readInstant type text = (readDate (dateText date)).map fun date => (date, micros))
    (hday : allDates day = some date) (hmonet : monetTypeForField field = .ok monetType)
    (hdecode : decodeColumn monetType bytes 1 = .ok decoded)
    (hcells : decoded.cells.map cellNumber = [some (wireNumber type day micros)]) :
    SameInstant rendering field type value bytes ↔ day < firstExpandedDay := by
  rw [readDate_dateText_ite (allDates_valid hday)] at hread
  rw [← year_le_iff hday]
  constructor
  · rintro ⟨text', date', micros', day', -, -, hliteral', hread', -⟩
    obtain rfl := Except.ok.inj (hliteral.symm.trans hliteral')
    by_contra hyear
    rw [if_neg hyear, hread'] at hread
    cases hread
  · intro hyear
    rw [if_pos hyear] at hread
    exact ⟨text, date, micros, day, monetType, decoded, hliteral, hread, hday, hmonet, hdecode, hcells⟩

theorem dateLiteral_ok (hr : rendering.Documented) {day : Int} {date : Date}
    (h : rendering.dateFromUnixDays day = some date) :
    dateLiteral rendering day = .ok (ascii "DATE '" ++ dateText date ++ [39]) := by
  rw [dateLiteral, parameterDate, h, okOr_some, ok_bind, hr.displayDate date (hr.proleptic.valid h)]

theorem formatTime_ok {micros : Int} (hlow : 0 ≤ micros) (hhigh : micros < 86400000000) :
    formatTime micros = .ok (clockText micros.toNat) :=
  if_neg (not_not.mpr ⟨hlow, hhigh⟩)

theorem dates_agree (hr : rendering.Documented) {type : Primitive} {value : BitVec type.width}
    {day : Int} (htype : type = .date32 ∨ type = .date64)
    (hliteral : nativeLiteral rendering field.extension type value = dateLiteral rendering day)
    (hmonet : monetTypeForField field = .ok .date)
    (h : appendDate rendering.dateFromUnixDays day 0 = .ok bytes) :
    SameInstant rendering field type value bytes ↔ day < firstExpandedDay := by
  obtain ⟨date, hdate, -⟩ := appendDate_ok h
  obtain ⟨slots, hdecode, hcells⟩ := decodeDate_one hr.proleptic h
  refine sameInstant_iff (hliteral.trans (dateLiteral_ok hr hdate)) (readInstant_date htype _)
    (allDates_of_proleptic hr.proleptic hdate) hmonet (congrArg (Except.map _) hdecode) ?_
  rcases htype with rfl | rfl
  · exact hcells
  · exact hcells

theorem timestamps_agree (hr : rendering.Documented) {unit : TimeUnit} {timezone : Option String}
    {value : BitVec 64} (hfield : field.dataType = .primitive (.timestamp unit timezone))
    (h : encodeTimestamp rendering.dateFromUnixDays unit [⟨false, value⟩] = .ok bytes) :
    SameInstant rendering field (.timestamp unit timezone) value bytes ↔
      value.toInt / unitsPerDay unit < firstExpandedDay := by
  obtain ⟨micros, hmicros, hin, hday, happend⟩ := encodeTimestamp_one h
  obtain ⟨time, day, htime, hdate, -⟩ := appendTimestamp_ok happend
  obtain ⟨hlow, hhigh, -⟩ := appendTime_ok htime
  obtain ⟨d, hd, -⟩ := appendDate_ok hdate
  obtain ⟨slots, hdecode, hcells⟩ :=
    decodeTimestamp_one hr.proleptic hin happend (if timezone.isSome then some "UTC" else none)
  have hclock : micros % microsPerDay < 86400000000 := hhigh
  have hliteral : timestampLiteral rendering unit timezone.isSome value =
      .ok (ascii (if timezone.isSome then "TIMESTAMPTZ '" else "TIMESTAMP '") ++
        (dateText d ++ 32 :: clockText (micros % microsPerDay).toNat) ++
          ascii (if timezone.isSome then "+00:00'" else "'")) := by
    rw [timestampLiteral, hmicros, ok_bind, hr.timestampDate micros hin, hd, okOr_some, ok_bind,
      show micros % 86400000000 = micros % microsPerDay from rfl, formatTime_ok hlow hclock, ok_bind,
      hr.displayDate d (hr.proleptic.valid hd)]
  have hsum : micros / microsPerDay * microsPerDay + ((micros % microsPerDay).toNat : Int) = micros := by
    rw [Int.toNat_of_nonneg hlow]
    exact Int.ediv_mul_add_emod micros microsPerDay
  have hmonet : monetTypeForField field =
      .ok (if timezone.isSome then .timestampTz else .timestamp) := by
    rw [monetTypeForField, hfield]
  have hcolumn : decodeColumn (if timezone.isSome then .timestampTz else .timestamp) bytes 1 =
      .ok (.primitive (.timestamp .microsecond (if timezone.isSome then some "UTC" else none))
        slots) := by
    cases timezone with
    | none | some zone => exact congrArg (Except.map _) hdecode
  rw [← hday]
  refine sameInstant_iff hliteral (readInstant_timestamp unit timezone d (by omega))
    (allDates_of_proleptic hr.proleptic hd) hmonet hcolumn ?_
  rw [hcells, wireNumber, hsum]

end Agreement

section Dates
variable {rendering : Rendering}

theorem date_literals_match_copy (hr : rendering.Documented) (field : Field) (type : Primitive)
    (value : BitVec type.width) (bytes : Bytes) (htype : isDateType type = true)
    (hfield : field.dataType = .primitive type)
    (h : encodeColumn rendering.dateFromUnixDays field (oneValue type value) = .ok bytes) :
    SameInstant rendering field type value bytes ↔ unixDay type value < firstExpandedDay := by
  obtain ⟨t, ht, hencode, -⟩ := encodeColumn_ok h
  cases type with
  | date32 =>
    have hmonet : monetTypeForField field = .ok .date := by rw [monetTypeForField, hfield]
    exact dates_agree hr (.inl rfl) rfl hmonet ((concat_singleton _ _).symm.trans hencode)
  | date64 =>
    have hmonet : monetTypeForField field = .ok .date := by rw [monetTypeForField, hfield]
    obtain ⟨haligned, happend⟩ := date64Row_one ((concat_singleton _ _).symm.trans hencode)
    refine dates_agree hr (.inr rfl) ?_ hmonet happend
    rw [nativeLiteral, date64Literal, if_neg (fun hne => hne haligned)]
    exact congrArg (dateLiteral rendering) (ediv_of_tmod haligned)
  | timestamp unit timezone => exact timestamps_agree hr hfield hencode
  | int8 | int16 | int32 | int64 | uint8 | uint16 | uint32 | uint64 | float16 | float32 | float64
  | decimal128 | time32 | time64 | duration => cases htype

def gregorian : Rendering where
  dateFromUnixDays := allDates
  timestampDate micros := allDates (micros / microsPerDay)
  displayDate := dateText
  f64FromF16 value := value.setWidth 64
  f64FromF32 value := value.setWidth 64
  lowerExp _ := []
  displayType _ := ""

theorem gregorian_documented : gregorian.Documented where
  proleptic := allDates_proleptic
  timestampDate _ _ := rfl
  displayDate _ _ := rfl

def dateField : Field := ⟨"d", .primitive .date32, true, none⟩

theorem allDates_expanded : allDates 2932897 = some ⟨10000, 1, 1⟩ := by
  have hvalid : (⟨10000, 1, 1⟩ : Date).Valid := ⟨by decide, by decide, by decide, by decide⟩
  have hdate := date_daysFromCivil allDates_proleptic (allDates_hasYears 10000 10000) hvalid
    (le_refl 10000) (le_refl 10000)
  have hcount : daysFromCivil 10000 1 1 = 2932897 := by decide
  rw [hcount] at hdate
  exact hdate

theorem encodeColumn_dateField (date : Int → Option Date) (value : BitVec 32) :
    encodeColumn date dateField (oneValue .date32 value) =
      (appendDate date value.toInt 0 >>= withinCapacity) := by
  change (concat (date32Row date) [⟨false, value⟩] >>= withinCapacity) = _
  rw [concat_singleton]
  rfl

theorem toInt_expanded : (2932897#32).toInt = 2932897 := by decide

theorem encode_expanded :
    encodeColumn gregorian.dateFromUnixDays dateField (oneValue .date32 2932897#32) =
      .ok [1, 1, 16, 39] := by
  have hdate : gregorian.dateFromUnixDays 2932897 = some ⟨10000, 1, 1⟩ := allDates_expanded
  rw [encodeColumn_dateField, appendDate, dateFromDays, toInt_expanded, hdate]
  decide

theorem literal_expanded :
    literal gregorian dateField (oneValue .date32 2932897#32) 0 =
      .ok (ascii "DATE '+10000-01-01'") := by
  change dateLiteral gregorian (2932897#32).toInt = _
  rw [toInt_expanded, dateLiteral_ok gregorian_documented allDates_expanded]
  decide

theorem five_digit_year_signed :
    encodeColumn gregorian.dateFromUnixDays dateField (oneValue .date32 2932897#32) =
      .ok [1, 1, 16, 39] ∧
    literal gregorian dateField (oneValue .date32 2932897#32) 0 =
      .ok (ascii "DATE '+10000-01-01'") ∧
    ¬SameInstant gregorian dateField .date32 2932897#32 [1, 1, 16, 39] := by
  refine ⟨encode_expanded, literal_expanded, ?_⟩
  rintro ⟨text, date, micros, day, -, -, hliteral, hread, -⟩
  obtain rfl := Except.ok.inj (literal_expanded.symm.trans hliteral)
  have hnone : readInstant .date32 (ascii "DATE '+10000-01-01'") = none := by decide
  rw [hnone] at hread
  cases hread

theorem four_digit_year_matches :
    SameInstant gregorian dateField .date32 31#32 [1, 2, 0xb2, 7] := by
  have hencode : encodeColumn gregorian.dateFromUnixDays dateField (oneValue .date32 31#32) =
      .ok [1, 2, 0xb2, 7] := by decide +kernel
  exact (date_literals_match_copy gregorian_documented dateField .date32 31#32 [1, 2, 0xb2, 7] rfl rfl
    hencode).mpr (by decide)

end Dates

end MonetdbAdbc.Sql
