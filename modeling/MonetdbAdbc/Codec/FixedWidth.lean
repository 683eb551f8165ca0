import MonetdbAdbc.Encode
import MonetdbAdbc.Codec.CivilDate

namespace MonetdbAdbc
open LittleEndian Utf8 Machine Rows Ieee754 Calendar

section Rows
variable {α β γ : Type} {w : Nat} {null : BitVec w} {bytes : Bytes} {reject : BitVec w → Bool}
  {message : String}

theorem expectFixed_ok {rows width : Nat} (hlen : bytes.length = rows * width)
    (hfit : bytes.length ≤ isizeMax) : expectFixed bytes rows width = .ok () := by
  have hmax : isizeMax ≤ usizeMax := by decide
  have hmul : checkedMul rows width = some (rows * width) :=
    checkedMul_eq_some.mpr ⟨by omega, rfl⟩
  simp [expectFixed, hmul, hlen]

theorem fixed_round_trip {width : Nat} (hw : 0 < width) {f : Nat → α → Except EncodeError Bytes}
    {g : Nat → Bytes → Except DecodeError β} {see : α → γ} {seen : β → γ} {xs : List α}
    (hf : ∀ row x p, f row x = .ok p → p.length = width)
    (hfg : ∀ row x p, x ∈ xs → f row x = .ok p → ∃ y, g row p = .ok y ∧ seen y = see x)
    (h : concat f xs = .ok bytes) (hfit : bytes.length ≤ isizeMax) :
    ∃ ys, (expectFixed bytes xs.length width >>= fun _ => mapRows g (chunksExact width bytes)) =
      .ok ys ∧ ys.map seen = xs.map see := by
  rw [expectFixed_ok (concat_length hf h) hfit]
  exact concat_round_trip hw hf hfg h

def checkedRow (reject : BitVec w → Bool) (message : String) (null : BitVec w) (row : Nat)
    (slot : Slot w) : Except EncodeError Bytes :=
  (if !slot.isNull && reject slot.value then invalid row message else .ok ()).map
    fun _ => leBytes (if slot.isNull then null else slot.value)

theorem encodeChecked_eq_concat (reject : BitVec w → Bool) (message : String) (null : BitVec w)
    (slots : List (Slot w)) :
    encodeChecked reject message null slots = concat (checkedRow reject message null) slots := by
  have hrows := mapFrom_check
    (fun row (slot : Slot w) =>
      (if !slot.isNull && reject slot.value then invalid row message else .ok () :
        Except EncodeError Unit))
    (fun slot => leBytes (if slot.isNull then null else slot.value)) 0 slots
  change _ = (mapFrom (checkedRow reject message null) 0 slots).map List.flatten
  rw [show mapFrom (checkedRow reject message null) 0 slots = _ from hrows, encodeChecked, mapRows]
  cases mapFrom _ 0 slots <;> rfl

theorem checkedRow_ok {row : Nat} {slot : Slot w} {p : Bytes}
    (h : checkedRow reject message null row slot = .ok p) :
    (slot.isNull = true ∨ reject slot.value = false) ∧
      p = leBytes (if slot.isNull then null else slot.value) := by
  unfold checkedRow at h
  cases hnull : slot.isNull with
  | true =>
    simp only [hnull, Bool.not_true, Bool.false_and, Bool.false_eq_true, if_false, if_true,
      Except.map, Except.ok.injEq] at h
    exact ⟨.inl rfl, h.symm⟩
  | false =>
    cases hreject : reject slot.value with
    | true => simp [hnull, hreject, invalid, Except.map] at h
    | false =>
      simp only [hnull, hreject, Bool.not_false, Bool.and_false, Bool.false_eq_true, if_false,
        Except.map, Except.ok.injEq] at h
      exact ⟨.inr rfl, h.symm⟩

theorem checkedRow_length (row : Nat) (slot : Slot w) (p : Bytes)
    (h : checkedRow reject message null row slot = .ok p) : p.length = w / 8 := by
  rw [(checkedRow_ok h).2, leBytes_length]

def primitiveSlot (isNull : BitVec w → Bool) (chunk : Bytes) : Slot w :=
  ⟨isNull (ofLeBytes w chunk), ofLeBytes w chunk⟩

theorem decodePrimitive_eq (isNull : BitVec w → Bool) (bytes : Bytes) (rows : Nat) :
    decodePrimitive w isNull bytes rows = (expectFixed bytes rows (w / 8) >>= fun _ =>
      mapRows (fun _ chunk => .ok (primitiveSlot isNull chunk)) (chunksExact (w / 8) bytes)) := by
  rw [mapRows, mapFrom_pure]
  rfl

theorem primitiveSlot_get {isNull : BitVec w → Bool} (hw : 8 ∣ w) (hnull : isNull null = true)
    {slot : Slot w} (hvalue : slot.isNull = true ∨ isNull slot.value = false) :
    (primitiveSlot isNull (leBytes (if slot.isNull then null else slot.value))).get = slot.get := by
  cases hslot : slot.isNull with
  | true => simp [primitiveSlot, Slot.get, hslot, ofLeBytes_leBytes hw, hnull]
  | false =>
    have hv : isNull slot.value = false := by simpa [hslot] using hvalue
    simp [primitiveSlot, Slot.get, hslot, ofLeBytes_leBytes hw, hv]

theorem decodePrimitive_encodeChecked {isNull : BitVec w → Bool} (hw : 8 ∣ w) (hpos : 0 < w)
    (hnull : isNull null = true) (hreject : ∀ v, reject v = false → isNull v = false)
    {slots : List (Slot w)} (h : encodeChecked reject message null slots = .ok bytes)
    (hfit : bytes.length ≤ isizeMax) :
    ∃ decoded, decodePrimitive w isNull bytes slots.length = .ok decoded ∧
      decoded.map Slot.get = slots.map Slot.get := by
  rw [encodeChecked_eq_concat] at h
  rw [decodePrimitive_eq]
  refine fixed_round_trip (by omega) checkedRow_length ?_ h hfit
  intro row slot p _ hp
  obtain ⟨hok, rfl⟩ := checkedRow_ok hp
  exact ⟨_, rfl, primitiveSlot_get hw hnull (hok.imp_right (hreject _))⟩

end Rows

section Scalars
variable {row precision width : Nat} {p : Bytes}

theorem decodeBool_encodeBool {values : List (Option Bool)}
    (hfit : (encodeBool values).length ≤ isizeMax) :
    decodeBool (encodeBool values) values.length = .ok values := by
  have hlen : (encodeBool values).length = values.length * 1 := by simp [encodeBool]
  simp only [decodeBool, expectFixed_ok hlen hfit]
  refine mapFrom_map_inverse (fun row value => ?_) 0 values
  rcases value with _ | _ | _ <;> rfl

theorem oidRow_ok {slot : Slot 64} (h : oidRow row slot = .ok p) :
    (slot.isNull = true ∨ (slot.value == BitVec.intMin 64) = false) ∧
      p = leBytes (if slot.isNull then BitVec.intMin 64 else slot.value) := by
  simp only [oidRow] at h
  split_ifs at h with hnull hrange
  · simp_all
  · simp [invalid] at h
  · have hne : slot.value ≠ BitVec.intMin 64 := by
      intro heq
      rw [heq] at hrange
      exact hrange (by decide)
    simp_all

theorem oidRow_length (row : Nat) (slot : Slot 64) (p : Bytes) (h : oidRow row slot = .ok p) :
    p.length = 8 := by
  rw [(oidRow_ok h).2, leBytes_length]

theorem decodePrimitive_encodeOid {slots : List (Slot 64)} {bytes : Bytes}
    (h : encodeOid slots = .ok bytes) (hfit : bytes.length ≤ isizeMax) :
    ∃ decoded, decodePrimitive 64 (· == BitVec.intMin 64) bytes slots.length = .ok decoded ∧
      decoded.map Slot.get = slots.map Slot.get := by
  rw [decodePrimitive_eq]
  refine fixed_round_trip (by decide) oidRow_length ?_ h hfit
  intro row slot p _ hp
  obtain ⟨hok, rfl⟩ := oidRow_ok hp
  exact ⟨_, rfl, primitiveSlot_get (by decide) (by decide) hok⟩

theorem narrow_ok {wire : Nat} {value : Int} (h : narrow wire row (some value) = .ok p) :
    -(2 ^ (wire - 1)) < value ∧ value < 2 ^ (wire - 1) ∧ p = leBytes (BitVec.ofInt wire value) := by
  simp only [narrow] at h
  split_ifs at h with hrange hmin
  · simp [invalid] at h
  · simp only [Except.ok.injEq] at h
    exact ⟨lt_of_le_of_ne hrange.1 (Ne.symm hmin), hrange.2, h.symm⟩
  · simp [invalid] at h

theorem narrow_length {wire : Nat} {value : Option Int} (h : narrow wire row value = .ok p) :
    p.length = wire / 8 := by
  cases value with
  | none =>
    simp only [narrow, Except.ok.injEq] at h
    rw [← h, leBytes_length]
  | some value => rw [(narrow_ok h).2.2, leBytes_length]

theorem decimalRow_ok {enforcePrecision : Bool} {slot : Slot 128}
    (h : decimalRow precision width enforcePrecision row slot = .ok p) :
    narrow (8 * width) row (slot.get.map BitVec.toInt) = .ok p ∧
      (enforcePrecision = true → ∀ value, slot.get = some value →
        -(10 ^ precision) < value.toInt ∧ value.toInt < 10 ^ precision) := by
  simp only [decimalRow] at h
  split_ifs at h with hlimit
  · simp [invalid] at h
  · refine ⟨h, ?_⟩
    rintro rfl value hvalue
    simp only [hvalue, Option.map_some, Option.any_some, Bool.true_and, decide_eq_true_eq,
      not_or, not_le, ge_iff_le] at hlimit
    exact hlimit

theorem decimalValue_null (hw : 0 < width) (hugeint : Bool) (row : Nat) :
    ∃ slot, decimalValue width precision hugeint row (leBytes (BitVec.intMin (8 * width))) =
      .ok slot ∧ slot.get = none := by
  have hmin := BitVec.toInt_intMin_of_pos (v := 8 * width) (by omega)
  simp only [decimalValue, ofLeBytes_leBytes (Dvd.intro width rfl), hmin, beq_self_eq_true,
    Bool.not_true, Bool.false_and, Bool.false_eq_true, if_false]
  exact ⟨_, rfl, by simp [Slot.get]⟩

theorem decimalValue_some (hugeint : Bool) (row : Nat) {value : BitVec 128}
    (hlow : -(2 ^ (8 * width - 1)) < value.toInt) (hhigh : value.toInt < 2 ^ (8 * width - 1))
    (hw : 0 < width) (hlimit : -(10 ^ precision) < value.toInt ∧ value.toInt < 10 ^ precision) :
    decimalValue width precision hugeint row (leBytes (BitVec.ofInt (8 * width) value.toInt)) =
      .ok ⟨false, value⟩ := by
  have hint : (BitVec.ofInt (8 * width) value.toInt).toInt = value.toInt := by
    rw [BitVec.toInt_ofInt]
    have hpow : (2 : Int) ^ (8 * width) = 2 * 2 ^ (8 * width - 1) := by
      rw [← pow_succ']
      congr 1
      omega
    apply Int.bmod_eq_of_le <;> push_cast <;> omega
  have hnull : (value.toInt == -(2 ^ (8 * width - 1))) = false := by
    simp only [beq_eq_false_iff_ne, ne_eq]
    omega
  have hin : (decide (value.toInt ≤ -(10 ^ precision)) || decide (value.toInt ≥ 10 ^ precision)) =
      false := by
    simp only [Bool.or_eq_false_iff, decide_eq_false_iff_not]
    omega
  simp only [decimalValue, ofLeBytes_leBytes (Dvd.intro width rfl), hint, hnull, hin,
    Bool.not_false, Bool.and_false, Bool.false_eq_true, if_false, BitVec.ofInt_toInt]

theorem decodeDecimal_encodeDecimal {slots : List (Slot 128)} {scale : Int}
    {enforcePrecision : Bool} {bytes : Bytes} (hscale : 0 ≤ scale ∧ scale ≤ precision)
    (hwidth : decimalWireWidth precision = some width)
    (h : encodeDecimal slots precision enforcePrecision = .ok bytes)
    (hbound : enforcePrecision = true ∨ (width = 16 ∧ ∀ slot ∈ slots, ∀ value,
      slot.get = some value → -(10 ^ precision) < value.toInt ∧ value.toInt < 10 ^ precision))
    (hfit : bytes.length ≤ isizeMax) :
    ∃ decoded,
      decodeDecimal bytes slots.length precision scale (!enforcePrecision) = .ok decoded ∧
      decoded.map Slot.get = slots.map Slot.get := by
  have hrange : 1 ≤ precision ∧ precision ≤ 38 ∧ 0 < width := by
    simp only [decimalWireWidth] at hwidth
    split_ifs at hwidth <;> simp only [Option.some.injEq] at hwidth <;> omega
  simp only [encodeDecimal, hwidth] at h
  have hdecode : decodeDecimal bytes slots.length precision scale (!enforcePrecision) =
      (expectFixed bytes slots.length width >>= fun _ =>
        mapRows (decimalValue width precision (!enforcePrecision)) (chunksExact width bytes)) := by
    have hselect : (if (!enforcePrecision) = true then some 16 else decimalWireWidth precision) =
        some width := by
      rcases hbound with rfl | ⟨rfl, -⟩
      · simpa using hwidth
      · cases enforcePrecision <;> simp [hwidth]
    simp only [decodeDecimal, hselect]
    rw [if_neg (by omega)]
  rw [hdecode]
  refine fixed_round_trip hrange.2.2 (f := decimalRow precision width enforcePrecision)
    ?_ ?_ h hfit
  · intro row slot p hp
    rw [narrow_length (decimalRow_ok hp).1]
    omega
  · intro row slot p hmem hp
    obtain ⟨hnarrow, henforced⟩ := decimalRow_ok hp
    cases hget : slot.get with
    | none =>
      simp only [hget, Option.map_none, narrow, Except.ok.injEq] at hnarrow
      rw [← hnarrow]
      exact decimalValue_null hrange.2.2 _ row
    | some value =>
      rw [hget] at hnarrow
      obtain ⟨hlow, hhigh, rfl⟩ := narrow_ok hnarrow
      have hlimit : -(10 ^ precision) < value.toInt ∧ value.toInt < 10 ^ precision := by
        rcases hbound with henforce | ⟨-, hall⟩
        · exact henforced henforce value hget
        · exact hall slot hmem value hget
      exact ⟨_, decimalValue_some _ row hlow hhigh hrange.2.2 hlimit, by simp [Slot.get]⟩

end Scalars

section Temporal
variable {date : Int → Option Date} {row : Nat} {p bytes : Bytes} {micros : Int}
  {slots : List (Slot 64)} {requireWholeDays : Bool}

theorem appendDate_ok {days : Int} (h : appendDate date days row = .ok p) :
    ∃ d : Date, date days = some d ∧ -4712 ≤ d.year ∧ d.year ≤ 32767 ∧
      p = [UInt8.ofNat d.day, UInt8.ofNat d.month] ++ leBytes (BitVec.ofInt 16 d.year) := by
  simp only [appendDate, dateFromDays, bind_eq_ok, okOr_eq_ok] at h
  obtain ⟨d, hd, h⟩ := h
  split_ifs at h with hlow hhigh
  · simp [invalid] at h
  · simp [invalid] at h
  · simp only [Except.ok.injEq] at h
    exact ⟨d, hd, by omega, by omega, h.symm⟩

theorem appendDate_length {days : Int} (h : appendDate date days row = .ok p) : p.length = 4 := by
  obtain ⟨d, -, -, -, rfl⟩ := appendDate_ok h
  simp

theorem appendTime_ok (h : appendTime micros row = .ok p) :
    0 ≤ micros ∧ micros < microsPerDay ∧
      p = leBytes (BitVec.ofInt 32 (micros % 1000000)) ++
        [UInt8.ofNat (micros / 1000000 % 60).toNat, UInt8.ofNat (micros / 1000000 / 60 % 60).toNat,
          UInt8.ofNat (micros / 1000000 / 3600).toNat, 0] := by
  simp only [appendTime] at h
  split_ifs at h with hday
  · simp only [Except.ok.injEq] at h
    exact ⟨hday.1, hday.2, h.symm⟩
  · simp [invalid] at h

theorem appendTime_length (h : appendTime micros row = .ok p) : p.length = 8 := by
  obtain ⟨-, -, rfl⟩ := appendTime_ok h
  simp

theorem leBytes_16 (v : BitVec 16) :
    leBytes v = [UInt8.ofNat v.toNat, UInt8.ofNat (v.toNat / 256)] := rfl

theorem leBytes_32 (v : BitVec 32) :
    leBytes v = [UInt8.ofNat v.toNat, UInt8.ofNat (v.toNat / 256),
      UInt8.ofNat (v.toNat / 256 / 256), UInt8.ofNat (v.toNat / 256 / 256 / 256)] := rfl

theorem Date.Valid.day_le_31 {d : Date} (h : d.Valid) : d.day ≤ 31 := by
  have hle := h.day_le
  unfold monthDays at hle
  split_ifs at hle <;> omega

theorem daysFromCivil_bounds {d : Date} (h : d.Valid) (hlow : -4712 ≤ d.year)
    (hhigh : d.year ≤ 32767) :
    -2500000 ≤ daysFromCivil d.year d.month d.day ∧
      daysFromCivil d.year d.month d.day ≤ 12000000 := by
  have hday := Date.Valid.day_le_31 h
  have hm := h.month_le
  have hoffset : monthOffset d.month ≤ 400 := by
    unfold monthOffset
    split_ifs <;> omega
  rw [daysFromCivil_eq h.day_pos]
  unfold civilYear
  split_ifs <;> omega

theorem dateValue_appendDate (hd : Proleptic date) {days : Int}
    (h : appendDate date days row = .ok p) : dateValue row p = .ok (some days) := by
  obtain ⟨d, hdate, hlow, hhigh, rfl⟩ := appendDate_ok h
  have hvalid := hd.valid hdate
  have hday := Date.Valid.day_le_31 hvalid
  have hmonth := hvalid.month_le
  have hdayNat : (UInt8.ofNat d.day).toNat = d.day := by
    rw [UInt8.toNat_ofNat']
    omega
  have hmonthNat : (UInt8.ofNat d.month).toNat = d.month := by
    rw [UInt8.toNat_ofNat']
    omega
  have hsentinel : UInt8.ofNat d.month ≠ 0xff := by
    intro heq
    have hnat := congrArg UInt8.toNat heq
    rw [hmonthNat] at hnat
    have h255 : (0xff : UInt8).toNat = 255 := rfl
    omega
  have hyear : (ofLeBytes 16 (leBytes (BitVec.ofInt 16 d.year))).toInt = d.year := by
    rw [ofLeBytes_leBytes (by decide), BitVec.toInt_ofInt]
    apply Int.bmod_eq_of_le <;> omega
  have hcount := daysFromCivil_of_proleptic hd hdate
  have hrange := daysFromCivil_bounds hvalid hlow hhigh
  rw [leBytes_16] at hyear ⊢
  simp only [List.cons_append, List.nil_append, dateValue, if_neg hsentinel, hyear, hdayNat,
    hmonthNat, validYmd_of_valid hvalid, hcount, Bool.not_true, Bool.false_eq_true, if_false]
  rw [hcount] at hrange
  rw [if_pos (by omega)]

theorem timeValue_appendTime (h : appendTime micros row = .ok p) :
    timeValue row p = .ok (some micros) := by
  obtain ⟨hlow, hhigh, rfl⟩ := appendTime_ok h
  obtain ⟨n, rfl⟩ := Int.eq_ofNat_of_zero_le hlow
  have hn : n < 86400000000 := by
    have hlt : (n : Int) < 86400000000 := hhigh
    omega
  have hfraction : (ofLeBytes 32 (leBytes (BitVec.ofInt 32 ((n : Int) % 1000000)))).toNat =
      n % 1000000 := by
    rw [ofLeBytes_leBytes (by decide), BitVec.toNat_ofInt]
    omega
  have hsecond : ((n : Int) / 1000000 % 60).toNat = n / 1000000 % 60 := by omega
  have hminute : ((n : Int) / 1000000 / 60 % 60).toNat = n / 1000000 / 60 % 60 := by omega
  have hhour : ((n : Int) / 1000000 / 3600).toNat = n / 1000000 / 3600 := by omega
  have hbyte : ∀ k : Nat, k < 60 → (UInt8.ofNat k).toNat = k := by
    intro k hk
    rw [UInt8.toNat_ofNat']
    omega
  have hlt : ∀ (k m : Nat) (bound : UInt8), bound.toNat = m → k < m → ¬ UInt8.ofNat k ≥ bound := by
    intro k m bound hm hk hge
    have hnat := UInt8.le_iff_toNat_le.mp hge
    have hbound := bound.toNat_lt
    rw [UInt8.toNat_ofNat'] at hnat
    omega
  rw [leBytes_32] at hfraction ⊢
  simp only [List.cons_append, List.nil_append, timeValue, hfraction, hsecond, hminute, hhour]
  have hsum : ((n / 1000000 / 3600 * 60 + n / 1000000 / 60 % 60) * 60 + n / 1000000 % 60) * 1000000 +
      n % 1000000 = n := by omega
  rw [if_neg (by omega), if_neg, hbyte _ (by omega), hbyte _ (by omega), hbyte _ (by omega), hsum]
  · rintro (hmicros | hseconds | hminutes | hhours)
    · omega
    · exact hlt _ 60 60 rfl (by omega) hseconds
    · exact hlt _ 60 60 rfl (by omega) hminutes
    · exact hlt _ 24 24 rfl (by omega) hhours

theorem dateValue_null (row : Nat) : dateValue row (List.replicate 4 0xff) = .ok none := rfl

theorem timeValue_null (row : Nat) : timeValue row (List.replicate 8 0xff) = .ok none := rfl

theorem slotOf_null (w : Nat) : (slotOf w none).get = none := rfl

theorem slotOf_toInt {w : Nat} (value : BitVec w) :
    (slotOf w (some value.toInt)).get = some value := by
  simp [slotOf, Slot.get, BitVec.ofInt_toInt]

theorem slot_get_null {w : Nat} {slot : Slot w} (h : slot.isNull = true) : slot.get = none := by
  simp [Slot.get, h]

theorem slot_get_value {w : Nat} {slot : Slot w} (h : ¬slot.isNull = true) :
    slot.get = some slot.value := by
  simp [Slot.get, h]

theorem date32Row_length (row : Nat) (slot : Slot 32) (p : Bytes)
    (h : date32Row date row slot = .ok p) : p.length = 4 := by
  simp only [date32Row] at h
  split_ifs at h with hnull
  · simp [← Except.ok.inj h]
  · exact appendDate_length h

theorem decodeDate_encodeDate32 (hd : Proleptic date) {slots : List (Slot 32)}
    (h : encodeDate32 date slots = .ok bytes) (hfit : bytes.length ≤ isizeMax) :
    ∃ decoded, decodeDate bytes slots.length = .ok decoded ∧
      decoded.map Slot.get = slots.map Slot.get := by
  refine fixed_round_trip (by decide) date32Row_length ?_ h hfit
  intro row slot p _ hp
  simp only [date32Row] at hp
  split_ifs at hp with hnull
  · rw [← Except.ok.inj hp, dateValue_null]
    exact ⟨_, rfl, (slotOf_null 32).trans (slot_get_null hnull).symm⟩
  · rw [dateValue_appendDate hd hp]
    exact ⟨_, rfl, (slotOf_toInt slot.value).trans (slot_get_value hnull).symm⟩

theorem timeRow_length {w : Nat} {factor : Int} (row : Nat) (slot : Slot w) (p : Bytes)
    (h : timeRow factor row slot = .ok p) : p.length = 8 := by
  simp only [timeRow] at h
  split_ifs at h with hnull
  · simp [← Except.ok.inj h]
  · exact appendTime_length h

theorem decodeTime_encodeTimeValues (h : encodeTimeValues 1 slots = .ok bytes)
    (hfit : bytes.length ≤ isizeMax) :
    ∃ decoded, decodeTime bytes slots.length = .ok decoded ∧
      decoded.map Slot.get = slots.map Slot.get := by
  refine fixed_round_trip (by decide) timeRow_length ?_ h hfit
  intro row slot p _ hp
  simp only [timeRow, mul_one] at hp
  split_ifs at hp with hnull
  · rw [← Except.ok.inj hp, timeValue_null]
    exact ⟨_, rfl, (slotOf_null 64).trans (slot_get_null hnull).symm⟩
  · rw [timeValue_appendTime hp]
    exact ⟨_, rfl, (slotOf_toInt slot.value).trans (slot_get_value hnull).symm⟩

theorem appendTimestamp_ok (h : appendTimestamp date micros row = .ok p) :
    ∃ time day, appendTime (micros % microsPerDay) row = .ok time ∧
      appendDate date (micros / microsPerDay) row = .ok day ∧ p = time ++ day := by
  simp only [appendTimestamp, bind_eq_ok, Except.ok.injEq] at h
  obtain ⟨time, htime, day, hday, rfl⟩ := h
  exact ⟨time, day, htime, hday, rfl⟩

theorem appendTimestamp_length (h : appendTimestamp date micros row = .ok p) : p.length = 12 := by
  obtain ⟨time, day, htime, hday, rfl⟩ := appendTimestamp_ok h
  rw [List.length_append, appendTime_length htime, appendDate_length hday]

theorem timestampValue_appendTimestamp (hd : Proleptic date)
    (h : appendTimestamp date micros row = .ok p) : timestampValue row p = .ok (some micros) := by
  obtain ⟨time, day, htime, hday, rfl⟩ := appendTimestamp_ok h
  have hlen := appendTime_length htime
  have hsum : micros / microsPerDay * 86400000000 + micros % microsPerDay = micros := by
    unfold microsPerDay
    omega
  simp only [timestampValue, List.take_left' hlen, List.drop_left' hlen,
    timeValue_appendTime htime, dateValue_appendDate hd hday]
  exact congrArg (fun n => Except.ok (some n)) hsum

theorem timestampRow_length {factor : Int} (row : Nat) (slot : Slot 64) (p : Bytes)
    (h : timestampRow date factor row slot = .ok p) : p.length = 12 := by
  simp only [timestampRow] at h
  split_ifs at h with hnull
  · simp [← Except.ok.inj h]
  · simp only [bind_eq_ok] at h
    obtain ⟨micros, -, h⟩ := h
    exact appendTimestamp_length h

theorem decodeTimestamp_encodeTimestampValues (hd : Proleptic date)
    (h : encodeTimestampValues date 1 slots = .ok bytes) (hfit : bytes.length ≤ isizeMax) :
    ∃ decoded, decodeTimestamp bytes slots.length = .ok decoded ∧
      decoded.map Slot.get = slots.map Slot.get := by
  refine fixed_round_trip (by decide) timestampRow_length ?_ h hfit
  intro row slot p _ hp
  simp only [timestampRow] at hp
  split_ifs at hp with hnull
  · rw [← Except.ok.inj hp]
    exact ⟨slotOf 64 none, rfl, (slotOf_null 64).trans (slot_get_null hnull).symm⟩
  · simp only [bind_eq_ok, okOr_eq_ok, checkedMulI64_eq_some, mul_one] at hp
    obtain ⟨micros, ⟨-, rfl⟩, hp⟩ := hp
    rw [timestampValue_appendTimestamp hd hp]
    exact ⟨_, rfl, (slotOf_toInt slot.value).trans (slot_get_value hnull).symm⟩

theorem durationRow_length {multiplier divisor : Int} (row : Nat) (slot : Slot 64) (p : Bytes)
    (h : durationRow multiplier divisor requireWholeDays row slot = .ok p) : p.length = 8 := by
  simp only [durationRow] at h
  split_ifs at h with hnull haligned
  · simp [← Except.ok.inj h]
  · simp [invalid] at h
  · simp only [bind_eq_ok] at h
    obtain ⟨value, -, h⟩ := h
    split_ifs at h
    · simp [invalid] at h
    · simp [invalid] at h
    · simp [← Except.ok.inj h]

theorem durationRow_ok {slot : Slot 64} (h : durationRow 1 1 requireWholeDays row slot = .ok p) :
    (slot.isNull = true ∨ (slot.value == BitVec.intMin 64) = false) ∧
      p = leBytes (if slot.isNull then BitVec.intMin 64 else slot.value) := by
  simp only [durationRow] at h
  split_ifs at h with hnull haligned
  · simp_all
  · simp [invalid] at h
  · simp only [bind_eq_ok, okOr_eq_ok, checkedMulI64_eq_some, Int.tdiv_one, mul_one] at h
    obtain ⟨value, ⟨-, rfl⟩, h⟩ := h
    split_ifs at h with hmin hdays
    · simp [invalid] at h
    · simp [invalid] at h
    · have hne : slot.value ≠ BitVec.intMin 64 := by
        intro heq
        rw [heq] at hmin
        exact hmin (by decide)
      rw [BitVec.ofInt_toInt] at h
      simp_all

theorem decodePrimitive_encodeDuration
    (h : encodeDurationValues 1 1 requireWholeDays slots = .ok bytes)
    (hfit : bytes.length ≤ isizeMax) :
    ∃ decoded, decodePrimitive 64 (· == BitVec.intMin 64) bytes slots.length = .ok decoded ∧
      decoded.map Slot.get = slots.map Slot.get := by
  rw [decodePrimitive_eq]
  refine fixed_round_trip (by decide) durationRow_length ?_ h hfit
  intro row slot p _ hp
  obtain ⟨hok, rfl⟩ := durationRow_ok hp
  exact ⟨_, rfl, primitiveSlot_get (by decide) (by decide) hok⟩

end Temporal

section Uuid

theorem uuidRow_length (row : Nat) (value : Option (FixedBytes 16)) (p : Bytes)
    (h : uuidRow row value = .ok p) : p.length = 16 := by
  cases value with
  | none => simp [← Except.ok.inj h]
  | some value =>
    simp only [uuidRow] at h
    split_ifs at h
    · simp [invalid] at h
    · rw [← Except.ok.inj h]
      exact value.property

theorem uuidValue_uuidRow {row : Nat} {value : Option (FixedBytes 16)} {p : Bytes}
    (h : uuidRow row value = .ok p) : uuidValue p = .ok value := by
  cases value with
  | none =>
    rw [← Except.ok.inj h]
    rfl
  | some value =>
    simp only [uuidRow] at h
    split_ifs at h with hzero
    · simp [invalid] at h
    · rw [← Except.ok.inj h, uuidValue, if_neg hzero, dif_pos value.property]

theorem decodeUuid_encodeUuid {values : List (Option (FixedBytes 16))} {bytes : Bytes}
    (h : encodeUuid values = .ok bytes) (hfit : bytes.length ≤ isizeMax) :
    decodeUuid bytes values.length = .ok values := by
  have hrow : ∀ row value p, value ∈ values → uuidRow row value = .ok p →
      ∃ decoded, uuidValue p = .ok decoded ∧ id decoded = id value :=
    fun row value p _ hp => ⟨value, uuidValue_uuidRow hp, rfl⟩
  obtain ⟨decoded, hdecode, hsame⟩ := fixed_round_trip (by decide) uuidRow_length hrow h hfit
  rw [List.map_id, List.map_id] at hsame
  rw [hsame] at hdecode
  exact hdecode

end Uuid

section Lengths
variable {w : Nat} {date : Int → Option Date} {bytes : Bytes} {slots : List (Slot 64)}
  {unit : TimeUnit}

theorem encodeChecked_length {reject : BitVec w → Bool} {message : String} {null : BitVec w}
    {slots : List (Slot w)} (h : encodeChecked reject message null slots = .ok bytes) :
    bytes.length = slots.length * (w / 8) := by
  rw [encodeChecked_eq_concat] at h
  exact concat_length checkedRow_length h

theorem encodePrimitive_length {slots : List (Slot w)} {null : BitVec w}
    (h : encodePrimitive slots null = .ok bytes) : bytes.length = slots.length * (w / 8) :=
  encodeChecked_length h

theorem encodeF32_length {slots : List (Slot 32)} (h : encodeF32 slots = .ok bytes) :
    bytes.length = slots.length * 4 :=
  encodeChecked_length h

theorem encodeF64_length (h : encodeF64 slots = .ok bytes) : bytes.length = slots.length * 8 :=
  encodeChecked_length h

theorem encodeUnsigned_length (wire : Nat) (slots : List (Slot w)) :
    (encodeUnsigned wire slots).length = slots.length * (wire / 8) := by
  rw [encodeUnsigned, flatten_length (wire / 8), List.length_map]
  intro p hp
  obtain ⟨slot, -, rfl⟩ := List.mem_map.mp hp
  exact leBytes_length _

theorem f16Row_length (row : Nat) (slot : Slot 16) (p : Bytes) (h : f16Row row slot = .ok p) :
    p.length = 4 := by
  simp only [f16Row] at h
  split_ifs at h
  · simp [← Except.ok.inj h]
  · simp [invalid] at h
  · simp [← Except.ok.inj h]

theorem decimalRow_length {precision width : Nat} {enforcePrecision : Bool} (row : Nat)
    (slot : Slot 128) (p : Bytes)
    (h : decimalRow precision width enforcePrecision row slot = .ok p) : p.length = width := by
  rw [narrow_length (decimalRow_ok h).1]
  omega

theorem encodeDecimal_length {slots : List (Slot 128)} {precision width : Nat}
    {enforcePrecision : Bool} (hwidth : decimalWireWidth precision = some width)
    (h : encodeDecimal slots precision enforcePrecision = .ok bytes) :
    bytes.length = slots.length * width := by
  simp only [encodeDecimal, hwidth] at h
  exact concat_length decimalRow_length h

theorem date64Row_length (row : Nat) (slot : Slot 64) (p : Bytes)
    (h : date64Row date row slot = .ok p) : p.length = 4 := by
  simp only [date64Row] at h
  split_ifs at h
  · simp [← Except.ok.inj h]
  · simp [invalid] at h
  · exact appendDate_length h

theorem timeNanosRow_length (row : Nat) (slot : Slot 64) (p : Bytes)
    (h : timeNanosRow row slot = .ok p) : p.length = 8 := by
  simp only [timeNanosRow] at h
  split_ifs at h
  · simp [← Except.ok.inj h]
  · simp [invalid] at h
  · exact appendTime_length h

theorem timestampNanosRow_length (row : Nat) (slot : Slot 64) (p : Bytes)
    (h : timestampNanosRow date row slot = .ok p) : p.length = 12 := by
  simp only [timestampNanosRow] at h
  split_ifs at h
  · simp [← Except.ok.inj h]
  · simp [invalid] at h
  · exact appendTimestamp_length h

theorem encodeTime32_length {slots : List (Slot 32)} (h : encodeTime32 unit slots = .ok bytes) :
    bytes.length = slots.length * 8 := by
  cases unit with
  | second | millisecond => exact concat_length timeRow_length h
  | microsecond | nanosecond => simp [encodeTime32] at h

theorem encodeTime64_length (h : encodeTime64 unit slots = .ok bytes) :
    bytes.length = slots.length * 8 := by
  cases unit with
  | second | millisecond => simp [encodeTime64] at h
  | microsecond => exact concat_length timeRow_length h
  | nanosecond => exact concat_length timeNanosRow_length h

theorem encodeTimestamp_length (h : encodeTimestamp date unit slots = .ok bytes) :
    bytes.length = slots.length * 12 := by
  cases unit with
  | second | millisecond | microsecond => exact concat_length timestampRow_length h
  | nanosecond => exact concat_length timestampNanosRow_length h

theorem encodeDuration_length {requireWholeDays : Bool}
    (h : encodeDuration unit requireWholeDays slots = .ok bytes) :
    bytes.length = slots.length * 8 := by
  cases unit <;> exact concat_length durationRow_length h

def nativeWireWidth (monetType : MonetType) : Primitive → Nat
  | .int8 => 1
  | .int16 | .uint8 => 2
  | .int32 | .uint16 | .float16 | .float32 | .date32 | .date64 => 4
  | .int64 | .uint32 | .float64 | .time32 _ | .time64 _ | .duration _ => 8
  | .timestamp _ _ => 12
  | .uint64 => if monetType = .oid then 8 else 16
  | .decimal128 precision _ => (decimalWireWidth precision).getD 0

theorem encodeNative_length {type : Primitive} {slots : List (Slot type.width)} {t : MonetType}
    (h : encodeNative date t type slots = .ok bytes) :
    bytes.length = slots.length * nativeWireWidth t type := by
  cases type with
  | int8 | int16 | int32 | int64 => exact encodePrimitive_length h
  | float32 => exact encodeF32_length h
  | float64 => exact encodeF64_length h
  | uint8 | uint16 | uint32 =>
    rw [← Except.ok.inj h]
    exact encodeUnsigned_length _ slots
  | uint64 =>
    rw [encodeNative] at h
    rw [nativeWireWidth]
    split_ifs at h ⊢ with hoid
    · exact concat_length oidRow_length h
    · rw [← Except.ok.inj h]
      exact encodeUnsigned_length 128 slots
  | float16 => exact concat_length f16Row_length h
  | decimal128 precision scale =>
    cases hwidth : decimalWireWidth precision with
    | none =>
      have hrejected : encodeDecimal slots precision (t != .hugeInt) = .ok bytes := h
      simp only [encodeDecimal, hwidth] at hrejected
      cases hrejected
    | some width =>
      rw [nativeWireWidth, hwidth]
      exact encodeDecimal_length hwidth h
  | date32 => exact concat_length date32Row_length h
  | date64 => exact concat_length date64Row_length h
  | time32 unit => exact encodeTime32_length h
  | time64 unit => exact encodeTime64_length h
  | timestamp unit timezone => exact encodeTimestamp_length h
  | duration unit => exact encodeDuration_length h

theorem nativeWireWidth_eq {field : Field} {type : Primitive} {t : MonetType} {width : Nat}
    (hfield : field.dataType = .primitive type) (ht : monetTypeForField field = .ok t)
    (hwidth : fixedWireWidth t = some width) : nativeWireWidth t type = width := by
  cases type with
  | int32 | time64 | timestamp | duration =>
    simp only [monetTypeForField, hfield, Except.ok.injEq] at ht
    rw [← ht] at hwidth
    split_ifs at hwidth <;> exact Option.some.inj hwidth
  | uint64 =>
    simp only [monetTypeForField, hfield, Except.ok.injEq] at ht
    split_ifs at ht with hoid
    · subst ht
      exact Option.some.inj hwidth
    · subst ht
      exact Option.some.inj hwidth
  | decimal128 precision scale =>
    simp only [monetTypeForField, hfield] at ht
    split_ifs at ht with hhuge hscale
    · cases ht
      cases hwidth
      rw [nativeWireWidth, hhuge.1]
      rfl
    · cases ht
      rw [fixedWireWidth] at hwidth
      rw [nativeWireWidth, hwidth]
      rfl
  | _ =>
    simp only [monetTypeForField, hfield, Except.ok.injEq] at ht
    rw [← ht] at hwidth
    exact Option.some.inj hwidth

end Lengths

end MonetdbAdbc
