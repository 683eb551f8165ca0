import MonetdbAdbc.Codec.ColumnCodec
import MonetdbAdbc.Codec.ExactDecode

namespace MonetdbAdbc
open LittleEndian Utf8 Machine Rows Calendar Slices

section Canonical

def PaddingZero (time : Bytes) : Prop := time = List.replicate 8 0xff ∨ time[7]? = some 0

def KnownYear (date : Bytes) : Prop :=
  date = List.replicate 4 0xff ∨ -4712 ≤ (ofLeBytes 16 (date.drop 2)).toInt

def WholeDays (interval : Bytes) : Prop :=
  ofLeBytes 64 interval = BitVec.intMin 64 ∨ (ofLeBytes 64 interval).toInt.tmod 86400000 = 0

def Reencodable (dataType : MonetType) (bytes : Bytes) : Prop :=
  match dataType with
  | .bool | .tinyInt | .smallInt | .int | .bigInt | .hugeInt | .decimal _ _ | .monthInterval
  | .secInterval | .uuid | .blob => True
  | .dayInterval => ∀ chunk ∈ chunksExact 8 bytes, WholeDays chunk
  | .time | .timeTz => ∀ chunk ∈ chunksExact 8 bytes, PaddingZero chunk
  | .date => ∀ chunk ∈ chunksExact 4 bytes, KnownYear chunk
  | .timestamp | .timestampTz =>
    ∀ chunk ∈ chunksExact 12 bytes, PaddingZero (chunk.take 8) ∧ KnownYear (chunk.drop 8)
  | _ => False

end Canonical

section Scalars
variable {α : Type} {w : Nat} {bytes chunk : Bytes} {rows row : Nat}

theorem fixed_reencode {width : Nat} (hw : 0 < width) {values : List α}
    {f : Nat → α → Except EncodeError Bytes} {g : Nat → Bytes → Except DecodeError α}
    (hfg : ∀ row chunk value, chunk ∈ chunksExact width bytes → g row chunk = .ok value →
      f row value = .ok chunk)
    (h : (do expectFixed bytes rows width; mapRows g (chunksExact width bytes)) = .ok values) :
    concat f values = .ok bytes := by
  obtain ⟨u, hfixed, hmap⟩ := bind_eq_ok.mp h
  have hrows : mapRows f values = .ok (chunksExact width bytes) := mapFrom_reverse hfg hmap
  rw [concat, hrows]
  exact congrArg Except.ok (chunksExact_flatten hw (length_of_expectFixed hfixed))

theorem invalidBool_eq_false {byte : UInt8} (h : invalidBool byte = false) :
    byte = 0x80 ∨ byte = 0 ∨ byte = 1 := by
  by_cases hnull : byte = 0x80
  · exact .inl hnull
  · have hsmall : ¬ 1 < byte := fun hlarge => by simp [invalidBool, hlarge, hnull] at h
    rw [UInt8.lt_iff_toNat_lt] at hsmall
    right
    simp only [← UInt8.toNat_inj, UInt8.reduceToNat] at hsmall ⊢
    omega

theorem encodeBool_boolValue (h : ∀ byte ∈ bytes, invalidBool byte = false) :
    encodeBool (bytes.map boolValue) = bytes := by
  induction bytes with
  | nil => rfl
  | cons byte bytes ih =>
    have hbyte : encodeBool [boolValue byte] = [byte] := by
      rcases invalidBool_eq_false (h byte List.mem_cons_self) with rfl | rfl | rfl <;> rfl
    have hrest := ih fun byte hmem => h byte (List.mem_cons_of_mem _ hmem)
    exact congrArg₂ (· ++ ·) hbyte hrest

theorem encodeBool_decodeBool {values : List (Option Bool)}
    (h : decodeBool bytes rows = .ok values) : encodeBool values = bytes := by
  obtain ⟨u, hfixed, -⟩ := bind_eq_ok.mp h
  rw [decodeBool_eq hfixed] at h
  cases hfind : bytes.findIdx? invalidBool with
  | some index => simp [hfind] at h
  | none =>
    rw [hfind] at h
    rw [← Except.ok.inj h]
    exact encodeBool_boolValue (List.findIdx?_eq_none_iff.mp hfind)

theorem checkedRow_primitiveSlot {null : BitVec w} {message : String}
    (hchunk : w = 8 * chunk.length) :
    checkedRow (· == null) message null row (primitiveSlot (· == null) chunk) = .ok chunk := by
  have hbytes : leBytes (ofLeBytes w chunk) = chunk := leBytes_ofLeBytes chunk hchunk
  by_cases hnull : ofLeBytes w chunk = null
  · have hnullBytes : leBytes null = chunk := by rw [← hnull, hbytes]
    simp [checkedRow, primitiveSlot, hnull, Except.map, hnullBytes]
  · simp [checkedRow, primitiveSlot, hnull, Except.map, hbytes]

theorem encodePrimitive_decodePrimitive {null : BitVec w} {slots : List (Slot w)} (hw : 8 ∣ w)
    (hpos : 0 < w) (h : decodePrimitive w (· == null) bytes rows = .ok slots) :
    encodePrimitive slots null = .ok bytes := by
  rw [decodePrimitive_eq] at h
  rw [encodePrimitive, encodeChecked_eq_concat]
  refine fixed_reencode (by omega) (fun row chunk value hchunk hvalue => ?_) h
  rw [← Except.ok.inj hvalue]
  have hlength := chunksExact_length bytes chunk hchunk
  exact checkedRow_primitiveSlot (by omega)

theorem decimalRow_decimalValue {width precision : Nat} {hugeint : Bool} {slot : Slot 128}
    (hwidth : 0 < width ∧ width ≤ 16) (hchunk : chunk.length = width)
    (h : decimalValue width precision hugeint row chunk = .ok slot) :
    decimalRow precision width (!hugeint) row slot = .ok chunk := by
  have hbytes : leBytes (ofLeBytes (8 * width) chunk) = chunk :=
    leBytes_ofLeBytes chunk (by rw [hchunk])
  have hlow := BitVec.le_toInt (ofLeBytes (8 * width) chunk)
  have hhigh := BitVec.toInt_lt (x := ofLeBytes (8 * width) chunk)
  rw [decimalValue] at h
  obtain ⟨hlimit, h⟩ := ite_error_eq_ok.mp h
  have hwide : (BitVec.ofInt 128 (ofLeBytes (8 * width) chunk).toInt).toInt =
      (ofLeBytes (8 * width) chunk).toInt := by
    rw [BitVec.toInt_ofInt]
    have hpow : (2 : Int) ^ (8 * width - 1) ≤ 2 ^ 127 := by
      exact pow_le_pow_right₀ (by decide) (by omega)
    apply Int.bmod_eq_of_le <;> omega
  rw [← Except.ok.inj h, decimalRow]
  by_cases hnull : (ofLeBytes (8 * width) chunk).toInt = -(2 ^ (8 * width - 1))
  · have hmin : leBytes (BitVec.intMin (8 * width)) = chunk := by
      rw [← hbytes]
      congr 1
      rw [← BitVec.toInt_inj, BitVec.toInt_intMin_of_pos (by omega), hnull]
    simp [Slot.get, hnull, narrow, hmin]
  · have hnarrow : narrow (8 * width) row (some (ofLeBytes (8 * width) chunk).toInt) = .ok chunk := by
      rw [narrow, if_neg (by push Not; exact ⟨hlow, hhigh⟩), if_neg hnull, BitVec.ofInt_toInt, hbytes]
    have hprecision : (!hugeint && (some (ofLeBytes (8 * width) chunk).toInt).any fun value =>
        decide (value ≤ -(10 ^ precision : Int) ∨ value ≥ 10 ^ precision)) = false := by
      simp [hnull] at hlimit
      simp [hlimit]
    simp only [Slot.get, beq_eq_false_iff_ne.mpr hnull, Bool.false_eq_true, if_false, Option.map_some,
      hwide]
    rw [if_neg (by rw [hprecision]; simp), hnarrow]

theorem encodeDecimal_decodeDecimal {precision : Nat} {scale : Int} {hugeint : Bool}
    {slots : List (Slot 128)} (hhuge : hugeint = true → precision = 38)
    (h : decodeDecimal bytes rows precision scale hugeint = .ok slots) :
    encodeDecimal slots precision (!hugeint) = .ok bytes := by
  rw [decodeDecimal] at h
  obtain ⟨hrange, h⟩ := ite_error_eq_ok.mp h
  obtain ⟨width, hwidth⟩ := decimalWireWidth_isSome precision (by omega)
  have hselect : (if hugeint then some 16 else decimalWireWidth precision) = some width := by
    cases hugeint with
    | false => exact hwidth
    | true =>
      rw [hhuge rfl] at hwidth
      exact hwidth
  simp only [hselect] at h
  have hmem := decimalWireWidth_mem hwidth
  simp only [List.mem_cons, List.not_mem_nil, or_false] at hmem
  rw [encodeDecimal, hwidth]
  exact fixed_reencode (by omega) (fun row chunk slot hchunk hslot =>
    decimalRow_decimalValue (by omega) (chunksExact_length bytes chunk hchunk) hslot) h

theorem durationRow_primitiveSlot {requireWholeDays : Bool} (hchunk : chunk.length = 8)
    (hdays : requireWholeDays = true → WholeDays chunk) :
    durationRow 1 1 requireWholeDays row (primitiveSlot (· == BitVec.intMin 64) chunk) =
      .ok chunk := by
  have hbytes : leBytes (ofLeBytes 64 chunk) = chunk := leBytes_ofLeBytes chunk (by rw [hchunk])
  by_cases hnull : ofLeBytes 64 chunk = BitVec.intMin 64
  · have hmin : leBytes (BitVec.intMin 64) = chunk := by rw [← hnull, hbytes]
    simp [durationRow, primitiveSlot, hnull, hmin]
  · have hvalue : (ofLeBytes 64 chunk).toInt ≠ -(2 ^ 63) := by
      intro heq
      refine hnull (BitVec.eq_of_toInt_eq ?_)
      rw [heq]
      rfl
    have hlow := BitVec.le_toInt (ofLeBytes 64 chunk)
    have hhigh := BitVec.toInt_lt (x := ofLeBytes 64 chunk)
    have hmul : checkedMulI64 ((ofLeBytes 64 chunk).toInt.tdiv 1) 1 =
        some (ofLeBytes 64 chunk).toInt := by
      rw [checkedMulI64_eq_some, Int.tdiv_one, mul_one]
      refine ⟨?_, rfl⟩
      simp only [inI64, decide_eq_true_eq]
      exact ⟨hlow, hhigh⟩
    have hwhole : ¬(requireWholeDays && (ofLeBytes 64 chunk).toInt.tmod 86400000 != 0) = true := by
      cases hrequire : requireWholeDays with
      | false => simp
      | true => simp [(hdays hrequire).resolve_left hnull]
    simp only [durationRow, primitiveSlot, beq_eq_false_iff_ne.mpr hnull, Bool.false_eq_true, if_false,
      Int.tmod_one, ne_eq, not_true, hmul, okOr_some, ok_bind]
    rw [if_neg hvalue, if_neg hwhole, BitVec.ofInt_toInt, hbytes]

theorem encodeDuration_decodePrimitive {requireWholeDays : Bool} {slots : List (Slot 64)}
    (hdays : requireWholeDays = true → ∀ chunk ∈ chunksExact 8 bytes, WholeDays chunk)
    (h : decodePrimitive 64 (· == BitVec.intMin 64) bytes rows = .ok slots) :
    encodeDuration .millisecond requireWholeDays slots = .ok bytes := by
  rw [decodePrimitive_eq] at h
  refine fixed_reencode (by decide) (fun row chunk value hchunk hvalue => ?_) h
  rw [← Except.ok.inj hvalue]
  exact durationRow_primitiveSlot (chunksExact_length bytes chunk hchunk)
    fun hrequire => hdays hrequire chunk hchunk

theorem uuidRow_uuidValue {value : Option (FixedBytes 16)} (hchunk : chunk.length = 16)
    (h : uuidValue chunk = .ok value) : uuidRow row value = .ok chunk := by
  rw [uuidValue] at h
  split_ifs at h with hzero
  · rw [← Except.ok.inj h, uuidRow]
    congr 1
    exact (List.eq_replicate_iff.mpr ⟨hchunk, by simpa using hzero⟩).symm
  · rw [← Except.ok.inj h, uuidRow, if_neg hzero]

theorem encodeUuid_decodeUuid {values : List (Option (FixedBytes 16))}
    (h : decodeUuid bytes rows = .ok values) : encodeUuid values = .ok bytes :=
  fixed_reencode (by decide) (fun _ chunk _ hchunk =>
    uuidRow_uuidValue (chunksExact_length bytes chunk hchunk)) h

theorem encodeBlobs_decodeBlobValues {total n pos valueBytes : Nat} {tail : Bytes}
    {values : List (Option Bytes)} (hpos : pos + tail.length = total)
    (h : decodeBlobValues total n row pos valueBytes tail = .ok values) :
    encodeBlobs values = tail := by
  induction n generalizing row pos valueBytes tail values with
  | zero =>
    rw [decodeBlobValues] at h
    obtain ⟨hend, h⟩ := ite_error_eq_ok.mp h
    rw [← Except.ok.inj h, List.length_eq_zero_iff.mp (by omega : tail.length = 0)]
    rfl
  | succ n ih =>
    obtain ⟨hheader, rest, hcase⟩ := decodeBlobValues_succ h
    have htake : (tail.take 8).length = 8 := by
      rw [List.length_take]
      omega
    have hbytes : leBytes (ofLeBytes 64 (tail.take 8)) = tail.take 8 :=
      leBytes_ofLeBytes _ (by rw [htake])
    rcases hcase with ⟨hnull, rfl, hrest⟩ | ⟨length, hlength, hfits, rfl, hrest⟩
    · have hvalues := ih (by rw [List.length_drop]; omega) hrest
      have hvalue : ofLeBytes 64 (tail.take 8) = BitVec.ofInt 64 (-1) := by
        rw [← hnull, BitVec.ofInt_toInt]
      rw [encodeBlobs_cons, hvalues, ← hvalue, hbytes, List.take_append_drop]
    · have hvalues := ih (by rw [List.length_drop, List.length_drop]; rw [List.length_drop] at hfits; omega)
        hrest
      have hvalue : ofLeBytes 64 (tail.take 8) = BitVec.ofNat 64 length := by
        rw [← BitVec.ofInt_natCast, ← hlength, BitVec.ofInt_toInt]
      have hcount : ((tail.drop 8).take length).length = length := by
        rw [List.length_take]
        omega
      rw [encodeBlobs_cons, hvalues]
      dsimp only
      rw [hcount, ← hvalue, hbytes, List.append_assoc, List.take_append_drop, List.take_append_drop]

end Scalars

section Temporal
variable {date : Int → Option Date} {chunk bytes : Bytes} {row : Nat}

theorem eight_bytes (h : chunk.length = 8) :
    ∃ b0 b1 b2 b3 second minute hour padding,
      chunk = [b0, b1, b2, b3, second, minute, hour, padding] := by
  match chunk, h with
  | [b0, b1, b2, b3, second, minute, hour, padding], _ =>
    exact ⟨b0, b1, b2, b3, second, minute, hour, padding, rfl⟩

theorem timeValue_none (hchunk : chunk.length = 8) (h : timeValue row chunk = .ok none) :
    chunk = List.replicate 8 0xff := by
  obtain ⟨b0, b1, b2, b3, second, minute, hour, padding, rfl⟩ := eight_bytes hchunk
  simp only [timeValue] at h
  split_ifs at h with hmax hall
  · exact List.eq_replicate_iff.mpr ⟨rfl, by simpa using hall⟩
  · cases h

theorem timeValue_some {micros : Int} (hchunk : chunk.length = 8) (hpadding : PaddingZero chunk)
    (h : timeValue row chunk = .ok (some micros)) :
    0 ≤ micros ∧ micros < microsPerDay ∧ appendTime micros row = .ok chunk := by
  obtain ⟨b0, b1, b2, b3, second, minute, hour, padding, rfl⟩ := eight_bytes hchunk
  have hbytes : leBytes (ofLeBytes 32 [b0, b1, b2, b3]) = [b0, b1, b2, b3] :=
    leBytes_ofLeBytes _ rfl
  simp only [timeValue] at h
  split_ifs at h with hmax hall hrange
  · cases h
  have hzero : padding = 0 := by
    rcases hpadding with hnull | hzero
    · refine absurd ?_ hmax
      obtain ⟨rfl, rfl, rfl, rfl, -⟩ : b0 = 0xff ∧ b1 = 0xff ∧ b2 = 0xff ∧ b3 = 0xff ∧ _ := by
        simpa using hnull
      rfl
    · simpa using hzero
  push Not at hrange
  obtain ⟨hfraction, hsecond, hminute, hhour⟩ := hrange
  simp only [ge_iff_le, UInt8.le_iff_toNat_le, UInt8.reduceToNat] at hsecond hminute hhour
  generalize hn : (ofLeBytes 32 [b0, b1, b2, b3]).toNat = n at *
  have hmicros := Option.some.inj (Except.ok.inj h)
  have hday : microsPerDay = 86400000000 := rfl
  have hbounds : 0 ≤ micros ∧ micros < microsPerDay := by omega
  refine ⟨hbounds.1, hbounds.2, ?_⟩
  have hlow : BitVec.ofInt 32 (micros % 1000000) = ofLeBytes 32 [b0, b1, b2, b3] := by
    rw [← BitVec.toNat_inj, BitVec.toNat_ofInt, hn]
    omega
  have hseconds : UInt8.ofNat (micros / 1000000 % 60).toNat = second := by
    rw [← UInt8.toNat_inj, UInt8.toNat_ofNat']
    omega
  have hminutes : UInt8.ofNat (micros / 1000000 / 60 % 60).toNat = minute := by
    rw [← UInt8.toNat_inj, UInt8.toNat_ofNat']
    omega
  have hhours : UInt8.ofNat (micros / 1000000 / 3600).toNat = hour := by
    rw [← UInt8.toNat_inj, UInt8.toNat_ofNat']
    omega
  rw [appendTime, if_neg (not_not.mpr hbounds)]
  simp only [hlow, hbytes, hseconds, hminutes, hhours, hzero]
  rfl

theorem encodeTime_decodeTime {rows : Nat} {slots : List (Slot 64)}
    (hpadding : ∀ chunk ∈ chunksExact 8 bytes, PaddingZero chunk)
    (h : decodeTime bytes rows = .ok slots) : encodeTime64 .microsecond slots = .ok bytes := by
  refine fixed_reencode (by decide) (fun row chunk slot hchunk hslot => ?_) h
  have hlength := chunksExact_length bytes chunk hchunk
  obtain ⟨value, hvalue, rfl⟩ := map_eq_ok.mp hslot
  cases value with
  | none => rw [timeValue_none hlength hvalue]; rfl
  | some micros =>
    obtain ⟨hlow, hhigh, happend⟩ := timeValue_some hlength (hpadding chunk hchunk) hvalue
    have hday : microsPerDay = 86400000000 := rfl
    have hmicros : (BitVec.ofInt 64 micros).toInt = micros := by
      rw [BitVec.toInt_ofInt]
      apply Int.bmod_eq_of_le <;> omega
    simpa [timeRow, slotOf, hmicros] using happend

theorem dateValue_none (hchunk : chunk.length = 4) (h : dateValue row chunk = .ok none) :
    chunk = List.replicate 4 0xff := by
  obtain ⟨day, month, low, high, rfl⟩ := List.length_eq_four.mp hchunk
  simp only [dateValue] at h
  split_ifs at h with hnull hall
  · exact List.eq_replicate_iff.mpr ⟨rfl, by simpa using hall⟩
  · cases h

theorem dateValue_some (hd : Proleptic date) (hyears : HasYears date (-4712) 32767) {days : Int}
    (hchunk : chunk.length = 4) (hyear : KnownYear chunk)
    (h : dateValue row chunk = .ok (some days)) :
    -2500000 ≤ days ∧ days ≤ 12000000 ∧ appendDate date days row = .ok chunk := by
  obtain ⟨day, month, low, high, rfl⟩ := List.length_eq_four.mp hchunk
  have hbytes : leBytes (ofLeBytes 16 [low, high]) = [low, high] := leBytes_ofLeBytes _ rfl
  simp only [dateValue] at h
  split_ifs at h with hnull hall hvalid hrange
  · cases h
  have hyear : -4712 ≤ (ofLeBytes 16 [low, high]).toInt := by
    refine hyear.resolve_left fun heq => hnull ?_
    simp at heq
    exact heq.2.1
  have hhigh : (ofLeBytes 16 [low, high]).toInt ≤ 32767 := by
    have hlt := BitVec.toInt_lt (x := ofLeBytes 16 [low, high])
    omega
  generalize hy : (ofLeBytes 16 [low, high]).toInt = year at *
  have hdate := valid_of_validYmd (by simpa using hvalid)
  have hdays := Option.some.inj (Except.ok.inj h)
  have hfound := date_daysFromCivil hd hyears hdate hyear hhigh
  simp only [hdays] at hfound
  have hbounds := daysFromCivil_bounds hdate hyear hhigh
  simp only [hdays] at hbounds
  refine ⟨hbounds.1, hbounds.2, ?_⟩
  rw [appendDate, dateFromDays, hfound, okOr_some, ok_bind]
  simp only
  rw [if_neg (by omega), if_neg (by omega), ← hy, BitVec.ofInt_toInt, hbytes]
  simp

theorem encodeDate_decodeDate (hd : Proleptic date) (hyears : HasYears date (-4712) 32767)
    {rows : Nat} {slots : List (Slot 32)} (hyear : ∀ chunk ∈ chunksExact 4 bytes, KnownYear chunk)
    (h : decodeDate bytes rows = .ok slots) : encodeDate32 date slots = .ok bytes := by
  refine fixed_reencode (by decide) (fun row chunk slot hchunk hslot => ?_) h
  have hlength := chunksExact_length bytes chunk hchunk
  obtain ⟨value, hvalue, rfl⟩ := map_eq_ok.mp hslot
  cases value with
  | none => rw [dateValue_none hlength hvalue]; rfl
  | some days =>
    obtain ⟨hlow, hhigh, happend⟩ := dateValue_some hd hyears hlength (hyear chunk hchunk) hvalue
    have hdays : (BitVec.ofInt 32 days).toInt = days := by
      rw [BitVec.toInt_ofInt]
      apply Int.bmod_eq_of_le <;> omega
    simpa [date32Row, slotOf, hdays] using happend

theorem appendTimestamp_append {days micros : Int} {first second : Bytes} (hlow : 0 ≤ micros)
    (hhigh : micros < microsPerDay) (htime : appendTime micros row = .ok first)
    (hdate : appendDate date days row = .ok second) :
    appendTimestamp date (days * 86400000000 + micros) row = .ok (first ++ second) := by
  have hday : microsPerDay = 86400000000 := rfl
  have hmod : (days * 86400000000 + micros) % microsPerDay = micros := by
    rw [hday] at hhigh ⊢
    omega
  have hdiv : (days * 86400000000 + micros) / microsPerDay = days := by
    rw [hday] at hhigh ⊢
    omega
  rw [appendTimestamp, hmod, hdiv, htime, ok_bind, hdate, ok_bind]

theorem timestampRow_timestampValue (hd : Proleptic date) (hyears : HasYears date (-4712) 32767)
    {value : Option Int} (hchunk : chunk.length = 12) (hpadding : PaddingZero (chunk.take 8))
    (hyear : KnownYear (chunk.drop 8)) (h : timestampValue row chunk = .ok value) :
    timestampRow date 1 row (slotOf 64 value) = .ok chunk := by
  have htake : (chunk.take 8).length = 8 := by simp [hchunk]
  have hdrop : (chunk.drop 8).length = 4 := by simp [hchunk]
  rw [timestampValue] at h
  obtain ⟨time, htime, h⟩ := bind_eq_ok.mp h
  obtain ⟨day, hday, h⟩ := bind_eq_ok.mp h
  cases time with
  | none =>
    cases day with
    | some day => cases h
    | none =>
      rw [← Except.ok.inj h, ← List.take_append_drop 8 chunk, timeValue_none htake htime,
        dateValue_none hdrop hday]
      rfl
  | some micros =>
    cases day with
    | none => cases h
    | some days =>
      obtain ⟨hlow, hhigh, happendTime⟩ := timeValue_some htake hpadding htime
      obtain ⟨hfirst, hlast, happendDate⟩ := dateValue_some hd hyears hdrop hyear hday
      have hperDay : microsPerDay = 86400000000 := rfl
      have hvalue : (BitVec.ofInt 64 (days * 86400000000 + micros)).toInt =
          days * 86400000000 + micros := by
        rw [BitVec.toInt_ofInt]
        apply Int.bmod_eq_of_le <;> omega
      have hmul : checkedMulI64 (days * 86400000000 + micros) 1 =
          some (days * 86400000000 + micros) := by
        rw [checkedMulI64_eq_some, mul_one]
        refine ⟨?_, rfl⟩
        simp only [inI64, decide_eq_true_eq]
        omega
      have happend := appendTimestamp_append hlow hhigh happendTime happendDate
      rw [List.take_append_drop] at happend
      rw [← Except.ok.inj h, timestampRow, slotOf]
      simp only [Bool.false_eq_true, if_false, hvalue, hmul, okOr_some, ok_bind, happend]

theorem encodeTimestamp_decodeTimestamp (hd : Proleptic date)
    (hyears : HasYears date (-4712) 32767) {rows : Nat} {slots : List (Slot 64)}
    (hparts : ∀ chunk ∈ chunksExact 12 bytes,
      PaddingZero (chunk.take 8) ∧ KnownYear (chunk.drop 8))
    (h : decodeTimestamp bytes rows = .ok slots) :
    encodeTimestamp date .microsecond slots = .ok bytes := by
  refine fixed_reencode (by decide) (fun row chunk slot hchunk hslot => ?_) h
  obtain ⟨value, hvalue, rfl⟩ := map_eq_ok.mp hslot
  exact timestampRow_timestampValue hd hyears (chunksExact_length bytes chunk hchunk)
    (hparts chunk hchunk).1 (hparts chunk hchunk).2 hvalue

end Temporal

section Columns
variable {date : Int → Option Date} {dataType : MonetType} {bytes : Bytes} {rows : Nat}
  {column : Column}

theorem encodeArray_decodeColumn (hd : Proleptic date) (hyears : HasYears date (-4712) 32767)
    (hbytes : Reencodable dataType bytes) (h : decodeColumn dataType bytes rows = .ok column) :
    encodeArray date dataType column = .ok bytes := by
  cases dataType with
  | bool =>
    obtain ⟨values, hvalues, rfl⟩ := map_eq_ok.mp h
    exact congrArg Except.ok (encodeBool_decodeBool hvalues)
  | tinyInt | smallInt | int | bigInt | monthInterval =>
    obtain ⟨slots, hslots, rfl⟩ := map_eq_ok.mp h
    exact encodePrimitive_decodePrimitive (by decide) (by decide) hslots
  | hugeInt =>
    obtain ⟨slots, hslots, rfl⟩ := map_eq_ok.mp h
    exact encodeDecimal_decodeDecimal (fun _ => rfl) hslots
  | decimal precision scale =>
    obtain ⟨scale, -, h⟩ := bind_eq_ok.mp h
    obtain ⟨slots, hslots, rfl⟩ := map_eq_ok.mp h
    exact encodeDecimal_decodeDecimal (fun hfalse => by cases hfalse) hslots
  | dayInterval =>
    obtain ⟨slots, hslots, rfl⟩ := map_eq_ok.mp h
    exact encodeDuration_decodePrimitive (fun _ => hbytes) hslots
  | secInterval =>
    obtain ⟨slots, hslots, rfl⟩ := map_eq_ok.mp h
    exact encodeDuration_decodePrimitive (fun hfalse => by cases hfalse) hslots
  | time | timeTz =>
    obtain ⟨slots, hslots, rfl⟩ := map_eq_ok.mp h
    exact encodeTime_decodeTime hbytes hslots
  | date =>
    obtain ⟨slots, hslots, rfl⟩ := map_eq_ok.mp h
    exact encodeDate_decodeDate hd hyears hbytes hslots
  | timestamp | timestampTz =>
    obtain ⟨slots, hslots, rfl⟩ := map_eq_ok.mp h
    exact encodeTimestamp_decodeTimestamp hd hyears hbytes hslots
  | uuid =>
    obtain ⟨values, hvalues, rfl⟩ := map_eq_ok.mp h
    exact encodeUuid_decodeUuid hvalues
  | blob =>
    obtain ⟨values, hvalues, rfl⟩ := map_eq_ok.mp h
    exact congrArg Except.ok (encodeBlobs_decodeBlobValues (zero_add _) (decodeBlob_ok hvalues))
  | varchar | url | json | real | double | oid | inet | inet4 | inet6 | geometry | xml =>
    exact hbytes.elim

theorem fieldForMonetType_of_decodeColumn (name : String)
    (h : decodeColumn dataType bytes rows = .ok column) :
    ∃ field, fieldForMonetType name dataType = .ok field := by
  cases dataType with
  | decimal precision scale =>
    obtain ⟨found, hscale, h⟩ := bind_eq_ok.mp h
    obtain ⟨slots, hslots, -⟩ := map_eq_ok.mp h
    rw [decodeDecimal] at hslots
    obtain ⟨hrange, -⟩ := ite_error_eq_ok.mp hslots
    rw [decimalScale] at hscale
    split_ifs at hscale with hsmall
    cases hscale
    refine ⟨⟨name, .primitive (.decimal128 precision scale), true, none⟩, ?_⟩
    rw [fieldForMonetType, dataTypeForMonetType, decimalDataType, if_neg (by omega), decimalScale,
      if_pos hsmall]
    rfl
  | geometry | inet | xml => simp [decodeColumn] at h
  | _ => exact ⟨_, rfl⟩

theorem decodeColumn_dataType_ne_null (h : decodeColumn dataType bytes rows = .ok column) :
    column.dataType ≠ .null := by
  cases dataType with
  | decimal precision scale =>
    obtain ⟨scale, -, h⟩ := bind_eq_ok.mp h
    obtain ⟨slots, -, rfl⟩ := map_eq_ok.mp h
    simp [Column.dataType]
  | geometry | inet | xml => simp [decodeColumn] at h
  | _ =>
    obtain ⟨values, -, rfl⟩ := map_eq_ok.mp h
    simp [Column.dataType]

theorem reserveFixed_ok {width : Nat} (h : rows * width ≤ isizeMax) :
    reserveFixed rows (some width) = .ok () := by
  have hmax : isizeMax ≤ usizeMax := by decide
  rw [reserveFixed, checkedMul_eq_some.mpr ⟨h.trans hmax, rfl⟩]
  exact if_neg (Nat.not_lt.mpr h)

theorem Reencodable.varcharWidth (h : Reencodable dataType bytes) :
    varcharWidth dataType = dataType := by
  cases dataType with
  | varchar => exact h.elim
  | _ => rfl

theorem reencoding_reproduces_bytes (hd : Proleptic date) (hyears : HasYears date (-4712) 32767)
    (name : String) (dataType : MonetType) (bytes : Slice) (rows : Nat) (column : Column)
    (hbytes : Reencodable dataType bytes.bytes)
    (h : decodeColumn dataType bytes.bytes rows = .ok column) :
    ∃ field, fieldForMonetType name dataType = .ok field ∧
      encodeColumn date field column = .ok bytes.bytes := by
  obtain ⟨field, hfield⟩ := fieldForMonetType_of_decodeColumn name h
  have htype := monetTypeForField_fieldForMonetType hfield
  rw [hbytes.varcharWidth] at htype
  have hwidth : arrayWireWidth field column.dataType = .ok (fixedWireWidth dataType) := by
    have hfieldType : field.dataType ≠ .null := by
      intro hnull
      rw [monetTypeForField, hnull] at htype
      rw [← Except.ok.inj htype] at hbytes
      exact hbytes
    rw [arrayWireWidth, if_neg (decodeColumn_dataType_ne_null h), fixedEncodedWidth,
      if_neg hfieldType, htype]
    rfl
  have hreserve : reserveFixed column.len (fixedWireWidth dataType) = .ok () := by
    cases hfixed : fixedWireWidth dataType with
    | none => rfl
    | some width =>
      rw [decodeColumn_length bytes.fits h]
      exact reserveFixed_ok (decodeColumn_fixedLength hfixed h ▸ bytes.fits)
  refine ⟨field, hfield, ?_⟩
  rw [encodeColumn, htype, ok_bind, hwidth, ok_bind, hreserve, ok_bind,
    encodeArray_decodeColumn hd hyears hbytes h, ok_bind, withinCapacity, if_pos bytes.fits]

theorem timestamp_reencoding_reproduces_bytes :
    ∃ column field,
      decodeColumn .timestamp [1, 0, 0, 0, 2, 3, 4, 0, 1, 1, 0xb2, 7] 1 = .ok column ∧
      fieldForMonetType "t" .timestamp = .ok field ∧
      encodeColumn allDates field column = .ok [1, 0, 0, 0, 2, 3, 4, 0, 1, 1, 0xb2, 7] := by
  have hdecode : decodeColumn .timestamp [1, 0, 0, 0, 2, 3, 4, 0, 1, 1, 0xb2, 7] 1 =
      .ok (.primitive (.timestamp .microsecond none) [slotOf 64 (some 14582000001)]) := rfl
  have hparts : Reencodable .timestamp [1, 0, 0, 0, 2, 3, 4, 0, 1, 1, 0xb2, 7] := by
    intro chunk hchunk
    obtain rfl : chunk = [1, 0, 0, 0, 2, 3, 4, 0, 1, 1, 0xb2, 7] := List.mem_singleton.mp hchunk
    exact ⟨.inr rfl, .inr (by decide)⟩
  obtain ⟨field, hfield, hencode⟩ := reencoding_reproduces_bytes allDates_proleptic
    (allDates_hasYears (-4712) 32767) "t" .timestamp
    ⟨[1, 0, 0, 0, 2, 3, 4, 0, 1, 1, 0xb2, 7], by decide⟩ 1 _ hparts hdecode
  exact ⟨_, field, hdecode, hfield, hencode⟩

end Columns

end MonetdbAdbc
