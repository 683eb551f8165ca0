import MonetdbAdbc.Codec.SliceEncode

namespace MonetdbAdbc
open LittleEndian Utf8 Machine Rows Calendar

section Cuts
variable {date : Int → Option Date} {field : Field} {monetType : MonetType} {array : Column}
  {targetBytes rows : Nat}

def consecutive (array : Column) : Nat → List Nat → List Column
  | _, [] => []
  | start, len :: lens => array.slice start len :: consecutive array (start + len) lens

structure Covers (array : Column) (lens : List Nat) : Prop where
  sum : lens.sum = array.len
  pos : ∀ len ∈ lens, 0 < len

theorem Column.slice_all (array : Column) : array.slice 0 array.len = array := by
  cases array <;> simp [Column.slice, Column.len]

theorem isOk_consecutive (h : Reservable array) {lens : List Nat} (hlens : lens ≠ []) (start : Nat) :
    IsOk (encodeArray date monetType (array.slice start lens.sum)) ↔
      ∀ piece ∈ consecutive array start lens, IsOk (encodeArray date monetType piece) := by
  induction lens generalizing start with
  | nil => exact absurd rfl hlens
  | cons len lens ih =>
    rw [consecutive, List.forall_mem_cons, List.sum_cons]
    cases lens with
    | nil => simp [consecutive]
    | cons next lens => rw [encodeArray_slice_add h, ih (by simp)]

def cutAt (array : Column) (rows start : Nat) : Nat := min (array.len - start) rows

theorem consecutive_range (n k : Nat) (hn : ∀ i, i < k + n ↔ i * rows < array.len) :
    consecutive array (k * rows) ((List.range' k n).map fun i => cutAt array rows (i * rows)) =
      (List.range' k n).map fun i => pieceAt array rows (i * rows) := by
  induction n generalizing k with
  | zero => rfl
  | succ n ih =>
    rw [List.range'_succ, List.map_cons, List.map_cons, consecutive]
    congr 1
    cases n with
    | zero => rfl
    | succ n =>
      have hnext := (hn (k + 1)).mp (by omega)
      rw [Nat.succ_mul] at hnext
      have hcut : k * rows + cutAt array rows (k * rows) = (k + 1) * rows := by
        rw [cutAt, Nat.succ_mul]
        omega
      rw [hcut]
      exact ih (k + 1) fun i => by rw [← hn i]; omega

theorem sum_range_cuts (n k : Nat) (hn : ∀ i, i < k + n ↔ i * rows < array.len) :
    ((List.range' k n).map fun i => cutAt array rows (i * rows)).sum = array.len - k * rows := by
  induction n generalizing k with
  | zero =>
    have hend := hn k
    simp only [List.range'_zero, List.map_nil, List.sum_nil]
    omega
  | succ n ih =>
    rw [List.range'_succ, List.map_cons, List.sum_cons,
      ih (k + 1) fun i => by rw [← hn i]; omega, cutAt, Nat.succ_mul]
    omega

theorem rowsPerChunk_pos (targetBytes len estimated : Nat) :
    0 < rowsPerChunk targetBytes len estimated := by
  rw [rowsPerChunk]
  split_ifs <;> omega

theorem pieces_consecutive (field : Field) (targetBytes : Nat) (array : Column) :
    ∃ lens, pieces field targetBytes array = consecutive array 0 lens ∧ Covers array lens := by
  set rows := rowsPerChunk targetBytes array.len (rowEstimates field array).sum with hrows
  have hpos : 0 < rows := rowsPerChunk_pos _ _ _
  set n := (array.len + rows - 1) / rows with hn
  have hcount (i : Nat) : i < 0 + n ↔ i * rows < array.len := by
    rw [zero_add, hn, ← Nat.add_one_le_iff, Nat.le_div_iff_mul_le hpos, Nat.succ_mul]
    omega
  have hpieces : pieces field targetBytes array =
      (List.range' 0 n).map fun i => pieceAt array rows (i * rows) := by
    rw [pieces, ← hrows, chunkStarts, ← hn, List.map_map, List.range_eq_range']
    rfl
  refine ⟨(List.range' 0 n).map fun i => cutAt array rows (i * rows), ?_, ?_, ?_⟩
  · rw [hpieces, ← consecutive_range n 0 hcount, Nat.zero_mul]
  · rw [sum_range_cuts n 0 hcount, Nat.zero_mul, Nat.sub_zero]
  · intro len hlen
    obtain ⟨i, hi, rfl⟩ := List.mem_map.mp hlen
    have hstart := (hcount i).mp (by simpa using hi)
    rw [cutAt]
    omega

end Cuts

section Borrowed
variable {w : Nat} {date : Int → Option Date} {field : Field}

def Resident : Column → Prop
  | .primitive type slots => slots.length * (type.width / 8) ≤ isizeMax
  | _ => True

theorem Resident.slice {array : Column} (h : Resident array) (start len : Nat) :
    Resident (array.slice start len) := by
  cases array with
  | primitive type slots =>
    rw [Column.slice, Resident]
    exact (Nat.mul_le_mul_right _ (by simp)).trans h
  | _ => trivial

def borrowable : Primitive → Bool
  | .int8 | .int16 | .int32 | .int64 | .float32 | .float64 => true
  | _ => false

theorem borrowable_width {type : Primitive} (h : borrowable type = true)
    (hfield : field.dataType = .primitive type) :
    ∃ monetType, monetTypeForField field = .ok monetType ∧
      fixedWireWidth monetType = some (type.width / 8) := by
  cases type with
  | int32 =>
    refine ⟨_, by rw [monetTypeForField, hfield], ?_⟩
    split_ifs <;> rfl
  | int8 | int16 | int64 | float32 | float64 =>
    exact ⟨_, by rw [monetTypeForField, hfield], rfl⟩
  | _ => cases h

theorem encodeColumn_borrowable (date : Int → Option Date) {type : Primitive} {slots : List (Slot type.width)}
    (h : borrowable type = true) (hfield : field.dataType = .primitive type)
    (hresident : Resident (.primitive type slots)) :
    ∃ monetType, encodeColumn date field (.primitive type slots) =
      encodeNative date monetType type slots := by
  obtain ⟨monetType, ht, hwidth⟩ := borrowable_width h hfield
  have hmax : isizeMax ≤ usizeMax := by decide
  have hle : slots.length * (type.width / 8) ≤ isizeMax := hresident
  have hmul : checkedMul slots.length (type.width / 8) = some (slots.length * (type.width / 8)) :=
    checkedMul_eq_some.mpr ⟨hle.trans hmax, rfl⟩
  have hwire : arrayWireWidth field (.primitive type) = .ok (some (type.width / 8)) := by
    rw [arrayWireWidth, if_neg (by simp), fixedEncodedWidth_eq ht (by simp [hfield]), hwidth]
  refine ⟨monetType, ?_⟩
  simp only [encodeColumn, ht, ok_bind, Column.dataType, hwire, Column.len, reserveFixed, hmul,
    if_neg (not_lt.mpr hle), encodeArray]
  cases hencode : encodeNative date monetType type slots with
  | error e => rfl
  | ok bytes =>
    have hlength := encodeNative_length hencode
    rw [nativeWireWidth_eq hfield ht hwidth] at hlength
    rw [ok_bind, withinCapacity, if_pos (hlength ▸ hle)]

theorem copyNativeWithNulls_eq {slots : List (Slot w)} (h : ∀ slot ∈ slots, slot.isNull = false)
    (null : BitVec w) : copyNativeWithNulls slots null = nativeBytes slots := by
  rw [copyNativeWithNulls, nativeBytes]
  congr 1
  refine List.map_congr_left fun slot hslot => ?_
  simp [h slot hslot]

def Borrows (borrowed : Except EncodeError (Option Bytes)) (encoded : Except EncodeError Bytes) :
    Prop :=
  (∀ bytes, borrowed = .ok (some bytes) → encoded = .ok bytes) ∧
    ∀ e, borrowed = .error e → encoded = .error e

theorem encodeChecked_ok {reject : BitVec w → Bool} {slots : List (Slot w)} (message : String)
    (null : BitVec w) (hnull : ∀ slot ∈ slots, slot.isNull = false)
    (hkept : ∀ slot ∈ slots, reject slot.value = false) :
    encodeChecked reject message null slots = .ok (nativeBytes slots) := by
  have hrows : RowFree fun (row : Nat) (slot : Slot w) => if !slot.isNull && reject slot.value then
      (invalid row message : Except EncodeError Unit) else .ok () := by
    intro row slot
    simp only [toOption_ite, invalid, toOption_error]
  obtain ⟨units, hunits⟩ := (mapFrom_isOk hrows 0 slots).mpr fun slot hslot => by
    simp [hkept slot hslot]
  rw [encodeChecked, mapRows, hunits, ← copyNativeWithNulls_eq hnull null]
  rfl

theorem borrowedSigned_error {row : Nat} {all rest : List (Slot w)} {e : EncodeError}
    (h : borrowedSigned row all rest = .error e) :
    mapFrom (fun row slot => if !slot.isNull && slot.value == BitVec.intMin w then
      (invalid row "value collides with MonetDB's NULL sentinel" : Except EncodeError Unit)
      else .ok ()) row rest = .error e := by
  induction rest generalizing row with
  | nil => cases h
  | cons slot rest ih =>
    rw [borrowedSigned] at h
    split_ifs at h with hmin hnull
    · rw [mapFrom]
      simp only [hmin, hnull, Bool.not_false, Bool.true_and, BEq.rfl, if_true]
      cases h
      rfl
    · rw [mapFrom, ih h]
      simp [hmin]

theorem borrowedSigned_borrows (slots : List (Slot w)) :
    Borrows (borrowedSigned 0 slots slots) (encodePrimitive slots (BitVec.intMin w)) := by
  refine ⟨fun bytes h => ?_, fun e h => ?_⟩
  · obtain ⟨hnative, hmin⟩ := borrowedSigned_some h
    obtain ⟨hnull, rfl⟩ := borrowedNative_some hnative
    exact encodeChecked_ok _ _ hnull fun slot hslot => by simpa using hmin slot hslot
  · rw [encodePrimitive, encodeChecked, mapRows, borrowedSigned_error h]
    rfl

theorem borrowedFloat_borrows (isFinite : BitVec w → Bool) (null : BitVec w)
    (slots : List (Slot w)) :
    Borrows (borrowedFloat isFinite slots)
      (encodeChecked (fun value => !isFinite value) nonFinite null slots) := by
  rw [borrowedFloat, encodeChecked]
  cases mapRows (fun row slot => if !slot.isNull && !isFinite slot.value then
    (invalid row nonFinite : Except EncodeError Unit) else .ok ()) slots with
  | error e =>
    refine ⟨fun bytes h => ?_, fun _ h => ?_⟩
    · cases h
    · cases h
      rfl
  | ok units =>
    refine ⟨fun bytes h => ?_, fun _ h => ?_⟩
    · obtain ⟨hnull, rfl⟩ := borrowedNative_some (Except.ok.inj h)
      rw [← copyNativeWithNulls_eq hnull null]
      rfl
    · cases h

theorem borrowedWireBytes_borrows (date : Int → Option Date) {slice : Column}
    (htype : slice.dataType = field.dataType) (hresident : Resident slice) :
    Borrows (borrowedWireBytes slice) (encodeColumn date field slice) := by
  cases slice with
  | primitive type slots =>
    have hcolumn (h : borrowable type = true) :=
      encodeColumn_borrowable date h htype.symm hresident
    cases type with
    | int8 | int16 | int32 | int64 =>
      obtain ⟨monetType, hcolumn⟩ := hcolumn rfl
      rw [hcolumn]
      exact borrowedSigned_borrows slots
    | float32 | float64 =>
      obtain ⟨monetType, hcolumn⟩ := hcolumn rfl
      rw [hcolumn]
      exact borrowedFloat_borrows _ _ slots
    | _ => exact ⟨nofun, nofun⟩
  | _ => exact ⟨nofun, nofun⟩

theorem encodeSlice_eq_ok {slice : Column} (htype : slice.dataType = field.dataType)
    (hresident : Resident slice) {bytes : Bytes} :
    encodeSlice date field slice = .ok bytes ↔ encodeColumn date field slice = .ok bytes := by
  obtain ⟨hsome, herror⟩ := borrowedWireBytes_borrows date htype hresident
  rw [encodeSlice]
  cases hborrowed : borrowedWireBytes slice with
  | error e =>
    rw [herror e hborrowed]
    rfl
  | ok borrowed =>
    cases borrowed with
    | some native =>
      rw [hsome native hborrowed]
      rfl
    | none => rfl

end Borrowed

section Errors
variable {date : Int → Option Date} {field : Field} {monetType : MonetType} {array : Column}
  {targetBytes : Nat}

structure Fits (field : Field) (targetBytes : Nat) (array : Column) : Prop where
  estimates : (rowEstimates field array).sum ≤ isizeMax
  costs : (rowCosts field array).sum ≤ isizeMax
  pieces : ∀ piece ∈ pieces field targetBytes array, (rowCosts field piece).sum ≤ isizeMax

theorem text_le_estimates {values : List (Option Str)}
    (h : (values.map stringEstimate).sum ≤ isizeMax) :
    textBytes values + values.length ≤ (values.map stringEstimate).sum := by
  have hmax : isizeMax < usizeMax := by decide
  induction values with
  | nil => exact le_refl 0
  | cons value values ih =>
    rw [List.map_cons, List.sum_cons] at h ⊢
    have hrest := ih (by omega)
    have hsplit : textBytes (value :: values) = textBytes [value] + textBytes values := by
      simp [textBytes]
    have hvalue : textBytes [value] + 1 ≤ stringEstimate value := by
      cases value with
      | none => simp [textBytes, stringEstimate]
      | some value =>
        simp only [stringEstimate, Option.elim_some, saturatingAdd] at h
        simp only [textBytes, stringEstimate, saturatingAdd, List.map_cons, List.map_nil,
          List.sum_cons, List.sum_nil, Option.elim_some]
        omega
    rw [List.length_cons]
    omega

theorem reservable_of_estimates (htype : array.dataType = field.dataType)
    (ht : monetTypeForField field = .ok monetType)
    (h : (rowEstimates field array).sum ≤ isizeMax) : Reservable array := by
  cases array with
  | utf8 layout values =>
    have hwidth : fixedWireWidth monetType = none := by
      rw [monetTypeForField, ← htype] at ht
      simp only [Column.dataType, Except.ok.injEq] at ht
      rw [← ht]
      split <;> rfl
    rw [rowEstimates, arrayWireWidth_eq htype, fixedEncodedWidth_eq ht (by simp [← htype, Column.dataType]),
      hwidth] at h
    exact (text_le_estimates h).trans h
  | _ => trivial

theorem isOk_encodeColumn (ht : monetTypeForField field = .ok monetType)
    (hestimates : (rowEstimates field array).sum ≤ isizeMax)
    (hcosts : (rowCosts field array).sum ≤ isizeMax) :
    IsOk (encodeColumn date field array) ↔ IsOk (encodeArray date monetType array) := by
  constructor
  · rintro ⟨bytes, h⟩
    obtain ⟨t, ht', hencode, -⟩ := encodeColumn_ok h
    obtain rfl := Except.ok.inj (ht.symm.trans ht')
    exact ⟨bytes, hencode⟩
  · rintro ⟨bytes, hencode⟩
    have hlength := encodeArray_cost hencode
    rw [rowCosts, ht] at hcosts
    have hcapacity : withinCapacity bytes = .ok bytes := if_pos (hlength.le.trans hcosts)
    rw [rowEstimates] at hestimates
    cases hwidth : arrayWireWidth field array.dataType with
    | error e =>
      rw [arrayWireWidth, fixedEncodedWidth, ht] at hwidth
      split_ifs at hwidth
      cases hwidth
    | ok width =>
      have hreserve : reserveFixed array.len width = .ok () := by
        cases width with
        | none => rfl
        | some width =>
          rw [hwidth, List.sum_replicate, smul_eq_mul] at hestimates
          have hmax : isizeMax ≤ usizeMax := by decide
          simp only [reserveFixed, checkedMul_eq_some.mpr ⟨hestimates.trans hmax, rfl⟩,
            if_neg (not_lt.mpr hestimates)]
      exact ⟨bytes, by simp only [encodeColumn, ht, ok_bind, hwidth, hreserve, hencode, hcapacity]⟩

theorem mem_pieces {piece : Column} (h : piece ∈ pieces field targetBytes array) :
    ∃ start len, piece = array.slice start len := by
  obtain ⟨start, -, rfl⟩ := List.mem_map.mp h
  exact ⟨_, _, rfl⟩

theorem rowEstimates_slice_sum (start len : Nat) :
    (rowEstimates field (array.slice start len)).sum ≤ (rowEstimates field array).sum := by
  rw [rowEstimates_slice]
  exact ((List.take_sublist _ _).trans (List.drop_sublist _ _)).sum_le_sum (by simp)

theorem isOk_pieces (htype : array.dataType = field.dataType) (hresident : Resident array)
    (hfits : Fits field targetBytes array) (ht : monetTypeForField field = .ok monetType) :
    (∀ piece ∈ pieces field targetBytes array, IsOk (encodeSlice date field piece)) ↔
      array.len = 0 ∨ IsOk (encodeColumn date field array) := by
  have hreservable := reservable_of_estimates htype ht hfits.estimates
  have hpiece (piece : Column) (h : piece ∈ pieces field targetBytes array) :
      IsOk (encodeSlice date field piece) ↔ IsOk (encodeArray date monetType piece) := by
    have hcosts := hfits.pieces piece h
    obtain ⟨start, len, rfl⟩ := mem_pieces h
    rw [← isOk_encodeColumn ht ((rowEstimates_slice_sum start len).trans hfits.estimates) hcosts]
    exact exists_congr fun bytes =>
      encodeSlice_eq_ok ((Column.slice_dataType _ _ _).trans htype) (hresident.slice _ _)
  rw [forall₂_congr hpiece]
  obtain ⟨lens, hpieces, hcovers⟩ := pieces_consecutive field targetBytes array
  rw [hpieces]
  cases lens with
  | nil =>
    have hempty : array.len = 0 := hcovers.sum.symm
    simp [consecutive, hempty]
  | cons len lens =>
    have hlen := hcovers.pos len List.mem_cons_self
    have hsum := hcovers.sum
    rw [List.sum_cons] at hsum
    rw [← isOk_consecutive hreservable (by simp), hcovers.sum, Column.slice_all,
      isOk_encodeColumn ht hfits.estimates hfits.costs]
    exact ⟨.inr, fun h => h.resolve_left (by omega)⟩

-- Types with an estimate for which every array is refused.
def NoEncoder (field : Field) : Prop :=
  ((∃ layout, field.dataType = .utf8 layout) ∧ field.extension = some "monetdb.inet") ∨
    (∃ unit, field.dataType = .primitive (.time32 unit) ∧ unit ≠ .second ∧ unit ≠ .millisecond) ∨
    ∃ unit, field.dataType = .primitive (.time64 unit) ∧ unit ≠ .microsecond ∧ unit ≠ .nanosecond

theorem dataType_utf8 {layout : Layout} (h : array.dataType = .utf8 layout) :
    ∃ values, array = .utf8 layout values := by
  cases array with
  | utf8 layout' values =>
    obtain rfl := DataType.utf8.inj h
    exact ⟨values, rfl⟩
  | _ => cases h

theorem NoEncoder.not_isOk (h : NoEncoder field) (htype : array.dataType = field.dataType) :
    ¬IsOk (encodeColumn date field array) := by
  rintro ⟨bytes, hbytes⟩
  obtain ⟨monetType, ht, hencode, -⟩ := encodeColumn_ok hbytes
  rcases h with ⟨⟨layout, hlayout⟩, hextension⟩ | ⟨unit, hunit, hne⟩ | ⟨unit, hunit, hne⟩
  · obtain ⟨values, rfl⟩ := dataType_utf8 (htype.trans hlayout)
    simp only [monetTypeForField, hlayout, hextension, Except.ok.injEq] at ht
    subst ht
    cases hencode
  · obtain ⟨slots, rfl⟩ := dataType_primitive (htype.trans hunit)
    cases unit with
    | second => exact hne.1 rfl
    | millisecond => exact hne.2 rfl
    | microsecond | nanosecond => cases hencode
  · obtain ⟨slots, rfl⟩ := dataType_primitive (htype.trans hunit)
    cases unit with
    | microsecond => exact hne.1 rfl
    | nanosecond => exact hne.2 rfl
    | second | millisecond => cases hencode

theorem NoEncoder.isOk_estimate (h : NoEncoder field) (htype : array.dataType = field.dataType)
    (hempty : array.len = 0) : IsOk (estimatedEncodedSize field array) := by
  rw [estimatedEncodedSize, arrayWireWidth_eq htype, hempty]
  rcases h with ⟨⟨layout, hlayout⟩, hextension⟩ | ⟨unit, hunit, -⟩ | ⟨unit, hunit, -⟩
  · obtain ⟨values, rfl⟩ := dataType_utf8 (htype.trans hlayout)
    obtain rfl := List.length_eq_zero_iff.mp hempty
    rw [fixedEncodedWidth, monetTypeForField, hlayout, hextension]
    exact ⟨0, rfl⟩
  · rw [fixedEncodedWidth, monetTypeForField, hunit]
    exact ⟨0, rfl⟩
  · rw [fixedEncodedWidth, monetTypeForField, hunit]
    refine ⟨0, ?_⟩
    split_ifs <;> rfl

theorem monetType_of_estimate (h : IsOk (estimatedEncodedSize field array))
    (htype : array.dataType = field.dataType) : ∃ monetType, monetTypeForField field = .ok monetType := by
  obtain ⟨est, h⟩ := h
  rw [estimatedEncodedSize, arrayWireWidth_eq htype, fixedEncodedWidth] at h
  cases ht : monetTypeForField field with
  | ok monetType => exact ⟨monetType, rfl⟩
  | error e =>
    rw [ht] at h
    split_ifs at h with hnull
    · rw [monetTypeForField, hnull] at ht
      cases ht
    · cases h

theorem isOk_encodeNative_nil {type : Primitive} (h : ¬NoEncoder field)
    (hfield : field.dataType = .primitive type)
    (hdecimal : ∀ precision scale, type = .decimal128 precision scale →
      ∃ width, decimalWireWidth precision = some width) :
    IsOk (encodeNative date monetType type []) := by
  cases type with
  | decimal128 precision scale =>
    obtain ⟨width, hwidth⟩ := hdecimal precision scale rfl
    exact ⟨[], by simp only [encodeNative, encodeDecimal, hwidth]; rfl⟩
  | uint64 =>
    rw [encodeNative]
    split_ifs
    · exact ⟨_, rfl⟩
    · exact ⟨_, rfl⟩
  | time32 unit =>
    cases unit with
    | second | millisecond => exact ⟨_, rfl⟩
    | microsecond | nanosecond => exact absurd (.inr (.inl ⟨_, hfield, by decide, by decide⟩)) h
  | time64 unit =>
    cases unit with
    | microsecond | nanosecond => exact ⟨_, rfl⟩
    | second | millisecond => exact absurd (.inr (.inr ⟨_, hfield, by decide, by decide⟩)) h
  | timestamp unit timezone | duration unit => cases unit <;> exact ⟨_, rfl⟩
  | _ => exact ⟨_, rfl⟩

theorem decimalWireWidth_of_estimate {precision : Nat} {scale : Int} {slots : List (Slot 128)}
    (htype : (Column.primitive (.decimal128 precision scale) slots).dataType = field.dataType)
    (h : IsOk (estimatedEncodedSize field (.primitive (.decimal128 precision scale) slots))) :
    ∃ width, decimalWireWidth precision = some width := by
  obtain ⟨monetType, ht⟩ := monetType_of_estimate h htype
  obtain ⟨est, h⟩ := h
  cases hwidth : decimalWireWidth precision with
  | some width => exact ⟨width, rfl⟩
  | none =>
    rw [estimatedEncodedSize, arrayWireWidth_eq htype,
      fixedEncodedWidth_eq ht (by simp [← htype, Column.dataType])] at h
    rw [monetTypeForField, ← htype] at ht
    dsimp only [Column.dataType] at ht
    split_ifs at ht with hhuge
    · rw [hhuge.1] at hwidth
      cases hwidth
    · rw [← Except.ok.inj ht, fixedWireWidth, hwidth] at h
      cases h

theorem isDictionaryKey_of_estimate {key : DataType} {keys : List (Option Nat)} {values : Column}
    (htype : (Column.dictionary key keys values).dataType = field.dataType)
    (h : IsOk (estimatedEncodedSize field (.dictionary key keys values))) :
    isDictionaryKey key = true ∧ ∃ layout strings, values = .utf8 layout strings := by
  obtain ⟨est, h⟩ := h
  rw [estimatedEncodedSize, arrayWireWidth_eq htype, fixedEncodedWidth, monetTypeForField, ← htype] at h
  cases values with
  | utf8 layout strings =>
    refine ⟨?_, layout, strings, rfl⟩
    have hstrings : estimatedDictionaryStrings key keys (.utf8 layout strings) = .ok est := h
    cases hkey : isDictionaryKey key with
    | true => rfl
    | false =>
      simp only [estimatedDictionaryStrings, hkey] at hstrings
      cases hstrings
  | _ => cases h

theorem isOk_empty (htype : array.dataType = field.dataType) (hempty : array.len = 0)
    (hfits : Fits field targetBytes array) (hestimate : IsOk (estimatedEncodedSize field array))
    (h : ¬NoEncoder field) : IsOk (encodeColumn date field array) := by
  obtain ⟨monetType, ht⟩ := monetType_of_estimate hestimate htype
  rw [isOk_encodeColumn ht hfits.estimates hfits.costs]
  cases array with
  | null | boolean | binary => exact ⟨_, rfl⟩
  | primitive type slots =>
    obtain rfl := List.length_eq_zero_iff.mp hempty
    refine isOk_encodeNative_nil h htype.symm ?_
    rintro precision scale rfl
    exact decimalWireWidth_of_estimate htype hestimate
  | utf8 layout values =>
    have hreservable := reservable_of_estimates htype ht hfits.estimates
    obtain rfl := List.length_eq_zero_iff.mp hempty
    by_cases haddress : IsAddress monetType
    · rcases haddress with rfl | rfl | rfl
      · exact ⟨_, rfl⟩
      · exact ⟨_, rfl⟩
      · simp only [monetTypeForField, ← htype, Column.dataType, Except.ok.injEq] at ht
        split at ht
        case h_2 hextension => exact absurd (.inl ⟨⟨layout, htype.symm⟩, hextension⟩) h
        all_goals cases ht
    · exact (isOk_encodeUtf8 date haddress hreservable).mpr (by simp)
  | fixedSizeBinary width values =>
    obtain rfl := List.length_eq_zero_iff.mp hempty
    by_cases huuid : width = 16 ∧ monetType = .uuid
    · obtain ⟨rfl, rfl⟩ := huuid
      exact ⟨_, rfl⟩
    · rw [encodeArray, dif_neg huuid]
      exact ⟨_, rfl⟩
  | dictionary key keys values =>
    obtain ⟨hkey, layout, strings, rfl⟩ := isDictionaryKey_of_estimate htype hestimate
    obtain rfl := List.length_eq_zero_iff.mp hempty
    exact (isOk_encodeDictionary hkey layout strings []).mpr (by simp)
  | other name values =>
    rw [monetTypeForField, ← htype] at ht
    cases ht

end Errors

section Texts
variable {date : Int → Option Date} {field : Field} {array : Column}

def stringsOf : Column → List (Option Str)
  | .utf8 _ values => values
  | .dictionary _ keys (.utf8 _ strings) => dictionaryStrings keys strings
  | _ => []

def TextColumn (field : Field) : Prop :=
  (∃ monetType, monetTypeForField field = .ok monetType ∧ ¬IsAddress monetType) ∧
    ((∃ layout, field.dataType = .utf8 layout) ∨
      ∃ key layout, field.dataType = .dictionary key (.utf8 layout))

theorem TextColumn.cases (h : TextColumn field) (htype : array.dataType = field.dataType) :
    (∃ layout values, array = .utf8 layout values) ∨
      ∃ key keys layout strings, array = .dictionary key keys (.utf8 layout strings) := by
  rcases h.2 with ⟨layout, hfield⟩ | ⟨key, layout, hfield⟩
  · obtain ⟨values, rfl⟩ := dataType_utf8 (htype.trans hfield)
    exact .inl ⟨layout, values, rfl⟩
  · rw [hfield] at htype
    cases array with
    | dictionary key' keys values =>
      obtain ⟨strings, rfl⟩ := dataType_utf8 (DataType.dictionary.inj htype).2
      exact .inr ⟨key', keys, layout, strings, rfl⟩
    | _ => cases htype

theorem stringsOf_length (h : TextColumn field) (htype : array.dataType = field.dataType) :
    (stringsOf array).length = array.len := by
  rcases h.cases htype with ⟨layout, values, rfl⟩ | ⟨key, keys, layout, strings, rfl⟩
  · rfl
  · simp [stringsOf, dictionaryStrings, Column.len]

theorem stringsOf_slice (array : Column) (start len : Nat) :
    stringsOf (array.slice start len) = ((stringsOf array).drop start).take len := by
  cases array with
  | dictionary key keys values =>
    cases values <;> simp [Column.slice, stringsOf, dictionaryStrings, List.map_take, List.map_drop]
  | _ => simp [Column.slice, stringsOf]

theorem encodeColumn_strings (hfield : TextColumn field) (htype : array.dataType = field.dataType)
    {bytes : Bytes} (h : encodeColumn date field array = .ok bytes) :
    encodeStrings (stringsOf array) = .ok bytes := by
  obtain ⟨monetType, ht, hencode, -⟩ := encodeColumn_ok h
  obtain ⟨monetType', ht', haddress⟩ := hfield.1
  obtain rfl := Except.ok.inj (ht'.symm.trans ht)
  rcases hfield.cases htype with ⟨layout, values, rfl⟩ | ⟨key, keys, layout, strings, rfl⟩
  · exact encodeUtf8_ok haddress hencode
  · obtain ⟨layout', strings', hvalues, hstrings, -⟩ := encodeDictionary_ok hencode
    obtain ⟨-, rfl⟩ := Column.utf8.inj hvalues
    exact hstrings

theorem consecutive_strings (array : Column) (start : Nat) (lens : List Nat) :
    (consecutive array start lens).flatMap stringsOf =
      ((stringsOf array).drop start).take lens.sum := by
  induction lens generalizing start with
  | nil => simp [consecutive]
  | cons len lens ih =>
    rw [consecutive, List.flatMap_cons, ih, List.sum_cons, List.take_add, List.drop_drop,
      stringsOf_slice]

theorem strings_length_le {slices : List Column} {chunks : List Bytes}
    (h : List.Forall₂ (fun slice bytes => encodeStrings (stringsOf slice) = .ok bytes) slices chunks) :
    (slices.flatMap stringsOf).length ≤ chunks.flatten.length := by
  induction h with
  | nil => exact le_refl 0
  | cons hslice _ ih =>
    have hle := encodeStringsFrom_length hslice
    rw [List.flatMap_cons, List.flatten_cons, List.length_append, List.length_append]
    omega

-- The references of each piece restart at its first row, but only their distances are written.
theorem readsAll_slices {slices : List Column} {chunks : List Bytes} (before : List (Option Str))
    (h : List.Forall₂ (fun slice bytes => encodeStrings (stringsOf slice) = .ok bytes) slices chunks)
    (hrows : before.length + (slices.flatMap stringsOf).length ≤ usizeMax) :
    ReadsAll before chunks.flatten (slices.flatMap stringsOf) := by
  induction h generalizing before with
  | nil => exact .nil
  | @cons slice bytes slices chunks hslice _ ih =>
    rw [List.flatMap_cons, List.length_append] at hrows
    have hfirst := encodeStrings_reads before hslice (by omega)
    exact hfirst.append (ih (before ++ stringsOf slice) (by rw [List.length_append]; omega))

end Texts

section Runs
variable {σ ε : Type} {date : Int → Option Date} {field : Field} {targetBytes : Nat}
  {emit : σ → Bytes → σ × Except ε Unit} {arrays slices : List Column} {state state' : σ}
  {chunks : List Bytes} {array : Column} {result : Except (ChunkedEncodeError ε) Nat}

theorem encodeSlices_sink (hemit : ∀ state bytes, (emit state bytes).2 = .ok ())
    {rows total : Nat} {starts : List Nat} {error : ε} :
    encodeSlices date field array rows emit starts total state ≠ (state', .error (.sink error)) := by
  induction starts generalizing total state with
  | nil => exact nofun
  | cons start starts ih =>
    cases hslice : encodeSlice date field (pieceAt array rows start) with
    | error e =>
      rw [encodeSlices_cons_error hslice]
      exact nofun
    | ok bytes =>
      by_cases hfits : total + bytes.length ≤ usizeMax
      · rw [encodeSlices_cons_ok hslice hfits (hemit _ _)]
        exact ih
      · rw [encodeSlices_cons_overflow hslice hfits]
        exact nofun

theorem encodeArrays_sink (hemit : ∀ state bytes, (emit state bytes).2 = .ok ()) {total : Nat}
    {error : ε} :
    encodeArrays date field targetBytes emit arrays total state ≠
      (state', .error (.sink error)) := by
  induction arrays generalizing total state with
  | nil => exact nofun
  | cons array arrays ih =>
    cases hest : estimatedEncodedSize field array with
    | error e =>
      rw [encodeArrays_cons_error hest]
      exact nofun
    | ok est =>
      cases hpieces : encodePieces date field targetBytes array emit total state with
      | mk middle outcome =>
        cases outcome with
        | ok sum =>
          rw [encodeArrays_cons_ok hest hpieces]
          exact ih
        | error error' =>
          rw [encodeArrays_cons_stop hest hpieces]
          rintro ⟨⟩
          exact encodeSlices_sink hemit hpieces

theorem exists_encoded (h : ∀ slice ∈ slices, IsOk (encodeSlice date field slice)) :
    ∃ chunks, Encoded date field slices chunks := by
  induction slices with
  | nil => exact ⟨[], .nil⟩
  | cons slice slices ih =>
    obtain ⟨⟨bytes, hbytes⟩, hrest⟩ := List.forall_mem_cons.mp h
    obtain ⟨chunks, hchunks⟩ := ih hrest
    exact ⟨bytes :: chunks, .cons hbytes hchunks⟩

theorem Encoded.isOk (h : Encoded date field slices chunks) :
    ∀ slice ∈ slices, IsOk (encodeSlice date field slice) := by
  induction h with
  | nil => exact nofun
  | cons hslice _ ih => exact List.forall_mem_cons.mpr ⟨⟨_, hslice⟩, ih⟩

def Accepts (date : Int → Option Date) (field : Field) (targetBytes : Nat) (array : Column) : Prop :=
  IsOk (estimatedEncodedSize field array) ∧
    ∀ piece ∈ pieces field targetBytes array, IsOk (encodeSlice date field piece)

theorem encodeColumnChunks_isOk (hemit : ∀ state bytes, (emit state bytes).2 = .ok ())
    (hrun : encodeColumnChunks date field arrays targetBytes emit state = (state', result))
    (hsize : costsOf field (allPieces field targetBytes arrays) ≤ usizeMax) :
    IsOk result ↔ ∀ array ∈ arrays, Accepts date field targetBytes array := by
  constructor
  · rintro ⟨total, rfl⟩ array harray
    obtain ⟨slices, chunks, -, hchunks, -, hok⟩ := encodeColumnChunks_run hrun
    obtain ⟨rfl, hestimates, -⟩ := hok total rfl
    exact ⟨hestimates array harray, fun piece hpiece =>
      hchunks.isOk piece (List.mem_flatMap.mpr ⟨array, harray, hpiece⟩)⟩
  · intro h
    have hpieces : ∀ piece ∈ allPieces field targetBytes arrays,
        IsOk (encodeSlice date field piece) := by
      intro piece hpiece
      obtain ⟨array, harray, hpiece⟩ := List.mem_flatMap.mp hpiece
      exact (h array harray).2 piece hpiece
    obtain ⟨chunks, hchunks⟩ := exists_encoded hpieces
    have hlength : 0 + chunks.flatten.length ≤ usizeMax := by
      rw [zero_add, List.length_flatten, hchunks.lengths]
      exact hsize
    rw [encodeColumnChunks, encodeArrays_encoded hemit (fun array harray => (h array harray).1)
      hchunks hlength] at hrun
    exact ⟨_, (Prod.mk.inj hrun).2.symm⟩

theorem encodeColumnChunks_error (hemit : ∀ state bytes, (emit state bytes).2 = .ok ())
    (hrun : encodeColumnChunks date field arrays targetBytes emit state = (state', result)) :
    (∃ e, result = .error (.encode e)) ↔ ¬IsOk result := by
  cases result with
  | ok total => simp
  | error error =>
    cases error with
    | encode e => simp
    | sink error => exact absurd hrun (encodeArrays_sink hemit)

theorem accepts_of_isOk (htype : array.dataType = field.dataType) (hresident : Resident array)
    (hfits : Fits field targetBytes array) (h : IsOk (encodeColumn date field array)) :
    Accepts date field targetBytes array := by
  have hmax : isizeMax ≤ usizeMax := by decide
  obtain ⟨bytes, hbytes⟩ := h
  obtain ⟨monetType, ht, -⟩ := encodeColumn_ok hbytes
  exact ⟨(estimatedEncodedSize_isOk hbytes).mpr
      ⟨encodeColumn_estimable htype hbytes, hfits.estimates.trans hmax⟩,
    (isOk_pieces htype hresident hfits ht).mpr (.inr ⟨bytes, hbytes⟩)⟩

theorem isOk_of_accepts (htype : array.dataType = field.dataType) (hresident : Resident array)
    (hfits : Fits field targetBytes array) (hencoder : array.len = 0 → ¬NoEncoder field)
    (h : Accepts date field targetBytes array) : IsOk (encodeColumn date field array) := by
  obtain ⟨monetType, ht⟩ := monetType_of_estimate h.1 htype
  rcases (isOk_pieces htype hresident hfits ht).mp h.2 with hempty | hencode
  · exact isOk_empty htype hempty hfits h.1 (hencoder hempty)
  · exact hencode

structure Sized (field : Field) (targetBytes : Nat) (arrays : List Column) : Prop where
  fits : ∀ array ∈ arrays, Fits field targetBytes array
  total : costsOf field (allPieces field targetBytes arrays) ≤ usizeMax

theorem error_iff_encodeColumn_fails (hemit : ∀ state bytes, (emit state bytes).2 = .ok ())
    (htypes : ∀ array ∈ arrays, array.dataType = field.dataType)
    (hresident : ∀ array ∈ arrays, Resident array) (hsized : Sized field targetBytes arrays)
    (hrun : encodeColumnChunks date field arrays targetBytes emit state = (state', result)) :
    ((∃ e, result = .error (.encode e)) ↔
        ∃ array ∈ arrays, ¬IsOk (encodeColumn date field array)) ↔
      ¬(NoEncoder field ∧ arrays ≠ [] ∧ ∀ array ∈ arrays, array.len = 0) := by
  rw [encodeColumnChunks_error hemit hrun, encodeColumnChunks_isOk hemit hrun hsized.total]
  have hpieces (array : Column) (harray : array ∈ arrays)
      (h : IsOk (encodeColumn date field array)) : Accepts date field targetBytes array :=
    accepts_of_isOk (htypes array harray) (hresident array harray) (hsized.fits array harray) h
  have hwhole (array : Column) (harray : array ∈ arrays)
      (hencoder : array.len = 0 → ¬NoEncoder field)
      (h : Accepts date field targetBytes array) : IsOk (encodeColumn date field array) :=
    isOk_of_accepts (htypes array harray) (hresident array harray) (hsized.fits array harray)
      hencoder h
  constructor
  · rintro hiff ⟨hencoder, hne, hempty⟩
    obtain ⟨array, harray⟩ := List.exists_mem_of_ne_nil arrays hne
    refine hiff.mpr ⟨array, harray, hencoder.not_isOk (htypes array harray)⟩ fun other hother => ?_
    have hestimate := hencoder.isOk_estimate (htypes other hother) (hempty other hother)
    obtain ⟨monetType, ht⟩ := monetType_of_estimate hestimate (htypes other hother)
    exact ⟨hestimate, (isOk_pieces (htypes other hother) (hresident other hother)
      (hsized.fits other hother) ht).mpr (.inl (hempty other hother))⟩
  · intro hcondition
    constructor
    · intro hrefused
      obtain ⟨array, h⟩ := not_forall.mp hrefused
      obtain ⟨harray, hrefused⟩ := Classical.not_imp.mp h
      exact ⟨array, harray, fun h => hrefused (hpieces array harray h)⟩
    · rintro ⟨array, harray, hfails⟩ haccepts
      refine hfails (hwhole array harray (fun hempty hencoder => ?_) (haccepts array harray))
      refine hcondition ⟨hencoder, List.ne_nil_of_mem harray, fun other hother => ?_⟩
      by_contra hlen
      exact hencoder.not_isOk (htypes other hother)
        (hwhole other hother (fun h => absurd h hlen) (haccepts other hother))

def slicesOf (arrays : List Column) (cuts : List (List Nat)) : List Column :=
  (List.zipWith (consecutive · 0) arrays cuts).flatten

theorem allPieces_slicesOf (field : Field) (targetBytes : Nat) (arrays : List Column) :
    ∃ cuts, List.Forall₂ Covers arrays cuts ∧
      allPieces field targetBytes arrays = slicesOf arrays cuts := by
  induction arrays with
  | nil => exact ⟨[], .nil, rfl⟩
  | cons array arrays ih =>
    obtain ⟨cuts, hcovers, hcuts⟩ := ih
    obtain ⟨lens, hlens, hcover⟩ := pieces_consecutive field targetBytes array
    refine ⟨lens :: cuts, .cons hcover hcovers, ?_⟩
    rw [allPieces, List.flatMap_cons, ← allPieces, hlens, hcuts]
    rfl

theorem slicesOf_strings {cuts : List (List Nat)} (hfield : TextColumn field)
    (htypes : ∀ array ∈ arrays, array.dataType = field.dataType)
    (h : List.Forall₂ Covers arrays cuts) :
    (slicesOf arrays cuts).flatMap stringsOf = arrays.flatMap stringsOf := by
  induction h with
  | nil => rfl
  | @cons array lens arrays cuts hcover _ ih =>
    obtain ⟨htype, htypes⟩ := List.forall_mem_cons.mp htypes
    have hall : (stringsOf array).take lens.sum = stringsOf array := by
      rw [hcover.sum, ← stringsOf_length hfield htype, List.take_length]
    have hcons : slicesOf (array :: arrays) (lens :: cuts) =
        consecutive array 0 lens ++ slicesOf arrays cuts := rfl
    rw [hcons, List.flatMap_append, ih htypes, consecutive_strings, List.drop_zero, hall,
      List.flatMap_cons]

theorem strings_length (hfield : TextColumn field)
    (htypes : ∀ array ∈ arrays, array.dataType = field.dataType) :
    (arrays.flatMap stringsOf).length = (arrays.map Column.len).sum := by
  rw [List.length_flatMap]
  congr 1
  exact List.map_congr_left fun array harray => stringsOf_length hfield (htypes array harray)

theorem Encoded.columns (h : Encoded date field slices chunks)
    (hslices : ∀ slice ∈ slices, slice.dataType = field.dataType ∧ Resident slice) :
    List.Forall₂ (fun slice bytes => encodeColumn date field slice = .ok bytes) slices chunks := by
  induction h with
  | nil => exact .nil
  | cons hslice _ ih =>
    obtain ⟨⟨htype, hresident⟩, hrest⟩ := List.forall_mem_cons.mp hslices
    exact .cons ((encodeSlice_eq_ok htype hresident).mp hslice) (ih hrest)

theorem strings_of_columns
    (h : List.Forall₂ (fun slice bytes => encodeColumn date field slice = .ok bytes) slices chunks)
    (hfield : TextColumn field) (htypes : ∀ slice ∈ slices, slice.dataType = field.dataType) :
    List.Forall₂ (fun slice bytes => encodeStrings (stringsOf slice) = .ok bytes) slices chunks := by
  induction h with
  | nil => exact .nil
  | cons hslice _ ih =>
    obtain ⟨htype, hrest⟩ := List.forall_mem_cons.mp htypes
    exact .cons (encodeColumn_strings hfield htype hslice) (ih hrest)

theorem mem_allPieces {piece : Column}
    (htypes : ∀ array ∈ arrays, array.dataType = field.dataType)
    (hresident : ∀ array ∈ arrays, Resident array)
    (h : piece ∈ allPieces field targetBytes arrays) :
    piece.dataType = field.dataType ∧ Resident piece := by
  obtain ⟨array, harray, hpiece⟩ := List.mem_flatMap.mp h
  obtain ⟨start, len, rfl⟩ := mem_pieces hpiece
  exact ⟨(Column.slice_dataType _ _ _).trans (htypes array harray),
    (hresident array harray).slice start len⟩

theorem decodeStrings_columns
    (h : List.Forall₂ (fun slice bytes => encodeColumn date field slice = .ok bytes) slices chunks)
    (hfield : TextColumn field) (htypes : ∀ slice ∈ slices, slice.dataType = field.dataType)
    (hlength : chunks.flatten.length ≤ i32Max) (hbytes : textBytes (slices.flatMap stringsOf) ≤
      min i32Max (max (16 * chunks.flatten.length) (2 ^ 20))) :
    decodeStrings chunks.flatten (slices.flatMap stringsOf).length =
      .ok (slices.flatMap stringsOf) := by
  have hmax : i32Max ≤ usizeMax := by decide
  have hstrings := strings_of_columns h hfield htypes
  have hrows := strings_length_le hstrings
  exact decodeStrings_reads (readsAll_slices [] hstrings (by rw [List.length_nil]; omega)) hlength
    hbytes

theorem chunked_encoding_faithful (date : Int → Option Date) (field : Field) (arrays : List Column)
    (targetBytes : Nat) (emit : σ → Bytes → σ × Except ε Unit)
    (hemit : ∀ state bytes, (emit state bytes).2 = .ok ())
    (htypes : ∀ array ∈ arrays, array.dataType = field.dataType)
    (hresident : ∀ array ∈ arrays, Resident array) (state state' : σ) (chunks : List Bytes)
    (result : Except (ChunkedEncodeError ε) Nat)
    (hrun : encodeColumnChunks date field arrays targetBytes (record emit) (state, []) =
      ((state', chunks), result)) :
    (∀ total, result = .ok total →
      (∃ cuts, List.Forall₂ Covers arrays cuts ∧
        List.Forall₂ (fun slice bytes => encodeColumn date field slice = .ok bytes)
          (slicesOf arrays cuts) chunks) ∧
      state' = feed emit state chunks ∧ total = (chunks.map List.length).sum ∧
      (TextColumn field → chunks.flatten.length ≤ i32Max →
        textBytes (arrays.flatMap stringsOf) ≤
          min i32Max (max (16 * chunks.flatten.length) (2 ^ 20)) →
        decodeStrings chunks.flatten (arrays.map Column.len).sum =
          .ok (arrays.flatMap stringsOf))) ∧
    (Sized field targetBytes arrays →
      (((∃ e, result = .error (.encode e)) ↔
          ∃ array ∈ arrays, ∀ bytes, encodeColumn date field array ≠ .ok bytes) ↔
        ¬(NoEncoder field ∧ arrays ≠ [] ∧ ∀ array ∈ arrays, array.len = 0))) ∧
    ∀ slice, slice.dataType = field.dataType → Resident slice →
      Borrows (borrowedWireBytes slice) (encodeColumn date field slice) := by
  refine ⟨fun total hresult => ?_, fun hsized => ?_, fun slice htype hslice =>
    borrowedWireBytes_borrows date htype hslice⟩
  · obtain ⟨slices, emitted, -, hencoded, hstate, hok⟩ := encodeColumnChunks_run hrun
    rw [feed_record, List.nil_append, Prod.mk.injEq] at hstate
    obtain ⟨rfl, rfl⟩ := hstate
    obtain ⟨rfl, -, rfl⟩ := hok total hresult
    obtain ⟨cuts, hcovers, hcuts⟩ := allPieces_slicesOf field targetBytes arrays
    have hpieces : ∀ piece ∈ slicesOf arrays cuts,
        piece.dataType = field.dataType ∧ Resident piece := by
      rw [← hcuts]
      exact fun piece => mem_allPieces htypes hresident
    rw [hcuts] at hencoded
    have hcolumns := hencoded.columns hpieces
    refine ⟨⟨cuts, hcovers, hcolumns⟩, rfl, List.length_flatten, fun hfield hlength hbytes => ?_⟩
    rw [← strings_length hfield htypes]
    rw [← slicesOf_strings hfield htypes hcovers] at hbytes ⊢
    exact decodeStrings_columns hcolumns hfield (fun piece h => (hpieces piece h).1) hlength hbytes
  · have hrecord (state : σ × List Bytes) (bytes : Bytes) : (record emit state bytes).2 = .ok () :=
      hemit state.1 bytes
    have herror := error_iff_encodeColumn_fails hrecord htypes hresident hsized hrun
    simpa only [IsOk, not_exists] using herror

theorem two_text_pieces_faithful :
    encodeColumnChunks (fun _ => none) ⟨"a", .utf8 .standard, true, none⟩
        [.utf8 .standard [some ⟨[97], rfl⟩, some ⟨[97], rfl⟩, some ⟨[97], rfl⟩]] 4 (record collect)
        ([], []) = (([[97, 0, 129], [97, 0]], [[97, 0, 129], [97, 0]]), .ok 5) ∧
      decodeStrings [97, 0, 129, 97, 0] 3 =
        .ok [some ⟨[97], rfl⟩, some ⟨[97], rfl⟩, some ⟨[97], rfl⟩] := by
  have hrun : encodeColumnChunks (fun _ => none) ⟨"a", .utf8 .standard, true, none⟩
      [.utf8 .standard [some ⟨[97], rfl⟩, some ⟨[97], rfl⟩, some ⟨[97], rfl⟩]] 4 (record collect)
      ([], []) = (([[97, 0, 129], [97, 0]], [[97, 0, 129], [97, 0]]), .ok 5) := rfl
  obtain ⟨hok, -⟩ := chunked_encoding_faithful (fun _ => none) ⟨"a", .utf8 .standard, true, none⟩
    [.utf8 .standard [some ⟨[97], rfl⟩, some ⟨[97], rfl⟩, some ⟨[97], rfl⟩]] 4 collect
    (fun _ _ => rfl) (by simp [Column.dataType]) (by simp [Resident]) [] _ _ _ hrun
  have htext : TextColumn ⟨"a", .utf8 .standard, true, none⟩ :=
    ⟨⟨.varchar 0, rfl, by simp [IsAddress]⟩, .inl ⟨.standard, rfl⟩⟩
  exact ⟨hrun, (hok 5 rfl).2.2.2 htext (by decide) (by decide)⟩

theorem empty_inet_chunks_succeed :
    encodeColumnChunks (fun _ => none) ⟨"a", .utf8 .standard, true, some "monetdb.inet"⟩
        [.utf8 .standard []] 1024 collect [] = ([], .ok 0) ∧
      encodeColumn (fun _ => none) ⟨"a", .utf8 .standard, true, some "monetdb.inet"⟩
        (.utf8 .standard []) = .error (.unsupportedMonetType .inet) := ⟨rfl, rfl⟩

end Runs

end MonetdbAdbc
