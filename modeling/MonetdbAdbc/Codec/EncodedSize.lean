import MonetdbAdbc.Codec.ColumnCodec
import MonetdbAdbc.Codec.StringCodec
import MonetdbAdbc.EncodeChunks

namespace MonetdbAdbc
open LittleEndian Utf8 Machine Rows Calendar

section Strings
variable {before : List (Option Str)} {state : StringState}

def backrefBytes (distance : Nat) : Nat := if distance ≤ 63 then 1 else 2 + Nat.log 128 distance

def literalBytes (value : Option Str) : Nat := value.elim 2 fun value => value.bytes.length + 1

-- The earlier rows come latest first, so the index of an equal one is its distance less one.
def stringCost (before : List (Option Str)) (value : Option Str) : Nat :=
  match before.findIdx? (· == value) with
  | none => literalBytes value
  | some index => if value = none then min 2 (backrefBytes (index + 1)) else backrefBytes (index + 1)

def stringCosts : List (Option Str) → List (Option Str) → List Nat
  | _, [] => []
  | before, value :: values => stringCost before value :: stringCosts (value :: before) values

theorem appendBackref_length (distance : Nat) :
    (appendBackref distance).length = backrefBytes distance := by
  rw [appendBackref, backrefBytes]
  split_ifs with hshort
  · rfl
  · rw [List.length_cons, Varint.write_length]
    omega

structure Remembers (state : StringState) (before : List (Option Str)) : Prop where
  seen : ∀ value : Str, state.seen value.bytes =
    (before.findIdx? (· == some value)).map fun index => before.length - (index + 1)
  null : state.null =
    (before.findIdx? (· == none)).map fun index => before.length - (index + 1)

theorem remembers_nothing : Remembers ⟨fun _ => none, none⟩ [] := ⟨fun _ => rfl, rfl⟩

theorem findIdx?_lt {α : Type} {p : α → Bool} {xs : List α} {index : Nat}
    (h : xs.findIdx? p = some index) : index < xs.length :=
  (List.findIdx?_eq_some_iff_getElem.mp h).1

theorem backref_distance {p : Option Str → Bool} {index : Nat}
    (h : before.findIdx? p = some index) :
    before.length - (before.length - (index + 1)) = index + 1 := by
  have hlt := findIdx?_lt h
  omega

theorem findIdx?_push {p : Option Str → Bool} {value : Option Str} (h : p value = false) :
    ((value :: before).findIdx? p).map (fun index => (value :: before).length - (index + 1)) =
      (before.findIdx? p).map fun index => before.length - (index + 1) := by
  rw [List.findIdx?_cons, h]
  cases hfind : before.findIdx? p with
  | none => rfl
  | some index =>
    have hlt := findIdx?_lt hfind
    simp

theorem Remembers.push_seen (h : Remembers state before) (value : Str) :
    Remembers { state with seen := Function.update state.seen value.bytes (some before.length) }
      (some value :: before) where
  seen := by
    intro other
    by_cases heq : other = value
    · subst heq
      simp [List.findIdx?_cons]
    · have hbytes : other.bytes ≠ value.bytes := fun hbytes => heq (by
        cases other
        cases value
        simpa using hbytes)
      dsimp only
      rw [Function.update_of_ne hbytes, h.seen other, findIdx?_push]
      simpa using Ne.symm heq
  null := by rw [h.null, findIdx?_push rfl]

theorem Remembers.push_null (h : Remembers state before) :
    Remembers { state with null := some before.length } (none :: before) where
  seen := by
    intro other
    rw [h.seen other, findIdx?_push rfl]
  null := by simp [List.findIdx?_cons]

theorem stringPiece_cost {next : StringState} {value : Option Str} {piece : Bytes}
    (hstate : Remembers state before)
    (h : stringPiece before.length state value = .ok (piece, next)) :
    piece.length = stringCost before value ∧ Remembers next (value :: before) := by
  rw [stringCost]
  cases value with
  | some value =>
    simp only [stringPiece, hstate.seen] at h
    split_ifs at h with hnul
    · simp [invalid] at h
    · cases hfind : before.findIdx? (· == some value) with
      | none =>
        simp only [hfind, Option.map_none, Except.ok.injEq, Prod.mk.injEq] at h
        obtain ⟨rfl, rfl⟩ := h
        exact ⟨by simp [literalBytes], hstate.push_seen value⟩
      | some index =>
        simp only [hfind, Option.map_some, backref_distance hfind, Except.ok.injEq,
          Prod.mk.injEq] at h
        obtain ⟨rfl, rfl⟩ := h
        exact ⟨by simp [appendBackref_length], hstate.push_seen value⟩
  | none =>
    simp only [stringPiece, hstate.null] at h
    cases hfind : before.findIdx? (· == none) with
    | none =>
      simp only [hfind, Option.map_none, Except.ok.injEq, Prod.mk.injEq] at h
      obtain ⟨rfl, rfl⟩ := h
      exact ⟨rfl, hstate.push_null⟩
    | some index =>
      simp only [hfind, Option.map_some, backref_distance hfind] at h
      simp only [if_true]
      split_ifs at h with hnear
      · cases h
        have hshort : backrefBytes (index + 1) = 1 := if_pos (by omega)
        rw [appendBackref_length, hshort]
        exact ⟨rfl, hstate.push_null⟩
      · cases h
        have hlong : 2 ≤ backrefBytes (index + 1) := by
          rw [backrefBytes, if_neg (by omega)]
          omega
        rw [min_eq_left hlong]
        exact ⟨rfl, hstate.push_null⟩

theorem encodeStringsFrom_cost {values : List (Option Str)} {bytes : Bytes}
    (hstate : Remembers state before)
    (h : encodeStringsFrom before.length state values = .ok bytes) :
    bytes.length = (stringCosts before values).sum := by
  induction values generalizing state before bytes with
  | nil =>
    rw [← Except.ok.inj h]
    rfl
  | cons value values ih =>
    obtain ⟨piece, next, rest, hpiece, hrest, rfl⟩ := encodeStringsFrom_cons_ok h
    obtain ⟨hlength, hnext⟩ := stringPiece_cost hstate hpiece
    rw [List.length_append, hlength, stringCosts, List.sum_cons, ih hnext hrest]

theorem encodeStrings_cost {values : List (Option Str)} {bytes : Bytes}
    (h : encodeStrings values = .ok bytes) : bytes.length = (stringCosts [] values).sum :=
  encodeStringsFrom_cost remembers_nothing h

end Strings

section Costs
variable {date : Int → Option Date} {monetType : MonetType} {field : Field} {bytes : Bytes}
  {array : Column}

def dictionaryStrings (keys : List (Option Nat)) (strings : List (Option Str)) :
    List (Option Str) :=
  keys.map fun index => index.bind fun index => strings[index]?.join

def blobCost (value : Option Bytes) : Nat := 8 + value.elim 0 List.length

def arrayCosts (monetType : MonetType) : Column → List Nat
  | .null rows => List.replicate rows 2
  | .boolean values => List.replicate values.length 1
  | .primitive type slots => List.replicate slots.length (nativeWireWidth monetType type)
  | .utf8 _ values =>
    match monetType with
    | .inet4 => List.replicate values.length 4
    | .inet6 => List.replicate values.length 16
    | _ => stringCosts [] values
  | .dictionary _ keys (.utf8 _ strings) => stringCosts [] (dictionaryStrings keys strings)
  | .dictionary _ _ _ => []
  | .binary _ values => values.map blobCost
  | .fixedSizeBinary width values =>
    if width = 16 ∧ monetType = .uuid then List.replicate values.length 16
    else (values.map (·.map Subtype.val)).map blobCost
  | .other _ _ => []

def rowCosts (field : Field) (array : Column) : List Nat :=
  arrayCosts ((monetTypeForField field).toOption.getD (.varchar 0)) array

theorem addressRow_length {width : Nat} {parse : Bytes → Option Bytes} {message : String}
    (hparse : ∀ text octets, parse text = some octets → octets.length = width) (row : Nat)
    (value : Option Str) (p : Bytes) (h : addressRow width parse message row value = .ok p) :
    p.length = width := by
  cases value with
  | none => rw [← Except.ok.inj h, List.length_replicate]
  | some value =>
    rw [addressRow] at h
    cases hoctets : parse value.bytes with
    | none => simp [hoctets, invalid] at h
    | some octets =>
      simp only [hoctets] at h
      obtain ⟨-, h⟩ := ite_error_eq_ok.mp h
      rw [← Except.ok.inj h]
      exact hparse _ _ hoctets

theorem ipv4_width (text octets : Bytes)
    (h : (InetAddress.parseIpv4 text).map InetAddress.ipv4Octets = some octets) :
    octets.length = 4 := by
  obtain ⟨found, hfound, rfl⟩ := Option.map_eq_some_iff.mp h
  rw [InetAddress.ipv4Octets, List.length_map, InetAddress.parseIpv4_length hfound]

theorem ipv6_width (text octets : Bytes)
    (h : (InetAddress.parseIpv6 text).map InetAddress.ipv6Octets = some octets) :
    octets.length = 16 := by
  obtain ⟨found, hfound, rfl⟩ := Option.map_eq_some_iff.mp h
  rw [InetAddress.ipv6Octets_length, InetAddress.parseIpv6_length hfound]

theorem encodeBlobs_cost (values : List (Option Bytes)) :
    (encodeBlobs values).length = (values.map blobCost).sum := by
  induction values with
  | nil => rfl
  | cons value values ih =>
    rw [encodeBlobs_cons, List.length_append, ih, List.map_cons, List.sum_cons, blobCost]
    cases value <;> simp

theorem arrayWireWidth_eq (h : array.dataType = field.dataType) :
    arrayWireWidth field array.dataType = fixedEncodedWidth field := by
  rw [arrayWireWidth, h]
  split_ifs with hnull
  · rw [fixedEncodedWidth, if_pos hnull]
  · rfl

theorem fixedEncodedWidth_eq (ht : monetTypeForField field = .ok monetType)
    (hnull : field.dataType ≠ .null) :
    fixedEncodedWidth field = .ok (fixedWireWidth monetType) := by
  rw [fixedEncodedWidth, if_neg hnull, ht]
  rfl

theorem primitive_without_width {type : Primitive} (hfield : field.dataType = .primitive type)
    (ht : monetTypeForField field = .ok monetType) (hwidth : fixedWireWidth monetType = none) :
    ∃ precision scale, type = .decimal128 precision scale ∧ decimalWireWidth precision = none := by
  cases type with
  | decimal128 precision scale =>
    rw [monetTypeForField, hfield] at ht
    dsimp only at ht
    split_ifs at ht with hhuge hscale
    · rw [← Except.ok.inj ht] at hwidth
      cases hwidth
    · rw [← Except.ok.inj ht] at hwidth
      exact ⟨precision, scale, rfl, hwidth⟩
  | int32 | uint64 | time64 | timestamp | duration =>
    simp only [monetTypeForField, hfield, Except.ok.injEq] at ht
    rw [← ht] at hwidth
    split_ifs at hwidth <;> cases hwidth
  | _ =>
    simp only [monetTypeForField, hfield, Except.ok.injEq] at ht
    rw [← ht] at hwidth
    cases hwidth

theorem encodeDictionary_ok {key : DataType} {keys : List (Option Nat)} {values : Column}
    (h : encodeDictionary key keys values = .ok bytes) :
    ∃ layout strings, values = .utf8 layout strings ∧
      encodeStrings (dictionaryStrings keys strings) = .ok bytes ∧
      estimatedDictionaryStrings key keys values =
        estimatedStrings (dictionaryStrings keys strings) := by
  rw [encodeDictionary.eq_def] at h
  split at h
  · rename_i layout strings hkey
    obtain ⟨checked, hchecked, h⟩ := bind_eq_ok.mp h
    refine ⟨layout, strings, rfl, h, ?_⟩
    simp only [estimatedDictionaryStrings, hkey, hchecked, ok_bind]
    rfl
  · cases h

def IsAddress (monetType : MonetType) : Prop :=
  monetType = .inet4 ∨ monetType = .inet6 ∨ monetType = .inet

theorem encodeArray_utf8 (h : ¬IsAddress monetType) (layout : Layout) (values : List (Option Str)) :
    encodeArray date monetType (.utf8 layout values) = (do
      if layout ≠ .view then reserveStrings values
      encodeStrings values) := by
  cases monetType with
  | inet4 => exact absurd (.inl rfl) h
  | inet6 => exact absurd (.inr (.inl rfl)) h
  | inet => exact absurd (.inr (.inr rfl)) h
  | _ => rfl

theorem arrayCosts_utf8 (h : ¬IsAddress monetType) (layout : Layout) (values : List (Option Str)) :
    arrayCosts monetType (.utf8 layout values) = stringCosts [] values := by
  cases monetType with
  | inet4 => exact absurd (.inl rfl) h
  | inet6 => exact absurd (.inr (.inl rfl)) h
  | _ => rfl

theorem encodeUtf8_ok (h : ¬IsAddress monetType) {layout : Layout} {values : List (Option Str)}
    (hencode : encodeArray date monetType (.utf8 layout values) = .ok bytes) :
    encodeStrings values = .ok bytes := by
  rw [encodeArray_utf8 h] at hencode
  split_ifs at hencode
  · exact (bind_eq_ok.mp hencode).choose_spec.2
  · exact hencode

def variableWidth : Column → Bool
  | .utf8 .. | .binary .. | .fixedSizeBinary .. | .dictionary .. => true
  | _ => false

def Estimable (field : Field) (array : Column) : Prop :=
  arrayWireWidth field array.dataType = .ok none → variableWidth array

theorem encodeColumn_estimable (htype : array.dataType = field.dataType)
    (h : encodeColumn date field array = .ok bytes) : Estimable field array := by
  obtain ⟨monetType, ht, hencode, -⟩ := encodeColumn_ok h
  intro hwidth
  rw [arrayWireWidth_eq htype] at hwidth
  have hnull : field.dataType ≠ .null := fun hnull => by
    rw [fixedEncodedWidth, if_pos hnull] at hwidth
    cases hwidth
  rw [fixedEncodedWidth_eq ht hnull, Except.ok.injEq] at hwidth
  cases array with
  | null rows => exact absurd htype.symm hnull
  | boolean values =>
    rw [monetTypeForField, ← htype] at ht
    rw [← Except.ok.inj ht] at hwidth
    cases hwidth
  | primitive type slots =>
    obtain ⟨precision, scale, rfl, hdecimal⟩ := primitive_without_width htype.symm ht hwidth
    have hrejected : encodeDecimal slots precision (monetType != .hugeInt) = .ok bytes := hencode
    simp only [encodeDecimal, hdecimal] at hrejected
    cases hrejected
  | utf8 | binary | fixedSizeBinary | dictionary => rfl
  | other name values => cases hencode

theorem encodeArray_cost (h : encodeArray date monetType array = .ok bytes) :
    bytes.length = (arrayCosts monetType array).sum := by
  cases array with
  | null rows =>
    rw [← Except.ok.inj h, arrayCosts, List.sum_replicate, flatten_length 2, List.length_replicate]
    · rfl
    · intro p hp
      rw [List.eq_of_mem_replicate hp]
      rfl
  | boolean values =>
    rw [← Except.ok.inj h, arrayCosts, List.sum_replicate, encodeBool, List.length_map]
    exact (Nat.mul_one _).symm
  | primitive type slots =>
    rw [arrayCosts, List.sum_replicate]
    exact encodeNative_length h
  | utf8 layout values =>
    by_cases haddress : IsAddress monetType
    · rcases haddress with rfl | rfl | rfl
      · rw [arrayCosts, List.sum_replicate]
        exact concat_length (addressRow_length ipv4_width) h
      · rw [arrayCosts, List.sum_replicate]
        exact concat_length (addressRow_length ipv6_width) h
      · cases h
    · rw [arrayCosts_utf8 haddress]
      exact encodeStrings_cost (encodeUtf8_ok haddress h)
  | binary layout values =>
    rw [← Except.ok.inj h]
    exact encodeBlobs_cost values
  | fixedSizeBinary width values =>
    by_cases huuid : width = 16 ∧ monetType = .uuid
    · obtain ⟨rfl, rfl⟩ := huuid
      rw [arrayCosts, if_pos ⟨rfl, rfl⟩, List.sum_replicate]
      have hvalues : encodeUuid values = .ok bytes := h
      exact concat_length uuidRow_length hvalues
    · rw [encodeArray, dif_neg huuid] at h
      rw [← Except.ok.inj h, arrayCosts, if_neg huuid]
      exact encodeBlobs_cost _
  | dictionary key keys values =>
    obtain ⟨layout, strings, rfl, hstrings, -⟩ := encodeDictionary_ok h
    exact encodeStrings_cost hstrings
  | other name values => cases h

theorem encodeColumn_cost (h : encodeColumn date field array = .ok bytes) :
    bytes.length = (rowCosts field array).sum := by
  obtain ⟨monetType, ht, hencode, -⟩ := encodeColumn_ok h
  rw [rowCosts, ht]
  exact encodeArray_cost hencode

end Costs

section Estimates
variable {est : Nat} {array : Column}

def stringEstimate (value : Option Str) : Nat :=
  value.elim 2 fun value => saturatingAdd value.bytes.length 1

def blobEstimate (value : Option Bytes) : Nat := saturatingAdd 8 (value.elim 0 List.length)

def variableEstimates : Column → List Nat
  | .utf8 _ values => values.map stringEstimate
  | .dictionary _ keys (.utf8 _ strings) => (dictionaryStrings keys strings).map stringEstimate
  | .binary _ values => values.map blobEstimate
  | .fixedSizeBinary _ values => (values.map (·.map Subtype.val)).map blobEstimate
  | _ => []

def rowEstimates (field : Field) (array : Column) : List Nat :=
  match arrayWireWidth field array.dataType with
  | .ok (some width) => List.replicate array.len width
  | .ok none => variableEstimates array
  | .error _ => []

theorem estimatedTotal_ok {rows total : Nat} {message : String} {sizes : List Nat}
    (htotal : total ≤ usizeMax) :
    estimatedTotal rows message total sizes = .ok est ↔
      est = total + sizes.sum ∧ est ≤ usizeMax := by
  induction sizes generalizing total with
  | nil =>
    rw [estimatedTotal, List.sum_nil, add_zero, Except.ok.injEq, eq_comm, iff_self_and]
    rintro rfl
    exact htotal
  | cons size sizes ih =>
    rw [estimatedTotal, List.sum_cons]
    cases hadd : checkedAdd total size with
    | none =>
      have hlarge : ¬ total + size ≤ usizeMax := fun hle => by
        rw [checkedAdd_eq_some.mpr ⟨hle, rfl⟩] at hadd
        cases hadd
      simp only [invalid, reduceCtorEq, false_iff]
      omega
    | some next =>
      obtain ⟨hle, rfl⟩ := checkedAdd_eq_some.mp hadd
      simp only [ih hle]
      omega

theorem estimatedStrings_ok {values : List (Option Str)} :
    estimatedStrings values = .ok est ↔
      est = (values.map stringEstimate).sum ∧ est ≤ usizeMax := by
  rw [← zero_add (values.map stringEstimate).sum]
  exact estimatedTotal_ok (Nat.zero_le _)

theorem estimatedBlobs_ok {values : List (Option Bytes)} :
    estimatedBlobs values = .ok est ↔ est = (values.map blobEstimate).sum ∧ est ≤ usizeMax := by
  rw [← zero_add (values.map blobEstimate).sum]
  exact estimatedTotal_ok (Nat.zero_le _)

theorem estimatedDictionaryStrings_ok {key : DataType} {keys : List (Option Nat)}
    {values : Column} (h : estimatedDictionaryStrings key keys values = .ok est) :
    ∃ layout strings, values = .utf8 layout strings ∧
      estimatedStrings (dictionaryStrings keys strings) = .ok est := by
  rw [estimatedDictionaryStrings.eq_def] at h
  split at h
  · rename_i layout strings hkey
    obtain ⟨checked, -, h⟩ := bind_eq_ok.mp h
    exact ⟨layout, strings, rfl, h⟩
  · cases h

theorem estimatedVariable_eq (h : estimatedVariable array = .ok est) :
    est = (variableEstimates array).sum ∧ est ≤ usizeMax := by
  cases array with
  | utf8 layout values => exact estimatedStrings_ok.mp h
  | binary layout values | fixedSizeBinary width values => exact estimatedBlobs_ok.mp h
  | dictionary key keys values =>
    obtain ⟨layout, strings, rfl, hstrings⟩ := estimatedDictionaryStrings_ok h
    exact estimatedStrings_ok.mp hstrings
  | null | boolean | primitive | other => cases h

theorem estimatedEncodedSize_eq {field : Field} (h : estimatedEncodedSize field array = .ok est) :
    est = (rowEstimates field array).sum ∧ est ≤ usizeMax := by
  rw [estimatedEncodedSize] at h
  obtain ⟨width, hwidth, h⟩ := bind_eq_ok.mp h
  rw [rowEstimates, hwidth]
  cases width with
  | none => exact estimatedVariable_eq h
  | some width =>
    obtain ⟨hle, rfl⟩ := checkedMul_eq_some.mp (okOr_eq_ok.mp h)
    simp [hle]

theorem rowEstimates_slice (field : Field) (array : Column) (start len : Nat) :
    rowEstimates field (array.slice start len) = ((rowEstimates field array).drop start).take len := by
  rw [rowEstimates, rowEstimates, Column.slice_dataType]
  cases arrayWireWidth field array.dataType with
  | error e => simp
  | ok width =>
    cases width with
    | some width => simp [Column.slice_len]
    | none =>
      cases array with
      | dictionary key keys values =>
        cases values <;> simp [Column.slice, variableEstimates, dictionaryStrings, List.map_take, List.map_drop]
      | _ => simp [Column.slice, variableEstimates, List.map_take, List.map_drop]

theorem estimatedVariable_isOk {date : Int → Option Date} {monetType : MonetType} {bytes : Bytes}
    (h : encodeArray date monetType array = .ok bytes) (hvariable : variableWidth array)
    (hle : (variableEstimates array).sum ≤ usizeMax) :
    ∃ est, estimatedVariable array = .ok est := by
  cases array with
  | utf8 layout values => exact ⟨_, estimatedStrings_ok.mpr ⟨rfl, hle⟩⟩
  | binary layout values => exact ⟨_, estimatedBlobs_ok.mpr ⟨rfl, hle⟩⟩
  | fixedSizeBinary width values => exact ⟨_, estimatedBlobs_ok.mpr ⟨rfl, hle⟩⟩
  | dictionary key keys values =>
    obtain ⟨layout, strings, rfl, -, hestimate⟩ := encodeDictionary_ok h
    exact ⟨_, hestimate.trans (estimatedStrings_ok.mpr ⟨rfl, hle⟩)⟩
  | null | boolean | primitive | other => cases hvariable

theorem variableWidth_of_estimatedVariable (h : estimatedVariable array = .ok est) :
    variableWidth array := by
  cases array with
  | utf8 | binary | fixedSizeBinary | dictionary => rfl
  | null | boolean | primitive | other => cases h

theorem estimatedEncodedSize_isOk {date : Int → Option Date} {field : Field} {bytes : Bytes}
    (h : encodeColumn date field array = .ok bytes) :
    (∃ est, estimatedEncodedSize field array = .ok est) ↔
      Estimable field array ∧ (rowEstimates field array).sum ≤ usizeMax := by
  obtain ⟨monetType, ht, hencode, -⟩ := encodeColumn_ok h
  constructor
  · rintro ⟨est, hest⟩
    obtain ⟨rfl, hle⟩ := estimatedEncodedSize_eq hest
    refine ⟨fun hwidth => ?_, hle⟩
    rw [estimatedEncodedSize, hwidth] at hest
    exact variableWidth_of_estimatedVariable hest
  · rintro ⟨hestimable, hle⟩
    rw [rowEstimates] at hle
    rw [estimatedEncodedSize]
    cases hwidth : arrayWireWidth field array.dataType with
    | error e =>
      rw [arrayWireWidth, fixedEncodedWidth, ht] at hwidth
      split_ifs at hwidth
      cases hwidth
    | ok width =>
      rw [hwidth] at hle
      cases width with
      | some width => exact ⟨_, okOr_eq_ok.mpr (checkedMul_eq_some.mpr ⟨by simpa using hle, rfl⟩)⟩
      | none => exact estimatedVariable_isOk hencode (hestimable hwidth) hle

end Estimates

end MonetdbAdbc
