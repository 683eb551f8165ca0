import MonetdbAdbc.Codec.ColumnSlices

namespace MonetdbAdbc
open LittleEndian Utf8 Machine Rows Slices

section Rows
variable {rows valueBytes : Nat} {bytes : Bytes} {values : List (Option Str)}

theorem takeChunks_count (width count : Nat) (bs : Bytes) :
    (takeChunks width count bs).length = count := by
  induction count generalizing bs with
  | zero => rfl
  | succ count ih => rw [takeChunks, List.length_cons, ih]

theorem chunksExact_count {width : Nat} (hwidth : 0 < width) (h : bytes.length = rows * width) :
    (chunksExact width bytes).length = rows := by
  rw [chunksExact, takeChunks_count, h, Nat.mul_div_cancel _ hwidth]

theorem fixedRows_ok {α : Type} {width : Nat} {values : List α}
    {f : Nat → Bytes → Except DecodeError α} (hwidth : 0 < width)
    (h : (do expectFixed bytes rows width; mapRows f (chunksExact width bytes)) = .ok values) :
    bytes.length = rows * width ∧ values.length = rows := by
  obtain ⟨u, hfixed, hmap⟩ := bind_eq_ok.mp h
  have hlength := length_of_expectFixed hfixed
  exact ⟨hlength, (mapFrom_length hmap).trans (chunksExact_count hwidth hlength)⟩

theorem decodePrimitive_ok {w : Nat} {isNull : BitVec w → Bool} {slots : List (Slot w)}
    (hwidth : 0 < w / 8) (h : decodePrimitive w isNull bytes rows = .ok slots) :
    bytes.length = rows * (w / 8) ∧ slots.length = rows := by
  obtain ⟨u, hfixed, hmap⟩ := bind_eq_ok.mp h
  have hlength := length_of_expectFixed hfixed
  refine ⟨hlength, ?_⟩
  rw [← Except.ok.inj hmap, List.length_map, chunksExact_count hwidth hlength]

theorem decodeBool_ok {values : List (Option Bool)} (h : decodeBool bytes rows = .ok values) :
    bytes.length = rows ∧ values.length = rows := by
  obtain ⟨u, hfixed, hmap⟩ := bind_eq_ok.mp h
  have hlength : bytes.length = rows := by simpa using length_of_expectFixed hfixed
  exact ⟨hlength, (mapFrom_length hmap).trans hlength⟩

def decimalWidth (precision : Nat) (hugeint : Bool) : Nat :=
  (if hugeint then some 16 else decimalWireWidth precision).getD 0

theorem decodeDecimal_ok {precision : Nat} {scale : Int} {hugeint : Bool}
    {slots : List (Slot 128)} (h : decodeDecimal bytes rows precision scale hugeint = .ok slots) :
    bytes.length = rows * decimalWidth precision hugeint ∧ slots.length = rows := by
  rw [decodeDecimal] at h
  obtain ⟨hrange, h⟩ := ite_error_eq_ok.mp h
  obtain ⟨width, hwidth, hpositive⟩ : ∃ width,
      (if hugeint then some 16 else decimalWireWidth precision) = some width ∧ 0 < width := by
    cases hugeint with
    | true => exact ⟨16, rfl, by decide⟩
    | false =>
      obtain ⟨width, hwidth⟩ := decimalWireWidth_isSome precision (by omega)
      have hmem := decimalWireWidth_mem hwidth
      simp only [List.mem_cons, List.not_mem_nil, or_false] at hmem
      exact ⟨width, hwidth, by omega⟩
  rw [decimalWidth, hwidth]
  simp only [hwidth] at h
  exact fixedRows_ok hpositive h

theorem decodeStringsWithBackrefs_length {total limit n row pos : Nat}
    {history : List (Option Str)} {tail : Bytes}
    (h : decodeStringsWithBackrefs total limit n row pos valueBytes history tail = .ok values) :
    values.length = history.length + n := by
  induction n generalizing row pos valueBytes history tail with
  | zero =>
    rw [decodeStringsWithBackrefs] at h
    split_ifs at h
    rw [Except.ok.inj h, Nat.add_zero]
  | succ n ih =>
    cases tail with
    | nil => simp [decodeStringsWithBackrefs] at h
    | cons first rest =>
      rw [decodeStringsWithBackrefs] at h
      obtain ⟨⟨value, consumed, rest⟩, -, h⟩ := bind_eq_ok.mp h
      obtain ⟨valueBytes, -, h⟩ := bind_eq_ok.mp h
      rw [ih h, List.length_append, List.length_singleton]
      omega

theorem decodeStrings_general (h : decodeStrings bytes rows = .ok values) :
    decodeStringsWithBackrefs bytes.length (expansionLimit bytes) rows 0 0 0 [] bytes =
      .ok values := by
  rw [decodeStrings] at h
  split_ifs at h with hfew hlong
  have hagree := decodeStrings_paths_agree (Nat.le_of_not_lt hlong) rows
  cases hfast : decodeStringsWithoutBackrefs bytes.length rows 0 0 0 bytes with
  | error e => simp [hfast] at h
  | ok result =>
    cases result with
    | none => simpa [hfast] using h
    | some decoded =>
      simp only [hfast, ok_bind] at h
      simpa [hfast, Agrees, ← Except.ok.inj h] using hagree

theorem decodeStrings_ok (h : decodeStrings bytes rows = .ok values) : values.length = rows := by
  simpa using decodeStringsWithBackrefs_length (decodeStrings_general h)

theorem decodeBlobValues_succ {total n row pos : Nat} {tail : Bytes}
    {values : List (Option Bytes)}
    (h : decodeBlobValues total (n + 1) row pos valueBytes tail = .ok values) :
    8 ≤ tail.length ∧ ∃ rest,
      ((ofLeBytes 64 (tail.take 8)).toInt = -1 ∧ values = none :: rest ∧
        decodeBlobValues total n (row + 1) (pos + 8) valueBytes (tail.drop 8) = .ok rest ∨
      ∃ length : Nat, (ofLeBytes 64 (tail.take 8)).toInt = length ∧
        length ≤ (tail.drop 8).length ∧ values = some ((tail.drop 8).take length) :: rest ∧
        decodeBlobValues total n (row + 1) (pos + 8 + length) (valueBytes + length)
          ((tail.drop 8).drop length) = .ok rest) := by
  rw [decodeBlobValues] at h
  obtain ⟨headerEnd, -, h⟩ := bind_eq_ok.mp h
  obtain ⟨hshort, h⟩ := ite_error_eq_ok.mp h
  refine ⟨Nat.le_of_not_lt hshort, ?_⟩
  dsimp only at h
  by_cases hnull : (ofLeBytes 64 (tail.take 8)).toInt = -1
  · rw [if_pos hnull] at h
    obtain ⟨rest, hrest, h⟩ := bind_eq_ok.mp h
    exact ⟨rest, .inl ⟨hnull, (Except.ok.inj h).symm, hrest⟩⟩
  · rw [if_neg hnull] at h
    obtain ⟨hnegative, h⟩ := ite_error_eq_ok.mp h
    obtain ⟨length, hlength⟩ := Int.eq_ofNat_of_zero_le
      (by omega : 0 ≤ (ofLeBytes 64 (tail.take 8)).toInt)
    obtain ⟨valueEnd, -, h⟩ := bind_eq_ok.mp h
    simp only [hlength, Int.toNat_natCast] at h
    obtain ⟨hlong, h⟩ := ite_error_eq_ok.mp h
    obtain ⟨valueBytes, hadd, h⟩ := bind_eq_ok.mp h
    obtain ⟨-, rfl⟩ := checkedAdd_eq_some.mp (okOr_eq_ok.mp hadd)
    obtain ⟨-, h⟩ := ite_error_eq_ok.mp h
    obtain ⟨rest, hrest, h⟩ := bind_eq_ok.mp h
    exact ⟨rest, .inr ⟨length, hlength, Nat.le_of_not_lt hlong, (Except.ok.inj h).symm, hrest⟩⟩

theorem decodeBlobValues_length {total n row pos : Nat} {tail : Bytes}
    {values : List (Option Bytes)}
    (h : decodeBlobValues total n row pos valueBytes tail = .ok values) : values.length = n := by
  induction n generalizing row pos valueBytes tail values with
  | zero =>
    rw [decodeBlobValues] at h
    split_ifs at h
    rw [← Except.ok.inj h]
    rfl
  | succ n ih =>
    obtain ⟨-, rest, ⟨-, rfl, hrest⟩ | ⟨length, -, -, rfl, hrest⟩⟩ := decodeBlobValues_succ h
    · rw [List.length_cons, ih hrest]
    · rw [List.length_cons, ih hrest]

theorem decodeBlob_ok {values : List (Option Bytes)} (h : decodeBlob bytes rows = .ok values) :
    decodeBlobValues bytes.length rows 0 0 0 bytes = .ok values := by
  rw [decodeBlob] at h
  cases hmul : checkedMul rows 8 with
  | none => simp [hmul] at h
  | some minimum =>
    simp only [hmul] at h
    split_ifs at h
    exact h

theorem inetRows_length {chunks : List Bytes} (h : inetRows valueBytes chunks = .ok values) :
    values.length = chunks.length := by
  induction chunks generalizing valueBytes values with
  | nil =>
    rw [← Except.ok.inj h]
    rfl
  | cons chunk chunks ih =>
    rw [inetRows] at h
    obtain ⟨value, -, h⟩ := bind_eq_ok.mp h
    obtain ⟨total, -, h⟩ := bind_eq_ok.mp h
    obtain ⟨rest, hrest, h⟩ := bind_eq_ok.mp h
    rw [← Except.ok.inj h, List.length_cons, List.length_cons, ih hrest]

theorem decodeInet_length (hfits : bytes.length ≤ isizeMax)
    (h : decodeInet bytes rows = .ok values) : values.length = rows := by
  have hmax : isizeMax < usizeMax := by decide
  rw [decodeInet] at h
  split_ifs at h with hfour hsixteen
  · rw [saturatingMul] at hfour
    exact (inetRows_length h).trans (chunksExact_count (by decide) (by omega))
  · rw [saturatingMul] at hsixteen
    exact (inetRows_length h).trans (chunksExact_count (by decide) (by omega))

theorem decodeColumn_length {dataType : MonetType} {column : Column}
    (hfits : bytes.length ≤ isizeMax) (h : decodeColumn dataType bytes rows = .ok column) :
    column.len = rows := by
  cases dataType with
  | bool =>
    obtain ⟨values, hvalues, rfl⟩ := map_eq_ok.mp h
    exact (decodeBool_ok hvalues).2
  | tinyInt | smallInt | int | bigInt | oid | real | double | monthInterval | dayInterval
    | secInterval =>
    obtain ⟨slots, hslots, rfl⟩ := map_eq_ok.mp h
    exact (decodePrimitive_ok (by decide) hslots).2
  | hugeInt =>
    obtain ⟨slots, hslots, rfl⟩ := map_eq_ok.mp h
    exact (decodeDecimal_ok hslots).2
  | decimal precision scale =>
    obtain ⟨scale, -, h⟩ := bind_eq_ok.mp h
    obtain ⟨slots, hslots, rfl⟩ := map_eq_ok.mp h
    exact (decodeDecimal_ok hslots).2
  | varchar | url | json =>
    obtain ⟨values, hvalues, rfl⟩ := map_eq_ok.mp h
    exact decodeStrings_ok hvalues
  | time | timeTz | date | timestamp | timestampTz =>
    obtain ⟨slots, hslots, rfl⟩ := map_eq_ok.mp h
    exact (fixedRows_ok (by decide) hslots).2
  | uuid =>
    obtain ⟨values, hvalues, rfl⟩ := map_eq_ok.mp h
    exact (fixedRows_ok (by decide) hvalues).2
  | blob =>
    obtain ⟨values, hvalues, rfl⟩ := map_eq_ok.mp h
    exact decodeBlobValues_length (decodeBlob_ok hvalues)
  | inet4 | inet6 =>
    obtain ⟨values, hvalues, rfl⟩ := map_eq_ok.mp h
    exact decodeInet_length hfits hvalues
  | geometry | inet | xml => simp [decodeColumn] at h

end Rows

section Extension
variable {row rows valueBytes : Nat} {bytes extra : Bytes}

theorem longBackref_append {index shift distance : Nat} {result : Nat × Nat}
    (h : longBackref row index shift distance bytes = .ok result) (extra : Bytes) :
    longBackref row index shift distance (bytes ++ extra) = .ok result := by
  induction bytes generalizing index shift distance with
  | nil => simp [longBackref] at h
  | cons byte bytes ih =>
    rw [longBackref] at h
    obtain ⟨hlow, h⟩ := ite_error_eq_ok.mp h
    rw [List.cons_append, longBackref, if_neg hlow]
    cases hadd : checkedAdd distance (byte.toNat % 128 * 2 ^ shift) with
    | none => simp [hadd] at h
    | some next =>
      simp only [hadd] at h ⊢
      split_ifs at h ⊢ with hlast hshift
      · exact h
      · exact ih h

theorem literalString_extend {tail rest : Bytes} {value : Str}
    (h : literalString row tail = .ok (value, rest)) (extra : Bytes) :
    literalString row (tail ++ extra) = .ok (value, rest ++ extra) := by
  rw [literalString, splitNul_eq] at h
  cases hnul : tail.findIdx? (· == 0) with
  | none => simp [hnul] at h
  | some finish =>
    obtain ⟨hlt, -⟩ := List.findIdx?_eq_some_iff_getElem.mp hnul
    have hsplit : splitNul (tail ++ extra) =
        some (tail.take finish, tail.drop (finish + 1) ++ extra) := by
      rw [splitNul_eq, List.findIdx?_append, hnul, Option.some_or, Option.map_some,
        List.take_append_of_le_length hlt.le, List.drop_append_of_le_length hlt]
    rw [hnul, Option.map_some] at h
    rw [literalString, hsplit]
    cases hutf : fromUtf8 (tail.take finish) with
    | none => simp [hutf] at h
    | some text =>
      simp only [hutf, Except.ok.injEq, Prod.mk.injEq] at h ⊢
      exact ⟨h.1, by rw [h.2]⟩

theorem stringValue_append {history : List (Option Str)} {consumed : Nat} {first : UInt8}
    {rest after : Bytes} {value : Option Str}
    (h : stringValue history row first rest = .ok (value, consumed, after)) (extra : Bytes) :
    stringValue history row first (rest ++ extra) = .ok (value, consumed, after ++ extra) := by
  rw [stringValue] at h ⊢
  split_ifs at h ⊢ with hlong hshort
  · obtain ⟨⟨distance, length⟩, hback, h⟩ := bind_eq_ok.mp h
    have hbound : length ≤ rest.length := by simpa using (longBackref_ok hback).2
    rw [longBackref_append hback extra, ok_bind]
    dsimp only at h ⊢
    rw [List.drop_append_of_le_length hbound]
    split_ifs at h ⊢ with hzero
    · simpa using h
    · obtain ⟨value, hvalue, h⟩ := bind_eq_ok.mp h
      rw [hvalue, ok_bind]
      simpa using h
  · obtain ⟨value, hvalue, h⟩ := bind_eq_ok.mp h
    rw [hvalue, ok_bind]
    simpa using h
  · obtain ⟨⟨value, tail⟩, hliteral, h⟩ := bind_eq_ok.mp h
    rw [← List.cons_append, literalString_extend hliteral extra, ok_bind]
    simpa using h

theorem admitValue_bytes {limit admitted : Nat} {value : Option Str}
    (h : admitValue limit row valueBytes value = .ok admitted) :
    admitted = valueBytes + textBytes [value] := by
  cases value with
  | none => simpa [admitValue, textBytes] using h.symm
  | some text =>
    obtain ⟨sum, hsum, h⟩ := bind_eq_ok.mp h
    obtain ⟨-, rfl⟩ := checkedAdd_eq_some.mp (okOr_eq_ok.mp hsum)
    obtain ⟨-, h⟩ := ite_error_eq_ok.mp h
    simpa [textBytes] using h.symm

theorem decodeStringsWithBackrefs_extend {total total' limit limit' n pos : Nat}
    {history values values' : List (Option Str)} {tail : Bytes}
    (h : decodeStringsWithBackrefs total limit n row pos valueBytes history tail = .ok values)
    (h' : decodeStringsWithBackrefs total' limit' n row pos valueBytes history (tail ++ extra) =
      .ok values') : total' = total := by
  induction n generalizing row pos valueBytes history tail with
  | zero =>
    rw [decodeStringsWithBackrefs] at h h'
    obtain ⟨hend, -⟩ := ite_error_eq_ok.mp h
    obtain ⟨hend', -⟩ := ite_error_eq_ok.mp h'
    exact (not_not.mp hend').symm.trans (not_not.mp hend)
  | succ n ih =>
    cases tail with
    | nil => simp [decodeStringsWithBackrefs] at h
    | cons first rest =>
      rw [decodeStringsWithBackrefs] at h
      rw [List.cons_append, decodeStringsWithBackrefs] at h'
      obtain ⟨⟨value, consumed, after⟩, hvalue, h⟩ := bind_eq_ok.mp h
      rw [stringValue_append hvalue extra, ok_bind] at h'
      obtain ⟨admitted, hadmitted, h⟩ := bind_eq_ok.mp h
      obtain ⟨admitted', hadmitted', h'⟩ := bind_eq_ok.mp h'
      rw [admitValue_bytes hadmitted', ← admitValue_bytes hadmitted] at h'
      exact ih h h'

theorem decodeStrings_extend {values values' : List (Option Str)}
    (h : decodeStrings bytes rows = .ok values)
    (h' : decodeStrings (bytes ++ extra) rows = .ok values') : extra = [] := by
  have htotal := decodeStringsWithBackrefs_extend (decodeStrings_general h)
    (decodeStrings_general h')
  rw [List.length_append] at htotal
  exact List.length_eq_zero_iff.mp (by omega)

theorem decodeBlobValues_extend {total total' n pos : Nat} {values values' : List (Option Bytes)}
    {tail : Bytes} (h : decodeBlobValues total n row pos valueBytes tail = .ok values)
    (h' : decodeBlobValues total' n row pos valueBytes (tail ++ extra) = .ok values') :
    total' = total := by
  induction n generalizing row pos valueBytes tail values values' with
  | zero =>
    rw [decodeBlobValues] at h h'
    obtain ⟨hend, -⟩ := ite_error_eq_ok.mp h
    obtain ⟨hend', -⟩ := ite_error_eq_ok.mp h'
    exact (not_not.mp hend').symm.trans (not_not.mp hend)
  | succ n ih =>
    obtain ⟨hheader, rest, hcase⟩ := decodeBlobValues_succ h
    obtain ⟨-, rest', hcase'⟩ := decodeBlobValues_succ h'
    rw [List.take_append_of_le_length hheader, List.drop_append_of_le_length hheader] at hcase'
    rcases hcase with ⟨hnull, -, hrest⟩ | ⟨length, hlength, hfits, -, hrest⟩
    · rcases hcase' with ⟨-, -, hrest'⟩ | ⟨length', hlength', -⟩
      · exact ih hrest hrest'
      · omega
    · rcases hcase' with ⟨hnull', -⟩ | ⟨length', hlength', -, -, hrest'⟩
      · omega
      · obtain rfl : length' = length := by omega
        rw [List.drop_append_of_le_length hfits] at hrest'
        exact ih hrest hrest'

theorem decodeBlob_extend {values values' : List (Option Bytes)}
    (h : decodeBlob bytes rows = .ok values) (h' : decodeBlob (bytes ++ extra) rows = .ok values') :
    extra = [] := by
  have htotal := decodeBlobValues_extend (decodeBlob_ok h) (decodeBlob_ok h')
  rw [List.length_append] at htotal
  exact List.length_eq_zero_iff.mp (by omega)

theorem decodeColumn_fixedLength {dataType : MonetType} {width : Nat} {column : Column}
    (hwidth : fixedWireWidth dataType = some width)
    (h : decodeColumn dataType bytes rows = .ok column) : bytes.length = rows * width := by
  cases dataType with
  | bool =>
    cases hwidth
    obtain ⟨values, hvalues, -⟩ := map_eq_ok.mp h
    rw [(decodeBool_ok hvalues).1, Nat.mul_one]
  | tinyInt | smallInt | int | bigInt | oid | real | double | monthInterval | dayInterval
    | secInterval =>
    cases hwidth
    obtain ⟨slots, hslots, -⟩ := map_eq_ok.mp h
    exact (decodePrimitive_ok (by decide) hslots).1
  | hugeInt =>
    cases hwidth
    obtain ⟨slots, hslots, -⟩ := map_eq_ok.mp h
    exact (decodeDecimal_ok hslots).1
  | decimal precision scale =>
    obtain ⟨scale, -, h⟩ := bind_eq_ok.mp h
    obtain ⟨slots, hslots, -⟩ := map_eq_ok.mp h
    have hlength := (decodeDecimal_ok hslots).1
    rw [fixedWireWidth] at hwidth
    rwa [decimalWidth, if_neg Bool.false_ne_true, hwidth] at hlength
  | time | timeTz | date | timestamp | timestampTz | uuid =>
    cases hwidth
    obtain ⟨values, hvalues, -⟩ := map_eq_ok.mp h
    exact (fixedRows_ok (by decide) hvalues).1
  | varchar | url | json | blob | inet | inet4 | inet6 | geometry | xml => cases hwidth

theorem decodeColumn_extend {dataType : MonetType} {column column' : Column}
    (htype : dataType ≠ .inet4 ∧ dataType ≠ .inet6)
    (h : decodeColumn dataType bytes rows = .ok column)
    (h' : decodeColumn dataType (bytes ++ extra) rows = .ok column') : extra = [] := by
  cases hwidth : fixedWireWidth dataType with
  | some width =>
    have hlength := decodeColumn_fixedLength hwidth h
    have hlength' := decodeColumn_fixedLength hwidth h'
    rw [List.length_append] at hlength'
    exact List.length_eq_zero_iff.mp (by omega)
  | none =>
    cases dataType with
    | varchar | url | json =>
      obtain ⟨values, hvalues, -⟩ := map_eq_ok.mp h
      obtain ⟨values', hvalues', -⟩ := map_eq_ok.mp h'
      exact decodeStrings_extend hvalues hvalues'
    | blob =>
      obtain ⟨values, hvalues, -⟩ := map_eq_ok.mp h
      obtain ⟨values', hvalues', -⟩ := map_eq_ok.mp h'
      exact decodeBlob_extend hvalues hvalues'
    | decimal precision scale =>
      obtain ⟨scale, -, h⟩ := bind_eq_ok.mp h
      obtain ⟨slots, hslots, -⟩ := map_eq_ok.mp h
      rw [decodeDecimal] at hslots
      obtain ⟨hrange, -⟩ := ite_error_eq_ok.mp hslots
      obtain ⟨width, hsome⟩ := decimalWireWidth_isSome precision (by omega)
      rw [fixedWireWidth, hsome] at hwidth
      cases hwidth
    | inet4 => exact absurd rfl htype.1
    | inet6 => exact absurd rfl htype.2
    | geometry | inet | xml => simp [decodeColumn] at h
    | _ => cases hwidth

end Extension

section Exactness
variable {dataType : MonetType} {rows : Nat} {bytes : Slice}

def RejectsOthers (dataType : MonetType) (bytes : Slice) (rows : Nat) : Prop :=
  ∀ other : Slice, other.bytes ≠ bytes.bytes →
    bytes.bytes <+: other.bytes ∨ other.bytes <+: bytes.bytes →
    ∃ e, decodeColumnSlices dataType other.bytes rows = .error (.fails e)

structure DecodesExactly (dataType : MonetType) (bytes : Slice) (rows : Nat) : Prop where
  returns : decodeColumnSlices dataType bytes.bytes rows ≠ .error .panics
  sized : ∀ column, decodeColumnSlices dataType bytes.bytes rows = .ok column → column.len = rows
  rejects : ∀ column, decodeColumnSlices dataType bytes.bytes rows = .ok column → 0 < rows →
    RejectsOthers dataType bytes rows

theorem eq_of_same_length {xs ys : Bytes} (h : xs <+: ys ∨ ys <+: xs)
    (hlength : ys.length = xs.length) : ys = xs := by
  rcases h with h | h
  · exact (h.eq_of_length hlength.symm).symm
  · exact h.eq_of_length hlength

theorem Overruns.length_eq {one other : Bytes} {column : Column}
    (htype : dataType ≠ .inet4 ∧ dataType ≠ .inet6) (hoverruns : Overruns dataType other rows)
    (h : decodeColumn dataType one rows = .ok column) : other.length = one.length := by
  cases dataType with
  | decimal precision scale =>
    obtain ⟨-, width, hwidth, -, hlength, -⟩ := hoverruns
    have hfixed : fixedWireWidth (.decimal precision scale) = some width := hwidth
    rw [hlength, decodeColumn_fixedLength hfixed h]
  | inet4 => exact absurd rfl htype.1
  | inet6 => exact absurd rfl htype.2
  | _ => exact hoverruns.elim

theorem rejects_of_not_inet {column : Column} (htype : dataType ≠ .inet4 ∧ dataType ≠ .inet6)
    (h : decodeColumn dataType bytes.bytes rows = .ok column) : RejectsOthers dataType bytes rows := by
  intro other hne hinitial
  have hroom : ¬Overruns dataType other.bytes rows := fun hoverruns =>
    hne (eq_of_same_length hinitial (hoverruns.length_eq htype h))
  rw [decodeColumnSlices_eq htype hroom]
  cases hother : decodeColumn dataType other.bytes rows with
  | error e => exact ⟨e, rfl⟩
  | ok column' =>
    rcases hinitial with ⟨extra, hextra⟩ | ⟨extra, hextra⟩
    · rw [← hextra] at hother
      rw [← hextra, decodeColumn_extend htype h hother, List.append_nil] at hne
      exact absurd rfl hne
    · rw [← hextra] at h
      rw [← hextra, decodeColumn_extend htype hother h, List.append_nil] at hne
      exact absurd rfl hne

theorem Overruns.panics (htype : dataType ≠ .inet4 ∧ dataType ≠ .inet6)
    (h : Overruns dataType bytes.bytes rows) :
    decodeColumnSlices dataType bytes.bytes rows = .error .panics := by
  cases dataType with
  | decimal precision scale =>
    obtain ⟨hscale, hexpands⟩ := h
    have hprecision : precision ≤ 38 := by
      obtain ⟨width, hwidth, -⟩ := hexpands
      rw [decimalWireWidth] at hwidth
      split_ifs at hwidth <;> omega
    rw [decodeColumnSlices, decimalScale, if_pos (by omega), orFail_ok, ok_bind,
      decodeDecimalSlices_panics bytes.fits (by omega) (by omega) hexpands]
    rfl
  | inet4 => exact absurd rfl htype.1
  | inet6 => exact absurd rfl htype.2
  | _ => exact h.elim

theorem decodesExactly_of_not_inet (htype : dataType ≠ .inet4 ∧ dataType ≠ .inet6) :
    DecodesExactly dataType bytes rows ↔ ¬Overruns dataType bytes.bytes rows := by
  constructor
  · intro hexact hoverruns
    exact hexact.returns (hoverruns.panics htype)
  · intro hroom
    have heq := decodeColumnSlices_eq htype hroom
    refine ⟨?_, fun column h => ?_, fun column h _ => ?_⟩
    · rw [heq]
      exact orFail_not_panics _
    · rw [heq, orFail_eq_ok] at h
      exact decodeColumn_length bytes.fits h
    · rw [heq, orFail_eq_ok] at h
      exact rejects_of_not_inet htype h

theorem decodeColumnSlices_inet (htype : dataType = .inet4 ∨ dataType = .inet6) (bytes : Bytes)
    (rows : Nat) :
    decodeColumnSlices dataType bytes rows =
      (decodeInetSlices bytes rows).map (.utf8 .standard) := by
  rcases htype with rfl | rfl <;> rfl

theorem inet_not_rejected (htype : dataType = .inet4 ∨ dataType = .inet6)
    (hlength : bytes.bytes.length = rows * 4 ∨ bytes.bytes.length = rows * 16) (e : DecodeError) :
    decodeColumnSlices dataType bytes.bytes rows ≠ .error (.fails e) := by
  rw [decodeColumnSlices_inet htype]
  rcases decodeInetSlices_cases bytes.fits hlength with hpanics | ⟨values, hvalues, -⟩
  · simp [hpanics, Except.map]
  · simp [hvalues, Except.map]

theorem inet_other_width (hrows : 0 < rows) (hroom : rows * 39 ≤ isizeMax)
    (hlength : bytes.bytes.length = rows * 4 ∨ bytes.bytes.length = rows * 16) :
    ∃ other : Slice, other.bytes ≠ bytes.bytes ∧
      (bytes.bytes <+: other.bytes ∨ other.bytes <+: bytes.bytes) ∧
      (other.bytes.length = rows * 4 ∨ other.bytes.length = rows * 16) := by
  have hneq {xs ys : Bytes} (hlen : xs.length ≠ ys.length) : xs ≠ ys := fun heq => hlen (heq ▸ rfl)
  rcases hlength with hfour | hsixteen
  · have hlong : (bytes.bytes ++ List.replicate (rows * 12) 0).length = rows * 16 := by
      rw [List.length_append, List.length_replicate]
      omega
    exact ⟨⟨bytes.bytes ++ List.replicate (rows * 12) 0, by omega⟩,
      hneq (by dsimp only; omega), .inl (List.prefix_append _ _), .inr hlong⟩
  · have hshort : (bytes.bytes.take (rows * 4)).length = rows * 4 := by
      rw [List.length_take]
      omega
    exact ⟨⟨bytes.bytes.take (rows * 4), by omega⟩, hneq (by dsimp only; omega),
      .inr (List.take_prefix _ _), .inl hshort⟩

theorem decodesExactly_of_inet (htype : dataType = .inet4 ∨ dataType = .inet6) :
    DecodesExactly dataType bytes rows ↔
      ¬(0 < rows ∧ (bytes.bytes.length = rows * 4 ∨ bytes.bytes.length = rows * 16)) := by
  constructor
  · rintro hexact ⟨hrows, hlength⟩
    have hcolumn := decodeColumnSlices_inet htype bytes.bytes rows
    rcases decodeInetSlices_cases bytes.fits hlength with hpanics | ⟨values, hvalues, -, hroom⟩
    · exact hexact.returns (by rw [hcolumn, hpanics]; rfl)
    · obtain ⟨other, hne, hinitial, hother⟩ := inet_other_width hrows hroom hlength
      obtain ⟨e, he⟩ :=
        hexact.rejects (.utf8 .standard values) (by rw [hcolumn, hvalues]; rfl) hrows other hne hinitial
      exact inet_not_rejected htype hother e he
  · intro hclean
    by_cases hlength : bytes.bytes.length = rows * 4 ∨ bytes.bytes.length = rows * 16
    · obtain rfl : rows = 0 := by omega
      have hempty : bytes.bytes = [] := List.length_eq_zero_iff.mp (by omega)
      have hcolumn : decodeColumnSlices dataType bytes.bytes 0 = .ok (.utf8 .standard []) := by
        rw [decodeColumnSlices_inet htype, hempty]
        rfl
      refine ⟨by simp [hcolumn], fun column h => ?_, fun _ _ hrows => absurd hrows (by omega)⟩
      rw [hcolumn] at h
      rw [← Except.ok.inj h]
      rfl
    · have hcolumn := decodeColumnSlices_inet htype bytes.bytes rows
      rw [decodeInetSlices_fails bytes.fits hlength] at hcolumn
      exact ⟨by simp [hcolumn, Except.map], fun column h => by simp [hcolumn, Except.map] at h,
        fun column h => by simp [hcolumn, Except.map] at h⟩

theorem column_decoding_is_exact (dataType : MonetType) (bytes : Slice) (rows : Nat) :
    DecodesExactly dataType bytes rows ↔ ¬Overruns dataType bytes.bytes rows := by
  by_cases htype : dataType ≠ .inet4 ∧ dataType ≠ .inet6
  · exact decodesExactly_of_not_inet htype
  · have hinet : dataType = .inet4 ∨ dataType = .inet6 := by tauto
    rw [decodesExactly_of_inet hinet]
    rcases hinet with rfl | rfl <;> rfl

theorem varchar_column_is_exact : DecodesExactly (.varchar 0) ⟨[97, 0], by decide⟩ 1 :=
  (column_decoding_is_exact (.varchar 0) ⟨[97, 0], by decide⟩ 1).mpr id

theorem inet_column_is_not_exact : ¬DecodesExactly .inet4 ⟨[1, 2, 3, 4], by decide⟩ 1 := by
  intro hexact
  have haccepted : decodeColumnSlices .inet4 [1, 2, 3, 4] 1 =
      .ok (.utf8 .standard [some ⟨[49, 46, 50, 46, 51, 46, 52], by decide⟩]) := rfl
  let other : Slice := ⟨[1, 2, 3, 4] ++ List.replicate 12 0, by decide⟩
  obtain ⟨e, he⟩ := hexact.rejects _ haccepted Nat.one_pos other (by decide)
    (.inl (List.prefix_append _ _))
  have hlength : other.bytes.length = 1 * 4 ∨ other.bytes.length = 1 * 16 := .inr rfl
  exact inet_not_rejected (.inl rfl) hlength e he

end Exactness

end MonetdbAdbc
