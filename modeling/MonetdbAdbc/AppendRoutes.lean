import MonetdbAdbc.Append

namespace MonetdbAdbc
open Machine

section Picks
variable {columns : List AppendColumn} {field : Field} {column : AppendColumn}

def Picks (columns : List AppendColumn) (field : Field) (column : AppendColumn) : Prop :=
  ∃ index, columns[index]? = some column ∧
    (appendColumnIndex field.name columns = .exact index ∨
      appendColumnIndex field.name columns = .caseInsensitive index)

def Typed (field : Field) (column : AppendColumn) : Prop :=
  ∃ source, monetTypeForField field = .ok source ∧
    appendMonetTypesMatch source column.dataType = true

structure Aligned (columns : List AppendColumn) (schema : List Field)
    (picked : List AppendColumn) : Prop where
  picks : List.Forall₂ (Picks columns) schema picked
  distinct : (picked.map AppendColumn.name).Nodup

theorem Picks.mem (h : Picks columns field column) : column ∈ columns := by
  obtain ⟨index, hget, -⟩ := h
  exact List.mem_of_getElem? hget

theorem Picks.unique {a b : AppendColumn} (ha : Picks columns field a)
    (hb : Picks columns field b) : a = b := by
  obtain ⟨i, hi, hi'⟩ := ha
  obtain ⟨j, hj, hj'⟩ := hb
  have hij : i = j := by
    rcases hi' with h | h <;> rcases hj' with h' | h' <;> simp_all
  rw [hij, hj] at hi
  exact (Option.some.inj hi).symm

theorem picked_mem {schema : List Field} {picked : List AppendColumn}
    (h : List.Forall₂ (Picks columns) schema picked) : ∀ column ∈ picked, column ∈ columns := by
  induction h with
  | nil => simp
  | cons hpick _ ih =>
    intro column hcolumn
    rcases List.mem_cons.mp hcolumn with rfl | hcolumn
    · exact hpick.mem
    · exact ih column hcolumn

theorem picks_exact (hmem : column ∈ columns) (hdistinct : (columns.map AppendColumn.name).Nodup)
    (hname : column.name = field.name) : Picks columns field column := by
  obtain ⟨i, hi, hget⟩ := List.mem_iff_getElem.mp hmem
  have hfind : columns.findIdx? (fun column => field.name == column.name) = some i := by
    rw [List.findIdx?_eq_some_iff_getElem]
    refine ⟨hi, by simp [hget, hname], fun j hj => ?_⟩
    have hne : columns[j].name ≠ columns[i].name := by
      intro heq
      have hmap := List.nodup_iff_injective_get.mp hdistinct
      have := @hmap ⟨j, by simp; omega⟩ ⟨i, by simpa using hi⟩ (by simpa using heq)
      simp at this
      omega
    rw [hget, hname] at hne
    simpa using Ne.symm hne
  exact ⟨i, by rw [List.getElem?_eq_getElem hi, hget], .inl (by simp [appendColumnIndex, hfind])⟩

theorem Picks.ignores_case (h : Picks columns field column) :
    eqIgnoreAsciiCase field.name column.name = true := by
  obtain ⟨index, hget, hindex⟩ := h
  simp only [appendColumnIndex] at hindex
  cases hfind : columns.findIdx? (fun column => field.name == column.name) with
  | some i =>
    simp only [hfind, AppendColumnMatch.exact.injEq, reduceCtorEq, or_false] at hindex
    obtain ⟨hi, heq, -⟩ := List.findIdx?_eq_some_iff_getElem.mp hfind
    subst hindex
    rw [List.getElem?_eq_getElem hi, Option.some.injEq] at hget
    rw [hget] at heq
    simp [eqIgnoreAsciiCase, beq_iff_eq.mp heq]
  | none =>
    simp only [hfind] at hindex
    split at hindex
    · simp at hindex
    · rename_i column' index' hfilter
      simp only [reduceCtorEq, AppendColumnMatch.caseInsensitive.injEq, false_or] at hindex
      subst hindex
      have hmem : (column', index') ∈ columns.zipIdx.filter
          fun entry => eqIgnoreAsciiCase field.name entry.1.name := by simp [hfilter]
      obtain ⟨hzip, hcase⟩ := List.mem_filter.mp hmem
      have hget' := List.mem_zipIdx_iff_getElem?.mp hzip
      simp only at hget'
      rw [hget', Option.some.injEq] at hget
      rw [← hget]
      exact hcase
    · simp at hindex

end Picks

section CopyRoute
variable {columns : List AppendColumn} {mismatchStatus : Status} {field : Field}
  {matched : List Bool} {targets : List String}

theorem matchedColumn_ok_iff {index : Nat} :
    matchedColumn columns mismatchStatus field = .ok index ↔
      appendColumnIndex field.name columns = .exact index ∨
        appendColumnIndex field.name columns = .caseInsensitive index := by
  simp only [matchedColumn]
  cases appendColumnIndex field.name columns <;> simp

theorem appendSource_ok_iff {source : MonetType} :
    appendSource field = .ok source ↔ monetTypeForField field = .ok source := by
  simp only [appendSource]
  cases monetTypeForField field <;> simp

theorem index_unique (hdistinct : (columns.map AppendColumn.name).Nodup) {i j : Nat}
    {a b : AppendColumn} (hi : columns[i]? = some a) (hj : columns[j]? = some b)
    (hname : a.name = b.name) : i = j := by
  have hlt : i < (columns.map AppendColumn.name).length := by
    simpa using (List.getElem?_eq_some_iff.mp hi).1
  exact (List.getElem?_inj hlt hdistinct).mp (by simp [hi, hj, hname])

theorem alignFrom_cons_ok_iff {fields : List Field} :
    alignFrom columns mismatchStatus matched (field :: fields) = .ok targets ↔
      ∃ index column rest,
        (appendColumnIndex field.name columns = .exact index ∨
          appendColumnIndex field.name columns = .caseInsensitive index) ∧
        columns[index]? = some column ∧ matched.getD index false = false ∧ Typed field column ∧
        alignFrom columns mismatchStatus (matched.set index true) fields = .ok rest ∧
        targets = column.name :: rest := by
  simp only [alignFrom, bind_eq_ok, matchedColumn_ok_iff]
  constructor
  · rintro ⟨index, hindex, h⟩
    cases hget : columns[index]? with
    | none => simp [hget] at h
    | some column =>
      simp only [hget] at h
      split_ifs at h with hmatched
      simp only [bind_eq_ok, appendSource_ok_iff] at h
      obtain ⟨source, hsource, h⟩ := h
      split_ifs at h with htype
      simp only [bind_eq_ok, Except.ok.injEq] at h
      obtain ⟨rest, hrest, rfl⟩ := h
      exact ⟨index, column, rest, hindex, hget, by simpa using hmatched,
        ⟨source, hsource, by simpa using htype⟩, hrest, rfl⟩
  · rintro ⟨index, column, rest, hindex, hget, hmatched, ⟨source, hsource, htype⟩, hrest, rfl⟩
    refine ⟨index, hindex, ?_⟩
    rw [hget]
    simp only [hmatched, Bool.false_eq_true, if_false, appendSource_ok_iff.mpr hsource, ok_bind,
      htype, Bool.not_true, hrest]

def Free (columns : List AppendColumn) (matched : List Bool) (column : AppendColumn) : Prop :=
  ∀ index, columns[index]? = some column → matched.getD index false = false

theorem free_set_iff (hdistinct : (columns.map AppendColumn.name).Nodup)
    (hlength : matched.length = columns.length) {index : Nat} {column other : AppendColumn}
    (hget : columns[index]? = some column) (hother : other ∈ columns) :
    Free columns (matched.set index true) other ↔
      Free columns matched other ∧ other.name ≠ column.name := by
  obtain ⟨hindex, -⟩ := List.getElem?_eq_some_iff.mp hget
  constructor
  · intro hfree
    have hne : other.name ≠ column.name := by
      intro hname
      obtain ⟨j, hj⟩ := List.mem_iff_getElem?.mp hother
      obtain rfl := index_unique hdistinct hj hget hname
      have := hfree j hj
      simp [List.getD_eq_getElem?_getD, hlength, hindex] at this
    refine ⟨fun j hj => ?_, hne⟩
    have hji : index ≠ j := by
      rintro rfl
      rw [hget] at hj
      exact hne (by rw [Option.some.inj hj])
    simpa [List.getD_eq_getElem?_getD, List.getElem?_set, hji] using hfree j hj
  · rintro ⟨hfree, hne⟩ j hj
    have hji : index ≠ j := by
      rintro rfl
      rw [hget] at hj
      exact hne (by rw [Option.some.inj hj])
    simpa [List.getD_eq_getElem?_getD, List.getElem?_set, hji] using hfree j hj

theorem alignFrom_ok_iff (hdistinct : (columns.map AppendColumn.name).Nodup)
    (hlength : matched.length = columns.length) {fields : List Field} :
    alignFrom columns mismatchStatus matched fields = .ok targets ↔
      ∃ picked, Aligned columns fields picked ∧ (∀ column ∈ picked, Free columns matched column) ∧
        List.Forall₂ Typed fields picked ∧ targets = picked.map AppendColumn.name := by
  induction fields generalizing matched targets with
  | nil =>
    simp only [alignFrom, Except.ok.injEq]
    constructor
    · rintro rfl
      exact ⟨[], ⟨.nil, List.nodup_nil⟩, by simp, .nil, rfl⟩
    · rintro ⟨picked, haligned, -, -, rfl⟩
      cases haligned.picks
      rfl
  | cons field fields ih =>
    rw [alignFrom_cons_ok_iff]
    constructor
    · rintro ⟨index, column, rest, hindex, hget, hmatched, htyped, hrest, rfl⟩
      obtain ⟨picked, haligned, hfree, htypes, rfl⟩ := (ih (by simpa using hlength)).mp hrest
      have hrest' : ∀ other ∈ picked,
          Free columns matched other ∧ other.name ≠ column.name := fun other hother =>
        (free_set_iff hdistinct hlength hget (picked_mem haligned.picks other hother)).mp
          (hfree other hother)
      refine ⟨column :: picked, ⟨.cons ⟨index, hget, hindex⟩ haligned.picks, ?_⟩, ?_,
        .cons htyped htypes, rfl⟩
      · rw [List.map_cons, List.nodup_cons]
        refine ⟨fun hin => ?_, haligned.distinct⟩
        obtain ⟨other, hother, hname⟩ := List.mem_map.mp hin
        exact (hrest' other hother).2 hname
      · intro other hother
        rcases List.mem_cons.mp hother with rfl | hother
        · intro j hj
          rwa [index_unique hdistinct hj hget rfl]
        · exact (hrest' other hother).1
    · rintro ⟨picked, ⟨hpicks, hnames⟩, hfree, htypes, rfl⟩
      cases hpicks with
      | cons hpick hpicks =>
        rename_i column picked
        cases htypes with
        | cons htyped htypes =>
          rw [List.map_cons, List.nodup_cons] at hnames
          obtain ⟨index, hget, hindex⟩ := hpick
          refine ⟨index, column, picked.map AppendColumn.name, hindex, hget,
            hfree column List.mem_cons_self index hget, htyped, ?_, rfl⟩
          refine (ih (by simpa using hlength)).mpr
            ⟨picked, ⟨hpicks, hnames.2⟩, fun other hother => ?_, htypes, rfl⟩
          refine (free_set_iff hdistinct hlength hget (picked_mem hpicks other hother)).mpr
            ⟨hfree other (List.mem_cons_of_mem column hother), fun hname => hnames.1 ?_⟩
          exact List.mem_map.mpr ⟨other, hother, hname⟩

theorem alignAppendSchema_ok_iff (hdistinct : (columns.map AppendColumn.name).Nodup)
    {schema : List Field} :
    alignAppendSchema columns mismatchStatus schema = .ok targets ↔
      ∃ picked, Aligned columns schema picked ∧ List.Forall₂ Typed schema picked ∧
        targets = picked.map AppendColumn.name := by
  rw [alignAppendSchema, alignFrom_ok_iff hdistinct (by simp)]
  have hfree : ∀ column, Free columns (List.replicate columns.length false) column := by
    intro column index hget
    obtain ⟨hindex, -⟩ := List.getElem?_eq_some_iff.mp hget
    simp [List.getD_eq_getElem?_getD, hindex]
  simp [hfree]

end CopyRoute

section InsertRoute
variable {columns : List AppendColumn} {mismatchStatus : Status}
  {prepare : List String → Option (List MonetType)} {schema : List Field} {t : MonetType}
  {field : Field}

def PreparesInserts (columns : List AppendColumn) (prepare : List String → Option (List MonetType)) :
    Prop :=
  ∀ names types, prepare names = some types ↔ names.Nodup ∧
    List.Forall₂ (fun name type => ∃ column ∈ columns, column.name = name ∧ column.dataType = type)
      names types

def unreadable : MonetType → Bool
  | .geometry | .inet | .xml => true
  | _ => false

def malformedDecimal : MonetType → Bool
  | .decimal precision scale => precision = 0 ∨ 38 < precision ∨ precision < scale
  | _ => false

def hasNulName (field : Field) : Bool := field.name.toList.contains (Char.ofNat 0)

def InsertOnly (field : Field) (column : AppendColumn) : Prop :=
  unreadable column.dataType = true ∧
    ∃ source, monetTypeForField field = .ok source ∧ stringWire source = true

def CopyOnly (field : Field) (column : AppendColumn) : Prop :=
  hasNulName field = true ∨ malformedDecimal column.dataType = true ∨
    (unreadable column.dataType = true ∧ monetTypeForField field = .ok column.dataType)

def InsertTyped (field : Field) (t : MonetType) : Prop :=
  malformedDecimal t = false ∧ ∃ source, monetTypeForField field = .ok source ∧
    if unreadable t then stringWire source = true else appendMonetTypesMatch source t = true

theorem fieldForMonetType_isOk (name : String) (hread : unreadable t = false)
    (hdecimal : malformedDecimal t = false) : ∃ field, fieldForMonetType name t = .ok field := by
  cases t with
  | geometry | inet | xml => simp [unreadable] at hread
  | decimal precision scale =>
    simp only [malformedDecimal, decide_eq_false_iff_not, not_or] at hdecimal
    have hbad : ¬(¬(1 ≤ precision ∧ precision ≤ 38) ∨ scale > precision) := by omega
    have hscale : scale ≤ 127 := by omega
    simp only [fieldForMonetType, dataTypeForMonetType, decimalDataType, if_neg hbad, decimalScale,
      if_pos hscale]
    exact ⟨_, rfl⟩
  | _ => exact ⟨_, rfl⟩

theorem fieldForMonetType_malformed {name : String} (h : fieldForMonetType name t = .ok field) :
    malformedDecimal t = false := by
  cases t with
  | decimal precision scale =>
    obtain ⟨h1, h2, h3, -⟩ := dataTypeForMonetType_decimal (fieldForMonetType_ok h).1
    simp only [malformedDecimal, decide_eq_false_iff_not, not_or]
    omega
  | _ => rfl

theorem appendMonetTypesMatch_varcharWidth (source t : MonetType) :
    appendMonetTypesMatch source (varcharWidth t) = appendMonetTypesMatch source t := by
  cases t with
  | varchar width =>
    cases source <;> simp [appendMonetTypesMatch, varcharWidth, stringWire]
  | _ => rfl

theorem appendMonetTypesMatch_varchar (source : MonetType) (width : Nat) :
    appendMonetTypesMatch source (.varchar width) = stringWire source := by
  cases source <;> simp [appendMonetTypesMatch, stringWire]

theorem preparedParameterArrowField_unreadable (h : unreadable t = true) (name : String) :
    preparedParameterArrowField name t = .ok ⟨name, .utf8 .standard, true, none⟩ := by
  cases t <;> simp_all [unreadable, preparedParameterArrowField]

theorem preparedParameterArrowField_readable (h : unreadable t = false) {name : String}
    {parameter : Field} :
    preparedParameterArrowField name t = .ok parameter ↔
      fieldForMonetType name t = .ok parameter := by
  have hnot : ¬(t = .geometry ∨ t = .inet ∨ t = .xml) := by
    rintro (rfl | rfl | rfl) <;> simp [unreadable] at h
  simp only [preparedParameterArrowField, if_neg hnot]
  cases fieldForMonetType name t <;> simp

theorem preparedParameter_accepts_iff (name : String) :
    (∃ parameter source destination, preparedParameterArrowField name t = .ok parameter ∧
      monetTypeForField field = .ok source ∧ monetTypeForField parameter = .ok destination ∧
      appendMonetTypesMatch source destination = true) ↔ InsertTyped field t := by
  cases hread : unreadable t with
  | true =>
    have hdecimal : malformedDecimal t = false := by
      cases t <;> simp_all [unreadable, malformedDecimal]
    simp [InsertTyped, hread, hdecimal, preparedParameterArrowField_unreadable hread,
      monetTypeForField, appendMonetTypesMatch_varchar]
  | false =>
    simp only [InsertTyped, hread, Bool.false_eq_true, if_false,
      preparedParameterArrowField_readable hread]
    constructor
    · rintro ⟨parameter, source, destination, hparameter, hsource, hdestination, htypes⟩
      rw [monetTypeForField_fieldForMonetType hparameter, Except.ok.injEq] at hdestination
      rw [← hdestination, appendMonetTypesMatch_varcharWidth] at htypes
      exact ⟨fieldForMonetType_malformed hparameter, source, hsource, htypes⟩
    · rintro ⟨hdecimal, source, hsource, htypes⟩
      obtain ⟨parameter, hparameter⟩ := fieldForMonetType_isOk name hread hdecimal
      exact ⟨parameter, source, _, hparameter, hsource,
        monetTypeForField_fieldForMonetType hparameter,
        by rwa [appendMonetTypesMatch_varcharWidth]⟩

theorem insertTyped_iff {column : AppendColumn} :
    (hasNulName field = false ∧ InsertTyped field column.dataType) ↔
      (Typed field column ∨ InsertOnly field column) ∧ ¬CopyOnly field column := by
  cases hnul : hasNulName field with
  | true => simp [CopyOnly, hnul]
  | false =>
    cases hread : unreadable column.dataType with
    | true =>
      have hdecimal : malformedDecimal column.dataType = false := by
        cases hc : column.dataType <;> simp_all [unreadable, malformedDecimal]
      have hstring : stringWire column.dataType = false := by
        cases hc : column.dataType <;> simp_all [unreadable, stringWire]
      simp only [InsertTyped, InsertOnly, CopyOnly, Typed, hnul, hread, hdecimal, hstring,
        appendMonetTypesMatch]
      constructor
      · rintro ⟨-, -, source, hsource, hwire⟩
        refine ⟨.inr ⟨trivial, source, hsource, hwire⟩, ?_⟩
        rintro (h | h | ⟨-, h⟩)
        · simp at h
        · simp at h
        · rw [hsource, Except.ok.injEq] at h
          simp [h, hstring] at hwire
      · rintro ⟨⟨source, hsource, htypes⟩ | ⟨-, source, hsource, hwire⟩, hcopy⟩
        · have heq : source = column.dataType := by simpa using htypes
          exact absurd (.inr (.inr ⟨trivial, heq ▸ hsource⟩)) hcopy
        · exact ⟨trivial, trivial, source, hsource, hwire⟩
    | false =>
      simp [InsertTyped, CopyOnly, InsertOnly, Typed, hread, hnul, and_comm]

theorem validateParameters_cons_ok_iff {parameter : Field} {source destination : List Field} :
    validateParameters mismatchStatus (field :: source) (parameter :: destination) = .ok () ↔
      (∃ s d, monetTypeForField field = .ok s ∧ monetTypeForField parameter = .ok d ∧
        appendMonetTypesMatch s d = true) ∧
      validateParameters mismatchStatus source destination = .ok () := by
  simp only [validateParameters, bind_eq_ok, appendSource_ok_iff]
  cases monetTypeForField parameter with
  | error e => simp
  | ok d =>
    constructor
    · rintro ⟨s, hs, h⟩
      simp only at h
      split_ifs at h with htypes
      exact ⟨⟨s, d, hs, rfl, by simpa using htypes⟩, h⟩
    · rintro ⟨⟨s, d', hs, hd, htypes⟩, h⟩
      cases hd
      exact ⟨s, hs, by simpa [htypes] using h⟩

theorem parameterFields_accept_iff (mismatchStatus : Status) (index : Nat)
    {types : List MonetType} :
    (∃ parameters, parameterFields index types = .ok parameters ∧
      schema.length = parameters.length ∧
      validateParameters mismatchStatus schema parameters = .ok ()) ↔
      List.Forall₂ InsertTyped schema types := by
  induction types generalizing schema index with
  | nil => cases schema <;> simp [parameterFields, validateParameters]
  | cons t types ih =>
    simp only [parameterFields, bind_eq_ok, Except.ok.injEq]
    cases schema with
    | nil =>
      constructor
      · rintro ⟨_, ⟨parameter, -, parameters, -, rfl⟩, hlength, -⟩
        simp at hlength
      · intro h
        cases h
    | cons field schema =>
      rw [List.forall₂_cons, ← preparedParameter_accepts_iff (toString index),
        ← ih (index + 1)]
      constructor
      · rintro ⟨_, ⟨parameter, hparameter, parameters, hparameters, rfl⟩, hlength, hvalid⟩
        obtain ⟨⟨s, d, hs, hd, htypes⟩, hvalid⟩ := validateParameters_cons_ok_iff.mp hvalid
        exact ⟨⟨parameter, s, d, hparameter, hs, hd, htypes⟩,
          parameters, hparameters, by simpa using hlength, hvalid⟩
      · rintro ⟨⟨parameter, s, d, hparameter, hs, hd, htypes⟩, parameters, hparameters, hlength,
          hvalid⟩
        exact ⟨_, ⟨parameter, hparameter, parameters, hparameters, rfl⟩, by simpa using hlength,
          validateParameters_cons_ok_iff.mpr ⟨⟨s, d, hs, hd, htypes⟩, hvalid⟩⟩

theorem prepareInsert_accept_iff (mismatchStatus : Status) {names : List String} :
    (∃ parameters, prepareInsert prepare names = .ok parameters ∧
      validatePreparedInsertSchema schema parameters mismatchStatus = .ok ()) ↔
      ∃ types, prepare names = some types ∧ List.Forall₂ InsertTyped schema types := by
  cases hprepare : prepare names with
  | none => simp [prepareInsert, hprepare]
  | some types =>
    simp only [prepareInsert, hprepare, Option.some.injEq, exists_eq_left',
      ← parameterFields_accept_iff mismatchStatus 0]
    refine exists_congr fun parameters => and_congr_right fun _ => ?_
    simp only [validatePreparedInsertSchema]
    split_ifs with hlength
    · simp [hlength]
    · simp [not_not.mp hlength]

theorem quotedColumnList_ok_iff {names : List String} :
    quotedColumnList names = .ok () ↔
      ∀ name ∈ names, name.toList.contains (Char.ofNat 0) = false := by
  simp only [quotedColumnList]
  split_ifs with h
  · simpa using h
  · simpa using h

theorem toLower_eq_zero_iff (c : Char) : c.toLower = Char.ofNat 0 ↔ c = Char.ofNat 0 := by
  delta Char.toLower
  split_ifs with h
  · constructor
    · intro hc
      have hval : (c.val.toNat + 32) % 4294967296 = 0 := congrArg (fun d => d.val.toNat) hc
      have hge : 65 ≤ c.val.toNat := UInt32.le_iff_toNat_le.mp h.1
      have hle : c.val.toNat ≤ 90 := UInt32.le_iff_toNat_le.mp h.2
      omega
    · rintro rfl
      simp at h
  · rfl

theorem Picks.nul_iff {column : AppendColumn} (h : Picks columns field column) :
    column.name.toList.contains (Char.ofNat 0) = hasNulName field := by
  have hcase := beq_iff_eq.mp h.ignores_case
  have hlower : ∀ s : String, s.toList.contains (Char.ofNat 0) =
      (s.toList.map Char.toLower).contains (Char.ofNat 0) := by
    intro s
    rw [Bool.eq_iff_iff]
    simp [toLower_eq_zero_iff]
  rw [hasNulName, hlower, hlower, hcase]

theorem prepared_columns (hprepares : PreparesInserts columns prepare)
    (hdistinct : (columns.map AppendColumn.name).Nodup) {types : List MonetType}
    (h : prepare (schema.map Field.name) = some types) :
    ∃ picked, Aligned columns schema picked ∧
      picked.map AppendColumn.name = schema.map Field.name ∧
      types = picked.map AppendColumn.dataType := by
  obtain ⟨hnodup, hcolumns⟩ := (hprepares _ _).mp h
  have hpicked : ∃ picked, List.Forall₂ (Picks columns) schema picked ∧
      picked.map AppendColumn.name = schema.map Field.name ∧
      types = picked.map AppendColumn.dataType := by
    clear hnodup h
    induction schema generalizing types with
    | nil =>
      cases hcolumns
      exact ⟨[], .nil, rfl, rfl⟩
    | cons field schema ih =>
      cases hcolumns with
      | cons hcolumn hcolumns =>
        obtain ⟨column, hmem, hname, rfl⟩ := hcolumn
        obtain ⟨picked, hpicks, hnames, rfl⟩ := ih hcolumns
        exact ⟨column :: picked, .cons (picks_exact hmem hdistinct hname) hpicks,
          by simp [hname, hnames], rfl⟩
  obtain ⟨picked, hpicks, hnames, htypes⟩ := hpicked
  exact ⟨picked, ⟨hpicks, hnames ▸ hnodup⟩, hnames, htypes⟩

theorem Aligned.unique {a b : List AppendColumn} (ha : Aligned columns schema a)
    (hb : Aligned columns schema b) : a = b := by
  have hpicks := ha.picks
  have hpicks' := hb.picks
  clear ha hb
  induction hpicks generalizing b with
  | nil => cases hpicks'; rfl
  | cons hpick _ ih =>
    cases hpicks' with
    | cons hpick' hpicks' => rw [hpick.unique hpick', ih hpicks']

theorem Aligned.prepares (hprepares : PreparesInserts columns prepare)
    {picked : List AppendColumn} (h : Aligned columns schema picked) :
    prepare (picked.map AppendColumn.name) = some (picked.map AppendColumn.dataType) := by
  refine (hprepares _ _).mpr ⟨h.distinct, ?_⟩
  rw [List.forall₂_map_left_iff, List.forall₂_map_right_iff, List.forall₂_same]
  exact fun column hcolumn => ⟨column, picked_mem h.picks column hcolumn, rfl, rfl⟩

theorem Aligned.nul_free {picked : List AppendColumn} (h : Aligned columns schema picked)
    (hnul : ∀ field ∈ schema, hasNulName field = false) :
    quotedColumnList (picked.map AppendColumn.name) = .ok () := by
  rw [quotedColumnList_ok_iff, List.forall_mem_map]
  have hpicks := h.picks
  clear h
  induction hpicks with
  | nil => simp
  | cons hpick _ ih =>
    rw [List.forall_mem_cons] at hnul ⊢
    exact ⟨hpick.nul_iff.trans hnul.1, ih hnul.2⟩

theorem insertRoute_ok_iff (hprepares : PreparesInserts columns prepare)
    (hdistinct : (columns.map AppendColumn.name).Nodup) {targets : List String} :
    insertRoute prepare schema columns mismatchStatus = .ok targets ↔
      ∃ picked, Aligned columns schema picked ∧ targets = picked.map AppendColumn.name ∧
        (∀ field ∈ schema, hasNulName field = false) ∧
        List.Forall₂ InsertTyped schema (picked.map AppendColumn.dataType) ∧
        (picked.map AppendColumn.name = schema.map Field.name ∨
          List.Forall₂ Typed schema picked) := by
  have hquoted : quotedColumnList (schema.map Field.name) = .ok () ↔
      ∀ field ∈ schema, hasNulName field = false := by
    rw [quotedColumnList_ok_iff, List.forall_mem_map]
    rfl
  simp only [insertRoute, bind_eq_ok]
  constructor
  · rintro ⟨⟨⟩, hnul, h⟩
    rw [hquoted] at hnul
    cases hfirst : prepareInsert prepare (schema.map Field.name) with
    | ok parameters =>
      simp only [hfirst, bind_eq_ok, Except.ok.injEq] at h
      obtain ⟨⟨⟩, hvalid, rfl⟩ := h
      obtain ⟨types, htypes, hinsert⟩ := (prepareInsert_accept_iff mismatchStatus).mp ⟨parameters, hfirst, hvalid⟩
      obtain ⟨picked, haligned, hnames, rfl⟩ := prepared_columns hprepares hdistinct htypes
      exact ⟨picked, haligned, hnames.symm, hnul, hinsert, .inl hnames⟩
    | error prepareError =>
      simp only [hfirst, bind_eq_ok] at h
      obtain ⟨aligned, haligned, h⟩ := h
      split_ifs at h with hnames
      obtain ⟨picked, halign, htyped, rfl⟩ := (alignAppendSchema_ok_iff hdistinct).mp haligned
      rw [halign.nul_free hnul, ok_bind] at h
      cases hsecond : prepareInsert prepare (picked.map AppendColumn.name) with
      | error e => simp [hsecond] at h
      | ok parameters =>
        simp only [hsecond, bind_eq_ok, Except.ok.injEq] at h
        obtain ⟨⟨⟩, hvalid, rfl⟩ := h
        obtain ⟨types, htypes, hinsert⟩ :=
          (prepareInsert_accept_iff mismatchStatus).mp ⟨parameters, hsecond, hvalid⟩
        rw [halign.prepares hprepares, Option.some.injEq] at htypes
        exact ⟨picked, halign, rfl, hnul, htypes ▸ hinsert, .inr htyped⟩
  · rintro ⟨picked, haligned, rfl, hnul, hinsert, hroute⟩
    refine ⟨(), hquoted.mpr hnul, ?_⟩
    obtain ⟨parameters, hparameters, hvalid⟩ := (prepareInsert_accept_iff mismatchStatus).mpr
      ⟨_, haligned.prepares hprepares, hinsert⟩
    by_cases hnames : picked.map AppendColumn.name = schema.map Field.name
    · rw [hnames] at hparameters ⊢
      simp [hparameters, hvalid]
    · have hnone : prepare (schema.map Field.name) = none := by
        rw [Option.eq_none_iff_forall_ne_some]
        intro types htypes
        obtain ⟨picked', haligned', hnames', -⟩ := prepared_columns hprepares hdistinct htypes
        exact hnames (haligned.unique haligned' ▸ hnames')
      have hcopy : alignAppendSchema columns mismatchStatus schema =
          .ok (picked.map AppendColumn.name) :=
        (alignAppendSchema_ok_iff hdistinct).mpr
          ⟨picked, haligned, hroute.resolve_left hnames, rfl⟩
      have hfail : prepareInsert prepare (schema.map Field.name) =
          .error ⟨.prepareRefused, .internal⟩ := by simp [prepareInsert, hnone]
      simp [hfail, hcopy, hnames, haligned.nul_free hnul, hparameters, hvalid]

end InsertRoute

section Agreement
variable {columns : List AppendColumn} {mismatchStatus : Status} {schema : List Field}
  {prepare : List String → Option (List MonetType)}

def RoutesAgree (prepare : List String → Option (List MonetType)) (columns : List AppendColumn)
    (mismatchStatus : Status) (schema : List Field) : Prop :=
  ∀ targets, insertRoute prepare schema columns mismatchStatus = .ok targets ↔
    alignAppendSchema columns mismatchStatus schema = .ok targets

def InsertAccepts (field : Field) (column : AppendColumn) : Prop :=
  (Typed field column ∨ InsertOnly field column) ∧ ¬CopyOnly field column

inductive Diverges (columns : List AppendColumn) (schema : List Field) : Prop
  | insertOnly (picked : List AppendColumn) (aligned : Aligned columns schema picked)
    (names : picked.map AppendColumn.name = schema.map Field.name)
    (accepts : List.Forall₂ InsertAccepts schema picked)
    (pair : ∃ pair ∈ schema.zip picked, InsertOnly pair.1 pair.2)
  | copyOnly (picked : List AppendColumn) (aligned : Aligned columns schema picked)
    (typed : List.Forall₂ Typed schema picked)
    (pair : ∃ pair ∈ schema.zip picked, CopyOnly pair.1 pair.2)

theorem Typed.not_insertOnly {field : Field} {column : AppendColumn} (h : Typed field column) :
    ¬InsertOnly field column := by
  rintro ⟨hread, source, hsource, hstring⟩
  obtain ⟨source', hsource', htypes⟩ := h
  rw [hsource, Except.ok.injEq] at hsource'
  subst hsource'
  cases source <;> cases hc : column.dataType <;>
    simp_all [unreadable, stringWire, appendMonetTypesMatch]

theorem insertAccepts_iff {picked : List AppendColumn} :
    ((∀ field ∈ schema, hasNulName field = false) ∧
      List.Forall₂ InsertTyped schema (picked.map AppendColumn.dataType)) ↔
      List.Forall₂ InsertAccepts schema picked := by
  rw [List.forall₂_map_right_iff]
  induction schema generalizing picked with
  | nil => simp
  | cons field schema ih =>
    cases picked with
    | nil => simp
    | cons column picked =>
      rw [List.forall₂_cons, List.forall₂_cons, List.forall_mem_cons, ← ih, InsertAccepts,
        ← insertTyped_iff]
      tauto

theorem not_diverges_iff {picked : List AppendColumn} (haligned : Aligned columns schema picked) :
    ¬Diverges columns schema ↔
      ((List.Forall₂ InsertAccepts schema picked ∧
        (picked.map AppendColumn.name = schema.map Field.name ∨
          List.Forall₂ Typed schema picked)) ↔ List.Forall₂ Typed schema picked) := by
  have hlength := haligned.picks.length_eq
  constructor
  · intro hnot
    constructor
    · rintro ⟨haccepts, hnames | htyped⟩
      · refine List.forall₂_iff_zip.mpr ⟨hlength, fun {field column} hpair => ?_⟩
        rcases (List.forall₂_iff_zip.mp haccepts).2 hpair with ⟨htyped | hinsert, -⟩
        · exact htyped
        · exact absurd (.insertOnly picked haligned hnames haccepts ⟨_, hpair, hinsert⟩) hnot
      · exact htyped
    · intro htyped
      refine ⟨List.forall₂_iff_zip.mpr ⟨hlength, fun {field column} hpair => ⟨?_, fun hcopy => ?_⟩⟩,
        .inr htyped⟩
      · exact .inl ((List.forall₂_iff_zip.mp htyped).2 hpair)
      · exact hnot (.copyOnly picked haligned htyped ⟨_, hpair, hcopy⟩)
  · rintro hroutes (⟨picked', haligned', hnames, haccepts, ⟨field, column⟩, hpair, hinsert⟩ |
      ⟨picked', haligned', htyped, ⟨field, column⟩, hpair, hcopy⟩)
    · obtain rfl := haligned.unique haligned'
      have htyped := hroutes.mp ⟨haccepts, .inl hnames⟩
      exact ((List.forall₂_iff_zip.mp htyped).2 hpair).not_insertOnly hinsert
    · obtain rfl := haligned.unique haligned'
      have haccepts := (hroutes.mpr htyped).1
      exact ((List.forall₂_iff_zip.mp haccepts).2 hpair).2 hcopy

theorem not_diverges_of_plain (hnul : ∀ field ∈ schema, hasNulName field = false)
    (hplain : ∀ column ∈ columns,
      unreadable column.dataType = false ∧ malformedDecimal column.dataType = false) :
    ¬Diverges columns schema := by
  rintro (⟨picked, haligned, -, -, ⟨field, column⟩, hpair, hinsert⟩ |
    ⟨picked, haligned, -, ⟨field, column⟩, hpair, hcopy⟩)
  all_goals
    obtain ⟨hfield, hcolumn⟩ := List.of_mem_zip hpair
    obtain ⟨hread, hdecimal⟩ := hplain column (picked_mem haligned.picks column hcolumn)
  · simp [InsertOnly, hread] at hinsert
  · simp [CopyOnly, hread, hdecimal, hnul field hfield] at hcopy

theorem append_routes_agree_iff (hprepares : PreparesInserts columns prepare)
    (hdistinct : (columns.map AppendColumn.name).Nodup) :
    RoutesAgree prepare columns mismatchStatus schema ↔ ¬Diverges columns schema := by
  simp only [RoutesAgree, insertRoute_ok_iff hprepares hdistinct,
    alignAppendSchema_ok_iff hdistinct]
  by_cases hpicked : ∃ picked, Aligned columns schema picked
  · obtain ⟨picked, haligned⟩ := hpicked
    rw [not_diverges_iff haligned, ← insertAccepts_iff]
    constructor
    · intro hroutes
      have hroute := hroutes (picked.map AppendColumn.name)
      constructor
      · rintro ⟨⟨hnul, hinsert⟩, hnames⟩
        obtain ⟨picked', haligned', htyped, -⟩ :=
          hroute.mp ⟨picked, haligned, rfl, hnul, hinsert, hnames⟩
        rwa [haligned.unique haligned']
      · intro htyped
        obtain ⟨picked', haligned', -, hnul, hinsert, hnames⟩ :=
          hroute.mpr ⟨picked, haligned, htyped, rfl⟩
        obtain rfl := haligned.unique haligned'
        exact ⟨⟨hnul, hinsert⟩, hnames⟩
    · intro hroutes targets
      constructor
      · rintro ⟨picked', haligned', rfl, hnul, hinsert, hnames⟩
        obtain rfl := haligned.unique haligned'
        exact ⟨picked, haligned, hroutes.mp ⟨⟨hnul, hinsert⟩, hnames⟩, rfl⟩
      · rintro ⟨picked', haligned', htyped, rfl⟩
        obtain rfl := haligned.unique haligned'
        obtain ⟨⟨hnul, hinsert⟩, hnames⟩ := hroutes.mpr htyped
        exact ⟨picked, haligned, rfl, hnul, hinsert, hnames⟩
  · have hnot : ¬Diverges columns schema := by
      rintro (⟨picked, haligned, -, -, -⟩ | ⟨picked, haligned, -, -⟩) <;>
        exact hpicked ⟨picked, haligned⟩
    refine ⟨fun _ => hnot, fun _ targets => ?_⟩
    constructor
    · rintro ⟨picked, haligned, -⟩
      exact absurd ⟨picked, haligned⟩ hpicked
    · rintro ⟨picked, haligned, -⟩
      exact absurd ⟨picked, haligned⟩ hpicked

def catalogPrepare (columns : List AppendColumn) (names : List String) :
    Option (List MonetType) :=
  if names.Nodup then
    names.mapM fun name => (columns.find? (fun column => column.name == name)).map
      AppendColumn.dataType
  else none

theorem find_column_iff (hdistinct : (columns.map AppendColumn.name).Nodup) {name : String}
    {column : AppendColumn} :
    columns.find? (fun column => column.name == name) = some column ↔
      column ∈ columns ∧ column.name = name := by
  constructor
  · intro h
    exact ⟨List.mem_of_find?_eq_some h, by simpa using List.find?_some h⟩
  · rintro ⟨hmem, hname⟩
    cases h : columns.find? (fun column => column.name == name) with
    | none => simpa [hname] using List.find?_eq_none.mp h column hmem
    | some other =>
      have hother : other.name = name := by simpa using List.find?_some h
      rw [List.inj_on_of_nodup_map hdistinct (List.mem_of_find?_eq_some h) hmem
        (hother.trans hname.symm)]

theorem catalogPrepare_spec (hdistinct : (columns.map AppendColumn.name).Nodup) :
    PreparesInserts columns (catalogPrepare columns) := by
  intro names types
  simp only [catalogPrepare]
  split_ifs with hnodup
  · rw [and_iff_right hnodup]
    clear hnodup
    induction names generalizing types with
    | nil =>
      cases types <;> simp
    | cons name names ih =>
      simp only [List.mapM_cons, Option.bind_eq_bind, Option.bind_eq_some_iff, Option.map_eq_some_iff,
        find_column_iff hdistinct, Option.pure_def, Option.some.injEq]
      constructor
      · rintro ⟨_, ⟨column, ⟨hmem, hname⟩, rfl⟩, rest, hrest, rfl⟩
        exact .cons ⟨column, hmem, hname, rfl⟩ ((ih rest).mp hrest)
      · intro h
        cases h with
        | cons hcolumn hrest =>
          obtain ⟨column, hmem, hname, rfl⟩ := hcolumn
          exact ⟨_, ⟨column, ⟨hmem, hname⟩, rfl⟩, _, (ih _).mpr hrest, rfl⟩
  · simp [hnodup]

def xmlColumns : List AppendColumn := [⟨"x", .xml, true⟩]

def textStream : List Field := [⟨"x", .utf8 .standard, true, none⟩]

def idColumns : List AppendColumn := [⟨"ID", .int, false⟩, ⟨"note", .varchar 20, true⟩]

def idStream : List Field :=
  [⟨"note", .utf8 .standard, true, none⟩, ⟨"id", .primitive .int32, false, none⟩]

theorem id_stream_appends_alike :
    RoutesAgree (catalogPrepare idColumns) idColumns .invalidArguments idStream ∧
      alignAppendSchema idColumns .invalidArguments idStream = .ok ["note", "ID"] :=
  ⟨(append_routes_agree_iff (catalogPrepare_spec (by decide)) (by decide)).mpr
    (not_diverges_of_plain (by decide) (by decide)), by decide +kernel⟩

theorem text_stream_splits_xml_append :
    (xmlColumns.map AppendColumn.name).Nodup ∧
      PreparesInserts xmlColumns (catalogPrepare xmlColumns) ∧
      insertRoute (catalogPrepare xmlColumns) textStream xmlColumns .invalidArguments = .ok ["x"] ∧
      alignAppendSchema xmlColumns .invalidArguments textStream =
        .error ⟨.typeMismatch "x" (.varchar 0) .xml, .invalidArguments⟩ :=
  ⟨by decide, catalogPrepare_spec (by decide), by decide +kernel, by decide +kernel⟩

end Agreement

end MonetdbAdbc
