import MonetdbAdbc.Driver.RecordBatch

namespace MonetdbAdbc.Driver
open Machine Rows Utf8

section Estimates
variable {field : Field} {est : Nat} {keys : List (Option Nat)} {schema : List Field}

def Column.KeysInRange : Column → Prop
  | .dictionary _ keys values => ∀ index, some index ∈ keys → index < values.len
  | _ => True

def RecordBatch.KeysInRange (batch : RecordBatch) : Prop :=
  ∀ column ∈ batch.columns, Column.KeysInRange column

theorem utf8_of_dataType {array : Column} {layout : Layout} (h : array.dataType = .utf8 layout) :
    ∃ values, array = .utf8 layout values := by
  cases array <;> cases h
  exact ⟨_, rfl⟩

theorem mapRows_check_ok {bound : Nat} {message : String}
    (h : ∀ index, some index ∈ keys → index < bound) :
    ∃ checked, mapRows (fun row (index : Option Nat) =>
      if index.any (bound ≤ ·) then invalid row message else (.ok () : Except EncodeError Unit))
      keys = .ok checked := by
  rw [mapRows]
  generalize 0 = row
  induction keys generalizing row with
  | nil => exact ⟨[], rfl⟩
  | cons key keys ih =>
    obtain ⟨checked, hchecked⟩ := ih (fun index hindex => h index (List.mem_cons_of_mem _ hindex)) (row + 1)
    refine ⟨() :: checked, mapFrom_cons_of_ok ?_ hchecked⟩
    cases key with
    | none => rfl
    | some index =>
      have hlt := h index List.mem_cons_self
      simp only [Option.any_some, decide_eq_true_eq]
      rw [if_neg (by omega)]

theorem mapRows_check_bound {bound : Nat} {message : String} {checked : List Unit}
    (h : mapRows (fun row (index : Option Nat) =>
      if index.any (bound ≤ ·) then invalid row message else (.ok () : Except EncodeError Unit))
      keys = .ok checked) : ∀ index, some index ∈ keys → index < bound := by
  rw [mapRows] at h
  generalize 0 = row at h
  induction keys generalizing row checked with
  | nil =>
    intro index hindex
    cases hindex
  | cons key keys ih =>
    obtain ⟨_, rest, hkey, hrest, -⟩ := mapFrom_cons_ok h
    intro index hindex
    rcases List.mem_cons.mp hindex with rfl | hindex
    · by_contra hge
      simp only [Option.any_some, decide_eq_true_eq, if_pos (Nat.le_of_not_lt hge), invalid] at hkey
      cases hkey
    · exact ih (row + 1) hrest index hindex

theorem keysInRange_slice {array : Column} (h : estimatedVariable array = .ok est)
    (start len : Nat) : Column.KeysInRange (array.slice start len) := by
  cases array with
  | dictionary key keys values =>
    obtain ⟨layout, strings, rfl, -⟩ := estimatedDictionaryStrings_ok h
    rw [estimatedVariable, estimatedDictionaryStrings.eq_def] at h
    split at h
    · rename_i heq
      cases heq
      obtain ⟨checked, hchecked, -⟩ := bind_eq_ok.mp h
      intro index hindex
      exact mapRows_check_bound hchecked index (List.mem_of_mem_drop (List.mem_of_mem_take hindex))
    · cases h
  | _ => trivial

theorem isDictionaryKey_of_ok {key : DataType} {values : Column}
    (h : estimatedDictionaryStrings key keys values = .ok est) :
    isDictionaryKey key = true ∧ ∃ layout strings, values = .utf8 layout strings := by
  obtain ⟨layout, strings, rfl, -⟩ := estimatedDictionaryStrings_ok h
  refine ⟨?_, layout, strings, rfl⟩
  cases hkey : isDictionaryKey key with
  | true => rfl
  | false => simp [estimatedDictionaryStrings, hkey] at h

theorem estimatedDictionaryStrings_isOk {key : DataType} {layout : Layout}
    {strings : List (Option Str)} (hkey : isDictionaryKey key = true)
    (hkeys : ∀ index, some index ∈ keys → index < strings.length)
    (hle : ((dictionaryStrings keys strings).map stringEstimate).sum ≤ usizeMax) :
    ∃ est, estimatedDictionaryStrings key keys (.utf8 layout strings) = .ok est := by
  obtain ⟨checked, hchecked⟩ := @mapRows_check_ok keys strings.length
    "dictionary key is outside the dictionary values" hkeys
  refine ⟨((dictionaryStrings keys strings).map stringEstimate).sum, ?_⟩
  simp only [estimatedDictionaryStrings, hkey, hchecked, ok_bind]
  exact estimatedStrings_ok.mpr ⟨rfl, hle⟩

-- Whether a column can be estimated is a matter of its type, its dictionary keys and the total.
theorem estimatedVariable_transfer {a b : Column} (htype : a.dataType = b.dataType)
    (h : estimatedVariable a = .ok est) (hkeys : Column.KeysInRange b)
    (hle : (b.cells.map (variableSize b.dataType)).sum ≤ usizeMax) :
    ∃ est', estimatedVariable b = .ok est' := by
  have hwidth := variableWidth_of_estimatedVariable h
  cases b with
  | utf8 layout values =>
    rw [← variableEstimates_cells rfl (by rintro _ _ _ ⟨⟩)] at hle
    exact ⟨_, estimatedStrings_ok.mpr ⟨rfl, hle⟩⟩
  | binary layout values | fixedSizeBinary width values =>
    rw [← variableEstimates_cells rfl (by rintro _ _ _ ⟨⟩)] at hle
    exact ⟨_, estimatedBlobs_ok.mpr ⟨rfl, hle⟩⟩
  | dictionary key keys values =>
    cases a with
    | dictionary key' keys' values' =>
      obtain ⟨hkey, layout, strings, rfl⟩ := isDictionaryKey_of_ok h
      simp only [Column.dataType, DataType.dictionary.injEq] at htype
      obtain ⟨rfl, hvalues⟩ := htype
      obtain ⟨values, rfl⟩ := utf8_of_dataType hvalues.symm
      rw [← variableEstimates_cells rfl (by rintro _ _ _ ⟨⟩; exact ⟨_, _, rfl⟩)] at hle
      exact estimatedDictionaryStrings_isOk hkey hkeys hle
    | _ => simp [Column.dataType] at htype
  | null rows | boolean values => cases a <;> simp [Column.dataType, variableWidth] at htype hwidth
  | primitive type slots => cases a <;> simp [Column.dataType, variableWidth] at htype hwidth
  | other name values => cases a <;> simp [Column.dataType, variableWidth] at htype hwidth

theorem estimatedEncodedSize_transfer {a b : Column} (ha : a.dataType = field.dataType)
    (hb : b.dataType = field.dataType) (h : estimatedEncodedSize field a = .ok est)
    (hkeys : ∀ est, estimatedVariable a = .ok est → Column.KeysInRange b)
    (hle : (b.cells.map (cellSize field)).sum ≤ usizeMax) :
    estimatedEncodedSize field b = .ok (b.cells.map (cellSize field)).sum := by
  suffices hok : ∃ est', estimatedEncodedSize field b = .ok est' by
    obtain ⟨est', hest⟩ := hok
    rw [hest, estimatedEncodedSize_cells hb hest]
  rw [estimatedEncodedSize, arrayWireWidth_eq ha] at h
  rw [estimatedEncodedSize, arrayWireWidth_eq hb]
  cases hwidth : fixedEncodedWidth field with
  | error error =>
    rw [hwidth] at h
    cases h
  | ok width =>
    rw [hwidth] at h
    have hcell : cellSize field = fun cell => width.elim (variableSize field.dataType cell) id := by
      funext cell
      rw [cellSize, hwidth]
      cases width <;> rfl
    rw [hcell] at hle
    cases width with
    | some width =>
      have hproduct : b.len * width ≤ usizeMax := by simpa using hle
      exact ⟨_, okOr_eq_ok.mpr (checkedMul_eq_some.mpr ⟨hproduct, rfl⟩)⟩
    | none =>
      rw [← hb] at hle
      exact estimatedVariable_transfer (ha.trans hb.symm) h (hkeys _ h) hle

theorem estimatedFrom_transfer {rowsA rowsB : Nat} {as bs : List Column} {totalA total : Nat}
    (ha : List.Forall₂ (fun field column => column.dataType = field.dataType ∧
      column.len = rowsA) schema as)
    (hb : List.Forall₂ (fun field column => column.dataType = field.dataType ∧
      column.len = rowsB) schema bs)
    (h : estimatedFrom totalA (schema.zip as) = .ok est)
    (hkeys : List.Forall₂ (fun a b => ∀ est, estimatedVariable a = .ok est →
      Column.KeysInRange b) as bs)
    (hle : total + (List.zipWith (fun weight cells => (cells.map weight).sum) (schema.map cellSize)
      (bs.map Column.cells)).sum ≤ usizeMax) :
    estimatedFrom total (schema.zip bs) =
      .ok (total + (List.zipWith (fun weight cells => (cells.map weight).sum) (schema.map cellSize)
        (bs.map Column.cells)).sum) := by
  induction ha generalizing totalA total bs with
  | nil =>
    cases hb
    rfl
  | @cons field a schema as hfield _ ih =>
    cases hb with
    | @cons _ b _ bs hfield' hrest' =>
      cases hkeys with
      | cons hkey hkeys =>
        simp only [List.zip_cons_cons, estimatedFrom, bind_eq_ok] at h
        obtain ⟨bytes, hbytes, next, -, hrest⟩ := h
        cases hsize : estimatedEncodedSize field a with
        | error error =>
          rw [hsize] at hbytes
          cases hbytes
        | ok size =>
          simp only [List.map_cons, List.zipWith_cons_cons, List.sum_cons] at hle ⊢
          have hcolumn := estimatedEncodedSize_transfer hfield.1 hfield'.1 hsize hkey (by omega)
          have hadd : checkedAdd total (b.cells.map (cellSize field)).sum =
              some (total + (b.cells.map (cellSize field)).sum) :=
            checkedAdd_eq_some.mpr ⟨by omega, rfl⟩
          rw [List.zip_cons_cons, estimatedFrom, hcolumn]
          simp only [Except.mapError, ok_bind]
          rw [hadd, okOr_some, ok_bind, ih hrest' hrest hkeys (by omega), Nat.add_assoc]

theorem sizes_sum {batch : RecordBatch} (hschema : batch.schema = schema) :
    (sizes schema batch.rowsOf).sum =
      (List.zipWith (fun weight cells => (cells.map weight).sum) (schema.map cellSize)
        (batch.columns.map Column.cells)).sum := by
  subst hschema
  have hlength : (batch.schema.map cellSize).length = (batch.columns.map Column.cells).length := by
    rw [List.length_map, List.length_map, batch.aligned.length_eq]
  rw [← Table.sum_weigh hlength batch.cells_length]
  rfl

theorem estimatedBatchSize_transfer {a b : RecordBatch} (ha : a.schema = schema)
    (hb : b.schema = schema) (h : estimatedBatchSize schema a = .ok est)
    (hkeys : List.Forall₂ (fun a b => ∀ est, estimatedVariable a = .ok est →
      Column.KeysInRange b) a.columns b.columns)
    (hle : (sizes schema b.rowsOf).sum ≤ usizeMax) :
    estimatedBatchSize schema b = .ok (sizes schema b.rowsOf).sum := by
  rw [sizes_sum hb] at hle ⊢
  subst ha
  have haligned := b.aligned
  rw [hb] at haligned
  have hresult := estimatedFrom_transfer a.aligned haligned h hkeys ((zero_add _).trans_le hle)
  rwa [zero_add] at hresult

theorem estimatedBatchSize_slice {batch : RecordBatch} (hschema : batch.schema = schema)
    (h : estimatedBatchSize schema batch = .ok est) (hest : est ≤ usizeMax) (start len : Nat) :
    estimatedBatchSize schema (batch.slice start len) =
      .ok (sizes schema ((batch.rowsOf.drop start).take len)).sum := by
  rw [← RecordBatch.rowsOf_slice]
  refine estimatedBatchSize_transfer hschema hschema h ?_ ?_
  · simp only [RecordBatch.slice, List.forall₂_map_right_iff]
    exact List.forall₂_same.mpr fun column _ est hest => keysInRange_slice hest start len
  · have hsub : (sizes schema (batch.slice start len).rowsOf).Sublist (sizes schema batch.rowsOf) := by
      rw [RecordBatch.rowsOf_slice]
      exact ((List.take_sublist _ _).trans (List.drop_sublist _ _)).map _
    rw [estimatedBatchSize_ok hschema h] at hest
    exact hsub.sum_le_sum (fun _ _ => Nat.zero_le _) |>.trans hest

end Estimates

end MonetdbAdbc.Driver
