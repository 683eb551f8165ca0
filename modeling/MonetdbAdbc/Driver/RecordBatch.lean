import MonetdbAdbc.Codec.ChunkFaithful
import MonetdbAdbc.Library.Table
import MonetdbAdbc.Status

namespace MonetdbAdbc.Driver
open Machine Table

inductive IngestError where
  | adbc (error : AdbcError)
  | encode (error : EncodeError)
  | unsupportedField (error : EncodeError)
  | fileTransfer (message : String)
  | invalidArrow (column : Nat) (message : String)
  | arrow (message : String)
  -- Arithmetic on usize outside its range.
  | overflow
  -- A loop of the source that has not ended within the steps its data allows.
  | stuck
  deriving DecidableEq, Repr

abbrev Row := List (Option Cell)

structure RecordBatch where
  schema : List Field
  columns : List Column
  rows : Nat
  aligned : List.Forall₂ (fun field column => column.dataType = field.dataType ∧ column.len = rows)
    schema columns
  resident : ∀ column ∈ columns, Resident column

namespace RecordBatch

def slice (batch : RecordBatch) (start len : Nat) : RecordBatch where
  schema := batch.schema
  columns := batch.columns.map (Column.slice start len)
  rows := min len (batch.rows - start)
  aligned := by
    rw [List.forall₂_map_right_iff]
    refine batch.aligned.imp fun field column h => ?_
    rw [Column.slice_dataType, Column.slice_len, h.2]
    exact ⟨h.1, rfl⟩
  resident := List.forall_mem_map.mpr fun column hcolumn =>
    (batch.resident column hcolumn).slice start len

def rowsOf (batch : RecordBatch) : List Row :=
  transpose batch.rows (batch.columns.map Column.cells)

theorem lengths_of_aligned {schema : List Field} {columns : List Column} {rows : Nat}
    (h : List.Forall₂ (fun field column => column.dataType = field.dataType ∧ column.len = rows)
      schema columns) : ∀ column ∈ columns, column.len = rows := by
  induction h with
  | nil => exact nofun
  | cons hcolumn _ ih => exact List.forall_mem_cons.mpr ⟨hcolumn.2, ih⟩

theorem cells_length (batch : RecordBatch) :
    ∀ cells ∈ batch.columns.map Column.cells, cells.length = batch.rows := by
  rw [List.forall_mem_map]
  intro column hcolumn
  rw [Column.cells_length, lengths_of_aligned batch.aligned column hcolumn]

@[simp] theorem rowsOf_length (batch : RecordBatch) : batch.rowsOf.length = batch.rows :=
  transpose_length batch.cells_length

theorem rowsOf_slice (batch : RecordBatch) (start len : Nat) :
    (batch.slice start len).rowsOf = (batch.rowsOf.drop start).take len := by
  rw [rowsOf, rowsOf, ← transpose_slice, slice, List.map_map, List.map_map]
  congr 1
  refine List.map_congr_left fun column _ => ?_
  exact Column.slice_cells start len column

end RecordBatch

section Sizes
variable {field : Field} {array : Column} {est : Nat}

def nullSize : DataType → Nat
  | .utf8 _ | .dictionary _ _ => 2
  | _ => 8

def variableSize (dataType : DataType) : Option Cell → Nat
  | some (.text value) => saturatingAdd value.bytes.length 1
  | some (.bytes value) => saturatingAdd 8 value.length
  | _ => nullSize dataType

def cellSize (field : Field) (cell : Option Cell) : Nat :=
  match fixedEncodedWidth field with
  | .ok (some width) => width
  | .ok none => variableSize field.dataType cell
  | .error _ => 0

def rowSize (schema : List Field) (row : Row) : Nat := weigh (schema.map cellSize) row

theorem variableEstimates_cells (hvariable : variableWidth array = true)
    (hdictionary : ∀ key keys values, array = .dictionary key keys values →
      ∃ layout strings, values = .utf8 layout strings) :
    variableEstimates array = array.cells.map (variableSize array.dataType) := by
  cases array with
  | utf8 layout values | binary layout values =>
    rw [variableEstimates, Column.cells, List.map_map]
    refine List.map_congr_left fun value _ => ?_
    cases value <;> rfl
  | fixedSizeBinary width values =>
    rw [variableEstimates, Column.cells, List.map_map, List.map_map]
    refine List.map_congr_left fun value _ => ?_
    cases value <;> rfl
  | dictionary key keys values =>
    obtain ⟨layout, strings, rfl⟩ := hdictionary key keys values rfl
    rw [variableEstimates, Column.cells, dictionaryStrings, List.map_map, List.map_map]
    refine List.map_congr_left fun index _ => ?_
    cases index with
    | none => rfl
    | some index =>
      simp only [Function.comp_apply, Option.bind_some, Column.cells, List.getElem?_map]
      rcases strings[index]? with _ | _ | value <;> rfl
  | null | boolean | primitive | other => cases hvariable

theorem dictionary_of_estimatedVariable (h : estimatedVariable array = .ok est) (key : DataType)
    (keys : List (Option Nat)) (values : Column) (harray : array = .dictionary key keys values) :
    ∃ layout strings, values = .utf8 layout strings := by
  subst harray
  obtain ⟨layout, strings, rfl, -⟩ := estimatedDictionaryStrings_ok h
  exact ⟨layout, strings, rfl⟩

theorem estimatedEncodedSize_cells (htype : array.dataType = field.dataType)
    (h : estimatedEncodedSize field array = .ok est) :
    est = (array.cells.map (cellSize field)).sum := by
  rw [(estimatedEncodedSize_eq h).1, rowEstimates, arrayWireWidth_eq htype]
  rw [estimatedEncodedSize, arrayWireWidth_eq htype] at h
  cases hwidth : fixedEncodedWidth field with
  | error e =>
    rw [hwidth] at h
    cases h
  | ok width =>
    rw [hwidth] at h
    have hcell : cellSize field = fun cell => width.elim (variableSize field.dataType cell) id := by
      funext cell
      rw [cellSize, hwidth]
      cases width <;> rfl
    cases width with
    | some width =>
      rw [hcell]
      simp
    | none =>
      rw [hcell, ← htype]
      exact congrArg List.sum (variableEstimates_cells (variableWidth_of_estimatedVariable h)
        (dictionary_of_estimatedVariable h))

def estimatedFrom (total : Nat) : List (Field × Column) → Except IngestError Nat
  | [] => .ok total
  | (field, column) :: rest => do
    let bytes ← (estimatedEncodedSize field column).mapError .encode
    let total ← okOr (.adbc (adbcError "estimated ingest byte count overflows" .internal))
      (checkedAdd total bytes)
    estimatedFrom total rest

def estimatedBatchSize (schema : List Field) (batch : RecordBatch) : Except IngestError Nat :=
  estimatedFrom 0 (schema.zip batch.columns)

theorem estimatedFrom_ok {rows : Nat} {schema : List Field} {columns : List Column} {total : Nat}
    (haligned : List.Forall₂ (fun field column => column.dataType = field.dataType ∧
      column.len = rows) schema columns)
    (h : estimatedFrom total (schema.zip columns) = .ok est) :
    est = total + (List.zipWith (fun weight cells => (cells.map weight).sum) (schema.map cellSize)
      (columns.map Column.cells)).sum := by
  induction haligned generalizing total with
  | nil => simpa [estimatedFrom] using (Except.ok.inj h).symm
  | @cons field column schema columns hcolumn _ ih =>
    simp only [List.zip_cons_cons, estimatedFrom, bind_eq_ok, okOr_eq_ok, checkedAdd_eq_some] at h
    obtain ⟨bytes, hbytes, next, ⟨-, rfl⟩, hrest⟩ := h
    cases hsize : estimatedEncodedSize field column with
    | error e =>
      rw [hsize] at hbytes
      cases hbytes
    | ok size =>
      rw [hsize] at hbytes
      cases hbytes
      rw [ih hrest, estimatedEncodedSize_cells hcolumn.1 hsize]
      simp only [List.map_cons, List.zipWith_cons_cons, List.sum_cons]
      omega

def sizes (schema : List Field) (rows : List Row) : List Nat := rows.map (rowSize schema)

theorem estimatedBatchSize_ok {schema : List Field} {batch : RecordBatch}
    (hschema : batch.schema = schema) (h : estimatedBatchSize schema batch = .ok est) :
    est = (sizes schema batch.rowsOf).sum := by
  subst hschema
  have hlength : (batch.schema.map cellSize).length = (batch.columns.map Column.cells).length := by
    rw [List.length_map, List.length_map, batch.aligned.length_eq]
  rw [estimatedFrom_ok batch.aligned h, zero_add, ← sum_weigh hlength batch.cells_length]
  rfl

end Sizes

end MonetdbAdbc.Driver
