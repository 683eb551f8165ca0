import MonetdbAdbc.Read.FrameDecode
import MonetdbAdbc.Read.FrameFormat

namespace MonetdbAdbc
open LittleEndian Machine Rows Ieee754 Slices

section Source

-- The frame's buffer starts at address base; a parsed column is a pointer into it and a length.
def allocationRange (base frameLength pointer length : Nat) : Except DecodeError (Nat × Nat) := do
  let start ← okOr (.invalidColumn "column pointer precedes its frame allocation")
    (if base ≤ pointer then some (pointer - base) else none)
  let finish ← okOr (.invalidColumn "column range exceeds its frame allocation")
    ((checkedAdd start length).filter (· ≤ frameLength))
  .ok (start, finish)

def allocationRanges (base : Nat) (frame : Bytes) (columns : List (Nat × Bytes)) :
    Except DecodeError (List (Nat × Nat)) :=
  mapRows (fun _ (column : Nat × Bytes) =>
    allocationRange base frame.length (base + column.1) column.2.length) columns

def decodeBufferColumns (base : Nat) (buffer : Bytes) (columns : List ResultColumn)
    (ranges : List (Nat × Nat)) (rowCount : Nat) : Except DecodeError (List Column) :=
  mapRows (fun _ (pair : ResultColumn × Nat × Nat) =>
    decodeOwnedColumn base pair.2.1 pair.1.sqlType (columnBytes buffer pair.2).2 rowCount)
    (columns.zip ranges)

def allocationArrays (base : Nat) (frame : Bytes) (columns : List ResultColumn)
    (parsed : ExportbinFrame) (rowCount : Nat) : Except DecodeError (List Column) := do
  let ranges ← allocationRanges base frame parsed.columns
  if !shouldAdoptFrame base columns (ranges.map (columnBytes frame)) (totalBytes parsed.columns) then
    decodeColumns columns parsed.columns rowCount
  else decodeBufferColumns base frame columns ranges rowCount

def decodeFrameOwned (base : Nat) (frame : Slice) (columns : List ResultColumn)
    (expectedResultId expectedStartRow requestedRows : Nat) (schema : List Field) :
    Except DecodeError RecordBatch := do
  let parsed ← parsedFrame frame.bytes
  let rowCount ← validateFrame parsed columns expectedResultId expectedStartRow requestedRows
  let arrays ← allocationArrays base frame.bytes columns parsed rowCount
  recordBatch schema arrays rowCount

end Source

section Allocation
variable {frame : Bytes} {ranges : List (Nat × Nat)}

theorem allocationRange_eq (base : Nat) (hfits : frame.length ≤ isizeMax) (range : Nat × Nat)
    (horder : range.1 ≤ range.2) (hend : range.2 ≤ frame.length) :
    allocationRange base frame.length (base + (columnBytes frame range).1)
      (columnBytes frame range).2.length = .ok range := by
  have hmax : isizeMax ≤ usizeMax := by decide
  have hlength : (columnBytes frame range).2.length = range.2 - range.1 := by
    simp only [columnBytes, List.length_take, List.length_drop]
    omega
  have hfinish : checkedAdd range.1 (range.2 - range.1) = some range.2 :=
    checkedAdd_eq_some.mpr (by omega)
  rw [allocationRange, if_pos (Nat.le_add_right base _), Nat.add_sub_cancel_left, hlength]
  simp [columnBytes, hfinish, hend]

theorem allocationRanges_eq (base : Nat) (hfits : frame.length ≤ isizeMax)
    (h : ∀ range ∈ ranges, range.1 ≤ range.2 ∧ range.2 ≤ frame.length) (row : Nat) :
    mapFrom (fun _ (column : Nat × Bytes) =>
      allocationRange base frame.length (base + column.1) column.2.length) row
      (ranges.map (columnBytes frame)) = .ok ranges := by
  induction ranges generalizing row with
  | nil => rfl
  | cons range ranges ih =>
    obtain ⟨horder, hend⟩ := h range List.mem_cons_self
    refine mapFrom_cons_of_ok (allocationRange_eq base hfits range horder hend) (ih ?_ (row + 1))
    exact fun other hother => h other (List.mem_cons_of_mem range hother)

theorem decodeBufferColumns_eq (base : Nat) (columns : List ResultColumn) (rowCount : Nat) :
    decodeBufferColumns base frame columns ranges rowCount =
      decodeOwnedColumns base columns (ranges.map (columnBytes frame)) rowCount := by
  rw [decodeOwnedColumns, List.zip_map_right, mapRows, mapFrom_map]
  rfl

theorem decodeFrameOwned_eq (base : Nat) (frame : Slice) (columns : List ResultColumn)
    (resultId startRow requestedRows : Nat) (schema : List Field) :
    decodeFrameOwned base frame columns resultId startRow requestedRows schema =
      decodeFrameOwnedWithSchema base frame.bytes columns resultId startRow requestedRows schema := by
  rw [decodeFrameOwned, decodeFrameOwnedWithSchema]
  cases hparsed : parsedFrame frame.bytes with
  | error e => rfl
  | ok parsed =>
    obtain ⟨line, header, tocPos, ranges, hformed, rfl⟩ :=
      (parseFrame_eq_ok frame.fits).mp (parsedFrame_ok hparsed)
    have hsize := hformed.size
    have hranges : allocationRanges base frame.bytes (frameOf frame.bytes header ranges).columns =
        .ok ranges := by
      refine allocationRanges_eq base frame.fits (fun range hrange => ?_) 0
      obtain ⟨-, horder, hend⟩ := hformed.inside range hrange
      exact ⟨horder, by omega⟩
    simp only [ok_bind, allocationArrays, hranges, decodeBufferColumns_eq]
    rfl

end Allocation

section Column
variable {base start rows : Nat} {bytes : Bytes} {array : Column}

def orCopied (copied : Except DecodeError Column) : Option Column → Except DecodeError Column
  | some array => .ok array
  | none => copied

theorem decodeOwnedColumn_eq (dataType : MonetType) :
    decodeOwnedColumn base start dataType bytes rows =
      adoptColumn base start dataType bytes rows >>= orCopied (decodeColumn dataType bytes rows) := by
  rw [decodeOwnedColumn]
  congr 1

theorem adoptPrimitive_agrees (type : Primitive) (isNull : BitVec type.width → Bool) :
    adoptPrimitive base start type isNull bytes rows >>=
        orCopied ((decodePrimitive type.width isNull bytes rows).map (.primitive type)) = .ok array ↔
      (decodePrimitive type.width isNull bytes rows).map (.primitive type) = .ok array := by
  rw [adoptPrimitive, decodePrimitive]
  cases expectFixed bytes rows (type.width / 8) with
  | error e => rfl
  | ok checked =>
    simp only [ok_bind]
    split_ifs <;> rfl

theorem decodeDecimal_wide {precision : Nat} {scale : Int} {hugeint : Bool}
    (hprecision : 19 ≤ precision ∧ precision ≤ 38) (hscale : 0 ≤ scale ∧ scale ≤ precision) :
    decodeDecimal bytes rows precision scale hugeint = (do
      expectFixed bytes rows 16
      mapRows (decimalValue 16 precision hugeint) (chunksExact 16 bytes)) := by
  have hwidth : decimalWireWidth precision = some 16 := by
    simp only [decimalWireWidth]
    repeat rw [if_neg (by omega)]
    rw [if_pos hprecision]
  rw [decodeDecimal, if_neg (by omega), hwidth, ite_self]

theorem adoptDecimal_agrees {precision : Nat} {scale : Int} {hugeint : Bool}
    (hprecision : 19 ≤ precision ∧ precision ≤ 38) (hscale : 0 ≤ scale) :
    adoptDecimal base start precision scale hugeint bytes rows >>=
        orCopied ((decodeDecimal bytes rows precision scale hugeint).map
          (.primitive (.decimal128 precision scale))) = .ok array ↔
      (decodeDecimal bytes rows precision scale hugeint).map
        (.primitive (.decimal128 precision scale)) = .ok array := by
  by_cases hfits : scale ≤ precision
  · rw [adoptDecimal, decodeDecimal_wide hprecision ⟨hscale, hfits⟩]
    cases expectFixed bytes rows 16 with
    | error e => rfl
    | ok checked =>
      simp only [ok_bind]
      split_ifs with haligned hrefused
      · rfl
      · omega
      · cases mapRows (decimalValue 16 precision hugeint) (chunksExact 16 bytes) <;> rfl
  · -- Both paths refuse the column: the copy before it reads a byte, the adoption after its values.
    have hcopy : decodeDecimal bytes rows precision scale hugeint = .error (.invalidColumn
        "decimal precision/scale must satisfy 1 <= precision <= 38 and 0 <= scale <= precision") := by
      rw [decodeDecimal, if_pos (by omega)]
    rw [hcopy, adoptDecimal]
    cases expectFixed bytes rows 16 with
    | error e => simp [Except.map]
    | ok checked =>
      simp only [ok_bind]
      split_ifs with haligned hrefused
      · rfl
      · cases mapRows (decimalValue 16 precision hugeint) (chunksExact 16 bytes) <;> simp [Except.map]
      · omega

theorem decodeOwnedColumn_agrees (dataType : MonetType) :
    decodeOwnedColumn base start dataType bytes rows = .ok array ↔
      decodeColumn dataType bytes rows = .ok array := by
  rw [decodeOwnedColumn_eq]
  cases dataType with simp only [adoptColumn, decodeColumn]
  | tinyInt => exact adoptPrimitive_agrees .int8 _
  | smallInt => exact adoptPrimitive_agrees .int16 _
  | int => exact adoptPrimitive_agrees .int32 _
  | bigInt => exact adoptPrimitive_agrees .int64 _
  | oid => exact adoptPrimitive_agrees .uint64 _
  | real => exact adoptPrimitive_agrees .float32 _
  | double => exact adoptPrimitive_agrees .float64 _
  | monthInterval => exact adoptPrimitive_agrees .int32 _
  | dayInterval => exact adoptPrimitive_agrees (.duration .millisecond) _
  | secInterval => exact adoptPrimitive_agrees (.duration .millisecond) _
  | hugeInt => exact adoptDecimal_agrees (by decide) le_rfl
  | decimal precision scale =>
    split_ifs with hprecision
    · cases hscale : decimalScale scale with
      | error e => rfl
      | ok wide =>
        have hnonneg : 0 ≤ wide := by
          rw [decimalScale] at hscale
          split_ifs at hscale
          exact (Except.ok.inj hscale) ▸ Int.natCast_nonneg scale
        exact adoptDecimal_agrees hprecision hnonneg
    · rfl
  | _ => rfl

theorem decodeOwnedColumns_agrees (base : Nat) (columns : List ResultColumn)
    (bytes : List (Nat × Bytes)) (rowCount : Nat) (arrays : List Column) :
    decodeOwnedColumns base columns bytes rowCount = .ok arrays ↔
      decodeColumns columns bytes rowCount = .ok arrays :=
  mapFrom_eq_ok_congr fun _ _ _ => decodeOwnedColumn_agrees _

end Column

theorem ownedFrameArrays_agrees (base : Nat) (columns : List ResultColumn) (frame : ExportbinFrame)
    (rowCount : Nat) (arrays : List Column) :
    ownedFrameArrays base columns frame rowCount = .ok arrays ↔
      decodeColumns columns frame.columns rowCount = .ok arrays := by
  rw [ownedFrameArrays]
  split_ifs
  · rfl
  · exact decodeOwnedColumns_agrees base columns frame.columns rowCount arrays

theorem owned_frame_decoding_agrees_with_copy (base : Nat) (frame : Slice)
    (columns : List ResultColumn) (expectedResultId expectedStartRow requestedRows : Nat)
    (schema : List Field) (batch : RecordBatch) :
    decodeFrameOwned base frame columns expectedResultId expectedStartRow requestedRows schema =
        .ok batch ↔
      decodeFrameWithSchema frame.bytes columns expectedResultId expectedStartRow requestedRows
        schema = .ok batch := by
  rw [decodeFrameOwned_eq, decodeFrameOwnedWithSchema, decodeFrameWithSchema]
  simp only [bind_eq_ok, ownedFrameArrays_agrees]

end MonetdbAdbc
