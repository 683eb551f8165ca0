import MonetdbAdbc.Driver.EncodedStorage
import MonetdbAdbc.Driver.IngestSchedule

namespace MonetdbAdbc.Driver
open LittleEndian Machine Calendar

def encodeStagingBytes : Nat := 16 * 1024 * 1024

-- What the window code asks of chrono, of lz4_flex and of the addresses of Arrow buffers.
structure WindowEncoding where
  dateFromUnixDays : Int → Option Date
  lz4 : Lz4
  pinnedBytes : List RecordBatch → Nat

structure EncodedIngestWindow where
  columns : List EncodedColumn
  compressedArena : CompressedArena
  retainedBatches : List RecordBatch
  retainedEstimatedBytes : Nat
  incompressible : Bool
  retainArrowEligible : Bool
  retainArrow : Bool
  rows : Nat
  estimatedBytes : Nat
  encodedBytes : Nat
  coalesced : Bool
  wireCompression : WireCompression

structure IngestBudgets where
  windowBudget : Nat
  physicalWindowBudget : Nat
  incompressibleWindowBudget : Nat
  configuredRows : Option Nat
  wireCompression : WireCompression

-- Arrow counts no nulls in an array without a validity buffer, such as a NullArray.
def Column.nullCount : Column → Nat
  | .boolean values => values.countP Option.isNone
  | .primitive _ slots => slots.countP Slot.isNull
  | .utf8 _ values => values.countP Option.isNone
  | .binary _ values => values.countP Option.isNone
  | .fixedSizeBinary _ values => values.countP Option.isNone
  | .dictionary _ keys _ => keys.countP Option.isNone
  | .other _ values => values.countP Option.isNone
  | .null _ => 0

def mapChunkedEncodeError : ChunkedEncodeError IngestError → IngestError
  | .encode error => .encode error
  | .sink error => error

def internalError (message : String) : IngestError := .adbc (adbcError message .internal)

namespace EncodedIngestWindow

def columnsFor (wireCompression : WireCompression) :
    List Field → Except IngestError (List EncodedColumn)
  | [] => .ok []
  | field :: fields => do
    let width ← (fixedEncodedWidth field).mapError .unsupportedField
    let columns ← columnsFor wireCompression fields
    .ok (.new width wireCompression :: columns)

def forSchema (schema : List Field) (wireCompression : WireCompression) :
    Except IngestError EncodedIngestWindow :=
  (columnsFor wireCompression schema).map fun columns =>
    ⟨columns, ⟨[]⟩, [], 0, false, true, false, 0, 0, 0, false, wireCompression⟩

section Encoding
variable (encoding : WindowEncoding)

def emitChunk (state : EncodedColumn × CompressedArena) (chunk : Bytes) :
    (EncodedColumn × CompressedArena) × Except IngestError Unit :=
  match state.1.push encoding.lz4 state.2 chunk with
  | .ok next => (next, .ok ())
  | .error error => (state, .error error)

def finishColumn (column : EncodedColumn) (arena : CompressedArena) (columnBytes : Nat) :
    Except IngestError (EncodedColumn × CompressedArena) := do
  let (column, arena) ← column.finishPending encoding.lz4 arena
  let bytes ← okOr (internalError "encoded column byte count overflows")
    (checkedAdd column.bytes columnBytes)
  .ok ({ column with bytes := bytes }, arena)

def appendColumn (field : Field) (arrays : List Column) (column : EncodedColumn)
    (arena : CompressedArena) : Except IngestError ((EncodedColumn × CompressedArena) × Nat) :=
  match encodeColumnChunks encoding.dateFromUnixDays field arrays encodeChunkBytes
      (emitChunk encoding) (column, arena) with
  | (_, .error error) => .error (mapChunkedEncodeError error)
  | ((column, arena), .ok columnBytes) =>
    (finishColumn encoding column arena columnBytes).map fun next => (next, columnBytes)

def arraysAt (index : Nat) (pending : List PendingBatch) : List Column :=
  pending.filterMap fun entry => entry.batch.columns[index]?

def appendColumns (pending : List PendingBatch) : Nat → List Field → List EncodedColumn →
    CompressedArena → Nat → Except IngestError (List EncodedColumn × CompressedArena × Nat)
  | index, field :: fields, column :: columns, arena, encodedBytes => do
    let ((column, arena), columnBytes) ←
      appendColumn encoding field (arraysAt index pending) column arena
    let encodedBytes ← okOr (internalError "encoded ingest byte count overflows")
      (checkedAdd encodedBytes columnBytes)
    let (columns, arena, encodedBytes) ←
      appendColumns pending (index + 1) fields columns arena encodedBytes
    .ok (column :: columns, arena, encodedBytes)
  | _, _, columns, arena, encodedBytes => .ok (columns, arena, encodedBytes)

def encodedStoredBytes (columns : List EncodedColumn) : Nat :=
  (columns.map EncodedColumn.storedBytes).sum

def retainBatches (window : EncodedIngestWindow) (pending : List PendingBatch)
    (estimatedBytes : Nat) : Except IngestError EncodedIngestWindow :=
  (okOr (internalError "retained Arrow byte estimate overflows")
    (checkedAdd window.retainedEstimatedBytes estimatedBytes)).map fun retainedEstimatedBytes =>
      { window with
        retainedEstimatedBytes := retainedEstimatedBytes
        retainedBatches := window.retainedBatches ++ pending.map PendingBatch.batch }

def encodeBatches (window : EncodedIngestWindow) (schema : List Field)
    (pending : List PendingBatch) : Except IngestError EncodedIngestWindow :=
  (appendColumns encoding pending 0 schema window.columns window.compressedArena
    window.encodedBytes).map fun (columns, arena, encodedBytes) =>
      let incompressible := decide (window.wireCompression ≠ .lz4) &&
        decide (saturatingMul (encodedStoredBytes columns) 8 > saturatingMul encodedBytes 7)
      { window with
        columns := columns
        compressedArena := arena
        encodedBytes := encodedBytes
        incompressible := incompressible
        retainArrow := incompressible && window.retainArrowEligible }

def storeBatches (window : EncodedIngestWindow) (schema : List Field)
    (pending : List PendingBatch) (estimatedBytes : Nat) :
    Except IngestError EncodedIngestWindow :=
  let noted := { window with
    retainArrowEligible := window.retainArrowEligible &&
      pending.all fun entry => entry.batch.columns.all fun column => Column.nullCount column == 0
    coalesced := window.coalesced || decide (1 < pending.length) ||
      pending.any fun entry => decide (0 < entry.compactionLevel) }
  if window.retainArrow then retainBatches noted pending estimatedBytes
  else encodeBatches encoding noted schema pending

def append (window : EncodedIngestWindow) (schema : List Field) (pending : List PendingBatch)
    (estimatedBytes : Nat) : Except IngestError EncodedIngestWindow := do
  let stored ← storeBatches encoding window schema pending estimatedBytes
  let rows ← okOr (internalError "ingest row count overflows")
    (checkedAdd stored.rows ((pending.map fun entry => entry.batch.rows).sum % 2 ^ 64))
  let estimatedBytes ← okOr (internalError "estimated ingest byte count overflows")
    (checkedAdd stored.estimatedBytes estimatedBytes)
  .ok { stored with rows := rows, estimatedBytes := estimatedBytes }

def finishColumns : List EncodedColumn → CompressedArena →
    Except IngestError (List EncodedColumn × CompressedArena)
  | [], arena => .ok ([], arena)
  | column :: columns, arena => do
    let (column, arena) ← column.finishPending encoding.lz4 arena
    let (columns, arena) ← finishColumns columns arena
    .ok (column :: columns, arena)

def finish (window : EncodedIngestWindow) : Except IngestError EncodedIngestWindow :=
  (finishColumns encoding window.columns window.compressedArena).map fun (columns, arena) =>
    { window with columns := columns, compressedArena := arena }

def physicalStoredBytes (window : EncodedIngestWindow) : Nat :=
  saturatingAdd
    (saturatingAdd (window.columns.map EncodedColumn.rawBytes).sum
      window.compressedArena.physicalBytes)
    (encoding.pinnedBytes window.retainedBatches)

end Encoding

def wireFrame : EncodedChunk → Bool
  | .lz4 _ _ _ .plain .frame => true
  | _ => false

def usesWireLz4 (window : EncodedIngestWindow) : Bool :=
  match window.wireCompression with
  | .none => false
  | .lz4 => true
  | .auto => window.retainedBatches.isEmpty &&
      window.columns.all fun column => !column.chunks.isEmpty && column.chunks.all wireFrame

end EncodedIngestWindow

section Windows
variable (encoding : WindowEncoding) (budgets : IngestBudgets) (window : EncodedIngestWindow)

def shouldFinishAutomaticWindow : Bool :=
  budgets.configuredRows.isNone &&
    (decide (budgets.physicalWindowBudget ≤ window.physicalStoredBytes encoding) ||
      (window.incompressible &&
        decide (budgets.incompressibleWindowBudget ≤ window.estimatedBytes)))

def remainingStagingBytes (remainingWindowBytes : Nat) (window : EncodedIngestWindow) : Nat :=
  if budgets.configuredRows.isNone && window.incompressible then
    min (budgets.incompressibleWindowBudget - window.estimatedBytes) remainingWindowBytes
  else remainingWindowBytes

def remainingRows : Nat :=
  match budgets.configuredRows with
  | some rows => wrappingSub rows window.rows
  | none => usizeMax

def remainingBytes : Nat :=
  if budgets.configuredRows.isSome then pendingBatchCompactionMaxBytes
  else budgets.windowBudget - window.estimatedBytes

def stagingBytes : Nat :=
  min (remainingStagingBytes budgets (remainingBytes budgets window) window) encodeStagingBytes

inductive WindowTurn where
  | ends (window : EncodedIngestWindow) (scheduler : IngestWindowScheduler)
  | goes (window : EncodedIngestWindow) (scheduler : IngestWindowScheduler)

def appendStaging (scheduler : IngestWindowScheduler)
    (pending : List PendingBatch) : Except IngestError WindowTurn :=
  if pending.isEmpty then .ok (.ends window scheduler)
  else do
    let estimatedBytes ← IngestWindowScheduler.pendingTotal 0 pending
    let window ← window.append encoding scheduler.schema pending estimatedBytes
    .ok (if shouldFinishAutomaticWindow encoding budgets window then .ends window scheduler
      else .goes window scheduler)

def takeWindow (scheduler : IngestWindowScheduler) : Except IngestError WindowTurn :=
  if scheduler.pendingRows = 0 then .ok (.ends window scheduler)
  else do
    let (pending, scheduler) ← scheduler.takeStaging (remainingRows budgets window)
      (stagingBytes budgets window) (window.rows == 0)
    appendStaging encoding budgets window scheduler pending

variable (source : BatchSource)

def windowTurn (turns : Nat) (window : EncodedIngestWindow) (scheduler : IngestWindowScheduler) :
    Option (Except IngestError WindowTurn) :=
  if remainingRows budgets window = 0 ∨ remainingBytes budgets window = 0 ∨
      remainingStagingBytes budgets (remainingBytes budgets window) window = 0 then
    some (.ok (.ends window scheduler))
  else
    (scheduler.fillStaging source (remainingRows budgets window) (stagingBytes budgets window)
      turns).map fun filled => filled >>= takeWindow encoding budgets window

def closeWindow (scheduler : IngestWindowScheduler) :
    Except IngestError (Option EncodedIngestWindow × IngestWindowScheduler) :=
  if window.rows = 0 then .ok (none, scheduler)
  else (window.finish encoding).map fun window => (some window, scheduler)

def nextWindowFrom : Nat → EncodedIngestWindow → IngestWindowScheduler →
    Option (Except IngestError (Option EncodedIngestWindow × IngestWindowScheduler))
  | 0, _, _ => none
  | turns + 1, window, scheduler =>
    match windowTurn encoding budgets source turns window scheduler with
    | none => none
    | some (.error error) => some (.error error)
    | some (.ok (.ends window scheduler)) => some (closeWindow encoding window scheduler)
    | some (.ok (.goes window scheduler)) => nextWindowFrom turns window scheduler

def nextWindow (turns : Nat) (scheduler : IngestWindowScheduler) :
    Option (Except IngestError (Option EncodedIngestWindow × IngestWindowScheduler)) :=
  match EncodedIngestWindow.forSchema scheduler.schema budgets.wireCompression with
  | .error error => some (.error error)
  | .ok window => nextWindowFrom encoding budgets source turns window scheduler

end Windows

end MonetdbAdbc.Driver
