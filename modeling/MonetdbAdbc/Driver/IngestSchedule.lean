import MonetdbAdbc.Driver.RecordBatch
import MonetdbAdbc.Library.Bisection

namespace MonetdbAdbc.Driver
open Machine Bisection

def pendingBatchCompactionFanout : Nat := 32

def pendingBatchCompactionMaxBytes : Nat := 16 * 1024 * 1024

structure PendingBatch where
  batch : RecordBatch
  estimatedBytes : Nat
  compactionLevel : Nat

-- The record batch stream, and what arrow does with batches.
structure BatchSource where
  next : Nat → Option (Except IngestError RecordBatch)
  validateRecordBatch : RecordBatch → Except IngestError Unit
  concatBatches : List Field → List RecordBatch → Except IngestError RecordBatch

structure IngestWindowScheduler where
  schema : List Field
  position : Nat
  pending : List PendingBatch
  pendingRows : Nat
  pendingBytes : Nat
  exhausted : Bool
  inputBatches : Nat
  splitWindows : Nat

-- An addition to a usize counter in a release build.
def wrappingAdd (a b : Nat) : Nat := (a + b) % 2 ^ 64

namespace IngestWindowScheduler

def new (schema : List Field) : IngestWindowScheduler := ⟨schema, 0, [], 0, 0, false, 0, 0⟩

def popFront (scheduler : IngestWindowScheduler) : Option (PendingBatch × IngestWindowScheduler) :=
  match scheduler.pending with
  | [] => none
  | front :: rest => some (front, { scheduler with
      pending := rest
      pendingRows := wrappingSub scheduler.pendingRows front.batch.rows
      pendingBytes := wrappingSub scheduler.pendingBytes front.estimatedBytes })

def pushFront (scheduler : IngestWindowScheduler) (pending : PendingBatch) : IngestWindowScheduler :=
  { scheduler with
    pending := pending :: scheduler.pending
    pendingRows := wrappingAdd scheduler.pendingRows pending.batch.rows
    pendingBytes := wrappingAdd scheduler.pendingBytes pending.estimatedBytes }

def pushBack (scheduler : IngestWindowScheduler) (pending : PendingBatch) : IngestWindowScheduler :=
  { scheduler with
    pending := scheduler.pending ++ [pending]
    pendingRows := wrappingAdd scheduler.pendingRows pending.batch.rows
    pendingBytes := wrappingAdd scheduler.pendingBytes pending.estimatedBytes }

def rowsWithinBudget (scheduler : IngestWindowScheduler) (batch : RecordBatch) (budget : Nat) :
    Except IngestError Nat :=
  bisect .stuck (fun middle =>
    (estimatedBatchSize scheduler.schema (batch.slice 0 middle)).map fun bytes => bytes ≤ budget)
    batch.rows 0 batch.rows

def splitPending (scheduler : IngestWindowScheduler) (pending : PendingBatch) (rows : Nat) :
    Except IngestError (PendingBatch × PendingBatch) :=
  if pending.batch.rows < rows then .error .overflow
  else do
    let front := pending.batch.slice 0 rows
    let remainder := pending.batch.slice rows (pending.batch.rows - rows)
    let frontBytes ← estimatedBatchSize scheduler.schema front
    let remainderBytes ← okOr
      (.adbc (adbcError "pending ingest byte count underflows" .internal))
      (if frontBytes ≤ pending.estimatedBytes then some (pending.estimatedBytes - frontBytes)
        else none)
    .ok (⟨front, frontBytes, pending.compactionLevel⟩,
      ⟨remainder, remainderBytes, pending.compactionLevel⟩)

def pendingTotal : Nat → List PendingBatch → Except IngestError Nat
  | total, [] => .ok total
  | total, pending :: rest => do
    let total ← okOr (.adbc (adbcError "pending ingest byte count overflows" .internal))
      (checkedAdd total pending.estimatedBytes)
    pendingTotal total rest

section Source
variable (source : BatchSource)

def lastLevel (pending : List PendingBatch) : Nat :=
  (pending.getLast?.map PendingBatch.compactionLevel).getD 0

def compactOnce (scheduler : IngestWindowScheduler) :
    Except IngestError (Option IngestWindowScheduler) :=
  let kept := scheduler.pending.length - pendingBatchCompactionFanout
  let recent := scheduler.pending.drop kept
  let level := lastLevel scheduler.pending
  if scheduler.pending.length < pendingBatchCompactionFanout then .ok none
  else if !recent.all (·.compactionLevel == level) then .ok none
  else do
    let estimatedBytes ← pendingTotal 0 recent.reverse
    if estimatedBytes > pendingBatchCompactionMaxBytes then .ok none
    else do
      let batch ← source.concatBatches scheduler.schema (recent.map PendingBatch.batch)
      .ok (some { scheduler with
        pending := scheduler.pending.take kept ++ [⟨batch, estimatedBytes, level + 1⟩] })

def compactFrom : Nat → IngestWindowScheduler → Except IngestError IngestWindowScheduler
  | 0, _ => .error .stuck
  | fuel + 1, scheduler => do
    match ← compactOnce source scheduler with
    | none => .ok scheduler
    | some next => compactFrom fuel next

def compactPendingBatches (scheduler : IngestWindowScheduler) :
    Except IngestError IngestWindowScheduler :=
  compactFrom source (scheduler.pending.length + 1) scheduler

def acceptBatch (scheduler : IngestWindowScheduler) (batch : RecordBatch) :
    Except IngestError IngestWindowScheduler := do
  source.validateRecordBatch batch
  if batch.schema ≠ scheduler.schema then
    .error (.adbc (adbcError "record batch schema changed within ingest stream" .invalidData))
  else if batch.rows = 0 then .ok scheduler
  else do
    let estimatedBytes ← estimatedBatchSize scheduler.schema batch
    compactPendingBatches source (scheduler.pushBack ⟨batch, estimatedBytes, 0⟩)

def readBatch (scheduler : IngestWindowScheduler) : Except IngestError IngestWindowScheduler :=
  let advanced := { scheduler with position := scheduler.position + 1 }
  match source.next scheduler.position with
  | none => .ok { advanced with exhausted := true }
  | some (.error error) => .error error
  | some (.ok batch) =>
    acceptBatch source { advanced with inputBatches := wrappingAdd scheduler.inputBatches 1 } batch

-- Nothing bounds the loop of fill_staging but the stream: none means it has not ended yet.
def fillStaging (desiredRows desiredBytes : Nat) :
    Nat → IngestWindowScheduler → Option (Except IngestError IngestWindowScheduler)
  | turns, scheduler =>
    if scheduler.pendingRows < desiredRows ∧ scheduler.pendingBytes < desiredBytes ∧
        scheduler.exhausted = false then
      match turns with
      | 0 => none
      | turns + 1 =>
        match readBatch source scheduler with
        | .error error => some (.error error)
        | .ok scheduler => fillStaging desiredRows desiredBytes turns scheduler
    else some (.ok scheduler)

end Source

def rowsByBytes (scheduler : IngestWindowScheduler) (pending : PendingBatch)
    (remainingBytes : Nat) : Except IngestError Nat :=
  if pending.estimatedBytes ≤ remainingBytes then .ok pending.batch.rows
  else scheduler.rowsWithinBudget pending.batch remainingBytes

def selectRows (scheduler : IngestWindowScheduler) (pending : PendingBatch) (rows : Nat) :
    Except IngestError (PendingBatch × IngestWindowScheduler) :=
  if rows = pending.batch.rows then .ok (pending, scheduler)
  else (scheduler.splitPending pending rows).map fun parts =>
    (parts.1, { scheduler.pushFront parts.2 with
      splitWindows := wrappingAdd scheduler.splitWindows 1 })

-- One turn of the loop in take_staging: it stops, or it takes rows from the front of the queue.
inductive TakeTurn where
  | stop (scheduler : IngestWindowScheduler)
  | took (selected : PendingBatch) (scheduler : IngestWindowScheduler)

def takeOnce (scheduler : IngestWindowScheduler) (remainingRows remainingBytes : Nat)
    (allowOversizedRow : Bool) (staging : List PendingBatch) : Except IngestError TakeTurn :=
  match scheduler.popFront with
  | none => .ok (.stop scheduler)
  | some (pending, popped) => do
    let byBytes ← popped.rowsByBytes pending remainingBytes
    if min byBytes remainingRows = 0 ∧ (staging.isEmpty = false ∨ allowOversizedRow = false) then
      .ok (.stop (popped.pushFront pending))
    else
      (popped.selectRows pending (max (min byBytes remainingRows) 1)).map fun taken =>
        .took taken.1 taken.2

def takeFrom : Nat → IngestWindowScheduler → Nat → Nat → Bool → List PendingBatch →
    Except IngestError (List PendingBatch × IngestWindowScheduler)
  | 0, scheduler, remainingRows, _, _, staging =>
    if remainingRows = 0 then .ok (staging, scheduler) else .error .stuck
  | fuel + 1, scheduler, remainingRows, remainingBytes, allowOversizedRow, staging =>
    if remainingRows = 0 then .ok (staging, scheduler)
    else do
      match ← takeOnce scheduler remainingRows remainingBytes allowOversizedRow staging with
      | .stop scheduler => .ok (staging, scheduler)
      | .took selected scheduler =>
        if remainingBytes - selected.estimatedBytes = 0 then .ok (staging ++ [selected], scheduler)
        else
          takeFrom fuel scheduler (wrappingSub remainingRows selected.batch.rows)
            (remainingBytes - selected.estimatedBytes) allowOversizedRow (staging ++ [selected])

def takeStaging (scheduler : IngestWindowScheduler) (targetRows targetBytes : Nat)
    (allowOversizedRow : Bool) :
    Except IngestError (List PendingBatch × IngestWindowScheduler) :=
  takeFrom targetRows scheduler targetRows targetBytes allowOversizedRow []

end IngestWindowScheduler

end MonetdbAdbc.Driver
