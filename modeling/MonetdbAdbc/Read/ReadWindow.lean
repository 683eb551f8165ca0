import MonetdbAdbc.Read.FrameDecode

namespace MonetdbAdbc
open Machine

def exportGranuleRows : Nat := 131072

def variableReadColumnBytes : Nat := 1024

def initialVariableReadRows : Nat := 1

def maxReadWindowGrowth : Nat := 4

section Capacity

def ownedCapacityFrom (rows : Nat) : Nat → List ResultColumn → Option Nat
  | capacity, [] => some capacity
  | capacity, column :: columns => do
    let width ← fixedWireWidth column.sqlType
    let capacity ← checkedAdd capacity 31
    let bytes ← checkedMul rows width
    let capacity ← checkedAdd capacity bytes
    ownedCapacityFrom rows capacity columns

def ownedFrameCapacity (columns : List ResultColumn) (rows : Nat) : Option Nat := do
  let capacity ← ownedCapacityFrom rows 128 columns
  let capacity ← checkedAdd capacity 31
  let entries ← checkedMul columns.length 16
  let capacity ← checkedAdd capacity entries
  checkedAdd capacity 8

def estimatedFrameBytesPerRow (columns : List ResultColumn) (variableValueBytes : Nat) : Nat :=
  columns.foldl (fun total column =>
    let width := (fixedWireWidth column.sqlType).getD
      (saturatingAdd variableValueBytes (if column.sqlType = .blob then 8 else 1))
    saturatingAdd total width) 0

end Capacity

structure ReadWindowScheduler where
  exactBatchRows : Option Nat
  windowBudgetBytes : Nat
  fullGranuleFits : Bool
  estimatedBytesPerRow : Nat
  initialRowsLimit : Option Nat
  previousRows : Option Nat
  observedRows : Nat
  exact_pos : ∀ rows, exactBatchRows = some rows → 0 < rows
  estimated_pos : 0 < estimatedBytesPerRow

namespace ReadWindowScheduler

def new (columns : List ResultColumn) (batchRows windowBudgetBytes : Nat) :
    ReadWindowScheduler where
  exactBatchRows := if batchRows > 0 then some batchRows else none
  windowBudgetBytes := windowBudgetBytes
  fullGranuleFits := (ownedFrameCapacity columns exportGranuleRows).any (· ≤ windowBudgetBytes)
  estimatedBytesPerRow := max (estimatedFrameBytesPerRow columns variableReadColumnBytes) 1
  initialRowsLimit :=
    if (ownedFrameCapacity columns 1).isNone then some initialVariableReadRows else none
  previousRows := none
  observedRows := 0
  exact_pos := by
    intro rows h
    split_ifs at h with hpos
    exact Option.some.inj h ▸ hpos
  estimated_pos := by omega

def exportAlignmentRows (target : Nat) : Nat := 2 ^ (max 1 (min target exportGranuleRows)).log2

def adaptiveRows (s : ReadWindowScheduler) : Nat :=
  let target := max (max (s.windowBudgetBytes / s.estimatedBytesPerRow) 1)
    (if s.fullGranuleFits then exportGranuleRows else 1)
  let target :=
    match s.previousRows with
    | none => min target (s.initialRowsLimit.getD usizeMax)
    | some previous => min target (saturatingMul previous maxReadWindowGrowth)
  let alignment := exportAlignmentRows target
  let targetEnd := saturatingAdd s.observedRows target
  let alignedEnd := targetEnd - targetEnd % alignment
  max (alignedEnd - s.observedRows) 1

def requestedRows (s : ReadWindowScheduler) (remaining : Nat) : Nat :=
  let remaining := min remaining usizeMax
  match s.exactBatchRows with
  | some exact => min exact remaining
  | none => min s.adaptiveRows remaining

def nextRows (s : ReadWindowScheduler) (remaining : Nat) : Nat × ReadWindowScheduler :=
  let rows := s.requestedRows remaining
  (rows, { s with previousRows := some rows })

def observe (s : ReadWindowScheduler) (bytes rows : Nat) : ReadWindowScheduler :=
  let s := { s with observedRows := saturatingAdd s.observedRows rows }
  if s.exactBatchRows = none ∧ rows > 0 then
    { s with
      estimatedBytesPerRow := max (saturatingAdd bytes (rows - 1) / rows) 1
      estimated_pos := by omega }
  else s

theorem requestedRows_le (s : ReadWindowScheduler) (remaining : Nat) :
    s.requestedRows remaining ≤ remaining := by
  simp only [requestedRows]
  cases s.exactBatchRows <;> simp only <;> omega

theorem requestedRows_addressable (s : ReadWindowScheduler) (remaining : Nat) :
    s.requestedRows remaining ≤ usizeMax := by
  simp only [requestedRows]
  cases s.exactBatchRows <;> simp only <;> omega

theorem requestedRows_pos (s : ReadWindowScheduler) {remaining : Nat} (h : 0 < remaining) :
    0 < s.requestedRows remaining := by
  have hmin : 0 < min remaining usizeMax := by
    simp only [usizeMax]
    omega
  simp only [requestedRows]
  cases hexact : s.exactBatchRows with
  | some exact =>
    have := s.exact_pos exact hexact
    simp only
    omega
  | none =>
    have : 1 ≤ s.adaptiveRows := by
      simp only [adaptiveRows]
      omega
    simp only
    omega

end ReadWindowScheduler

end MonetdbAdbc
