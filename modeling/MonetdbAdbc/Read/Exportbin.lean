import MonetdbAdbc.Wire
import MonetdbAdbc.Library.AsciiNumber
import MonetdbAdbc.Library.Rows
import Mathlib.Data.List.Sort

namespace MonetdbAdbc
open LittleEndian Utf8 Machine Rows AsciiNumber

structure ExportbinHeader where
  resultId : Int
  columnCount : Nat
  rowCount : Nat
  startRow : Nat
  deriving DecidableEq, Repr

structure ExportbinFrame where
  resultId : Int
  rowCount : Nat
  startRow : Nat
  columns : List (Nat × Bytes)
  deriving DecidableEq, Repr

def readErrorMessage (frame : Bytes) (offset : Nat) : Bytes :=
  let message := (frame.drop offset).takeWhile (· != 0)
  if message.head? = some 33 then message.tail else message

def findErrorMessage (frame : Bytes) (tocPos : Int) : Except FrameError Bytes :=
  let messageEnd := frame.length - 8
  let offset := (-tocPos).toNat
  if tocPos ≠ -(2 ^ 63) ∧ offset < messageEnd ∧ frame[offset]? = some 33 then
    .ok (readErrorMessage (frame.take messageEnd) offset)
  else .error (.malformed "invalid in-frame error offset")

section Header

def headerPrefix : Bytes := [38, 54, 32]

def nextField : List Bytes → Except FrameError (Bytes × List Bytes)
  | [] => .error (.malformed "block header has too few fields")
  | field :: fields => .ok (field, fields)

def parseInt {α : Type} (parse : Bytes → Option α) (field : Bytes) : Except FrameError α :=
  okOr (.malformed "block header field is not a number") (parse field)

def parseHeaderFields (line : Bytes) : Except FrameError ExportbinHeader := do
  let fields := splitAsciiWhitespace line
  let (field, fields) ← nextField fields
  let resultId ← parseInt (parseSigned 64) field
  let (field, fields) ← nextField fields
  let columnCount ← parseInt (parseUnsigned 64) field
  let (field, fields) ← nextField fields
  let rowCount ← parseInt (parseUnsigned 64) field
  let (field, _) ← nextField fields
  let startRow ← parseInt (parseUnsigned 64) field
  .ok ⟨resultId, columnCount, rowCount, startRow⟩

def parseHeader (frame : Bytes) : Except FrameError (ExportbinHeader × Nat) :=
  if frame.take 3 ≠ headerPrefix then .error (.malformed "missing &6 block header")
  else
    match (frame.take 128).findIdx? (· == 10) with
    | none => .error (.malformed "unterminated block header")
    | some lineEnd =>
      let line := (frame.take lineEnd).drop 3
      if !valid line then .error (.malformed "block header is not UTF-8")
      else (parseHeaderFields line).map fun header => (header, lineEnd + 1)

def parseFrameHeader (frame : Bytes) : Except FrameError ExportbinHeader :=
  if frame.head? = some 33 then .error (.server (readErrorMessage frame 0))
  else (parseHeader frame).map Prod.fst

end Header

section Contents

def tocEntrySize : Nat := 16

def columnRange (start length : Int) (bodyStart tocPos : Nat) : Except FrameError (Nat × Nat) :=
  if start < 0 ∨ length < 0 then .error (.malformed "negative column offset")
  else
    match checkedAdd start.toNat length.toNat with
    | none => .error (.malformed "column extent overflows")
    | some finish =>
      if start.toNat < bodyStart ∨ finish > tocPos then
        .error (.malformed "column data out of bounds")
      else .ok (start.toNat, finish)

def tocRange (bodyStart tocPos : Nat) (entry : Bytes) : Except FrameError (Nat × Nat) :=
  columnRange (ofLeBytes 64 (entry.take 8)).toInt (ofLeBytes 64 (entry.drop 8)).toInt bodyStart
    tocPos

def overlapping : List (Nat × Nat) → Bool
  | first :: second :: rest => first.2 > second.1 || overlapping (second :: rest)
  | _ => false

def occupied (ranges : List (Nat × Nat)) : List (Nat × Nat) :=
  (ranges.filter fun range => range.1 < range.2).insertionSort fun a b => a.1 ≤ b.1

def columnBytes (frame : Bytes) (range : Nat × Nat) : Nat × Bytes :=
  (range.1, (frame.take range.2).drop range.1)

def parseContents (frame : Bytes) (header : ExportbinHeader) (bodyStart tocPos : Nat) :
    Except FrameError ExportbinFrame := do
  let tocLen ← okOr (.malformed "table of contents length overflows")
    (checkedMul header.columnCount tocEntrySize)
  let expectedEnd := (checkedAdd tocPos tocLen).bind fun finish => checkedAdd finish 8
  if header.columnCount > frame.length / tocEntrySize ∨ tocPos < bodyStart ∨
      expectedEnd ≠ some frame.length then
    .error (.malformed "table of contents out of bounds")
  else
    let toc := (frame.drop tocPos).take tocLen
    let ranges ← mapRows (fun _ entry => tocRange bodyStart tocPos entry)
      (chunksExact tocEntrySize toc)
    if overlapping (occupied ranges) then .error (.malformed "column ranges overlap")
    else .ok ⟨header.resultId, header.rowCount, header.startRow, ranges.map (columnBytes frame)⟩

def parseFrame (frame : Bytes) : Except FrameError ExportbinFrame :=
  if frame.head? = some 33 then .error (.server (readErrorMessage frame 0))
  else if frame.length < headerPrefix.length + 8 then .error (.malformed "response too short")
  else do
    let (header, bodyStart) ← parseHeader frame
    let tocPos := (ofLeBytes 64 (frame.drop (frame.length - 8))).toInt
    if tocPos < 0 then
      let message ← findErrorMessage frame tocPos
      .error (.server message)
    else parseContents frame header bodyStart tocPos.toNat

end Contents

theorem parseContents_ok {frame : Bytes} {header : ExportbinHeader} {bodyStart tocPos : Nat}
    {parsed : ExportbinFrame} (h : parseContents frame header bodyStart tocPos = .ok parsed) :
    parsed.resultId = header.resultId ∧ parsed.rowCount = header.rowCount ∧
      parsed.startRow = header.startRow := by
  simp only [parseContents, bind_eq_ok] at h
  obtain ⟨tocLen, -, h⟩ := h
  split_ifs at h
  simp only [bind_eq_ok] at h
  obtain ⟨ranges, -, h⟩ := h
  split_ifs at h
  simp only [Except.ok.injEq] at h
  subst h
  exact ⟨rfl, rfl, rfl⟩

theorem parseFrame_header {frame : Bytes} {parsed : ExportbinFrame}
    (h : parseFrame frame = .ok parsed) :
    ∃ header, parseFrameHeader frame = .ok header ∧ parsed.resultId = header.resultId ∧
      parsed.rowCount = header.rowCount ∧ parsed.startRow = header.startRow := by
  simp only [parseFrame] at h
  split_ifs at h with hserver hshort htoc
  · simp [bind_eq_ok] at h
  · simp only [bind_eq_ok] at h
    obtain ⟨⟨header, bodyStart⟩, hheader, h⟩ := h
    exact ⟨header, by simp [parseFrameHeader, hserver, hheader, Except.map], parseContents_ok h⟩

end MonetdbAdbc
