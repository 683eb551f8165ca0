import MonetdbAdbc.Read.Exportbin
import MonetdbAdbc.Library.Slices

namespace MonetdbAdbc
open LittleEndian Utf8 Machine Rows Slices

def i64FromLeBytes (bs : Bytes) : Except (Stop FrameError) Int :=
  if bs.length = 8 then .ok (ofLeBytes 64 bs).toInt else .error .panics

def readErrorMessageSlices (frame : Bytes) (offset : Nat) : Except (Stop FrameError) Bytes := do
  let message ← slice frame offset frame.length
  let finish := (message.findIdx? (· == 0)).getD message.length
  let message ← slice message 0 finish
  .ok (if message.head? = some 33 then message.tail else message)

def findErrorMessageSlices (frame : Bytes) (tocPos : Int) : Except (Stop FrameError) Bytes :=
  let messageEnd := frame.length - 8
  let offset := (-tocPos).toNat
  if tocPos ≠ -(2 ^ 63) ∧ offset < messageEnd ∧ frame[offset]? = some 33 then do
    let message ← slice frame 0 messageEnd
    readErrorMessageSlices message offset
  else .error (.fails (.malformed "invalid in-frame error offset"))

def parseHeaderSlices (frame : Bytes) : Except (Stop FrameError) (ExportbinHeader × Nat) :=
  if frame.take 3 ≠ headerPrefix then .error (.fails (.malformed "missing &6 block header"))
  else do
    let start ← slice frame 0 (min frame.length 128)
    match start.findIdx? (· == 10) with
    | none => .error (.fails (.malformed "unterminated block header"))
    | some lineEnd => do
      let line ← slice frame headerPrefix.length lineEnd
      if !valid line then .error (.fails (.malformed "block header is not UTF-8"))
      else (orFail (parseHeaderFields line)).map fun header => (header, lineEnd + 1)

def parseFrameHeaderSlices (frame : Bytes) : Except (Stop FrameError) ExportbinHeader :=
  if frame.head? = some 33 then do
    let message ← readErrorMessageSlices frame 0
    .error (.fails (.server message))
  else (parseHeaderSlices frame).map Prod.fst

def tocRangeSlices (bodyStart tocPos : Nat) (entry : Bytes) :
    Except (Stop FrameError) (Nat × Nat) := do
  let start ← i64FromLeBytes (← slice entry 0 8)
  let length ← i64FromLeBytes (← slice entry 8 entry.length)
  orFail (columnRange start length bodyStart tocPos)

def columnSlice (frame : Bytes) (range : Nat × Nat) : Except (Stop FrameError) (Nat × Bytes) :=
  (slice frame range.1 range.2).map fun bytes => (range.1, bytes)

def parseContentsSlices (frame : Bytes) (header : ExportbinHeader) (bodyStart tocPos : Nat) :
    Except (Stop FrameError) ExportbinFrame := do
  let tocLen ← orFail (okOr (.malformed "table of contents length overflows")
    (checkedMul header.columnCount tocEntrySize))
  let expectedEnd := (checkedAdd tocPos tocLen).bind fun finish => checkedAdd finish 8
  if header.columnCount > frame.length / tocEntrySize ∨ tocPos < bodyStart ∨
      expectedEnd ≠ some frame.length then
    .error (.fails (.malformed "table of contents out of bounds"))
  else do
    let toc ← slice frame tocPos (tocPos + tocLen)
    let ranges ← mapRows (fun _ entry => tocRangeSlices bodyStart tocPos entry)
      (chunksExact tocEntrySize toc)
    if overlapping (occupied ranges) then .error (.fails (.malformed "column ranges overlap"))
    else do
      let columns ← mapRows (fun _ range => columnSlice frame range) ranges
      .ok ⟨header.resultId, header.rowCount, header.startRow, columns⟩

def parseFrameSlices (frame : Bytes) : Except (Stop FrameError) ExportbinFrame :=
  if frame.head? = some 33 then do
    let message ← readErrorMessageSlices frame 0
    .error (.fails (.server message))
  else if frame.length < headerPrefix.length + 8 then
    .error (.fails (.malformed "response too short"))
  else do
    let (header, bodyStart) ← parseHeaderSlices frame
    let trailer ← slice frame (frame.length - 8) frame.length
    let tocPos ← i64FromLeBytes trailer
    if tocPos < 0 then do
      let message ← findErrorMessageSlices frame tocPos
      .error (.fails (.server message))
    else parseContentsSlices frame header bodyStart tocPos.toNat

theorem readErrorMessageSlices_eq {frame : Bytes} {offset : Nat} (h : offset ≤ frame.length) :
    readErrorMessageSlices frame offset = .ok (readErrorMessage frame offset) := by
  have htext : (slice (frame.drop offset) 0
      (((frame.drop offset).findIdx? (· == 0)).getD (frame.drop offset).length) :
        Except (Stop FrameError) Bytes) = .ok ((frame.drop offset).takeWhile (· != 0)) := by
    have hzero : (fun b : UInt8 => !(b != 0)) = (· == 0) := by
      funext b
      exact Bool.not_not _
    rw [← List.findIdx_eq_getD_findIdx?, slice_ok (Nat.zero_le _) List.findIdx_le_length,
      List.drop_zero, List.takeWhile_eq_take_findIdx_not, hzero]
  rw [readErrorMessageSlices, slice_ok h (le_refl _), List.take_length, ok_bind]
  simp only [htext, ok_bind]
  rfl

theorem findErrorMessageSlices_eq (frame : Bytes) (tocPos : Int) :
    findErrorMessageSlices frame tocPos = orFail (findErrorMessage frame tocPos) := by
  simp only [findErrorMessageSlices, findErrorMessage]
  split_ifs with hoffset
  · have hlength : (-tocPos).toNat ≤ (frame.take (frame.length - 8)).length := by
      rw [List.length_take]
      omega
    rw [slice_ok (Nat.zero_le _) (Nat.sub_le _ _), List.drop_zero, ok_bind,
      readErrorMessageSlices_eq hlength]
    rfl
  · rfl

theorem line_after_prefix {frame : Bytes} {lineEnd : Nat} (hmagic : frame.take 3 = headerPrefix)
    (hline : (frame.take 128).findIdx? (· == 10) = some lineEnd) :
    3 ≤ lineEnd ∧ lineEnd < frame.length := by
  obtain ⟨hlt, hnewline, -⟩ := List.findIdx?_eq_some_iff_getElem.mp hline
  rw [List.length_take] at hlt
  refine ⟨?_, by omega⟩
  by_contra hearly
  obtain ⟨a, b, c, rest, rfl⟩ : ∃ a b c rest, frame = a :: b :: c :: rest := by
    match frame, hmagic with
    | a :: b :: c :: rest, _ => exact ⟨a, b, c, rest, rfl⟩
    | [], h => cases h
    | [_], h => simp [headerPrefix] at h
    | [_, _], h => simp [headerPrefix] at h
  obtain ⟨rfl, rfl, rfl⟩ : a = 38 ∧ b = 54 ∧ c = 32 := by simpa [headerPrefix] using hmagic
  interval_cases lineEnd <;> simp at hnewline

theorem parseHeaderSlices_eq (frame : Bytes) :
    parseHeaderSlices frame = orFail (parseHeader frame) := by
  rw [parseHeaderSlices, parseHeader]
  by_cases hmagic : frame.take 3 ≠ headerPrefix
  · rw [if_pos hmagic, if_pos hmagic]
    rfl
  · rw [if_neg hmagic, if_neg hmagic, slice_ok (Nat.zero_le _) (Nat.min_le_left _ _), List.drop_zero,
      ok_bind, Nat.min_comm, ← List.take_eq_take_min]
    cases hline : (frame.take 128).findIdx? (· == 10) with
    | none => rfl
    | some lineEnd =>
      obtain ⟨hstart, hend⟩ := line_after_prefix (by simpa using hmagic) hline
      have hslice : (slice frame headerPrefix.length lineEnd : Except (Stop FrameError) Bytes) =
          .ok ((frame.take lineEnd).drop 3) := slice_ok hstart hend.le
      simp only [hslice, ok_bind, orFail_ite, orFail_map, orFail_error]

theorem parseFrameHeaderSlices_eq (frame : Bytes) :
    parseFrameHeaderSlices frame = orFail (parseFrameHeader frame) := by
  rw [parseFrameHeaderSlices, parseFrameHeader, orFail_ite, orFail_map, parseHeaderSlices_eq,
    readErrorMessageSlices_eq (Nat.zero_le _)]
  rfl

theorem tocRangeSlices_eq {bodyStart tocPos : Nat} {entry : Bytes} (h : entry.length = 16) :
    tocRangeSlices bodyStart tocPos entry = orFail (tocRange bodyStart tocPos entry) := by
  have hstart : (entry.take 8).length = 8 := by simp [h]
  have hlength : (entry.drop 8).length = 8 := by simp [h]
  rw [tocRangeSlices, slice_ok (Nat.zero_le _) (by omega), slice_ok (by omega) (le_refl _),
    List.drop_zero, List.take_length, ok_bind, i64FromLeBytes, if_pos hstart, ok_bind, ok_bind,
    i64FromLeBytes, if_pos hlength]
  rfl

theorem columnRange_inside {start length : Int} {bodyStart tocPos : Nat} {range : Nat × Nat}
    (h : columnRange start length bodyStart tocPos = .ok range) :
    start = range.1 ∧ length = (range.2 - range.1 : Nat) ∧ bodyStart ≤ range.1 ∧
      range.1 ≤ range.2 ∧ range.2 ≤ tocPos := by
  rw [columnRange] at h
  split_ifs at h with hnegative
  cases hadd : checkedAdd start.toNat length.toNat with
  | none => simp [hadd] at h
  | some finish =>
    obtain ⟨-, rfl⟩ := checkedAdd_eq_some.mp hadd
    simp only [hadd] at h
    split_ifs at h with hbounds
    cases h
    omega

theorem parseContentsSlices_eq (frame : Bytes) (header : ExportbinHeader) (bodyStart tocPos : Nat) :
    parseContentsSlices frame header bodyStart tocPos =
      orFail (parseContents frame header bodyStart tocPos) := by
  rw [parseContentsSlices, parseContents, orFail_bind]
  cases okOr (FrameError.malformed "table of contents length overflows")
    (checkedMul header.columnCount tocEntrySize) with
  | error e => rfl
  | ok tocLen =>
    simp only [orFail_ok, ok_bind, orFail_ite, orFail_bind, orFail_error]
    refine if_ctx_congr Iff.rfl (fun _ => rfl) fun hplaced => ?_
    push Not at hplaced
    obtain ⟨-, -, hend⟩ := hplaced
    obtain ⟨finish, hfinish, hlength⟩ := Option.bind_eq_some_iff.mp hend
    obtain ⟨-, rfl⟩ := checkedAdd_eq_some.mp hfinish
    obtain ⟨-, hlength⟩ := checkedAdd_eq_some.mp hlength
    have htoc : (slice frame tocPos (tocPos + tocLen) : Except (Stop FrameError) Bytes) =
        .ok ((frame.drop tocPos).take tocLen) := by
      rw [slice_ok (Nat.le_add_right _ _) (by omega), List.drop_take, Nat.add_sub_cancel_left]
    have hranges : mapRows (fun _ entry => tocRangeSlices bodyStart tocPos entry)
          (chunksExact tocEntrySize ((frame.drop tocPos).take tocLen)) =
        orFail (mapRows (fun _ entry => tocRange bodyStart tocPos entry)
          (chunksExact tocEntrySize ((frame.drop tocPos).take tocLen))) :=
      mapFrom_orFail (fun _ entry hentry => tocRangeSlices_eq (chunksExact_length _ entry hentry)) 0
    rw [htoc, ok_bind, hranges]
    cases hmapped : mapRows (fun _ entry => tocRange bodyStart tocPos entry)
        (chunksExact tocEntrySize ((frame.drop tocPos).take tocLen)) with
    | error e => rfl
    | ok ranges =>
      have hinside : ∀ range ∈ ranges, range.1 ≤ range.2 ∧ range.2 ≤ tocPos :=
        mapFrom_pieces (fun _ _ range h => (columnRange_inside h).2.2.2) hmapped
      have hcolumns : mapRows (fun _ range => columnSlice frame range) ranges =
          .ok (ranges.map (columnBytes frame)) := by
        refine mapFrom_ok_of_forall (fun _ range hrange => ?_) 0
        obtain ⟨hle, hbound⟩ := hinside range hrange
        rw [columnSlice, slice_ok hle (by omega)]
        rfl
      rw [orFail_ok, ok_bind, ok_bind, hcolumns]
      rfl

theorem parseFrameSlices_eq (frame : Bytes) :
    parseFrameSlices frame = orFail (parseFrame frame) := by
  rw [parseFrameSlices, parseFrame, orFail_ite, orFail_ite, readErrorMessageSlices_eq (Nat.zero_le _),
    parseHeaderSlices_eq]
  refine if_ctx_congr Iff.rfl (fun _ => rfl) fun _ => ?_
  refine if_ctx_congr Iff.rfl (fun _ => rfl) fun hlong => ?_
  have hlong : 8 ≤ frame.length := by
    have hbegins : headerPrefix.length = 3 := rfl
    omega
  have htrailer : (frame.drop (frame.length - 8)).length = 8 := by
    rw [List.length_drop]
    omega
  rw [orFail_bind]
  cases parseHeader frame with
  | error e => rfl
  | ok parsed =>
    obtain ⟨header, bodyStart⟩ := parsed
    have hslice : (slice frame (frame.length - 8) frame.length : Except (Stop FrameError) Bytes) =
        .ok (frame.drop (frame.length - 8)) := by
      rw [slice_ok (Nat.sub_le _ _) (le_refl _), List.take_length]
    simp only [orFail_ok, ok_bind, hslice, i64FromLeBytes, if_pos htrailer,
      findErrorMessageSlices_eq, parseContentsSlices_eq, orFail_ite, orFail_bind, orFail_error]

end MonetdbAdbc
