import MonetdbAdbc.Read.FrameSlices
import Mathlib.Order.CompletePartialOrder

namespace MonetdbAdbc
open LittleEndian Utf8 Machine Rows AsciiNumber Slices

structure HeaderFields (line : Bytes) (header : ExportbinHeader) : Prop where
  fields : ∃ resultId columnCount rowCount startRow others,
    splitAsciiWhitespace line = resultId :: columnCount :: rowCount :: startRow :: others ∧
    parseSigned 64 resultId = some header.resultId ∧
    parseUnsigned 64 columnCount = some header.columnCount ∧
    parseUnsigned 64 rowCount = some header.rowCount ∧
    parseUnsigned 64 startRow = some header.startRow

structure HeaderLine (frame line : Bytes) (header : ExportbinHeader) : Prop where
  begins : headerPrefix ++ line ++ [10] <+: frame
  single : 10 ∉ line
  short : (headerPrefix ++ line ++ [10]).length ≤ 128
  utf8 : valid line = true
  fields : HeaderFields line header

def tocEntry (range : Nat × Nat) : Bytes :=
  leBytes (BitVec.ofNat 64 range.1) ++ leBytes (BitVec.ofNat 64 (range.2 - range.1))

structure WellFormed (frame line : Bytes) (header : ExportbinHeader) (tocPos : Nat)
    (ranges : List (Nat × Nat)) : Prop where
  header_line : HeaderLine frame line header
  columns : ranges.length = header.columnCount
  trailer : frame.drop tocPos = ranges.flatMap tocEntry ++ leBytes (BitVec.ofNat 64 tocPos)
  after_header : (headerPrefix ++ line ++ [10]).length ≤ tocPos
  size : tocPos + 16 * header.columnCount + 8 = frame.length
  inside : ∀ range ∈ ranges, (headerPrefix ++ line ++ [10]).length ≤ range.1 ∧
    range.1 ≤ range.2 ∧ range.2 ≤ tocPos
  disjoint : (ranges.filter fun range => range.1 < range.2).Pairwise fun a b =>
    Disjoint (Set.Ico a.1 a.2) (Set.Ico b.1 b.2)

def frameOf (frame : Bytes) (header : ExportbinHeader) (ranges : List (Nat × Nat)) :
    ExportbinFrame :=
  ⟨header.resultId, header.rowCount, header.startRow, ranges.map (columnBytes frame)⟩

section Overlap

theorem overlapping_eq_false {ranges : List (Nat × Nat)} (h : ∀ range ∈ ranges, range.1 < range.2) :
    overlapping ranges = false ↔ ranges.Pairwise fun a b => a.2 ≤ b.1 := by
  induction ranges with
  | nil => simp [overlapping]
  | cons first ranges ih =>
    have hrest := ih fun range hrange => h range (List.mem_cons_of_mem first hrange)
    cases ranges with
    | nil => simp [overlapping]
    | cons second rest =>
      have hsecond := h second (by simp)
      rw [overlapping, Bool.or_eq_false_iff, hrest, decide_eq_false_iff_not]
      constructor
      · rintro ⟨hfirst, hsorted⟩
        refine List.pairwise_cons.mpr ⟨fun range hrange => ?_, hsorted⟩
        rcases List.mem_cons.mp hrange with rfl | hrange
        · omega
        · have hafter := (List.pairwise_cons.mp hsorted).1 range hrange
          omega
      · intro hsorted
        obtain ⟨hfirst, hsorted⟩ := List.pairwise_cons.mp hsorted
        have hafter := hfirst second List.mem_cons_self
        exact ⟨by omega, hsorted⟩

theorem disjoint_ranges_iff {a b : Nat × Nat} (hb : b.1 < b.2) (hab : a.1 ≤ b.1) :
    Disjoint (Set.Ico a.1 a.2) (Set.Ico b.1 b.2) ↔ a.2 ≤ b.1 := by
  rw [Set.Ico_disjoint_Ico]
  omega

theorem occupied_disjoint_iff (ranges : List (Nat × Nat)) :
    overlapping (occupied ranges) = false ↔
      (ranges.filter fun range => range.1 < range.2).Pairwise fun a b =>
        Disjoint (Set.Ico a.1 a.2) (Set.Ico b.1 b.2) := by
  have hperm : (occupied ranges).Perm (ranges.filter fun range => range.1 < range.2) :=
    List.perm_insertionSort _ _
  have hoccupied : ∀ range ∈ occupied ranges, range.1 < range.2 := by
    intro range hrange
    simpa using (List.mem_filter.mp (hperm.subset hrange)).2
  have : Std.Total fun a b : Nat × Nat => a.1 ≤ b.1 := ⟨fun a b => Nat.le_total a.1 b.1⟩
  have : IsTrans (Nat × Nat) fun a b => a.1 ≤ b.1 := ⟨fun _ _ _ => Nat.le_trans⟩
  have hsorted : (occupied ranges).Pairwise fun a b => a.1 ≤ b.1 := List.pairwise_insertionSort _ _
  rw [overlapping_eq_false hoccupied, ← hperm.pairwise_iff fun h => h.symm]
  constructor
  · intro hpairwise
    refine (hpairwise.and hsorted).imp_of_mem fun _ hb ⟨hle, hstart⟩ => ?_
    exact (disjoint_ranges_iff (hoccupied _ hb) hstart).mpr hle
  · intro hpairwise
    refine (hpairwise.and hsorted).imp_of_mem fun _ hb ⟨hdisjoint, hstart⟩ => ?_
    exact (disjoint_ranges_iff (hoccupied _ hb) hstart).mp hdisjoint

end Overlap

section Header

theorem parseInt_eq_ok {α : Type} {parse : Bytes → Option α} {field : Bytes} {value : α} :
    parseInt parse field = .ok value ↔ parse field = some value := okOr_eq_ok

theorem nextField_eq_ok {fields : List Bytes} {next : Bytes × List Bytes} :
    nextField fields = .ok next ↔ fields = next.1 :: next.2 := by
  cases fields with
  | nil => simp [nextField]
  | cons field fields =>
    obtain ⟨head, tail⟩ := next
    simp [nextField]

theorem parseHeaderFields_eq_ok {line : Bytes} {header : ExportbinHeader} :
    parseHeaderFields line = .ok header ↔ HeaderFields line header := by
  simp only [parseHeaderFields, bind_eq_ok, parseInt_eq_ok, nextField_eq_ok, Prod.exists]
  constructor
  · rintro ⟨f₁, r₁, h₁, id, hid, f₂, r₂, h₂, columns, hcolumns, f₃, r₃, h₃, rows, hrows, f₄, r₄, h₄,
      start, hstart, hheader⟩
    cases hheader
    exact ⟨f₁, f₂, f₃, f₄, r₄, by rw [h₁, h₂, h₃, h₄], hid, hcolumns, hrows, hstart⟩
  · rintro ⟨f₁, f₂, f₃, f₄, r₄, hsplit, hid, hcolumns, hrows, hstart⟩
    exact ⟨f₁, _, hsplit, _, hid, f₂, _, rfl, _, hcolumns, f₃, _, rfl, _, hrows, f₄, _, rfl, _,
      hstart, rfl⟩

theorem newline_index {line rest : Bytes} (hsingle : 10 ∉ line)
    (hshort : (headerPrefix ++ line ++ [10]).length ≤ 128) :
    ((headerPrefix ++ line ++ [10] ++ rest).take 128).findIdx? (· == 10) =
      some (headerPrefix ++ line).length := by
  have hnone : (headerPrefix ++ line).findIdx? (· == 10) = none := by
    rw [List.findIdx?_eq_none_iff]
    intro b hb
    rcases List.mem_append.mp hb with hb | hb
    · have hbegins : ∀ b ∈ headerPrefix, (b == 10) = false := by simp [headerPrefix]
      exact hbegins b hb
    · simpa using fun heq : b = 10 => hsingle (heq ▸ hb)
  rw [List.take_append, List.take_of_length_le hshort, List.append_assoc, List.findIdx?_append, hnone,
    List.singleton_append, List.findIdx?_cons]
  simp

theorem parseHeader_eq_ok {frame : Bytes} {header : ExportbinHeader} {bodyStart : Nat} :
    parseHeader frame = .ok (header, bodyStart) ↔ ∃ line, HeaderLine frame line header ∧
      bodyStart = (headerPrefix ++ line ++ [10]).length := by
  constructor
  · intro h
    rw [parseHeader] at h
    split_ifs at h with hmagic
    rw [not_not] at hmagic
    cases hfound : (frame.take 128).findIdx? (· == 10) with
    | none => simp [hfound] at h
    | some lineEnd =>
      simp only [hfound] at h
      split_ifs at h with hvalid
      obtain ⟨hstart, hend⟩ := line_after_prefix hmagic hfound
      obtain ⟨hlt, hnewline, hbefore⟩ := List.findIdx?_eq_some_iff_getElem.mp hfound
      have hline : headerPrefix ++ (frame.take lineEnd).drop 3 = frame.take lineEnd := by
        have hmagic : (frame.take lineEnd).take 3 = headerPrefix := by
          rw [List.take_take, Nat.min_eq_left hstart, hmagic]
        rw [← hmagic, List.take_append_drop]
      have hlength : (headerPrefix ++ (frame.take lineEnd).drop 3 ++ [10]).length = lineEnd + 1 := by
        rw [hline, List.length_append, List.length_take, Nat.min_eq_left hend.le]
        rfl
      rw [List.length_take] at hlt
      cases hfields : parseHeaderFields ((frame.take lineEnd).drop 3) with
      | error e => simp [hfields, Except.map] at h
      | ok parsed =>
        simp only [hfields, Except.map, Except.ok.injEq, Prod.mk.injEq] at h
        obtain ⟨rfl, rfl⟩ := h
        refine ⟨(frame.take lineEnd).drop 3, ⟨?_, ?_, ?_, ?_, parseHeaderFields_eq_ok.mp hfields⟩, ?_⟩
        · rw [List.getElem_take] at hnewline
          have hbyte : frame[lineEnd] = 10 := by simpa using hnewline
          rw [hline, ← hbyte, List.take_append_getElem]
          exact List.take_prefix _ _
        · intro hmem
          obtain ⟨index, hindex, hbyte⟩ := List.mem_take_iff_getElem.mp (List.mem_of_mem_drop hmem)
          have hnone := hbefore index (by omega)
          rw [List.getElem_take, hbyte] at hnone
          exact hnone rfl
        · omega
        · simpa using hvalid
        · exact hlength.symm
  · rintro ⟨line, ⟨⟨rest, rfl⟩, hsingle, hshort, hutf8, hfields⟩, rfl⟩
    have hline : ((headerPrefix ++ line ++ [10] ++ rest).take (headerPrefix ++ line).length).drop 3 =
        line := by
      rw [List.append_assoc, List.take_left]
      rfl
    rw [parseHeader, if_neg (by simp [headerPrefix]), newline_index hsingle hshort]
    have hcount : (headerPrefix ++ line ++ [10]).length = (headerPrefix ++ line).length + 1 :=
      List.length_append
    simp only [hline, hutf8, parseHeaderFields_eq_ok.mpr hfields, hcount]
    rfl

end Header

section Contents
variable {bodyStart tocPos : Nat}

theorem ofNat_of_toInt {v : BitVec 64} {n : Nat} (h : v.toInt = n) : BitVec.ofNat 64 n = v := by
  rw [← BitVec.ofInt_natCast, ← h, BitVec.ofInt_toInt]

theorem toInt_ofNat_of_le {n : Nat} (h : n ≤ isizeMax) : (BitVec.ofNat 64 n).toInt = n := by
  have hmax : isizeMax = 2 ^ 63 - 1 := rfl
  have hsmall : (BitVec.ofNat 64 n).toNat = n := by
    rw [BitVec.toNat_ofNat]
    omega
  rw [BitVec.toInt_eq_toNat_of_lt (by omega), hsmall]

def Inside (bodyStart tocPos : Nat) (range : Nat × Nat) : Prop :=
  bodyStart ≤ range.1 ∧ range.1 ≤ range.2 ∧ range.2 ≤ tocPos

theorem tocRange_eq_ok {entry : Bytes} {range : Nat × Nat} (hlength : entry.length = 16)
    (htoc : tocPos ≤ isizeMax) :
    tocRange bodyStart tocPos entry = .ok range ↔
      entry = tocEntry range ∧ Inside bodyStart tocPos range := by
  constructor
  · intro h
    obtain ⟨hstart, hsize, hinside⟩ := columnRange_inside h
    refine ⟨?_, hinside⟩
    rw [tocEntry, ofNat_of_toInt hstart, ofNat_of_toInt hsize,
      leBytes_ofLeBytes _ (by rw [List.length_take]; omega),
      leBytes_ofLeBytes _ (by rw [List.length_drop]; omega), List.take_append_drop]
  · rintro ⟨rfl, hbody, horder, htocPos⟩
    have hstart : (leBytes (BitVec.ofNat 64 range.1)).length = 8 := leBytes_length _
    have hmax : usizeMax = 2 ^ 64 - 1 ∧ isizeMax = 2 ^ 63 - 1 := ⟨rfl, rfl⟩
    have hadd : checkedAdd range.1 (range.2 - range.1) = some range.2 :=
      checkedAdd_eq_some.mpr (by omega)
    rw [tocRange, tocEntry, List.take_left' hstart, List.drop_left' hstart,
      ofLeBytes_leBytes (by decide), ofLeBytes_leBytes (by decide), toInt_ofNat_of_le (by omega),
      toInt_ofNat_of_le (by omega), columnRange, if_neg (by omega)]
    simp only [Int.toNat_natCast, hadd]
    rw [if_neg (by omega)]

theorem tocRanges_eq_ok {entries : List Bytes} {ranges : List (Nat × Nat)}
    (hentries : ∀ entry ∈ entries, entry.length = 16) (htoc : tocPos ≤ isizeMax) (row : Nat) :
    mapFrom (fun _ entry => tocRange bodyStart tocPos entry) row entries = .ok ranges ↔
      entries = ranges.map tocEntry ∧ ∀ range ∈ ranges, Inside bodyStart tocPos range := by
  induction entries generalizing row ranges with
  | nil =>
    cases ranges with
    | nil | cons range ranges => simp [mapFrom]
  | cons entry entries ih =>
    have hentry := hentries entry List.mem_cons_self
    have hrest : ∀ other ∈ entries, other.length = 16 := fun other hother =>
      hentries other (List.mem_cons_of_mem entry hother)
    constructor
    · intro h
      obtain ⟨range, others, hrange, hothers, rfl⟩ := mapFrom_cons_ok h
      obtain ⟨rfl, hinside⟩ := (tocRange_eq_ok hentry htoc).mp hrange
      obtain ⟨rfl, hall⟩ := (ih hrest (row + 1)).mp hothers
      exact ⟨rfl, List.forall_mem_cons.mpr ⟨hinside, hall⟩⟩
    · rintro ⟨hmap, hall⟩
      cases ranges with
      | nil => cases hmap
      | cons range ranges =>
        obtain ⟨rfl, rfl⟩ := List.cons_eq_cons.mp hmap
        refine mapFrom_cons_of_ok ((tocRange_eq_ok hentry htoc).mpr ⟨rfl, hall range (by simp)⟩)
          ((ih hrest (row + 1)).mpr ⟨rfl, fun other hother => hall other (by simp [hother])⟩)

theorem tocEntry_length (range : Nat × Nat) : (tocEntry range).length = 16 := by
  simp [tocEntry]

theorem flatMap_tocEntry_length (ranges : List (Nat × Nat)) :
    (ranges.flatMap tocEntry).length = 16 * ranges.length := by
  rw [List.flatMap_def, flatten_length 16, List.length_map, Nat.mul_comm]
  intro piece hpiece
  obtain ⟨range, -, rfl⟩ := List.mem_map.mp hpiece
  exact tocEntry_length range

theorem chunks_tocEntry {toc : Bytes} {ranges : List (Nat × Nat)} {count : Nat}
    (hlength : toc.length = count * 16) :
    chunksExact tocEntrySize toc = ranges.map tocEntry ↔
      ranges.length = count ∧ toc = ranges.flatMap tocEntry := by
  have hcount : toc.length / tocEntrySize = count := by
    rw [hlength]
    exact Nat.mul_div_cancel _ (by decide)
  have hpieces : ∀ piece ∈ ranges.map tocEntry, piece.length = tocEntrySize := by
    intro piece hpiece
    obtain ⟨range, -, rfl⟩ := List.mem_map.mp hpiece
    exact tocEntry_length range
  rw [chunksExact, hcount]
  constructor
  · intro h
    have hflat : toc = ranges.flatMap tocEntry := by
      rw [← flatten_takeChunks hlength, List.flatMap_def, ← h]
      rfl
    have hsize := flatten_length tocEntrySize hpieces
    rw [← List.flatMap_def, ← hflat, hlength, List.length_map] at hsize
    exact ⟨(Nat.mul_right_cancel (by decide) hsize).symm, hflat⟩
  · rintro ⟨rfl, rfl⟩
    rw [List.flatMap_def]
    simpa using takeChunks_flatten hpieces

theorem parseContents_eq_ok {frame : Bytes} {header : ExportbinHeader} {parsed : ExportbinFrame}
    (hfits : frame.length ≤ isizeMax) :
    parseContents frame header bodyStart tocPos = .ok parsed ↔
      bodyStart ≤ tocPos ∧ tocPos + 16 * header.columnCount + 8 = frame.length ∧
      ∃ ranges, ranges.length = header.columnCount ∧
        (frame.drop tocPos).take (16 * header.columnCount) = ranges.flatMap tocEntry ∧
        (∀ range ∈ ranges, Inside bodyStart tocPos range) ∧
        ((ranges.filter fun range => range.1 < range.2).Pairwise fun a b =>
          Disjoint (Set.Ico a.1 a.2) (Set.Ico b.1 b.2)) ∧
        parsed = frameOf frame header ranges := by
  have hmax : usizeMax = 2 ^ 64 - 1 ∧ isizeMax = 2 ^ 63 - 1 := ⟨rfl, rfl⟩
  have hproduct : header.columnCount * tocEntrySize = 16 * header.columnCount := Nat.mul_comm _ _
  constructor
  · intro h
    simp only [parseContents, bind_eq_ok, okOr_eq_ok] at h
    obtain ⟨tocLen, hlen, h⟩ := h
    obtain ⟨-, rfl⟩ := checkedMul_eq_some.mp hlen
    split_ifs at h with hplaced
    push Not at hplaced
    obtain ⟨-, hbody, hend⟩ := hplaced
    obtain ⟨finish, hfinish, hsize⟩ := Option.bind_eq_some_iff.mp hend
    obtain ⟨-, rfl⟩ := checkedAdd_eq_some.mp hfinish
    obtain ⟨-, hsize⟩ := checkedAdd_eq_some.mp hsize
    simp only [bind_eq_ok] at h
    obtain ⟨ranges, hranges, h⟩ := h
    split_ifs at h with hoverlap
    have hlength : ((frame.drop tocPos).take (header.columnCount * tocEntrySize)).length =
        header.columnCount * 16 := by
      rw [List.length_take, List.length_drop]
      omega
    obtain ⟨hchunks, hinside⟩ := (tocRanges_eq_ok (chunksExact_length _) (by omega) 0).mp hranges
    obtain ⟨hcount, htoc⟩ := (chunks_tocEntry hlength).mp hchunks
    rw [hproduct] at htoc
    refine ⟨hbody, by omega, ranges, hcount, htoc, hinside, ?_, (Except.ok.inj h).symm⟩
    exact (occupied_disjoint_iff ranges).mp (by simpa using hoverlap)
  · rintro ⟨hbody, hsize, ranges, hcount, htoc, hinside, hdisjoint, rfl⟩
    have hlength : ((frame.drop tocPos).take (header.columnCount * tocEntrySize)).length =
        header.columnCount * 16 := by
      rw [List.length_take, List.length_drop]
      omega
    have hlen : checkedMul header.columnCount tocEntrySize = some (header.columnCount * tocEntrySize) :=
      checkedMul_eq_some.mpr ⟨by omega, rfl⟩
    have hend : ((checkedAdd tocPos (header.columnCount * tocEntrySize)).bind fun finish =>
        checkedAdd finish 8) = some frame.length := by
      rw [checkedAdd_eq_some.mpr ⟨by omega, rfl⟩]
      exact checkedAdd_eq_some.mpr ⟨by omega, by omega⟩
    have hranges : mapRows (fun _ entry => tocRange bodyStart tocPos entry)
        (chunksExact tocEntrySize ((frame.drop tocPos).take (header.columnCount * tocEntrySize))) =
          .ok ranges := by
      refine (tocRanges_eq_ok (chunksExact_length _) (by omega) 0).mpr ⟨?_, hinside⟩
      refine (chunks_tocEntry hlength).mpr ⟨hcount, ?_⟩
      rw [hproduct, htoc]
    have hoverlap := (occupied_disjoint_iff ranges).mpr hdisjoint
    have hfew : header.columnCount ≤ frame.length / tocEntrySize := by
      rw [Nat.le_div_iff_mul_le (by decide)]
      omega
    have hplaced : ¬ (header.columnCount > frame.length / tocEntrySize ∨ tocPos < bodyStart ∨
        some frame.length ≠ some frame.length) := by
      push Not
      exact ⟨hfew, hbody, rfl⟩
    rw [parseContents, hlen, okOr_some, ok_bind]
    simp only [hend]
    rw [if_neg hplaced, hranges, ok_bind, hoverlap]
    rfl

end Contents

variable {frame : Bytes}

theorem head_of_headerLine {line : Bytes} {header : ExportbinHeader}
    (h : HeaderLine frame line header) : frame.head? = some 38 := by
  obtain ⟨rest, rfl⟩ := h.begins
  rfl

theorem trailer_split {toc : Bytes} {tocPos size : Nat} (hsize : tocPos + size + 8 = frame.length)
    (htoc : (frame.drop tocPos).take size = toc) :
    frame.drop tocPos = toc ++ frame.drop (frame.length - 8) := by
  have hrest : (frame.drop tocPos).drop size = frame.drop (frame.length - 8) := by
    rw [List.drop_drop]
    congr 1
    omega
  rw [← htoc, ← hrest, List.take_append_drop]

theorem parseFrame_eq_ok {parsed : ExportbinFrame} (hfits : frame.length ≤ isizeMax) :
    parseFrame frame = .ok parsed ↔ ∃ line header tocPos ranges,
      WellFormed frame line header tocPos ranges ∧ parsed = frameOf frame header ranges := by
  constructor
  · intro h
    rw [parseFrame] at h
    split_ifs at h with hserver hshort
    simp only [bind_eq_ok, Prod.exists] at h
    obtain ⟨header, bodyStart, hheader, h⟩ := h
    obtain ⟨line, hline, rfl⟩ := parseHeader_eq_ok.mp hheader
    split_ifs at h with hnegative
    · simp [bind_eq_ok] at h
    obtain ⟨hbody, hsize, ranges, hcount, htoc, hinside, hdisjoint, rfl⟩ :=
      (parseContents_eq_ok hfits).mp h
    refine ⟨line, header, _, ranges, ⟨hline, hcount, ?_, hbody, hsize, hinside, hdisjoint⟩, rfl⟩
    have hpos : (ofLeBytes 64 (frame.drop (frame.length - 8))).toInt =
        ((ofLeBytes 64 (frame.drop (frame.length - 8))).toInt.toNat : Int) := by omega
    rw [ofNat_of_toInt hpos, leBytes_ofLeBytes _ (by rw [List.length_drop]; omega)]
    exact trailer_split hsize htoc
  · rintro ⟨line, header, tocPos, ranges, h, rfl⟩
    have hmax : isizeMax = 2 ^ 63 - 1 := rfl
    have hsize := h.size
    have hflat : (ranges.flatMap tocEntry).length = 16 * header.columnCount := by
      rw [flatMap_tocEntry_length, h.columns]
    have htoc : (frame.drop tocPos).take (16 * header.columnCount) = ranges.flatMap tocEntry := by
      rw [h.trailer, List.take_left' hflat]
    have htrailer : frame.drop (frame.length - 8) = leBytes (BitVec.ofNat 64 tocPos) := by
      have hsplit := trailer_split hsize htoc
      rw [h.trailer] at hsplit
      exact (List.append_cancel_left hsplit).symm
    have hpos : (ofLeBytes 64 (frame.drop (frame.length - 8))).toInt = tocPos := by
      rw [htrailer, ofLeBytes_leBytes (by decide), toInt_ofNat_of_le (by omega)]
    have hlong : ¬ frame.length < headerPrefix.length + 8 := by
      have hbody := h.after_header
      simp only [List.length_append] at hbody
      omega
    have hserver : ¬ frame.head? = some 33 := by
      rw [head_of_headerLine h.header_line]
      decide
    rw [parseFrame, if_neg hserver, if_neg hlong, parseHeader_eq_ok.mpr ⟨line, h.header_line, rfl⟩,
      ok_bind]
    simp only [hpos]
    rw [if_neg (by omega), Int.toNat_natCast]
    exact (parseContents_eq_ok hfits).mpr
      ⟨h.after_header, hsize, ranges, h.columns, htoc, h.inside, h.disjoint, rfl⟩

theorem parseFrameHeader_of_headerLine {line : Bytes} {header : ExportbinHeader}
    (h : HeaderLine frame line header) : parseFrameHeader frame = .ok header := by
  have hserver : ¬ frame.head? = some 33 := by
    rw [head_of_headerLine h]
    decide
  rw [parseFrameHeader, if_neg hserver, parseHeader_eq_ok.mpr ⟨line, h, rfl⟩]
  rfl

section Build
variable {frame header : Bytes} {columnCount : Nat} {toc : List (Nat × Nat)}

def pad (frame : Bytes) : Bytes := frame ++ List.replicate ((32 - frame.length % 32) % 32) 0

def placeColumns : Bytes → List Bytes → Bytes × List (Nat × Nat)
  | frame, [] => (frame, [])
  | frame, column :: columns =>
    let placed := placeColumns (pad frame ++ column) columns
    (placed.1, ((pad frame).length, column.length) :: placed.2)

def headerText (resultId : BitVec 64) (columnCount : Nat) (rowCount startRow : BitVec 64) : Bytes :=
  decimalInt resultId.toInt ++ 32 :: (decimal columnCount ++ 32 :: (decimal rowCount.toNat ++
    32 :: decimal startRow.toNat))

def buildFrame (resultId rowCount startRow : BitVec 64) (columns : List Bytes) : Bytes :=
  let header := headerPrefix ++ headerText resultId columns.length rowCount startRow ++ [10]
  let placed := placeColumns header columns
  let frame := pad placed.1
  frame ++ placed.2.flatMap (fun entry =>
    leBytes (BitVec.ofNat 64 entry.1) ++ leBytes (BitVec.ofNat 64 entry.2)) ++
      leBytes (BitVec.ofNat 64 frame.length)

theorem take_prefix_eq {xs ys : Bytes} (h : xs <+: ys) {count : Nat} (hcount : count ≤ xs.length) :
    ys.take count = xs.take count := by
  obtain ⟨rest, rfl⟩ := h
  exact List.take_append_of_le_length hcount

theorem pad_begins (frame : Bytes) : frame <+: pad frame := List.prefix_append _ _

structure Placed (start : Nat) (frame column : Bytes) (entry : Nat × Nat) : Prop where
  after : start ≤ entry.1
  within : entry.1 + entry.2 ≤ frame.length
  bytes : (frame.take (entry.1 + entry.2)).drop entry.1 = column

theorem Placed.extend {start : Nat} {longer column : Bytes} {entry : Nat × Nat}
    (h : Placed start frame column entry) (hbegins : frame <+: longer) :
    Placed start longer column entry :=
  ⟨h.after, h.within.trans hbegins.length_le, by rw [take_prefix_eq hbegins h.within, h.bytes]⟩

theorem forall₂_mem_right {α β : Type} {R : α → β → Prop} {xs : List α} {ys : List β}
    (h : List.Forall₂ R xs ys) : ∀ y ∈ ys, ∃ x, R x y := by
  induction h with
  | nil => simp
  | cons hxy _ ih => exact List.forall_mem_cons.mpr ⟨⟨_, hxy⟩, ih⟩

theorem placeColumns_spec (frame : Bytes) (columns : List Bytes) :
    frame <+: (placeColumns frame columns).1 ∧
      List.Forall₂ (Placed frame.length (placeColumns frame columns).1) columns
        (placeColumns frame columns).2 ∧
      (placeColumns frame columns).2.Pairwise fun a b => a.1 + a.2 ≤ b.1 := by
  induction columns generalizing frame with
  | nil => exact ⟨List.prefix_rfl, .nil, .nil⟩
  | cons column columns ih =>
    obtain ⟨hbegins, hplaced, hpairwise⟩ := ih (pad frame ++ column)
    have hpad : frame.length ≤ (pad frame).length := (pad_begins frame).length_le
    have hlength : (pad frame ++ column).length = (pad frame).length + column.length :=
      List.length_append
    refine ⟨(pad_begins frame).trans ((List.prefix_append _ _).trans hbegins), ?_, ?_⟩
    · refine .cons ⟨hpad, ?_, ?_⟩ (hplaced.imp fun _ _ h => ⟨?_, h.within, h.bytes⟩)
      · exact hlength ▸ hbegins.length_le
      · simp only [placeColumns]
        rw [← hlength, take_prefix_eq hbegins (le_refl _), List.take_length, List.drop_left]
      · exact hpad.trans ((Nat.le_add_right _ _).trans (hlength ▸ h.after))
    · refine List.pairwise_cons.mpr ⟨fun entry hentry => ?_, hpairwise⟩
      obtain ⟨other, h⟩ := forall₂_mem_right hplaced entry hentry
      exact hlength ▸ h.after

def IsHeaderByte (b : UInt8) : Prop := b = 32 ∨ IsNumeral b

theorem headerText_bytes (resultId : BitVec 64) (columnCount : Nat) (rowCount startRow : BitVec 64) :
    ∀ b ∈ headerText resultId columnCount rowCount startRow, IsHeaderByte b := by
  have hdecimal : ∀ n, ∀ b ∈ decimal n, IsHeaderByte b := fun n b hb =>
    .inr (.inr (decimal_isDigit n b hb))
  intro b hb
  simp only [headerText, List.mem_append, List.mem_cons] at hb
  rcases hb with hb | rfl | hb | rfl | hb | rfl | hb
  · exact .inr (decimalInt_isNumeral _ b hb)
  · exact .inl rfl
  · exact hdecimal _ b hb
  · exact .inl rfl
  · exact hdecimal _ b hb
  · exact .inl rfl
  · exact hdecimal _ b hb

theorem IsHeaderByte.ascii {b : UInt8} (h : IsHeaderByte b) : b < 0x80 ∧ b ≠ 10 := by
  rcases h with rfl | rfl | ⟨hlow, hhigh⟩
  · decide
  · decide
  · refine ⟨UInt8.lt_of_le_of_lt hhigh (by decide), ?_⟩
    rintro rfl
    exact absurd hlow (by decide)

theorem headerText_fields (resultId rowCount startRow : BitVec 64) (hcount : columnCount < 2 ^ 64) :
    HeaderFields (headerText resultId columnCount rowCount startRow)
      ⟨resultId.toInt, columnCount, rowCount.toNat, startRow.toNat⟩ := by
  have hword : ∀ n, ∀ b ∈ decimal n, isWhitespace b = false := fun n b hb =>
    (decimal_isDigit n b hb).notWhitespace
  refine ⟨decimalInt resultId.toInt, decimal columnCount, decimal rowCount.toNat,
    decimal startRow.toNat, [], ?_, ?_, ?_, ?_, ?_⟩
  · rw [headerText, split_cons (fun b hb => (decimalInt_isNumeral _ b hb).notWhitespace)
      (decimalInt_ne_nil _), split_cons (hword _) (decimal_ne_nil _),
      split_cons (hword _) (decimal_ne_nil _), split_word (hword _) (decimal_ne_nil _)]
  · exact parseSigned_decimalInt resultId.le_toInt resultId.toInt_lt
  · exact parseUnsigned_decimal hcount
  · exact parseUnsigned_decimal rowCount.isLt
  · exact parseUnsigned_decimal startRow.isLt

theorem headerText_length (resultId rowCount startRow : BitVec 64) (hcount : columnCount < 2 ^ 64) :
    (headerPrefix ++ headerText resultId columnCount rowCount startRow ++ [10]).length ≤ 128 := by
  have hwide : ∀ n : Nat, n < 2 ^ 64 → (decimal n).length ≤ 20 := fun n hn =>
    decimal_length (by decide) (hn.trans (by norm_num))
  have hid : (decimalInt resultId.toInt).length ≤ 21 := by
    refine decimalInt_length (by decide) ?_
    have hlow := resultId.le_toInt
    have hhigh := resultId.toInt_lt
    norm_num at hlow hhigh ⊢
    omega
  have hcolumns := hwide _ hcount
  have hrows := hwide _ rowCount.isLt
  have hstart := hwide _ startRow.isLt
  have hbegins : headerPrefix.length = 3 := rfl
  simp only [headerText, List.length_append, List.length_cons, List.length_nil]
  omega

theorem headerText_line {resultId rowCount startRow : BitVec 64} (hcount : columnCount < 2 ^ 64)
    (hbegins : headerPrefix ++ headerText resultId columnCount rowCount startRow ++ [10] <+: frame) :
    HeaderLine frame (headerText resultId columnCount rowCount startRow)
      ⟨resultId.toInt, columnCount, rowCount.toNat, startRow.toNat⟩ where
  begins := hbegins
  single hmem := (headerText_bytes _ _ _ _ 10 hmem).ascii.2 rfl
  short := headerText_length resultId rowCount startRow hcount
  utf8 := valid_of_ascii fun b hb => (headerText_bytes _ _ _ _ b hb).ascii.1
  fields := headerText_fields resultId rowCount startRow hcount

def rangeOf (entry : Nat × Nat) : Nat × Nat := (entry.1, entry.1 + entry.2)

theorem tocEntry_rangeOf (entry : Nat × Nat) : tocEntry (rangeOf entry) =
    leBytes (BitVec.ofNat 64 entry.1) ++ leBytes (BitVec.ofNat 64 entry.2) := by
  rw [tocEntry, rangeOf, Nat.add_sub_cancel_left]

-- A frame whose columns are placed in order, with its table and trailer behind them.
structure Laid (header body : Bytes) (columns : List Bytes) (toc : List (Nat × Nat)) : Prop where
  begins : header <+: body
  placed : List.Forall₂ (Placed header.length body) columns toc
  ordered : toc.Pairwise fun a b => a.1 + a.2 ≤ b.1

theorem laid_placeColumns (header : Bytes) (columns : List Bytes) :
    Laid header (pad (placeColumns header columns).1) columns (placeColumns header columns).2 := by
  obtain ⟨hbegins, hplaced, hordered⟩ := placeColumns_spec header columns
  exact ⟨hbegins.trans (pad_begins _), hplaced.imp fun _ _ h => h.extend (pad_begins _), hordered⟩

theorem Laid.disjoint {body : Bytes} {columns : List Bytes} (h : Laid header body columns toc) :
    ((toc.map rangeOf).filter fun range => range.1 < range.2).Pairwise fun a b =>
      Disjoint (Set.Ico a.1 a.2) (Set.Ico b.1 b.2) := by
  refine List.Pairwise.filter _ (List.pairwise_map.mpr (h.ordered.imp fun hle => ?_))
  rw [Set.Ico_disjoint_Ico]
  exact (min_le_left _ _).trans (hle.trans (le_max_right _ _))

theorem Laid.inside {body : Bytes} {columns : List Bytes} (h : Laid header body columns toc) :
    ∀ range ∈ toc.map rangeOf, Inside header.length body.length range := by
  intro range hrange
  obtain ⟨entry, hentry, rfl⟩ := List.mem_map.mp hrange
  obtain ⟨column, hplaced⟩ := forall₂_mem_right h.placed entry hentry
  exact ⟨hplaced.after, Nat.le_add_right _ _, hplaced.within⟩

theorem Laid.columns {body : Bytes} {columns : List Bytes} (h : Laid header body columns toc)
    (hbody : body <+: frame) :
    (toc.map rangeOf).map (fun range => (columnBytes frame range).2) = columns := by
  have hbytes : List.Forall₂ (fun column entry => column = (columnBytes frame (rangeOf entry)).2)
      columns toc := h.placed.imp fun _ _ hplaced => (hplaced.extend hbody).bytes.symm
  have hmapped := List.forall₂_map_right_iff.mpr hbytes
  rw [List.forall₂_eq_eq_eq] at hmapped
  rw [List.map_map]
  exact hmapped.symm

theorem buildFrame_eq (resultId rowCount startRow : BitVec 64) (columns : List Bytes) :
    ∃ body toc,
      Laid (headerPrefix ++ headerText resultId columns.length rowCount startRow ++ [10]) body columns
        toc ∧
      buildFrame resultId rowCount startRow columns =
        body ++ ((toc.map rangeOf).flatMap tocEntry ++ leBytes (BitVec.ofNat 64 body.length)) := by
  refine ⟨_, _, laid_placeColumns _ columns, ?_⟩
  simp only [buildFrame, List.flatMap_map, tocEntry_rangeOf, List.append_assoc]

theorem buildFrame_wellFormed {resultId rowCount startRow : BitVec 64} {columns : List Bytes}
    (hfits : (buildFrame resultId rowCount startRow columns).length ≤ isizeMax) :
    ∃ line tocPos ranges, WellFormed (buildFrame resultId rowCount startRow columns) line
        ⟨resultId.toInt, columns.length, rowCount.toNat, startRow.toNat⟩ tocPos ranges ∧
      ranges.map (fun range => (columnBytes (buildFrame resultId rowCount startRow columns) range).2) =
        columns := by
  obtain ⟨body, toc, hlaid, hbuild⟩ := buildFrame_eq resultId rowCount startRow columns
  have hcount : toc.length = columns.length := hlaid.placed.length_eq.symm
  have hbody : body <+: buildFrame resultId rowCount startRow columns := ⟨_, hbuild.symm⟩
  have hlength := congrArg List.length hbuild
  rw [List.length_append, List.length_append, flatMap_tocEntry_length, List.length_map, hcount,
    leBytes_length] at hlength
  have hmax : isizeMax = 2 ^ 63 - 1 := rfl
  refine ⟨_, body.length, toc.map rangeOf, ⟨headerText_line (by omega)
    (hlaid.begins.trans hbody), by simpa using hcount, ?_, hlaid.begins.length_le, ?_, hlaid.inside,
    hlaid.disjoint⟩, hlaid.columns hbody⟩
  · rw [hbuild, List.drop_left]
  · rw [hlength]
    exact Nat.add_assoc _ _ _

end Build

theorem parse_frame_accepts_exactly_well_formed (frame : Slice) :
    (parseFrameSlices frame.bytes = orFail (parseFrame frame.bytes) ∧
        parseFrameSlices frame.bytes ≠ .error .panics) ∧
      (parseFrameHeaderSlices frame.bytes = orFail (parseFrameHeader frame.bytes) ∧
        parseFrameHeaderSlices frame.bytes ≠ .error .panics) ∧
      (∀ parsed, parseFrame frame.bytes = .ok parsed ↔ ∃ line header tocPos ranges,
        WellFormed frame.bytes line header tocPos ranges ∧
          parsed = frameOf frame.bytes header ranges ∧
          parseFrameHeader frame.bytes = .ok header) ∧
      ∀ resultId rowCount startRow columns,
        frame.bytes = buildFrame resultId rowCount startRow columns →
        ∃ parsed, parseFrame frame.bytes = .ok parsed ∧ parsed.resultId = resultId.toInt ∧
          parsed.rowCount = rowCount.toNat ∧ parsed.startRow = startRow.toNat ∧
          parsed.columns.map Prod.snd = columns := by
  refine ⟨⟨parseFrameSlices_eq _, ?_⟩, ⟨parseFrameHeaderSlices_eq _, ?_⟩, fun parsed => ?_, ?_⟩
  · rw [parseFrameSlices_eq]
    exact orFail_not_panics _
  · rw [parseFrameHeaderSlices_eq]
    exact orFail_not_panics _
  · rw [parseFrame_eq_ok frame.fits]
    constructor
    · rintro ⟨line, header, tocPos, ranges, h, rfl⟩
      exact ⟨line, header, tocPos, ranges, h, rfl, parseFrameHeader_of_headerLine h.header_line⟩
    · rintro ⟨line, header, tocPos, ranges, h, rfl, -⟩
      exact ⟨line, header, tocPos, ranges, h, rfl⟩
  · intro resultId rowCount startRow columns hframe
    have hfits := frame.fits
    rw [hframe] at hfits ⊢
    obtain ⟨line, tocPos, ranges, hformed, hcolumns⟩ := buildFrame_wellFormed hfits
    refine ⟨_, (parseFrame_eq_ok hfits).mpr ⟨line, _, tocPos, ranges, hformed, rfl⟩, rfl, rfl, rfl, ?_⟩
    rw [frameOf, List.map_map]
    exact hcolumns

theorem two_column_frame_parses_back :
    ∃ parsed, parseFrame (buildFrame 7 1 100 [[42, 0, 0, 0], [104, 105, 0]]) = .ok parsed ∧
      parsed.columns.map Prod.snd = [[42, 0, 0, 0], [104, 105, 0]] := by
  obtain ⟨parsed, hparsed, -, -, -, hcolumns⟩ := (parse_frame_accepts_exactly_well_formed
    ⟨buildFrame 7 1 100 [[42, 0, 0, 0], [104, 105, 0]], by decide +kernel⟩).2.2.2
      7 1 100 [[42, 0, 0, 0], [104, 105, 0]] rfl
  exact ⟨parsed, hparsed, hcolumns⟩

end MonetdbAdbc
