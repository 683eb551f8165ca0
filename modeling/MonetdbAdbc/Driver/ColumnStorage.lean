import MonetdbAdbc.Driver.EncodedStorage
import MonetdbAdbc.Library.Transposition

namespace MonetdbAdbc.Driver
open LittleEndian Machine Transposition

section Shuffle

theorem shuffleBytes_eq (input : Bytes) (width : Nat) :
    shuffleBytes input width =
      grid ((input.length - input.length % width) / width)
        (fun byte row => input.getD (row * width + byte) 0) width ++
      input.drop (input.length - input.length % width) := rfl

theorem aligned_eq (n width : Nat) :
    width * ((n - n % width) / width) = n - n % width :=
  Nat.mul_div_cancel' (Nat.dvd_sub_mod n)

theorem length_shuffleBytes (input : Bytes) (width : Nat) :
    (shuffleBytes input width).length = input.length := by
  have hle := Nat.mod_le input.length width
  rw [shuffleBytes_eq, List.length_append, length_grid, aligned_eq, List.length_drop]
  omega

theorem drop_shuffleBytes (input : Bytes) (width : Nat) :
    (shuffleBytes input width).drop (input.length - input.length % width) =
      input.drop (input.length - input.length % width) := by
  rw [shuffleBytes_eq]
  exact List.drop_left' (by rw [length_grid, aligned_eq])

theorem shuffleBytes_get {input : Bytes} {width byte row : Nat} (hbyte : byte < width)
    (hrow : row < (input.length - input.length % width) / width) :
    (shuffleBytes input width).getD
        (byte * ((input.length - input.length % width) / width) + row) 0 =
      input.getD (row * width + byte) 0 := by
  have hget := grid_get (fun byte row => input.getD (row * width + byte) 0) hbyte hrow
  have hlt := (List.getElem?_eq_some_iff.mp hget).1
  rw [shuffleBytes_eq, List.getD_eq_getElem?_getD, List.getElem?_append_left hlt, hget]
  rfl

theorem unshuffle_loops (input : Bytes) (width rows : Nat) (output : Bytes) :
    (List.range width).foldl (fun output byte =>
      (List.range rows).foldl (fun output row =>
        output.set (row * width + byte) (input.getD (byte * rows + row) 0)) output) output =
    scatter (fun key : Nat × Nat => key.2 * width + key.1)
      (fun key => input.getD (key.1 * rows + key.2) 0)
      ((List.range width) ×ˢ (List.range rows)) output := by
  simp only [scatter, SProd.sprod, List.product, List.foldl_flatMap, List.foldl_map]

theorem unshuffleBytes_shuffleBytes {width : Nat} (hw : 0 < width) {input output : Bytes}
    (hlen : output.length = input.length) :
    unshuffleBytes (shuffleBytes input width) width output = input := by
  have haligned := aligned_eq input.length width
  simp only [unshuffleBytes, length_shuffleBytes, drop_shuffleBytes,
    unshuffle_loops]
  set aligned := input.length - input.length % width with hdef
  set rows := aligned / width with hrows
  have hle : aligned ≤ input.length := Nat.sub_le _ _
  suffices htake : (scatter (fun key : Nat × Nat => key.2 * width + key.1)
      (fun key => (shuffleBytes input width).getD (key.1 * rows + key.2) 0)
      ((List.range width) ×ˢ (List.range rows)) output).take aligned = input.take aligned by
    rw [htake, List.take_append_drop]
  apply List.ext_getElem?
  intro i
  by_cases hi : i < aligned
  · have hget : input[i]? = some (input.getD i 0) := by
      rw [List.getD_eq_getElem?_getD, List.getElem?_eq_getElem (by omega)]
      rfl
    rw [List.getElem?_take_of_lt hi, List.getElem?_take_of_lt hi, hget]
    refine scatter_get (by omega) ?_ (.inr ⟨(i % width, i / width), ?_, Nat.div_add_mod' i width⟩)
    · rintro ⟨byte, row⟩ hkey rfl
      obtain ⟨hbyte, hrow⟩ := List.pair_mem_product.mp hkey
      exact shuffleBytes_get (List.mem_range.mp hbyte) (List.mem_range.mp hrow)
    · have hlt : i / width < rows := Nat.div_lt_of_lt_mul (by omega)
      exact List.pair_mem_product.mpr
        ⟨List.mem_range.mpr (Nat.mod_lt i hw), List.mem_range.mpr hlt⟩
  · rw [List.getElem?_eq_none (by simp; omega), List.getElem?_eq_none (by simp; omega)]

end Shuffle

section Arena
variable {bytes : Bytes}

def CompressedArena.Holds (arena : CompressedArena) (data : CompressedData) (bytes : Bytes) : Prop :=
  ∃ slab, arena.slabs[data.slab]? = some slab ∧ data.offset + bytes.length ≤ slab.used ∧
    (slab.data.drop data.offset).take bytes.length = bytes

def CompressedArena.Extends (arena later : CompressedArena) : Prop :=
  ∀ data bytes, arena.Holds data bytes → later.Holds data bytes

theorem CompressedArena.Extends.refl (arena : CompressedArena) : arena.Extends arena :=
  fun _ _ h => h

theorem CompressedArena.Extends.trans {first second third : CompressedArena}
    (h : first.Extends second) (h' : second.Extends third) : first.Extends third :=
  fun data bytes hholds => h' data bytes (h data bytes hholds)

theorem CompressedArena.Holds.slice_eq {arena : CompressedArena} {data : CompressedData}
    (h : arena.Holds data bytes) : arena.slice data bytes.length = some bytes := by
  obtain ⟨slab, hslab, hused, hbytes⟩ := h
  have hle := slab.used_le
  simp only [CompressedArena.slice, hslab]
  rw [if_pos (by omega), hbytes]

theorem copyInto_written {data : Bytes} {offset : Nat} (h : offset ≤ data.length) :
    ((copyInto data offset bytes).drop offset).take bytes.length = bytes := by
  have hlen : (data.take offset).length = offset := by simp [h]
  rw [copyInto, List.append_assoc, List.drop_left' hlen]
  exact List.take_left' rfl

theorem copyInto_earlier {data : Bytes} {start len offset : Nat} (h : start + len ≤ offset)
    (hoffset : offset ≤ data.length) :
    ((copyInto data offset bytes).drop start).take len = (data.drop start).take len := by
  have hlen : (data.take offset).length = offset := by simp [hoffset]
  rw [List.take_drop, List.take_drop, copyInto, List.append_assoc,
    List.take_append_of_le_length (by omega), List.take_take, Nat.min_eq_left h]

theorem CompressedArena.store_cases (arena : CompressedArena) (bytes : Bytes) :
    ∃ slabs slab h, arena.store bytes = CompressedArena.append slabs slab bytes h ∧
      (arena.slabs = slabs ++ [slab] ∨ arena.slabs = slabs) := by
  cases hlast : arena.slabs.getLast? with
  | none =>
    simp only [CompressedArena.store, hlast]
    exact ⟨_, _, CompressedSlab.mapAnon_room bytes _, rfl, .inr rfl⟩
  | some slab =>
    by_cases hroom : bytes.length ≤ slab.data.length - slab.used
    · simp only [CompressedArena.store, hlast, dif_pos hroom]
      exact ⟨_, _, hroom, rfl, .inl (List.dropLast_append_getLast? slab hlast).symm⟩
    · simp only [CompressedArena.store, hlast, dif_neg hroom]
      exact ⟨_, _, CompressedSlab.mapAnon_room bytes _, rfl, .inr rfl⟩

theorem CompressedArena.store_holds (arena : CompressedArena) (bytes : Bytes) :
    (arena.store bytes).2.Holds (arena.store bytes).1 bytes := by
  obtain ⟨slabs, slab, hroom, hstore, -⟩ := arena.store_cases bytes
  rw [hstore]
  exact ⟨slab.write bytes hroom, by simp [CompressedArena.append], le_refl _,
    copyInto_written slab.used_le⟩

theorem CompressedArena.store_extends (arena : CompressedArena) (bytes : Bytes) :
    arena.Extends (arena.store bytes).2 := by
  obtain ⟨slabs, slab, hroom, hstore, hslabs⟩ := arena.store_cases bytes
  rw [hstore]
  rintro data stored ⟨holder, hholder, hused, hstored⟩
  simp only [CompressedArena.append, CompressedArena.Holds]
  rcases Nat.lt_or_ge data.slab slabs.length with hlt | hge
  · refine ⟨holder, ?_, hused, hstored⟩
    rcases hslabs with hslabs | hslabs
    · rw [hslabs, List.getElem?_append_left hlt] at hholder
      rw [List.getElem?_append_left hlt, hholder]
    · rw [hslabs] at hholder
      rw [List.getElem?_append_left hlt, hholder]
  · rcases hslabs with hslabs | hslabs
    · rw [hslabs, List.getElem?_append_right hge] at hholder
      rw [List.getElem?_append_right hge]
      have hzero : data.slab - slabs.length = 0 := by
        have hlt := (List.getElem?_eq_some_iff.mp hholder).1
        simpa using hlt
      rw [hzero] at hholder ⊢
      obtain rfl : slab = holder := Option.some.inj hholder
      refine ⟨slab.write bytes hroom, rfl, ?_, ?_⟩
      · simp only [CompressedSlab.write]
        omega
      · exact (copyInto_earlier hused slab.used_le).trans hstored
    · rw [hslabs, List.getElem?_eq_none hge] at hholder
      cases hholder

end Arena

section Chunks
variable {lz4 : Lz4} {decoder : Lz4Decoder} {arena : CompressedArena}

structure Lz4.InvertedBy (lz4 : Lz4) (decoder : Lz4Decoder) : Prop where
  block : ∀ input compressed, lz4.compressBlock input = .ok compressed →
    decoder.decompressBlock compressed input.length = .ok input
  frame : ∀ input compressed, lz4.compressFrame input = .ok compressed →
    decoder.readExact compressed input.length = .ok input ∧
      decoder.readTrailing compressed input.length = .ok 0

def CompressionTransform.apply : CompressionTransform → Bytes → Bytes
  | .plain, bytes => bytes
  | .shuffle width, bytes => shuffleBytes bytes width

def CompressionTransform.Positive : CompressionTransform → Prop
  | .plain => True
  | .shuffle width => 0 < width

theorem CompressionTransform.length_apply (transform : CompressionTransform) (bytes : Bytes) :
    (transform.apply bytes).length = bytes.length := by
  cases transform with
  | plain => rfl
  | shuffle width => exact length_shuffleBytes bytes width

theorem compressBytes_eq (input : Bytes) (transform : CompressionTransform)
    (format : CompressionFormat) :
    compressBytes lz4 input transform format = compressedBytes lz4 format (transform.apply input) := by
  cases transform <;> rfl

theorem decodedBytes_compressedBytes (hinv : lz4.InvertedBy decoder) {format : CompressionFormat}
    {input compressed : Bytes} (h : compressedBytes lz4 format input = .ok compressed) :
    decodedBytes decoder format compressed input.length = .ok input := by
  cases format with
  | block =>
    cases hc : lz4.compressBlock input with
    | error value => simp [compressedBytes, hc, Except.mapError] at h
    | ok bytes =>
      simp only [compressedBytes, hc, Except.mapError, Except.ok.injEq] at h
      subst h
      simp [decodedBytes, hinv.block _ _ hc, Except.mapError]
  | frame =>
    cases hc : lz4.compressFrame input with
    | error value => simp [compressedBytes, hc, Except.mapError] at h
    | ok bytes =>
      simp only [compressedBytes, hc, Except.mapError, Except.ok.injEq] at h
      subst h
      obtain ⟨hexact, htrailing⟩ := hinv.frame _ _ hc
      simp [decodedBytes, decompressFrameInto, hexact, htrailing, Except.mapError]

def ChunkHolds (decoder : Lz4Decoder) (arena : CompressedArena) : EncodedChunk → Bytes → Prop
  | .raw data, bytes => data = bytes
  | .lz4 data len decodedLen transform format, bytes =>
    ∃ compressed, arena.Holds data compressed ∧ compressed.length = len ∧
      bytes.length = decodedLen ∧ transform.Positive ∧
      decodedBytes decoder format compressed decodedLen = .ok (transform.apply bytes)

theorem ChunkHolds.extend {later : CompressedArena} {chunk : EncodedChunk} {bytes : Bytes}
    (hext : arena.Extends later) (h : ChunkHolds decoder arena chunk bytes) :
    ChunkHolds decoder later chunk bytes := by
  cases chunk with
  | raw data => exact h
  | lz4 data len decodedLen transform format =>
    obtain ⟨compressed, hholds, hrest⟩ := h
    exact ⟨compressed, hext _ _ hholds, hrest⟩

theorem length_unshuffleBuffer (unshuffled : Option Bytes) (decodedLen : Nat) :
    decodedLen ≤ (unshuffleBuffer unshuffled decodedLen).length := by
  unfold unshuffleBuffer
  split
  · split_ifs with hshort
    · simp
    · omega
  · simp

theorem ChunkHolds.upload {chunk : EncodedChunk} {bytes : Bytes}
    (h : ChunkHolds decoder arena chunk bytes) (unshuffled : Option Bytes) :
    ∃ next, uploadChunk decoder false arena unshuffled chunk = .ok (bytes, next) := by
  cases chunk with
  | raw data =>
    obtain rfl : data = bytes := h
    exact ⟨_, rfl⟩
  | lz4 data len decodedLen transform format =>
    obtain ⟨compressed, hholds, rfl, rfl, hpositive, hdecoded⟩ := h
    have hlen := transform.length_apply bytes
    simp only [uploadChunk, hholds.slice_eq, okOr_some, ok_bind, hdecoded, hlen, ne_eq,
      not_true_eq_false, if_false, Bool.false_eq_true]
    cases transform with
    | plain => exact ⟨_, rfl⟩
    | shuffle width =>
      have hbuffer := length_unshuffleBuffer unshuffled bytes.length
      refine ⟨_, congrArg Except.ok (Prod.ext ?_ rfl)⟩
      exact unshuffleBytes_shuffleBytes hpositive (by simpa using hbuffer)

theorem uploadChunks_holds {chunks : List EncodedChunk} {pieces : List Bytes}
    (h : List.Forall₂ (ChunkHolds decoder arena) chunks pieces) (unshuffled : Option Bytes) :
    uploadChunks decoder false arena unshuffled chunks = .ok pieces.flatten := by
  induction h generalizing unshuffled with
  | nil => rfl
  | cons hchunk _ ih =>
    obtain ⟨next, hupload⟩ := hchunk.upload unshuffled
    simp only [uploadChunks, hupload, ok_bind, ih next, List.flatten_cons]

end Chunks

section Columns
variable {lz4 : Lz4} {decoder : Lz4Decoder} {fixedWidth : Option Nat} {allowShuffle : Bool}
  {format : CompressionFormat}

def Lz4.Fails (lz4 : Lz4) (error : IngestError) : Prop :=
  ∃ format input, compressedBytes lz4 format input = .error error

theorem bestTransform_positive {plain : Bytes} {plainLen : Nat}
    {best : CompressionTransform × Nat}
    (h : bestTransform lz4 plain plainLen fixedWidth allowShuffle format = .ok best) :
    best.1.Positive := by
  unfold bestTransform at h
  split at h
  · rename_i width hfilter
    have hwidth : 1 < width := by simpa using (Option.filter_eq_some_iff.mp hfilter).2
    split at h
    · obtain ⟨shuffled, -, rfl⟩ := map_eq_ok.mp h
      split
      · exact Nat.lt_of_succ_lt hwidth
      · trivial
    · cases h
      trivial
  · cases h
    trivial

theorem bestTransform_fails {plain : Bytes} {plainLen : Nat} {error : IngestError}
    (h : bestTransform lz4 plain plainLen fixedWidth allowShuffle format = .error error) :
    lz4.Fails error := by
  unfold bestTransform at h
  split at h
  · split at h
    · exact ⟨_, _, map_eq_error.mp h⟩
    · cases h
  · cases h

theorem selectCompressionTransform_positive {input : Bytes} {transform : CompressionTransform}
    (h : selectCompressionTransform lz4 input fixedWidth allowShuffle format =
      .ok (some transform)) : transform.Positive := by
  simp only [selectCompressionTransform, bind_eq_ok, Except.ok.injEq] at h
  obtain ⟨plainCompressed, -, best, hbest, hchoice⟩ := h
  split at hchoice
  · cases hchoice
    exact bestTransform_positive hbest
  · cases hchoice

theorem selectCompressionTransform_fails {input : Bytes} {error : IngestError}
    (h : selectCompressionTransform lz4 input fixedWidth allowShuffle format = .error error) :
    lz4.Fails error := by
  simp only [selectCompressionTransform, bind_eq_error] at h
  rcases h with h | ⟨plainCompressed, -, h | ⟨best, -, h⟩⟩
  · exact ⟨_, _, h⟩
  · exact bestTransform_fails h
  · cases h

namespace EncodedColumn
variable {column next : EncodedColumn} {input : Bytes} {arena later : CompressedArena}
  {error : IngestError} {transform : CompressionTransform} {filled : PendingEncodedChunk}

def ModePositive (column : EncodedColumn) : Prop :=
  ∀ transform, column.compression = .enabled transform → transform.Positive

theorem chosenTransform_positive (hmode : column.ModePositive)
    (h : chosenTransform lz4 column input = .ok (some transform)) : transform.Positive := by
  unfold chosenTransform at h
  split at h
  · split at h
    · cases h
      trivial
    · exact selectCompressionTransform_positive h
  · rename_i chosen hchosen
    cases h
    exact hmode _ hchosen
  · cases h

theorem chosenTransform_fails (h : chosenTransform lz4 column input = .error error) :
    lz4.Fails error := by
  unfold chosenTransform at h
  split at h
  · split at h
    · cases h
    · exact selectCompressionTransform_fails h
  · cases h
  · cases h

theorem compressedWith_some {compressed : Bytes} {used : CompressionTransform}
    {format : CompressionFormat}
    (h : compressedWith lz4 column input transform = .ok (some (compressed, used, format))) :
    used = transform ∧ compressedBytes lz4 format (transform.apply input) = .ok compressed := by
  obtain ⟨bytes, hbytes, hchoice⟩ := map_eq_ok.mp h
  rw [compressBytes_eq] at hbytes
  split at hchoice
  · cases hchoice
  · cases hchoice
    exact ⟨rfl, hbytes⟩

theorem compressedChunk_some {compressed : Bytes} {format : CompressionFormat}
    (hmode : column.ModePositive)
    (h : compressedChunk lz4 column input = .ok (some (compressed, transform, format))) :
    transform.Positive ∧ compressedBytes lz4 format (transform.apply input) = .ok compressed := by
  simp only [compressedChunk, bind_eq_ok] at h
  obtain ⟨chosen, hchosen, h⟩ := h
  cases chosen with
  | none => cases h
  | some chosen =>
    obtain ⟨rfl, hbytes⟩ := compressedWith_some h
    exact ⟨chosenTransform_positive hmode hchosen, hbytes⟩

theorem compressedChunk_fails (h : compressedChunk lz4 column input = .error error) :
    lz4.Fails error := by
  simp only [compressedChunk, bind_eq_error] at h
  rcases h with h | ⟨chosen, -, h⟩
  · exact chosenTransform_fails h
  · cases chosen with
    | none => cases h
    | some chosen =>
      have hbytes := map_eq_error.mp h
      rw [compressBytes_eq] at hbytes
      exact ⟨_, _, hbytes⟩

def pendingBytes (column : EncodedColumn) : Bytes :=
  match column.pending with
  | some pending => pending.data
  | none => []

structure Contents (decoder : Lz4Decoder) (arena : CompressedArena) (column : EncodedColumn)
    (input : Bytes) : Prop where
  stored : ∃ pieces, List.Forall₂ (ChunkHolds decoder arena) column.chunks pieces ∧
    pieces.flatten ++ column.pendingBytes = input
  mode : column.ModePositive

theorem Contents.extend (h : Contents decoder arena column input) (hext : arena.Extends later) :
    Contents decoder later column input := by
  obtain ⟨pieces, hpieces, hinput⟩ := h.stored
  exact ⟨⟨pieces, hpieces.imp fun _ _ hchunk => hchunk.extend hext, hinput⟩, h.mode⟩

theorem fileChunk_contents (hinv : lz4.InvertedBy decoder)
    {choice : Option (Bytes × CompressionTransform × CompressionFormat)}
    (h : Contents decoder arena column input)
    (hchoice : compressedChunk lz4 column column.pendingBytes = .ok choice) :
    arena.Extends (fileChunk column arena column.pendingBytes choice).2 ∧
      Contents decoder (fileChunk column arena column.pendingBytes choice).2
        (fileChunk column arena column.pendingBytes choice).1 input := by
  obtain ⟨pieces, hpieces, rfl⟩ := h.stored
  rcases choice with _ | ⟨compressed, transform, format⟩
  · refine ⟨.refl arena, ⟨pieces ++ [column.pendingBytes], ?_, by simp [fileChunk, pendingBytes]⟩,
      by rintro _ ⟨⟩⟩
    exact List.rel_append hpieces (.cons rfl .nil)
  · have hext := arena.store_extends compressed
    obtain ⟨hpositive, hcompressed⟩ := compressedChunk_some h.mode hchoice
    have hdecoded := decodedBytes_compressedBytes hinv hcompressed
    rw [transform.length_apply] at hdecoded
    refine ⟨hext, ⟨pieces ++ [column.pendingBytes], ?_, by simp [fileChunk, pendingBytes]⟩, ?_⟩
    · refine List.rel_append (hpieces.imp fun _ _ hchunk => hchunk.extend hext) (.cons ?_ .nil)
      exact ⟨compressed, arena.store_holds compressed, rfl, rfl, hpositive, hdecoded⟩
    · intro used hused
      cases hused
      exact hpositive

theorem finishPending_contents (hinv : lz4.InvertedBy decoder)
    (h : Contents decoder arena column input)
    (hfinish : finishPending lz4 column arena = .ok (next, later)) :
    arena.Extends later ∧ Contents decoder later next input ∧ next.pending = none := by
  unfold finishPending at hfinish
  split at hfinish
  · rename_i hnone
    cases hfinish
    exact ⟨.refl arena, h, hnone⟩
  · rename_i pending hpending
    obtain ⟨choice, hchoice, hfile⟩ := map_eq_ok.mp hfinish
    have hdata : pending.data = column.pendingBytes := by simp [pendingBytes, hpending]
    rw [hdata] at hchoice hfile
    obtain ⟨hext, hcontents⟩ := fileChunk_contents hinv h hchoice
    rw [hfile] at hext hcontents
    refine ⟨hext, hcontents, ?_⟩
    rcases choice with _ | ⟨compressed, transform, format⟩ <;> cases hfile <;> rfl

theorem finishPending_fails (h : finishPending lz4 column arena = .error error) :
    lz4.Fails error := by
  unfold finishPending at h
  split at h
  · cases h
  · exact compressedChunk_fails (map_eq_error.mp h)

def Room (column : EncodedColumn) : Prop :=
  ∀ pending, column.pending = some pending → pending.data.length < pending.capacity

theorem room_of_none (h : column.pending = none) : column.Room := by
  intro pending hpending
  rw [h] at hpending
  cases hpending

theorem pendingOr_data (column : EncodedColumn) (bytes : Bytes) :
    (pendingOr column bytes).data = column.pendingBytes := by
  unfold pendingOr pendingBytes
  cases column.pending <;> rfl

theorem pendingOr_room (h : column.Room) (bytes : Bytes) :
    (pendingOr column bytes).data.length < (pendingOr column bytes).capacity := by
  unfold pendingOr
  cases hpending : column.pending with
  | none =>
    have hpos : 0 < minEncodeBufferBytes := by decide
    exact lt_of_lt_of_le hpos (le_max_left _ _)
  | some pending => exact h pending hpending

theorem fill_length {pending : PendingEncodedChunk} (h : pending.data.length < pending.capacity)
    (bytes : Bytes) : (fill pending bytes).data.length ≤ (fill pending bytes).capacity := by
  simp only [fill, copiedLen, List.length_append, List.length_take]
  omega

theorem finishIfFull_room (hfilled : filled.data.length ≤ filled.capacity)
    (h : finishIfFull lz4 column arena filled = .ok (next, later)) : next.Room := by
  unfold finishIfFull at h
  split at h
  · unfold finishPending at h
    obtain ⟨choice, -, hfile⟩ := map_eq_ok.mp h
    refine room_of_none ?_
    rcases choice with _ | ⟨compressed, transform, format⟩ <;> cases hfile <;> rfl
  · rename_i hne
    cases h
    rintro pending ⟨⟩
    exact lt_of_le_of_ne hfilled hne

theorem finishIfFull_contents (hinv : lz4.InvertedBy decoder) {extra : Bytes}
    (h : Contents decoder arena column input)
    (hfilled : filled.data = column.pendingBytes ++ extra)
    (hfinish : finishIfFull lz4 column arena filled = .ok (next, later)) :
    arena.Extends later ∧ Contents decoder later next (input ++ extra) := by
  have hadded : Contents decoder arena { column with pending := some filled } (input ++ extra) := by
    obtain ⟨pieces, hpieces, rfl⟩ := h.stored
    refine ⟨⟨pieces, hpieces, ?_⟩, h.mode⟩
    simp only [pendingBytes] at hfilled ⊢
    rw [hfilled, List.append_assoc]
  unfold finishIfFull at hfinish
  split at hfinish
  · obtain ⟨hext, hcontents, -⟩ := finishPending_contents hinv hadded hfinish
    exact ⟨hext, hcontents⟩
  · cases hfinish
    exact ⟨.refl arena, hadded⟩

theorem finishIfFull_fails (h : finishIfFull lz4 column arena filled = .error error) :
    lz4.Fails error := by
  unfold finishIfFull at h
  split at h
  · exact finishPending_fails h
  · cases h

theorem pushFrom_contents (hinv : lz4.InvertedBy decoder) {fuel : Nat} {bytes : Bytes}
    (h : Contents decoder arena column input) (hroom : column.Room)
    (hpush : pushFrom lz4 fuel column arena bytes = .ok (next, later)) :
    arena.Extends later ∧ Contents decoder later next (input ++ bytes) ∧ next.Room := by
  induction fuel generalizing column arena input bytes with
  | zero =>
    cases bytes with
    | nil =>
      cases hpush
      exact ⟨.refl _, by simpa using h, hroom⟩
    | cons byte bytes => cases hpush
  | succ fuel ih =>
    cases bytes with
    | nil =>
      cases hpush
      exact ⟨.refl _, by simpa using h, hroom⟩
    | cons byte bytes =>
      simp only [pushFrom, bind_eq_ok] at hpush
      obtain ⟨⟨middle, between⟩, hfull, hrest⟩ := hpush
      have hdata : (fill (pendingOr column (byte :: bytes)) (byte :: bytes)).data =
          column.pendingBytes ++
            (byte :: bytes).take (copiedLen (pendingOr column (byte :: bytes)) (byte :: bytes)) := by
        rw [fill, pendingOr_data]
      obtain ⟨hext, hcontents⟩ := finishIfFull_contents hinv h hdata hfull
      have hmiddle := finishIfFull_room (fill_length (pendingOr_room hroom _) _) hfull
      obtain ⟨hext', hcontents', hroom'⟩ := ih hcontents hmiddle hrest
      rw [List.append_assoc, List.take_append_drop] at hcontents'
      exact ⟨hext.trans hext', hcontents', hroom'⟩

-- A pending chunk always has room, so each turn of the loop copies a byte.
theorem pushFrom_fails {fuel : Nat} {bytes : Bytes} (hroom : column.Room)
    (hfuel : bytes.length ≤ fuel) (h : pushFrom lz4 fuel column arena bytes = .error error) :
    lz4.Fails error := by
  induction fuel generalizing column arena bytes with
  | zero =>
    obtain rfl : bytes = [] := List.length_eq_zero_iff.mp (Nat.le_zero.mp hfuel)
    cases h
  | succ fuel ih =>
    cases bytes with
    | nil => cases h
    | cons byte bytes =>
      simp only [pushFrom, bind_eq_error] at h
      have hpending := pendingOr_room hroom (byte :: bytes)
      rcases h with hfull | ⟨⟨middle, between⟩, hfull, hrest⟩
      · exact finishIfFull_fails hfull
      · refine ih (finishIfFull_room (fill_length hpending _) hfull) ?_ hrest
        simp only [List.length_cons] at hfuel
        simp only [List.length_drop, copiedLen, List.length_cons]
        omega

end EncodedColumn

end Columns

section Runs
variable {n : Nat}

structure ColumnStorage (n : Nat) where
  columns : Fin n → EncodedColumn
  arena : CompressedArena

inductive StorageCall (n : Nat) where
  | push (column : Fin n) (bytes : Bytes)
  | finish (column : Fin n)

namespace ColumnStorage

def new (fixedWidth : Fin n → Option Nat) (wireCompression : Fin n → WireCompression) :
    ColumnStorage n :=
  ⟨fun column => .new (fixedWidth column) (wireCompression column), ⟨[]⟩⟩

def update (storage : ColumnStorage n) (column : Fin n) (next : EncodedColumn × CompressedArena) :
    ColumnStorage n :=
  ⟨Function.update storage.columns column next.1, next.2⟩

def call (lz4 : Lz4) (storage : ColumnStorage n) : StorageCall n → Except IngestError (ColumnStorage n)
  | .push column bytes =>
    ((storage.columns column).push lz4 storage.arena bytes).map (storage.update column)
  | .finish column =>
    ((storage.columns column).finishPending lz4 storage.arena).map (storage.update column)

def run (lz4 : Lz4) : ColumnStorage n → List (StorageCall n) → Except IngestError (ColumnStorage n)
  | storage, [] => .ok storage
  | storage, next :: calls => do
    let storage ← storage.call lz4 next
    run lz4 storage calls

end ColumnStorage

def StorageCall.input (column : Fin n) : StorageCall n → Bytes
  | .push target bytes => if target = column then bytes else []
  | .finish _ => []

def pushedTo (column : Fin n) (calls : List (StorageCall n)) : Bytes :=
  calls.flatMap (StorageCall.input column)

def finishAll (n : Nat) : List (StorageCall n) := (List.finRange n).map .finish

variable {lz4 : Lz4} {decoder : Lz4Decoder}

structure ColumnStorage.Holds (decoder : Lz4Decoder) (storage : ColumnStorage n)
    (input : Fin n → Bytes) : Prop where
  contents : ∀ column,
    EncodedColumn.Contents decoder storage.arena (storage.columns column) (input column)
  room : ∀ column, (storage.columns column).Room

namespace ColumnStorage
variable {storage : ColumnStorage n} {input : Fin n → Bytes} {column : Fin n}

theorem new_holds (fixedWidth : Fin n → Option Nat) (wireCompression : Fin n → WireCompression) :
    (new fixedWidth wireCompression).Holds decoder fun _ => [] :=
  ⟨fun _ => ⟨⟨[], .nil, rfl⟩, by rintro _ ⟨⟩⟩, fun _ => EncodedColumn.room_of_none rfl⟩

theorem update_holds {next : EncodedColumn} {later : CompressedArena} {bytes : Bytes}
    (h : storage.Holds decoder input) (hext : storage.arena.Extends later)
    (hcontents : EncodedColumn.Contents decoder later next (input column ++ bytes))
    (hroom : next.Room) :
    (storage.update column (next, later)).Holds decoder
      fun other => input other ++ if column = other then bytes else [] := by
  constructor
  · intro other
    by_cases hother : column = other
    · subst hother
      simpa [update] using hcontents
    · simpa [update, Function.update_of_ne (Ne.symm hother), hother] using
        (h.contents other).extend hext
  · intro other
    by_cases hother : column = other
    · subst hother
      simpa [update] using hroom
    · simpa [update, Function.update_of_ne (Ne.symm hother)] using h.room other

theorem call_holds (hinv : lz4.InvertedBy decoder) {next : ColumnStorage n} {step : StorageCall n}
    (h : storage.Holds decoder input) (hcall : storage.call lz4 step = .ok next) :
    storage.arena.Extends next.arena ∧
      next.Holds decoder fun column => input column ++ step.input column := by
  cases step with
  | push column bytes =>
    obtain ⟨⟨column', later⟩, hpush, rfl⟩ := map_eq_ok.mp hcall
    obtain ⟨hext, hcontents, hroom⟩ :=
      EncodedColumn.pushFrom_contents hinv (h.contents column) (h.room column) hpush
    exact ⟨hext, update_holds h hext hcontents hroom⟩
  | finish column =>
    obtain ⟨⟨column', later⟩, hfinish, rfl⟩ := map_eq_ok.mp hcall
    obtain ⟨hext, hcontents, hnone⟩ :=
      EncodedColumn.finishPending_contents hinv (h.contents column) hfinish
    refine ⟨hext, ?_⟩
    simpa [StorageCall.input] using
      @update_holds n decoder storage input column column' later [] h hext
        (by simpa using hcontents) (EncodedColumn.room_of_none hnone)

theorem call_fails {step : StorageCall n} {error : IngestError} (h : storage.Holds decoder input)
    (hcall : storage.call lz4 step = .error error) : lz4.Fails error := by
  cases step with
  | push column bytes =>
    exact EncodedColumn.pushFrom_fails (h.room column) (le_refl _) (map_eq_error.mp hcall)
  | finish column => exact EncodedColumn.finishPending_fails (map_eq_error.mp hcall)

theorem run_holds (hinv : lz4.InvertedBy decoder) {calls : List (StorageCall n)}
    {final : ColumnStorage n} (h : storage.Holds decoder input)
    (hrun : run lz4 storage calls = .ok final) :
    storage.arena.Extends final.arena ∧
      final.Holds decoder fun column => input column ++ pushedTo column calls := by
  induction calls generalizing storage input with
  | nil =>
    cases hrun
    exact ⟨.refl _, by simpa [pushedTo] using h⟩
  | cons step calls ih =>
    simp only [run, bind_eq_ok] at hrun
    obtain ⟨middle, hcall, hrest⟩ := hrun
    obtain ⟨hext, hmiddle⟩ := call_holds hinv h hcall
    obtain ⟨hext', hfinal⟩ := ih hmiddle hrest
    exact ⟨hext.trans hext', by simpa [pushedTo, List.append_assoc] using hfinal⟩

theorem run_fails (hinv : lz4.InvertedBy decoder) {calls : List (StorageCall n)}
    {error : IngestError} (h : storage.Holds decoder input)
    (hrun : run lz4 storage calls = .error error) : lz4.Fails error := by
  induction calls generalizing storage input with
  | nil => cases hrun
  | cons step calls ih =>
    simp only [run, bind_eq_error] at hrun
    rcases hrun with hcall | ⟨middle, hcall, hrest⟩
    · exact call_fails h hcall
    · exact ih (call_holds hinv h hcall).2 hrest

theorem run_append (storage : ColumnStorage n) (first second : List (StorageCall n)) :
    run lz4 storage (first ++ second) = run lz4 storage first >>= fun middle =>
      run lz4 middle second := by
  induction first generalizing storage with
  | nil => rfl
  | cons step first ih =>
    simp only [List.cons_append, run]
    cases storage.call lz4 step with
    | error error => rfl
    | ok middle => exact ih middle

theorem finish_pending {next : ColumnStorage n} (h : storage.call lz4 (.finish column) = .ok next)
    (other : Fin n) (hother : other = column ∨ (storage.columns other).pending = none) :
    (next.columns other).pending = none := by
  obtain ⟨⟨column', later⟩, hfinish, rfl⟩ := map_eq_ok.mp h
  have hnone : column'.pending = none := by
    unfold EncodedColumn.finishPending at hfinish
    split at hfinish
    · rename_i hnone
      cases hfinish
      exact hnone
    · obtain ⟨choice, -, hfile⟩ := map_eq_ok.mp hfinish
      rcases choice with _ | ⟨compressed, transform, format⟩ <;> cases hfile <;> rfl
  by_cases hsame : other = column
  · subst hsame
    simpa [update] using hnone
  · simpa [update, Function.update_of_ne hsame] using hother.resolve_left hsame

theorem finishes_pending {columns : List (Fin n)} {final : ColumnStorage n}
    (h : run lz4 storage (columns.map .finish) = .ok final) (other : Fin n)
    (hother : other ∈ columns ∨ (storage.columns other).pending = none) :
    (final.columns other).pending = none := by
  induction columns generalizing storage with
  | nil =>
    cases h
    exact hother.resolve_left List.not_mem_nil
  | cons column columns ih =>
    simp only [List.map_cons, run, bind_eq_ok] at h
    obtain ⟨middle, hcall, hrest⟩ := h
    refine ih hrest ?_
    rcases hother with hother | hother
    · rcases List.mem_cons.mp hother with hsame | hmem
      · exact .inr (finish_pending hcall other (.inl hsame))
      · exact .inl hmem
    · exact .inr (finish_pending hcall other (.inr hother))

theorem pushedTo_finishAll (column : Fin n) (calls : List (StorageCall n)) :
    pushedTo column (calls ++ finishAll n) = pushedTo column calls := by
  simp [pushedTo, finishAll, List.flatMap_append, List.flatMap_map, StorageCall.input]

theorem Holds.restored (h : storage.Holds decoder input)
    (hnone : (storage.columns column).pending = none) (unshuffled : Option Bytes) :
    uploadChunks decoder false storage.arena unshuffled (storage.columns column).chunks =
      .ok (input column) := by
  obtain ⟨pieces, hpieces, hinput⟩ := (h.contents column).stored
  rw [uploadChunks_holds hpieces, ← hinput, EncodedColumn.pendingBytes, hnone, List.append_nil]

theorem Holds.slice_kept {later : CompressedArena} (h : storage.Holds decoder input)
    (hext : storage.arena.Extends later) {data : CompressedData} {len decodedLen : Nat}
    {transform : CompressionTransform} {format : CompressionFormat}
    (hchunk : .lz4 data len decodedLen transform format ∈ (storage.columns column).chunks) :
    ∃ bytes, storage.arena.slice data len = some bytes ∧ later.slice data len = some bytes := by
  obtain ⟨pieces, hpieces, -⟩ := (h.contents column).stored
  obtain ⟨i, hi, hget⟩ := List.getElem_of_mem hchunk
  have hholds := hpieces.get hi (hpieces.length_eq ▸ hi)
  simp only [List.get_eq_getElem, hget] at hholds
  obtain ⟨compressed, hheld, rfl, -⟩ := hholds
  exact ⟨compressed, hheld.slice_eq, (hext _ _ hheld).slice_eq⟩

end ColumnStorage

theorem column_storage_lossless (hinv : lz4.InvertedBy decoder)
    (fixedWidth : Fin n → Option Nat) (wireCompression : Fin n → WireCompression)
    (calls : List (StorageCall n)) :
    (∀ error, (ColumnStorage.new fixedWidth wireCompression).run lz4 (calls ++ finishAll n) =
        .error error → ∃ format input, compressedBytes lz4 format input = .error error) ∧
    (∀ final, (ColumnStorage.new fixedWidth wireCompression).run lz4 (calls ++ finishAll n) =
        .ok final → ∀ column unshuffled,
      uploadChunks decoder false final.arena unshuffled (final.columns column).chunks =
        .ok (pushedTo column calls)) ∧
    (∀ (more : List (StorageCall n)) (middle final : ColumnStorage n),
      (ColumnStorage.new fixedWidth wireCompression).run lz4 calls = .ok middle →
      middle.run lz4 more = .ok final → ∀ column data len decodedLen transform format,
      .lz4 data len decodedLen transform format ∈ (middle.columns column).chunks →
      ∃ bytes, middle.arena.slice data len = some bytes ∧
        final.arena.slice data len = some bytes) ∧
    ∀ (width : Nat) (input output : Bytes), 0 < width → output.length = input.length →
      unshuffleBytes (shuffleBytes input width) width output = input := by
  have hnew := @ColumnStorage.new_holds n decoder fixedWidth wireCompression
  refine ⟨?_, ?_, ?_, fun width input output hw hlen => unshuffleBytes_shuffleBytes hw hlen⟩
  · intro error hrun
    exact ColumnStorage.run_fails hinv hnew hrun
  · intro final hrun column unshuffled
    obtain ⟨-, hholds⟩ := ColumnStorage.run_holds hinv hnew hrun
    rw [ColumnStorage.run_append, bind_eq_ok] at hrun
    obtain ⟨middle, -, hfinish⟩ := hrun
    have hnone := ColumnStorage.finishes_pending hfinish column (.inl (List.mem_finRange column))
    rw [hholds.restored hnone, ColumnStorage.pushedTo_finishAll, List.nil_append]
  · intro more middle final hrun hmore column data len decodedLen transform format hchunk
    obtain ⟨-, hholds⟩ := ColumnStorage.run_holds hinv hnew hrun
    obtain ⟨hext, -⟩ := ColumnStorage.run_holds hinv hholds hmore
    exact hholds.slice_kept hext hchunk

-- A block that is one run of literals, and a frame of 64 KiB blocks that stores its only one.
def literalBlock (input : Bytes) : Bytes :=
  if input.length < 15 then UInt8.ofNat (input.length * 16) :: input
  else 240 :: (List.replicate ((input.length - 15) / 255) 255 ++
    [UInt8.ofNat ((input.length - 15) % 255)]) ++ input

def storedFrame (input : Bytes) : Bytes :=
  [0x04, 0x22, 0x4D, 0x18, 0x60, 0x40, 0x82] ++
    (if input = [] then [] else leBytes (BitVec.ofNat 32 (2 ^ 31 + input.length))) ++ input ++
    [0, 0, 0, 0]

def storedLz4 : Lz4 := ⟨fun input => .ok (literalBlock input), fun input => .ok (storedFrame input)⟩

def storedDecoder : Lz4Decoder where
  decompressBlock block length := .ok (block.drop (block.length - length))
  readExact frame length := .ok ((frame.drop (frame.length - 4 - length)).take length)
  readTrailing _ _ := .ok 0

theorem literalBlock_suffix (input : Bytes) : input <:+ literalBlock input := by
  unfold literalBlock
  split_ifs
  · exact List.suffix_cons _ _
  · exact List.suffix_append _ _

theorem storedFrame_suffix (input : Bytes) : input ++ [0, 0, 0, 0] <:+ storedFrame input := by
  rw [storedFrame, List.append_assoc]
  exact List.suffix_append _ _

theorem storedLz4_inverted : storedLz4.InvertedBy storedDecoder := by
  constructor
  · rintro input _ ⟨⟩
    exact congrArg Except.ok (List.suffix_iff_eq_drop.mp (literalBlock_suffix input)).symm
  · rintro input _ ⟨⟩
    refine ⟨congrArg Except.ok ?_, rfl⟩
    have hlength : (storedFrame input).length - 4 - input.length =
        (storedFrame input).length - (input ++ [0, 0, 0, 0]).length := by
      rw [List.length_append, Nat.sub_sub, Nat.add_comm]
      rfl
    rw [hlength, ← List.suffix_iff_eq_drop.mp (storedFrame_suffix input), List.take_left]

def twoColumnCalls : List (StorageCall 2) :=
  [.push 0 [1, 2, 3], .push 1 [4], .finish 0, .push 0 [5]]

theorem two_columns_restored :
    ∃ final, (ColumnStorage.new (fun _ => some 2) fun _ => .lz4).run storedLz4
        (twoColumnCalls ++ finishAll 2) = .ok final ∧
      uploadChunks storedDecoder false final.arena none (final.columns 0).chunks =
        .ok [1, 2, 3, 5] ∧
      uploadChunks storedDecoder false final.arena none (final.columns 1).chunks = .ok [4] := by
  obtain ⟨hfails, hrestored, -, -⟩ := column_storage_lossless storedLz4_inverted
    (fun _ => some 2) (fun _ => .lz4) twoColumnCalls
  cases hrun : (ColumnStorage.new (fun _ => some 2) fun _ => .lz4).run storedLz4
      (twoColumnCalls ++ finishAll 2) with
  | error error =>
    obtain ⟨format, input, hfail⟩ := hfails error hrun
    cases format <;> cases hfail
  | ok final => exact ⟨final, rfl, hrestored final hrun 0 none, hrestored final hrun 1 none⟩

end Runs

end MonetdbAdbc.Driver
