import MonetdbAdbc.Driver.IngestWindows
import MonetdbAdbc.Driver.ColumnStorage
import MonetdbAdbc.Driver.RetainedUpload

namespace MonetdbAdbc.Driver
open LittleEndian Machine Calendar

section Upload
variable (encoding : WindowEncoding) (decoder : Lz4Decoder)

def uploadWrites (wireLz4 : Bool) (arena : CompressedArena) :
    Option Bytes → List EncodedChunk → Except IngestError (List Bytes)
  | _, [] => .ok []
  | unshuffled, chunk :: chunks => do
    let (bytes, unshuffled) ← uploadChunk decoder wireLz4 arena unshuffled chunk
    let rest ← uploadWrites wireLz4 arena unshuffled chunks
    .ok (bytes :: rest)

def retainedWrites (schema : List Field) (batches : List RecordBatch) (index : Nat) :
    Except IngestError (List Bytes × Nat) :=
  match RetainedUpload.columnOutput encoding.dateFromUnixDays
      ⟨schema, batches.map RecordBatch.columns⟩ index with
  | none => .error (.fileTransfer "ingest encoder stopped before the upload completed")
  | some (chunks, .ok bytes) => .ok (chunks, bytes)
  | some (_, .error (.encode error)) => .error (.encode error)
  | some (_, .error (.sink error)) => error.elim

def countRetained (column : EncodedColumn) (windowBytes retainedBytes : Nat) :
    Except IngestError Nat := do
  let _ ← okOr (.fileTransfer "encoded ingest byte count overflows")
    (checkedAdd column.bytes retainedBytes)
  okOr (.fileTransfer "encoded ingest byte count overflows") (checkedAdd windowBytes retainedBytes)

def uploadColumn (schema : List Field) (window : EncodedIngestWindow) (index windowBytes : Nat) :
    Except IngestError (List Bytes × Nat) := do
  let column ← okOr .overflow window.columns[index]?
  let stored ← uploadWrites decoder window.usesWireLz4 window.compressedArena none column.chunks
  if window.retainedBatches.isEmpty then .ok (stored, windowBytes)
  else do
    let (retained, retainedBytes) ← retainedWrites encoding schema window.retainedBatches index
    let windowBytes ← countRetained column windowBytes retainedBytes
    .ok (stored ++ retained, windowBytes)

end Upload

section Framed
variable {lz4 : Lz4} {column next : EncodedColumn} {arena later : CompressedArena}

structure Framed (column : EncodedColumn) : Prop where
  wire : column.wireCompression = .lz4
  mode : column.compression = .unknown ∨ column.compression = .enabled .plain
  chunks : ∀ chunk ∈ column.chunks, EncodedIngestWindow.wireFrame chunk = true

theorem new_framed (fixedWidth : Option Nat) : Framed (.new fixedWidth .lz4) :=
  ⟨rfl, .inl rfl, by rintro _ ⟨⟩⟩

theorem Framed.chosen (h : Framed column) (input : Bytes) :
    EncodedColumn.chosenTransform lz4 column input = .ok (some .plain) := by
  unfold EncodedColumn.chosenTransform
  rcases h.mode with hmode | hmode <;> rw [hmode]
  rw [if_pos h.wire]

theorem Framed.compressed (h : Framed column) {input : Bytes}
    {choice : Option (Bytes × CompressionTransform × CompressionFormat)}
    (hchoice : EncodedColumn.compressedChunk lz4 column input = .ok choice) :
    ∃ bytes, choice = some (bytes, .plain, .frame) := by
  simp only [EncodedColumn.compressedChunk, h.chosen, ok_bind, EncodedColumn.compressedWith] at hchoice
  obtain ⟨compressed, -, rfl⟩ := map_eq_ok.mp hchoice
  refine ⟨compressed, ?_⟩
  rw [if_neg (by rw [h.wire]; simp), if_pos (by rw [h.wire]; simp)]

theorem Framed.finishPending (h : Framed column)
    (hfinish : EncodedColumn.finishPending lz4 column arena = .ok (next, later)) : Framed next := by
  unfold EncodedColumn.finishPending at hfinish
  split at hfinish
  · cases hfinish
    exact h
  · obtain ⟨choice, hchoice, hfile⟩ := map_eq_ok.mp hfinish
    obtain ⟨bytes, rfl⟩ := h.compressed hchoice
    cases hfile
    refine ⟨h.wire, .inr rfl, List.forall_mem_append.mpr ⟨h.chunks, ?_⟩⟩
    exact List.forall_mem_singleton.mpr rfl

theorem Framed.pushFrom (h : Framed column) {fuel : Nat} {bytes : Bytes}
    (hpush : EncodedColumn.pushFrom lz4 fuel column arena bytes = .ok (next, later)) :
    Framed next := by
  induction fuel generalizing column arena bytes with
  | zero =>
    cases bytes with
    | nil =>
      cases hpush
      exact h
    | cons byte bytes => cases hpush
  | succ fuel ih =>
    cases bytes with
    | nil =>
      cases hpush
      exact h
    | cons byte bytes =>
      simp only [EncodedColumn.pushFrom, bind_eq_ok] at hpush
      obtain ⟨⟨middle, between⟩, hfull, hrest⟩ := hpush
      have hfilled (filled : PendingEncodedChunk) : Framed { column with pending := some filled } :=
        ⟨h.wire, h.mode, h.chunks⟩
      refine ih ?_ hrest
      unfold EncodedColumn.finishIfFull at hfull
      split at hfull
      · exact (hfilled _).finishPending hfull
      · cases hfull
        exact hfilled _

end Framed

section Frames
variable {decoder : Lz4Decoder} {arena : CompressedArena}

-- What the server makes of one buffer: its bytes, or the contents of the frame it is.
def Receives (decoder : Lz4Decoder) (wireLz4 : Bool) (write piece : Bytes) : Prop :=
  if wireLz4 then decompressFrameInto decoder write piece.length = .ok piece else write = piece

theorem uploadWrites_wire {chunks : List EncodedChunk} {pieces : List Bytes}
    (h : List.Forall₂ (ChunkHolds decoder arena) chunks pieces)
    (hframes : ∀ chunk ∈ chunks, EncodedIngestWindow.wireFrame chunk = true)
    (unshuffled : Option Bytes) :
    ∃ writes, uploadWrites decoder true arena unshuffled chunks = .ok writes ∧
      List.Forall₂ (Receives decoder true) writes pieces := by
  induction h with
  | nil => exact ⟨[], rfl, .nil⟩
  | @cons chunk piece chunks pieces hchunk _ ih =>
    obtain ⟨hframe, hrest⟩ := List.forall_mem_cons.mp hframes
    obtain ⟨writes, hwrites, hreceives⟩ := ih hrest
    cases chunk with
    | raw data => cases hframe
    | lz4 data len decodedLen transform format =>
      obtain ⟨compressed, hholds, rfl, rfl, -, hdecoded⟩ := hchunk
      cases transform with
      | shuffle width => cases hframe
      | plain =>
        cases format with
        | block => cases hframe
        | frame =>
          refine ⟨compressed :: writes, ?_, .cons hdecoded hreceives⟩
          simp [uploadWrites, uploadChunk, hholds.slice_eq, hwrites]

theorem uploadWrites_plain {chunks : List EncodedChunk} {pieces : List Bytes}
    (h : List.Forall₂ (ChunkHolds decoder arena) chunks pieces) (unshuffled : Option Bytes) :
    uploadWrites decoder false arena unshuffled chunks = .ok pieces := by
  induction h generalizing unshuffled with
  | nil => rfl
  | cons hchunk _ ih =>
    obtain ⟨next, hupload⟩ := hchunk.upload unshuffled
    simp only [uploadWrites, hupload, ok_bind, ih next]

end Frames

section Encodes
variable {date : Int → Option Date} {field : Field}

def EncodesColumn (date : Int → Option Date) (field : Field) (arrays : List Column)
    (bytes : Bytes) : Prop :=
  ∃ cuts outputs, List.Forall₂ Covers arrays cuts ∧
    List.Forall₂ (fun slice output => encodeColumn date field slice = .ok output)
      (slicesOf arrays cuts) outputs ∧
    outputs.flatten = bytes

theorem EncodesColumn.nil : EncodesColumn date field [] [] := ⟨[], [], .nil, .nil, rfl⟩

theorem EncodesColumn.append {arrays arrays' : List Column} {bytes bytes' : Bytes}
    (h : EncodesColumn date field arrays bytes) (h' : EncodesColumn date field arrays' bytes') :
    EncodesColumn date field (arrays ++ arrays') (bytes ++ bytes') := by
  obtain ⟨cuts, outputs, hcovers, hencoded, rfl⟩ := h
  obtain ⟨cuts', outputs', hcovers', hencoded', rfl⟩ := h'
  refine ⟨cuts ++ cuts', outputs ++ outputs', List.rel_append hcovers hcovers', ?_, by simp⟩
  have hslices : slicesOf (arrays ++ arrays') (cuts ++ cuts') =
      slicesOf arrays cuts ++ slicesOf arrays' cuts' := by
    rw [slicesOf, List.zipWith_append hcovers.length_eq, List.flatten_append]
    rfl
  rw [hslices]
  exact List.rel_append hencoded hencoded'

theorem encodesColumn_of_pieces {arrays : List Column} {targetBytes : Nat} {chunks : List Bytes}
    (hsound : ∀ array ∈ arrays, array.dataType = field.dataType ∧ Resident array)
    (h : Encoded date field (allPieces field targetBytes arrays) chunks) :
    EncodesColumn date field arrays chunks.flatten := by
  obtain ⟨cuts, hcovers, hcuts⟩ := allPieces_slicesOf field targetBytes arrays
  have hcolumns := h.columns fun piece hpiece =>
    mem_allPieces (fun array harray => (hsound array harray).1)
      (fun array harray => (hsound array harray).2) hpiece
  rw [hcuts] at hcolumns
  exact ⟨cuts, chunks, hcovers, hcolumns, rfl⟩

end Encodes

section Columns
variable {encoding : WindowEncoding} {decoder : Lz4Decoder} {arena later : CompressedArena}
  {column : EncodedColumn} {columns : List EncodedColumn} {input : Nat → Bytes}

structure SteadyColumn (decoder : Lz4Decoder) (arena : CompressedArena) (column : EncodedColumn)
    (input : Bytes) : Prop where
  contents : column.Contents decoder arena input
  pending : column.pending = none

theorem emitChunks_contents (hinv : encoding.lz4.InvertedBy decoder) {input : Bytes}
    {chunks : List Bytes} (h : column.Contents decoder arena input) (hroom : column.Room)
    (hemits : EmitsAll (EncodedIngestWindow.emitChunk encoding) (column, arena) chunks)
    {next : EncodedColumn}
    (hfeed : (next, later) = feed (EncodedIngestWindow.emitChunk encoding) (column, arena) chunks) :
    arena.Extends later ∧ next.Contents decoder later (input ++ chunks.flatten) ∧
      (Framed column → Framed next) := by
  induction chunks generalizing column arena input with
  | nil =>
    cases hfeed
    exact ⟨.refl _, by simpa using h, id⟩
  | cons chunk chunks ih =>
    obtain ⟨hchunk, hrest⟩ := hemits
    unfold EncodedIngestWindow.emitChunk at hchunk
    split at hchunk
    · rename_i pushed hpush
      obtain ⟨middle, between⟩ := pushed
      have hstate : (EncodedIngestWindow.emitChunk encoding (column, arena) chunk).1 =
          (middle, between) := by
        rw [EncodedIngestWindow.emitChunk, hpush]
      rw [hstate] at hrest
      rw [feed, List.foldl_cons, hstate, ← feed] at hfeed
      obtain ⟨hext, hcontents, hmiddle⟩ := EncodedColumn.pushFrom_contents hinv h hroom hpush
      obtain ⟨hext', hcontents', hframed⟩ := ih hcontents hmiddle hrest hfeed
      refine ⟨hext.trans hext', by simpa using hcontents', fun hcolumn => ?_⟩
      exact hframed (hcolumn.pushFrom hpush)
    · cases hchunk

theorem appendColumn_steady (hinv : encoding.lz4.InvertedBy decoder) {field : Field}
    {arrays : List Column} {next : EncodedColumn} {input : Bytes} {columnBytes : Nat}
    (hsound : ∀ array ∈ arrays, array.dataType = field.dataType ∧ Resident array)
    (h : SteadyColumn decoder arena column input)
    (happend : EncodedIngestWindow.appendColumn encoding field arrays column arena =
      .ok ((next, later), columnBytes)) :
    ∃ added, arena.Extends later ∧ SteadyColumn decoder later next (input ++ added) ∧
      EncodesColumn encoding.dateFromUnixDays field arrays added ∧ (Framed column → Framed next) := by
  unfold EncodedIngestWindow.appendColumn at happend
  split at happend
  · cases happend
  · rename_i middle between total hencode
    obtain ⟨finished, hfinish, heq⟩ := map_eq_ok.mp happend
    cases heq
    obtain ⟨chunks, hchunks, hemits, hfeed⟩ := encodeColumnChunks_emits hencode
    obtain ⟨hext, hcontents, hframed⟩ := emitChunks_contents hinv h.contents
      (EncodedColumn.room_of_none h.pending) hemits hfeed
    simp only [EncodedIngestWindow.finishColumn, bind_eq_ok] at hfinish
    obtain ⟨⟨done, final⟩, hdone, bytes, -, heq⟩ := hfinish
    cases heq
    obtain ⟨hext', hcontents', hnone⟩ := EncodedColumn.finishPending_contents hinv hcontents hdone
    refine ⟨chunks.flatten, hext.trans hext', ⟨⟨hcontents'.stored, hcontents'.mode⟩, hnone⟩,
      encodesColumn_of_pieces hsound hchunks, fun hcolumn => ?_⟩
    have hfinal := (hframed hcolumn).finishPending hdone
    exact ⟨hfinal.wire, hfinal.mode, hfinal.chunks⟩

def ColumnsHold (decoder : Lz4Decoder) (arena : CompressedArena) (columns : List EncodedColumn)
    (input : Nat → Bytes) : Prop :=
  ∀ k column, columns[k]? = some column → SteadyColumn decoder arena column (input k)

structure ColumnsAppended (encoding : WindowEncoding) (decoder : Lz4Decoder) (fields : List Field)
    (arrays : Nat → List Column) (columns next : List EncodedColumn) (later : CompressedArena)
    (input added : Nat → Bytes) : Prop where
  hold : ColumnsHold decoder later next fun k => input k ++ added k
  length : next.length = columns.length
  encodes : ∀ k field, fields[k]? = some field →
    EncodesColumn encoding.dateFromUnixDays field (arrays k) (added k)
  framed : (∀ column ∈ columns, Framed column) → ∀ column ∈ next, Framed column

theorem ColumnsHold.cons (h : SteadyColumn decoder arena column (input 0))
    (hrest : ColumnsHold decoder arena columns fun k => input (k + 1)) :
    ColumnsHold decoder arena (column :: columns) input := by
  intro k found hfound
  cases k with
  | zero =>
    cases hfound
    exact h
  | succ k => exact hrest k found hfound

theorem ColumnsHold.extend (h : ColumnsHold decoder arena columns input)
    (hext : arena.Extends later) : ColumnsHold decoder later columns input :=
  fun k column hcolumn => ⟨(h k column hcolumn).contents.extend hext, (h k column hcolumn).pending⟩

-- Each column is encoded over the arena the columns before it left, which only grows.
theorem appendColumns_hold (hinv : encoding.lz4.InvertedBy decoder) {pending : List PendingBatch}
    {index encodedBytes total : Nat} {fields : List Field} {next : List EncodedColumn}
    (hlength : columns.length = fields.length) (hsound : ∀ k field, fields[k]? = some field →
      ∀ array ∈ EncodedIngestWindow.arraysAt (index + k) pending,
        array.dataType = field.dataType ∧ Resident array)
    (h : ColumnsHold decoder arena columns input)
    (happend : EncodedIngestWindow.appendColumns encoding pending index fields columns arena
      encodedBytes = .ok (next, later, total)) :
    ∃ added, arena.Extends later ∧ ColumnsAppended encoding decoder fields
      (fun k => EncodedIngestWindow.arraysAt (index + k) pending) columns next later input added := by
  induction fields generalizing index columns next arena input encodedBytes with
  | nil =>
    obtain rfl : columns = [] := List.length_eq_zero_iff.mp hlength
    cases happend
    refine ⟨fun _ => [], .refl _, ?_, rfl, ?_, id⟩
    · simpa using h
    · intro k field hfield
      cases hfield
  | cons field fields ih =>
    cases columns with
    | nil => cases hlength
    | cons column columns =>
      simp only [EncodedIngestWindow.appendColumns, bind_eq_ok] at happend
      obtain ⟨⟨⟨appended, between⟩, columnBytes⟩, hcolumn, counted, -, ⟨rest, final, sum⟩, hrest, heq⟩ :=
        happend
      cases heq
      obtain ⟨first, hext, hsteady, hencodes, hframed⟩ := appendColumn_steady hinv
        (hsound 0 field rfl) (h 0 column rfl) hcolumn
      have htail : ColumnsHold decoder between columns fun k => input (k + 1) :=
        ColumnsHold.extend (fun k column hcolumn => h (k + 1) column hcolumn) hext
      have hsound' : ∀ k field, fields[k]? = some field →
          ∀ array ∈ EncodedIngestWindow.arraysAt (index + 1 + k) pending,
            array.dataType = field.dataType ∧ Resident array := by
        intro k field hfield
        rw [Nat.add_assoc, Nat.add_comm 1 k]
        exact hsound (k + 1) field hfield
      obtain ⟨added, hext', happended⟩ := ih (Nat.succ.inj hlength) hsound' htail hrest
      refine ⟨fun k => Nat.casesOn k first added, hext.trans hext', ?_, ?_, ?_, ?_⟩
      · refine .cons ⟨hsteady.contents.extend hext', hsteady.pending⟩ happended.hold
      · simp [happended.length]
      · intro k other hother
        cases k with
        | zero =>
          cases hother
          exact hencodes
        | succ k =>
          have hrest := happended.encodes k other hother
          dsimp only at hrest ⊢
          rwa [Nat.add_assoc, Nat.add_comm 1 k] at hrest
      · intro hall
        obtain ⟨hhead, hall⟩ := List.forall_mem_cons.mp hall
        exact List.forall_mem_cons.mpr ⟨hframed hhead, happended.framed hall⟩

end Columns

section Window
variable {encoding : WindowEncoding} {decoder : Lz4Decoder} {budgets : IngestBudgets}
  {schema : List Field} {window next : EncodedIngestWindow} {stored retained : List PendingBatch}
  {pending : List PendingBatch}

open EncodedIngestWindow

-- The batches a window took: the first ones encoded in its columns, the later ones kept as Arrow.
structure WindowHolds (encoding : WindowEncoding) (decoder : Lz4Decoder) (schema : List Field)
    (window : EncodedIngestWindow) (stored retained : List PendingBatch) : Prop where
  length : window.columns.length = schema.length
  columns : ∃ input, ColumnsHold decoder window.compressedArena window.columns input ∧
    ∀ k field, schema[k]? = some field →
      EncodesColumn encoding.dateFromUnixDays field (arraysAt k stored) (input k)
  batches : window.retainedBatches = retained.map PendingBatch.batch
  switch : window.retainArrow = false → retained = []
  framed : window.wireCompression = .lz4 →
    window.retainArrow = false ∧ ∀ column ∈ window.columns, Framed column

theorem arraysAt_append (index : Nat) (first second : List PendingBatch) :
    arraysAt index (first ++ second) = arraysAt index first ++ arraysAt index second :=
  List.filterMap_append

theorem arraysAt_sound (h : EntriesEstimated schema pending) {k : Nat} {field : Field}
    (hfield : schema[k]? = some field) :
    ∀ array ∈ arraysAt k pending, array.dataType = field.dataType ∧ Resident array := by
  intro array harray
  obtain ⟨entry, hentry, hcolumn⟩ := List.mem_filterMap.mp harray
  have haligned := entry.batch.aligned
  rw [(h entry hentry).schema_eq] at haligned
  obtain ⟨hk, rfl⟩ := List.getElem?_eq_some_iff.mp hfield
  obtain ⟨hk', rfl⟩ := List.getElem?_eq_some_iff.mp hcolumn
  exact ⟨((List.forall₂_iff_get.mp haligned).2 k hk hk').1,
    entry.batch.resident _ (List.getElem_mem hk')⟩

theorem columnsFor_new {wireCompression : WireCompression} {fields : List Field}
    {columns : List EncodedColumn} (h : columnsFor wireCompression fields = .ok columns) :
    columns.length = fields.length ∧
      ∀ column ∈ columns, ∃ width, column = .new width wireCompression := by
  induction fields generalizing columns with
  | nil =>
    cases h
    exact ⟨rfl, by rintro _ ⟨⟩⟩
  | cons field fields ih =>
    simp only [columnsFor, bind_eq_ok] at h
    obtain ⟨width, -, rest, hrest, heq⟩ := h
    cases heq
    obtain ⟨hlength, hnew⟩ := ih hrest
    exact ⟨by simp [hlength], List.forall_mem_cons.mpr ⟨⟨width, rfl⟩, hnew⟩⟩

theorem forSchema_holds {start : EncodedIngestWindow}
    (h : forSchema schema budgets.wireCompression = .ok start) :
    WindowHolds encoding decoder schema start [] [] := by
  obtain ⟨columns, hcolumns, rfl⟩ := map_eq_ok.mp h
  obtain ⟨hlength, hnew⟩ := columnsFor_new hcolumns
  refine ⟨hlength, ⟨fun _ => [], ?_, fun k field _ => .nil⟩, rfl, fun _ => rfl, fun hwire => ⟨rfl, ?_⟩⟩
  · intro k column hcolumn
    obtain ⟨width, rfl⟩ := hnew column (List.mem_of_getElem? hcolumn)
    exact ⟨⟨⟨[], .nil, rfl⟩, by rintro _ ⟨⟩⟩, rfl⟩
  · intro column hcolumn
    obtain ⟨width, rfl⟩ := hnew column hcolumn
    dsimp only at hwire
    rw [hwire]
    exact new_framed width

theorem encodeBatches_holds (hinv : encoding.lz4.InvertedBy decoder)
    (hentries : EntriesEstimated schema pending)
    (h : WindowHolds encoding decoder schema window stored [])
    (hencode : encodeBatches encoding window schema pending = .ok next) :
    WindowHolds encoding decoder schema next (stored ++ pending) [] := by
  obtain ⟨⟨columns, arena, total⟩, happend, rfl⟩ := map_eq_ok.mp hencode
  obtain ⟨input, hhold, hencodes⟩ := h.columns
  have hsound : ∀ k field, schema[k]? = some field → ∀ array ∈ arraysAt (0 + k) pending,
      array.dataType = field.dataType ∧ Resident array := by
    intro k field hfield
    rw [Nat.zero_add]
    exact arraysAt_sound hentries hfield
  obtain ⟨added, -, happended⟩ := appendColumns_hold hinv h.length hsound hhold happend
  refine ⟨happended.length.trans h.length, ⟨_, happended.hold, fun k field hfield => ?_⟩, h.batches,
    fun _ => rfl, fun hwire => ?_⟩
  · rw [arraysAt_append]
    have hmore := happended.encodes k field hfield
    rw [Nat.zero_add] at hmore
    exact (hencodes k field hfield).append hmore
  · obtain ⟨-, hframed⟩ := h.framed hwire
    dsimp only at hwire ⊢
    exact ⟨by simp [hwire], happended.framed hframed⟩

theorem Stored.holds (hinv : encoding.lz4.InvertedBy decoder)
    (h : WindowHolds encoding decoder schema window stored retained)
    (hstored : Stored encoding budgets schema window pending next) :
    ∃ stored' retained', stored' ++ retained' = stored ++ retained ++ pending ∧
      WindowHolds encoding decoder schema next stored' retained' := by
  obtain ⟨middle, hstore, rfl⟩ := append_ok hstored.append
  simp only [storeBatches] at hstore
  split at hstore
  · rename_i hretain
    obtain ⟨bytes, -, rfl⟩ := map_eq_ok.mp hstore
    refine ⟨stored, retained ++ pending, by rw [List.append_assoc], h.length, h.columns, ?_, ?_, ?_⟩
    · simp [h.batches]
    · intro hswitch
      dsimp only at hswitch
      rw [hretain] at hswitch
      cases hswitch
    · intro hwire
      exact h.framed hwire
  · rename_i hretain
    have hnone := h.switch (Bool.eq_false_iff.mpr hretain)
    subst hnone
    have hnoted : WindowHolds encoding decoder schema { window with
        retainArrowEligible := window.retainArrowEligible &&
          pending.all fun entry => entry.batch.columns.all fun column => Column.nullCount column == 0
        coalesced := window.coalesced || decide (1 < pending.length) ||
          pending.any fun entry => decide (0 < entry.compactionLevel) } stored [] :=
      ⟨h.length, h.columns, h.batches, fun _ => rfl, h.framed⟩
    have hnext := encodeBatches_holds hinv hstored.entries hnoted hstore
    refine ⟨stored ++ pending, [], by simp, hnext.length, hnext.columns, hnext.batches, hnext.switch, ?_⟩
    exact hnext.framed

theorem Built.holds (hinv : encoding.lz4.InvertedBy decoder) {start : EncodedIngestWindow}
    {groups : List (List PendingBatch)}
    (hstart : forSchema schema budgets.wireCompression = .ok start)
    (h : Built encoding budgets schema start groups window) :
    ∃ stored retained, stored ++ retained = groups.flatten ∧
      WindowHolds encoding decoder schema window stored retained := by
  induction h with
  | start => exact ⟨[], [], rfl, forSchema_holds hstart⟩
  | snoc _ hstored ih =>
    obtain ⟨stored, retained, hgroups, hholds⟩ := ih
    obtain ⟨stored', retained', hall, hnext⟩ := hstored.holds hinv hholds
    refine ⟨stored', retained', ?_, hnext⟩
    rw [hall, hgroups]
    simp

theorem finishColumns_steady {columns : List EncodedColumn} (arena : CompressedArena)
    (h : ∀ column ∈ columns, column.pending = none) :
    finishColumns encoding columns arena = .ok (columns, arena) := by
  induction columns with
  | nil => rfl
  | cons column columns ih =>
    obtain ⟨hcolumn, hrest⟩ := List.forall_mem_cons.mp h
    simp only [finishColumns, EncodedColumn.finishPending, hcolumn, ok_bind, ih hrest]

theorem WindowHolds.finish (h : WindowHolds encoding decoder schema window stored retained)
    (hfinish : window.finish encoding = .ok next) : next = window := by
  obtain ⟨input, hhold, -⟩ := h.columns
  have hpending : ∀ column ∈ window.columns, column.pending = none := by
    intro column hcolumn
    obtain ⟨k, hk, rfl⟩ := List.getElem_of_mem hcolumn
    exact (hhold k _ (List.getElem?_eq_getElem hk)).pending
  rw [EncodedIngestWindow.finish, finishColumns_steady _ hpending] at hfinish
  exact (Except.ok.inj hfinish).symm

end Window

end MonetdbAdbc.Driver
