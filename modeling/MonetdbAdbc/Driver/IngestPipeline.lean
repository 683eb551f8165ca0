import MonetdbAdbc.Driver.WindowUpload
import MonetdbAdbc.Driver.WindowBudgets

namespace MonetdbAdbc.Driver
open LittleEndian Machine IngestWindowScheduler EncodedIngestWindow

section Upload
variable {encoding : WindowEncoding} {decoder : Lz4Decoder} {schema : List Field}
  {window : EncodedIngestWindow} {stored retained : List PendingBatch} {index : Nat}

theorem WindowHolds.wire (h : WindowHolds encoding decoder schema window stored retained)
    (hwire : window.usesWireLz4 = true) :
    window.retainedBatches = [] ∧
      ∀ column ∈ window.columns, ∀ chunk ∈ column.chunks, wireFrame chunk = true := by
  unfold usesWireLz4 at hwire
  split at hwire
  · cases hwire
  · rename_i hmode
    obtain ⟨hswitch, hframed⟩ := h.framed hmode
    refine ⟨?_, fun column hcolumn => (hframed column hcolumn).chunks⟩
    rw [h.batches, h.switch hswitch]
    rfl
  · simp only [Bool.and_eq_true, List.isEmpty_iff, List.all_eq_true] at hwire
    exact ⟨hwire.1, fun column hcolumn => (hwire.2 column hcolumn).2⟩

theorem WindowHolds.stored_writes (h : WindowHolds encoding decoder schema window stored retained)
    {field : Field} (hfield : schema[index]? = some field) :
    ∃ column writes pieces, window.columns[index]? = some column ∧
      uploadWrites decoder window.usesWireLz4 window.compressedArena none column.chunks = .ok writes ∧
      List.Forall₂ (Receives decoder window.usesWireLz4) writes pieces ∧
      EncodesColumn encoding.dateFromUnixDays field (arraysAt index stored) pieces.flatten := by
  obtain ⟨input, hhold, hencodes⟩ := h.columns
  have hindex := (List.getElem?_eq_some_iff.mp hfield).1
  rw [← h.length] at hindex
  have hcolumn := List.getElem?_eq_getElem hindex
  have hsteady := hhold index _ hcolumn
  obtain ⟨pieces, hpieces, hinput⟩ := hsteady.contents.stored
  have hall : pieces.flatten = input index := by
    rw [← hinput, EncodedColumn.pendingBytes, hsteady.pending, List.append_nil]
  have hcontents := hencodes index field hfield
  rw [← hall] at hcontents
  cases hwire : window.usesWireLz4 with
  | true =>
    obtain ⟨-, hframes⟩ := h.wire hwire
    obtain ⟨writes, hwrites, hreceives⟩ :=
      uploadWrites_wire hpieces (hframes _ (List.getElem_mem hindex)) none
    exact ⟨_, writes, pieces, hcolumn, hwrites, hreceives, hcontents⟩
  | false =>
    refine ⟨_, pieces, pieces, hcolumn, uploadWrites_plain hpieces none, ?_, hcontents⟩
    exact List.forall₂_same.mpr fun piece _ => rfl

theorem mapM_columns {pending : List PendingBatch} {arrays : List Column}
    (h : ((pending.map PendingBatch.batch).map RecordBatch.columns).mapM (·[index]?) = some arrays) :
    arrays = arraysAt index pending := by
  induction pending generalizing arrays with
  | nil =>
    cases h
    rfl
  | cons entry pending ih =>
    simp only [List.map_cons, List.mapM_cons, Option.bind_eq_bind, Option.bind_eq_some_iff,
      Option.pure_def, Option.some.injEq] at h
    obtain ⟨array, harray, rest, hrest, rfl⟩ := h
    rw [ih hrest, arraysAt, arraysAt, List.filterMap_cons, harray]

theorem feed_collect (log chunks : List Bytes) : feed collect log chunks = log ++ chunks := by
  induction chunks generalizing log with
  | nil => exact (List.append_nil log).symm
  | cons chunk chunks ih => exact (ih (log ++ [chunk])).trans (by simp)

theorem retainedWrites_encodes {field : Field} {writes : List Bytes} {bytes : Nat}
    (hfield : schema[index]? = some field) (hentries : EntriesEstimated schema retained)
    (h : retainedWrites encoding schema (retained.map PendingBatch.batch) index = .ok (writes, bytes)) :
    EncodesColumn encoding.dateFromUnixDays field (arraysAt index retained) writes.flatten := by
  unfold retainedWrites at h
  split at h
  · cases h
  · rename_i chunks total houtput
    cases h
    simp only [RetainedUpload.columnOutput, Option.bind_eq_bind, Option.bind_eq_some_iff] at houtput
    obtain ⟨arrays, harrays, found, hfound, hencode⟩ := houtput
    rw [hfield] at hfound
    cases hfound
    obtain rfl := mapM_columns harrays
    obtain ⟨pieces, hpieces, -, hfeed⟩ := encodeColumnChunks_emits (Option.some.inj hencode)
    rw [feed_collect, List.nil_append] at hfeed
    rw [hfeed]
    exact encodesColumn_of_pieces (arraysAt_sound hentries hfield) hpieces
  · cases h
  · rename_i error _
    exact error.elim

theorem retainedWrites_error {batches : List RecordBatch} {error : IngestError}
    (h : retainedWrites encoding schema batches index = .error error) :
    error = .fileTransfer "ingest encoder stopped before the upload completed" ∨
      ∃ value, error = .encode value := by
  unfold retainedWrites at h
  split at h
  · cases h
    exact .inl rfl
  · cases h
  · cases h
    exact .inr ⟨_, rfl⟩
  · rename_i sink _
    exact sink.elim

theorem countRetained_error {column : EncodedColumn} {windowBytes retainedBytes : Nat}
    {error : IngestError} (h : countRetained column windowBytes retainedBytes = .error error) :
    error = .fileTransfer "encoded ingest byte count overflows" := by
  unfold countRetained at h
  cases hcolumn : checkedAdd column.bytes retainedBytes with
  | none =>
    rw [hcolumn] at h
    cases h
    rfl
  | some columnBytes =>
    rw [hcolumn] at h
    cases hwindow : checkedAdd windowBytes retainedBytes with
    | none =>
      rw [hwindow] at h
      cases h
      rfl
    | some total =>
      rw [hwindow] at h
      cases h

end Upload

section Pipeline
variable {encoding : WindowEncoding} {decoder : Lz4Decoder} {schema : List Field}
  {window : EncodedIngestWindow} {stored retained : List PendingBatch} {windowBytes : Nat}
  {field : Field} {groups : List (List PendingBatch)}

structure Uploads (encoding : WindowEncoding) (decoder : Lz4Decoder) (schema : List Field)
    (window : EncodedIngestWindow) (batches : List RecordBatch) : Prop where
  rows : window.rows = (batches.flatMap RecordBatch.rowsOf).length
  frames : window.usesWireLz4 = true → window.retainedBatches = [] ∧
    ∀ column ∈ window.columns, ∀ chunk ∈ column.chunks, wireFrame chunk = true
  transforms : ∀ index field windowBytes, schema[index]? = some field →
    uploadColumn encoding decoder schema window index windowBytes ≠
      .error (.fileTransfer "wire-compressed ingest contains a client-only transform")
  stored : window.retainedBatches = [] → ∀ index field windowBytes, schema[index]? = some field →
    ∃ writes, uploadColumn encoding decoder schema window index windowBytes =
      .ok (writes, windowBytes)
  sent : ∀ index field windowBytes writes total, schema[index]? = some field →
    uploadColumn encoding decoder schema window index windowBytes = .ok (writes, total) →
    ∃ pieces, List.Forall₂ (Receives decoder window.usesWireLz4) writes pieces ∧
      EncodesColumn encoding.dateFromUnixDays field (batches.filterMap (·.columns[index]?))
        pieces.flatten

theorem WindowHolds.transforms (h : WindowHolds encoding decoder schema window stored retained)
    {index : Nat} (hfield : schema[index]? = some field) :
    uploadColumn encoding decoder schema window index windowBytes ≠
      .error (.fileTransfer "wire-compressed ingest contains a client-only transform") := by
  obtain ⟨column, writes, -, hcolumn, hwrites, -⟩ := h.stored_writes hfield
  intro herror
  simp only [uploadColumn, hcolumn, okOr_some, ok_bind, hwrites] at herror
  split at herror
  · cases herror
  · rcases bind_eq_error.mp herror with hretained | ⟨⟨retained, retainedBytes⟩, -, hrest⟩
    · rcases retainedWrites_error hretained with hmessage | ⟨value, hvalue⟩
      · exact absurd hmessage (by decide)
      · cases hvalue
    · rcases bind_eq_error.mp hrest with hcount | ⟨_, -, hlast⟩
      · exact absurd (countRetained_error hcount) (by decide)
      · cases hlast

theorem WindowHolds.uploaded (h : WindowHolds encoding decoder schema window stored retained)
    (hnone : window.retainedBatches = []) {index : Nat} (hfield : schema[index]? = some field) :
    ∃ writes, uploadColumn encoding decoder schema window index windowBytes =
      .ok (writes, windowBytes) := by
  obtain ⟨column, writes, -, hcolumn, hwrites, -⟩ := h.stored_writes hfield
  refine ⟨writes, ?_⟩
  simp only [uploadColumn, hcolumn, okOr_some, ok_bind, hwrites, hnone, List.isEmpty_nil, if_true]

theorem WindowHolds.sent (h : WindowHolds encoding decoder schema window stored retained)
    (hentries : EntriesEstimated schema retained) {index total : Nat} {writes : List Bytes}
    (hfield : schema[index]? = some field)
    (hupload : uploadColumn encoding decoder schema window index windowBytes = .ok (writes, total)) :
    ∃ pieces, List.Forall₂ (Receives decoder window.usesWireLz4) writes pieces ∧
      EncodesColumn encoding.dateFromUnixDays field (arraysAt index (stored ++ retained))
        pieces.flatten := by
  obtain ⟨column, first, pieces, hcolumn, hwrites, hreceives, hencodes⟩ := h.stored_writes hfield
  simp only [uploadColumn, hcolumn, okOr_some, ok_bind, hwrites] at hupload
  rw [arraysAt_append]
  split at hupload
  · rename_i hempty
    cases hupload
    rw [List.isEmpty_iff, h.batches, List.map_eq_nil_iff] at hempty
    subst hempty
    refine ⟨pieces, hreceives, ?_⟩
    simpa [arraysAt] using hencodes
  · rename_i hsome
    simp only [bind_eq_ok] at hupload
    obtain ⟨⟨second, bytes⟩, hsecond, counted, -, heq⟩ := hupload
    cases heq
    rw [h.batches] at hsecond
    have hplain : window.usesWireLz4 = false := by
      cases hwire : window.usesWireLz4 with
      | false => rfl
      | true => exact absurd (by simp [(h.wire hwire).1]) hsome
    have hmore := retainedWrites_encodes hfield hentries hsecond
    refine ⟨pieces ++ second, List.rel_append hreceives ?_, ?_⟩
    · rw [hplain]
      exact List.forall₂_same.mpr fun piece _ => rfl
    · rw [List.flatten_append]
      exact hencodes.append hmore

theorem Built.entries {budgets : IngestBudgets} {start : EncodedIngestWindow}
    (h : Built encoding budgets schema start groups window) :
    EntriesEstimated schema groups.flatten := by
  induction h with
  | start => rintro _ ⟨⟩
  | snoc _ hstored ih =>
    rw [List.flatten_append, List.flatten_singleton]
    exact List.forall_mem_append.mpr ⟨ih, hstored.entries⟩

def batchesOf (groups : List (List PendingBatch)) : List RecordBatch :=
  groups.flatten.map PendingBatch.batch

theorem batchesOf_rows (groups : List (List PendingBatch)) :
    (batchesOf groups).flatMap RecordBatch.rowsOf = groupRows groups := by
  induction groups with
  | nil => rfl
  | cons group groups ih =>
    rw [groupRows, List.flatMap_cons, ← groupRows, ← ih]
    simp [batchesOf, queueRows, List.flatMap_map]

theorem Produced.uploads (hinv : encoding.lz4.InvertedBy decoder) {budgets : IngestBudgets}
    {start built : EncodedIngestWindow}
    (h : Produced encoding budgets schema groups start built window) :
    Uploads encoding decoder schema window (batchesOf groups) := by
  obtain ⟨stored, retained, hgroups, hholds⟩ := h.groups.holds hinv h.forSchema
  obtain rfl := hholds.finish h.finish
  have hentries := h.groups.entries
  rw [← hgroups] at hentries
  have harrays (index : Nat) : (batchesOf groups).filterMap (·.columns[index]?) =
      arraysAt index (stored ++ retained) := by
    rw [hgroups, batchesOf, List.filterMap_map]
    rfl
  refine ⟨?_, hholds.wire, fun index field windowBytes hfield => hholds.transforms hfield,
    fun hnone index field windowBytes hfield => hholds.uploaded hnone hfield, ?_⟩
  · rw [batchesOf_rows]
    exact h.counts.2.2.1
  · intro index field windowBytes writes total hfield hupload
    rw [harrays]
    exact hholds.sent (fun entry hentry => hentries entry (List.mem_append_right _ hentry)) hfield
      hupload

end Pipeline

theorem ingest_pipeline_exact {encoding : WindowEncoding} {decoder : Lz4Decoder}
    {budgets : IngestBudgets} {source : BatchSource} {schema : List Field}
    (hinv : encoding.lz4.InvertedBy decoder) (hconcat : source.ConcatExact) (hne : schema ≠ [])
    (hpositive : budgets.Positive) (hmoderate : source.Moderate schema)
    {windows : List EncodedIngestWindow} {scheduler : IngestWindowScheduler}
    (hrun : WindowRun encoding budgets source schema windows scheduler) :
    ∃ parts, List.Forall₂ (Uploads encoding decoder schema) windows parts ∧
      ∀ turns final, nextWindow encoding budgets source turns scheduler = some (.ok (none, final)) →
        ∃ last, source.EndsAt last ∧
          parts.flatten.flatMap RecordBatch.rowsOf = source.streamRows last := by
  obtain ⟨parts, hparts, hfollows⟩ := hrun.follows hconcat hne hmoderate
  refine ⟨parts.map batchesOf, ?_, fun turns final hnone => ?_⟩
  · rw [List.forall₂_map_right_iff]
    exact hparts.flip.imp fun window groups ⟨start, built, hproduced⟩ => hproduced.uploads hinv
  · obtain ⟨hdone, hpending, hexhausted⟩ :=
      nextWindow_none hconcat hne hmoderate hpositive hfollows hnone
    obtain ⟨last, hposition, hend⟩ := hdone.ended hexhausted
    refine ⟨last, hend, ?_⟩
    have hrows := hdone.rows
    rw [hpending, hposition, source.streamRows_succ, BatchSource.rowsAt, hend.1, List.append_nil] at hrows
    rw [← List.flatMap_def, List.flatMap_assoc, ← hrows]
    simp only [batchesOf_rows]
    exact (List.append_nil _).symm

-- No window is made of the 2 ^ 64 rows of these batches.
theorem long_null_stream_not_sent :
    ∃ final, nextWindow storedEncoding (smallBudgets none) (nullSource [2, 2 ^ 63 - 1, 2 ^ 63 - 1]) 6
        (IngestWindowScheduler.new nullSchema) = some (.ok (none, final)) ∧
      (nullSource [2, 2 ^ 63 - 1, 2 ^ 63 - 1]).EndsAt 3 ∧
      ((nullSource [2, 2 ^ 63 - 1, 2 ^ 63 - 1]).streamRows 3).length = 2 ^ 64 := by
  have heval : outcomeRows (nextWindow storedEncoding (smallBudgets none)
      (nullSource [2, 2 ^ 63 - 1, 2 ^ 63 - 1]) 6 (IngestWindowScheduler.new nullSchema)) =
      some (none, 2 ^ 64) := by decide +kernel
  obtain ⟨window, final, hnext, hwindow, -⟩ := outcomeRows_eq_some heval
  rw [Option.map_eq_none_iff] at hwindow
  subst hwindow
  refine ⟨final, hnext, ⟨rfl, ?_⟩, ?_⟩
  · intro i hi
    interval_cases i <;> simp [nullSource]
  · have hrows (rows : Nat) : (nullBatch rows).rowsOf.length = rows := RecordBatch.rowsOf_length _
    simp [BatchSource.streamRows, BatchSource.rowsAt, nullSource, List.range_succ, hrows]

def firstUpload (outcome : Option (Except IngestError
    (Option EncodedIngestWindow × IngestWindowScheduler))) : Option (List Bytes × Nat) :=
  outcome.bind fun result => result.toOption.bind fun (window, _) => window.bind fun window =>
    (uploadColumn storedEncoding storedDecoder nullSchema window 0 0).toOption

theorem firstUpload_eq_some {outcome : Option (Except IngestError
    (Option EncodedIngestWindow × IngestWindowScheduler))} {upload : List Bytes × Nat}
    (h : firstUpload outcome = some upload) :
    ∃ window next, outcome = some (.ok (some window, next)) ∧
      uploadColumn storedEncoding storedDecoder nullSchema window 0 0 = .ok upload := by
  rcases outcome with _ | error | ⟨_ | window, next⟩
  · cases h
  · cases h
  · cases h
  · refine ⟨window, next, rfl, ?_⟩
    change (uploadColumn storedEncoding storedDecoder nullSchema window 0 0).toOption = some upload at h
    cases hupload : uploadColumn storedEncoding storedDecoder nullSchema window 0 0 with
    | error error =>
      rw [hupload] at h
      cases h
    | ok sent =>
      rw [hupload] at h
      exact congrArg Except.ok (Option.some.inj h)

theorem null_windows_sent :
    ∃ window next, nextWindow storedEncoding (smallBudgets none) (nullSource [2, 3]) 6
        (IngestWindowScheduler.new nullSchema) = some (.ok (some window, next)) ∧
      uploadColumn storedEncoding storedDecoder nullSchema window 0 0 =
        .ok ([[128, 0, 128, 0, 128, 0, 128, 0, 128, 0]], 0) ∧
      ∃ batches, Uploads storedEncoding storedDecoder nullSchema window batches := by
  have heval : firstUpload (nextWindow storedEncoding (smallBudgets none) (nullSource [2, 3]) 6
      (IngestWindowScheduler.new nullSchema)) =
      some ([[128, 0, 128, 0, 128, 0, 128, 0, 128, 0]], 0) := by decide +kernel
  obtain ⟨window, next, hnext, hupload⟩ := firstUpload_eq_some heval
  have hsizes : ∀ rows ∈ [2, 3], rows ≤ 2 ^ 32 := by decide
  have hpositive : (smallBudgets none).Positive := smallBudgets_positive (by rintro _ ⟨⟩)
  obtain ⟨parts, hparts, -⟩ := ingest_pipeline_exact storedLz4_inverted (nullSource_concat [2, 3])
    (List.cons_ne_nil _ _) hpositive (nullSource_moderate hsizes) (.next .start hnext)
  cases hparts with
  | cons huploads _ => exact ⟨window, next, hnext, hupload, _, huploads⟩

end MonetdbAdbc.Driver
