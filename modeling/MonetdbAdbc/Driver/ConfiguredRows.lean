import MonetdbAdbc.Driver.WindowBudgets

namespace MonetdbAdbc.Driver
open Machine IngestWindowScheduler LittleEndian

section Configured
variable {encoding : WindowEncoding} {budgets : IngestBudgets} {source : BatchSource}
  {schema : List Field} {consumed : List Row} {rows : Nat} {scheduler next : IngestWindowScheduler}
  {windows : List EncodedIngestWindow}

-- Every row over the staging limit stands at the head of a window of the configured rows.
def BatchSource.OversizedLead (source : BatchSource) (schema : List Field) (rows : Nat) : Prop :=
  ∀ batches, (∀ position < batches, source.next position ≠ none) →
    ∀ i row, (source.streamRows batches)[i]? = some row →
      encodeStagingBytes < rowSize schema row → rows ∣ i

theorem dvd_of_parts {α : Type} {big : α → Prop} {parts : List (List α)} {n : Nat}
    (hlength : ∀ part ∈ parts.dropLast, part.length = n)
    (htail : ∀ part ∈ parts, ∀ a ∈ part.tail, ¬big a) {i : Nat} {a : α}
    (h : parts.flatten[i]? = some a) (hbig : big a) : n ∣ i := by
  induction parts generalizing i with
  | nil => simp at h
  | cons part parts ih =>
    rw [List.flatten_cons] at h
    obtain ⟨hpart, hparts⟩ := List.forall_mem_cons.mp htail
    by_cases hi : i < part.length
    · rw [List.getElem?_append_left hi] at h
      cases i with
      | zero => exact Nat.dvd_zero n
      | succ i =>
        rw [← List.getElem?_tail] at h
        exact absurd hbig (hpart a (List.mem_of_getElem? h))
    · rw [List.getElem?_append_right (by omega)] at h
      have hne : parts ≠ [] := by
        rintro rfl
        simp at h
      rw [List.dropLast_cons_of_ne_nil hne, List.forall_mem_cons] at hlength
      have hrest := ih hlength.2 hparts h
      rw [hlength.1] at hrest hi
      have hsplit : i = n + (i - n) := by omega
      rw [hsplit]
      exact Nat.dvd_add (Nat.dvd_refl n) hrest

theorem IngestWindowScheduler.Follows.stream (h : Follows source schema consumed scheduler) :
    ∃ batches, (∀ position < batches, source.next position ≠ none) ∧
      consumed ++ queueRows scheduler.pending = source.streamRows batches := by
  cases hexhausted : scheduler.exhausted with
  | false => exact ⟨scheduler.position, h.unread hexhausted, h.rows⟩
  | true =>
    obtain ⟨last, hposition, hnone, hsome⟩ := h.ended hexhausted
    refine ⟨last, hsome, ?_⟩
    rw [h.rows, hposition, source.streamRows_succ, BatchSource.rowsAt, hnone, List.append_nil]

theorem nothing_after_drained {more : List Row} (h : Follows source schema consumed scheduler)
    (hpending : scheduler.pending = []) (hexhausted : scheduler.exhausted = true)
    (hnext : Follows source schema (consumed ++ more) next) : more = [] := by
  obtain ⟨last, hposition, hend⟩ := h.ended hexhausted
  have hrows := h.rows
  have hle := hnext.consumed_le hend
  rw [hpending, hposition] at hrows
  rw [← hrows, List.length_append, List.length_append] at hle
  have hnil : queueRows [] = [] := rfl
  rw [hnil, List.length_nil] at hle
  exact List.length_eq_zero_iff.mp (by omega)

theorem oversizedFront_row {limit : Nat} (h : Follows source schema consumed scheduler)
    (hfront : OversizedFront scheduler limit) :
    ∃ row, (consumed ++ queueRows scheduler.pending)[consumed.length]? = some row ∧
      limit < rowSize schema row := by
  obtain ⟨front, rest, hpending, hover⟩ := hfront
  have hpos := (h.accounted.entries front (by simp [hpending])).rows_pos
  rw [← RecordBatch.rowsOf_length] at hpos
  obtain ⟨row, others, hrows⟩ := List.exists_cons_of_length_pos hpos
  refine ⟨row, ?_, ?_⟩
  · rw [hpending, queueRows_cons, hrows]
    simp
  · rw [h.schema_eq, prefixBytes, hrows] at hover
    simpa [sizes] using hover

-- A window that ends early leaves nothing, or an oversized row, behind.
theorem Produced.exact_or_drained {groups : List (List PendingBatch)}
    {start built window : EncodedIngestWindow} (hconfigured : budgets.configuredRows = some rows)
    (hmax : rows ≤ usizeMax) (hlead : source.OversizedLead schema rows)
    (hdvd : rows ∣ consumed.length)
    (h : Produced encoding budgets schema groups start built window)
    (hfollows : Follows source schema (consumed ++ groupRows groups) next)
    (hends : WindowEnds encoding budgets built next) :
    window.rows = rows ∨ next.pending = [] ∧ next.exhausted = true := by
  obtain ⟨hrows, -, hlength, hpos⟩ := h.counts
  have hle := h.groups.rows_le hconfigured hmax (forSchema_fresh h.forSchema)
  cases hends with
  | spent hspent =>
    left
    have hbytes : remainingBytes budgets built = pendingBatchCompactionMaxBytes := by
      rw [remainingBytes, hconfigured]
      rfl
    have hstaging : remainingStagingBytes budgets (remainingBytes budgets built) built =
        pendingBatchCompactionMaxBytes := by
      rw [remainingStagingBytes, hconfigured, hbytes]
      rfl
    have hnonzero : pendingBatchCompactionMaxBytes ≠ 0 := by decide
    rw [hstaging, hbytes, remainingRows, hconfigured] at hspent
    dsimp only at hspent
    rw [wrappingSub_of_le hle hmax] at hspent
    omega
  | drained hpending hexhausted => exact .inr ⟨hpending, hexhausted⟩
  | refused _ hfront =>
    left
    obtain ⟨row, hrow, hover⟩ := oversizedFront_row hfollows hfront
    obtain ⟨batches, hbatches, hstream⟩ := hfollows.stream
    rw [hstream] at hrow
    have hlimit : stagingBytes budgets built = encodeStagingBytes := by
      rw [stagingBytes, remainingStagingBytes, remainingBytes, hconfigured]
      rfl
    rw [hlimit] at hover
    have hindex := hlead batches hbatches _ row hrow hover
    rw [List.length_append, ← hlength] at hindex
    have hwindow := (Nat.dvd_add_right hdvd).mp hindex
    exact Nat.le_antisymm (hrows.trans_le hle) (Nat.le_of_dvd hpos hwindow)
  | closed _ hfinish =>
    rw [shouldFinishAutomaticWindow, hconfigured] at hfinish
    cases hfinish

theorem WindowRun.exact (hconcat : source.ConcatExact) (hne : schema ≠ [])
    (hmoderate : source.Moderate schema) (hconfigured : budgets.configuredRows = some rows)
    (hmax : rows ≤ usizeMax) (hlead : source.OversizedLead schema rows)
    (h : WindowRun encoding budgets source schema windows scheduler) :
    ∃ consumed, Follows source schema consumed scheduler ∧
      (∀ window ∈ windows.dropLast, window.rows = rows) ∧
      ((∀ window ∈ windows, window.rows = rows) ∧ rows ∣ consumed.length ∨
        scheduler.pending = [] ∧ scheduler.exhausted = true) := by
  induction h with
  | start => exact ⟨[], new_follows source schema, by rintro _ ⟨⟩, .inl ⟨by rintro _ ⟨⟩, Nat.dvd_zero _⟩⟩
  | @next windows scheduler turns window next _ hnext ih =>
    obtain ⟨consumed, hfollows, -, hstate⟩ := ih
    obtain ⟨groups, start, built, hproduced, hmore, hends⟩ :=
      nextWindow_some hconcat hne hmoderate hfollows hnext
    obtain ⟨-, -, hlength, hpos⟩ := hproduced.counts
    rcases hstate with ⟨hall, hdvd⟩ | ⟨hpending, hexhausted⟩
    · refine ⟨consumed ++ groupRows groups, hmore, by simpa using hall, ?_⟩
      rcases hproduced.exact_or_drained hconfigured hmax hlead hdvd hmore hends with hexact | hdrained
      · refine .inl ⟨List.forall_mem_append.mpr ⟨hall, by simpa using hexact⟩, ?_⟩
        rw [List.length_append, ← hlength, hexact]
        exact Nat.dvd_add hdvd (Nat.dvd_refl rows)
      · exact .inr hdrained
    · have hnone := nothing_after_drained hfollows hpending hexhausted hmore
      rw [hnone, List.length_nil] at hlength
      omega

theorem oversizedLead_of_exact {parts : List (List (List PendingBatch))}
    (hparts : List.Forall₂ (fun groups window => ∃ start built,
      Produced encoding budgets schema groups start built window) parts windows)
    (hfollows : Follows source schema (parts.flatMap groupRows) scheduler)
    (hpending : scheduler.pending = []) (hexhausted : scheduler.exhausted = true)
    (hexact : ∀ window ∈ windows.dropLast, window.rows = rows) :
    source.OversizedLead schema rows := by
  obtain ⟨last, hposition, hend⟩ := hfollows.ended hexhausted
  have hstream := hfollows.rows
  rw [hpending, hposition] at hstream
  have hlengths : parts.map (fun groups => (groupRows groups).length) =
      windows.map EncodedIngestWindow.rows := by
    rw [← List.forall₂_eq_eq_eq, List.forall₂_map_left_iff, List.forall₂_map_right_iff]
    exact hparts.imp fun groups window ⟨_, _, h⟩ => h.counts.2.2.1.symm
  intro batches hbatches i row hrow hover
  have hle : batches ≤ last + 1 := by
    by_contra hlt
    exact hbatches last (by omega) hend.1
  have hget : (parts.map groupRows).flatten[i]? = some row := by
    obtain ⟨more, hmore⟩ := source.streamRows_mono hle
    have hi := (List.getElem?_eq_some_iff.mp hrow).1
    rw [← List.flatMap_def, ← List.append_nil (parts.flatMap groupRows)]
    change (parts.flatMap groupRows ++ queueRows [])[i]? = some row
    rw [hstream, ← hmore, List.getElem?_append_left hi, hrow]
  refine @dvd_of_parts _ (fun row => encodeStagingBytes < rowSize schema row) _ _ ?_ ?_ _ _ hget hover
  · rw [← List.map_dropLast, List.forall_mem_map]
    intro groups hgroups
    have hmem := List.mem_map_of_mem (f := fun groups => (groupRows groups).length) hgroups
    rw [List.map_dropLast, hlengths, ← List.map_dropLast] at hmem
    obtain ⟨window, hwindow, hrows⟩ := List.mem_map.mp hmem
    exact hrows.symm.trans (hexact window hwindow)
  · rw [List.forall_mem_map]
    intro groups hgroups row hrow
    obtain ⟨k, hk, rfl⟩ := List.getElem_of_mem hgroups
    obtain ⟨hlength, hproduced⟩ := List.forall₂_iff_get.mp hparts
    obtain ⟨start, built, hproduced⟩ := hproduced k hk (by omega)
    exact Nat.not_lt.mpr (hproduced.groups.tail_fits (forSchema_fresh hproduced.forSchema) row hrow)

theorem nextWindow_ne_none (hconcat : source.ConcatExact) (hne : schema ≠ [])
    (hmoderate : source.Moderate schema) (hpositive : budgets.Positive) {turns : Nat}
    (h : Follows source schema consumed scheduler) (hpending : scheduler.pending ≠ []) :
    nextWindow encoding budgets source turns scheduler ≠ some (.ok (none, next)) := by
  intro hnext
  obtain ⟨hdone, hnil, hexhausted⟩ := nextWindow_none hconcat hne hmoderate hpositive h hnext
  obtain ⟨last, hposition, hend⟩ := hdone.ended hexhausted
  have hrows := hdone.rows
  rw [hnil, hposition] at hrows
  have hmono := (source.streamRows_mono (h.position_le hend).1).length_le
  have hpos := rowsSum_pos h.accounted.entries hpending
  rw [rowsSum_eq] at hpos
  rw [← hrows, ← h.rows, List.length_append, List.length_append] at hmono
  have hempty : (queueRows []).length = 0 := rfl
  omega

end Configured

theorem configured_rows_exact {encoding : WindowEncoding} {budgets : IngestBudgets}
    {source : BatchSource} {schema : List Field} {rows : Nat} (hconcat : source.ConcatExact)
    (hne : schema ≠ []) (hmoderate : source.Moderate schema) (hpositive : budgets.Positive)
    (hconfigured : budgets.configuredRows = some rows) {windows : List EncodedIngestWindow}
    {scheduler : IngestWindowScheduler}
    (hrun : WindowRun encoding budgets source schema windows scheduler) :
    (∀ start window next, EncodedIngestWindow.forSchema schema budgets.wireCompression = .ok start →
      LoopAt encoding budgets source start scheduler window next → window.rows ≤ rows) ∧
    (source.OversizedLead schema rows → ∀ window ∈ windows.dropLast, window.rows = rows) ∧
    ∀ turns next, nextWindow encoding budgets source turns scheduler = some (.ok (none, next)) →
      (∀ window ∈ windows.dropLast, window.rows = rows) → source.OversizedLead schema rows := by
  obtain ⟨-, hmax⟩ := hpositive.configured rows hconfigured
  obtain ⟨parts, hparts, hfollows⟩ := hrun.follows hconcat hne hmoderate
  refine ⟨fun start window next hstart hat => ?_, fun hlead => ?_, fun turns next hnext hexact => ?_⟩
  · obtain ⟨groups, hbuilt, -⟩ := hat.built hconcat hne hmoderate hfollows
    exact hbuilt.rows_le hconfigured hmax (forSchema_fresh hstart)
  · obtain ⟨-, -, hexact, -⟩ := hrun.exact hconcat hne hmoderate hconfigured hmax hlead
    exact hexact
  · obtain ⟨hdone, hpending, hexhausted⟩ :=
      nextWindow_none hconcat hne hmoderate hpositive hfollows hnext
    exact oversizedLead_of_exact hparts hdone hpending hexhausted hexact

section Blobs
variable {scheduler : IngestWindowScheduler} {allowOversizedRow : Bool}

def blobSchema : List Field := [⟨"b", .binary .standard, true, none⟩]

def blobBatch (values : List (Option Bytes)) : RecordBatch where
  schema := blobSchema
  columns := [.binary .standard values]
  rows := values.length
  aligned := .cons ⟨rfl, rfl⟩ .nil
  resident := List.forall_mem_singleton.mpr trivial

def blobValues (batch : RecordBatch) : List (Option Bytes) :=
  match batch.columns with
  | [.binary _ values] => values
  | _ => []

def blobConcat (schema : List Field) (parts : List RecordBatch) : Except IngestError RecordBatch :=
  if schema = blobSchema ∧ parts.all (·.schema == blobSchema) then
    .ok (blobBatch (parts.flatMap blobValues))
  else .error (.arrow "batches of another schema")

def blobSource (values : List Bytes) : BatchSource where
  next position := (values[position]?).map fun value => .ok (blobBatch [some value])
  validateRecordBatch _ := .ok ()
  concatBatches := blobConcat

theorem blobBatch_rowsOf (values : List (Option Bytes)) :
    (blobBatch values).rowsOf = values.map fun value => [value.map Cell.bytes] := by
  simp only [RecordBatch.rowsOf, blobBatch, Column.cells, List.map_cons, List.map_nil,
    Table.transpose]
  induction values with
  | nil => rfl
  | cons value values ih => simp [ih, List.replicate_succ]

theorem blobBatch_of_schema {batch : RecordBatch} (h : batch.schema = blobSchema) :
    batch = blobBatch (blobValues batch) := by
  obtain ⟨schema, columns, rows, aligned, resident⟩ := batch
  obtain rfl : schema = blobSchema := h
  cases aligned with
  | @cons _ column _ _ hcolumn hrest =>
    cases hrest
    obtain ⟨htype, hlen⟩ := hcolumn
    cases column <;> cases htype
    obtain rfl := hlen
    rfl

theorem blobSource_concat (values : List Bytes) : (blobSource values).ConcatExact := by
  have hok {schema parts batch} (h : blobConcat schema parts = .ok batch) :
      schema = blobSchema ∧ (∀ part ∈ parts, part.schema = blobSchema) ∧
        batch = blobBatch (parts.flatMap blobValues) := by
    unfold blobConcat at h
    split at h
    · rename_i hschemas
      cases h
      exact ⟨hschemas.1, by simpa using hschemas.2, rfl⟩
    · cases h
  constructor
  · intro schema parts batch h
    obtain ⟨rfl, -, rfl⟩ := hok h
    rfl
  · intro schema parts batch h
    obtain ⟨-, hparts, rfl⟩ := hok h
    rw [blobBatch_rowsOf, List.map_flatMap]
    refine List.flatMap_congr fun part hpart => ?_
    conv_rhs => rw [blobBatch_of_schema (hparts part hpart), blobBatch_rowsOf]
  · intro schema parts batch h
    obtain ⟨-, -, rfl⟩ := hok h
    intro column hcolumn
    obtain rfl := List.mem_singleton.mp hcolumn
    trivial

variable {value : Bytes}

theorem blobBatch_estimate (h : 8 + value.length ≤ usizeMax) :
    estimatedBatchSize blobSchema (blobBatch [some value]) = .ok (8 + value.length) := by
  have hfits : blobEstimate (some value) = 8 + value.length := Nat.min_eq_left h
  have hest : estimatedBlobs [some value] = .ok (8 + value.length) :=
    estimatedBlobs_ok.mpr ⟨by simp [hfits], h⟩
  have hadd : checkedAdd 0 (8 + value.length) = some (8 + value.length) :=
    checkedAdd_eq_some.mpr ⟨by omega, by omega⟩
  change ((estimatedBlobs [some value]).mapError IngestError.encode >>= fun bytes =>
    okOr _ (checkedAdd 0 bytes) >>= fun total => estimatedFrom total []) = _
  rw [hest]
  simp only [Except.mapError, ok_bind, hadd, okOr_some]
  rfl

def blobEntry (value : Bytes) : PendingBatch := ⟨blobBatch [some value], 8 + value.length, 0⟩

theorem blobEntry_estimated (h : 8 + value.length ≤ usizeMax) :
    (blobEntry value).Estimated blobSchema :=
  ⟨rfl, blobBatch_estimate h, Nat.one_pos⟩

theorem blobBatch_prefixBytes (h : 8 + value.length ≤ usizeMax) :
    prefixBytes blobSchema (blobBatch [some value]) 1 = 8 + value.length := by
  have hall := prefixBytes_all blobSchema (blobBatch [some value])
  exact hall.trans (blobEntry_estimated h).bytes_eq.symm

theorem takeOnce_refuses {popped : IngestWindowScheduler} {front : PendingBatch}
    {remainingRows remainingBytes : Nat} {staging : List PendingBatch}
    (hpop : scheduler.popFront = some (front, popped)) (hfront : front.Estimated popped.schema)
    (hover : remainingBytes < prefixBytes popped.schema front.batch 1)
    (hstop : staging.isEmpty = false ∨ allowOversizedRow = false) :
    takeOnce scheduler remainingRows remainingBytes allowOversizedRow staging =
      .ok (.stop (popped.pushFront front)) := by
  obtain ⟨rows, hrows, -, hfits, -⟩ := rowsByBytes_ok hfront remainingBytes
  have hzero : rows = 0 := by
    by_contra hpos
    have hmono := prefixBytes_mono popped.schema front.batch (Nat.one_le_iff_ne_zero.mpr hpos)
    omega
  subst hzero
  simp only [takeOnce, hpop, hrows, ok_bind, Nat.zero_min, true_and, if_pos hstop]

theorem readBatch_blob {source : BatchSource} (h : 8 + value.length ≤ usizeMax)
    (hschema : scheduler.schema = blobSchema)
    (hnext : source.next scheduler.position = some (.ok (blobBatch [some value])))
    (hvalid : source.validateRecordBatch (blobBatch [some value]) = .ok ())
    (hshort : scheduler.pending.length + 1 < pendingBatchCompactionFanout) :
    readBatch source scheduler = .ok ({ scheduler with
      position := scheduler.position + 1
      inputBatches := wrappingAdd scheduler.inputBatches 1 }.pushBack (blobEntry value)) := by
  simp only [readBatch, hnext, IngestWindowScheduler.acceptBatch, hvalid, ok_bind]
  have hsame : (blobBatch [some value]).schema = blobSchema := rfl
  have hone : (blobBatch [some value]).rows ≠ 0 := Nat.one_ne_zero
  rw [if_neg (by rw [hsame, hschema, ne_eq, not_not]), if_neg hone, hschema, blobBatch_estimate h,
    ok_bind, compactPendingBatches, compactFrom, compactOnce, if_pos (by simpa [pushBack] using hshort)]
  rfl

theorem fillStaging_enough {source : BatchSource} {desiredRows desiredBytes turns : Nat}
    (h : ¬(scheduler.pendingRows < desiredRows ∧ scheduler.pendingBytes < desiredBytes ∧
      scheduler.exhausted = false)) :
    fillStaging source desiredRows desiredBytes turns scheduler = some (.ok scheduler) := by
  cases turns with
  | zero | succ turns => rw [fillStaging, if_neg h]

def blobsQueued (big : Bytes) : IngestWindowScheduler :=
  ⟨blobSchema, 2, [blobEntry [], blobEntry big], 2, 16 + big.length, false, 2, 0⟩

def blobLeft (big : Bytes) : IngestWindowScheduler :=
  ⟨blobSchema, 2, [blobEntry big], 1, 8 + big.length, false, 2, 0⟩

def blobsTaken : IngestWindowScheduler := ⟨blobSchema, 2, [], 0, 0, false, 2, 0⟩

variable {big : Bytes}

theorem fillStaging_blobs (hmax : 16 + big.length ≤ usizeMax) (turns : Nat) :
    fillStaging (blobSource [[], big]) 2 encodeStagingBytes (turns + 2)
      (IngestWindowScheduler.new blobSchema) = some (.ok (blobsQueued big)) := by
  have hfirst : readBatch (blobSource [[], big]) (IngestWindowScheduler.new blobSchema) =
      .ok ⟨blobSchema, 1, [blobEntry []], 1, 8, false, 1, 0⟩ :=
    readBatch_blob (by decide) rfl rfl rfl (by decide)
  have hbytes : wrappingAdd 8 (8 + big.length) = 16 + big.length := by
    rw [wrappingAdd_of_le (by omega)]
    omega
  have hsecond : readBatch (blobSource [[], big]) ⟨blobSchema, 1, [blobEntry []], 1, 8, false, 1, 0⟩ =
      .ok (blobsQueued big) := by
    rw [blobsQueued, ← hbytes]
    exact readBatch_blob (by omega) rfl rfl rfl (by decide)
  rw [fillStaging, if_pos (by decide)]
  simp only [hfirst]
  rw [fillStaging, if_pos (by decide)]
  simp only [hsecond]
  exact fillStaging_enough (by simp [blobsQueued])

theorem blobsQueued_pop (hmax : 16 + big.length ≤ usizeMax) :
    (blobsQueued big).popFront = some (blobEntry [], blobLeft big) := by
  simp only [popFront, blobsQueued, blobLeft, blobEntry]
  rw [wrappingSub_of_le (by simp; omega) hmax]
  simp [blobBatch, wrappingSub]
  omega

theorem blobLeft_pop (hmax : 16 + big.length ≤ usizeMax) :
    (blobLeft big).popFront = some (blobEntry big, blobsTaken) := by
  simp only [popFront, blobLeft, blobEntry]
  rw [wrappingSub_of_le le_rfl (by omega)]
  simp [blobBatch, wrappingSub, blobsTaken]

theorem blobsTaken_push (hmax : 16 + big.length ≤ usizeMax) :
    blobsTaken.pushFront (blobEntry big) = blobLeft big := by
  have hbytes : wrappingAdd 0 (8 + big.length) = 8 + big.length := by
    rw [wrappingAdd_of_le (by omega), zero_add]
  rw [blobLeft, ← hbytes]
  rfl

theorem takeOnce_blobLeft (hmax : 16 + big.length ≤ usizeMax) {rows bytes : Nat}
    {staging : List PendingBatch} (hover : bytes < 8 + big.length)
    (hstop : staging.isEmpty = false ∨ allowOversizedRow = false) :
    takeOnce (blobLeft big) rows bytes allowOversizedRow staging = .ok (.stop (blobLeft big)) := by
  rw [takeOnce_refuses (blobLeft_pop hmax) (blobEntry_estimated (by omega)) _ hstop,
    blobsTaken_push hmax]
  rwa [blobsTaken, blobEntry, blobBatch_prefixBytes (by omega)]

theorem takeStaging_blobs (hmax : 16 + big.length ≤ usizeMax)
    (hover : encodeStagingBytes < 8 + big.length) :
    takeStaging (blobsQueued big) 2 encodeStagingBytes true =
      .ok ([blobEntry []], blobLeft big) := by
  have hfirst : takeOnce (blobsQueued big) 2 encodeStagingBytes true [] =
      .ok (.took (blobEntry []) (blobLeft big)) := by
    rw [takeOnce, blobsQueued_pop hmax]
    rfl
  rw [takeStaging, takeFrom, if_neg (by decide), hfirst, ok_bind]
  dsimp only
  rw [if_neg (by decide)]
  have hrows : wrappingSub 2 (blobEntry []).batch.rows = 1 := rfl
  rw [hrows, takeFrom, if_neg (by decide), takeOnce_blobLeft hmax _ (.inl rfl), ok_bind]
  · rfl
  · omega

theorem takeStaging_blobLeft (hmax : 16 + big.length ≤ usizeMax)
    (hover : encodeStagingBytes < 8 + big.length) :
    takeStaging (blobLeft big) 1 encodeStagingBytes false = .ok ([], blobLeft big) := by
  rw [takeStaging, takeFrom, if_neg (by decide), takeOnce_blobLeft hmax hover (.inr rfl), ok_bind]

def blobWindow : EncodedIngestWindow :=
  ⟨[.new none .none], ⟨[]⟩, [], 0, false, true, false, 0, 0, 0, false, .none⟩

theorem blobWindow_appended :
    ∃ filled window, blobWindow.append storedEncoding blobSchema [blobEntry []] 8 = .ok filled ∧
      filled.rows = 1 ∧ filled.finish storedEncoding = .ok window ∧ window.rows = 1 := by
  have heval : ((blobWindow.append storedEncoding blobSchema [blobEntry []] 8) >>= fun filled =>
      filled.finish storedEncoding).toOption.isSome = true := by decide +kernel
  cases hbind : blobWindow.append storedEncoding blobSchema [blobEntry []] 8 >>= fun filled =>
      filled.finish storedEncoding with
  | error error =>
    rw [hbind] at heval
    cases heval
  | ok window =>
    obtain ⟨filled, happend, hfinish⟩ := bind_eq_ok.mp hbind
    have hfilled : filled.rows = 1 := by
      obtain ⟨stored, -, rfl⟩ := EncodedIngestWindow.append_ok happend
      rfl
    exact ⟨filled, window, happend, hfilled, hfinish,
      (EncodedIngestWindow.finish_counts hfinish).1.trans hfilled⟩

theorem windowTurn_blobs (hmax : 16 + big.length ≤ usizeMax)
    (hover : encodeStagingBytes < 8 + big.length) {filled : EncodedIngestWindow}
    (happend : blobWindow.append storedEncoding blobSchema [blobEntry []] 8 = .ok filled) :
    windowTurn storedEncoding (smallBudgets (some 2)) (blobSource [[], big]) 3 blobWindow
      (IngestWindowScheduler.new blobSchema) = some (.ok (.goes filled (blobLeft big))) := by
  have hrows : remainingRows (smallBudgets (some 2)) blobWindow = 2 := rfl
  have hbytes : stagingBytes (smallBudgets (some 2)) blobWindow = encodeStagingBytes := rfl
  rw [windowTurn, if_neg (by decide), hrows, hbytes, fillStaging_blobs hmax 1, Option.map_some, ok_bind,
    takeWindow, if_neg (by simp [blobsQueued]), hrows, hbytes]
  have htake : takeStaging (blobsQueued big) 2 encodeStagingBytes (blobWindow.rows == 0) =
      .ok ([blobEntry []], blobLeft big) := takeStaging_blobs hmax hover
  have htotal : pendingTotal 0 [blobEntry []] = .ok 8 := rfl
  have hschema : (blobLeft big).schema = blobSchema := rfl
  rw [htake, ok_bind]
  change some (appendStaging storedEncoding _ blobWindow (blobLeft big) [blobEntry []]) = _
  rw [appendStaging, if_neg (by simp), htotal, ok_bind, hschema, happend, ok_bind]
  rfl

theorem windowTurn_blobLeft (hmax : 16 + big.length ≤ usizeMax)
    (hover : encodeStagingBytes < 8 + big.length) {filled : EncodedIngestWindow}
    (hfilled : filled.rows = 1) :
    windowTurn storedEncoding (smallBudgets (some 2)) (blobSource [[], big]) 2 filled
      (blobLeft big) = some (.ok (.ends filled (blobLeft big))) := by
  have hrows : remainingRows (smallBudgets (some 2)) filled = 1 := by
    simp [remainingRows, smallBudgets, hfilled, wrappingSub]
  have hbytes : stagingBytes (smallBudgets (some 2)) filled = encodeStagingBytes := rfl
  have hturn : ¬(remainingRows (smallBudgets (some 2)) filled = 0 ∨
      remainingBytes (smallBudgets (some 2)) filled = 0 ∨
      remainingStagingBytes (smallBudgets (some 2)) (remainingBytes (smallBudgets (some 2)) filled)
        filled = 0) := by
    rw [hrows]
    change ¬(1 = 0 ∨ pendingBatchCompactionMaxBytes = 0 ∨ pendingBatchCompactionMaxBytes = 0)
    decide
  rw [windowTurn, if_neg hturn, hrows, hbytes, fillStaging_enough (by simp [blobLeft]), Option.map_some,
    ok_bind, takeWindow, if_neg (by simp [blobLeft]), hrows, hbytes]
  have htake : takeStaging (blobLeft big) 1 encodeStagingBytes (filled.rows == 0) =
      .ok ([], blobLeft big) := by
    rw [hfilled]
    exact takeStaging_blobLeft hmax hover
  rw [htake, ok_bind]
  rfl

theorem nextWindow_blobs (hmax : 16 + big.length ≤ usizeMax)
    (hover : encodeStagingBytes < 8 + big.length) :
    ∃ window, nextWindow storedEncoding (smallBudgets (some 2)) (blobSource [[], big]) 4
        (IngestWindowScheduler.new blobSchema) = some (.ok (some window, blobLeft big)) ∧
      window.rows = 1 := by
  obtain ⟨filled, window, happend, hfilled, hfinish, hwindow⟩ := blobWindow_appended
  have hstart : EncodedIngestWindow.forSchema blobSchema .none = .ok blobWindow := rfl
  have hnonzero : filled.rows ≠ 0 := by omega
  refine ⟨window, ?_, hwindow⟩
  have hschema : (IngestWindowScheduler.new blobSchema).schema = blobSchema := rfl
  have hmode : (smallBudgets (some 2)).wireCompression = .none := rfl
  simp only [nextWindow, hschema, hmode, hstart, nextWindowFrom, windowTurn_blobs hmax hover happend,
    windowTurn_blobLeft hmax hover hfilled, closeWindow, if_neg hnonzero, hfinish]
  rfl

theorem blobSource_moderate {values : List Bytes} (h : ∀ value ∈ values, value.length ≤ 2 ^ 32) :
    (blobSource values).Moderate blobSchema := by
  intro position batch est hnext _ hest
  obtain ⟨value, hsome, hbatch⟩ := Option.map_eq_some_iff.mp hnext
  cases hbatch
  have hle := h value (List.mem_of_getElem? hsome)
  have hmax : usizeMax = 2 ^ 64 - 1 := rfl
  have hstaging : encodeStagingBytes = 2 ^ 24 := rfl
  rw [blobBatch_estimate (by omega)] at hest
  cases hest
  omega

def bigBlob : Bytes := List.replicate (2 ^ 24) 0

theorem bigBlob_length : bigBlob.length = 2 ^ 24 := List.length_replicate

-- A window of two rows ends after one, and the row it left makes another window necessary.
theorem oversized_blob_ends_window :
    ∃ window next, nextWindow storedEncoding (smallBudgets (some 2)) (blobSource [[], bigBlob]) 4
        (IngestWindowScheduler.new blobSchema) = some (.ok (some window, next)) ∧
      window.rows = 1 ∧ rowsSum next.pending = 1 ∧
      ∀ turns final, nextWindow storedEncoding (smallBudgets (some 2)) (blobSource [[], bigBlob]) turns
        next ≠ some (.ok (none, final)) := by
  have hlength := bigBlob_length
  have hmax : usizeMax = 2 ^ 64 - 1 := rfl
  have hstaging : encodeStagingBytes = 2 ^ 24 := rfl
  obtain ⟨window, hnext, hrows⟩ := @nextWindow_blobs bigBlob (by omega) (by omega)
  refine ⟨window, blobLeft bigBlob, hnext, hrows, rfl, fun turns final hnone => ?_⟩
  have hmoderate : (blobSource [[], bigBlob]).Moderate blobSchema := by
    refine blobSource_moderate fun value hvalue => ?_
    rcases List.mem_pair.mp hvalue with rfl | rfl
    · exact Nat.zero_le _
    · omega
  have hconcat := blobSource_concat [[], bigBlob]
  have hpositive : (smallBudgets (some 2)).Positive := smallBudgets_positive (by rintro _ ⟨⟩; decide)
  obtain ⟨groups, -, -, -, hfollows, -⟩ := nextWindow_some hconcat (List.cons_ne_nil _ _) hmoderate
    (new_follows _ _) hnext
  exact nextWindow_ne_none hconcat (List.cons_ne_nil _ _) hmoderate hpositive hfollows
    (List.cons_ne_nil _ _) hnone

end Blobs

section Exact
variable {encoding : WindowEncoding} {budgets : IngestBudgets} {source : BatchSource}
  {schema : List Field}

def windowRows (encoding : WindowEncoding) (budgets : IngestBudgets) (source : BatchSource)
    (turns : Nat) : Nat → IngestWindowScheduler → Option (List Nat)
  | 0, _ => some []
  | calls + 1, scheduler =>
    match nextWindow encoding budgets source turns scheduler with
    | some (.ok (some window, next)) =>
      (windowRows encoding budgets source turns calls next).map (window.rows :: ·)
    | _ => none

theorem windowRows_run {turns calls : Nat} {windows : List EncodedIngestWindow}
    {scheduler : IngestWindowScheduler} {counts : List Nat}
    (hrun : WindowRun encoding budgets source schema windows scheduler)
    (h : windowRows encoding budgets source turns calls scheduler = some counts) :
    ∃ more next, WindowRun encoding budgets source schema (windows ++ more) next ∧
      more.map EncodedIngestWindow.rows = counts := by
  induction calls generalizing windows scheduler counts with
  | zero =>
    cases h
    exact ⟨[], scheduler, by rwa [List.append_nil], rfl⟩
  | succ calls ih =>
    rw [windowRows] at h
    split at h
    · rename_i window next hnext
      obtain ⟨rest, hrest, rfl⟩ := Option.map_eq_some_iff.mp h
      obtain ⟨more, final, hmore, hcounts⟩ := ih (hrun.next hnext) hrest
      exact ⟨window :: more, final, by simpa using hmore, by rw [List.map_cons, hcounts]⟩
    · cases h

theorem nullSource_row {sizes : List Nat} {batches : Nat} {row : Row}
    (h : row ∈ (nullSource sizes).streamRows batches) : row = [none] := by
  obtain ⟨position, -, hrow⟩ := List.mem_flatMap.mp h
  unfold BatchSource.rowsAt at hrow
  split at hrow
  · rename_i batch hnext
    obtain ⟨rows, -, hbatch⟩ := Option.map_eq_some_iff.mp hnext
    cases hbatch
    rw [nullBatch_rowsOf] at hrow
    exact List.eq_of_mem_replicate hrow
  · cases hrow

theorem null_windows_exact :
    ∃ windows next, WindowRun storedEncoding (smallBudgets (some 2)) (nullSource [2, 3]) nullSchema
        windows next ∧ windows.map EncodedIngestWindow.rows = [2, 2, 1] ∧
      ∀ window ∈ windows.dropLast, window.rows = 2 := by
  have heval : windowRows storedEncoding (smallBudgets (some 2)) (nullSource [2, 3]) 6 3
      (IngestWindowScheduler.new nullSchema) = some [2, 2, 1] := by decide +kernel
  obtain ⟨windows, next, hrun, hcounts⟩ := windowRows_run .start heval
  rw [List.nil_append] at hrun
  have hsizes : ∀ rows ∈ [2, 3], rows ≤ 2 ^ 32 := by decide
  have hpositive : (smallBudgets (some 2)).Positive := smallBudgets_positive (by rintro _ ⟨⟩; decide)
  obtain ⟨-, hexact, -⟩ := configured_rows_exact (nullSource_concat [2, 3]) (List.cons_ne_nil _ _)
    (nullSource_moderate hsizes) hpositive rfl hrun
  refine ⟨windows, next, hrun, hcounts, hexact ?_⟩
  intro batches _ i row hrow hover
  rw [nullSource_row (List.mem_of_getElem? hrow)] at hover
  exact absurd hover (by decide)

end Exact

end MonetdbAdbc.Driver
