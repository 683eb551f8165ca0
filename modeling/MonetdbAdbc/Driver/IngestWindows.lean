import MonetdbAdbc.Driver.EncodedWindow
import MonetdbAdbc.Driver.PendingAccounting

namespace MonetdbAdbc.Driver
open Machine

section RowSizes

theorem fixedWireWidth_pos {monetType : MonetType} {width : Nat}
    (h : fixedWireWidth monetType = some width) : 0 < width := by
  cases monetType with
  | decimal precision scale =>
    simp only [fixedWireWidth, decimalWireWidth] at h
    split_ifs at h <;> cases h <;> decide
  | _ => cases h <;> decide

theorem cellSize_pos {field : Field} {width : Option Nat} (h : fixedEncodedWidth field = .ok width)
    (cell : Option Cell) : 1 ≤ cellSize field cell := by
  have hmax : 1 ≤ usizeMax := by decide
  rw [cellSize]
  cases width with
  | some width =>
    have hpos : 0 < width := by
      unfold fixedEncodedWidth at h
      split at h
      · cases h
        decide
      · obtain ⟨monetType, -, hwidth⟩ := map_eq_ok.mp h
        exact fixedWireWidth_pos hwidth
    rw [h]
    exact hpos
  | none =>
    rw [h]
    dsimp only
    unfold variableSize
    split
    · rw [saturatingAdd]
      omega
    · rw [saturatingAdd]
      omega
    · unfold nullSize
      split <;> omega

theorem rows_le_estimate {schema : List Field} {batch : RecordBatch} {est : Nat} (hne : schema ≠ [])
    (hschema : batch.schema = schema) (h : estimatedBatchSize schema batch = .ok est) :
    batch.rows ≤ est := by
  obtain ⟨_, columns, rows, haligned, hresident⟩ := batch
  obtain rfl := hschema
  cases haligned with
  | nil => exact absurd rfl hne
  | @cons field column fields columns hcolumn hrest =>
    simp only [estimatedBatchSize, List.zip_cons_cons, estimatedFrom, bind_eq_ok, okOr_eq_ok,
      checkedAdd_eq_some] at h
    obtain ⟨bytes, hbytes, next, ⟨-, rfl⟩, hfrom⟩ := h
    have htotal := estimatedFrom_ok hrest hfrom
    cases hsize : estimatedEncodedSize field column with
    | error error =>
      rw [hsize] at hbytes
      cases hbytes
    | ok size =>
      rw [hsize] at hbytes
      cases hbytes
      have hcells := estimatedEncodedSize_cells hcolumn.1 hsize
      rw [estimatedEncodedSize, arrayWireWidth_eq hcolumn.1] at hsize
      cases hwidth : fixedEncodedWidth field with
      | error error =>
        rw [hwidth] at hsize
        cases hsize
      | ok width =>
        have hsum := List.length_le_sum_of_one_le (column.cells.map (cellSize field))
          (List.forall_mem_map.mpr fun cell _ => cellSize_pos hwidth cell)
        rw [List.length_map, Column.cells_length, hcolumn.2] at hsum
        dsimp only
        omega

theorem rowsSum_le_bytesSum {schema : List Field} {pending : List PendingBatch} (hne : schema ≠ [])
    (h : EntriesEstimated schema pending) : rowsSum pending ≤ bytesSum pending := by
  induction pending with
  | nil => exact le_rfl
  | cons entry rest ih =>
    obtain ⟨hentry, hrest⟩ := List.forall_mem_cons.mp h
    rw [rowsSum_cons, bytesSum_cons]
    exact Nat.add_le_add (rows_le_estimate hne hentry.schema_eq hentry.estimate) (ih hrest)

end RowSizes

section Stream
variable {source : BatchSource} {schema : List Field} {consumed : List Row}

def BatchSource.rowsAt (source : BatchSource) (position : Nat) : List Row :=
  match source.next position with
  | some (.ok batch) => batch.rowsOf
  | _ => []

def BatchSource.streamRows (source : BatchSource) (batches : Nat) : List Row :=
  (List.range batches).flatMap source.rowsAt

theorem BatchSource.streamRows_succ (source : BatchSource) (batches : Nat) :
    source.streamRows (batches + 1) = source.streamRows batches ++ source.rowsAt batches := by
  simp [streamRows, List.range_succ]

def BatchSource.EndsAt (source : BatchSource) (last : Nat) : Prop :=
  source.next last = none ∧ ∀ i < last, source.next i ≠ none

-- A batch that comes after some row leaves a usize counter room for what may be queued when it is
-- read.
def BatchSource.Moderate (source : BatchSource) (schema : List Field) : Prop :=
  ∀ position batch est, source.next position = some (.ok batch) → source.streamRows position ≠ [] →
    estimatedBatchSize schema batch = .ok est → est + encodeStagingBytes ≤ usizeMax

namespace IngestWindowScheduler

structure Follows (source : BatchSource) (schema : List Field) (consumed : List Row)
    (scheduler : IngestWindowScheduler) : Prop where
  schema_eq : scheduler.schema = schema
  accounted : scheduler.Accounted
  rows : consumed ++ queueRows scheduler.pending = source.streamRows scheduler.position
  unread : scheduler.exhausted = false → ∀ i < scheduler.position, source.next i ≠ none
  ended : scheduler.exhausted = true → ∃ last, scheduler.position = last + 1 ∧ source.EndsAt last

theorem new_follows (source : BatchSource) (schema : List Field) :
    Follows source schema [] (new schema) where
  schema_eq := rfl
  accounted := new_accounted schema
  rows := rfl
  unread _ i hi := absurd hi (Nat.not_lt_zero i)
  ended h := by cases h

theorem Follows.moved {scheduler next : IngestWindowScheduler} {more : List Row}
    (h : Follows source schema consumed scheduler) (hacc : next.Accounted)
    (hsame : SameStream scheduler next)
    (hqueue : more ++ queueRows next.pending = queueRows scheduler.pending) :
    Follows source schema (consumed ++ more) next where
  schema_eq := hsame.schema.trans h.schema_eq
  accounted := hacc
  rows := by rw [hsame.position, ← h.rows, ← hqueue, List.append_assoc]
  unread := by
    rw [hsame.exhausted, hsame.position]
    exact h.unread
  ended := by
    rw [hsame.exhausted, hsame.position]
    exact h.ended

theorem readFits_of_moderate {scheduler : IngestWindowScheduler} (hne : schema ≠ [])
    (hmoderate : source.Moderate schema) (h : Follows source schema consumed scheduler)
    (hbytes : scheduler.pendingBytes ≤ encodeStagingBytes) {batch : RecordBatch}
    (hnext : source.next scheduler.position = some (.ok batch))
    (hestimate : batch.rows = 0 ∨ batch.schema = schema ∧
      ∃ est, estimatedBatchSize schema batch = .ok est) : ReadFits source scheduler := by
  intro other hother
  rw [hnext] at hother
  cases hother
  have hacc := h.accounted
  have hentries := hacc.entries
  rw [h.schema_eq] at hentries ⊢
  have hrows := rowsSum_le_bytesSum hne hentries
  have hqueued := hacc.bytes
  rcases hestimate with hzero | ⟨hschema, est, hest⟩
  · have hnil : batch.rowsOf = [] := by
      rw [← List.length_eq_zero_iff, RecordBatch.rowsOf_length, hzero]
    rw [hnil, hzero]
    exact ⟨hacc.rows_le, hacc.bytes_le⟩
  · have hbatch := rows_le_estimate hne hschema hest
    rw [← estimatedBatchSize_ok hschema hest]
    by_cases hfirst : source.streamRows scheduler.position = []
    · have hempty : queueRows scheduler.pending = [] :=
        (List.append_eq_nil_iff.mp (h.rows.trans hfirst)).2
      have hle := estimatedBatchSize_le hest
      rw [rowsSum_eq, bytesSum_eq hentries, hempty]
      simp only [sizes, List.length_nil, List.map_nil, List.sum_nil]
      constructor <;> omega
    · have hroom := hmoderate _ _ _ hnext hfirst hest
      constructor <;> omega

theorem readBatch_follows (hconcat : source.ConcatExact) (hne : schema ≠ [])
    (hmoderate : source.Moderate schema) {scheduler next : IngestWindowScheduler}
    (h : Follows source schema consumed scheduler) (hlive : scheduler.exhausted = false)
    (hbytes : scheduler.pendingBytes ≤ encodeStagingBytes)
    (hread : readBatch source scheduler = .ok next) :
    Follows source schema consumed next ∧ next.position = scheduler.position + 1 := by
  have hexact := readBatch_exact_iff hconcat h.accounted hread
  obtain ⟨hnone, rfl⟩ | ⟨batch, hsome, haccept⟩ := readBatch_cases hread
  · have hfits : ReadFits source scheduler := by
      intro batch hbatch
      rw [hnone] at hbatch
      cases hbatch
    refine ⟨⟨h.schema_eq, hexact.2 hfits, ?_, ?_, ?_⟩, rfl⟩
    · rw [source.streamRows_succ, ← h.rows]
      simp [BatchSource.rowsAt, hnone]
    · intro hcontinues
      cases hcontinues
    · intro _
      exact ⟨scheduler.position, rfl, hnone, h.unread hlive⟩
  · have hadvanced : ({ scheduler with
        position := scheduler.position + 1
        inputBatches := wrappingAdd scheduler.inputBatches 1 } : IngestWindowScheduler).Accounted :=
      ⟨h.accounted.entries, h.accounted.rows, h.accounted.bytes, h.accounted.rows_le,
        h.accounted.bytes_le⟩
    obtain ⟨-, haccepted⟩ := acceptBatch_exact hconcat hadvanced haccept
    have hestimate := haccepted.estimate
    dsimp only at hestimate
    rw [h.schema_eq] at hestimate
    have hfits := readFits_of_moderate hne hmoderate h hbytes hsome hestimate
    refine ⟨⟨haccepted.schema.trans h.schema_eq, hexact.2 hfits, ?_, ?_, ?_⟩, haccepted.position⟩
    · rw [haccepted.position, source.streamRows_succ, ← h.rows, haccepted.queue]
      simp [BatchSource.rowsAt, hsome]
    · intro _ i hi
      rw [haccepted.position] at hi
      rcases Nat.lt_succ_iff_lt_or_eq.mp hi with hlt | rfl
      · exact h.unread hlive i hlt
      · simp [hsome]
    · intro hended
      rw [haccepted.exhausted] at hended
      dsimp only at hended
      rw [hlive] at hended
      cases hended

theorem staged_of_not_short {desiredRows desiredBytes : Nat} {scheduler : IngestWindowScheduler}
    (h : ¬(scheduler.pendingRows < desiredRows ∧ scheduler.pendingBytes < desiredBytes ∧
      scheduler.exhausted = false)) :
    desiredRows ≤ scheduler.pendingRows ∨ desiredBytes ≤ scheduler.pendingBytes ∨
      scheduler.exhausted = true := by
  cases hexhausted : scheduler.exhausted with
  | true => exact .inr (.inr rfl)
  | false =>
    simp only [hexhausted, and_true] at h
    omega

theorem fillStaging_follows (hconcat : source.ConcatExact) (hne : schema ≠ [])
    (hmoderate : source.Moderate schema) {desiredRows desiredBytes turns : Nat}
    (hdesired : desiredBytes ≤ encodeStagingBytes) {scheduler next : IngestWindowScheduler}
    (h : Follows source schema consumed scheduler)
    (hfill : fillStaging source desiredRows desiredBytes turns scheduler = some (.ok next)) :
    Follows source schema consumed next ∧
      (desiredRows ≤ next.pendingRows ∨ desiredBytes ≤ next.pendingBytes ∨
        next.exhausted = true) := by
  induction turns generalizing scheduler with
  | zero =>
    unfold fillStaging at hfill
    split at hfill
    · cases hfill
    · rename_i hdone
      cases hfill
      exact ⟨h, staged_of_not_short hdone⟩
  | succ turns ih =>
    unfold fillStaging at hfill
    split at hfill
    · rename_i hgo
      cases hread : readBatch source scheduler with
      | error error =>
        simp only [hread] at hfill
        cases hfill
      | ok middle =>
        simp only [hread] at hfill
        have hmiddle := readBatch_follows hconcat hne hmoderate h hgo.2.2 (by omega) hread
        exact ih hmiddle.1 hfill
    · rename_i hdone
      cases hfill
      exact ⟨h, staged_of_not_short hdone⟩

end IngestWindowScheduler

end Stream

section Turns
variable {encoding : WindowEncoding} {budgets : IngestBudgets} {source : BatchSource}
  {schema : List Field} {consumed : List Row}

open IngestWindowScheduler

namespace EncodedIngestWindow

theorem storeBatches_counts {window stored : EncodedIngestWindow} {pending : List PendingBatch}
    {estimatedBytes : Nat}
    (h : storeBatches encoding window schema pending estimatedBytes = .ok stored) :
    stored.rows = window.rows ∧ stored.estimatedBytes = window.estimatedBytes := by
  simp only [storeBatches] at h
  split at h
  · obtain ⟨retained, -, rfl⟩ := map_eq_ok.mp h
    exact ⟨rfl, rfl⟩
  · obtain ⟨encoded, -, rfl⟩ := map_eq_ok.mp h
    exact ⟨rfl, rfl⟩

theorem append_ok {window next : EncodedIngestWindow} {pending : List PendingBatch}
    {estimatedBytes : Nat}
    (h : window.append encoding schema pending estimatedBytes = .ok next) :
    ∃ stored, storeBatches encoding window schema pending estimatedBytes = .ok stored ∧
      next = { stored with
        rows := window.rows + rowsSum pending % 2 ^ 64
        estimatedBytes := window.estimatedBytes + estimatedBytes } := by
  simp only [append, bind_eq_ok, okOr_eq_ok, checkedAdd_eq_some] at h
  obtain ⟨stored, hstored, rows, ⟨-, rfl⟩, bytes, ⟨-, rfl⟩, hnext⟩ := h
  obtain ⟨hrows, hbytes⟩ := storeBatches_counts hstored
  refine ⟨stored, hstored, ?_⟩
  rw [← Except.ok.inj hnext, hrows, hbytes]
  rfl

theorem finish_counts {window next : EncodedIngestWindow} (h : window.finish encoding = .ok next) :
    next.rows = window.rows ∧ next.estimatedBytes = window.estimatedBytes := by
  obtain ⟨finished, -, rfl⟩ := map_eq_ok.mp h
  exact ⟨rfl, rfl⟩

end EncodedIngestWindow

variable {turn : WindowTurn}

-- One group of batches, taken within what the budgets left and appended to the window.
structure Stored (encoding : WindowEncoding) (budgets : IngestBudgets) (schema : List Field)
    (window : EncodedIngestWindow) (pending : List PendingBatch) (next : EncodedIngestWindow) :
    Prop where
  entries : EntriesEstimated schema pending
  nonempty : pending ≠ []
  rows : rowsSum pending ≤ remainingRows budgets window
  bytes : bytesSum pending ≤ stagingBytes budgets window ∨ window.rows = 0 ∧ rowsSum pending = 1
  append : window.append encoding schema pending (bytesSum pending) = .ok next

theorem remainingRows_le (budgets : IngestBudgets) (window : EncodedIngestWindow) :
    remainingRows budgets window ≤ usizeMax := by
  unfold remainingRows
  split
  · have hlt := Nat.mod_lt (budgets.configuredRows.getD 0 + 2 ^ 64 - window.rows) (Nat.two_pow_pos 64)
    rw [wrappingSub, usizeMax]
    omega
  · exact le_rfl

theorem rowsSum_pos {pending : List PendingBatch} (h : EntriesEstimated schema pending)
    (hne : pending ≠ []) : 0 < rowsSum pending := by
  obtain ⟨entry, rest, rfl⟩ := List.exists_cons_of_ne_nil hne
  have hpos := (h entry List.mem_cons_self).rows_pos
  rw [rowsSum_cons]
  omega

theorem Stored.counts {window next : EncodedIngestWindow} {pending : List PendingBatch}
    (h : Stored encoding budgets schema window pending next) :
    next.rows = window.rows + rowsSum pending ∧
      next.estimatedBytes = window.estimatedBytes + bytesSum pending := by
  obtain ⟨stored, -, rfl⟩ := EncodedIngestWindow.append_ok h.append
  have hle := h.rows.trans (remainingRows_le budgets window)
  have hmax : usizeMax < 2 ^ 64 := by decide
  dsimp only
  rw [Nat.mod_eq_of_lt (by omega)]
  exact ⟨rfl, rfl⟩

-- Why the loop of next_window ends with this window, and what the scheduler then holds.
inductive WindowEnds (encoding : WindowEncoding) (budgets : IngestBudgets)
    (window : EncodedIngestWindow) (scheduler : IngestWindowScheduler) : Prop where
  | spent (h : remainingRows budgets window = 0 ∨ remainingBytes budgets window = 0 ∨
      remainingStagingBytes budgets (remainingBytes budgets window) window = 0)
  | drained (hpending : scheduler.pending = []) (hexhausted : scheduler.exhausted = true)
  | refused (hrows : window.rows ≠ 0)
      (hfront : OversizedFront scheduler (stagingBytes budgets window))
  | closed (hrows : window.rows ≠ 0) (h : shouldFinishAutomaticWindow encoding budgets window = true)

inductive Turned (encoding : WindowEncoding) (budgets : IngestBudgets) (schema : List Field)
    (window : EncodedIngestWindow) : List PendingBatch → WindowTurn → Prop where
  | unchanged {scheduler} (h : WindowEnds encoding budgets window scheduler) :
      Turned encoding budgets schema window [] (.ends window scheduler)
  | ends {pending next scheduler} (hstored : Stored encoding budgets schema window pending next)
      (h : WindowEnds encoding budgets next scheduler) :
      Turned encoding budgets schema window pending (.ends next scheduler)
  | goes {pending next scheduler} (hstored : Stored encoding budgets schema window pending next) :
      Turned encoding budgets schema window pending (.goes next scheduler)

def WindowTurn.scheduler : WindowTurn → IngestWindowScheduler
  | .ends _ scheduler | .goes _ scheduler => scheduler

theorem appendStaging_turned {window : EncodedIngestWindow} {scheduler : IngestWindowScheduler}
    {pending : List PendingBatch} (hschema : scheduler.schema = schema)
    (hentries : EntriesEstimated schema pending)
    (hrows : rowsSum pending ≤ remainingRows budgets window)
    (hbytes : bytesSum pending ≤ stagingBytes budgets window ∨
      window.rows = 0 ∧ rowsSum pending = 1)
    (hempty : pending = [] → WindowEnds encoding budgets window scheduler)
    (h : appendStaging encoding budgets window scheduler pending = .ok turn) :
    Turned encoding budgets schema window pending turn ∧ turn.scheduler = scheduler := by
  unfold appendStaging at h
  split at h
  · rename_i hnil
    rw [List.isEmpty_iff] at hnil
    subst hnil
    cases h
    exact ⟨.unchanged (hempty rfl), rfl⟩
  · rename_i hsome
    rw [List.isEmpty_iff] at hsome
    simp only [bind_eq_ok] at h
    obtain ⟨est, htotal, next, happend, hturn⟩ := h
    have hest := pendingTotal_ok htotal
    rw [zero_add] at hest
    rw [hest, hschema] at happend
    have hstored : Stored encoding budgets schema window pending next :=
      ⟨hentries, hsome, hrows, hbytes, happend⟩
    cases hturn
    split
    · rename_i hfinish
      have hcounts := hstored.counts.1
      have hpos := rowsSum_pos hentries hsome
      exact ⟨.ends hstored (.closed (by omega) hfinish), rfl⟩
    · exact ⟨.goes hstored, rfl⟩

theorem IngestWindowScheduler.Follows.pending_nil {scheduler : IngestWindowScheduler}
    (h : Follows source schema consumed scheduler) (hzero : scheduler.pendingRows = 0) :
    scheduler.pending = [] := by
  by_contra hne
  have hpos := rowsSum_pos h.accounted.entries hne
  have hrows := h.accounted.rows
  omega

theorem takeWindow_turned {window : EncodedIngestWindow} {scheduler : IngestWindowScheduler}
    (h : Follows source schema consumed scheduler) (hleft : 0 < remainingRows budgets window)
    (hbytes : 0 < stagingBytes budgets window)
    (hfilled : remainingRows budgets window ≤ scheduler.pendingRows ∨
      stagingBytes budgets window ≤ scheduler.pendingBytes ∨ scheduler.exhausted = true)
    (hturn : takeWindow encoding budgets window scheduler = .ok turn) :
    ∃ pending, Turned encoding budgets schema window pending turn ∧
      Follows source schema (consumed ++ queueRows pending) turn.scheduler := by
  unfold takeWindow at hturn
  split at hturn
  · rename_i hzero
    cases hturn
    have hnil := h.pending_nil hzero
    have hnone : scheduler.pendingBytes = 0 := by
      rw [h.accounted.bytes, hnil]
      rfl
    refine ⟨[], .unchanged (.drained hnil ?_), ?_⟩
    · rcases hfilled with hfilled | hfilled | hfilled
      · omega
      · omega
      · exact hfilled
    · exact h.moved h.accounted (.refl _) rfl
  · rename_i hsome
    obtain ⟨taken, next, htake, htaken, -⟩ := takeFrom_keeps h.accounted le_rfl
      (remainingRows_le budgets window) (stagingBytes budgets window) (window.rows == 0) []
    simp only [takeStaging, htake, ok_bind] at hturn
    have hentries := htaken.entries (by rintro _ ⟨⟩)
    have hrows := htaken.rows
    have hnil : rowsSum [] = 0 := rfl
    have hnilBytes : bytesSum [] = 0 := rfl
    rw [h.schema_eq] at hentries
    have hfits : bytesSum taken ≤ stagingBytes budgets window ∨
        window.rows = 0 ∧ rowsSum taken = 1 := by
      rcases htaken.bytes with hfits | ⟨-, hallow, hone⟩
      · left
        omega
      · exact .inr ⟨by simpa using hallow, hone⟩
    have hempty : taken = [] → WindowEnds encoding budgets window next := by
      rintro rfl
      rcases htaken.empty rfl hleft with hdrained | ⟨hallow, hfront⟩
      · have hqueue := htaken.queue
        rw [hdrained] at hqueue
        have hcount := h.accounted.rows
        rw [rowsSum_eq, ← List.nil_append (queueRows scheduler.pending)] at hcount
        exact absurd (hcount.trans (congrArg List.length hqueue.symm)) hsome
      · exact .refused (by simpa using hallow) hfront
    obtain ⟨hturned, hscheduler⟩ := appendStaging_turned (htaken.same.schema.trans h.schema_eq)
      hentries (by omega) hfits hempty hturn
    refine ⟨taken, hturned, ?_⟩
    rw [hscheduler]
    exact h.moved htaken.accounted htaken.same htaken.queue

theorem stagingBytes_pos {window : EncodedIngestWindow}
    (h : remainingStagingBytes budgets (remainingBytes budgets window) window ≠ 0) :
    0 < stagingBytes budgets window := by
  have hstaging : 0 < encodeStagingBytes := by decide
  rw [stagingBytes]
  omega

theorem windowTurn_turned (hconcat : source.ConcatExact) (hne : schema ≠ [])
    (hmoderate : source.Moderate schema) {turns : Nat} {window : EncodedIngestWindow}
    {scheduler : IngestWindowScheduler} (h : Follows source schema consumed scheduler)
    (hturn : windowTurn encoding budgets source turns window scheduler = some (.ok turn)) :
    ∃ pending, Turned encoding budgets schema window pending turn ∧
      Follows source schema (consumed ++ queueRows pending) turn.scheduler := by
  unfold windowTurn at hturn
  split at hturn
  · rename_i hspent
    cases hturn
    exact ⟨[], .unchanged (.spent hspent), h.moved h.accounted (.refl _) rfl⟩
  · rename_i hleft
    simp only [not_or] at hleft
    obtain ⟨hrows, -, hstaging⟩ := hleft
    obtain ⟨filled, hfill, htake⟩ := Option.map_eq_some_iff.mp hturn
    obtain ⟨middle, rfl, htake⟩ := bind_eq_ok.mp htake
    obtain ⟨hmiddle, hfilled⟩ :=
      fillStaging_follows hconcat hne hmoderate (Nat.min_le_right _ _) h hfill
    exact takeWindow_turned hmiddle (Nat.pos_of_ne_zero hrows) (stagingBytes_pos hstaging) hfilled htake

end Turns

section Runs
variable {encoding : WindowEncoding} {budgets : IngestBudgets} {source : BatchSource}
  {schema : List Field} {consumed : List Row} {result : Option EncodedIngestWindow}

open IngestWindowScheduler

def groupRows (groups : List (List PendingBatch)) : List Row := groups.flatMap queueRows

inductive Built (encoding : WindowEncoding) (budgets : IngestBudgets) (schema : List Field)
    (start : EncodedIngestWindow) : List (List PendingBatch) → EncodedIngestWindow → Prop where
  | start : Built encoding budgets schema start [] start
  | snoc {groups pending window next} (hbuilt : Built encoding budgets schema start groups window)
      (hstored : Stored encoding budgets schema window pending next) :
      Built encoding budgets schema start (groups ++ [pending]) next

-- The states in which the loop of one next_window call begins a turn.
inductive LoopAt (encoding : WindowEncoding) (budgets : IngestBudgets) (source : BatchSource)
    (start : EncodedIngestWindow) (first : IngestWindowScheduler) :
    EncodedIngestWindow → IngestWindowScheduler → Prop where
  | start : LoopAt encoding budgets source start first start first
  | turn {turns window scheduler next nextScheduler}
      (hat : LoopAt encoding budgets source start first window scheduler)
      (h : windowTurn encoding budgets source turns window scheduler =
        some (.ok (.goes next nextScheduler))) :
      LoopAt encoding budgets source start first next nextScheduler

theorem LoopAt.built (hconcat : source.ConcatExact) (hne : schema ≠ [])
    (hmoderate : source.Moderate schema) {start window : EncodedIngestWindow}
    {first scheduler : IngestWindowScheduler} (h : Follows source schema consumed first)
    (hat : LoopAt encoding budgets source start first window scheduler) :
    ∃ groups, Built encoding budgets schema start groups window ∧
      Follows source schema (consumed ++ groupRows groups) scheduler := by
  induction hat with
  | start => exact ⟨[], .start, h.moved h.accounted (.refl _) rfl⟩
  | turn _ hturn ih =>
    obtain ⟨groups, hbuilt, hfollows⟩ := ih
    obtain ⟨pending, hturned, hnext⟩ := windowTurn_turned hconcat hne hmoderate hfollows hturn
    cases hturned with
    | goes hstored =>
      refine ⟨groups ++ [pending], hbuilt.snoc hstored, ?_⟩
      simpa [groupRows, WindowTurn.scheduler] using hnext

theorem nextWindowFrom_ends {turns : Nat} {start window : EncodedIngestWindow}
    {first scheduler next : IngestWindowScheduler}
    (hat : LoopAt encoding budgets source start first window scheduler)
    (h : nextWindowFrom encoding budgets source turns window scheduler = some (.ok (result, next))) :
    ∃ last middle turns ended, LoopAt encoding budgets source start first last middle ∧
      windowTurn encoding budgets source turns last middle = some (.ok (.ends ended next)) ∧
      closeWindow encoding ended next = .ok (result, next) := by
  induction turns generalizing window scheduler with
  | zero => cases h
  | succ turns ih =>
    rw [nextWindowFrom] at h
    split at h
    · cases h
    · cases h
    · rename_i ended final hturn
      have hclose := Option.some.inj h
      have hfinal : next = final := by
        unfold closeWindow at hclose
        split at hclose
        · cases hclose
          rfl
        · obtain ⟨_, -, heq⟩ := map_eq_ok.mp hclose
          cases heq
          rfl
      subst hfinal
      exact ⟨window, scheduler, turns, ended, hat, hturn, hclose⟩
    · rename_i turned middle hturn
      exact ih (hat.turn hturn) h

theorem nextWindow_built (hconcat : source.ConcatExact) (hne : schema ≠ [])
    (hmoderate : source.Moderate schema) {turns : Nat} {scheduler next : IngestWindowScheduler}
    (h : Follows source schema consumed scheduler)
    (hnext : nextWindow encoding budgets source turns scheduler = some (.ok (result, next))) :
    ∃ start groups window,
      EncodedIngestWindow.forSchema schema budgets.wireCompression = .ok start ∧
      Built encoding budgets schema start groups window ∧
      Follows source schema (consumed ++ groupRows groups) next ∧
      WindowEnds encoding budgets window next ∧
      closeWindow encoding window next = .ok (result, next) := by
  unfold nextWindow at hnext
  split at hnext
  · cases hnext
  · rename_i start hstart
    rw [h.schema_eq] at hstart
    obtain ⟨last, middle, turns, ended, hat, hturn, hclose⟩ := nextWindowFrom_ends .start hnext
    obtain ⟨groups, hbuilt, hfollows⟩ := hat.built hconcat hne hmoderate h
    obtain ⟨pending, hturned, hfinal⟩ := windowTurn_turned hconcat hne hmoderate hfollows hturn
    cases hturned with
    | unchanged hends =>
      refine ⟨start, groups, last, hstart, hbuilt, ?_, hends, hclose⟩
      simpa [queueRows, WindowTurn.scheduler] using hfinal
    | ends hstored hends =>
      refine ⟨start, groups ++ [pending], ended, hstart, hbuilt.snoc hstored, ?_, hends, hclose⟩
      simpa [groupRows, WindowTurn.scheduler] using hfinal

end Runs

end MonetdbAdbc.Driver
