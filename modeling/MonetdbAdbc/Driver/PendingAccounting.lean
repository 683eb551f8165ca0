import MonetdbAdbc.Driver.IngestSchedule
import MonetdbAdbc.Driver.BatchEstimates

namespace MonetdbAdbc.Driver
open Machine Bisection

section Queue
variable {schema : List Field}

def rowsSum (pending : List PendingBatch) : Nat := (pending.map fun entry => entry.batch.rows).sum

def bytesSum (pending : List PendingBatch) : Nat := (pending.map PendingBatch.estimatedBytes).sum

def queueRows (pending : List PendingBatch) : List Row :=
  pending.flatMap fun entry => entry.batch.rowsOf

structure PendingBatch.Estimated (schema : List Field) (entry : PendingBatch) : Prop where
  schema_eq : entry.batch.schema = schema
  estimate : estimatedBatchSize schema entry.batch = .ok entry.estimatedBytes
  rows_pos : 0 < entry.batch.rows

theorem PendingBatch.Estimated.bytes_eq {entry : PendingBatch} (h : entry.Estimated schema) :
    entry.estimatedBytes = (sizes schema entry.batch.rowsOf).sum :=
  estimatedBatchSize_ok h.schema_eq h.estimate

def EntriesEstimated (schema : List Field) (pending : List PendingBatch) : Prop :=
  ∀ entry ∈ pending, entry.Estimated schema

@[simp] theorem rowsSum_append (xs ys : List PendingBatch) :
    rowsSum (xs ++ ys) = rowsSum xs + rowsSum ys := by
  simp [rowsSum]

@[simp] theorem bytesSum_append (xs ys : List PendingBatch) :
    bytesSum (xs ++ ys) = bytesSum xs + bytesSum ys := by
  simp [bytesSum]

@[simp] theorem queueRows_append (xs ys : List PendingBatch) :
    queueRows (xs ++ ys) = queueRows xs ++ queueRows ys := by
  simp [queueRows]

@[simp] theorem rowsSum_cons (entry : PendingBatch) (rest : List PendingBatch) :
    rowsSum (entry :: rest) = entry.batch.rows + rowsSum rest := by
  simp [rowsSum]

@[simp] theorem bytesSum_cons (entry : PendingBatch) (rest : List PendingBatch) :
    bytesSum (entry :: rest) = entry.estimatedBytes + bytesSum rest := by
  simp [bytesSum]

@[simp] theorem queueRows_cons (entry : PendingBatch) (rest : List PendingBatch) :
    queueRows (entry :: rest) = entry.batch.rowsOf ++ queueRows rest := by
  simp [queueRows]

theorem rowsSum_eq (pending : List PendingBatch) : rowsSum pending = (queueRows pending).length := by
  induction pending with
  | nil => rfl
  | cons entry rest ih => simp [ih]

theorem bytesSum_eq {pending : List PendingBatch} (h : EntriesEstimated schema pending) :
    bytesSum pending = (sizes schema (queueRows pending)).sum := by
  induction pending with
  | nil => rfl
  | cons entry rest ih =>
    obtain ⟨hentry, hrest⟩ := List.forall_mem_cons.mp h
    rw [bytesSum_cons, ih hrest, hentry.bytes_eq]
    simp [sizes]

theorem estimatedBatchSize_le {batch : RecordBatch} {est : Nat}
    (h : estimatedBatchSize schema batch = .ok est) : est ≤ usizeMax := by
  have hfrom {total : Nat} {columns : List (Field × Column)} (htotal : total ≤ usizeMax)
      (h : estimatedFrom total columns = .ok est) : est ≤ usizeMax := by
    induction columns generalizing total with
    | nil =>
      cases h
      exact htotal
    | cons column columns ih =>
      simp only [estimatedFrom, bind_eq_ok, okOr_eq_ok, checkedAdd_eq_some] at h
      obtain ⟨bytes, -, next, ⟨hnext, rfl⟩, hrest⟩ := h
      exact ih hnext hrest
  exact hfrom (Nat.zero_le _) h

theorem PendingBatch.Estimated.slice_estimate {entry : PendingBatch} (h : entry.Estimated schema)
    (start len : Nat) :
    estimatedBatchSize schema (entry.batch.slice start len) =
      .ok (sizes schema ((entry.batch.rowsOf.drop start).take len)).sum :=
  estimatedBatchSize_slice h.schema_eq h.estimate (estimatedBatchSize_le h.estimate) start len

end Queue

section Compaction
variable {source : BatchSource}

structure BatchSource.ConcatExact (source : BatchSource) : Prop where
  schema_eq : ∀ schema parts batch, source.concatBatches schema parts = .ok batch →
    batch.schema = schema
  rows_eq : ∀ schema parts batch, source.concatBatches schema parts = .ok batch →
    batch.rowsOf = parts.flatMap RecordBatch.rowsOf
  keys : ∀ schema parts batch, source.concatBatches schema parts = .ok batch → batch.KeysInRange

namespace IngestWindowScheduler
variable {scheduler second : IngestWindowScheduler}

theorem pendingTotal_ok {total est : Nat} {entries : List PendingBatch}
    (h : pendingTotal total entries = .ok est) : est = total + bytesSum entries := by
  induction entries generalizing total with
  | nil => exact (Except.ok.inj h).symm
  | cons entry rest ih =>
    simp only [pendingTotal, bind_eq_ok, okOr_eq_ok, checkedAdd_eq_some] at h
    obtain ⟨next, ⟨-, rfl⟩, hrest⟩ := h
    rw [ih hrest, bytesSum_cons]
    omega

theorem pendingTotal_isOk {total : Nat} {entries : List PendingBatch}
    (h : total + bytesSum entries ≤ usizeMax) :
    pendingTotal total entries = .ok (total + bytesSum entries) := by
  induction entries generalizing total with
  | nil => rfl
  | cons entry rest ih =>
    rw [bytesSum_cons] at h ⊢
    have hadd : checkedAdd total entry.estimatedBytes = some (total + entry.estimatedBytes) :=
      checkedAdd_eq_some.mpr ⟨by omega, rfl⟩
    rw [pendingTotal, hadd, okOr_some, ok_bind, ih (by omega), Nat.add_assoc]

theorem bytesSum_reverse (entries : List PendingBatch) :
    bytesSum entries.reverse = bytesSum entries := by
  simp [bytesSum, List.sum_reverse]

structure SameStream (scheduler next : IngestWindowScheduler) : Prop where
  schema : next.schema = scheduler.schema
  position : next.position = scheduler.position
  exhausted : next.exhausted = scheduler.exhausted

theorem SameStream.refl (scheduler : IngestWindowScheduler) : SameStream scheduler scheduler :=
  ⟨rfl, rfl, rfl⟩

theorem SameStream.trans {first third : IngestWindowScheduler} (h : SameStream first second)
    (h' : SameStream second third) : SameStream first third :=
  ⟨h'.schema.trans h.schema, h'.position.trans h.position, h'.exhausted.trans h.exhausted⟩

-- The queue a compaction leaves: the last entries became one, nothing else is touched.
structure Compacted (scheduler next : IngestWindowScheduler) : Prop
    extends SameStream scheduler next where
  pendingRows : next.pendingRows = scheduler.pendingRows
  pendingBytes : next.pendingBytes = scheduler.pendingBytes
  entries : EntriesEstimated next.schema next.pending
  rows : queueRows next.pending = queueRows scheduler.pending

theorem Compacted.refl (h : EntriesEstimated scheduler.schema scheduler.pending) :
    Compacted scheduler scheduler :=
  ⟨.refl _, rfl, rfl, h, rfl⟩

theorem Compacted.trans {first third : IngestWindowScheduler} (h : Compacted first second)
    (h' : Compacted second third) : Compacted first third :=
  ⟨h.toSameStream.trans h'.toSameStream, h'.pendingRows.trans h.pendingRows,
    h'.pendingBytes.trans h.pendingBytes, h'.entries, h'.rows.trans h.rows⟩

theorem concat_estimated (hconcat : source.ConcatExact) {schema : List Field}
    {recent : List PendingBatch} {batch : RecordBatch} {est level : Nat} (hne : recent ≠ [])
    (hrecent : EntriesEstimated schema recent) (hest : est = bytesSum recent)
    (hle : est ≤ usizeMax)
    (h : source.concatBatches schema (recent.map PendingBatch.batch) = .ok batch) :
    PendingBatch.Estimated schema ⟨batch, est, level⟩ ∧ batch.rowsOf = queueRows recent := by
  have hschema := hconcat.schema_eq _ _ _ h
  have hrows : batch.rowsOf = queueRows recent := by
    rw [hconcat.rows_eq _ _ _ h, List.flatMap_map]
    rfl
  have hsum : (sizes schema batch.rowsOf).sum = est := by
    rw [hrows, hest, bytesSum_eq hrecent]
  obtain ⟨entry, rest, rfl⟩ := List.exists_cons_of_ne_nil hne
  have hentry := hrecent entry List.mem_cons_self
  refine ⟨⟨hschema, ?_, ?_⟩, hrows⟩
  · have hlength : entry.batch.columns.length = batch.columns.length := by
      rw [← entry.batch.aligned.length_eq, ← batch.aligned.length_eq, hentry.schema_eq, hschema]
    have hkeys : List.Forall₂ (fun a b => ∀ est, estimatedVariable a = .ok est →
        Column.KeysInRange b) entry.batch.columns batch.columns := by
      refine List.forall₂_iff_zip.mpr ⟨hlength, fun {a b} hmem _ _ => ?_⟩
      exact hconcat.keys _ _ _ h b (List.of_mem_zip hmem).2
    rw [estimatedBatchSize_transfer hentry.schema_eq hschema hentry.estimate hkeys (by omega), hsum]
  · have hpos := hentry.rows_pos
    have hlen := congrArg List.length hrows
    rw [RecordBatch.rowsOf_length, ← rowsSum_eq, rowsSum_cons] at hlen
    change 0 < batch.rows
    omega

theorem compactOnce_some (hconcat : source.ConcatExact) {next : IngestWindowScheduler}
    (hentries : EntriesEstimated scheduler.schema scheduler.pending)
    (h : compactOnce source scheduler = .ok (some next)) :
    Compacted scheduler next ∧ next.pending.length < scheduler.pending.length := by
  simp only [compactOnce] at h
  split at h
  · cases h
  · rename_i hfanout
    split at h
    · cases h
    · obtain ⟨est, htotal, h⟩ := bind_eq_ok.mp h
      split at h
      · cases h
      · rename_i hsmall
        obtain ⟨batch, hbatch, h⟩ := bind_eq_ok.mp h
        cases h
        set kept := scheduler.pending.length - pendingBatchCompactionFanout with hkept
        have hfanout' : pendingBatchCompactionFanout = 32 := rfl
        have hsplit := List.take_append_drop kept scheduler.pending
        have hest := pendingTotal_ok htotal
        rw [bytesSum_reverse, zero_add] at hest
        have hne : scheduler.pending.drop kept ≠ [] := by
          intro hnil
          have hlen := congrArg List.length hnil
          rw [List.length_drop, List.length_nil] at hlen
          omega
        have hmax : pendingBatchCompactionMaxBytes ≤ usizeMax := by decide
        obtain ⟨hestimated, hrows⟩ := @concat_estimated source hconcat _ _ _ _
          (lastLevel scheduler.pending + 1) hne
          (fun entry hentry => hentries entry (List.mem_of_mem_drop hentry)) hest (by omega) hbatch
        refine ⟨⟨⟨rfl, rfl, rfl⟩, rfl, rfl, ?_, ?_⟩, ?_⟩
        · intro entry hentry
          rcases List.mem_append.mp hentry with hentry | hentry
          · exact hentries entry (List.mem_of_mem_take hentry)
          · rw [List.mem_singleton.mp hentry]
            exact hestimated
        · conv_rhs => rw [← hsplit, queueRows_append]
          simp [hrows, queueRows]
        · simp only [List.length_append, List.length_take, List.length_singleton]
          omega

theorem compactFrom_ok (hconcat : source.ConcatExact) {fuel : Nat} {next : IngestWindowScheduler}
    (hentries : EntriesEstimated scheduler.schema scheduler.pending)
    (h : compactFrom source fuel scheduler = .ok next) : Compacted scheduler next := by
  induction fuel generalizing scheduler with
  | zero => cases h
  | succ fuel ih =>
    simp only [compactFrom, bind_eq_ok] at h
    obtain ⟨turn, hturn, h⟩ := h
    cases turn with
    | none =>
      cases h
      exact .refl hentries
    | some middle =>
      obtain ⟨hmiddle, -⟩ := compactOnce_some hconcat hentries hturn
      exact hmiddle.trans (ih hmiddle.entries h)

theorem compactOnce_error {error : IngestError} (hbytes : bytesSum scheduler.pending ≤ usizeMax)
    (h : compactOnce source scheduler = .error error) :
    ∃ parts, source.concatBatches scheduler.schema parts = .error error := by
  have hle : bytesSum (scheduler.pending.drop
      (scheduler.pending.length - pendingBatchCompactionFanout)).reverse ≤ usizeMax := by
    have hsplit := List.take_append_drop
      (scheduler.pending.length - pendingBatchCompactionFanout) scheduler.pending
    rw [← hsplit, bytesSum_append] at hbytes
    rw [bytesSum_reverse]
    omega
  simp only [compactOnce] at h
  split at h
  · cases h
  · split at h
    · cases h
    · rw [pendingTotal_isOk (by omega), ok_bind] at h
      split at h
      · cases h
      · rcases bind_eq_error.mp h with h | ⟨batch, -, h⟩
        · exact ⟨_, h⟩
        · cases h

-- Each turn leaves a shorter queue, so the turns the queue's length allows are enough.
theorem compactFrom_error (hconcat : source.ConcatExact) {fuel : Nat} {error : IngestError}
    (hentries : EntriesEstimated scheduler.schema scheduler.pending)
    (hbytes : bytesSum scheduler.pending ≤ usizeMax) (hfuel : scheduler.pending.length < fuel)
    (h : compactFrom source fuel scheduler = .error error) :
    ∃ parts, source.concatBatches scheduler.schema parts = .error error := by
  induction fuel generalizing scheduler with
  | zero => omega
  | succ fuel ih =>
    simp only [compactFrom, bind_eq_error] at h
    rcases h with h | ⟨turn, hturn, h⟩
    · exact compactOnce_error hbytes h
    · cases turn with
      | none => cases h
      | some middle =>
        obtain ⟨hmiddle, hlen⟩ := compactOnce_some hconcat hentries hturn
        have hsame : bytesSum middle.pending = bytesSum scheduler.pending := by
          rw [bytesSum_eq hmiddle.entries, bytesSum_eq hentries, hmiddle.rows, hmiddle.schema]
        obtain ⟨parts, hparts⟩ := ih hmiddle.entries (by omega) (by omega) h
        exact ⟨parts, by rw [← hmiddle.schema]; exact hparts⟩

end IngestWindowScheduler

end Compaction

section Accounting
variable {source : BatchSource}

namespace IngestWindowScheduler
variable {scheduler next popped : IngestWindowScheduler} {remainingRows remainingBytes : Nat}
  {entry front : PendingBatch} {staging : List PendingBatch} {allowOversizedRow : Bool}

structure Accounted (scheduler : IngestWindowScheduler) : Prop where
  entries : EntriesEstimated scheduler.schema scheduler.pending
  rows : scheduler.pendingRows = rowsSum scheduler.pending
  bytes : scheduler.pendingBytes = bytesSum scheduler.pending
  rows_le : rowsSum scheduler.pending ≤ usizeMax
  bytes_le : bytesSum scheduler.pending ≤ usizeMax

theorem wrappingAdd_of_le {a b : Nat} (h : a + b ≤ usizeMax) : wrappingAdd a b = a + b := by
  have hmax : usizeMax < 2 ^ 64 := by decide
  exact Nat.mod_eq_of_lt (by omega)

theorem new_accounted (schema : List Field) : (new schema).Accounted :=
  ⟨by rintro _ ⟨⟩, rfl, rfl, Nat.zero_le _, Nat.zero_le _⟩

theorem Accounted.popFront (h : scheduler.Accounted)
    (hpop : scheduler.popFront = some (front, popped)) :
    popped.Accounted ∧ SameStream scheduler popped ∧ front.Estimated scheduler.schema ∧
      scheduler.pending = front :: popped.pending ∧ front.batch.rows ≤ scheduler.pendingRows ∧
      front.estimatedBytes ≤ scheduler.pendingBytes := by
  unfold IngestWindowScheduler.popFront at hpop
  split at hpop
  · cases hpop
  · rename_i head rest hpending
    cases hpop
    obtain ⟨hentries, hrows, hbytes, hrowsLe, hbytesLe⟩ := h
    rw [hpending] at hentries hrows hbytes hrowsLe hbytesLe
    obtain ⟨hfront, hrest⟩ := List.forall_mem_cons.mp hentries
    rw [rowsSum_cons] at hrows hrowsLe
    rw [bytesSum_cons] at hbytes hbytesLe
    refine ⟨⟨hrest, ?_, ?_, by dsimp only; omega, by dsimp only; omega⟩, ⟨rfl, rfl, rfl⟩, hfront, hpending,
      by omega, by omega⟩
    · dsimp only
      rw [wrappingSub_of_le (by omega) (by omega)]
      omega
    · dsimp only
      rw [wrappingSub_of_le (by omega) (by omega)]
      omega

theorem Accounted.pushFront (h : scheduler.Accounted) (hentry : entry.Estimated scheduler.schema)
    (hrows : rowsSum scheduler.pending + entry.batch.rows ≤ usizeMax)
    (hbytes : bytesSum scheduler.pending + entry.estimatedBytes ≤ usizeMax) :
    (scheduler.pushFront entry).Accounted := by
  refine ⟨List.forall_mem_cons.mpr ⟨hentry, h.entries⟩, ?_, ?_, ?_, ?_⟩
  · simp only [IngestWindowScheduler.pushFront, rowsSum_cons]
    rw [h.rows, wrappingAdd_of_le hrows, Nat.add_comm]
  · simp only [IngestWindowScheduler.pushFront, bytesSum_cons]
    rw [h.bytes, wrappingAdd_of_le hbytes, Nat.add_comm]
  · simp only [IngestWindowScheduler.pushFront, rowsSum_cons]
    omega
  · simp only [IngestWindowScheduler.pushFront, bytesSum_cons]
    omega

theorem sizes_split (schema : List Field) (rows : List Row) (n : Nat) :
    (sizes schema (rows.take n)).sum + (sizes schema (rows.drop n)).sum = (sizes schema rows).sum := by
  conv_rhs => rw [← List.take_append_drop n rows]
  simp [sizes, -List.take_append_drop]

def prefixBytes (schema : List Field) (batch : RecordBatch) (rows : Nat) : Nat :=
  (sizes schema (batch.rowsOf.take rows)).sum

theorem prefixBytes_mono (schema : List Field) (batch : RecordBatch) {n m : Nat} (h : n ≤ m) :
    prefixBytes schema batch n ≤ prefixBytes schema batch m := by
  have hsub : (sizes schema (batch.rowsOf.take n)).Sublist (sizes schema (batch.rowsOf.take m)) :=
    (List.take_sublist_take_left h).map _
  exact hsub.sum_le_sum fun _ _ => Nat.zero_le _

theorem rowsWithinBudget_largest (h : entry.Estimated scheduler.schema) (budget : Nat) :
    ∃ rows, scheduler.rowsWithinBudget entry.batch budget = .ok rows ∧ rows ≤ entry.batch.rows ∧
      prefixBytes scheduler.schema entry.batch rows ≤ budget ∧
      ∀ n ≤ entry.batch.rows, prefixBytes scheduler.schema entry.batch n ≤ budget → n ≤ rows := by
  refine @bisect_largest _ _ _ (fun n => prefixBytes scheduler.schema entry.batch n ≤ budget) _
    entry.batch.rows _ 0 entry.batch.rows ?_ ?_ (Nat.zero_le budget) (Nat.zero_le _) le_rfl ?_ ?_
  · intro n hn
    rw [h.slice_estimate 0 n]
    rfl
  · intro n m hnm hm
    exact (prefixBytes_mono _ _ hnm).trans hm
  · intro n hlt hle
    omega
  · omega

theorem splitPending_ok {rows : Nat} (h : entry.Estimated scheduler.schema) (hpos : 0 < rows)
    (hlt : rows < entry.batch.rows) :
    ∃ front remainder, scheduler.splitPending entry rows = .ok (front, remainder) ∧
      front.Estimated scheduler.schema ∧ remainder.Estimated scheduler.schema ∧
      front.batch.rows = rows ∧ front.batch.rows + remainder.batch.rows = entry.batch.rows ∧
      front.estimatedBytes + remainder.estimatedBytes = entry.estimatedBytes ∧
      front.batch.rowsOf ++ remainder.batch.rowsOf = entry.batch.rowsOf := by
  have hfront := h.slice_estimate 0 rows
  have hrest := h.slice_estimate rows (entry.batch.rows - rows)
  rw [List.drop_zero] at hfront
  rw [List.take_of_length_le (by simp)] at hrest
  have hsum := sizes_split scheduler.schema entry.batch.rowsOf rows
  rw [← h.bytes_eq] at hsum
  have hrest' : entry.estimatedBytes - (sizes scheduler.schema (entry.batch.rowsOf.take rows)).sum =
      (sizes scheduler.schema (entry.batch.rowsOf.drop rows)).sum := by omega
  have hfrontRows : (entry.batch.slice 0 rows).rows = rows := by
    simp only [RecordBatch.slice]
    omega
  have hrestRows : (entry.batch.slice rows (entry.batch.rows - rows)).rows =
      entry.batch.rows - rows := by
    simp only [RecordBatch.slice]
    omega
  refine ⟨⟨entry.batch.slice 0 rows, _, entry.compactionLevel⟩,
    ⟨entry.batch.slice rows (entry.batch.rows - rows), _, entry.compactionLevel⟩, ?_,
    ⟨h.schema_eq, hfront, ?_⟩, ⟨h.schema_eq, hrest, ?_⟩, hfrontRows, ?_, hsum, ?_⟩
  · rw [splitPending, if_neg (by omega)]
    simp only [hfront, ok_bind]
    rw [if_pos (by omega), okOr_some, ok_bind, hrest']
    rfl
  · rw [hfrontRows]
    exact hpos
  · rw [hrestRows]
    omega
  · rw [hfrontRows, hrestRows]
    omega
  · have hall : (entry.batch.rowsOf.drop rows).take (entry.batch.rows - rows) =
        entry.batch.rowsOf.drop rows := List.take_of_length_le (by simp)
    rw [RecordBatch.rowsOf_slice, RecordBatch.rowsOf_slice, List.drop_zero, hall,
      List.take_append_drop]

def OversizedFront (scheduler : IngestWindowScheduler) (remainingBytes : Nat) : Prop :=
  ∃ front rest, scheduler.pending = front :: rest ∧
    remainingBytes < prefixBytes scheduler.schema front.batch 1

theorem popFront_none (h : scheduler.popFront = none) : scheduler.pending = [] := by
  unfold IngestWindowScheduler.popFront at h
  split at h
  · assumption
  · cases h

def TurnKeeps (scheduler : IngestWindowScheduler) (remainingRows remainingBytes : Nat)
    (allowOversizedRow : Bool) (staging : List PendingBatch) : TakeTurn → Prop
  | .stop next => next.Accounted ∧ SameStream scheduler next ∧
      queueRows next.pending = queueRows scheduler.pending ∧
      (next.pending = [] ∨ (staging.isEmpty = false ∨ allowOversizedRow = false) ∧
        OversizedFront next remainingBytes)
  | .took selected next => next.Accounted ∧ SameStream scheduler next ∧
      selected.Estimated scheduler.schema ∧ selected.batch.rows ≤ remainingRows ∧
      selected.batch.rowsOf ++ queueRows next.pending = queueRows scheduler.pending ∧
      (selected.estimatedBytes ≤ remainingBytes ∨
        staging.isEmpty = true ∧ allowOversizedRow = true ∧ selected.batch.rows = 1 ∧
          remainingBytes < selected.estimatedBytes)

theorem TurnKeeps.rows_pos {selected : PendingBatch}
    (h : TurnKeeps scheduler remainingRows remainingBytes allowOversizedRow staging
      (.took selected next)) : 0 < selected.batch.rows :=
  h.2.2.1.rows_pos

theorem prefixBytes_all (schema : List Field) (batch : RecordBatch) :
    prefixBytes schema batch batch.rows = (sizes schema batch.rowsOf).sum := by
  rw [prefixBytes, List.take_of_length_le (by simp)]

theorem rowsByBytes_ok (h : entry.Estimated scheduler.schema) (remainingBytes : Nat) :
    ∃ rows, scheduler.rowsByBytes entry remainingBytes = .ok rows ∧ rows ≤ entry.batch.rows ∧
      prefixBytes scheduler.schema entry.batch rows ≤ remainingBytes ∧
      (rows = 0 → remainingBytes < prefixBytes scheduler.schema entry.batch 1) := by
  have hpos := h.rows_pos
  unfold rowsByBytes
  split
  · rename_i hle
    refine ⟨_, rfl, le_rfl, ?_, by omega⟩
    rw [prefixBytes_all, ← h.bytes_eq]
    exact hle
  · obtain ⟨rows, hrows, hle, hfits, hlargest⟩ := rowsWithinBudget_largest h remainingBytes
    refine ⟨rows, hrows, hle, hfits, fun hzero => ?_⟩
    by_contra hone
    have hlast := hlargest 1 hpos (by omega)
    omega

-- The rest of a split batch goes back where the whole batch came from, so the sums stay below it.
theorem selectRows_keeps {rows : Nat} (h : scheduler.Accounted)
    (hpop : scheduler.popFront = some (front, popped)) (hpos : 0 < rows)
    (hle : rows ≤ front.batch.rows) :
    ∃ selected next, popped.selectRows front rows = .ok (selected, next) ∧ next.Accounted ∧
      SameStream scheduler next ∧ selected.Estimated scheduler.schema ∧
      selected.batch.rows = rows ∧
      selected.estimatedBytes = prefixBytes scheduler.schema front.batch rows ∧
      selected.batch.rowsOf ++ queueRows next.pending = queueRows scheduler.pending := by
  obtain ⟨hpopped, hsame, hfront, hpending, -, -⟩ := h.popFront hpop
  have hrowsLe := h.rows_le
  have hbytesLe := h.bytes_le
  rw [hpending, rowsSum_cons] at hrowsLe
  rw [hpending, bytesSum_cons] at hbytesLe
  unfold selectRows
  split
  · rename_i hall
    refine ⟨front, popped, rfl, hpopped, hsame, hfront, hall.symm, ?_, by rw [hpending, queueRows_cons]⟩
    rw [hall, prefixBytes_all]
    exact hfront.bytes_eq
  · rename_i hne
    have hfront' := hfront
    rw [← hsame.schema] at hfront'
    obtain ⟨selected, remainder, hsplit, hestimated, hremainder, hselected, hsum, hbytes, hrows⟩ :=
      splitPending_ok hfront' hpos (lt_of_le_of_ne hle hne)
    rw [hsplit]
    refine ⟨selected, _, rfl, ?_, ⟨hsame.schema, hsame.position, hsame.exhausted⟩, ?_, hselected,
      ?_, ?_⟩
    · obtain ⟨hentries, hrows', hbytes', hrowsLe', hbytesLe'⟩ :=
        hpopped.pushFront hremainder (by omega) (by omega)
      exact ⟨hentries, hrows', hbytes', hrowsLe', hbytesLe'⟩
    · rw [← hsame.schema]
      exact hestimated
    · rw [hestimated.bytes_eq, prefixBytes, ← hrows,
        List.take_left' (by rw [RecordBatch.rowsOf_length, hselected]), hsame.schema]
    · rw [hpending, queueRows_cons, ← hrows, List.append_assoc]
      simp [IngestWindowScheduler.pushFront]

theorem putBack_keeps (h : scheduler.Accounted) (hpop : scheduler.popFront = some (front, popped)) :
    (popped.pushFront front).Accounted ∧ SameStream scheduler (popped.pushFront front) ∧
      (popped.pushFront front).pending = scheduler.pending := by
  obtain ⟨hpopped, hsame, hfront, hpending, -, -⟩ := h.popFront hpop
  have hrowsLe := h.rows_le
  have hbytesLe := h.bytes_le
  rw [hpending, rowsSum_cons] at hrowsLe
  rw [hpending, bytesSum_cons] at hbytesLe
  rw [← hsame.schema] at hfront
  exact ⟨hpopped.pushFront hfront (by omega) (by omega), ⟨hsame.schema, hsame.position,
    hsame.exhausted⟩, by rw [hpending]; rfl⟩

theorem takeOnce_keeps (h : scheduler.Accounted) (hpos : 0 < remainingRows) (remainingBytes : Nat)
    (allowOversizedRow : Bool) (staging : List PendingBatch) :
    ∃ turn, takeOnce scheduler remainingRows remainingBytes allowOversizedRow staging = .ok turn ∧
      TurnKeeps scheduler remainingRows remainingBytes allowOversizedRow staging turn := by
  unfold takeOnce
  cases hpop : scheduler.popFront with
  | none => exact ⟨_, rfl, h, .refl _, rfl, .inl (popFront_none hpop)⟩
  | some taken =>
    obtain ⟨front, popped⟩ := taken
    obtain ⟨-, hsame, hfront, hpending, -, -⟩ := h.popFront hpop
    have hrowsPos := hfront.rows_pos
    have hfront' := hfront
    rw [← hsame.schema] at hfront'
    obtain ⟨byBytes, hbyBytes, hle, hfits, hnone⟩ := rowsByBytes_ok hfront' remainingBytes
    rw [hsame.schema] at hfits hnone
    simp only [hbyBytes, ok_bind]
    split
    · rename_i hstop
      obtain ⟨hacc, hsame', hback⟩ := putBack_keeps h hpop
      have hzero : byBytes = 0 := by omega
      refine ⟨_, rfl, hacc, hsame', by rw [hback], .inr ⟨hstop.2, front, popped.pending, ?_, ?_⟩⟩
      · rw [hback, hpending]
      · rw [hsame'.schema]
        exact hnone hzero
    · rename_i hgo
      obtain ⟨selected, next, hselect, hnext, hsame', hestimated, hrows, hbytes, hqueue⟩ :=
        @selectRows_keeps scheduler popped front (max (min byBytes remainingRows) 1) h hpop
          (by omega) (by omega)
      rw [hselect]
      refine ⟨_, rfl, hnext, hsame', hestimated, by rw [hrows]; omega, hqueue, ?_⟩
      dsimp only
      rcases Nat.eq_zero_or_pos byBytes with hzero | hsome
      · right
        have hone : max (min byBytes remainingRows) 1 = 1 := by omega
        rw [hone] at hrows hbytes
        rw [hbytes]
        refine ⟨?_, ?_, hrows, hnone hzero⟩
        · cases hempty : staging.isEmpty with
          | true => rfl
          | false => exact absurd ⟨by omega, .inl hempty⟩ hgo
        · cases hallow : allowOversizedRow with
          | true => rfl
          | false => exact absurd ⟨by omega, .inr hallow⟩ hgo
      · left
        rw [hbytes]
        exact (prefixBytes_mono _ _ (by omega)).trans hfits

-- What take_staging has taken when its loop ends, from whichever turn on.
structure Taken (scheduler : IngestWindowScheduler) (remainingRows remainingBytes : Nat)
    (allowOversizedRow : Bool) (staging taken : List PendingBatch)
    (next : IngestWindowScheduler) : Prop where
  accounted : next.Accounted
  same : SameStream scheduler next
  entries : EntriesEstimated scheduler.schema staging → EntriesEstimated scheduler.schema taken
  queue : queueRows taken ++ queueRows next.pending =
    queueRows staging ++ queueRows scheduler.pending
  rows : rowsSum taken ≤ rowsSum staging + remainingRows
  bytes : bytesSum taken ≤ bytesSum staging + remainingBytes ∨
    staging.isEmpty = true ∧ allowOversizedRow = true ∧ rowsSum taken = 1
  empty : taken = [] → 0 < remainingRows →
    next.pending = [] ∨ allowOversizedRow = false ∧ OversizedFront next remainingBytes

theorem Taken.ended (h : scheduler.Accounted) (hwhy : remainingRows = 0 ∨ staging ≠ [])
    (remainingBytes : Nat) (allowOversizedRow : Bool) :
    Taken scheduler remainingRows remainingBytes allowOversizedRow staging staging scheduler := by
  refine ⟨h, .refl _, id, rfl, Nat.le_add_right _ _, .inl (Nat.le_add_right _ _), ?_⟩
  intro hnil hpos
  rcases hwhy with hwhy | hwhy
  · omega
  · exact absurd hnil hwhy

theorem Taken.stop
    (h : TurnKeeps scheduler remainingRows remainingBytes allowOversizedRow staging (.stop next)) :
    Taken scheduler remainingRows remainingBytes allowOversizedRow staging staging next := by
  obtain ⟨hacc, hsame, hqueue, hwhy⟩ := h
  refine ⟨hacc, hsame, id, by rw [hqueue], Nat.le_add_right _ _, .inl (Nat.le_add_right _ _), ?_⟩
  rintro rfl -
  rcases hwhy with hwhy | ⟨hrefused, hfront⟩
  · exact .inl hwhy
  · refine .inr ⟨?_, hfront⟩
    rcases hrefused with hrefused | hrefused
    · cases hrefused
    · exact hrefused

theorem Taken.took {middle : IngestWindowScheduler} {selected : PendingBatch}
    {taken : List PendingBatch}
    (h : TurnKeeps scheduler remainingRows remainingBytes allowOversizedRow staging
      (.took selected middle))
    (hrest : Taken middle (remainingRows - selected.batch.rows)
      (remainingBytes - selected.estimatedBytes) allowOversizedRow (staging ++ [selected]) taken next)
    (hdone : remainingBytes < selected.estimatedBytes → taken = staging ++ [selected])
    (hne : taken ≠ []) :
    Taken scheduler remainingRows remainingBytes allowOversizedRow staging taken next := by
  obtain ⟨-, hsame, hestimated, hle, hqueue, hbytes⟩ := h
  have hrows := hrest.rows
  rw [rowsSum_append, rowsSum_cons] at hrows
  refine ⟨hrest.accounted, hsame.trans hrest.same, ?_, ?_, ?_, ?_, fun hnil => absurd hnil hne⟩
  · intro hstaging
    have hentries := hrest.entries
    rw [hsame.schema] at hentries
    refine hentries (List.forall_mem_append.mpr ⟨hstaging, ?_⟩)
    exact List.forall_mem_singleton.mpr hestimated
  · rw [hrest.queue, ← hqueue]
    simp [queueRows]
  · have hnil : rowsSum [] = 0 := rfl
    omega
  · rcases hbytes with hfits | ⟨hempty, hallow, hone, hover⟩
    · left
      rcases hrest.bytes with hrest | ⟨hrest, -⟩
      · rw [bytesSum_append, bytesSum_cons] at hrest
        have hnil : bytesSum [] = 0 := rfl
        omega
      · simp at hrest
    · right
      refine ⟨hempty, hallow, ?_⟩
      rw [hdone hover, List.isEmpty_iff.mp hempty, List.nil_append, rowsSum_cons, hone]
      rfl

theorem takeFrom_keeps {fuel : Nat} (h : scheduler.Accounted) (hfuel : remainingRows ≤ fuel)
    (husize : remainingRows ≤ usizeMax) (remainingBytes : Nat) (allowOversizedRow : Bool)
    (staging : List PendingBatch) :
    ∃ taken next, takeFrom fuel scheduler remainingRows remainingBytes allowOversizedRow staging =
        .ok (taken, next) ∧
      Taken scheduler remainingRows remainingBytes allowOversizedRow staging taken next ∧
      (staging ≠ [] → taken ≠ []) := by
  induction fuel generalizing scheduler remainingRows remainingBytes staging with
  | zero =>
    have hzero : remainingRows = 0 := by omega
    exact ⟨staging, scheduler, if_pos hzero, .ended h (.inl hzero) _ _, id⟩
  | succ fuel ih =>
    by_cases hzero : remainingRows = 0
    · exact ⟨staging, scheduler, if_pos hzero, .ended h (.inl hzero) _ _, id⟩
    · obtain ⟨turn, hturn, hkeeps⟩ := takeOnce_keeps h (Nat.pos_of_ne_zero hzero) remainingBytes
        allowOversizedRow staging
      simp only [takeFrom, if_neg hzero, hturn, ok_bind]
      cases turn with
      | stop next => exact ⟨staging, next, rfl, .stop hkeeps, id⟩
      | took selected next =>
        have hnext := hkeeps.1
        have hle := hkeeps.2.2.2.1
        have hone : staging ++ [selected] ≠ [] := by simp
        dsimp only
        split
        · rename_i hspent
          exact ⟨_, next, rfl, .took hkeeps (.ended hnext (.inr hone) _ _) (fun _ => rfl) hone,
            fun _ => hone⟩
        · rename_i hleft
          have hpos := TurnKeeps.rows_pos hkeeps
          rw [wrappingSub_of_le hle husize]
          obtain ⟨taken, final, hfinal, htaken, hmore⟩ := @ih next
            (remainingRows - selected.batch.rows) hnext (by omega) (by omega)
            (remainingBytes - selected.estimatedBytes) (staging ++ [selected])
          exact ⟨taken, final, hfinal, .took hkeeps htaken (fun hover => by omega) (hmore hone),
            fun _ => hmore hone⟩

def ReadFits (source : BatchSource) (scheduler : IngestWindowScheduler) : Prop :=
  ∀ batch, source.next scheduler.position = some (.ok batch) →
    rowsSum scheduler.pending + batch.rows ≤ usizeMax ∧
      bytesSum scheduler.pending + (sizes scheduler.schema batch.rowsOf).sum ≤ usizeMax

theorem Compacted.sums (h : Compacted scheduler next)
    (hentries : EntriesEstimated scheduler.schema scheduler.pending) :
    rowsSum next.pending = rowsSum scheduler.pending ∧
      bytesSum next.pending = bytesSum scheduler.pending := by
  rw [rowsSum_eq, rowsSum_eq, bytesSum_eq h.entries, bytesSum_eq hentries, h.rows, h.schema]
  exact ⟨rfl, rfl⟩

theorem Compacted.accounted (h : Compacted scheduler next) (hacc : scheduler.Accounted) :
    next.Accounted := by
  obtain ⟨hrows, hbytes⟩ := h.sums hacc.entries
  obtain ⟨-, haccRows, haccBytes, hrowsLe, hbytesLe⟩ := hacc
  exact ⟨h.entries, by rw [h.pendingRows, hrows, haccRows], by rw [h.pendingBytes, hbytes, haccBytes],
    by omega, by omega⟩

theorem wrappingAdd_eq_iff {a b : Nat} : wrappingAdd a b = a + b ↔ a + b ≤ usizeMax := by
  constructor
  · intro h
    have hlt : wrappingAdd a b < 2 ^ 64 := Nat.mod_lt _ (by decide)
    have hmax : usizeMax = 2 ^ 64 - 1 := rfl
    omega
  · exact wrappingAdd_of_le

def CountersExact (scheduler : IngestWindowScheduler) : Prop :=
  scheduler.pendingRows = rowsSum scheduler.pending ∧
    scheduler.pendingBytes = bytesSum scheduler.pending

structure Accepted (scheduler : IngestWindowScheduler) (batch : RecordBatch)
    (next : IngestWindowScheduler) : Prop extends SameStream scheduler next where
  entries : EntriesEstimated next.schema next.pending
  queue : queueRows next.pending = queueRows scheduler.pending ++ batch.rowsOf
  estimate : batch.rows = 0 ∨ batch.schema = scheduler.schema ∧
    ∃ est, estimatedBatchSize scheduler.schema batch = .ok est

theorem Accepted.sums {batch : RecordBatch} (h : Accepted scheduler batch next)
    (hentries : EntriesEstimated scheduler.schema scheduler.pending) :
    rowsSum next.pending = rowsSum scheduler.pending + batch.rows ∧
      bytesSum next.pending = bytesSum scheduler.pending +
        (sizes scheduler.schema batch.rowsOf).sum := by
  rw [rowsSum_eq, rowsSum_eq, bytesSum_eq h.entries, bytesSum_eq hentries, h.queue, h.schema]
  simp [sizes]

theorem acceptBatch_exact (hconcat : source.ConcatExact) {batch : RecordBatch}
    (h : scheduler.Accounted) (haccept : acceptBatch source scheduler batch = .ok next) :
    (next.CountersExact ↔ rowsSum scheduler.pending + batch.rows ≤ usizeMax ∧
      bytesSum scheduler.pending + (sizes scheduler.schema batch.rowsOf).sum ≤ usizeMax) ∧
    Accepted scheduler batch next := by
  simp only [acceptBatch, bind_eq_ok] at haccept
  obtain ⟨-, -, haccept⟩ := haccept
  split at haccept
  · cases haccept
  · rename_i hschema
    rw [ne_eq, not_not] at hschema
    split at haccept
    · rename_i hzero
      cases haccept
      have hnil : batch.rowsOf = [] := by
        rw [← List.length_eq_zero_iff, RecordBatch.rowsOf_length, hzero]
      refine ⟨?_, .refl _, h.entries, by rw [hnil, List.append_nil], .inl hzero⟩
      simp only [hzero, hnil, sizes, List.map_nil, List.sum_nil, Nat.add_zero]
      exact ⟨fun _ => ⟨h.rows_le, h.bytes_le⟩, fun _ => ⟨h.rows, h.bytes⟩⟩
    · rename_i hpos
      obtain ⟨est, hest, hcompact⟩ := bind_eq_ok.mp haccept
      have hsum := estimatedBatchSize_ok hschema hest
      have hentries : EntriesEstimated scheduler.schema
          (scheduler.pushBack ⟨batch, est, 0⟩).pending := by
        intro entry hentry
        rcases List.mem_append.mp hentry with hentry | hentry
        · exact h.entries entry hentry
        · rw [List.mem_singleton.mp hentry]
          exact ⟨hschema, hest, Nat.pos_of_ne_zero hpos⟩
      have hcompacted := compactFrom_ok hconcat hentries hcompact
      have haccepted : Accepted scheduler batch next := by
        refine ⟨⟨hcompacted.schema, hcompacted.position, hcompacted.exhausted⟩, hcompacted.entries,
          ?_, .inr ⟨hschema, est, hest⟩⟩
        rw [hcompacted.rows]
        simp [pushBack, queueRows]
      obtain ⟨hrows, hbytes⟩ := haccepted.sums h.entries
      refine ⟨?_, haccepted⟩
      rw [CountersExact, hcompacted.pendingRows, hcompacted.pendingBytes, hrows, hbytes]
      simp only [pushBack, h.rows, h.bytes, hsum, wrappingAdd_eq_iff]

theorem readBatch_cases (h : readBatch source scheduler = .ok next) :
    (source.next scheduler.position = none ∧
      next = { scheduler with position := scheduler.position + 1, exhausted := true }) ∨
    ∃ batch, source.next scheduler.position = some (.ok batch) ∧
      acceptBatch source { scheduler with
        position := scheduler.position + 1
        inputBatches := wrappingAdd scheduler.inputBatches 1 } batch = .ok next := by
  unfold readBatch at h
  dsimp only at h
  split at h
  · rename_i hnone
    cases h
    exact .inl ⟨hnone, rfl⟩
  · cases h
  · rename_i batch hsome
    exact .inr ⟨batch, hsome, h⟩

theorem readBatch_exact_iff (hconcat : source.ConcatExact) (h : scheduler.Accounted)
    (hread : readBatch source scheduler = .ok next) :
    (next.CountersExact ↔ ReadFits source scheduler) ∧
      (ReadFits source scheduler → next.Accounted) := by
  obtain ⟨hnone, rfl⟩ | ⟨batch, hsome, haccept⟩ := readBatch_cases hread
  · have hfits : ReadFits source scheduler := by
      intro batch hbatch
      rw [hnone] at hbatch
      cases hbatch
    exact ⟨⟨fun _ => hfits, fun _ => ⟨h.rows, h.bytes⟩⟩,
      fun _ => ⟨h.entries, h.rows, h.bytes, h.rows_le, h.bytes_le⟩⟩
  · have hadvanced : ({ scheduler with
        position := scheduler.position + 1
        inputBatches := wrappingAdd scheduler.inputBatches 1 } : IngestWindowScheduler).Accounted :=
      ⟨h.entries, h.rows, h.bytes, h.rows_le, h.bytes_le⟩
    obtain ⟨hexact, haccepted⟩ := acceptBatch_exact hconcat hadvanced haccept
    obtain ⟨hrows, hbytes⟩ := haccepted.sums h.entries
    dsimp only at hexact hrows hbytes
    have hfits : ReadFits source scheduler ↔
        rowsSum scheduler.pending + batch.rows ≤ usizeMax ∧
          bytesSum scheduler.pending + (sizes scheduler.schema batch.rowsOf).sum ≤ usizeMax := by
      simp only [ReadFits, hsome, Option.some.injEq, Except.ok.injEq, forall_eq']
    rw [hfits]
    refine ⟨hexact, fun hle => ?_⟩
    obtain ⟨hexactRows, hexactBytes⟩ := hexact.mpr hle
    exact ⟨haccepted.entries, hexactRows, hexactBytes, by omega, by omega⟩

inductive Step (source : BatchSource) : IngestWindowScheduler → IngestWindowScheduler → Prop
  | read {scheduler next : _} (hfits : ReadFits source scheduler)
      (h : readBatch source scheduler = .ok next) : Step source scheduler next
  | compact {scheduler next : _} (h : compactPendingBatches source scheduler = .ok next) :
      Step source scheduler next
  | take {scheduler next : _} {targetRows targetBytes : _} {allowOversizedRow : _} {staging : _}
      (husize : targetRows ≤ usizeMax)
      (h : takeStaging scheduler targetRows targetBytes allowOversizedRow = .ok (staging, next)) :
      Step source scheduler next
  | pop {scheduler next : _} {front : _} (h : scheduler.popFront = some (front, next)) :
      Step source scheduler next
  | putBack {scheduler popped : _} {front : _} (h : scheduler.popFront = some (front, popped)) :
      Step source scheduler (popped.pushFront front)
  | split {scheduler popped next : _} {front selected : _} {rows : _}
      (h : scheduler.popFront = some (front, popped)) (hpos : 0 < rows)
      (hle : rows ≤ front.batch.rows) (hselect : popped.selectRows front rows = .ok (selected, next)) :
      Step source scheduler next

theorem Step.accounted (hconcat : source.ConcatExact) (h : scheduler.Accounted)
    (hstep : Step source scheduler next) : next.Accounted := by
  cases hstep with
  | read hfits hread => exact (readBatch_exact_iff hconcat h hread).2 hfits
  | compact hcompact => exact (compactFrom_ok hconcat h.entries hcompact).accounted h
  | take husize htake =>
    obtain ⟨taken, final, hfinal, htaken, -⟩ := takeFrom_keeps h le_rfl husize _ _ _
    rw [takeStaging, hfinal] at htake
    cases htake
    exact htaken.accounted
  | pop hpop => exact (h.popFront hpop).1
  | putBack hpop => exact (putBack_keeps h hpop).1
  | split hpop hpos hle hselect =>
    obtain ⟨selected, final, hfinal, hacc, -⟩ := selectRows_keeps h hpop hpos hle
    rw [hfinal] at hselect
    cases hselect
    exact hacc

def Reachable (source : BatchSource) (schema : List Field) (scheduler : IngestWindowScheduler) :
    Prop :=
  Relation.ReflTransGen (Step source) (new schema) scheduler

theorem Reachable.accounted (hconcat : source.ConcatExact) {schema : List Field}
    (h : Reachable source schema scheduler) : scheduler.Accounted := by
  induction h with
  | refl => exact new_accounted schema
  | tail _ hstep ih => exact hstep.accounted hconcat ih

theorem rowsWithinBudget_estimates (h : entry.Estimated scheduler.schema) (budget : Nat) :
    ∃ rows, scheduler.rowsWithinBudget entry.batch budget = .ok rows ∧ rows ≤ entry.batch.rows ∧
      (∃ est, estimatedBatchSize scheduler.schema (entry.batch.slice 0 rows) = .ok est ∧
        est ≤ budget) ∧
      ∀ n ≤ entry.batch.rows, ∀ est,
        estimatedBatchSize scheduler.schema (entry.batch.slice 0 n) = .ok est → est ≤ budget →
        n ≤ rows := by
  obtain ⟨rows, hrows, hle, hfits, hlargest⟩ := rowsWithinBudget_largest h budget
  refine ⟨rows, hrows, hle, ⟨_, h.slice_estimate 0 rows, hfits⟩, fun n hn est hest hbudget => ?_⟩
  rw [h.slice_estimate 0 n] at hest
  cases hest
  exact hlargest n hn hbudget

theorem compactPendingBatches_ends (hconcat : source.ConcatExact) (h : scheduler.Accounted) :
    (∃ next, compactPendingBatches source scheduler = .ok next ∧
      queueRows next.pending = queueRows scheduler.pending) ∨
    ∃ parts error, source.concatBatches scheduler.schema parts = .error error ∧
      compactPendingBatches source scheduler = .error error := by
  cases hcompact : compactPendingBatches source scheduler with
  | ok next => exact .inl ⟨next, rfl, (compactFrom_ok hconcat h.entries hcompact).rows⟩
  | error error =>
    obtain ⟨parts, hparts⟩ :=
      compactFrom_error hconcat h.entries h.bytes_le (Nat.lt_succ_self _) hcompact
    exact .inr ⟨parts, error, hparts, rfl⟩

end IngestWindowScheduler

open IngestWindowScheduler

theorem pending_accounting_exact (hconcat : source.ConcatExact) {schema : List Field}
    {scheduler : IngestWindowScheduler} (hreach : Reachable source schema scheduler) :
    scheduler.CountersExact ∧
    (∀ entry ∈ scheduler.pending,
      estimatedBatchSize scheduler.schema entry.batch = .ok entry.estimatedBytes) ∧
    (∀ front popped, scheduler.popFront = some (front, popped) →
      front.batch.rows ≤ scheduler.pendingRows ∧
        front.estimatedBytes ≤ scheduler.pendingBytes ∧
        ∀ rows, 0 < rows → rows < front.batch.rows →
          ∃ taken remainder, popped.splitPending front rows = .ok (taken, remainder) ∧
            taken.estimatedBytes + remainder.estimatedBytes = front.estimatedBytes) ∧
    (∀ entry ∈ scheduler.pending, ∀ budget, ∃ rows,
      scheduler.rowsWithinBudget entry.batch budget = .ok rows ∧ rows ≤ entry.batch.rows ∧
      (∃ est, estimatedBatchSize scheduler.schema (entry.batch.slice 0 rows) = .ok est ∧
        est ≤ budget) ∧
      ∀ n ≤ entry.batch.rows, ∀ est,
        estimatedBatchSize scheduler.schema (entry.batch.slice 0 n) = .ok est → est ≤ budget →
        n ≤ rows) ∧
    ((∃ next, compactPendingBatches source scheduler = .ok next ∧
      queueRows next.pending = queueRows scheduler.pending) ∨
      ∃ parts error, source.concatBatches scheduler.schema parts = .error error ∧
        compactPendingBatches source scheduler = .error error) ∧
    ∀ next, readBatch source scheduler = .ok next →
      (next.CountersExact ↔ ReadFits source scheduler) := by
  have hacc := hreach.accounted hconcat
  refine ⟨⟨hacc.rows, hacc.bytes⟩, fun entry hentry => (hacc.entries entry hentry).estimate, ?_,
    fun entry hentry budget => rowsWithinBudget_estimates (hacc.entries entry hentry) budget,
    compactPendingBatches_ends hconcat hacc,
    fun next hread => (readBatch_exact_iff hconcat hacc hread).1⟩
  intro front popped hpop
  obtain ⟨-, hsame, hfront, -, hrows, hbytes⟩ := hacc.popFront hpop
  refine ⟨hrows, hbytes, fun rows hpos hlt => ?_⟩
  rw [← hsame.schema] at hfront
  obtain ⟨taken, remainder, hsplit, -, -, -, -, hsum, -⟩ := splitPending_ok hfront hpos hlt
  exact ⟨taken, remainder, hsplit, hsum⟩

end Accounting

section NullColumns
open IngestWindowScheduler

def nullSchema : List Field := [⟨"n", .null, true, none⟩]

def nullBatch (rows : Nat) : RecordBatch where
  schema := nullSchema
  columns := [.null rows]
  rows := rows
  aligned := .cons ⟨rfl, rfl⟩ .nil
  resident := List.forall_mem_singleton.mpr trivial

def nullConcat (schema : List Field) (parts : List RecordBatch) : Except IngestError RecordBatch :=
  if schema = nullSchema ∧ parts.all (·.schema == nullSchema) then
    .ok (nullBatch (parts.map RecordBatch.rows).sum)
  else .error (.arrow "batches of another schema")

theorem nullBatch_rowsOf (rows : Nat) : (nullBatch rows).rowsOf = List.replicate rows [none] := by
  simp [RecordBatch.rowsOf, nullBatch, Table.transpose, Column.cells]

theorem rowsOf_of_nullSchema {batch : RecordBatch} (h : batch.schema = nullSchema) :
    batch.rowsOf = List.replicate batch.rows [none] := by
  obtain ⟨schema, columns, rows, aligned, resident⟩ := batch
  obtain rfl : schema = nullSchema := h
  cases aligned with
  | @cons _ column _ _ hcolumn hrest =>
    cases hrest
    obtain ⟨htype, hlen⟩ := hcolumn
    cases column <;> cases htype
    obtain rfl := hlen
    exact nullBatch_rowsOf _

def nullSource (sizes : List Nat) : BatchSource where
  next position := (sizes[position]?).map fun rows => .ok (nullBatch rows)
  validateRecordBatch _ := .ok ()
  concatBatches := nullConcat

theorem nullConcat_ok {schema : List Field} {parts : List RecordBatch} {batch : RecordBatch}
    (h : nullConcat schema parts = .ok batch) :
    schema = nullSchema ∧ (∀ part ∈ parts, part.schema = nullSchema) ∧
      batch = nullBatch (parts.map RecordBatch.rows).sum := by
  unfold nullConcat at h
  split at h
  · rename_i hschemas
    cases h
    exact ⟨hschemas.1, by simpa using hschemas.2, rfl⟩
  · cases h

theorem nullSource_concat (sizes : List Nat) : (nullSource sizes).ConcatExact where
  schema_eq := by
    intro schema parts batch h
    obtain ⟨rfl, -, rfl⟩ := nullConcat_ok h
    rfl
  rows_eq := by
    intro schema parts batch h
    obtain ⟨-, hparts, rfl⟩ := nullConcat_ok h
    rw [nullBatch_rowsOf]
    clear h
    induction parts with
    | nil => rfl
    | cons part parts ih =>
      obtain ⟨hpart, hrest⟩ := List.forall_mem_cons.mp hparts
      rw [List.map_cons, List.sum_cons, List.replicate_add, ih hrest, List.flatMap_cons,
        rowsOf_of_nullSchema hpart]
  keys := by
    intro schema parts batch h
    obtain ⟨-, -, rfl⟩ := nullConcat_ok h
    intro column hcolumn
    obtain rfl := List.mem_singleton.mp hcolumn
    trivial

-- Two rows are queued when a batch of the longest length an Arrow stream can carry arrives.
theorem long_null_batch_wraps :
    ∃ first second,
      readBatch (nullSource [2, 2 ^ 63 - 1]) (IngestWindowScheduler.new nullSchema) = .ok first ∧
      readBatch (nullSource [2, 2 ^ 63 - 1]) first = .ok second ∧
      second.pendingBytes = 2 ∧ bytesSum second.pending = 2 ^ 64 + 2 := by
  refine ⟨_, _, rfl, rfl, ?_, ?_⟩
  · rfl
  · rfl

theorem short_null_batches_counted :
    ∃ first, readBatch (nullSource [2, 3]) (IngestWindowScheduler.new nullSchema) = .ok first ∧
      first.pendingBytes = 4 ∧ first.CountersExact := by
  refine ⟨_, rfl, rfl, ?_⟩
  have hfits : ReadFits (nullSource [2, 3]) (IngestWindowScheduler.new nullSchema) := by
    intro batch hbatch
    cases hbatch
    rw [nullBatch_rowsOf]
    decide
  exact (pending_accounting_exact (nullSource_concat [2, 3])
    (Relation.ReflTransGen.single (Step.read hfits rfl))).1

end NullColumns

end MonetdbAdbc.Driver
