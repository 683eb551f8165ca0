import MonetdbAdbc.Driver.IngestWindows
import MonetdbAdbc.Driver.ColumnStorage

namespace MonetdbAdbc.Driver
open Machine IngestWindowScheduler

section Built
variable {encoding : WindowEncoding} {budgets : IngestBudgets} {schema : List Field}
  {start window : EncodedIngestWindow} {groups : List (List PendingBatch)}

structure IngestBudgets.Positive (budgets : IngestBudgets) : Prop where
  window : 0 < budgets.windowBudget
  physicalWindow : 0 < budgets.physicalWindowBudget
  incompressibleWindow : 0 < budgets.incompressibleWindowBudget
  configured : ∀ rows, budgets.configuredRows = some rows → 0 < rows ∧ rows ≤ usizeMax

structure EncodedIngestWindow.Fresh (window : EncodedIngestWindow) : Prop where
  rows : window.rows = 0
  estimatedBytes : window.estimatedBytes = 0
  incompressible : window.incompressible = false

theorem forSchema_fresh {wireCompression : WireCompression}
    (h : EncodedIngestWindow.forSchema schema wireCompression = .ok start) : start.Fresh := by
  obtain ⟨columns, -, rfl⟩ := map_eq_ok.mp h
  exact ⟨rfl, rfl, rfl⟩

@[simp] theorem groupRows_snoc (groups : List (List PendingBatch)) (pending : List PendingBatch) :
    groupRows (groups ++ [pending]) = groupRows groups ++ queueRows pending := by
  simp [groupRows]

theorem Built.counts (hstart : start.Fresh)
    (h : Built encoding budgets schema start groups window) :
    window.rows = (groupRows groups).length ∧
      window.estimatedBytes = (sizes schema (groupRows groups)).sum := by
  induction h with
  | start => exact ⟨hstart.rows, hstart.estimatedBytes⟩
  | snoc _ hstored ih =>
    obtain ⟨hrows, hbytes⟩ := hstored.counts
    rw [hrows, hbytes, ih.1, ih.2, rowsSum_eq, bytesSum_eq hstored.entries, groupRows_snoc]
    simp [sizes]

theorem Built.rows_eq_zero (h : Built encoding budgets schema start groups window)
    (hzero : window.rows = 0) : groups = [] ∧ window = start := by
  cases h with
  | start => exact ⟨rfl, rfl⟩
  | snoc _ hstored =>
    have hrows := hstored.counts.1
    have hpos := rowsSum_pos hstored.entries hstored.nonempty
    omega

theorem stagingBytes_le_remaining (budgets : IngestBudgets) (window : EncodedIngestWindow) :
    stagingBytes budgets window ≤ remainingBytes budgets window := by
  have hstaging : remainingStagingBytes budgets (remainingBytes budgets window) window ≤
      remainingBytes budgets window := by
    unfold remainingStagingBytes
    split
    · exact Nat.min_le_right _ _
    · exact le_rfl
  exact (Nat.min_le_left _ _).trans hstaging

-- A group beyond the budget is one row, and only a window without rows takes it.
theorem Built.within_budget (hne : schema ≠ []) (hauto : budgets.configuredRows = none)
    (hstart : start.Fresh) (h : Built encoding budgets schema start groups window) :
    window.estimatedBytes ≤ budgets.windowBudget ∨ window.rows = 1 := by
  induction h with
  | start =>
    left
    rw [hstart.estimatedBytes]
    exact Nat.zero_le _
  | @snoc groups pending window next _ hstored ih =>
    obtain ⟨hrows, hbytes⟩ := hstored.counts
    rcases hstored.bytes with hfits | ⟨hzero, hone⟩
    · left
      have hle := hfits.trans (stagingBytes_le_remaining budgets window)
      simp only [remainingBytes, hauto, Option.isSome_none, Bool.false_eq_true, if_false] at hle
      have hpos := rowsSum_pos hstored.entries hstored.nonempty
      have hrowsLe := rowsSum_le_bytesSum hne hstored.entries
      omega
    · right
      omega

theorem Built.rows_le {rows : Nat} (hconfigured : budgets.configuredRows = some rows)
    (hmax : rows ≤ usizeMax) (hstart : start.Fresh)
    (h : Built encoding budgets schema start groups window) : window.rows ≤ rows := by
  induction h with
  | start =>
    rw [hstart.rows]
    exact Nat.zero_le _
  | snoc _ hstored ih =>
    have hle := hstored.rows
    rw [remainingRows, hconfigured] at hle
    dsimp only at hle
    rw [wrappingSub_of_le ih hmax] at hle
    have hrows := hstored.counts.1
    omega

theorem rowSize_le_of_bytesSum {pending : List PendingBatch} {limit : Nat}
    (h : EntriesEstimated schema pending) (hle : bytesSum pending ≤ limit) :
    ∀ row ∈ queueRows pending, rowSize schema row ≤ limit := by
  intro row hrow
  rw [bytesSum_eq h] at hle
  exact (List.single_le_sum (fun _ _ => Nat.zero_le _) _ (List.mem_map_of_mem hrow)).trans hle

theorem Built.tail_fits (hstart : start.Fresh)
    (h : Built encoding budgets schema start groups window) :
    ∀ row ∈ (groupRows groups).tail, rowSize schema row ≤ encodeStagingBytes := by
  induction h with
  | start =>
    intro row hrow
    cases hrow
  | @snoc groups pending window next hbuilt hstored ih =>
    rw [groupRows_snoc]
    rcases hstored.bytes with hfits | ⟨hzero, hone⟩
    · intro row hrow
      have hsmall := rowSize_le_of_bytesSum hstored.entries (hfits.trans (Nat.min_le_right _ _))
      rcases List.eq_nil_or_concat (groupRows groups) with hnil | ⟨_, _, hsome⟩
      · rw [hnil, List.nil_append] at hrow
        exact hsmall row (List.mem_of_mem_tail hrow)
      · rw [List.tail_append_of_ne_nil (by simp [hsome])] at hrow
        rcases List.mem_append.mp hrow with hrow | hrow
        · exact ih row hrow
        · exact hsmall row hrow
    · have hnil : groupRows groups = [] := by
        rw [← List.length_eq_zero_iff, ← (hbuilt.counts hstart).1, hzero]
      rw [rowsSum_eq] at hone
      obtain ⟨row, hrow⟩ := List.length_eq_one_iff.mp hone
      rw [hnil, hrow]
      rintro _ ⟨⟩

theorem WindowEnds.drained_of_fresh {scheduler : IngestWindowScheduler}
    (hpositive : budgets.Positive) (hstart : start.Fresh)
    (h : WindowEnds encoding budgets start scheduler) :
    scheduler.pending = [] ∧ scheduler.exhausted = true := by
  cases h with
  | spent hspent =>
    exfalso
    have hrows : remainingRows budgets start ≠ 0 := by
      rw [remainingRows, hstart.rows]
      cases hconfigured : budgets.configuredRows with
      | none => decide
      | some rows =>
        obtain ⟨hpos, hmax⟩ := hpositive.configured rows hconfigured
        dsimp only
        rw [wrappingSub_of_le (Nat.zero_le _) hmax]
        omega
    have hbytes : remainingBytes budgets start ≠ 0 := by
      rw [remainingBytes, hstart.estimatedBytes]
      split
      · decide
      · have hwindow := hpositive.window
        omega
    have hstaging : remainingStagingBytes budgets (remainingBytes budgets start) start ≠ 0 := by
      rw [remainingStagingBytes, hstart.incompressible, Bool.and_false]
      exact hbytes
    simp [hrows, hbytes, hstaging] at hspent
  | drained hpending hexhausted => exact ⟨hpending, hexhausted⟩
  | refused hrows | closed hrows => exact absurd hstart.rows hrows

end Built

section Run
variable {encoding : WindowEncoding} {budgets : IngestBudgets} {source : BatchSource}
  {schema : List Field} {consumed : List Row} {scheduler : IngestWindowScheduler}

inductive WindowRun (encoding : WindowEncoding) (budgets : IngestBudgets) (source : BatchSource)
    (schema : List Field) : List EncodedIngestWindow → IngestWindowScheduler → Prop where
  | start : WindowRun encoding budgets source schema [] (new schema)
  | next {windows scheduler turns window next}
      (hrun : WindowRun encoding budgets source schema windows scheduler)
      (h : nextWindow encoding budgets source turns scheduler = some (.ok (some window, next))) :
      WindowRun encoding budgets source schema (windows ++ [window]) next

-- What a next_window call that returns a window has taken from the stream.
structure Produced (encoding : WindowEncoding) (budgets : IngestBudgets) (schema : List Field)
    (groups : List (List PendingBatch)) (start built window : EncodedIngestWindow) : Prop where
  forSchema : EncodedIngestWindow.forSchema schema budgets.wireCompression = .ok start
  groups : Built encoding budgets schema start groups built
  rows : built.rows ≠ 0
  finish : built.finish encoding = .ok window

theorem Produced.counts {groups : List (List PendingBatch)} {start built window : EncodedIngestWindow}
    (h : Produced encoding budgets schema groups start built window) :
    window.rows = built.rows ∧ window.estimatedBytes = built.estimatedBytes ∧
      window.rows = (groupRows groups).length ∧ 0 < window.rows := by
  obtain ⟨hrows, hbytes⟩ := EncodedIngestWindow.finish_counts h.finish
  have hcounts := h.groups.counts (forSchema_fresh h.forSchema)
  have hpos := h.rows
  exact ⟨hrows, hbytes, hrows.trans hcounts.1, by omega⟩

theorem nextWindow_some (hconcat : source.ConcatExact) (hne : schema ≠ [])
    (hmoderate : source.Moderate schema) {turns : Nat} {next : IngestWindowScheduler}
    {window : EncodedIngestWindow} (h : Follows source schema consumed scheduler)
    (hnext : nextWindow encoding budgets source turns scheduler = some (.ok (some window, next))) :
    ∃ groups start built, Produced encoding budgets schema groups start built window ∧
      Follows source schema (consumed ++ groupRows groups) next ∧
      WindowEnds encoding budgets built next := by
  obtain ⟨start, groups, built, hstart, hbuilt, hfollows, hends, hclose⟩ :=
    nextWindow_built hconcat hne hmoderate h hnext
  unfold closeWindow at hclose
  split at hclose
  · cases hclose
  · rename_i hrows
    obtain ⟨finished, hfinish, heq⟩ := map_eq_ok.mp hclose
    cases heq
    exact ⟨groups, start, built, ⟨hstart, hbuilt, hrows, hfinish⟩, hfollows, hends⟩

theorem nextWindow_none (hconcat : source.ConcatExact) (hne : schema ≠ [])
    (hmoderate : source.Moderate schema) (hpositive : budgets.Positive) {turns : Nat}
    {next : IngestWindowScheduler} (h : Follows source schema consumed scheduler)
    (hnext : nextWindow encoding budgets source turns scheduler = some (.ok (none, next))) :
    Follows source schema consumed next ∧ next.pending = [] ∧ next.exhausted = true := by
  obtain ⟨start, groups, built, hstart, hbuilt, hfollows, hends, hclose⟩ :=
    nextWindow_built hconcat hne hmoderate h hnext
  unfold closeWindow at hclose
  split at hclose
  · rename_i hzero
    obtain ⟨rfl, rfl⟩ := hbuilt.rows_eq_zero hzero
    refine ⟨?_, hends.drained_of_fresh hpositive (forSchema_fresh hstart)⟩
    simpa [groupRows] using hfollows
  · obtain ⟨finished, -, heq⟩ := map_eq_ok.mp hclose
    cases heq

theorem WindowRun.follows (hconcat : source.ConcatExact) (hne : schema ≠ [])
    (hmoderate : source.Moderate schema) {windows : List EncodedIngestWindow}
    (h : WindowRun encoding budgets source schema windows scheduler) :
    ∃ parts, List.Forall₂ (fun groups window => ∃ start built,
        Produced encoding budgets schema groups start built window) parts windows ∧
      Follows source schema (parts.flatMap groupRows) scheduler := by
  induction h with
  | start => exact ⟨[], .nil, new_follows source schema⟩
  | next _ hnext ih =>
    obtain ⟨parts, hparts, hfollows⟩ := ih
    obtain ⟨groups, start, built, hproduced, hmore, -⟩ :=
      nextWindow_some hconcat hne hmoderate hfollows hnext
    refine ⟨parts ++ [groups], List.rel_append hparts (.cons ⟨start, built, hproduced⟩ .nil), ?_⟩
    simpa using hmore

end Run

section Ends
variable {encoding : WindowEncoding} {budgets : IngestBudgets} {source : BatchSource}
  {schema : List Field} {consumed : List Row} {last : Nat} {scheduler : IngestWindowScheduler}

theorem BatchSource.streamRows_mono (source : BatchSource) {a b : Nat} (h : a ≤ b) :
    source.streamRows a <+: source.streamRows b := by
  induction h with
  | refl => exact List.prefix_rfl
  | step _ ih =>
    rw [source.streamRows_succ]
    exact ih.trans (List.prefix_append _ _)

theorem BatchSource.EndsAt.unique {other : Nat} (h : source.EndsAt last)
    (h' : source.EndsAt other) : last = other := by
  rcases Nat.lt_trichotomy last other with hlt | heq | hlt
  · exact absurd h.1 (h'.2 last hlt)
  · exact heq
  · exact absurd h'.1 (h.2 other hlt)

theorem IngestWindowScheduler.Follows.position_le (hend : source.EndsAt last)
    (h : Follows source schema consumed scheduler) :
    scheduler.position ≤ last + 1 ∧ (scheduler.exhausted = false → scheduler.position ≤ last) := by
  cases hexhausted : scheduler.exhausted with
  | true =>
    obtain ⟨other, hposition, hother⟩ := h.ended hexhausted
    rw [hposition, hother.unique hend]
    exact ⟨le_rfl, fun hfalse => by cases hfalse⟩
  | false =>
    have hle : scheduler.position ≤ last := by
      by_contra hlt
      exact h.unread hexhausted last (by omega) hend.1
    exact ⟨by omega, fun _ => hle⟩

theorem IngestWindowScheduler.Follows.consumed_le (hend : source.EndsAt last)
    (h : Follows source schema consumed scheduler) :
    consumed.length ≤ (source.streamRows (last + 1)).length := by
  have hrows := congrArg List.length h.rows
  have hmono := (source.streamRows_mono (h.position_le hend).1).length_le
  rw [List.length_append] at hrows
  omega

theorem fillStaging_ends (hconcat : source.ConcatExact) (hne : schema ≠ [])
    (hmoderate : source.Moderate schema) {desiredRows desiredBytes turns : Nat}
    (hend : source.EndsAt last) (hdesired : desiredBytes ≤ encodeStagingBytes)
    (h : Follows source schema consumed scheduler)
    (hturns : last + 1 ≤ scheduler.position + turns) :
    fillStaging source desiredRows desiredBytes turns scheduler ≠ none := by
  have hposition := (h.position_le hend).2
  induction turns generalizing scheduler with
  | zero =>
    unfold fillStaging
    split
    · rename_i hgo
      have hle := hposition hgo.2.2
      omega
    · simp
  | succ turns ih =>
    unfold fillStaging
    split
    · rename_i hgo
      cases hread : readBatch source scheduler with
      | error error => simp
      | ok next =>
        obtain ⟨hnext, hmoved⟩ :=
          readBatch_follows hconcat hne hmoderate h hgo.2.2 (by omega) hread
        exact ih hnext (by omega) (hnext.position_le hend).2
    · simp

theorem windowTurn_ends (hconcat : source.ConcatExact) (hne : schema ≠ [])
    (hmoderate : source.Moderate schema) {turns : Nat} (hend : source.EndsAt last)
    (window : EncodedIngestWindow) (h : Follows source schema consumed scheduler)
    (hturns : last + 1 ≤ turns) :
    windowTurn encoding budgets source turns window scheduler ≠ none := by
  unfold windowTurn
  split
  · simp
  · rw [Ne, Option.map_eq_none_iff]
    exact fillStaging_ends hconcat hne hmoderate hend (Nat.min_le_right _ _) h (by omega)

-- Each turn that goes on takes a row, so the rows no window holds yet bound the turns.
theorem nextWindowFrom_returns (hconcat : source.ConcatExact) (hne : schema ≠ [])
    (hmoderate : source.Moderate schema) {turns : Nat} (hend : source.EndsAt last)
    {window : EncodedIngestWindow} (h : Follows source schema consumed scheduler)
    (hturns : (source.streamRows (last + 1)).length - consumed.length + last + 2 ≤ turns) :
    nextWindowFrom encoding budgets source turns window scheduler ≠ none := by
  induction turns generalizing consumed window scheduler with
  | zero => omega
  | succ turns ih =>
    rw [nextWindowFrom]
    have hturn := @windowTurn_ends encoding budgets _ _ _ _ _ hconcat hne hmoderate turns hend window h
      (by omega)
    split
    · contradiction
    · simp
    · simp
    · rename_i next middle hgoes
      obtain ⟨pending, hturned, hfollows⟩ := windowTurn_turned hconcat hne hmoderate h hgoes
      cases hturned with
      | goes hstored =>
        refine ih hfollows ?_
        have hpos := rowsSum_pos hstored.entries hstored.nonempty
        have hle := hfollows.consumed_le hend
        rw [rowsSum_eq] at hpos
        rw [List.length_append] at hle ⊢
        omega

theorem nextWindow_returns (hconcat : source.ConcatExact) (hne : schema ≠ [])
    (hmoderate : source.Moderate schema) (hend : source.EndsAt last)
    (h : Follows source schema consumed scheduler) :
    ∃ turns, nextWindow encoding budgets source turns scheduler ≠ none := by
  refine ⟨(source.streamRows (last + 1)).length - consumed.length + last + 2, ?_⟩
  unfold nextWindow
  split
  · simp
  · exact nextWindowFrom_returns hconcat hne hmoderate hend h le_rfl

end Ends

theorem automatic_windows_within_budget {encoding : WindowEncoding} {budgets : IngestBudgets}
    {source : BatchSource} {schema : List Field} (hconcat : source.ConcatExact) (hne : schema ≠ [])
    (hpositive : budgets.Positive) (hauto : budgets.configuredRows = none)
    (hmoderate : source.Moderate schema) {windows : List EncodedIngestWindow}
    {scheduler : IngestWindowScheduler}
    (hrun : WindowRun encoding budgets source schema windows scheduler) :
    (∀ window ∈ windows, 0 < window.rows ∧
      (window.estimatedBytes ≤ budgets.windowBudget ∨ window.rows = 1)) ∧
    (∀ turns next, nextWindow encoding budgets source turns scheduler = some (.ok (none, next)) →
      next.exhausted = true ∧ next.pending = []) ∧
    ∀ last, source.EndsAt last →
      ∃ turns, nextWindow encoding budgets source turns scheduler ≠ none := by
  obtain ⟨parts, hparts, hfollows⟩ := hrun.follows hconcat hne hmoderate
  refine ⟨fun window hwindow => ?_, fun turns next hnext => ?_, fun last hend =>
    nextWindow_returns hconcat hne hmoderate hend hfollows⟩
  · obtain ⟨i, hi, rfl⟩ := List.getElem_of_mem hwindow
    obtain ⟨hlength, hproduced⟩ := List.forall₂_iff_get.mp hparts
    obtain ⟨start, built, hproduced⟩ := hproduced i (by omega) hi
    obtain ⟨hrows, hbytes, -, hpos⟩ := hproduced.counts
    refine ⟨hpos, ?_⟩
    have hbudget := hproduced.groups.within_budget hne hauto (forSchema_fresh hproduced.forSchema)
    rwa [← hbytes, ← hrows] at hbudget
  · obtain ⟨-, hpending, hexhausted⟩ := nextWindow_none hconcat hne hmoderate hpositive hfollows hnext
    exact ⟨hexhausted, hpending⟩

def storedEncoding : WindowEncoding := ⟨fun _ => none, storedLz4, fun _ => 0⟩

def smallBudgets (configuredRows : Option Nat) : IngestBudgets :=
  ⟨2 ^ 28, 2 ^ 28, 2 ^ 26, configuredRows, .none⟩

def outcomeRows (outcome : Option (Except IngestError
    (Option EncodedIngestWindow × IngestWindowScheduler))) : Option (Option Nat × Nat) :=
  outcome.bind fun result => result.toOption.map fun (window, scheduler) =>
    (window.map EncodedIngestWindow.rows, rowsSum scheduler.pending)

theorem outcomeRows_eq_some {outcome : Option (Except IngestError
    (Option EncodedIngestWindow × IngestWindowScheduler))} {rows : Option Nat} {left : Nat}
    (h : outcomeRows outcome = some (rows, left)) :
    ∃ window scheduler, outcome = some (.ok (window, scheduler)) ∧
      window.map EncodedIngestWindow.rows = rows ∧ rowsSum scheduler.pending = left := by
  obtain ⟨result, rfl, hresult⟩ := Option.bind_eq_some_iff.mp h
  cases result with
  | error error => cases hresult
  | ok result =>
    obtain ⟨window, scheduler⟩ := result
    cases hresult
    exact ⟨window, scheduler, rfl, rfl, rfl⟩

-- The queue of 2 ^ 64 rows counts as empty.
theorem long_null_batches_lost :
    ∃ next, nextWindow storedEncoding (smallBudgets none) (nullSource [2, 2 ^ 63 - 1, 2 ^ 63 - 1]) 6
        (IngestWindowScheduler.new nullSchema) = some (.ok (none, next)) ∧
      rowsSum next.pending = 2 ^ 64 := by
  have heval : outcomeRows (nextWindow storedEncoding (smallBudgets none)
      (nullSource [2, 2 ^ 63 - 1, 2 ^ 63 - 1]) 6 (IngestWindowScheduler.new nullSchema)) =
      some (none, 2 ^ 64) := by decide +kernel
  obtain ⟨window, next, hnext, hwindow, hrows⟩ := outcomeRows_eq_some heval
  rw [Option.map_eq_none_iff] at hwindow
  subst hwindow
  exact ⟨next, hnext, hrows⟩

theorem nullSource_moderate {sizes : List Nat} (h : ∀ rows ∈ sizes, rows ≤ 2 ^ 32) :
    (nullSource sizes).Moderate nullSchema := by
  intro position batch est hnext _ hest
  obtain ⟨rows, hsome, hbatch⟩ := Option.map_eq_some_iff.mp hnext
  cases hbatch
  have hle := h rows (List.mem_of_getElem? hsome)
  have hsize : rowSize nullSchema [none] = 2 := by decide
  have hsum : est = (Driver.sizes nullSchema (nullBatch rows).rowsOf).sum :=
    estimatedBatchSize_ok rfl hest
  rw [nullBatch_rowsOf] at hsum
  simp only [Driver.sizes, List.map_replicate, hsize, List.sum_replicate, smul_eq_mul] at hsum
  have hstaging : encodeStagingBytes = 2 ^ 24 := by decide
  have hmax : usizeMax = 2 ^ 64 - 1 := rfl
  omega

theorem smallBudgets_positive {configuredRows : Option Nat}
    (h : ∀ rows, configuredRows = some rows → 0 < rows ∧ rows ≤ usizeMax) :
    (smallBudgets configuredRows).Positive :=
  ⟨Nat.two_pow_pos 28, Nat.two_pow_pos 28, Nat.two_pow_pos 26, h⟩

theorem short_null_batches_windowed :
    ∃ window next, nextWindow storedEncoding (smallBudgets none) (nullSource [2, 3]) 6
        (IngestWindowScheduler.new nullSchema) = some (.ok (some window, next)) ∧
      window.rows = 5 ∧ window.estimatedBytes ≤ (smallBudgets none).windowBudget := by
  have heval : outcomeRows (nextWindow storedEncoding (smallBudgets none) (nullSource [2, 3]) 6
      (IngestWindowScheduler.new nullSchema)) = some (some 5, 0) := by decide +kernel
  obtain ⟨_, next, hnext, hwindow, -⟩ := outcomeRows_eq_some heval
  obtain ⟨window, rfl, hrows⟩ := Option.map_eq_some_iff.mp hwindow
  have hsizes : ∀ rows ∈ [2, 3], rows ≤ 2 ^ 32 := by decide
  have hpositive : (smallBudgets none).Positive := smallBudgets_positive (by rintro _ ⟨⟩)
  obtain ⟨hwindows, -⟩ := automatic_windows_within_budget (nullSource_concat [2, 3])
    (List.cons_ne_nil _ _) hpositive rfl (nullSource_moderate hsizes) (.next .start hnext)
  obtain ⟨-, hbudget | hone⟩ := hwindows window (by simp)
  · exact ⟨window, next, hnext, hrows, hbudget⟩
  · omega

end MonetdbAdbc.Driver
