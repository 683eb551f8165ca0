import MonetdbAdbc.Read.FrameFormat
import MonetdbAdbc.Read.Prefetch
import MonetdbAdbc.Read.WindowRuns

namespace MonetdbAdbc
open LittleEndian Machine Windows Transition

abbrev Server := Nat → Nat → Fetched

structure Request where
  offset : Nat
  count : Nat
  observed : Nat
  deriving DecidableEq, Repr

def Request.range (request : Request) : Nat × Nat := (request.offset, request.count)

def Fetch.range (fetch : Fetch) : Nat × Nat := (fetch.startRow, fetch.requestedRows)

def Fetched.length : Fetched → Nat
  | .reply response _ => response.length
  | _ => 0

section Traces
variable (plan : ReadPlan) (server : Server)

def BinaryReader.serve (reader : BinaryReader) : Fetch :=
  reader.fetch plan
    (server reader.nextRow (reader.scheduler.requestedRows (plan.totalRows - reader.nextRow)))

def readerTrace : Nat → BinaryReader → List Request
  | 0, _ => []
  | steps + 1, reader =>
    if reader.finished ∨ reader.nextRow ≥ plan.totalRows then []
    else
      let fetch := reader.serve plan server
      ⟨fetch.startRow, fetch.requestedRows, reader.scheduler.observedRows⟩ ::
        readerTrace steps (reader.advance plan fetch)

def FetchWorker.loop : FetchWorker → Option (Nat × ReadWindowScheduler)
  | .fetching nextRow scheduler => some (nextRow, scheduler)
  | .sending _ next => next
  | .stopped => none

def serveWorker (nextRow : Nat) (scheduler : ReadWindowScheduler) : Fetch × FetchWorker :=
  fetchBinaryFrame plan nextRow scheduler
    (server nextRow (scheduler.requestedRows (plan.totalRows - nextRow)))

def workerTrace : Nat → FetchWorker → List Request
  | 0, _ => []
  | steps + 1, worker =>
    match worker.loop with
    | none => []
    | some (nextRow, scheduler) =>
      if nextRow < plan.totalRows then
        let (fetch, worker) := serveWorker plan server nextRow scheduler
        ⟨fetch.startRow, fetch.requestedRows, scheduler.observedRows⟩ ::
          workerTrace steps worker
      else []

def Answers : Prop :=
  ∀ offset count, 0 < count → offset + count ≤ plan.totalRows →
    ∃ batch, plan.window ⟨offset, count, server offset count⟩ = .ok batch

def answeredRows (offset count : Nat) : Nat :=
  match plan.window ⟨offset, count, server offset count⟩ with
  | .ok batch => batch.numRows
  | .error _ => 0

-- What would be requested if every request were answered in full.
def fullSchedule : Nat → Nat → ReadWindowScheduler → List (Nat × Nat)
  | 0, _, _ => []
  | steps + 1, offset, scheduler =>
    if offset < plan.totalRows then
      let (count, scheduler) := scheduler.nextRows (plan.totalRows - offset)
      (offset, count) :: fullSchedule steps (offset + count)
        (scheduler.observe (server offset count).length count)
    else []

structure SameRequests (scheduler : ReadWindowScheduler) : Prop where
  ranges : ∀ steps,
    (readerTrace plan server steps ⟨0, scheduler, false⟩).map Request.range =
      (workerTrace plan server steps (.fetching 0 scheduler)).map Request.range
  reader : ∀ steps, ∀ request ∈ readerTrace plan server steps ⟨0, scheduler, false⟩,
    request.observed = request.offset
  worker : ∀ steps, ∀ request ∈ workerTrace plan server steps (.fetching 0 scheduler),
    request.observed = request.offset

end Traces

section Steps
variable {plan : ReadPlan} {server : Server}

theorem answered_spec (hserver : Answers plan server) {offset count : Nat} (hpos : 0 < count)
    (hle : offset + count ≤ plan.totalRows) (htotal : plan.totalRows ≤ usizeMax) :
    ∃ response base batch, server offset count = .reply response base ∧
      plan.window ⟨offset, count, server offset count⟩ = .ok batch ∧
      answeredRows plan server offset count = batch.numRows ∧ 0 < batch.numRows ∧
      batch.numRows ≤ count ∧
      actualRows plan ⟨offset, count, server offset count⟩ = .ok batch.numRows := by
  obtain ⟨batch, hwindow⟩ := hserver offset count hpos hle
  obtain ⟨hdecodes, hrows⟩ := window_ok hwindow
  have hactual := hdecodes.actualRows (by simp only; omega)
  obtain ⟨response, base, header, hfetched, -, -, haccepted⟩ := hdecodes
  exact ⟨response, base, batch, hfetched, hwindow, by rw [answeredRows, hwindow], hrows,
    haccepted.requested, hactual⟩

theorem workerTrace_congr (steps : Nat) {a b : FetchWorker} (h : a.loop = b.loop) :
    workerTrace plan server steps a = workerTrace plan server steps b := by
  cases steps with
  | zero => rfl
  | succ steps => rw [workerTrace, workerTrace, h]

theorem observe_observedRows (scheduler : ReadWindowScheduler) (bytes rows : Nat) :
    (scheduler.observe bytes rows).observedRows = saturatingAdd scheduler.observedRows rows := by
  rw [ReadWindowScheduler.observe]
  split_ifs <;> rfl

theorem traces_done {nextRow : Nat} (h : ¬nextRow < plan.totalRows) (steps : Nat)
    (scheduler : ReadWindowScheduler) :
    readerTrace plan server steps ⟨nextRow, scheduler, false⟩ = [] ∧
      workerTrace plan server steps (.fetching nextRow scheduler) = [] ∧
      fullSchedule plan server steps nextRow scheduler = [] := by
  cases steps with
  | zero => exact ⟨rfl, rfl, rfl⟩
  | succ steps =>
    refine ⟨if_pos (.inr (Nat.le_of_not_lt h)), if_neg h, if_neg h⟩

structure Exchange (plan : ReadPlan) (server : Server) (nextRow : Nat)
    (scheduler : ReadWindowScheduler) (count rows : Nat)
    (reported : Nat → ReadWindowScheduler) : Prop where
  rows_pos : 0 < rows
  rows_le : rows ≤ count
  fits : nextRow + count ≤ plan.totalRows
  answered : rows = answeredRows plan server nextRow count
  observed : ∀ k, (reported k).observedRows = saturatingAdd scheduler.observedRows k
  reader : ∀ steps, readerTrace plan server (steps + 1) ⟨nextRow, scheduler, false⟩ =
    ⟨nextRow, count, scheduler.observedRows⟩ ::
      readerTrace plan server steps ⟨nextRow + rows, reported count, false⟩
  worker : ∀ steps, workerTrace plan server (steps + 1) (.fetching nextRow scheduler) =
    ⟨nextRow, count, scheduler.observedRows⟩ ::
      workerTrace plan server steps (.fetching (nextRow + rows) (reported rows))
  full : ∀ steps, fullSchedule plan server (steps + 1) nextRow scheduler =
    (nextRow, count) :: fullSchedule plan server steps (nextRow + count) (reported count)

theorem exchange (htotal : plan.totalRows ≤ usizeMax) (hserver : Answers plan server)
    {nextRow : Nat} (hnext : nextRow < plan.totalRows) (scheduler : ReadWindowScheduler) :
    ∃ count rows reported, Exchange plan server nextRow scheduler count rows reported := by
  have hpos := scheduler.requestedRows_pos (Nat.sub_pos_of_lt hnext)
  have hle := scheduler.requestedRows_le (plan.totalRows - nextRow)
  have hfits : nextRow + scheduler.requestedRows (plan.totalRows - nextRow) ≤ plan.totalRows := by
    omega
  obtain ⟨response, base, batch, hreply, hwindow, hanswered, hrows, hrowsLe, hactual⟩ :=
    answered_spec hserver hpos hfits htotal
  refine ⟨scheduler.requestedRows (plan.totalRows - nextRow), batch.numRows,
    fun k => (scheduler.nextRows (plan.totalRows - nextRow)).2.observe response.length k,
    hrows, hrowsLe, hfits, hanswered.symm, fun k => observe_observedRows _ _ k, ?_, ?_, ?_⟩
  · intro steps
    rw [readerTrace, if_neg (by simp [hnext])]
    simp only [BinaryReader.serve, BinaryReader.fetch, BinaryReader.advance, hwindow]
    rw [hreply]
  · intro steps
    rw [workerTrace]
    simp only [FetchWorker.loop, if_pos hnext, serveWorker, fetchBinaryFrame]
    refine congrArg _ (workerTrace_congr steps ?_)
    simp only [FetchWorker.loop, afterFetch, hactual]
    rw [hreply]
    exact if_neg hrows.ne'
  · intro steps
    rw [fullSchedule, if_pos hnext]
    simp only [ReadWindowScheduler.nextRows, hreply, Fetched.length]

end Steps

section Agreement
variable {plan : ReadPlan} {server : Server} (htotal : plan.totalRows ≤ usizeMax)
  (hserver : Answers plan server) {nextRow : Nat} {scheduler : ReadWindowScheduler}

include htotal hserver

theorem workerTrace_observed (steps : Nat) (hobserved : scheduler.observedRows = nextRow) :
    ∀ request ∈ workerTrace plan server steps (.fetching nextRow scheduler),
      request.observed = request.offset := by
  induction steps generalizing nextRow scheduler with
  | zero => simp [workerTrace]
  | succ steps ih =>
    by_cases hnext : nextRow < plan.totalRows
    · obtain ⟨count, rows, reported, h⟩ := exchange htotal hserver hnext scheduler
      have hreported : (reported rows).observedRows = nextRow + rows := by
        have hfits := h.fits
        have hrows := h.rows_le
        rw [h.observed, hobserved, saturatingAdd]
        omega
      rw [h.worker]
      exact List.forall_mem_cons.mpr ⟨hobserved, ih hreported⟩
    · rw [(traces_done hnext _ _).2.1]
      simp

theorem readerTrace_of_full (steps : Nat)
    (hfull : ∀ steps, ∀ range ∈ fullSchedule plan server steps nextRow scheduler,
      answeredRows plan server range.1 range.2 = range.2) :
    readerTrace plan server steps ⟨nextRow, scheduler, false⟩ =
      workerTrace plan server steps (.fetching nextRow scheduler) := by
  induction steps generalizing nextRow scheduler with
  | zero => rfl
  | succ steps ih =>
    by_cases hnext : nextRow < plan.totalRows
    · obtain ⟨count, rows, reported, h⟩ := exchange htotal hserver hnext scheduler
      have hrows : rows = count := by
        have hhead := hfull 1
        rw [h.full] at hhead
        rw [h.answered]
        exact (List.forall_mem_cons.mp hhead).1
      rw [h.reader, h.worker, hrows]
      refine congrArg _ (ih fun steps => ?_)
      have htail := hfull (steps + 1)
      rw [h.full] at htail
      exact (List.forall_mem_cons.mp htail).2
    · obtain ⟨hreader, hworker, -⟩ := @traces_done plan server _ hnext (steps + 1) scheduler
      rw [hreader, hworker]

-- A short answer leaves the reader at a row before the one its scheduler has counted to, and
-- since rows remain it asks again from there.
theorem full_of_readerTrace (steps : Nat) (hobserved : scheduler.observedRows = nextRow)
    (haligned : ∀ steps, ∀ request ∈ readerTrace plan server steps ⟨nextRow, scheduler, false⟩,
      request.observed = request.offset) :
    ∀ range ∈ fullSchedule plan server steps nextRow scheduler,
      answeredRows plan server range.1 range.2 = range.2 := by
  induction steps generalizing nextRow scheduler with
  | zero => simp [fullSchedule]
  | succ steps ih =>
    by_cases hnext : nextRow < plan.totalRows
    · obtain ⟨count, rows, reported, h⟩ := exchange htotal hserver hnext scheduler
      have hfits := h.fits
      have hle := h.rows_le
      have hreported : (reported count).observedRows = nextRow + count := by
        rw [h.observed, hobserved, saturatingAdd]
        omega
      have htail : ∀ steps, ∀ request ∈
          readerTrace plan server steps ⟨nextRow + rows, reported count, false⟩,
          request.observed = request.offset := by
        intro steps
        have hsteps := haligned (steps + 1)
        rw [h.reader] at hsteps
        exact (List.forall_mem_cons.mp hsteps).2
      have hrows : rows = count := by
        by_contra hshort
        obtain ⟨count', rows', reported', h'⟩ :=
          exchange htotal hserver (show nextRow + rows < plan.totalRows by omega) (reported count)
        have hhead := htail 1
        rw [h'.reader] at hhead
        have hoffset := (List.forall_mem_cons.mp hhead).1
        simp only [hreported] at hoffset
        omega
      rw [hrows] at htail
      rw [h.full]
      refine List.forall_mem_cons.mpr ⟨?_, ih hreported htail⟩
      exact h.answered.symm.trans hrows
    · rw [(traces_done hnext _ _).2.2]
      simp

end Agreement

section Runs
variable {plan : ReadPlan} {server : Server} {scheduler : ReadWindowScheduler} {s t : Prefetching}

def Served (server : Server) (fetches : List Fetch) : Prop :=
  ∀ fetch ∈ fetches, fetch.fetched = server fetch.startRow fetch.requestedRows

structure Reading.Follows (plan : ReadPlan) (server : Server) (start state : Reading) : Prop where
  trace : Served server state.fetches → ∀ steps,
    (readerTrace plan server (state.fetches.length + steps) start.reader).map Request.range =
      state.fetches.map Fetch.range ++ (readerTrace plan server steps state.reader).map Request.range

theorem Reading.Follows.next {start s t : Reading} {fetched : Fetched}
    (hs : Reading.Follows plan server start s) (h : s.next plan fetched = some t) :
    Reading.Follows plan server start t := by
  rw [Reading.next] at h
  split_ifs at h with hstop
  · cases h
    refine ⟨fun hserved steps => ?_⟩
    rw [hs.trace hserved steps]
    cases steps with
    | zero => rfl
    | succ steps => rw [readerTrace, readerTrace, if_pos hstop, if_pos (.inl rfl)]
  · cases h
    refine ⟨fun hserved steps => ?_⟩
    obtain ⟨hfetches, hfetch⟩ := List.forall_mem_append.mp hserved
    have hfetched : s.reader.fetch plan fetched = s.reader.serve plan server := by
      have hlast := hfetch _ List.mem_cons_self
      simp only [BinaryReader.fetch] at hlast
      rw [BinaryReader.serve, hlast]
    have htrace := hs.trace hfetches (steps + 1)
    rw [readerTrace, if_neg hstop, ← hfetched] at htrace
    rw [List.length_append, List.length_singleton, Nat.add_assoc, Nat.add_comm 1 steps, htrace]
    simp [Request.range, Fetch.range]

theorem reading_follows_trace {replies : List Fetched} {state : Reading}
    (h : exec (Reading.next plan) (Reading.start scheduler) replies = some state)
    (hserved : Served server state.fetches) :
    state.fetches.map Fetch.range =
      (readerTrace plan server state.fetches.length ⟨0, scheduler, false⟩).map Request.range := by
  have hfollows : Reading.Follows plan server (Reading.start scheduler) state :=
    exec_invariant (fun _ _ _ hs ht => hs.next ht)
      ⟨fun _ steps => by simp [Reading.start]⟩ h
  have htrace := hfollows.trace hserved 0
  rw [Nat.add_zero, readerTrace, List.map_nil, List.append_nil] at htrace
  exact htrace.symm

structure Prefetching.Follows (plan : ReadPlan) (server : Server) (start : FetchWorker)
    (state : Prefetching) : Prop where
  trace : Served server state.fetches → ∃ worker : FetchWorker,
    (state.worker.loop = worker.loop ∨ state.worker.loop = none) ∧
    ∀ steps, (workerTrace plan server (state.fetches.length + steps) start).map Request.range =
      state.fetches.map Fetch.range ++ (workerTrace plan server steps worker).map Request.range

theorem Prefetching.Follows.keep {start : FetchWorker}
    (hs : Prefetching.Follows plan server start s) (hfetches : t.fetches = s.fetches)
    (hworker : t.worker.loop = s.worker.loop ∨ t.worker.loop = none) :
    Prefetching.Follows plan server start t := by
  refine ⟨fun hserved => ?_⟩
  rw [hfetches] at hserved ⊢
  obtain ⟨worker, hloop, htrace⟩ := hs.trace hserved
  refine ⟨worker, ?_, htrace⟩
  rcases hworker with hworker | hworker
  · rwa [hworker]
  · exact .inr hworker

theorem Prefetching.Follows.step {start : FetchWorker} {action : PrefetchAction}
    (hs : Prefetching.Follows plan server start s) (h : s.step plan action = some t) :
    Prefetching.Follows plan server start t := by
  cases Prefetching.step_moves h with
  | @fetch nextRow scheduler fetched hworker hnext =>
    refine ⟨fun hserved => ?_⟩
    obtain ⟨hfetches, hfetch⟩ := List.forall_mem_append.mp hserved
    obtain ⟨worker, hloop, htrace⟩ := hs.trace hfetches
    rw [hworker] at hloop
    have hloop : worker.loop = some (nextRow, scheduler) := by
      simpa [FetchWorker.loop, eq_comm] using hloop
    have hfetched : fetchBinaryFrame plan nextRow scheduler fetched =
        serveWorker plan server nextRow scheduler := by
      have hlast := hfetch _ List.mem_cons_self
      simp only [fetchBinaryFrame] at hlast
      rw [serveWorker, hlast]
    refine ⟨(serveWorker plan server nextRow scheduler).2, .inl (by rw [hfetched]), ?_⟩
    intro steps
    have hnextTrace := htrace (steps + 1)
    rw [workerTrace, hloop] at hnextTrace
    simp only [if_pos hnext] at hnextTrace
    rw [List.length_append, List.length_singleton, Nat.add_assoc, Nat.add_comm 1 steps,
      hnextTrace, hfetched]
    simp [Request.range, Fetch.range]
  | leave | abandon => exact hs.keep rfl (.inr rfl)
  | @send message next hworker =>
    refine hs.keep rfl (.inl ?_)
    rw [hworker]
    cases next <;> rfl
  | next hnext =>
    obtain ⟨hworker, hfetches, -⟩ := Prefetching.nextInner_emits hnext
    exact hs.keep hfetches (.inl (by rw [hworker]))

theorem prefetching_follows_trace {actions : List PrefetchAction} {state : Prefetching}
    (h : exec (Prefetching.step plan) (Prefetching.start scheduler) actions = some state)
    (hserved : Served server state.fetches) :
    state.fetches.map Fetch.range =
      (workerTrace plan server state.fetches.length (.fetching 0 scheduler)).map Request.range := by
  have hfollows : Prefetching.Follows plan server (.fetching 0 scheduler) state :=
    exec_invariant (fun _ _ _ hs ht => hs.step ht)
      ⟨fun _ => ⟨.fetching 0 scheduler, .inl rfl, fun steps => by simp [Prefetching.start]⟩⟩ h
  obtain ⟨worker, -, htrace⟩ := hfollows.trace hserved
  have hall := htrace 0
  rw [Nat.add_zero, workerTrace, List.map_nil, List.append_nil] at hall
  exact hall.symm

end Runs

theorem prefetch_requests_agree_iff (plan : ReadPlan) (server : Server)
    (htotal : plan.totalRows ≤ usizeMax) (hserver : Answers plan server)
    (config : ReadWindowConfig) :
    SameRequests plan server config.scheduler ↔
      ∀ steps, ∀ range ∈ fullSchedule plan server steps 0 config.scheduler,
        answeredRows plan server range.1 range.2 = range.2 := by
  constructor
  · intro h steps
    exact full_of_readerTrace htotal hserver steps rfl h.reader
  · intro h
    have hworker := fun steps =>
      workerTrace_observed htotal hserver steps (show config.scheduler.observedRows = 0 from rfl)
    have hsame := fun steps => readerTrace_of_full htotal hserver steps h
    refine ⟨fun steps => by rw [hsame], fun steps => ?_, hworker⟩
    rw [hsame]
    exact hworker steps

def namePlan : ReadPlan :=
  ⟨7, [⟨"name", .varchar 20⟩], [⟨"name", .utf8 .standard, true, none⟩], 9, false⟩

def nameFrame (offset rows : Nat) : Fetched :=
  .reply (buildFrame 7#64 (BitVec.ofNat 64 rows) (BitVec.ofNat 64 offset)
    [(List.replicate rows [97, 0]).flatten]) 0

theorem answers_of_rows {plan : ReadPlan} {server : Server}
    (h : ∀ offset < plan.totalRows, ∀ count < plan.totalRows + 1, 0 < count →
      offset + count ≤ plan.totalRows → 0 < answeredRows plan server offset count) :
    Answers plan server := by
  intro offset count hpos hle
  have hrows := h offset (by omega) count (by omega) hpos hle
  rw [answeredRows] at hrows
  cases hwindow : plan.window ⟨offset, count, server offset count⟩ with
  | ok batch => exact ⟨batch, rfl⟩
  | error error => simp [hwindow] at hrows

theorem fullSchedule_fits {plan : ReadPlan} {server : Server} (steps : Nat) {offset : Nat}
    {scheduler : ReadWindowScheduler} :
    ∀ range ∈ fullSchedule plan server steps offset scheduler,
      0 < range.2 ∧ range.1 + range.2 ≤ plan.totalRows := by
  induction steps generalizing offset scheduler with
  | zero => simp [fullSchedule]
  | succ steps ih =>
    rw [fullSchedule]
    split_ifs with hoffset
    · have hpos := scheduler.requestedRows_pos (Nat.sub_pos_of_lt hoffset)
      have hle := scheduler.requestedRows_le (plan.totalRows - offset)
      refine List.forall_mem_cons.mpr ⟨⟨hpos, ?_⟩, ih⟩
      simp only
      omega
    · simp

theorem nameFrame_rows : ∀ offset < 9, ∀ count < 10, 0 < count → offset + count ≤ 9 →
    answeredRows namePlan nameFrame offset count = count := by
  decide +kernel

theorem full_windows_agree :
    Answers namePlan nameFrame ∧
      SameRequests namePlan nameFrame ReadWindowScheduler.nameConfig.scheduler := by
  have hanswers : Answers namePlan nameFrame := answers_of_rows fun offset ho count hc hpos hle =>
    (nameFrame_rows offset ho count hc hpos hle).symm ▸ hpos
  refine ⟨hanswers, (prefetch_requests_agree_iff namePlan nameFrame (by decide) hanswers
    ReadWindowScheduler.nameConfig).mpr fun steps range hrange => ?_⟩
  obtain ⟨hpos, hle⟩ := fullSchedule_fits steps range hrange
  have htotal : namePlan.totalRows = 9 := rfl
  exact nameFrame_rows range.1 (by omega) range.2 (by omega) hpos (by omega)

def shortServer (offset count : Nat) : Fetched :=
  nameFrame offset (if offset = 1 ∧ count = 3 then 2 else count)

theorem short_window_changes_requests :
    Answers namePlan shortServer ∧
      (readerTrace namePlan shortServer 3 ⟨0, ReadWindowScheduler.nameConfig.scheduler, false⟩).map
        Request.range = [(0, 1), (1, 3), (3, 6)] ∧
      (workerTrace namePlan shortServer 3
        (.fetching 0 ReadWindowScheduler.nameConfig.scheduler)).map Request.range =
          [(0, 1), (1, 3), (3, 5)] :=
  ⟨answers_of_rows (by decide +kernel), by decide +kernel, by decide +kernel⟩

end MonetdbAdbc
