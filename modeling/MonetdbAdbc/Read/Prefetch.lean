import MonetdbAdbc.Read.BinaryReader

namespace MonetdbAdbc
open LittleEndian Machine Windows Transition

structure BinaryFrame where
  startRow : Nat
  requestedRows : Nat
  response : Bytes
  base : Nat
  deriving DecidableEq, Repr

abbrev BinaryFrameResult := Except ReadError BinaryFrame

inductive FetchWorker where
  | fetching (nextRow : Nat) (scheduler : ReadWindowScheduler)
  | sending (message : BinaryFrameResult) (next : Option (Nat × ReadWindowScheduler))
  | stopped

structure Prefetching where
  worker : FetchWorker
  channel : Option BinaryFrameResult
  receiver : Bool
  decodedRows : Nat
  finished : Bool
  fetches : List Fetch
  outcomes : List ReadOutcome

inductive PrefetchAction where
  | fetch (fetched : Fetched)
  | leave
  | send
  | next
  deriving DecidableEq, Repr

def PrefetchAction.reply : PrefetchAction → Option Fetched
  | .fetch fetched => some fetched
  | _ => none

section Model
variable (plan : ReadPlan)

def checkHeader (startRow requestedRows : Nat) (header : ExportbinHeader) :
    Except ReadError Nat :=
  if header.resultId ≠ plan.resultId then
    .error (.decode (.resultId plan.resultId header.resultId))
  else if header.startRow ≠ startRow then
    .error (.decode (.startRow startRow header.startRow))
  else if header.rowCount > usizeMax then .error .rowCountExceedsPlatform
  else if header.rowCount ≤ requestedRows then .ok header.rowCount
  else .error (.decode (.rowCount requestedRows header.rowCount))

def actualRows (fetch : Fetch) : Except ReadError Nat :=
  match fetch.fetched with
  | .failed message => .error (.cursor message)
  | .panicked => .error .fetchingPanicked
  | .reply response _ =>
    match parseFrameHeader response with
    | .error error => .error (.frame error)
    | .ok header => checkHeader plan fetch.startRow fetch.requestedRows header

def Fetch.message (fetch : Fetch) : BinaryFrameResult :=
  match actualRows plan fetch, fetch.fetched with
  | .error error, _ => .error error
  | .ok _, .reply response base => .ok ⟨fetch.startRow, fetch.requestedRows, response, base⟩
  | .ok _, _ => .error .fetchingPanicked

def afterFetch (scheduler : ReadWindowScheduler) (fetch : Fetch) :
    Option (Nat × ReadWindowScheduler) :=
  match actualRows plan fetch, fetch.fetched with
  | .ok rows, .reply response _ =>
    if rows = 0 then none
    else some (fetch.startRow + rows, scheduler.observe response.length rows)
  | _, _ => none

def fetchBinaryFrame (nextRow : Nat) (scheduler : ReadWindowScheduler) (fetched : Fetched) :
    Fetch × FetchWorker :=
  let remaining := plan.totalRows - nextRow
  let fetch : Fetch := ⟨nextRow, scheduler.requestedRows remaining, fetched⟩
  (fetch, .sending (fetch.message plan) (afterFetch plan (scheduler.nextRows remaining).2 fetch))

def FetchWorker.sent : Option (Nat × ReadWindowScheduler) → FetchWorker
  | some (nextRow, scheduler) => .fetching nextRow scheduler
  | none => .stopped

def FetchWorker.isStopped : FetchWorker → Bool
  | .stopped => true
  | _ => false

def Prefetching.finish (s : Prefetching) : Prefetching :=
  { s with finished := true, receiver := false, channel := none }

def Prefetching.emit (s : Prefetching) (outcome : ReadOutcome) : Prefetching :=
  { s with outcomes := s.outcomes ++ [outcome] }

def Prefetching.deliver (s : Prefetching) : BinaryFrameResult → Prefetching
  | .error error => s.finish.emit (some (.error error))
  | .ok frame =>
    match plan.readFrame frame.startRow frame.requestedRows frame.response frame.base with
    | .error error => s.finish.emit (some (.error error))
    | .ok batch =>
      let s := { s with decodedRows := s.decodedRows + batch.numRows }
      (if s.decodedRows ≥ plan.totalRows then s.finish else s).emit (some (.ok batch))

def Prefetching.nextInner (s : Prefetching) : Option Prefetching :=
  if s.finished ∨ s.decodedRows ≥ plan.totalRows then some (s.finish.emit none)
  else if !s.receiver then some (s.finish.emit (some (.error .receiverUnavailable)))
  else
    match s.channel with
    | some message => some (Prefetching.deliver plan { s with channel := none } message)
    | none =>
      if s.worker.isStopped then some (s.finish.emit (some (.error .prefetchEnded))) else none

def Prefetching.step (s : Prefetching) : PrefetchAction → Option Prefetching
  | .fetch fetched =>
    match s.worker with
    | .fetching nextRow scheduler =>
      if nextRow < plan.totalRows then
        let (fetch, worker) := fetchBinaryFrame plan nextRow scheduler fetched
        some { s with worker := worker, fetches := s.fetches ++ [fetch] }
      else none
    | _ => none
  | .leave =>
    match s.worker with
    | .fetching nextRow _ =>
      if nextRow < plan.totalRows then none else some { s with worker := .stopped }
    | _ => none
  | .send =>
    match s.worker with
    | .sending message next =>
      if !s.receiver then some { s with worker := .stopped }
      else
        match s.channel with
        | none => some { s with worker := .sent next, channel := some message }
        | some _ => none
    | _ => none
  | .next => s.nextInner plan

def Prefetching.Responds (s : Prefetching) : Prop :=
  ∀ fetched, ∃ moves : List PrefetchAction, moves.length ≤ 2 ∧
    (∀ move ∈ moves, move = .fetch fetched ∨ move = .leave ∨ move = .send) ∧
    (exec (Prefetching.step plan) s (moves ++ [.next])).isSome

def Prefetching.start (scheduler : ReadWindowScheduler) : Prefetching :=
  ⟨.fetching 0 scheduler, none, true, 0, false, [], []⟩

end Model

section Frames
variable {plan : ReadPlan} {batch : RecordBatch}

def Fetch.outcome (plan : ReadPlan) (fetch : Fetch) : Except ReadError RecordBatch :=
  match fetch.message plan with
  | .error error => .error error
  | .ok frame => plan.readFrame frame.startRow frame.requestedRows frame.response frame.base

theorem checkHeader_ok {startRow requestedRows rows : Nat} {header : ExportbinHeader}
    (h : checkHeader plan startRow requestedRows header = .ok rows) :
    Accepted header plan.resultId startRow requestedRows rows := by
  simp only [checkHeader] at h
  split_ifs at h with h1 h2 h3 h4
  cases h
  exact ⟨not_not.mp h1, not_not.mp h2, rfl, h4⟩

theorem actualRows_ok {fetch : Fetch} {rows : Nat} (h : actualRows plan fetch = .ok rows) :
    ∃ response base header, fetch.fetched = .reply response base ∧
      parseFrameHeader response = .ok header ∧
      Accepted header plan.resultId fetch.startRow fetch.requestedRows rows := by
  simp only [actualRows] at h
  cases hfetched : fetch.fetched with
  | failed message | panicked => simp [hfetched] at h
  | reply response base =>
    simp only [hfetched] at h
    cases hheader : parseFrameHeader response with
    | error error => simp [hheader] at h
    | ok header =>
      simp only [hheader] at h
      exact ⟨response, base, header, rfl, hheader, checkHeader_ok h⟩

theorem message_ok {fetch : Fetch} {frame : BinaryFrame} (h : fetch.message plan = .ok frame) :
    ∃ rows response base, actualRows plan fetch = .ok rows ∧
      fetch.fetched = .reply response base ∧
      frame = ⟨fetch.startRow, fetch.requestedRows, response, base⟩ := by
  cases hrows : actualRows plan fetch with
  | error error => simp [Fetch.message, hrows] at h
  | ok rows =>
    obtain ⟨response, base, -, hfetched, -, -⟩ := actualRows_ok hrows
    simp only [Fetch.message, hrows, hfetched, Except.ok.injEq] at h
    exact ⟨rows, response, base, rfl, hfetched, h.symm⟩

theorem outcome_ok {fetch : Fetch} (h : fetch.outcome plan = .ok batch) :
    DecodesTo plan fetch batch ∧ 0 < batch.numRows ∧
      actualRows plan fetch = .ok batch.numRows := by
  simp only [Fetch.outcome] at h
  cases hmessage : fetch.message plan with
  | error error => simp [hmessage] at h
  | ok frame =>
    simp only [hmessage] at h
    obtain ⟨rows, response, base, hrows, hfetched, rfl⟩ := message_ok hmessage
    obtain ⟨hdecode, hpos⟩ := readFrame_ok h
    obtain ⟨header, hheader, haccepted⟩ := decodeFrame_accepted hdecode
    obtain ⟨response', base', header', hfetched', hheader', haccepted'⟩ := actualRows_ok hrows
    rw [hfetched, Fetched.reply.injEq] at hfetched'
    obtain ⟨rfl, rfl⟩ := hfetched'
    rw [hheader, Except.ok.injEq] at hheader'
    subst hheader'
    refine ⟨⟨response, base, header, hfetched, hdecode, hheader, haccepted⟩, hpos, ?_⟩
    rw [hrows, ← haccepted.rowCount, ← haccepted'.rowCount]

theorem DecodesTo.actualRows {fetch : Fetch} (h : DecodesTo plan fetch batch)
    (hrequested : fetch.requestedRows ≤ usizeMax) : actualRows plan fetch = .ok batch.numRows := by
  obtain ⟨response, base, header, hfetched, -, hheader, haccepted⟩ := h
  have hrows := haccepted.rowCount
  have hle := haccepted.requested
  simp only [MonetdbAdbc.actualRows, hfetched, hheader, checkHeader]
  rw [if_neg (not_not.mpr haccepted.resultId), if_neg (not_not.mpr haccepted.startRow),
    if_neg (by omega), if_pos (by omega), hrows]

theorem DecodesTo.outcome {fetch : Fetch} (h : DecodesTo plan fetch batch)
    (hpos : 0 < batch.numRows) (hrequested : fetch.requestedRows ≤ usizeMax) :
    fetch.outcome plan = .ok batch := by
  have hrows := h.actualRows hrequested
  obtain ⟨response, base, header, hfetched, hdecode, -, -⟩ := h
  simp only [Fetch.outcome, Fetch.message, hrows, hfetched, ReadPlan.readFrame, hdecode]
  rw [if_pos hpos]

end Frames

section Invariant
variable {plan : ReadPlan} {fetches : List Fetch}

inductive Pending (plan : ReadPlan) : Nat → List Fetch → Option Nat → Prop
  | nil (row : Nat) : Pending plan row [] (some row)
  | more {row rows : Nat} {fetch : Fetch} {fetches : List Fetch} {position : Option Nat} :
    fetch.startRow = row → row < plan.totalRows → actualRows plan fetch = .ok rows →
      row + rows ≤ plan.totalRows → Pending plan (row + rows) fetches position →
      Pending plan row (fetch :: fetches) position
  | last {row : Nat} {fetch : Fetch} : fetch.startRow = row → row < plan.totalRows →
      (∀ rows, actualRows plan fetch = .ok rows → rows = 0) → Pending plan row [fetch] none

theorem Pending.snoc_more {row next rows : Nat} {fetch : Fetch}
    (h : Pending plan row fetches (some next)) (hstart : fetch.startRow = next)
    (hnext : next < plan.totalRows) (hrows : actualRows plan fetch = .ok rows)
    (hle : next + rows ≤ plan.totalRows) :
    Pending plan row (fetches ++ [fetch]) (some (next + rows)) := by
  generalize hposition : some next = position at h
  induction h with
  | nil row =>
    cases hposition
    exact .more hstart hnext hrows hle (.nil _)
  | more h1 h2 h3 h4 _ ih => exact .more h1 h2 h3 h4 (ih hposition)
  | last => simp at hposition

theorem Pending.snoc_last {row next : Nat} {fetch : Fetch}
    (h : Pending plan row fetches (some next)) (hstart : fetch.startRow = next)
    (hnext : next < plan.totalRows) (hlast : ∀ rows, actualRows plan fetch = .ok rows → rows = 0) :
    Pending plan row (fetches ++ [fetch]) none := by
  generalize hposition : some next = position at h
  induction h with
  | nil row =>
    cases hposition
    exact .last hstart hnext hlast
  | more h1 h2 h3 h4 _ ih => exact .more h1 h2 h3 h4 (ih hposition)
  | last => simp at hposition

theorem Pending.at_total {position : Option Nat}
    (h : Pending plan plan.totalRows fetches position) :
    fetches = [] ∧ position = some plan.totalRows := by
  cases h with
  | nil => exact ⟨rfl, rfl⟩
  | more _ hlt | last _ hlt => exact absurd hlt (lt_irrefl _)

def FetchWorker.held : FetchWorker → List BinaryFrameResult
  | .sending message _ => [message]
  | _ => []

def FetchWorker.At (plan : ReadPlan) : FetchWorker → Option Nat → Prop
  | .fetching nextRow _, position => position = some nextRow
  | .sending _ next, position => position = next.map Prod.fst
  | .stopped, position => position = none ∨ position = some plan.totalRows

def FetchWorker.Idle (plan : ReadPlan) : FetchWorker → Prop
  | .fetching nextRow _ => plan.totalRows ≤ nextRow
  | .sending _ _ => False
  | .stopped => True

structure Prefetching.Live (plan : ReadPlan) (s : Prefetching) (consumed pending : List Fetch)
    (position : Option Nat) : Prop where
  fetches : s.fetches = consumed ++ pending
  outcomes : s.outcomes = consumed.map fun fetch => some (fetch.outcome plan)
  delivered : Delivered RecordBatch.numRows plan.totalRows 
    (entered (Fetch.outcome plan) consumed) (some s.decodedRows)
  chain : Pending plan s.decodedRows pending position
  worker : s.worker.At plan position
  queue : pending.map (Fetch.message plan) = s.channel.toList ++ s.worker.held
  receiver : s.receiver = true
  unfinished : s.finished = false

structure Prefetching.Ended (plan : ReadPlan) (s : Prefetching) (consumed rest : List Fetch) (m : Nat)
    (position : Option Nat) : Prop where
  fetches : s.fetches = consumed ++ rest
  outcomes : s.outcomes =
    (consumed.map fun fetch => some (fetch.outcome plan)) ++ List.replicate m none
  delivered : Delivered RecordBatch.numRows plan.totalRows 
    (entered (Fetch.outcome plan) consumed) position
  ended : position = none ∨
    (position = some plan.totalRows ∧ rest = [] ∧ s.worker.Idle plan)
  receiver : s.receiver = false
  finished : s.finished = true

def Prefetching.Sound (plan : ReadPlan) (s : Prefetching) : Prop :=
  (∃ consumed pending position, s.Live plan consumed pending position) ∨
    ∃ consumed rest m position, s.Ended plan consumed rest m position

end Invariant

section Steps
variable {plan : ReadPlan} {s t : Prefetching} {consumed pending rest : List Fetch} {m : Nat}
  {position : Option Nat} {action : PrefetchAction} {scheduler : ReadWindowScheduler}

theorem afterFetch_cases (scheduler : ReadWindowScheduler) (fetch : Fetch) :
    (∃ rows, actualRows plan fetch = .ok rows ∧
      (afterFetch plan scheduler fetch).map Prod.fst = some (fetch.startRow + rows)) ∨
    ((∀ rows, actualRows plan fetch = .ok rows → rows = 0) ∧
      afterFetch plan scheduler fetch = none) := by
  cases hrows : actualRows plan fetch with
  | error error => simp [afterFetch, hrows]
  | ok rows =>
    obtain ⟨response, base, -, hfetched, -, -⟩ := actualRows_ok hrows
    by_cases hzero : rows = 0
    · simp [afterFetch, hrows, hfetched, hzero]
    · simp [afterFetch, hrows, hfetched, hzero]

theorem actualRows_le {fetch : Fetch} {rows : Nat} (h : actualRows plan fetch = .ok rows) :
    rows ≤ fetch.requestedRows := by
  obtain ⟨_, _, _, _, _, haccepted⟩ := actualRows_ok h
  exact haccepted.requested

theorem Prefetching.Live.fetch (h : s.Live plan consumed pending position) {nextRow : Nat}
    (hworker : s.worker = .fetching nextRow scheduler) (hnext : nextRow < plan.totalRows)
    (fetched : Fetched) :
    Prefetching.Sound plan { s with
      worker := (fetchBinaryFrame plan nextRow scheduler fetched).2
      fetches := s.fetches ++ [(fetchBinaryFrame plan nextRow scheduler fetched).1] } := by
  have hat := h.worker
  rw [hworker] at hat
  subst hat
  have hqueue := h.queue
  rw [hworker] at hqueue
  simp only [fetchBinaryFrame]
  generalize hfetch : (⟨nextRow, scheduler.requestedRows (plan.totalRows - nextRow), fetched⟩ :
    Fetch) = fetch
  have hstart : fetch.startRow = nextRow := by simp [← hfetch]
  have hrequested : fetch.requestedRows ≤ plan.totalRows - nextRow := by
    rw [← hfetch]
    exact scheduler.requestedRows_le _
  have hchain : Pending plan s.decodedRows (pending ++ [fetch])
      ((afterFetch plan (scheduler.nextRows (plan.totalRows - nextRow)).2 fetch).map Prod.fst) := by
    rcases afterFetch_cases (scheduler.nextRows (plan.totalRows - nextRow)).2 fetch with
      ⟨rows, hrows, hafter⟩ | ⟨hlast, hafter⟩
    · have hle := actualRows_le hrows
      rw [hafter, hstart]
      exact h.chain.snoc_more hstart hnext hrows (by omega)
    · rw [hafter]
      exact h.chain.snoc_last hstart hnext hlast
  refine .inl ⟨consumed, pending ++ [fetch], _, ?_, h.outcomes, h.delivered, hchain, rfl, ?_,
    h.receiver, h.unfinished⟩
  · simp [h.fetches]
  · simpa [FetchWorker.held] using hqueue

theorem Delivered_le {entries : List (Nat × Except ReadError RecordBatch)} {row : Nat}
    (h : Delivered RecordBatch.numRows plan.totalRows entries (some row)) :
    row ≤ plan.totalRows := by
  cases h with
  | nil => exact Nat.zero_le _
  | batch _ _ _ hle => exact hle

theorem Pending.le {row : Nat} {fetches : List Fetch} (hrow : row ≤ plan.totalRows)
    (h : Pending plan row fetches position) {next : Nat} (hnext : position = some next) :
    next ≤ plan.totalRows := by
  induction h with
  | nil row => exact Option.some.inj hnext ▸ hrow
  | more _ _ _ hle _ ih => exact ih hle hnext
  | last => simp at hnext

theorem Prefetching.Live.leave (h : s.Live plan consumed pending position) {nextRow : Nat}
    (hworker : s.worker = .fetching nextRow scheduler) (hnext : ¬nextRow < plan.totalRows) :
    Prefetching.Sound plan { s with worker := .stopped } := by
  have hat := h.worker
  rw [hworker] at hat
  have hle := h.chain.le (Delivered_le h.delivered) hat
  have hqueue := h.queue
  rw [hworker] at hqueue
  refine .inl ⟨consumed, pending, position, h.fetches, h.outcomes, h.delivered, h.chain, .inr ?_,
    hqueue, h.receiver, h.unfinished⟩
  rw [hat, Option.some.injEq]
  omega

theorem Prefetching.Live.send (h : s.Live plan consumed pending position)
    {message : BinaryFrameResult} {next : Option (Nat × ReadWindowScheduler)}
    (hworker : s.worker = .sending message next) (hchannel : s.channel = none) :
    Prefetching.Sound plan { s with worker := .sent next, channel := some message } := by
  have hat := h.worker
  rw [hworker] at hat
  have hqueue := h.queue
  rw [hworker, hchannel] at hqueue
  refine .inl ⟨consumed, pending, position, h.fetches, h.outcomes, h.delivered, h.chain, ?_, ?_,
    h.receiver, h.unfinished⟩
  · cases next with
    | none => exact .inl hat
    | some next => exact hat
  · cases next <;> simpa [FetchWorker.sent, FetchWorker.held] using hqueue

theorem Prefetching.Live.idle (h : s.Live plan consumed [] (some plan.totalRows)) :
    s.worker.Idle plan := by
  have hat := h.worker
  have hqueue := h.queue
  cases hworker : s.worker with
  | fetching nextRow scheduler =>
    rw [hworker] at hat
    exact (Option.some.inj hat).le
  | sending message next => simp [hworker, FetchWorker.held] at hqueue
  | stopped => trivial

theorem Prefetching.Live.not_starved (h : s.Live plan consumed pending position)
    (hchannel : s.channel = none) (hstopped : s.worker.isStopped = true) :
    s.decodedRows ≥ plan.totalRows := by
  have hat := h.worker
  have hqueue := h.queue
  have hchain := h.chain
  cases hworker : s.worker with
  | fetching nextRow scheduler => simp [hworker, FetchWorker.isStopped] at hstopped
  | sending message next => simp [hworker, FetchWorker.isStopped] at hstopped
  | stopped =>
    simp only [hworker, hchannel, FetchWorker.held, Option.toList_none, List.append_nil,
      List.map_eq_nil_iff] at hqueue
    subst hqueue
    rw [hworker] at hat
    cases hchain
    rcases hat with hat | hat
    · simp at hat
    · exact (Option.some.inj hat).ge

theorem deliver_outcome (fetch : Fetch) (s : Prefetching) :
    Prefetching.deliver plan s (fetch.message plan) =
      match fetch.outcome plan with
      | .error error => s.finish.emit (some (.error error))
      | .ok batch =>
        (if s.decodedRows + batch.numRows ≥ plan.totalRows then
          { s with decodedRows := s.decodedRows + batch.numRows }.finish
        else { s with decodedRows := s.decodedRows + batch.numRows }).emit (some (.ok batch)) := by
  cases hmessage : fetch.message plan with
  | error error => simp [Prefetching.deliver, Fetch.outcome, hmessage]
  | ok frame =>
    simp only [Prefetching.deliver, Fetch.outcome, hmessage]

theorem Prefetching.Live.deliver_error {fetch : Fetch}
    (h : s.Live plan consumed (fetch :: pending) position) {error : ReadError}
    (hstart : fetch.startRow = s.decodedRows) (hrow : s.decodedRows < plan.totalRows)
    (houtcome : fetch.outcome plan = .error error) :
    Prefetching.Sound plan ((Prefetching.finish { s with channel := none }).emit
      (some (.error error))) := by
  refine .inr ⟨consumed ++ [fetch], pending, 0, none, ?_, ?_, ?_, .inl rfl, rfl, rfl⟩
  · simp [Prefetching.emit, Prefetching.finish, h.fetches]
  · simp [Prefetching.emit, Prefetching.finish, h.outcomes, houtcome]
  · rw [entered_snoc, houtcome, hstart]
    exact h.delivered.fail hrow

theorem Prefetching.Live.deliver_batch {fetch : Fetch}
    (h : s.Live plan consumed (fetch :: pending) position) {message : BinaryFrameResult}
    (hchannel : s.channel = some message) {batch : RecordBatch}
    (houtcome : fetch.outcome plan = .ok batch) :
    Prefetching.Live plan { s with
      channel := none
      decodedRows := s.decodedRows + batch.numRows
      outcomes := s.outcomes ++ [some (.ok batch)] } (consumed ++ [fetch]) pending position := by
  obtain ⟨-, hpos, hactual⟩ := outcome_ok houtcome
  have hqueue := h.queue
  rw [hchannel] at hqueue
  simp only [List.map_cons, Option.toList_some, List.cons_append, List.nil_append,
    List.cons.injEq] at hqueue
  cases h.chain with
  | last _ _ hlast => exact absurd (hlast _ hactual) (by omega)
  | more hstart hrow hrows hle hchain =>
    rw [hactual, Except.ok.injEq] at hrows
    subst hrows
    refine ⟨?_, ?_, ?_, hchain, h.worker, hqueue.2, h.receiver, h.unfinished⟩
    · simp [h.fetches]
    · simp [h.outcomes, houtcome]
    · rw [entered_snoc, houtcome, hstart]
      exact h.delivered.batch hrow hpos hle

theorem Prefetching.Live.complete (h : s.Live plan consumed pending position)
    (hrow : s.decodedRows ≥ plan.totalRows) {u : Prefetching} (hworker : u.worker = s.worker)
    (hfetches : u.fetches = s.fetches) (houtcomes : u.outcomes = s.outcomes ++ List.replicate m none)
    (hreceiver : u.receiver = false) (hfinished : u.finished = true) :
    Prefetching.Sound plan u := by
  have heq : s.decodedRows = plan.totalRows := le_antisymm (Delivered_le h.delivered) hrow
  have hchain := h.chain
  rw [heq] at hchain
  obtain ⟨rfl, rfl⟩ := hchain.at_total
  refine .inr ⟨consumed, [], m, some plan.totalRows, ?_, ?_, ?_, .inr ⟨rfl, rfl, ?_⟩, hreceiver,
    hfinished⟩
  · rw [hfetches, h.fetches]
  · rw [houtcomes, h.outcomes]
  · have hdelivered := h.delivered
    rwa [heq] at hdelivered
  · rw [hworker]
    exact h.idle

theorem Prefetching.Live.deliver (h : s.Live plan consumed pending position)
    {message : BinaryFrameResult} (hchannel : s.channel = some message)
    (hrow : s.decodedRows < plan.totalRows) :
    Prefetching.Sound plan (Prefetching.deliver plan { s with channel := none } message) := by
  have hqueue := h.queue
  rw [hchannel] at hqueue
  cases pending with
  | nil => simp at hqueue
  | cons fetch pending =>
    have hmessage : fetch.message plan = message := by simpa using (List.cons.inj hqueue).1
    have hstart : fetch.startRow = s.decodedRows := by
      cases h.chain <;> assumption
    rw [← hmessage, deliver_outcome]
    cases houtcome : fetch.outcome plan with
    | error error => exact h.deliver_error hstart hrow houtcome
    | ok batch =>
      have hlive := h.deliver_batch hchannel houtcome
      simp only
      split_ifs with htotal
      · exact hlive.complete (m := 0) htotal rfl rfl (by simp [Prefetching.emit, Prefetching.finish])
          rfl rfl
      · exact .inl ⟨_, _, _, hlive⟩

theorem Prefetching.Live.next (h : s.Live plan consumed pending position)
    (hstep : s.nextInner plan = some t) : Prefetching.Sound plan t := by
  by_cases hrow : s.decodedRows ≥ plan.totalRows
  · rw [Prefetching.nextInner, if_pos (.inr hrow), Option.some.injEq] at hstep
    exact hstep ▸ h.complete (m := 1) hrow rfl rfl rfl rfl rfl
  · have hopen : ¬(s.finished = true ∨ s.decodedRows ≥ plan.totalRows) := by
      simp [h.unfinished, hrow]
    have hreceiver : ¬(!s.receiver) = true := by simp [h.receiver]
    rw [Prefetching.nextInner, if_neg hopen, if_neg hreceiver] at hstep
    cases hchannel : s.channel with
    | some message =>
      simp only [hchannel, Option.some.injEq] at hstep
      exact hstep ▸ h.deliver hchannel (by omega)
    | none =>
      simp only [hchannel] at hstep
      split_ifs at hstep with hstopped
      exact absurd (h.not_starved hchannel hstopped) hrow

inductive Prefetching.Moves (plan : ReadPlan) (s : Prefetching) : PrefetchAction → Prefetching → Prop
  | fetch {nextRow : Nat} {scheduler : ReadWindowScheduler} (fetched : Fetched)
    (hworker : s.worker = .fetching nextRow scheduler) (hnext : nextRow < plan.totalRows) :
    s.Moves plan (.fetch fetched)
      { s with worker := (fetchBinaryFrame plan nextRow scheduler fetched).2,
               fetches := s.fetches ++ [(fetchBinaryFrame plan nextRow scheduler fetched).1] }
  | leave {nextRow : Nat} {scheduler : ReadWindowScheduler}
    (hworker : s.worker = .fetching nextRow scheduler) (hnext : ¬nextRow < plan.totalRows) :
    s.Moves plan .leave { s with worker := .stopped }
  | abandon {message : BinaryFrameResult} {next : Option (Nat × ReadWindowScheduler)}
    (hworker : s.worker = .sending message next) (hreceiver : s.receiver = false) :
    s.Moves plan .send { s with worker := .stopped }
  | send {message : BinaryFrameResult} {next : Option (Nat × ReadWindowScheduler)}
    (hworker : s.worker = .sending message next) (hreceiver : s.receiver = true)
    (hchannel : s.channel = none) :
    s.Moves plan .send { s with worker := .sent next, channel := some message }
  | next {t : Prefetching} (h : s.nextInner plan = some t) : s.Moves plan .next t

theorem Prefetching.step_moves (h : s.step plan action = some t) : s.Moves plan action t := by
  cases action with
  | next => exact .next h
  | fetch fetched =>
    cases hworker : s.worker with
    | fetching nextRow scheduler =>
      simp only [Prefetching.step, hworker] at h
      split_ifs at h with hnext
      exact Option.some.inj h ▸ .fetch fetched hworker hnext
    | sending | stopped => simp [Prefetching.step, hworker] at h
  | leave =>
    cases hworker : s.worker with
    | fetching nextRow scheduler =>
      simp only [Prefetching.step, hworker] at h
      split_ifs at h with hnext
      exact Option.some.inj h ▸ .leave hworker hnext
    | sending | stopped => simp [Prefetching.step, hworker] at h
  | send =>
    cases hworker : s.worker with
    | fetching | stopped => simp [Prefetching.step, hworker] at h
    | sending message next =>
      simp only [Prefetching.step, hworker] at h
      split_ifs at h with hreceiver
      · exact Option.some.inj h ▸ .abandon hworker (by simpa using hreceiver)
      · split at h
        · next hchannel => exact Option.some.inj h ▸ .send hworker (by simpa using hreceiver) hchannel
        · cases h

theorem Prefetching.Live.step (h : s.Live plan consumed pending position)
    (hstep : s.step plan action = some t) : Prefetching.Sound plan t := by
  cases Prefetching.step_moves hstep with
  | fetch fetched hworker hnext => exact h.fetch hworker hnext fetched
  | leave hworker hnext => exact h.leave hworker hnext
  | abandon _ hreceiver => simp [h.receiver] at hreceiver
  | send hworker _ hchannel => exact h.send hworker hchannel
  | next hnext => exact h.next hnext

theorem Prefetching.Ended.step (h : s.Ended plan consumed rest m position)
    (hstep : s.step plan action = some t) : Prefetching.Sound plan t := by
  have hstopped : Prefetching.Sound plan { s with worker := .stopped } :=
    .inr ⟨consumed, rest, m, position, h.fetches, h.outcomes, h.delivered,
      h.ended.imp_right fun hended => ⟨hended.1, hended.2.1, trivial⟩, h.receiver, h.finished⟩
  cases Prefetching.step_moves hstep with
  | @fetch nextRow scheduler fetched hworker hnext =>
    rcases h.ended with hposition | ⟨-, -, hidle⟩
    · refine .inr ⟨consumed, rest ++ [(fetchBinaryFrame plan nextRow scheduler fetched).1], m,
        position, ?_, h.outcomes, h.delivered, .inl hposition, h.receiver, h.finished⟩
      simp [h.fetches]
    · rw [hworker] at hidle
      exact absurd hnext (not_lt.mpr hidle)
  | leave | abandon => exact hstopped
  | send _ hreceiver => simp [h.receiver] at hreceiver
  | next hnext =>
    rw [Prefetching.nextInner, if_pos (.inl h.finished), Option.some.injEq] at hnext
    subst hnext
    refine .inr ⟨consumed, rest, m + 1, position, h.fetches, ?_, h.delivered, h.ended, rfl, rfl⟩
    simp [Prefetching.emit, Prefetching.finish, h.outcomes, List.replicate_succ',
      List.append_assoc]

theorem Prefetching.sound_step (hs : Prefetching.Sound plan s)
    (hstep : s.step plan action = some t) : Prefetching.Sound plan t := by
  rcases hs with ⟨consumed, pending, position, hlive⟩ | ⟨consumed, rest, m, position, hended⟩
  · exact hlive.step hstep
  · exact hended.step hstep

theorem Prefetching.start_sound (scheduler : ReadWindowScheduler) :
    Prefetching.Sound plan (Prefetching.start scheduler) :=
  .inl ⟨[], [], some 0, rfl, rfl, .nil, .nil 0, rfl, rfl, rfl, rfl⟩

theorem Prefetching.Sound.readsExactly (h : Prefetching.Sound plan s)
    (hrequests : ∀ fetch ∈ s.fetches, Requested plan fetch) :
    ReadsExactly plan s.fetches s.outcomes := by
  have hok : ∀ fetch batch, Requested plan fetch →
      (Fetch.outcome plan fetch = .ok batch ↔ DecodesTo plan fetch batch ∧ 0 < batch.numRows) :=
    fun fetch batch hrequested => ⟨fun houtcome => ⟨(outcome_ok houtcome).1, (outcome_ok houtcome).2.1⟩,
      fun hdecodes => hdecodes.1.outcome hdecodes.2 hrequested.addressable⟩
  rcases h with ⟨consumed, pending, position, hlive⟩ | ⟨consumed, rest, m, position, hended⟩
  · rw [hlive.fetches] at hrequests
    have hreads := readsExactly_of_delivered (m := 0) hrequests hok hlive.delivered (by simp)
    rwa [answered, ← hlive.fetches, List.replicate_zero, List.append_nil, ← hlive.outcomes]
      at hreads
  · rw [hended.fetches] at hrequests
    have hreads := readsExactly_of_delivered (m := m) hrequests hok hended.delivered
      fun _ => hended.ended.imp_right fun h => ⟨h.1, h.2.1⟩
    rwa [answered, ← hended.fetches, ← hended.outcomes] at hreads

theorem Prefetching.deliver_emits (s : Prefetching) (message : BinaryFrameResult) :
    (s.deliver plan message).worker = s.worker ∧ (s.deliver plan message).fetches = s.fetches ∧
      ∃ outcome, (s.deliver plan message).outcomes = s.outcomes ++ [outcome] := by
  cases message with
  | error error => exact ⟨rfl, rfl, _, rfl⟩
  | ok frame =>
    simp only [Prefetching.deliver]
    cases plan.readFrame frame.startRow frame.requestedRows frame.response frame.base with
    | error error => exact ⟨rfl, rfl, _, rfl⟩
    | ok batch =>
      simp only
      split_ifs
      · exact ⟨rfl, rfl, _, rfl⟩
      · exact ⟨rfl, rfl, _, rfl⟩

theorem Prefetching.nextInner_emits (h : s.nextInner plan = some t) :
    t.worker = s.worker ∧ t.fetches = s.fetches ∧ ∃ outcome, t.outcomes = s.outcomes ++ [outcome] := by
  rw [Prefetching.nextInner] at h
  split at h
  · exact Option.some.inj h ▸ ⟨rfl, rfl, _, rfl⟩
  split at h
  · exact Option.some.inj h ▸ ⟨rfl, rfl, _, rfl⟩
  · cases hchannel : s.channel with
    | some message =>
      rw [hchannel] at h
      exact Option.some.inj h ▸ Prefetching.deliver_emits { s with channel := none } message
    | none =>
      simp only [hchannel] at h
      split_ifs at h
      exact Option.some.inj h ▸ ⟨rfl, rfl, _, rfl⟩

structure Prefetching.After (plan : ReadPlan) (actions : List PrefetchAction) (s : Prefetching) :
    Prop where
  sound : Prefetching.Sound plan s
  requests : ∀ fetch ∈ s.fetches, Requested plan fetch
  calls : s.outcomes.length = actions.count .next
  fetched : s.fetches.map Fetch.fetched = actions.filterMap PrefetchAction.reply

theorem Prefetching.After.step {actions : List PrefetchAction} (hs : s.After plan actions)
    (h : s.step plan action = some t) : t.After plan (actions ++ [action]) := by
  have hsound := Prefetching.sound_step hs.sound h
  cases Prefetching.step_moves h with
  | @fetch nextRow scheduler fetched _ hnext =>
    refine ⟨hsound, fun fetch hfetch => ?_, by simp [hs.calls], ?_⟩
    · rcases List.mem_append.mp hfetch with hold | hnew
      · exact hs.requests fetch hold
      · rw [List.mem_singleton.mp hnew]
        exact requested_from scheduler hnext fetched
    · simp [fetchBinaryFrame, hs.fetched, PrefetchAction.reply]
  | leave | abandon | send =>
    exact ⟨hsound, hs.requests, by simp [hs.calls], by simp [hs.fetched, PrefetchAction.reply]⟩
  | next hnext =>
    obtain ⟨-, hfetches, outcome, houtcomes⟩ := Prefetching.nextInner_emits hnext
    exact ⟨hsound, hfetches ▸ hs.requests, by simp [houtcomes, hs.calls],
      by simp [hfetches, hs.fetched, PrefetchAction.reply]⟩

theorem Prefetching.start_after (scheduler : ReadWindowScheduler) :
    (Prefetching.start scheduler).After plan [] :=
  ⟨Prefetching.start_sound scheduler, by simp [Prefetching.start], rfl, rfl⟩

theorem Prefetching.responds (s : Prefetching) : s.Responds plan := by
  intro fetched
  cases hnext : s.nextInner plan with
  | some t => exact ⟨[], by simp, by simp, by simp [exec, Prefetching.step, hnext]⟩
  | none =>
    have hopen : ¬(s.finished = true ∨ s.decodedRows ≥ plan.totalRows) := by
      intro hclosed
      simp [Prefetching.nextInner, hclosed] at hnext
    have hreceiver : ¬(!s.receiver) = true := by
      intro hreceiver
      rw [Prefetching.nextInner, if_neg hopen, if_pos hreceiver] at hnext
      simp at hnext
    have hdelivers (t : Prefetching) (hfinished : t.finished = s.finished)
        (hrows : t.decodedRows = s.decodedRows) (hkept : t.receiver = s.receiver)
        (hready : t.channel ≠ none ∨ t.worker = .stopped) : (t.nextInner plan).isSome := by
      rw [Prefetching.nextInner, hfinished, hrows, hkept, if_neg hopen, if_neg hreceiver]
      rcases hready with hchannel | hworker
      · obtain ⟨message, hmessage⟩ := Option.ne_none_iff_exists'.mp hchannel
        simp [hmessage]
      · cases t.channel <;> simp [hworker, FetchWorker.isStopped]
    rw [Prefetching.nextInner, if_neg hopen, if_neg hreceiver] at hnext
    cases hchannel : s.channel with
    | some message => simp [hchannel] at hnext
    | none =>
      cases hworker : s.worker with
      | fetching nextRow scheduler =>
        by_cases hlt : nextRow < plan.totalRows
        · refine ⟨[.fetch fetched, .send], by simp, by simp, ?_⟩
          simp only [List.cons_append, List.nil_append, exec, Prefetching.step, hworker, if_pos hlt,
            fetchBinaryFrame, Option.bind_some, if_neg hreceiver, hchannel, Option.bind_fun_some]
          exact hdelivers _ rfl rfl rfl (.inl (by simp))
        · refine ⟨[.leave], by simp, by simp, ?_⟩
          simp only [List.cons_append, List.nil_append, exec, Prefetching.step, hworker, if_neg hlt,
            Option.bind_some, Option.bind_fun_some]
          exact hdelivers _ rfl rfl rfl (.inr rfl)
      | sending message next =>
        refine ⟨[.send], by simp, by simp, ?_⟩
        simp only [List.cons_append, List.nil_append, exec, Prefetching.step, hworker,
          if_neg hreceiver, hchannel, Option.bind_some, Option.bind_fun_some]
        exact hdelivers _ rfl rfl rfl (.inl (by simp))
      | stopped => simp [hchannel, hworker, FetchWorker.isStopped] at hnext

theorem prefetchedReader_reads_exactly {actions : List PrefetchAction} {state : Prefetching}
    (h : exec (Prefetching.step plan) (Prefetching.start scheduler) actions = some state) :
    state.outcomes.length = actions.count .next ∧
      state.fetches.map Fetch.fetched = actions.filterMap PrefetchAction.reply ∧
      ReadsExactly plan state.fetches state.outcomes := by
  have hafter : state.After plan actions :=
    exec_history (P := Prefetching.After plan) (fun _ _ _ _ hs ht => hs.step ht)
      (Prefetching.start_after scheduler) h
  exact ⟨hafter.calls, hafter.fetched, hafter.sound.readsExactly hafter.requests⟩

end Steps

theorem result_readers_deliver_exactly (plan : ReadPlan) (scheduler : ReadWindowScheduler) :
    (∀ replies, ∃ state,
      exec (Reading.next plan) (Reading.start scheduler) replies = some state ∧
        state.outcomes.length = replies.length ∧ state.fetches.map Fetch.fetched <+: replies ∧
        ReadsExactly plan state.fetches state.outcomes) ∧
    (∀ actions state,
      exec (Prefetching.step plan) (Prefetching.start scheduler) actions = some state →
        state.outcomes.length = actions.count .next ∧
        state.fetches.map Fetch.fetched = actions.filterMap PrefetchAction.reply ∧
        ReadsExactly plan state.fetches state.outcomes ∧ state.Responds plan) := by
  refine ⟨binaryReader_reads_exactly scheduler, fun actions state h => ?_⟩
  obtain ⟨hcalls, hfetched, hreads⟩ := prefetchedReader_reads_exactly h
  exact ⟨hcalls, hfetched, hreads, state.responds⟩

def intPlan : ReadPlan := ⟨7, [⟨"n", .int⟩], [⟨"n", .primitive .int32, true, none⟩], 3, false⟩

def intFrames : Fetched × Fetched :=
  (.reply ([38, 54, 32, 55, 32, 49, 32, 50, 32, 48, 10] ++ [5, 0, 0, 0, 0, 0, 0, 128] ++
    leBytes 11#64 ++ leBytes 8#64 ++ leBytes 19#64) 0,
  .reply ([38, 54, 32, 55, 32, 49, 32, 49, 32, 50, 10] ++ [9, 0, 0, 0] ++
    leBytes 11#64 ++ leBytes 4#64 ++ leBytes 15#64) 0)

theorem three_rows_delivered :
    (∃ state, exec (Reading.next intPlan) (Reading.start (.new intPlan.columns 2 0))
        [intFrames.1, intFrames.2, .panicked] = some state ∧
      state.outcomes.map (outcomeRows RecordBatch.numRows) = [2, 1, 0] ∧
      ReadsExactly intPlan state.fetches state.outcomes) ∧
    ∃ state, exec (Prefetching.step intPlan) (Prefetching.start (.new intPlan.columns 2 0))
        [.fetch intFrames.1, .send, .fetch intFrames.2, .next, .send, .next, .leave, .next] =
          some state ∧
      state.outcomes.map (outcomeRows RecordBatch.numRows) = [2, 1, 0] ∧
      ReadsExactly intPlan state.fetches state.outcomes := by
  constructor
  · have hrows : (exec (Reading.next intPlan) (Reading.start (.new intPlan.columns 2 0))
        [intFrames.1, intFrames.2, .panicked]).map
          (fun state => state.outcomes.map (outcomeRows RecordBatch.numRows)) =
            some [2, 1, 0] := by
      decide +kernel
    obtain ⟨state, hstate, -, -, hreads⟩ := (result_readers_deliver_exactly intPlan
      (.new intPlan.columns 2 0)).1 [intFrames.1, intFrames.2, .panicked]
    rw [hstate, Option.map_some, Option.some.injEq] at hrows
    exact ⟨state, hstate, hrows, hreads⟩
  · have hrows : (exec (Prefetching.step intPlan) (Prefetching.start (.new intPlan.columns 2 0))
        [.fetch intFrames.1, .send, .fetch intFrames.2, .next, .send, .next, .leave, .next]).map
          (fun state => state.outcomes.map (outcomeRows RecordBatch.numRows)) =
            some [2, 1, 0] := by
      decide +kernel
    obtain ⟨state, hstate, hrows⟩ := Option.map_eq_some_iff.mp hrows
    obtain ⟨-, -, hreads, -⟩ := (result_readers_deliver_exactly intPlan _).2 _ state hstate
    exact ⟨state, hstate, hrows, hreads⟩

end MonetdbAdbc
