import MonetdbAdbc.Read.ReadWindow
import MonetdbAdbc.Library.Transition
import MonetdbAdbc.Library.Windows

namespace MonetdbAdbc
open LittleEndian Machine Windows Transition

inductive ReadError where
  | cursor (message : String)
  | frame (error : FrameError)
  | decode (error : DecodeError)
  | rowCountExceedsPlatform
  | emptyWindow
  | decodingPanicked
  | fetchingPanicked
  | receiverUnavailable
  | prefetchEnded
  deriving DecidableEq, Repr

inductive Fetched where
  | reply (response : Bytes) (base : Nat)
  | failed (message : String)
  | panicked
  deriving DecidableEq, Repr

structure Fetch where
  startRow : Nat
  requestedRows : Nat
  fetched : Fetched
  deriving DecidableEq, Repr

structure ReadPlan where
  resultId : Nat
  columns : List ResultColumn
  schema : List Field
  totalRows : Nat
  adoptFrame : Bool
  deriving DecidableEq, Repr

abbrev ReadOutcome := Option (Except ReadError RecordBatch)

namespace ReadPlan
variable (plan : ReadPlan)

def decodeFrame (startRow requestedRows : Nat) (response : Bytes) (base : Nat) :
    Except DecodeError RecordBatch :=
  if plan.adoptFrame then
    decodeFrameOwnedWithSchema base response plan.columns plan.resultId startRow requestedRows
      plan.schema
  else
    decodeFrameWithSchema response plan.columns plan.resultId startRow requestedRows plan.schema

def readFrame (startRow requestedRows : Nat) (response : Bytes) (base : Nat) :
    Except ReadError RecordBatch :=
  match plan.decodeFrame startRow requestedRows response base with
  | .ok batch => if batch.numRows > 0 then .ok batch else .error .emptyWindow
  | .error .panicked => .error .decodingPanicked
  | .error error => .error (.decode error)

def window (fetch : Fetch) : Except ReadError RecordBatch :=
  match fetch.fetched with
  | .reply response base => plan.readFrame fetch.startRow fetch.requestedRows response base
  | .failed message => .error (.cursor message)
  | .panicked => .error .decodingPanicked

end ReadPlan

section Specification
variable {plan : ReadPlan} {batch : RecordBatch} {fetch : Fetch}

def Misframed (plan : ReadPlan) (fetch : Fetch) : Prop :=
  ∃ response base header, fetch.fetched = .reply response base ∧
    parseFrameHeader response = .ok header ∧
    (header.resultId ≠ plan.resultId ∨ header.startRow ≠ fetch.startRow ∨
      header.rowCount > fetch.requestedRows ∨ header.rowCount = 0)

def DecodesTo (plan : ReadPlan) (fetch : Fetch) (batch : RecordBatch) : Prop :=
  ∃ response base header, fetch.fetched = .reply response base ∧
    plan.decodeFrame fetch.startRow fetch.requestedRows response base = .ok batch ∧
    parseFrameHeader response = .ok header ∧
    Accepted header plan.resultId fetch.startRow fetch.requestedRows batch.numRows

structure Requested (plan : ReadPlan) (fetch : Fetch) : Prop where
  positive : 0 < fetch.requestedRows
  within : fetch.startRow + fetch.requestedRows ≤ plan.totalRows
  addressable : fetch.requestedRows ≤ usizeMax

structure ReadsExactly (plan : ReadPlan) (fetches : List Fetch) (outcomes : List ReadOutcome) :
    Prop where
  requests : ∀ fetch ∈ fetches, Requested plan fetch
  exact : Exact RecordBatch.numRows plan.totalRows outcomes
  windows : ∀ i batch, outcomes[i]? = some (some (.ok batch)) → ∃ fetch,
    fetches[i]? = some fetch ∧ DecodesTo plan fetch batch ∧
      fetch.startRow = delivered RecordBatch.numRows (outcomes.take i)
  rejects : ∀ i fetch, fetches[i]? = some fetch → Misframed plan fetch → i < outcomes.length →
    ∃ j ≤ i, ∃ error, outcomes[j]? = some (some (.error error))
  answers : ∀ i < outcomes.length,
    (∀ j < i, ∀ error, outcomes[j]? ≠ some (some (.error error))) →
      delivered RecordBatch.numRows (outcomes.take i) < plan.totalRows →
        ∃ fetch, fetches[i]? = some fetch ∧
          ((∃ batch, outcomes[i]? = some (some (.ok batch))) ∨
            ∃ error, outcomes[i]? = some (some (.error error)) ∧
              ∀ batch, DecodesTo plan fetch batch → batch.numRows = 0)
  ends : ∀ i outcome, outcomes[i]? = some outcome →
    delivered RecordBatch.numRows (outcomes.take i) = plan.totalRows → outcome = none

theorem decodeFrame_accepted {startRow requestedRows base : Nat} {response : Bytes}
    (h : plan.decodeFrame startRow requestedRows response base = .ok batch) :
    ∃ header, parseFrameHeader response = .ok header ∧
      Accepted header plan.resultId startRow requestedRows batch.numRows := by
  simp only [ReadPlan.decodeFrame] at h
  split_ifs at h
  · exact decodeFrameOwnedWithSchema_accepted h
  · exact decodeFrameWithSchema_accepted h

theorem readFrame_ok {startRow requestedRows base : Nat} {response : Bytes}
    (h : plan.readFrame startRow requestedRows response base = .ok batch) :
    plan.decodeFrame startRow requestedRows response base = .ok batch ∧ 0 < batch.numRows := by
  simp only [ReadPlan.readFrame] at h
  split at h
  · split_ifs at h with hrows
    cases h
    exact ⟨‹_›, hrows⟩
  · simp at h
  · simp at h

theorem window_ok (h : plan.window fetch = .ok batch) :
    DecodesTo plan fetch batch ∧ 0 < batch.numRows := by
  simp only [ReadPlan.window] at h
  cases hfetched : fetch.fetched with
  | failed message | panicked => simp [hfetched] at h
  | reply response base =>
    simp only [hfetched] at h
    obtain ⟨hdecode, hpos⟩ := readFrame_ok h
    obtain ⟨header, hheader, haccepted⟩ := decodeFrame_accepted hdecode
    exact ⟨⟨response, base, header, hfetched, hdecode, hheader, haccepted⟩, hpos⟩

theorem DecodesTo.framed (h : DecodesTo plan fetch batch) (hpos : 0 < batch.numRows) :
    ¬Misframed plan fetch := by
  obtain ⟨response, base, header, hfetched, -, hheader, haccepted⟩ := h
  rintro ⟨response', base', header', hfetched', hheader', hbad⟩
  rw [hfetched, Fetched.reply.injEq] at hfetched'
  obtain ⟨rfl, rfl⟩ := hfetched'
  rw [hheader, Except.ok.injEq] at hheader'
  subst hheader'
  rcases hbad with h | h | h | h
  · exact h haccepted.resultId
  · exact h haccepted.startRow
  · have := haccepted.rowCount
    have := haccepted.requested
    omega
  · have := haccepted.rowCount
    omega

theorem DecodesTo.window (h : DecodesTo plan fetch batch) (hpos : 0 < batch.numRows) :
    plan.window fetch = .ok batch := by
  obtain ⟨response, base, header, hfetched, hdecode, -, -⟩ := h
  simp only [ReadPlan.window, hfetched, ReadPlan.readFrame, hdecode]
  rw [if_pos hpos]

section Answered
variable {consumed rest : List Fetch} {outcome : Fetch → Except ReadError RecordBatch} {m i : Nat}
  {position : Option Nat}

def answered (outcome : Fetch → Except ReadError RecordBatch) (consumed : List Fetch) (m : Nat) :
    List ReadOutcome :=
  (consumed.map fun fetch => some (outcome fetch)) ++ List.replicate m none

def entered (outcome : Fetch → Except ReadError RecordBatch) (consumed : List Fetch) :
    List (Nat × Except ReadError RecordBatch) :=
  consumed.map fun fetch => (fetch.startRow, outcome fetch)

theorem entered_snoc (consumed : List Fetch) (fetch : Fetch) :
    entered outcome (consumed ++ [fetch]) =
      entered outcome consumed ++ [(fetch.startRow, outcome fetch)] := by
  simp [entered]

theorem answered_eq (outcome : Fetch → Except ReadError RecordBatch) (consumed : List Fetch)
    (m : Nat) :
    answered outcome consumed m = results (entered outcome consumed) ++ List.replicate m none := by
  simp [answered, entered, results]

theorem answered_fetch {fetch : Fetch} (h : consumed[i]? = some fetch) :
    (answered outcome consumed m)[i]? = some (some (outcome fetch)) := by
  have hlt := (List.getElem?_eq_some_iff.mp h).1
  rw [answered, List.getElem?_append_left (by simpa using hlt), List.getElem?_map, h,
    Option.map_some]

theorem fetch_of_answered {result : Except ReadError RecordBatch}
    (h : (answered outcome consumed m)[i]? = some (some result)) :
    ∃ fetch, consumed[i]? = some fetch ∧ outcome fetch = result := by
  rw [answered, List.getElem?_append] at h
  split_ifs at h with hlt
  · simpa using h
  · exact absurd (List.eq_of_mem_replicate (List.mem_of_getElem? h)) (by simp)

theorem answered_start
    (hdelivered : Delivered RecordBatch.numRows plan.totalRows (entered outcome consumed) position)
    {fetch : Fetch} (h : consumed[i]? = some fetch) :
    fetch.startRow < plan.totalRows ∧ fetch.startRow =
      delivered RecordBatch.numRows ((answered outcome consumed m).take i) := by
  have hlt := (List.getElem?_eq_some_iff.mp h).1
  have hentry : (entered outcome consumed)[i]? = some (fetch.startRow, outcome fetch) := by
    simp [entered, h]
  rw [answered_eq, List.take_append_of_le_length (by simpa [entered] using hlt.le)]
  exact hdelivered.start hentry

theorem answered_failed
    (hdelivered : Delivered RecordBatch.numRows plan.totalRows (entered outcome consumed) position)
    (hnone : position = none) :
    ∃ j < consumed.length, ∃ error,
      (answered outcome consumed m)[j]? = some (some (.error error)) := by
  obtain ⟨j, row, error, hj⟩ := hdelivered.last_failed hnone
  rw [entered, List.getElem?_map, Option.map_eq_some_iff] at hj
  obtain ⟨fetch, hfetch, hentry⟩ := hj
  refine ⟨j, (List.getElem?_eq_some_iff.mp hfetch).1, error, ?_⟩
  rw [answered_fetch hfetch, (Prod.mk.inj hentry).2]

theorem answered_complete
    (hdelivered : Delivered RecordBatch.numRows plan.totalRows (entered outcome consumed) position)
    (htotal : position = some plan.totalRows) (hi : consumed.length ≤ i) :
    delivered RecordBatch.numRows ((answered outcome consumed m).take i) = plan.totalRows := by
  rw [answered_eq, List.take_append, List.take_of_length_le (by simpa [entered] using hi),
    List.take_replicate, delivered_append, delivered_replicate]
  exact hdelivered.rows_eq htotal

theorem readsExactly_of_delivered
    (hrequests : ∀ fetch ∈ consumed ++ rest, Requested plan fetch)
    (hok : ∀ fetch batch, Requested plan fetch →
      (outcome fetch = .ok batch ↔ DecodesTo plan fetch batch ∧ 0 < batch.numRows))
    (hdelivered : Delivered RecordBatch.numRows plan.totalRows (entered outcome consumed) position)
    (hended : 0 < m → position = none ∨ (position = some plan.totalRows ∧ rest = [])) :
    ReadsExactly plan (consumed ++ rest) (answered outcome consumed m) := by
  have hfetched {i : Nat} {fetch : Fetch} (h : consumed[i]? = some fetch) :
      Requested plan fetch ∧ (consumed ++ rest)[i]? = some fetch := by
    refine ⟨hrequests fetch (List.mem_append_left rest (List.mem_of_getElem? h)), ?_⟩
    rw [List.getElem?_append_left (List.getElem?_eq_some_iff.mp h).1, h]
  have hspare {i : Nat} (hi : consumed.length ≤ i)
      (hlength : i < (answered outcome consumed m).length) : 0 < m := by
    simp only [answered, List.length_append, List.length_map, List.length_replicate] at hlength
    omega
  refine ⟨hrequests, ?_, ?_, ?_, ?_, ?_⟩
  · rw [answered_eq]
    exact hdelivered.exact fun hm => (hended hm).imp_right And.left
  · intro i batch hi
    obtain ⟨fetch, hfetch, hbatch⟩ := fetch_of_answered hi
    obtain ⟨hrequested, hget⟩ := hfetched hfetch
    exact ⟨fetch, hget, ((hok fetch batch hrequested).mp hbatch).1,
      (answered_start hdelivered hfetch).2⟩
  · intro i fetch hi hbad hlength
    by_cases hlt : i < consumed.length
    · rw [List.getElem?_append_left hlt] at hi
      cases houtcome : outcome fetch with
      | ok batch =>
        obtain ⟨hdecodes, hpos⟩ := (hok fetch batch (hfetched hi).1).mp houtcome
        exact absurd hbad (hdecodes.framed hpos)
      | error error => exact ⟨i, le_rfl, error, by rw [answered_fetch hi, houtcome]⟩
    · rcases hended (hspare (not_lt.mp hlt) hlength) with hnone | ⟨-, rfl⟩
      · obtain ⟨j, hj, error, hfailed⟩ := answered_failed hdelivered hnone
        exact ⟨j, by omega, error, hfailed⟩
      · rw [List.append_nil] at hi
        exact absurd (List.getElem?_eq_some_iff.mp hi).1 hlt
  · intro i hlength hclean hopen
    cases hfetch : consumed[i]? with
    | some fetch =>
      refine ⟨fetch, (hfetched hfetch).2, ?_⟩
      rw [answered_fetch hfetch]
      cases houtcome : outcome fetch with
      | ok batch => exact .inl ⟨batch, rfl⟩
      | error error =>
        refine .inr ⟨error, rfl, fun batch hdecodes => ?_⟩
        by_contra hrows
        have hbatch := (hok fetch batch (hfetched hfetch).1).mpr
          ⟨hdecodes, Nat.pos_of_ne_zero hrows⟩
        simp [houtcome] at hbatch
    | none =>
      have hi := List.getElem?_eq_none_iff.mp hfetch
      rcases hended (hspare hi hlength) with hnone | ⟨htotal, -⟩
      · obtain ⟨j, hj, error, hfailed⟩ := answered_failed (m := m) hdelivered hnone
        exact absurd hfailed (hclean j (by omega) error)
      · exact absurd (answered_complete hdelivered htotal hi) hopen.ne
  · intro i outcome' hi htotal
    cases outcome' with
    | none => rfl
    | some result =>
      obtain ⟨fetch, hfetch, -⟩ := fetch_of_answered hi
      obtain ⟨hlt, hstart⟩ := answered_start (m := m) hdelivered hfetch
      exact absurd (hstart.trans htotal) hlt.ne

end Answered

end Specification

section Sequential
variable {position : Option Nat}

structure BinaryReader where
  nextRow : Nat
  scheduler : ReadWindowScheduler
  finished : Bool

structure Reading where
  reader : BinaryReader
  fetches : List Fetch
  outcomes : List ReadOutcome

variable (plan : ReadPlan)

def BinaryReader.fetch (reader : BinaryReader) (fetched : Fetched) : Fetch :=
  ⟨reader.nextRow, reader.scheduler.requestedRows (plan.totalRows - reader.nextRow), fetched⟩

def BinaryReader.advance (reader : BinaryReader) (fetch : Fetch) : BinaryReader :=
  let scheduler := (reader.scheduler.nextRows (plan.totalRows - reader.nextRow)).2
  let scheduler :=
    match fetch.fetched with
    | .reply response _ => scheduler.observe response.length fetch.requestedRows
    | _ => scheduler
  match plan.window fetch with
  | .ok batch => ⟨reader.nextRow + batch.numRows, scheduler, reader.finished⟩
  | .error _ => ⟨reader.nextRow, scheduler, true⟩

def Reading.next (state : Reading) (fetched : Fetched) : Option Reading :=
  if state.reader.finished ∨ state.reader.nextRow ≥ plan.totalRows then
    some ⟨{ state.reader with finished := true }, state.fetches, state.outcomes ++ [none]⟩
  else
    let fetch := state.reader.fetch plan fetched
    some ⟨state.reader.advance plan fetch, state.fetches ++ [fetch],
      state.outcomes ++ [some (plan.window fetch)]⟩

def Reading.start (scheduler : ReadWindowScheduler) : Reading := ⟨⟨0, scheduler, false⟩, [], []⟩

structure Reading.Sound (state : Reading) (m : Nat) (position : Option Nat) : Prop where
  outcomes : state.outcomes = answered plan.window state.fetches m
  delivered : Delivered RecordBatch.numRows plan.totalRows (entered plan.window state.fetches)
    position
  requests : ∀ fetch ∈ state.fetches, Requested plan fetch
  reading : state.reader.finished = false → m = 0 ∧ position = some state.reader.nextRow
  ended : state.reader.finished = true → position = none ∨ position = some plan.totalRows
  within : state.reader.nextRow ≤ plan.totalRows

variable {plan}

theorem requested_from (scheduler : ReadWindowScheduler) {row : Nat} (hrow : row < plan.totalRows)
    (fetched : Fetched) :
    Requested plan ⟨row, scheduler.requestedRows (plan.totalRows - row), fetched⟩ where
  positive := scheduler.requestedRows_pos (by omega)
  within := by
    have := scheduler.requestedRows_le (plan.totalRows - row)
    simp only
    omega
  addressable := scheduler.requestedRows_addressable _

theorem Reading.Sound.stop {s : Reading} {m : Nat} (hs : s.Sound plan m position)
    (hstop : s.reader.finished = true ∨ s.reader.nextRow ≥ plan.totalRows) :
    Reading.Sound plan ⟨{ s.reader with finished := true }, s.fetches, s.outcomes ++ [none]⟩
      (m + 1) position := by
  refine ⟨?_, hs.delivered, hs.requests, by simp, fun _ => ?_, hs.within⟩
  · simp [hs.outcomes, answered, List.replicate_succ', List.append_assoc]
  · cases hfinished : s.reader.finished with
    | true => exact hs.ended hfinished
    | false =>
      have hrow := hs.within
      have hge : s.reader.nextRow ≥ plan.totalRows := by simpa [hfinished] using hstop
      rw [(hs.reading hfinished).2, Option.some.injEq]
      exact .inr (by omega)

theorem Reading.Sound.fetch {s : Reading} {m : Nat} (hs : s.Sound plan m position)
    (hfinished : s.reader.finished = false) (hlt : s.reader.nextRow < plan.totalRows)
    (fetched : Fetched) :
    ∃ position, Reading.Sound plan ⟨s.reader.advance plan (s.reader.fetch plan fetched),
      s.fetches ++ [s.reader.fetch plan fetched],
      s.outcomes ++ [some (plan.window (s.reader.fetch plan fetched))]⟩ 0 position := by
  obtain ⟨rfl, rfl⟩ := hs.reading hfinished
  have houtcomes : s.outcomes ++ [some (plan.window (s.reader.fetch plan fetched))] =
      answered plan.window (s.fetches ++ [s.reader.fetch plan fetched]) 0 := by
    simp [hs.outcomes, answered]
  have hrequests : ∀ fetch ∈ s.fetches ++ [s.reader.fetch plan fetched], Requested plan fetch := by
    intro fetch hfetch
    rcases List.mem_append.mp hfetch with hold | hnew
    · exact hs.requests fetch hold
    · rw [List.mem_singleton.mp hnew]
      exact requested_from s.reader.scheduler hlt fetched
  cases hwindow : plan.window (s.reader.fetch plan fetched) with
  | ok batch =>
    obtain ⟨⟨response, base, header, -, -, -, haccepted⟩, hpos⟩ := window_ok hwindow
    have hle : s.reader.nextRow + batch.numRows ≤ plan.totalRows := by
      have hrows := haccepted.requested
      have hwithin := (requested_from s.reader.scheduler hlt fetched).within
      simp only [BinaryReader.fetch] at hrows
      simp only at hwithin
      omega
    refine ⟨some (s.reader.nextRow + batch.numRows), hwindow ▸ houtcomes, ?_, hrequests, ?_, ?_, ?_⟩
    · rw [entered_snoc, hwindow]
      exact hs.delivered.batch hlt hpos hle
    · simp [BinaryReader.advance, hwindow]
    · simp [BinaryReader.advance, hwindow, hfinished]
    · simpa [BinaryReader.advance, hwindow] using hle
  | error error =>
    refine ⟨none, hwindow ▸ houtcomes, ?_, hrequests, ?_, fun _ => .inl rfl, ?_⟩
    · rw [entered_snoc, hwindow]
      exact hs.delivered.fail hlt
    · simp [BinaryReader.advance, hwindow]
    · simpa [BinaryReader.advance, hwindow] using hs.within

theorem Reading.next_cases (plan : ReadPlan) (s : Reading) (fetched : Fetched) :
    ((s.reader.finished = true ∨ s.reader.nextRow ≥ plan.totalRows) ∧ s.next plan fetched =
      some ⟨{ s.reader with finished := true }, s.fetches, s.outcomes ++ [none]⟩) ∨
    (s.reader.finished = false ∧ s.reader.nextRow < plan.totalRows ∧ s.next plan fetched =
      some ⟨s.reader.advance plan (s.reader.fetch plan fetched),
        s.fetches ++ [s.reader.fetch plan fetched],
        s.outcomes ++ [some (plan.window (s.reader.fetch plan fetched))]⟩) := by
  by_cases hstop : s.reader.finished = true ∨ s.reader.nextRow ≥ plan.totalRows
  · exact .inl ⟨hstop, by rw [Reading.next, if_pos hstop]⟩
  · obtain ⟨hfinished, hlt⟩ := not_or.mp hstop
    exact .inr ⟨by simpa using hfinished, not_le.mp hlt, by rw [Reading.next, if_neg hstop]⟩

structure Reading.After (plan : ReadPlan) (replies : List Fetched) (state : Reading) : Prop where
  sound : ∃ m position, state.Sound plan m position
  calls : state.outcomes.length = replies.length
  fetched : state.fetches.map Fetch.fetched <+: replies

theorem Reading.After.next {replies : List Fetched} {s t : Reading} {fetched : Fetched}
    (hs : s.After plan replies) (h : s.next plan fetched = some t) :
    t.After plan (replies ++ [fetched]) := by
  obtain ⟨m, position, hsound⟩ := hs.sound
  rcases s.next_cases plan fetched with ⟨hstop, hnext⟩ | ⟨hfinished, hlt, hnext⟩
  · obtain rfl := Option.some.inj (hnext.symm.trans h)
    exact ⟨⟨m + 1, position, hsound.stop hstop⟩, by simp [hs.calls],
      hs.fetched.trans (List.prefix_append _ _)⟩
  · obtain rfl := Option.some.inj (hnext.symm.trans h)
    refine ⟨⟨0, hsound.fetch hfinished hlt fetched⟩, by simp [hs.calls], ?_⟩
    have hall : s.fetches.map Fetch.fetched = replies := by
      refine hs.fetched.eq_of_length ?_
      rw [← hs.calls, hsound.outcomes, (hsound.reading hfinished).1]
      simp [answered]
    simp [hall, BinaryReader.fetch]

theorem Reading.Sound.readsExactly {state : Reading} {m : Nat} (h : state.Sound plan m position) :
    ReadsExactly plan state.fetches state.outcomes := by
  have hended : 0 < m →
      position = none ∨ (position = some plan.totalRows ∧ ([] : List Fetch) = []) := by
    intro hm
    cases hfinished : state.reader.finished with
    | true => exact (h.ended hfinished).imp_right fun hposition => ⟨hposition, rfl⟩
    | false => exact absurd (h.reading hfinished).1 (by omega)
  have hrequests : ∀ fetch ∈ state.fetches ++ [], Requested plan fetch := by simpa using h.requests
  have hreads := readsExactly_of_delivered hrequests
    (fun _ _ _ => ⟨window_ok, fun hdecodes => hdecodes.1.window hdecodes.2⟩) h.delivered hended
  rwa [List.append_nil, ← h.outcomes] at hreads

theorem Reading.start_after (scheduler : ReadWindowScheduler) :
    (Reading.start scheduler).After plan [] :=
  ⟨⟨0, some 0, rfl, .nil, by simp [Reading.start], fun _ => ⟨rfl, rfl⟩, by simp [Reading.start],
    Nat.zero_le _⟩, rfl, List.nil_prefix⟩

theorem Reading.exec_next (plan : ReadPlan) (replies : List Fetched) (s : Reading) :
    ∃ t, exec (Reading.next plan) s replies = some t := by
  induction replies generalizing s with
  | nil => exact ⟨s, rfl⟩
  | cons fetched replies ih =>
    rcases s.next_cases plan fetched with ⟨-, hnext⟩ | ⟨-, -, hnext⟩
    · rw [exec, hnext]
      exact ih _
    · rw [exec, hnext]
      exact ih _

theorem binaryReader_reads_exactly (scheduler : ReadWindowScheduler) (replies : List Fetched) :
    ∃ state, exec (Reading.next plan) (Reading.start scheduler) replies = some state ∧
      state.outcomes.length = replies.length ∧ state.fetches.map Fetch.fetched <+: replies ∧
      ReadsExactly plan state.fetches state.outcomes := by
  obtain ⟨state, hstate⟩ := Reading.exec_next plan replies (Reading.start scheduler)
  have hafter : state.After plan replies :=
    exec_history (P := Reading.After plan) (fun _ _ _ _ hs ht => hs.next ht)
      (Reading.start_after scheduler) hstate
  obtain ⟨m, position, hsound⟩ := hafter.sound
  exact ⟨state, hstate, hafter.calls, hafter.fetched, hsound.readsExactly⟩

end Sequential

end MonetdbAdbc
