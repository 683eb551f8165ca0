import MonetdbAdbc.EncodeChunks
import MonetdbAdbc.Library.Transition

namespace MonetdbAdbc.Driver.RetainedUpload
open LittleEndian Calendar Transition

inductive CursorError where
  | fileTransfer (message : String)
  | encode (error : EncodeError)
  | sink
  deriving DecidableEq, Repr

inductive RetainedEncodeMessage where
  | start (index : Nat)
  | chunk (bytes : Bytes)
  | finish (bytes : Nat)
  | error (value : CursorError)
  deriving DecidableEq, Repr

structure Retained where
  schema : List Field
  batches : List (List Column)

section Encoder
variable (dateFromUnixDays : Int → Option Date) (retained : Retained)

def encodeChunkBytes : Nat := 1024 * 1024

def mapChunkedEncodeError : ChunkedEncodeError Empty → CursorError
  | .encode error => .encode error
  | .sink error => error.elim

-- No value: the column index is out of range and the encoder thread panics.
def columnOutput (index : Nat) : Option (List Bytes × Except (ChunkedEncodeError Empty) Nat) := do
  let arrays ← retained.batches.mapM (·[index]?)
  let field ← retained.schema[index]?
  some (encodeColumnChunks dateFromUnixDays field arrays encodeChunkBytes collect [])

def output (index : Nat) : Bytes := (columnOutput dateFromUnixDays retained index).elim [] (·.1.flatten)

def lastMessage : Except (ChunkedEncodeError Empty) Nat → RetainedEncodeMessage
  | .ok bytes => .finish bytes
  | .error value => .error (mapChunkedEncodeError value)

def transcript (index : Nat) : List RetainedEncodeMessage :=
  .start index ::
    match columnOutput dateFromUnixDays retained index with
    | none => []
    | some (chunks, encoded) => chunks.map .chunk ++ [lastMessage encoded]

end Encoder

inductive Encoder where
  | waiting
  | sending (rest : List RetainedEncodeMessage)
  | stopped
  deriving DecidableEq, Repr

-- Each message is marked with the number of the request it answers.
structure Sent where
  request : Nat
  message : RetainedEncodeMessage
  deriving DecidableEq, Repr

inductive Uploader where
  | idle
  | starting (index : Nat)
  | receiving (index : Nat) (written : Bytes) (received : List Sent)
  | closed
  deriving DecidableEq, Repr

structure Upload where
  request : Nat
  index : Nat
  written : Bytes
  received : List Sent
  result : Except CursorError Nat
  deriving DecidableEq

structure State where
  encoder : Encoder
  channel : Option Sent
  uploader : Uploader
  requests : Nat
  largestChunk : Nat
  uploads : List Upload
  deriving DecidableEq

inductive Action where
  | request (index : Nat)
  | requestFails (index : Nat)
  | send
  | receive (sinkFailsAfter : Option Nat)
  | receiveFails
  | close
  | encoderReturns
  deriving DecidableEq, Repr

def State.start : State := ⟨.waiting, none, .idle, 0, 0, []⟩

def Encoder.remaining : Encoder → List RetainedEncodeMessage
  | .sending rest => rest
  | .waiting | .stopped => []

def Encoder.afterSend (message : RetainedEncodeMessage) : List RetainedEncodeMessage → Encoder
  | [] =>
    match message with
    | .finish _ => .waiting
    | _ => .stopped
  | rest => .sending rest

def State.returns (s : State) (index : Nat) (written : Bytes) (received : List Sent)
    (result : Except CursorError Nat) : State :=
  { s with
    uploader := .idle
    uploads := s.uploads ++ [⟨s.requests, index, written, received, result⟩] }

def stopped : CursorError := .fileTransfer "ingest encoder stopped before the upload completed"

def receiveStart (s : State) (index : Nat) (sent : Sent) : State :=
  match sent.message with
  | .start produced =>
    if produced = index then { s with uploader := .receiving index [] [sent] }
    else s.returns index [] [sent] (.error (.fileTransfer ("ingest encoder produced column " ++
      toString produced ++ ", expected " ++ toString index)))
  | .error value => s.returns index [] [sent] (.error value)
  | _ => s.returns index [] [sent]
      (.error (.fileTransfer "ingest encoder produced an out-of-order message"))

def receiveNext (s : State) (index : Nat) (written : Bytes) (received : List Sent) (sent : Sent)
    (sinkFailsAfter : Option Nat) : State :=
  match sent.message with
  | .chunk bytes =>
    let s := { s with largestChunk := max s.largestChunk bytes.length }
    match sinkFailsAfter with
    | none => { s with uploader := .receiving index (written ++ bytes) (received ++ [sent]) }
    | some count => s.returns index (written ++ bytes.take count) (received ++ [sent]) (.error .sink)
  | .finish bytes => s.returns index written (received ++ [sent]) (.ok bytes)
  | .error value => s.returns index written (received ++ [sent]) (.error value)
  | .start produced => s.returns index written (received ++ [sent])
      (.error (.fileTransfer ("ingest encoder started column " ++ toString produced ++
        " before finishing " ++ toString index)))

section Protocol
variable (dateFromUnixDays : Int → Option Date) (retained : Retained)

def step (s : State) : Action → Option State
  | .request index =>
    match s.uploader, s.encoder with
    | .idle, .waiting =>
      some { s with
        encoder := .sending (transcript dateFromUnixDays retained index)
        uploader := .starting index
        requests := s.requests + 1 }
    | _, _ => none
  | .requestFails _ =>
    match s.uploader, s.encoder with
    | .idle, .stopped => some s
    | _, _ => none
  | .send =>
    if s.uploader = .closed then none
    else
      match s.encoder, s.channel with
      | .sending (message :: rest), none =>
        some { s with
          encoder := .afterSend message rest
          channel := some ⟨s.requests, message⟩ }
      | _, _ => none
  | .receive sinkFailsAfter =>
    match s.channel, s.uploader with
    | some sent, .starting index => some (receiveStart { s with channel := none } index sent)
    | some sent, .receiving index written received =>
      some (receiveNext { s with channel := none } index written received sent sinkFailsAfter)
    | _, _ => none
  | .receiveFails =>
    match s.channel, s.encoder, s.uploader with
    | none, .stopped, .starting index => some (s.returns index [] [] (.error stopped))
    | none, .stopped, .receiving index written received =>
      some (s.returns index written received (.error stopped))
    | _, _, _ => none
  | .close =>
    match s.uploader with
    | .idle => some { s with uploader := .closed }
    | _ => none
  | .encoderReturns =>
    match s.uploader with
    | .closed => some { s with encoder := .stopped }
    | _ => none

def State.pending (s : State) : List RetainedEncodeMessage :=
  s.channel.toList.map Sent.message ++ s.encoder.remaining

structure Upload.Sound (upload : Upload) : Prop where
  written_begins : upload.written <+: output dateFromUnixDays retained upload.index
  finished : ∀ bytes, upload.result = .ok bytes →
    ∃ chunks, columnOutput dateFromUnixDays retained upload.index = some (chunks, .ok bytes) ∧
      upload.written = chunks.flatten ∧ bytes = upload.written.length
  leftover : (∀ sent ∈ upload.received, sent.request = upload.request) ∨
    upload.written = [] ∧ ∃ error, upload.result = .error error

-- Where the messages of the current request stand: sent, in the channel, still to be sent.
def Follows (s : State) : Uploader → Prop
  | .idle | .closed => True
  | .starting index =>
    ((∀ sent ∈ s.channel, sent.request = s.requests) ∧
      s.pending = transcript dateFromUnixDays retained index) ∨
    ∃ sent bytes, s.channel = some sent ∧ sent.request < s.requests ∧ sent.message = .finish bytes
  | .receiving index written received =>
    (∀ sent ∈ s.channel, sent.request = s.requests) ∧
    (∀ sent ∈ received, sent.request = s.requests) ∧
    ∃ chunks : List Bytes, transcript dateFromUnixDays retained index =
        .start index :: (chunks.map .chunk ++ s.pending) ∧
      written = chunks.flatten

structure Invariant (s : State) : Prop where
  follows : Follows dateFromUnixDays retained s s.uploader
  waits : s.encoder = .waiting → ∀ sent ∈ s.channel, ∃ bytes, sent.message = .finish bytes
  numbered : ∀ sent ∈ s.channel, sent.request ≤ s.requests
  sound : ∀ upload ∈ s.uploads, upload.Sound dateFromUnixDays retained

variable {dateFromUnixDays : Int → Option Date} {retained : Retained}

section Transcript
variable {index : Nat} {chunks : List Bytes} {rest : List RetainedEncodeMessage}

theorem chunks_split {all : List Bytes} {last : RetainedEncodeMessage}
    (hlast : ∀ bytes, last ≠ .chunk bytes)
    (h : all.map .chunk ++ [last] = chunks.map .chunk ++ rest) :
    ∃ more, all = chunks ++ more ∧ rest = more.map .chunk ++ [last] := by
  induction chunks generalizing all with
  | nil => exact ⟨all, rfl, h.symm⟩
  | cons chunk chunks ih =>
    cases all with
    | nil =>
      obtain ⟨hchunk, -⟩ := List.cons_eq_cons.mp h
      exact absurd hchunk (hlast chunk)
    | cons first all =>
      obtain ⟨hchunk, htail⟩ := List.cons_eq_cons.mp h
      cases hchunk
      obtain ⟨more, rfl, hrest⟩ := ih htail
      exact ⟨more, rfl, hrest⟩

theorem lastMessage_ne_chunk (encoded : Except (ChunkedEncodeError Empty) Nat) (bytes : Bytes) :
    lastMessage encoded ≠ .chunk bytes := by
  cases encoded <;> simp [lastMessage]

theorem transcript_split
    (h : transcript dateFromUnixDays retained index = .start index :: (chunks.map .chunk ++ rest)) :
    (chunks = [] ∧ rest = []) ∨ ∃ more encoded,
      columnOutput dateFromUnixDays retained index = some (chunks ++ more, encoded) ∧
        rest = more.map .chunk ++ [lastMessage encoded] := by
  rw [transcript] at h
  obtain ⟨-, h⟩ := List.cons_eq_cons.mp h
  cases houtput : columnOutput dateFromUnixDays retained index with
  | none =>
    simp only [houtput] at h
    obtain ⟨hchunks, hrest⟩ := List.append_eq_nil_iff.mp h.symm
    exact .inl ⟨List.map_eq_nil_iff.mp hchunks, hrest⟩
  | some produced =>
    obtain ⟨all, encoded⟩ := produced
    simp only [houtput] at h
    obtain ⟨more, rfl, hrest⟩ := chunks_split (lastMessage_ne_chunk encoded) h
    exact .inr ⟨more, encoded, rfl, hrest⟩

theorem output_begins
    (h : transcript dateFromUnixDays retained index = .start index :: (chunks.map .chunk ++ rest)) :
    chunks.flatten <+: output dateFromUnixDays retained index := by
  rcases transcript_split h with ⟨rfl, -⟩ | ⟨more, encoded, houtput, -⟩
  · exact List.nil_prefix
  · rw [output, houtput]
    change chunks.flatten <+: (chunks ++ more).flatten
    rw [List.flatten_append]
    exact List.prefix_append _ _

theorem output_finished {bytes : Nat}
    (h : transcript dateFromUnixDays retained index =
      .start index :: (chunks.map .chunk ++ .finish bytes :: rest)) :
    columnOutput dateFromUnixDays retained index = some (chunks, .ok bytes) := by
  rcases transcript_split h with ⟨-, hrest⟩ | ⟨more, encoded, houtput, hrest⟩
  · cases hrest
  · cases more with
    | cons chunk more =>
      obtain ⟨hchunk, -⟩ := List.cons_eq_cons.mp hrest
      cases hchunk
    | nil =>
      obtain ⟨hlast, -⟩ := List.cons_eq_cons.mp hrest
      cases encoded with
      | error value => cases hlast
      | ok total =>
        cases hlast
        rw [houtput, List.append_nil]

theorem finished_length {total : Nat}
    (h : columnOutput dateFromUnixDays retained index = some (chunks, .ok total)) :
    total = chunks.flatten.length := by
  simp only [columnOutput, Option.bind_eq_bind, Option.bind_eq_some_iff, Option.some.injEq] at h
  obtain ⟨arrays, -, field, -, hchunks⟩ := h
  exact encodeColumnChunks_total dateFromUnixDays hchunks

end Transcript

theorem Upload.Sound.failed {request index : Nat} {written : Bytes} {received : List Sent}
    {error : CursorError} (hbegins : written <+: output dateFromUnixDays retained index)
    (hleftover : (∀ sent ∈ received, sent.request = request) ∨ written = []) :
    Upload.Sound dateFromUnixDays retained ⟨request, index, written, received, .error error⟩ where
  written_begins := hbegins
  finished bytes hok := by cases hok
  leftover := hleftover.imp_right fun hnone => ⟨hnone, error, rfl⟩

namespace Invariant
variable {s t : State} {index : Nat} {written : Bytes} {received : List Sent}

theorem returned (h : Invariant dateFromUnixDays retained s) {result : Except CursorError Nat}
    (hsound : Upload.Sound dateFromUnixDays retained
      ⟨s.requests, index, written, received, result⟩) :
    Invariant dateFromUnixDays retained (s.returns index written received result) := by
  refine ⟨trivial, h.waits, h.numbered, fun upload hupload => ?_⟩
  rcases List.mem_append.mp hupload with hupload | hupload
  · exact h.sound upload hupload
  · rw [List.mem_singleton.mp hupload]
    exact hsound

theorem emptied (h : Invariant dateFromUnixDays retained s) (uploader : Uploader)
    (hfollows : Follows dateFromUnixDays retained { s with channel := none, uploader := uploader }
      uploader) :
    Invariant dateFromUnixDays retained { s with channel := none, uploader := uploader } :=
  ⟨hfollows, fun _ _ hsent => (Option.not_mem_none _ hsent).elim,
    fun _ hsent => (Option.not_mem_none _ hsent).elim, h.sound⟩

theorem requested (h : Invariant dateFromUnixDays retained s) (hwaiting : s.encoder = .waiting)
    (index : Nat) :
    Invariant dateFromUnixDays retained
      { s with
        encoder := .sending (transcript dateFromUnixDays retained index)
        uploader := .starting index
        requests := s.requests + 1 } := by
  refine ⟨?_, fun hencoder => (by cases hencoder), fun sent hsent => ?_, h.sound⟩
  · cases hchannel : s.channel with
    | none => exact .inl ⟨by simp, rfl⟩
    | some sent =>
      obtain ⟨bytes, hfinish⟩ := h.waits hwaiting sent hchannel
      exact .inr ⟨sent, bytes, rfl, Nat.lt_succ_of_le (h.numbered sent hchannel), hfinish⟩
  · exact (h.numbered sent hsent).trans (Nat.le_succ _)

theorem remaining_afterSend (message : RetainedEncodeMessage) (rest : List RetainedEncodeMessage) :
    (Encoder.afterSend message rest).remaining = rest := by
  cases rest with
  | nil => cases message <;> rfl
  | cons next rest => rfl

theorem sent (h : Invariant dateFromUnixDays retained s) {message : RetainedEncodeMessage}
    {rest : List RetainedEncodeMessage} (hencoder : s.encoder = .sending (message :: rest))
    (hchannel : s.channel = none) :
    Invariant dateFromUnixDays retained
      { s with encoder := .afterSend message rest, channel := some ⟨s.requests, message⟩ } := by
  have hpending : State.pending
      { s with encoder := .afterSend message rest, channel := some ⟨s.requests, message⟩ } =
        s.pending := by
    simp only [State.pending, remaining_afterSend, hencoder, hchannel]
    rfl
  have hown : ∀ other ∈ some (⟨s.requests, message⟩ : Sent), other.request = s.requests := by
    intro other hother
    rw [← Option.mem_some.mp hother]
  refine ⟨?_, ?_, fun other hother => (hown other hother).le, h.sound⟩
  · have hfollows := h.follows
    cases huploader : s.uploader with
    | idle | closed => trivial
    | starting index =>
      rw [huploader] at hfollows
      rcases hfollows with ⟨-, htranscript⟩ | ⟨other, bytes, hother, -⟩
      · exact .inl ⟨hown, hpending.trans htranscript⟩
      · rw [hchannel] at hother
        cases hother
    | receiving index written received =>
      rw [huploader] at hfollows
      obtain ⟨-, hreceived, chunks, htranscript, hwritten⟩ := hfollows
      exact ⟨hown, hreceived, chunks, by rw [htranscript, ← hpending, huploader], hwritten⟩
  · intro hwaiting other hother
    rw [← Option.mem_some.mp hother]
    cases rest with
    | cons next rest => cases hwaiting
    | nil =>
      cases message with
      | finish bytes => exact ⟨bytes, rfl⟩
      | start index | chunk bytes | error value => cases hwaiting

theorem receivedStart (h : Invariant dateFromUnixDays retained s) {sent : Sent}
    (hchannel : s.channel = some sent) (huploader : s.uploader = .starting index) :
    Invariant dateFromUnixDays retained (receiveStart { s with channel := none } index sent) := by
  have hempty : Invariant dateFromUnixDays retained { s with channel := none, uploader := .idle } :=
    h.emptied .idle trivial
  have hfollows := h.follows
  rw [huploader] at hfollows
  rcases hfollows with ⟨hown, htranscript⟩ | ⟨other, bytes, hother, -, hfinish⟩
  · have hmessages : sent.message :: s.encoder.remaining = transcript dateFromUnixDays retained index := by
      rw [← htranscript, State.pending, hchannel]
      rfl
    obtain ⟨hstart, hrest⟩ := List.cons_eq_cons.mp hmessages
    have hreceiving : receiveStart { s with channel := none } index sent =
        { s with channel := none, uploader := .receiving index [] [sent] } := by
      rw [receiveStart, hstart]
      exact if_pos rfl
    rw [hreceiving]
    refine h.emptied _ ⟨by simp, ?_, [], ?_, rfl⟩
    · intro received hreceived
      rw [List.mem_singleton.mp hreceived]
      exact hown sent hchannel
    · rw [← hmessages, hstart]
      rfl
  · rw [hchannel] at hother
    cases hother
    rw [receiveStart, hfinish]
    exact hempty.returned (.failed List.nil_prefix (.inr rfl))

theorem receivedNext (h : Invariant dateFromUnixDays retained s) {sent : Sent}
    (hchannel : s.channel = some sent)
    (huploader : s.uploader = .receiving index written received) (sinkFailsAfter : Option Nat) :
    Invariant dateFromUnixDays retained
      (receiveNext { s with channel := none } index written received sent sinkFailsAfter) := by
  have hempty : Invariant dateFromUnixDays retained
      { s with channel := none, uploader := .idle } := h.emptied .idle trivial
  have hfollows := h.follows
  rw [huploader] at hfollows
  obtain ⟨hown, hreceived, chunks, htranscript, rfl⟩ := hfollows
  have hpending : s.pending = sent.message :: s.encoder.remaining := by
    rw [State.pending, hchannel]
    rfl
  rw [hpending] at htranscript
  have hall : ∀ other ∈ received ++ [sent], other.request = s.requests := by
    intro other hother
    rcases List.mem_append.mp hother with hother | hother
    · exact hreceived other hother
    · rw [List.mem_singleton.mp hother]
      exact hown sent hchannel
  cases hmessage : sent.message with
  | chunk bytes =>
    rw [hmessage] at htranscript
    have hnext : transcript dateFromUnixDays retained index =
        .start index :: ((chunks ++ [bytes]).map .chunk ++ s.encoder.remaining) := by
      rw [htranscript]
      simp
    rw [receiveNext, hmessage]
    cases sinkFailsAfter with
    | none =>
      have hgrown : Invariant dateFromUnixDays retained
          { s with
            channel := none
            uploader := .receiving index (chunks.flatten ++ bytes) (received ++ [sent]) } :=
        h.emptied _ ⟨by simp, hall, chunks ++ [bytes], hnext, by simp⟩
      exact ⟨hgrown.follows, hgrown.waits, hgrown.numbered, hgrown.sound⟩
    | some count =>
      have hwritten : chunks.flatten ++ bytes.take count <+: output dateFromUnixDays retained index := by
        refine List.IsPrefix.trans ?_ (output_begins hnext)
        rw [List.flatten_append, List.flatten_singleton]
        exact (List.prefix_append_right_inj _).mpr (List.take_prefix _ _)
      have hsound : Upload.Sound dateFromUnixDays retained
          ⟨s.requests, index, chunks.flatten ++ bytes.take count, received ++ [sent], .error .sink⟩ :=
        .failed hwritten (.inl hall)
      have hfailed := hempty.returned hsound
      exact ⟨hfailed.follows, hfailed.waits, hfailed.numbered, hfailed.sound⟩
  | finish bytes =>
    rw [hmessage] at htranscript
    have houtput := output_finished htranscript
    rw [receiveNext, hmessage]
    refine hempty.returned ⟨output_begins htranscript, fun total hok => ?_, .inl hall⟩
    cases hok
    exact ⟨chunks, houtput, rfl, finished_length houtput⟩
  | error value | start produced =>
    rw [receiveNext, hmessage]
    exact hempty.returned (.failed (output_begins htranscript) (.inl hall))

theorem disconnected (h : Invariant dateFromUnixDays retained s)
    (huploader : s.uploader = .receiving index written received) :
    Invariant dateFromUnixDays retained (s.returns index written received (.error stopped)) := by
  have hfollows := h.follows
  rw [huploader] at hfollows
  obtain ⟨-, hreceived, chunks, htranscript, rfl⟩ := hfollows
  exact h.returned (.failed (output_begins htranscript) (.inl hreceived))

theorem step {action : Action} (h : Invariant dateFromUnixDays retained s)
    (hstep : step dateFromUnixDays retained s action = some t) :
    Invariant dateFromUnixDays retained t := by
  cases action with
  | request index =>
    simp only [RetainedUpload.step] at hstep
    split at hstep
    case h_1 hidle hwaiting =>
      cases hstep
      exact h.requested hwaiting index
    case h_2 => cases hstep
  | requestFails index =>
    simp only [RetainedUpload.step] at hstep
    split at hstep
    case h_1 =>
      cases hstep
      exact h
    case h_2 => cases hstep
  | send =>
    simp only [RetainedUpload.step] at hstep
    split_ifs at hstep
    split at hstep
    case h_1 message rest hencoder hchannel =>
      cases hstep
      exact h.sent hencoder hchannel
    case h_2 => cases hstep
  | receive sinkFailsAfter =>
    simp only [RetainedUpload.step] at hstep
    split at hstep
    case h_1 sent index hchannel huploader =>
      cases hstep
      exact h.receivedStart hchannel huploader
    case h_2 sent index written received hchannel huploader =>
      cases hstep
      exact h.receivedNext hchannel huploader sinkFailsAfter
    case h_3 => cases hstep
  | receiveFails =>
    simp only [RetainedUpload.step] at hstep
    split at hstep
    case h_1 =>
      cases hstep
      exact h.returned (.failed List.nil_prefix (.inr rfl))
    case h_2 index written received hchannel hencoder huploader =>
      cases hstep
      exact h.disconnected huploader
    case h_3 => cases hstep
  | close =>
    simp only [RetainedUpload.step] at hstep
    split at hstep
    case h_1 =>
      cases hstep
      exact ⟨trivial, h.waits, h.numbered, h.sound⟩
    case h_2 => cases hstep
  | encoderReturns =>
    simp only [RetainedUpload.step] at hstep
    split at hstep
    case h_1 hclosed =>
      cases hstep
      refine ⟨?_, fun hwaiting => (by cases hwaiting), h.numbered, h.sound⟩
      rw [hclosed]
      trivial
    case h_2 => cases hstep

end Invariant

theorem retained_upload_never_mixes_columns (actions : List Action) (s : State)
    (hrun : exec (step dateFromUnixDays retained) .start actions = some s) :
    (∀ upload ∈ s.uploads, upload.Sound dateFromUnixDays retained) ∧
      ∀ index written received, s.uploader = .receiving index written received →
        written <+: output dateFromUnixDays retained index ∧
          ∀ sent ∈ received, sent.request = s.requests := by
  have hstart : Invariant dateFromUnixDays retained .start :=
    ⟨trivial, by simp [State.start], by simp [State.start], by simp [State.start]⟩
  have h : Invariant dateFromUnixDays retained s :=
    exec_invariant (fun _ _ _ h hstep => h.step hstep) hstart hrun
  refine ⟨h.sound, fun index written received huploader => ?_⟩
  have hfollows := h.follows
  rw [huploader] at hfollows
  obtain ⟨-, hreceived, chunks, htranscript, rfl⟩ := hfollows
  exact ⟨output_begins htranscript, hreceived⟩

end Protocol

def flags : Retained := ⟨[⟨"flag", .boolean, true, none⟩], [[.boolean [some true, none]]]⟩

-- The sink fails on the first column; the second upload meets the finish message it left.
def sinkFails : List Action :=
  [.request 0, .send, .receive none, .send, .receive (some 1), .send, .request 0, .receive none]

def sinkFailed : State where
  encoder := .sending [.start 0, .chunk [1, 0x80], .finish 2]
  channel := none
  uploader := .idle
  requests := 2
  largestChunk := 2
  uploads :=
    [⟨1, 0, [1], [⟨1, .start 0⟩, ⟨1, .chunk [1, 0x80]⟩], .error .sink⟩,
      ⟨2, 0, [], [⟨1, .finish 2⟩],
        .error (.fileTransfer "ingest encoder produced an out-of-order message")⟩]

theorem leftover_finish_is_reported :
    exec (step (fun _ => none) flags) .start sinkFails = some sinkFailed ∧
      ∀ upload ∈ sinkFailed.uploads, upload.Sound (fun _ => none) flags := by
  have hrun : exec (step (fun _ => none) flags) .start sinkFails = some sinkFailed := by decide
  exact ⟨hrun, (retained_upload_never_mixes_columns sinkFails sinkFailed hrun).1⟩

end MonetdbAdbc.Driver.RetainedUpload
