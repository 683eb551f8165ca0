import MonetdbAdbc.Driver.BoundStream

namespace MonetdbAdbc.Driver
open LittleEndian Machine
variable {σ : Type} {c : Connection σ} {stream : BatchedStream}
  {result : Except AdbcError BoundQuery}

inductive ArrowError where
  | external (error : AdbcError)
  | schema (message : String)
  | parse (message : String)
  deriving DecidableEq, Repr

inductive Polled (β : Type) where
  | item (result : Except ArrowError β)
  | panicked

inductive Executed (β : Type) where
  | opened (schema : List Field) (results : List (Polled β))
  | failed (error : AdbcError)
  | panicked

structure ParameterQueryReader (β : Type) where
  queries : BatchedStream
  current : Option (List (Polled β))
  schema : List Field
  finished : Bool
  pulls : Nat
  executions : Nat

structure Surroundings (σ β : Type) where
  connection : Nat → Connection σ
  execute : Nat → BoundQuery → Executed β

theorem BoundQueryStream.next_size {stream t : BoundQueryStream}
    (h : stream.next c = (some result, t)) : t.size < stream.size := by
  rcases stream with ⟨items, prepared, fallback, pending⟩
  rcases pending with _ | ⟨query, pending⟩
  · rcases items with _ | ⟨row | error, items⟩
    · simp [BoundQueryStream.next] at h
    · obtain rfl := (Prod.mk.inj h).2
      simp [BoundQueryStream.size]
    · obtain rfl := (Prod.mk.inj h).2
      simp [BoundQueryStream.size]
  · obtain rfl := (Prod.mk.inj h).2
    simp [BoundQueryStream.size]

theorem BatchedStream.next_size {t : BatchedStream} (h : stream.next c = (some result, t)) :
    t.flat.size < stream.flat.size := by
  have hflat : stream.flat.next c = (some result, t.flat) := by
    rw [← BatchedStream.next_flat, h]
    rfl
  exact BoundQueryStream.next_size hflat

inductive Due where
  | rendered (query : BoundQuery)
  | unread (item : StreamItem)

def Due.render {σ : Type} (form : BatchedStream.Rendering) (c : Connection σ) :
    Due → Except AdbcError BoundQuery
  | .rendered query => .ok query
  | .unread (.row row) => form.render c row
  | .unread (.failure error) => .error error

def Due.left (later : List Due) : Due → List Due
  | .unread (.failure _) => []
  | _ => later

theorem Due.left_of_render {form : BatchedStream.Rendering} {due : Due} {query : BoundQuery}
    (h : due.render form c = .ok query) (later : List Due) : due.left later = later := by
  rcases due with query | row | error
  · rfl
  · rfl
  · cases h

def BatchedStream.due (stream : BatchedStream) : List Due :=
  stream.flat.pending.map .rendered ++ stream.flat.items.map .unread

theorem BatchedStream.next_of_flat {items : List StreamItem} {pending : List BoundQuery}
    {result : Option (Except AdbcError BoundQuery)} (h : stream.flat.next c =
      (result, ⟨items, stream.prepared, stream.literalFallback, pending⟩)) :
    ∃ t, stream.next c = (result, t) ∧ t.due = pending.map .rendered ++ items.map .unread ∧
      t.rendering = stream.rendering := by
  rw [← BatchedStream.next_flat] at h
  have hflat : (stream.next c).2.flat = _ := congrArg Prod.snd h
  have hresult : (stream.next c).1 = result := congrArg Prod.fst h
  refine ⟨_, Prod.ext hresult rfl, ?_, ?_⟩
  · rw [due, hflat]
  · have hprepared := congrArg BoundQueryStream.prepared hflat
    have hfallback := congrArg BoundQueryStream.literalFallback hflat
    exact congrArg₂ Rendering.mk hprepared hfallback

theorem BatchedStream.next_due (c : Connection σ) {due : Due} {later : List Due}
    (h : stream.due = due :: later) :
    ∃ t, stream.next c = (some (due.render stream.rendering c), t) ∧ t.due = due.left later ∧
      t.rendering = stream.rendering := by
  have hflat : stream.flat =
      ⟨stream.flat.items, stream.prepared, stream.literalFallback, stream.flat.pending⟩ := rfl
  rw [BatchedStream.due] at h
  cases hpending : stream.flat.pending with
  | cons query pending =>
    rw [hpending] at h hflat
    obtain ⟨rfl, rfl⟩ := List.cons.inj h
    exact next_of_flat (by rw [hflat]; rfl)
  | nil =>
    rw [hpending] at h hflat
    cases hitems : stream.flat.items with
    | nil =>
      rw [hitems] at h
      cases h
    | cons item items =>
      rw [hitems] at h hflat
      obtain ⟨rfl, rfl⟩ := List.cons.inj h
      cases item with
      | row row =>
        have hnext : stream.flat.next c = (some (stream.rendering.render c row),
            ⟨items, stream.prepared, stream.literalFallback, []⟩) := by
          rw [hflat]
          rfl
        exact next_of_flat hnext
      | failure error =>
        have hnext : stream.flat.next c = (some (.error error),
            ⟨[], stream.prepared, stream.literalFallback, []⟩) := by
          rw [hflat]
          rfl
        exact next_of_flat hnext

theorem BatchedStream.next_done (c : Connection σ) (h : stream.due = []) :
    ∃ t, stream.next c = (none, t) ∧ t.due = [] ∧ t.rendering = stream.rendering := by
  obtain ⟨hpending, hitems⟩ := List.append_eq_nil_iff.mp h
  have hflat : stream.flat = ⟨[], stream.prepared, stream.literalFallback, []⟩ := by
    rw [← List.map_eq_nil_iff.mp hpending, ← List.map_eq_nil_iff.mp hitems]
    rfl
  have hnext : stream.flat.next c =
      (none, ⟨[], stream.prepared, stream.literalFallback, []⟩) := by
    rw [hflat]
    rfl
  exact next_of_flat hnext

namespace ParameterQueryReader
variable {σ β : Type}

def schemaMismatch : ArrowError := .schema "parameterized query schema changed between rows"

def decodingPanicked : ArrowError := .parse "MonetDB parameter result decoding panicked"

inductive Turn (β : Type) where
  | leave (outcome : Option (Polled β)) (reader : ParameterQueryReader β)
  | again (reader : ParameterQueryReader β)

def fail (s : ParameterQueryReader β) (error : ArrowError) : Turn β :=
  .leave (some (.item (.error error))) s

section Body
variable (around : Surroundings σ β)

def start (s : ParameterQueryReader β) (query : BoundQuery) : Turn β :=
  let t : ParameterQueryReader β := { s with executions := s.executions + 1 }
  match around.execute s.executions query with
  | .panicked => .leave (some .panicked) t
  | .failed value => t.fail (.external value)
  | .opened schema results =>
    if schema = s.schema then .again { t with current := some results }
    else t.fail schemaMismatch

def resume (s : ParameterQueryReader β) : Option (Except AdbcError BoundQuery) → Turn β
  | none => .leave none s
  | some (.error value) => s.fail (.external value)
  | some (.ok query) => s.start around query

def advance (s : ParameterQueryReader β) (queries : BatchedStream) : ParameterQueryReader β :=
  { s with current := none, queries := queries, pulls := s.pulls + 1 }

def turn (s : ParameterQueryReader β) : Turn β :=
  match s.current.getD [] with
  | polled :: results => .leave (some polled) { s with current := some results }
  | [] =>
    let (query, queries) := s.queries.next (around.connection s.pulls)
    (s.advance queries).resume around query

end Body

theorem start_again {around : Surroundings σ β} {s t : ParameterQueryReader β} {query : BoundQuery}
    (h : s.start around query = .again t) : t.queries = s.queries := by
  rw [start] at h
  split at h
  · cases h
  · cases h
  · split_ifs at h
    · obtain rfl := Turn.again.inj h
      rfl
    · cases h

theorem turn_again {around : Surroundings σ β} {s t : ParameterQueryReader β} (h : s.turn around = .again t) :
    t.queries.flat.size < s.queries.flat.size := by
  rw [turn] at h
  split at h
  · cases h
  · cases hnext : s.queries.next (around.connection s.pulls) with
    | mk query queries =>
      rw [hnext] at h
      rcases query with _ | value | query
      · cases h
      · cases h
      · rw [start_again h]
        exact BatchedStream.next_size hnext

variable (around : Surroundings σ β)

def poll (s : ParameterQueryReader β) : Option (Polled β) × ParameterQueryReader β :=
  match _h : s.turn around with
  | .leave outcome t => (outcome, t)
  | .again t => poll t
termination_by s.queries.flat.size
decreasing_by exact turn_again _h

def nextInner (s : ParameterQueryReader β) : Option (Polled β) × ParameterQueryReader β :=
  if s.finished then (none, s) else s.poll around

def next (s : ParameterQueryReader β) : Option (Except ArrowError β) × ParameterQueryReader β :=
  match s.nextInner around with
  | (none, s) => (none, s)
  | (some (.item result), s) => (some result, s)
  | (some .panicked, s) => (some (.error decodingPanicked), { s with finished := true })

end ParameterQueryReader

section Stopping
variable {σ β : Type} (around : Surroundings σ β)

def ParameterQueryReader.after (s : ParameterQueryReader β) : Nat → ParameterQueryReader β
  | 0 => s
  | n + 1 => ((s.after n).next around).2

def ParameterQueryReader.outcome (s : ParameterQueryReader β) (n : Nat) :
    Option (Except ArrowError β) :=
  ((s.after around n).next around).1

def StopsAtFailure (s : ParameterQueryReader β) : Prop :=
  ∀ i error, s.outcome around i = some (.error error) → ∀ j, i < j →
    s.outcome around j = none ∧
      (s.after around (j + 1)).executions = (s.after around (i + 1)).executions

def EndsQuietly (last more : Prop) : List (Polled β) → Prop
  | [] => more
  | .panicked :: _ => True
  | .item (.error _) :: results => results = [] ∧ last
  | .item (.ok _) :: results => EndsQuietly last more results

-- Read off what is still bound: nothing comes after the first row that fails.
def FailsLast (form : BatchedStream.Rendering) (schema : List Field) :
    Nat → Nat → List Due → Prop
  | _, _, [] => True
  | pulls, executions, due :: later =>
    match due.render form (around.connection pulls) with
    | .error _ => due.left later = []
    | .ok query =>
      match around.execute executions query with
      | .panicked => True
      | .failed _ => later = []
      | .opened found results =>
        if found = schema then
          EndsQuietly (later = []) (FailsLast form schema (pulls + 1) (executions + 1) later) results
        else later = []

end Stopping

section Steps
variable {σ β : Type} {around : Surroundings σ β} {form : BatchedStream.Rendering}
  {schema : List Field} {s : ParameterQueryReader β} {executions : Nat}

open ParameterQueryReader

structure Stands (form : BatchedStream.Rendering) (schema : List Field)
    (s : ParameterQueryReader β) (results : List (Polled β)) (pulls executions : Nat)
    (due : List Due) : Prop where
  unfinished : s.finished = false
  schema : s.schema = schema
  pulls : s.pulls = pulls
  executions : s.executions = executions
  current : s.current.getD [] = results
  rendering : s.queries.rendering = form
  due : s.queries.due = due

theorem poll_leave {outcome : Option (Polled β)} {t : ParameterQueryReader β}
    (h : s.turn around = .leave outcome t) : s.poll around = (outcome, t) := by
  rw [poll]
  split
  · rename_i heq
    rw [h] at heq
    obtain ⟨rfl, rfl⟩ := Turn.leave.inj heq
    rfl
  · rename_i heq
    rw [h] at heq
    cases heq

theorem poll_again {t : ParameterQueryReader β} (h : s.turn around = .again t) :
    s.poll around = t.poll around := by
  rw [poll]
  split
  · rename_i heq
    rw [h] at heq
    cases heq
  · rename_i heq
    rw [h] at heq
    obtain rfl := Turn.again.inj heq
    rfl

theorem turn_result (around : Surroundings σ β) {polled : Polled β} {results : List (Polled β)}
    {pulls : Nat} {due : List Due}
    (h : Stands form schema s (polled :: results) pulls executions due) :
    ∃ t, s.turn around = .leave (some polled) t ∧
      Stands form schema t results pulls executions due := by
  refine ⟨_, by rw [turn, h.current], ?_⟩
  exact ⟨h.unfinished, h.schema, h.pulls, h.executions, rfl, h.rendering, h.due⟩

theorem turn_done (around : Surroundings σ β) {pulls : Nat}
    (h : Stands form schema s [] pulls executions []) :
    ∃ t, s.turn around = .leave none t ∧ Stands form schema t [] (pulls + 1) executions [] := by
  obtain ⟨queries, hnext, hdue, hrendering⟩ :=
    BatchedStream.next_done (around.connection pulls) h.due
  refine ⟨s.advance queries, ?_, h.unfinished, h.schema, congrArg (· + 1) h.pulls, h.executions,
    rfl, hrendering.trans h.rendering, hdue⟩
  simp only [turn, h.current, h.pulls, hnext, resume]

theorem turn_due (around : Surroundings σ β) {pulls : Nat} {due : Due} {later : List Due}
    (h : Stands form schema s [] pulls executions (due :: later)) :
    ∃ t, s.turn around = t.resume around (some (due.render form (around.connection pulls))) ∧
      Stands form schema t [] (pulls + 1) executions (due.left later) := by
  obtain ⟨queries, hnext, hdue, hrendering⟩ :=
    BatchedStream.next_due (around.connection pulls) h.due
  rw [h.rendering] at hnext
  refine ⟨s.advance queries, ?_, h.unfinished, h.schema, congrArg (· + 1) h.pulls, h.executions,
    rfl, hrendering.trans h.rendering, hdue⟩
  simp only [turn, h.current, h.pulls, hnext]

end Steps

section Outcomes
variable {σ β : Type} {around : Surroundings σ β} {form : BatchedStream.Rendering}
  {schema : List Field} {s t : ParameterQueryReader β} {pulls executions : Nat}
  {results : List (Polled β)} {due : List Due} {error : ArrowError}

open ParameterQueryReader

def settle : Option (Polled β) × ParameterQueryReader β →
    Option (Except ArrowError β) × ParameterQueryReader β
  | (none, s) => (none, s)
  | (some (.item result), s) => (some result, s)
  | (some .panicked, s) => (some (.error decodingPanicked), { s with finished := true })

theorem next_eq_settle (around : Surroundings σ β) (h : s.finished = false) : s.next around = settle (s.poll around) := by
  rw [ParameterQueryReader.next, nextInner, h, if_neg Bool.false_ne_true]
  rcases s.poll around with ⟨_ | result | _, t⟩ <;> rfl

theorem after_succ (s : ParameterQueryReader β) (n : Nat) :
    s.after around (n + 1) = ((s.next around).2).after around n := by
  induction n with
  | zero => rfl
  | succ n ih => rw [after, ih, after]

theorem outcome_succ (s : ParameterQueryReader β) (n : Nat) :
    s.outcome around (n + 1) = ((s.next around).2).outcome around n := by
  rw [outcome, outcome, after_succ]

def Silent (around : Surroundings σ β) (s : ParameterQueryReader β) : Prop :=
  ∀ n, s.outcome around n = none ∧ (s.after around (n + 1)).executions = s.executions

theorem stopsAtFailure_iff (s : ParameterQueryReader β) :
    StopsAtFailure around s ↔
      (∀ error, (s.next around).1 = some (.error error) → Silent around (s.next around).2) ∧
        StopsAtFailure around (s.next around).2 := by
  constructor
  · intro h
    refine ⟨fun error herror n => ?_, fun i error herror j hij => ?_⟩
    · have hlater := h 0 error herror (n + 1) (Nat.succ_pos n)
      rwa [outcome_succ, after_succ] at hlater
    · have hlater := h (i + 1) error (by rwa [outcome_succ]) (j + 1) (Nat.succ_lt_succ hij)
      rwa [outcome_succ, after_succ, after_succ s (i + 1)] at hlater
  · rintro ⟨hfirst, hrest⟩ i error herror j hij
    cases j with
    | zero => omega
    | succ j =>
      rw [outcome_succ, after_succ]
      cases i with
      | zero => exact hfirst error herror j
      | succ i =>
        rw [outcome_succ] at herror
        rw [after_succ s (i + 1)]
        exact hrest i error herror j (Nat.lt_of_succ_lt_succ hij)

theorem Silent.stopsAtFailure (h : Silent around s) : StopsAtFailure around s := by
  intro i error herror
  rw [(h i).1] at herror
  cases herror

def Dead (form : BatchedStream.Rendering) (schema : List Field) (s : ParameterQueryReader β) :
    Prop :=
  s.finished = true ∨ ∃ pulls, Stands form schema s [] pulls s.executions []

theorem Dead.next (around : Surroundings σ β) (h : Dead form schema s) :
    (s.next around).1 = none ∧ Dead form schema (s.next around).2 ∧
      (s.next around).2.executions = s.executions := by
  rcases h with hfinished | ⟨pulls, h⟩
  · rw [ParameterQueryReader.next, nextInner, if_pos hfinished]
    exact ⟨rfl, .inl hfinished, rfl⟩
  · obtain ⟨t, hturn, ht⟩ := turn_done around h
    rw [next_eq_settle around h.unfinished, poll_leave hturn]
    refine ⟨rfl, .inr ⟨pulls + 1, ?_⟩, ht.executions⟩
    simp only [settle]
    rw [ht.executions]
    exact ht

theorem Dead.silent (h : Dead form schema s) : Silent around s := by
  intro n
  induction n generalizing s with
  | zero =>
    obtain ⟨hnone, -, hexecutions⟩ := h.next around
    exact ⟨hnone, hexecutions⟩
  | succ n ih =>
    obtain ⟨-, hdead, hexecutions⟩ := h.next around
    rw [outcome_succ, after_succ, ← hexecutions]
    exact ih hdead

def ParameterQueryReader.Turn.reader : Turn β → ParameterQueryReader β
  | .leave _ s => s
  | .again s => s

theorem start_executions (around : Surroundings σ β) (s : ParameterQueryReader β) (query : BoundQuery) :
    (s.start around query).reader.executions = s.executions + 1 := by
  rw [start]
  split
  · rfl
  · rfl
  · split_ifs <;> rfl

theorem turn_executions (around : Surroundings σ β) (s : ParameterQueryReader β) :
    s.executions ≤ (s.turn around).reader.executions := by
  rw [turn]
  split
  · exact le_rfl
  · rcases s.queries.next (around.connection s.pulls) with ⟨_ | value | query, queries⟩
    · exact le_rfl
    · exact le_rfl
    · exact (Nat.le_succ _).trans_eq (start_executions around (s.advance queries) query).symm

theorem poll_executions (s : ParameterQueryReader β) :
    s.executions ≤ (s.poll around).2.executions := by
  induction hsize : s.queries.flat.size using Nat.strong_induction_on generalizing s with
  | h size ih =>
    have hturn := turn_executions around s
    cases h : s.turn around with
    | leave outcome t =>
      rw [h] at hturn
      rw [poll_leave h]
      exact hturn
    | again t =>
      rw [h] at hturn
      rw [poll_again h]
      exact hturn.trans (ih _ (hsize ▸ turn_again h) t rfl)

theorem settle_executions (x : Option (Polled β) × ParameterQueryReader β) :
    (settle x).2.executions = x.2.executions := by
  rcases x with ⟨_ | result | _, t⟩ <;> rfl

theorem executed_next {query : BoundQuery} (hfinished : s.finished = false)
    (h : s.turn around = t.start around query) :
    t.executions < (s.next around).2.executions := by
  have hstart := start_executions around t query
  rw [next_eq_settle around hfinished, settle_executions]
  cases hturn : s.turn around with
  | leave outcome u =>
    rw [← h, hturn] at hstart
    rw [poll_leave hturn]
    exact Nat.lt_of_succ_le hstart.ge
  | again u =>
    rw [← h, hturn] at hstart
    rw [poll_again hturn]
    exact Nat.lt_of_lt_of_le (Nat.lt_of_succ_le hstart.ge) (poll_executions u)

theorem next_fail (hfinished : s.finished = false) (h : s.turn around = t.fail error) :
    s.next around = (some (.error error), t) := by
  rw [next_eq_settle around hfinished, poll_leave h]
  rfl

theorem next_of_again (hs : s.finished = false) (h : s.turn around = .again t)
    (ht : t.finished = false) : s.next around = t.next around := by
  rw [next_eq_settle around hs, next_eq_settle around ht, poll_again h]

theorem outcomes_after_fail {u v : ParameterQueryReader β} {result : Except ArrowError β}
    (hs : s.finished = false) (hfail : s.turn around = t.fail error) (ht : t.finished = false)
    (hagain : t.turn around = .again u) (hu : u.finished = false)
    (hleave : u.turn around = .leave (some (.item result)) v) :
    s.outcome around 0 = some (.error error) ∧ s.outcome around 1 = some result := by
  refine ⟨congrArg Prod.fst (next_fail hs hfail), ?_⟩
  rw [outcome_succ, next_fail hs hfail, outcome, after, next_of_again ht hagain hu,
    next_eq_settle around hu, poll_leave hleave]
  rfl

theorem silent_iff (h : Stands form schema s results pulls executions due) :
    Silent around s ↔ results = [] ∧ due = [] := by
  constructor
  · intro hsilent
    obtain ⟨hnone, hexecutions⟩ := hsilent 0
    cases results with
    | cons polled results =>
      obtain ⟨t, hturn, -⟩ := turn_result around h
      rw [outcome, after, next_eq_settle around h.unfinished, poll_leave hturn] at hnone
      cases polled with
      | item result | panicked => cases hnone
    | nil =>
      refine ⟨rfl, ?_⟩
      cases due with
      | nil => rfl
      | cons due later =>
        obtain ⟨t, hturn, ht⟩ := turn_due around h
        cases hrender : due.render form (around.connection pulls) with
        | error value =>
          rw [hrender] at hturn
          rw [outcome, after, next_fail h.unfinished hturn] at hnone
          cases hnone
        | ok query =>
          rw [hrender] at hturn
          have hexecuted := executed_next h.unfinished hturn
          rw [ht.executions, ← h.executions, ← hexecutions] at hexecuted
          exact absurd hexecuted (Nat.lt_irrefl _)
  · rintro ⟨rfl, rfl⟩
    exact Dead.silent (.inr ⟨pulls, h.executions.symm ▸ h⟩)

theorem stops_after_fail (hnext : s.next around = (some (.error error), t))
    (ht : Stands form schema t results pulls executions due) :
    StopsAtFailure around s ↔ results = [] ∧ due = [] := by
  rw [stopsAtFailure_iff, hnext, ← silent_iff ht]
  constructor
  · rintro ⟨hsilent, -⟩
    exact hsilent error rfl
  · intro hsilent
    exact ⟨fun _ _ => hsilent, hsilent.stopsAtFailure⟩

theorem stops_after_panic (h : (s.next around).2.finished = true) : StopsAtFailure around s := by
  have hdead : Dead ⟨none, none⟩ [] (s.next around).2 := .inl h
  rw [stopsAtFailure_iff]
  exact ⟨fun _ _ => hdead.silent, hdead.silent.stopsAtFailure⟩

theorem stops_of_next_eq (h : s.next around = t.next around) :
    StopsAtFailure around s ↔ StopsAtFailure around t := by
  rw [stopsAtFailure_iff, stopsAtFailure_iff t, h]

theorem stops_results {more : Prop}
    (hmore : ∀ s : ParameterQueryReader β, Stands form schema s [] pulls executions due →
      (StopsAtFailure around s ↔ more))
    (h : Stands form schema s results pulls executions due) :
    StopsAtFailure around s ↔ EndsQuietly (due = []) more results := by
  induction results generalizing s with
  | nil => exact hmore s h
  | cons polled results ih =>
    obtain ⟨t, hturn, ht⟩ := turn_result around h
    have hnext := next_eq_settle around h.unfinished
    rw [poll_leave hturn] at hnext
    rcases polled with (error | batch) | _
    · rw [stops_after_fail hnext ht, EndsQuietly]
    · rw [EndsQuietly, ← ih ht, stopsAtFailure_iff, hnext]
      simp only [settle]
      exact and_iff_right fun _ herror => by cases herror
    · exact iff_of_true (stops_after_panic (hnext ▸ rfl)) trivial

theorem stops_started {query : BoundQuery} (hfinished : s.finished = false)
    (h : s.turn around = t.start around query) (ht : Stands form schema t [] pulls executions due)
    (hmore : ∀ {s : ParameterQueryReader β} {results : List (Polled β)},
      Stands form schema s results pulls (executions + 1) due →
        (StopsAtFailure around s ↔ EndsQuietly (due = [])
          (FailsLast around form schema pulls (executions + 1) due) results)) :
    StopsAtFailure around s ↔
      match around.execute executions query with
      | .panicked => True
      | .failed _ => due = []
      | .opened found results =>
        if found = schema then
          EndsQuietly (due = []) (FailsLast around form schema pulls (executions + 1) due) results
        else due = [] := by
  rw [start, ht.executions] at h
  cases hexecute : around.execute executions query with
  | panicked =>
    rw [hexecute] at h
    refine iff_of_true (stops_after_panic ?_) trivial
    rw [next_eq_settle around hfinished, poll_leave h]
    rfl
  | failed value =>
    rw [hexecute] at h
    rw [stops_after_fail (next_fail hfinished h)
      ⟨ht.unfinished, ht.schema, ht.pulls, rfl, ht.current, ht.rendering, ht.due⟩]
    exact and_iff_right rfl
  | opened found results =>
    rw [hexecute] at h
    simp only [ht.schema] at h ⊢
    split_ifs at h ⊢ with hschema
    · rw [stops_of_next_eq (next_of_again hfinished h ht.unfinished)]
      exact hmore ⟨ht.unfinished, rfl, ht.pulls, rfl, rfl, ht.rendering, ht.due⟩
    · rw [stops_after_fail (next_fail hfinished h)
        ⟨ht.unfinished, rfl, ht.pulls, rfl, ht.current, ht.rendering, ht.due⟩]
      exact and_iff_right rfl

theorem stops_iff (due : List Due) (h : Stands form schema s results pulls executions due) :
    StopsAtFailure around s ↔
      EndsQuietly (due = []) (FailsLast around form schema pulls executions due) results := by
  induction due generalizing s results pulls executions with
  | nil =>
    refine stops_results (fun s hs => ?_) h
    have hsilent : Silent around s := (silent_iff hs).mpr ⟨rfl, rfl⟩
    exact iff_of_true hsilent.stopsAtFailure trivial
  | cons due later ih =>
    refine stops_results (fun s hs => ?_) h
    obtain ⟨t, hturn, ht⟩ := turn_due around hs
    rw [FailsLast]
    cases hrender : due.render form (around.connection pulls) with
    | error value =>
      rw [hrender] at hturn
      rw [stops_after_fail (next_fail hs.unfinished hturn) ht]
      exact and_iff_right rfl
    | ok query =>
      rw [hrender] at hturn
      rw [Due.left_of_render hrender] at ht
      exact stops_started hs.unfinished hturn ht ih

end Outcomes

section Opening
variable {σ β : Type} (around : Surroundings σ β)

inductive Opening (β : Type) where
  | opened (reader : ParameterQueryReader β)
  | failed (error : AdbcError)
  | panicked

def parameterQueryReader (queries : BatchedStream) : Opening β :=
  match queries.next (around.connection 0) with
  | (none, _) => .failed (adbcError "no parameter rows to execute" .invalidArguments)
  | (some (.error value), _) => .failed value
  | (some (.ok first), queries) =>
    match around.execute 0 first with
    | .panicked => .panicked
    | .failed value => .failed value
    | .opened schema results => .opened ⟨queries, some results, schema, false, 1, 1⟩

def FailureComesLast (queries : BatchedStream) : Prop :=
  match queries.due with
  | [] => True
  | due :: later =>
    match due.render queries.rendering (around.connection 0) with
    | .error _ => True
    | .ok first =>
      match around.execute 0 first with
      | .opened schema results =>
        EndsQuietly (later = []) (FailsLast around queries.rendering schema 1 1 later) results
      | _ => True

theorem parameter_reader_stops_iff (queries : BatchedStream) :
    (∀ reader, parameterQueryReader around queries = .opened reader →
      StopsAtFailure around reader) ↔ FailureComesLast around queries := by
  rw [parameterQueryReader, FailureComesLast]
  cases hdue : queries.due with
  | nil =>
    obtain ⟨t, hnext, -⟩ := BatchedStream.next_done (around.connection 0) hdue
    rw [hnext]
    exact iff_of_true (fun reader h => by cases h) trivial
  | cons due later =>
    obtain ⟨t, hnext, hlater, hrendering⟩ := BatchedStream.next_due (around.connection 0) hdue
    rw [hnext]
    cases hrender : due.render queries.rendering (around.connection 0) with
    | error value =>
      simp only [hrender]
      exact iff_of_true (fun reader h => by cases h) trivial
    | ok first =>
      simp only [hrender]
      rw [Due.left_of_render hrender] at hlater
      cases hexecute : around.execute 0 first with
      | panicked | failed value => exact iff_of_true (fun reader h => by cases h) trivial
      | opened schema results =>
        simp only [Opening.opened.injEq, forall_eq']
        exact stops_iff later ⟨rfl, rfl, rfl, rfl, rfl, hrendering, hlater⟩

end Opening

open BatchedStream ParameterQueryReader

def executionFailed : AdbcError := adbcError "execution failed" .internal

def secondRowFails : Surroundings Unit Nat where
  connection := fun _ => idleConnection
  execute := fun
    | 0, _ => .opened [] []
    | 1, _ => .failed executionFailed
    | n + 2, _ => .opened [] [.item (.ok n)]

theorem failing_last_row_stops :
    (∃ reader, parameterQueryReader secondRowFails (.new (numberedReader 2) [] none none) =
      .opened reader) ∧
    ∀ reader, parameterQueryReader secondRowFails (.new (numberedReader 2) [] none none) =
      .opened reader → StopsAtFailure secondRowFails reader :=
  ⟨⟨_, rfl⟩, (parameter_reader_stops_iff secondRowFails _).mpr rfl⟩

theorem row_after_failed_row_delivered :
    ∃ reader, parameterQueryReader secondRowFails (.new (numberedReader 3) [] none none) =
        .opened reader ∧
      reader.outcome secondRowFails 0 = some (.error (.external executionFailed)) ∧
      reader.outcome secondRowFails 1 = some (.ok 0) :=
  ⟨_, rfl, outcomes_after_fail rfl rfl rfl rfl rfl rfl⟩

end MonetdbAdbc.Driver
