import MonetdbAdbc.Driver.Prepared

namespace MonetdbAdbc.Driver
open LittleEndian Machine

structure ParameterBatch where
  schema : List Field
  validity : Except AdbcError Unit
  rows : List BoundRow

structure BatchedStream where
  reader : List (Except AdbcError ParameterBatch)
  schema : List Field
  prepared : Option PreparedPlan
  literalFallback : Option AdbcError
  batch : Option ParameterBatch
  nextRow : Nat
  pending : List BoundQuery
  finished : Bool

def schemaChanged : AdbcError :=
  adbcError "parameter schema changed within the bound stream" .invalidData

def acceptBatch (schema : List Field) :
    Except AdbcError ParameterBatch → Except AdbcError ParameterBatch
  | .error error => .error error
  | .ok batch =>
    if batch.schema ≠ schema then .error schemaChanged
    else
      match batch.validity with
      | .error error => .error error
      | .ok () => .ok batch

def batchItems (schema : List Field) : List (Except AdbcError ParameterBatch) → List StreamItem
  | [] => []
  | batch :: reader =>
    match acceptBatch schema batch with
    | .error error => [.failure error]
    | .ok batch => batch.rows.map .row ++ batchItems schema reader

namespace BatchedStream
variable {σ : Type}

def new (reader : List (Except AdbcError ParameterBatch)) (schema : List Field)
    (prepared : Option PreparedPlan) (literalFallback : Option AdbcError) : BatchedStream :=
  ⟨reader, schema, prepared, literalFallback, none, 0, [], false⟩

def currentRows (stream : BatchedStream) : List BoundRow :=
  (stream.batch.map fun batch => batch.rows.drop stream.nextRow).getD []

def flat (stream : BatchedStream) : BoundQueryStream where
  items :=
    if stream.finished then []
    else stream.currentRows.map .row ++ batchItems stream.schema stream.reader
  prepared := stream.prepared
  literalFallback := stream.literalFallback
  pending := stream.pending

def row (stream : BatchedStream) : Option BoundRow :=
  stream.batch.bind fun batch => batch.rows[stream.nextRow]?

def takeRow (c : Connection σ) (stream : BatchedStream) (row : BoundRow) :
    Option (Except AdbcError BoundQuery) × BatchedStream :=
  (some (renderRow c stream.flat row), { stream with nextRow := stream.nextRow + 1 })

def stop (stream : BatchedStream) (reader : List (Except AdbcError ParameterBatch))
    (outcome : Option (Except AdbcError BoundQuery)) :
    Option (Except AdbcError BoundQuery) × BatchedStream :=
  (outcome, { stream with reader := reader, finished := true })

def pull (c : Connection σ) : List (Except AdbcError ParameterBatch) → BatchedStream →
    Option (Except AdbcError BoundQuery) × BatchedStream
  | [], stream =>
    match stream.row with
    | some row => takeRow c { stream with reader := [] } row
    | none => stream.stop [] none
  | batch :: reader, stream =>
    match stream.row with
    | some row => takeRow c { stream with reader := batch :: reader } row
    | none =>
      match acceptBatch stream.schema batch with
      | .error error => stream.stop reader (some (.error error))
      | .ok batch => pull c reader { stream with batch := some batch, nextRow := 0 }

def next (c : Connection σ) (stream : BatchedStream) :
    Option (Except AdbcError BoundQuery) × BatchedStream :=
  match stream.pending with
  | query :: pending => (some (.ok query), { stream with pending := pending })
  | [] => if stream.finished then (none, stream) else pull c stream.reader stream

def isEmpty (c : Connection σ) (stream : BatchedStream) : Except AdbcError Bool × BatchedStream :=
  match stream.next c with
  | (some (.error error), stream) => (.error error, stream)
  | (some (.ok query), stream) =>
    (.ok false, { stream with pending := stream.pending ++ [query] })
  | (none, stream) => (.ok true, stream)

-- The plan a row is rendered with may change between the two rows looked at.
def takeIfSingle (c d : Connection σ) (stream : BatchedStream) :
    Except AdbcError (Option BoundQuery) × BatchedStream :=
  match stream.next c with
  | (some (.error error), stream) => (.error error, stream)
  | (none, stream) => (.ok none, stream)
  | (some (.ok first), stream) =>
    match stream.next d with
    | (some (.error error), stream) => (.error error, stream)
    | (none, stream) => (.ok (some first), stream)
    | (some (.ok second), stream) =>
      (.ok none, { stream with pending := first :: second :: stream.pending })

section Flat
variable {stream : BatchedStream}

theorem currentRows_of_row {row : BoundRow} (h : stream.row = some row) :
    stream.currentRows = row :: { stream with nextRow := stream.nextRow + 1 }.currentRows := by
  obtain ⟨batch, hbatch, hget⟩ := Option.bind_eq_some_iff.mp h
  obtain ⟨hlt, rfl⟩ := List.getElem?_eq_some_iff.mp hget
  simp [currentRows, hbatch]

theorem currentRows_of_none (h : stream.row = none) : stream.currentRows = [] := by
  rw [currentRows]
  cases hbatch : stream.batch with
  | none => rfl
  | some batch =>
    rw [row, hbatch, Option.bind_some, List.getElem?_eq_none_iff] at h
    simpa using h

def itemsFrom (stream : BatchedStream) (reader : List (Except AdbcError ParameterBatch)) :
    List StreamItem :=
  stream.currentRows.map .row ++ batchItems stream.schema reader

theorem takeRow_flat (c : Connection σ) {row : BoundRow} (hrow : stream.row = some row)
    (hpending : stream.pending = []) (hfinished : stream.finished = false) :
    Prod.map id flat (takeRow c stream row) =
      BoundQueryStream.next c
        ⟨stream.itemsFrom stream.reader, stream.prepared, stream.literalFallback, []⟩ := by
  rw [itemsFrom, currentRows_of_row hrow, takeRow]
  simp only [Prod.map, id, List.map_cons, List.cons_append, BoundQueryStream.next, flat, hpending,
    hfinished, Bool.false_eq_true, if_false]
  rfl

-- The flat stream holds no trace of the batches, so those without rows are skipped.
theorem pull_flat (c : Connection σ) (reader : List (Except AdbcError ParameterBatch))
    (stream : BatchedStream) (hpending : stream.pending = []) (hfinished : stream.finished = false) :
    Prod.map id flat (pull c reader stream) =
      BoundQueryStream.next c
        ⟨stream.itemsFrom reader, stream.prepared, stream.literalFallback, []⟩ := by
  induction reader generalizing stream with
  | nil =>
    rw [pull]
    cases hrow : stream.row with
    | some row => exact takeRow_flat c hrow hpending hfinished
    | none =>
      rw [itemsFrom, currentRows_of_none hrow]
      simp [Prod.map, stop, flat, batchItems, BoundQueryStream.next, hpending]
  | cons batch reader ih =>
    rw [pull]
    cases hrow : stream.row with
    | some row => exact takeRow_flat c hrow hpending hfinished
    | none =>
      rw [itemsFrom, currentRows_of_none hrow]
      simp only [batchItems, List.map_nil, List.nil_append]
      cases acceptBatch stream.schema batch with
      | error error => simp [Prod.map, stop, flat, BoundQueryStream.next, hpending]
      | ok batch => exact ih _ hpending hfinished

theorem next_flat (c : Connection σ) (stream : BatchedStream) :
    Prod.map id flat (stream.next c) = stream.flat.next c := by
  rw [next]
  cases hpending : stream.pending with
  | cons query pending => simp [Prod.map, flat, BoundQueryStream.next, hpending, currentRows]
  | nil =>
    cases hfinished : stream.finished with
    | true => simp [Prod.map, flat, BoundQueryStream.next, hpending, hfinished]
    | false =>
      have hflat := pull_flat c stream.reader stream hpending hfinished
      simpa [flat, hpending, hfinished, itemsFrom] using hflat

end Flat

structure Rendering where
  prepared : Option PreparedPlan
  literalFallback : Option AdbcError

def Rendering.render (rendering : Rendering) (c : Connection σ) (row : BoundRow) :
    Except AdbcError BoundQuery :=
  renderRow c ⟨[], rendering.prepared, rendering.literalFallback, []⟩ row

def Rendering.Gives (rendering : Rendering) (σ : Type) (row : BoundRow) (query : BoundQuery) :
    Prop :=
  ∃ c : Connection σ, rendering.render c row = .ok query

def rendering (stream : BatchedStream) : Rendering := ⟨stream.prepared, stream.literalFallback⟩

inductive Call (σ : Type) where
  | isEmpty (c : Connection σ)
  | pending
  | takeIfSingle (c d : Connection σ)
  | next (c : Connection σ)

def InOrder (rendering : Rendering) : List BoundRow → BatchedStream → List (Call σ) → Prop
  | _, _, [] => True
  | remaining, stream, .isEmpty c :: calls =>
    (stream.isEmpty c).1 = .ok remaining.isEmpty ∧
      InOrder rendering remaining (stream.isEmpty c).2 calls
  | remaining, stream, .pending :: calls => InOrder rendering remaining stream calls
  | [row], stream, .takeIfSingle c d :: calls =>
    (∃ query, (stream.takeIfSingle c d).1 = .ok (some query) ∧ rendering.Gives σ row query) ∧
      InOrder rendering [] (stream.takeIfSingle c d).2 calls
  | remaining, stream, .takeIfSingle c d :: calls =>
    (stream.takeIfSingle c d).1 = .ok none ∧
      InOrder rendering remaining (stream.takeIfSingle c d).2 calls
  | [], stream, .next c :: calls =>
    (stream.next c).1 = none ∧ InOrder rendering [] (stream.next c).2 calls
  | row :: remaining, stream, .next c :: calls =>
    (∃ query, (stream.next c).1 = some (.ok query) ∧ rendering.Gives σ row query) ∧
      InOrder rendering remaining (stream.next c).2 calls

-- How many rows remain, how many of them wait in pending, and whether two of them wait the
-- wrong way round: is_empty puts the query it looked at behind the other one.
def Orderly : Nat → Nat → Bool → List (Call σ) → Prop
  | _, _, _, [] => True
  | remaining, ahead, swapped, .isEmpty _ :: calls =>
    Orderly remaining (max ahead (min remaining 1)) (if ahead = 2 then !swapped else swapped) calls
  | remaining, ahead, swapped, .pending :: calls => Orderly remaining ahead swapped calls
  | remaining, _, swapped, .takeIfSingle _ _ :: calls =>
    if remaining = 1 then Orderly 0 0 false calls
    else Orderly remaining (min remaining 2) swapped calls
  | remaining, ahead, swapped, .next _ :: calls =>
    swapped = false ∧ Orderly (remaining - 1) (ahead - 1) false calls

section Lookahead
variable {form : Rendering} {stream : BatchedStream} {rows : List BoundRow} {ahead : Nat}
  {swapped : Bool} {c : Connection σ} {t : BatchedStream} {row : BoundRow} {query : BoundQuery}

structure Feeds (σ : Type) (form : Rendering) (stream : BatchedStream) (rows : List BoundRow) :
    Prop where
  items : stream.flat.items = rows.map .row
  rendering : stream.rendering = form
  renders : ∀ row ∈ rows, ∀ c : Connection σ, ∃ query, form.render c row = .ok query

theorem Feeds.flat_eq (h : Feeds σ form stream rows) :
    stream.flat = ⟨rows.map .row, form.prepared, form.literalFallback, stream.pending⟩ := by
  rw [← h.items, ← h.rendering]
  rfl

theorem Feeds.of_flat {pending : List BoundQuery}
    (h : stream.flat = ⟨rows.map .row, form.prepared, form.literalFallback, pending⟩)
    (hrenders : ∀ row ∈ rows, ∀ c : Connection σ, ∃ query, form.render c row = .ok query) :
    Feeds σ form stream rows ∧ stream.pending = pending := by
  have hprepared : stream.prepared = form.prepared := congrArg BoundQueryStream.prepared h
  have hfallback : stream.literalFallback = form.literalFallback :=
    congrArg BoundQueryStream.literalFallback h
  refine ⟨⟨congrArg BoundQueryStream.items h, ?_, hrenders⟩, congrArg BoundQueryStream.pending h⟩
  rw [BatchedStream.rendering, hprepared, hfallback]

theorem Feeds.with_pending (h : Feeds σ form stream rows) (pending : List BoundQuery) :
    Feeds σ form { stream with pending := pending } rows :=
  ⟨h.items, h.rendering, h.renders⟩

theorem Feeds.next_end (h : Feeds σ form stream []) (c : Connection σ)
    (hpending : stream.pending = []) :
    ∃ t, stream.next c = (Option.none, t) ∧ Feeds σ form t [] ∧ t.pending = [] := by
  have hflat := next_flat c stream
  rw [h.flat_eq, hpending] at hflat
  have hresult : (stream.next c).1 = none := congrArg Prod.fst hflat
  exact ⟨_, Prod.ext hresult rfl, Feeds.of_flat (congrArg Prod.snd hflat) h.renders⟩

theorem Feeds.next_row (h : Feeds σ form stream (row :: rows)) (c : Connection σ)
    (hpending : stream.pending = []) :
    ∃ query t, stream.next c = (some (.ok query), t) ∧ form.Gives σ row query ∧
      Feeds σ form t rows ∧ t.pending = [] := by
  have hflat := next_flat c stream
  rw [h.flat_eq, hpending] at hflat
  obtain ⟨query, hquery⟩ := h.renders row List.mem_cons_self c
  have hresult : (stream.next c).1 = some (form.render c row) := congrArg Prod.fst hflat
  rw [hquery] at hresult
  refine ⟨query, _, Prod.ext hresult rfl, ⟨c, hquery⟩,
    Feeds.of_flat (congrArg Prod.snd hflat) fun other hother => ?_⟩
  exact h.renders other (List.mem_cons_of_mem row hother)

theorem next_pending (c : Connection σ) {pending : List BoundQuery}
    (h : stream.pending = query :: pending) :
    stream.next c = (some (.ok query), { stream with pending := pending }) := by
  rw [next, h]

theorem isEmpty_of_none (h : stream.next c = (none, t)) : stream.isEmpty c = (.ok true, t) := by
  rw [isEmpty, h]

theorem isEmpty_of_some (h : stream.next c = (some (.ok query), t)) :
    stream.isEmpty c = (.ok false, { t with pending := t.pending ++ [query] }) := by
  rw [isEmpty, h]

theorem takeIfSingle_of_none (d : Connection σ) (h : stream.next c = (none, t)) :
    stream.takeIfSingle c d = (.ok none, t) := by
  rw [takeIfSingle, h]

theorem takeIfSingle_of_one {d : Connection σ} {u : BatchedStream}
    (h : stream.next c = (some (.ok query), t)) (h' : t.next d = (none, u)) :
    stream.takeIfSingle c d = (.ok (some query), u) := by
  simp only [takeIfSingle, h, h']

theorem takeIfSingle_of_two {d : Connection σ} {u : BatchedStream} {q r : BoundQuery}
    (h : stream.next c = (some (.ok q), t)) (h' : t.next d = (some (.ok r), u)) :
    stream.takeIfSingle c d = (.ok none, { u with pending := q :: r :: u.pending }) := by
  simp only [takeIfSingle, h, h']

inductive Lookahead (σ : Type) (form : Rendering) :
    BatchedStream → List BoundRow → Nat → Bool → Prop
  | zero {stream : BatchedStream} {rows : List BoundRow} (feeds : Feeds σ form stream rows)
    (pending : stream.pending = []) : Lookahead σ form stream rows 0 false
  | one {stream : BatchedStream} {row : BoundRow} {rows : List BoundRow} {query : BoundQuery}
    (feeds : Feeds σ form stream rows) (gives : form.Gives σ row query)
    (pending : stream.pending = [query]) : Lookahead σ form stream (row :: rows) 1 false
  | two {stream : BatchedStream} {first second : BoundRow} {rows : List BoundRow}
    {q r : BoundQuery} (swapped : Bool) (feeds : Feeds σ form stream rows)
    (gives : form.Gives σ first q) (gives' : form.Gives σ second r)
    (pending : stream.pending = if swapped then [r, q] else [q, r]) :
    Lookahead σ form stream (first :: second :: rows) 2 swapped

theorem Lookahead.next_end (h : Lookahead σ form stream [] ahead swapped) (c : Connection σ) :
    ahead = 0 ∧ swapped = false ∧
      ∃ t, stream.next c = (none, t) ∧ Lookahead σ form t [] 0 false := by
  cases h with
  | zero feeds pending =>
    obtain ⟨t, hnext, hfeeds, hpending⟩ := feeds.next_end c pending
    exact ⟨rfl, rfl, t, hnext, .zero hfeeds hpending⟩

theorem Lookahead.next_row (h : Lookahead σ form stream (row :: rows) ahead false)
    (c : Connection σ) :
    ∃ query t, stream.next c = (some (.ok query), t) ∧ form.Gives σ row query ∧
      Lookahead σ form t rows (ahead - 1) false := by
  cases h with
  | zero feeds pending =>
    obtain ⟨query, t, hnext, hgives, hfeeds, hpending⟩ := feeds.next_row c pending
    exact ⟨query, t, hnext, hgives, .zero hfeeds hpending⟩
  | one feeds gives pending =>
    exact ⟨_, _, next_pending c pending, gives, .zero (feeds.with_pending []) rfl⟩
  | two swapped feeds gives gives' pending =>
    exact ⟨_, _, next_pending c pending, gives, .one (feeds.with_pending _) gives' rfl⟩

theorem Lookahead.next_swapped (h : Lookahead σ form stream rows ahead true) (c : Connection σ) :
    ∃ first second rest query t, rows = first :: second :: rest ∧
      stream.next c = (some (.ok query), t) ∧ form.Gives σ second query := by
  cases h with
  | two swapped feeds gives gives' pending =>
    exact ⟨_, _, _, _, _, rfl, next_pending c pending, gives'⟩

theorem Lookahead.isEmpty (h : Lookahead σ form stream rows ahead swapped) (c : Connection σ) :
    ∃ t, stream.isEmpty c = (.ok rows.isEmpty, t) ∧
      Lookahead σ form t rows (max ahead (min rows.length 1))
        (if ahead = 2 then !swapped else swapped) := by
  cases h with
  | zero feeds pending =>
    cases rows with
    | nil =>
      obtain ⟨t, hnext, hfeeds, hpending⟩ := feeds.next_end c pending
      exact ⟨t, isEmpty_of_none hnext, .zero hfeeds hpending⟩
    | cons row rows =>
      obtain ⟨query, t, hnext, hgives, hfeeds, hpending⟩ := feeds.next_row c pending
      refine ⟨_, isEmpty_of_some hnext, ?_⟩
      rw [hpending]
      simpa using Lookahead.one (hfeeds.with_pending [query]) hgives rfl
  | one feeds gives pending =>
    refine ⟨_, isEmpty_of_some (next_pending c pending), ?_⟩
    simpa using Lookahead.one (feeds.with_pending _) gives rfl
  | two swapped feeds gives gives' pending =>
    cases swapped with
    | false =>
      refine ⟨_, isEmpty_of_some (next_pending c pending), ?_⟩
      simpa using Lookahead.two true (feeds.with_pending _) gives gives' rfl
    | true =>
      refine ⟨_, isEmpty_of_some (next_pending c pending), ?_⟩
      simpa using Lookahead.two false (feeds.with_pending _) gives gives' rfl

theorem Lookahead.takeIfSingle_end (h : Lookahead σ form stream [] ahead swapped)
    (c d : Connection σ) :
    ∃ t, stream.takeIfSingle c d = (.ok none, t) ∧ Lookahead σ form t [] 0 swapped := by
  obtain ⟨-, rfl, t, hnext, ht⟩ := h.next_end c
  exact ⟨t, takeIfSingle_of_none d hnext, ht⟩

theorem Lookahead.takeIfSingle_one (h : Lookahead σ form stream [row] ahead swapped)
    (c d : Connection σ) :
    ∃ query t, stream.takeIfSingle c d = (.ok (some query), t) ∧ form.Gives σ row query ∧
      Lookahead σ form t [] 0 false := by
  have hswapped : swapped = false := by
    cases h with
    | zero | one => rfl
  subst hswapped
  obtain ⟨query, t, hnext, hgives, ht⟩ := h.next_row c
  obtain ⟨-, -, u, hnext', hu⟩ := ht.next_end d
  exact ⟨query, u, takeIfSingle_of_one hnext hnext', hgives, hu⟩

theorem Lookahead.takeIfSingle_many {first second : BoundRow}
    (h : Lookahead σ form stream (first :: second :: rows) ahead swapped) (c d : Connection σ) :
    ∃ t, stream.takeIfSingle c d = (.ok none, t) ∧
      Lookahead σ form t (first :: second :: rows) 2 swapped := by
  cases h with
  | zero feeds pending =>
    obtain ⟨q, t, hnext, hgives, hfeeds, hpending⟩ := feeds.next_row c pending
    obtain ⟨r, u, hnext', hgives', hfeeds', hpending'⟩ := hfeeds.next_row d hpending
    refine ⟨_, takeIfSingle_of_two hnext hnext', ?_⟩
    rw [hpending']
    exact .two false (hfeeds'.with_pending _) hgives hgives' rfl
  | one feeds gives pending =>
    obtain ⟨r, u, hnext', hgives', hfeeds', hpending'⟩ :=
      (feeds.with_pending []).next_row d rfl
    refine ⟨_, takeIfSingle_of_two (next_pending c pending) hnext', ?_⟩
    rw [hpending']
    exact .two false (hfeeds'.with_pending _) gives hgives' rfl
  | two swapped feeds gives gives' pending =>
    cases swapped with
    | false =>
      refine ⟨_, takeIfSingle_of_two (next_pending c pending) (next_pending d rfl), ?_⟩
      exact .two false (feeds.with_pending _) gives gives' rfl
    | true =>
      refine ⟨_, takeIfSingle_of_two (next_pending c pending) (next_pending d rfl), ?_⟩
      exact .two true (feeds.with_pending _) gives gives' rfl

def Apart (σ : Type) (form : Rendering) (first second : BoundRow) : Prop :=
  ∀ query, form.Gives σ first query → ¬form.Gives σ second query

theorem Lookahead.inOrder_orderly (h : Lookahead σ form stream rows ahead swapped)
    (calls : List (Call σ)) :
    (Orderly rows.length ahead swapped calls → InOrder form rows stream calls) ∧
      (rows.Pairwise (Apart σ form) → InOrder form rows stream calls →
        Orderly rows.length ahead swapped calls) := by
  induction calls generalizing stream rows ahead swapped with
  | nil => simp [InOrder, Orderly]
  | cons call calls ih =>
    cases call with
    | isEmpty c =>
      obtain ⟨t, hresult, ht⟩ := h.isEmpty c
      rw [InOrder, hresult]
      exact ⟨fun ho => ⟨rfl, (ih ht).1 ho⟩, fun ha hi => (ih ht).2 ha hi.2⟩
    | pending => exact ih h
    | takeIfSingle c d =>
      rcases rows with _ | ⟨first, _ | ⟨second, rows⟩⟩
      · obtain ⟨t, hresult, ht⟩ := h.takeIfSingle_end c d
        simp only [InOrder, hresult]
        exact ⟨fun ho => ⟨trivial, (ih ht).1 ho⟩, fun ha hi => (ih ht).2 ha hi.2⟩
      · obtain ⟨query, t, hresult, hgives, ht⟩ := h.takeIfSingle_one c d
        simp only [InOrder, hresult]
        exact ⟨fun ho => ⟨⟨query, rfl, hgives⟩, (ih ht).1 ho⟩, fun _ hi => (ih ht).2 .nil hi.2⟩
      · obtain ⟨t, hresult, ht⟩ := h.takeIfSingle_many c d
        simp only [InOrder, hresult]
        exact ⟨fun ho => ⟨trivial, (ih ht).1 (by simpa [Orderly] using ho)⟩,
          fun ha hi => by simpa [Orderly] using (ih ht).2 ha hi.2⟩
    | next c =>
      cases swapped with
      | true =>
        obtain ⟨first, second, rest, query, t, rfl, hresult, hgives⟩ := h.next_swapped c
        refine ⟨fun ho => absurd ho.1 (by simp), fun ha hi => ?_⟩
        simp only [InOrder, hresult] at hi
        obtain ⟨⟨found, hfound, hfirst⟩, -⟩ := hi
        cases hfound
        exact absurd hgives ((List.pairwise_cons.mp ha).1 second List.mem_cons_self _ hfirst)
      | false =>
        cases rows with
        | nil =>
          obtain ⟨rfl, -, t, hresult, ht⟩ := h.next_end c
          simp only [InOrder, hresult]
          exact ⟨fun ho => ⟨trivial, (ih ht).1 ho.2⟩, fun ha hi => ⟨rfl, (ih ht).2 ha hi.2⟩⟩
        | cons row rows =>
          obtain ⟨query, t, hresult, hgives, ht⟩ := h.next_row c
          simp only [InOrder, hresult]
          refine ⟨fun ho => ⟨⟨query, rfl, hgives⟩, (ih ht).1 (by simpa using ho.2)⟩,
            fun ha hi => ⟨rfl, ?_⟩⟩
          simpa using (ih ht).2 (List.pairwise_cons.mp ha).2 hi.2

end Lookahead

section Streams

structure Delivers (σ : Type) (reader : List (Except AdbcError ParameterBatch))
    (schema : List Field) (form : Rendering) (rows : List BoundRow) : Prop where
  items : batchItems schema reader = rows.map .row
  renders : ∀ row ∈ rows, ∀ c : Connection σ, ∃ query, form.render c row = .ok query

theorem lookahead_new {reader : List (Except AdbcError ParameterBatch)} {schema : List Field}
    {form : Rendering} {rows : List BoundRow} (h : Delivers σ reader schema form rows) :
    Lookahead σ form (.new reader schema form.prepared form.literalFallback) rows 0 false := by
  refine .zero ⟨?_, rfl, h.renders⟩ rfl
  simpa [flat, new, currentRows] using h.items

def plainForm : Rendering := ⟨none, none⟩

def numberedRow (i : Nat) : BoundRow := ⟨.ok (List.replicate i 0), .ok []⟩

def numberedReader (n : Nat) : List (Except AdbcError ParameterBatch) :=
  [.ok ⟨[], .ok (), (List.range n).map numberedRow⟩]

theorem numberedReader_delivers (n : Nat) :
    Delivers σ (numberedReader n) [] plainForm ((List.range n).map numberedRow) := by
  refine ⟨by simp [numberedReader, batchItems, acceptBatch], ?_⟩
  intro row hrow c
  obtain ⟨i, -, rfl⟩ := List.mem_map.mp hrow
  exact ⟨.ofLiteral (List.replicate i 0) none, rfl⟩

theorem numberedRow_gives {i : Nat} {query : BoundQuery}
    (h : plainForm.Gives σ (numberedRow i) query) :
    query = .ofLiteral (List.replicate i 0) none := by
  obtain ⟨c, hrender⟩ := h
  exact (Except.ok.inj hrender).symm

theorem numberedRows_apart (n : Nat) :
    ((List.range n).map numberedRow).Pairwise (Apart σ plainForm) := by
  rw [List.pairwise_map]
  refine (List.pairwise_lt_range).imp ?_
  intro i j hlt query hi hj
  have hquery := (numberedRow_gives hi).symm.trans (numberedRow_gives hj)
  have hlength := congrArg (fun query : BoundQuery => query.sql.text.length) hquery
  simp only [BoundQuery.ofLiteral, BoundSql.text, List.length_replicate] at hlength
  omega

end Streams

theorem lookahead_in_order_iff (n : Nat) (calls : List (Call σ)) :
    (∀ reader schema form rows, Delivers σ reader schema form rows → rows.length = n →
      InOrder form rows (.new reader schema form.prepared form.literalFallback) calls) ↔
      Orderly n 0 false calls := by
  constructor
  · intro h
    have hdelivers := @numberedReader_delivers σ n
    have hinOrder := h _ _ _ _ hdelivers (by simp)
    simpa using ((lookahead_new hdelivers).inOrder_orderly calls).2 (numberedRows_apart n) hinOrder
  · rintro horderly reader schema form rows hdelivers rfl
    exact ((lookahead_new hdelivers).inOrder_orderly calls).1 horderly

def idleConnection : Connection Unit where
  server := ()
  transactionModified := false
  transactionPoison := none
  savepointId := 0
  cache := ⟨1, [], 0, Nat.one_pos⟩
  flags := fun _ => ⟨true, none⟩
  slots := fun _ => ⟨0, [], []⟩
  events := []

theorem three_rows_looked_ahead_in_order :
    InOrder plainForm ((List.range 3).map numberedRow) (.new (numberedReader 3) [] none none)
      [.isEmpty idleConnection, .takeIfSingle idleConnection idleConnection, .pending,
        .next idleConnection, .isEmpty idleConnection, .next idleConnection,
        .takeIfSingle idleConnection idleConnection, .isEmpty idleConnection] :=
  (lookahead_in_order_iff 3 _).mpr (by simp [Orderly]) _ _ _ _ (numberedReader_delivers 3) rfl

theorem rows_swapped_by_is_empty :
    Delivers Unit (numberedReader 2) [] plainForm ((List.range 2).map numberedRow) ∧
      (let taken := (new (numberedReader 2) [] none none).takeIfSingle idleConnection idleConnection
      let looked := taken.2.isEmpty idleConnection
      taken.1 = .ok none ∧ looked.1 = .ok false ∧
        (looked.2.next idleConnection).1 = some (.ok (.ofLiteral [0] none)) ∧
        ((looked.2.next idleConnection).2.next idleConnection).1 =
          some (.ok (.ofLiteral [] none))) :=
  ⟨numberedReader_delivers 2, rfl, rfl, rfl, rfl⟩

end BatchedStream

end MonetdbAdbc.Driver
