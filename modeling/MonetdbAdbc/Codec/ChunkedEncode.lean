import MonetdbAdbc.Codec.EncodedSize

namespace MonetdbAdbc
open LittleEndian Utf8 Machine Rows Calendar

section Runs
variable {σ ε : Type} {date : Int → Option Date} {field : Field} {targetBytes : Nat}
  {emit : σ → Bytes → σ × Except ε Unit} {state state' : σ} {total rows start : Nat}
  {array : Column} {arrays : List Column} {starts : List Nat} {chunks : List Bytes} {bytes : Bytes}
  {result : Except (ChunkedEncodeError ε) Nat}

def pieceAt (array : Column) (rows start : Nat) : Column :=
  array.slice start (min (array.len - start) rows)

def pieces (field : Field) (targetBytes : Nat) (array : Column) : List Column :=
  let rows := rowsPerChunk targetBytes array.len (rowEstimates field array).sum
  (chunkStarts array.len rows).map (pieceAt array rows)

def allPieces (field : Field) (targetBytes : Nat) (arrays : List Column) : List Column :=
  arrays.flatMap (pieces field targetBytes)

def feed (emit : σ → Bytes → σ × Except ε Unit) (state : σ) (chunks : List Bytes) : σ :=
  chunks.foldl (fun state bytes => (emit state bytes).1) state

def EmitsAll (emit : σ → Bytes → σ × Except ε Unit) : σ → List Bytes → Prop
  | _, [] => True
  | state, bytes :: rest => (emit state bytes).2 = .ok () ∧ EmitsAll emit (emit state bytes).1 rest

theorem EmitsAll.append {rest : List Bytes} (h : EmitsAll emit state chunks)
    (hrest : EmitsAll emit (feed emit state chunks) rest) :
    EmitsAll emit state (chunks ++ rest) := by
  induction chunks generalizing state with
  | nil => exact hrest
  | cons bytes chunks ih => exact ⟨h.1, ih h.2 hrest⟩

def Encoded (date : Int → Option Date) (field : Field) (slices : List Column) (chunks : List Bytes) :
    Prop :=
  List.Forall₂ (fun slice bytes => encodeSlice date field slice = .ok bytes) slices chunks

theorem Encoded.append {slices slices' : List Column} {chunks' : List Bytes}
    (h : Encoded date field slices chunks) (h' : Encoded date field slices' chunks') :
    Encoded date field (slices ++ slices') (chunks ++ chunks') := List.rel_append h h'

theorem Encoded.split {slices slices' : List Column}
    (h : Encoded date field (slices ++ slices') chunks) :
    ∃ first rest, chunks = first ++ rest ∧ Encoded date field slices first ∧
      Encoded date field slices' rest := by
  induction slices generalizing chunks with
  | nil => exact ⟨[], chunks, rfl, .nil, h⟩
  | cons slice slices ih =>
    cases h with
    | cons hhead htail =>
      obtain ⟨first, rest, rfl, hfirst, hrest⟩ := ih htail
      exact ⟨_ :: first, rest, rfl, .cons hhead hfirst, hrest⟩

theorem encodeSlices_cons_error {e : EncodeError}
    (h : encodeSlice date field (pieceAt array rows start) = .error e) :
    encodeSlices date field array rows emit (start :: starts) total state =
      (state, .error (.encode e)) := by
  rw [pieceAt] at h
  simp only [encodeSlices, h]

theorem encodeSlices_cons_overflow
    (h : encodeSlice date field (pieceAt array rows start) = .ok bytes)
    (hlarge : ¬ total + bytes.length ≤ usizeMax) :
    encodeSlices date field array rows emit (start :: starts) total state =
      (state, .error (.encode (.invalidValue 0 "encoded column length overflows"))) := by
  rw [pieceAt] at h
  have hadd : checkedAdd total bytes.length = none := if_neg hlarge
  simp only [encodeSlices, h, hadd]

theorem encodeSlices_cons_sink {error : ε}
    (h : encodeSlice date field (pieceAt array rows start) = .ok bytes)
    (hfits : total + bytes.length ≤ usizeMax) (hemit : (emit state bytes).2 = .error error) :
    encodeSlices date field array rows emit (start :: starts) total state =
      ((emit state bytes).1, .error (.sink error)) := by
  rw [pieceAt] at h
  have hadd := checkedAdd_eq_some.mpr ⟨hfits, rfl⟩
  have hsink : emit state bytes = ((emit state bytes).1, .error error) := by rw [← hemit]
  rw [encodeSlices]
  simp only [h, hadd]
  rw [hsink]

theorem encodeSlices_cons_ok (h : encodeSlice date field (pieceAt array rows start) = .ok bytes)
    (hfits : total + bytes.length ≤ usizeMax) (hemit : (emit state bytes).2 = .ok ()) :
    encodeSlices date field array rows emit (start :: starts) total state =
      encodeSlices date field array rows emit starts (total + bytes.length) (emit state bytes).1 := by
  rw [pieceAt] at h
  have hadd := checkedAdd_eq_some.mpr ⟨hfits, rfl⟩
  have hsink : emit state bytes = ((emit state bytes).1, .ok ()) := by rw [← hemit]
  rw [encodeSlices]
  simp only [h, hadd]
  rw [hsink]

-- Every run passes an initial stretch of the slices to the sink, all of them when it returns a total.
theorem encodeSlices_run (htotal : total ≤ usizeMax)
    (h : encodeSlices date field array rows emit starts total state = (state', result)) :
    ∃ slices chunks, slices <+: starts.map (pieceAt array rows) ∧ Encoded date field slices chunks ∧
      state' = feed emit state chunks ∧
      ∀ total', result = .ok total' → slices = starts.map (pieceAt array rows) ∧
        EmitsAll emit state chunks ∧ total' = total + chunks.flatten.length ∧ total' ≤ usizeMax := by
  induction starts generalizing total state with
  | nil =>
    cases h
    refine ⟨[], [], List.nil_prefix, .nil, rfl, ?_⟩
    rintro total' hok
    cases hok
    exact ⟨rfl, trivial, rfl, htotal⟩
  | cons start starts ih =>
    cases hslice : encodeSlice date field (pieceAt array rows start) with
    | error e =>
      rw [encodeSlices_cons_error hslice] at h
      cases h
      exact ⟨[], [], List.nil_prefix, .nil, rfl, nofun⟩
    | ok bytes =>
      by_cases hfits : total + bytes.length ≤ usizeMax
      · cases hemit : (emit state bytes).2 with
        | error error =>
          rw [encodeSlices_cons_sink hslice hfits hemit] at h
          cases h
          exact ⟨[_], [bytes], List.cons_prefix_cons.mpr ⟨rfl, List.nil_prefix⟩, .cons hslice .nil,
            rfl, nofun⟩
        | ok u =>
          rw [encodeSlices_cons_ok hslice hfits hemit] at h
          obtain ⟨slices, chunks, hinitial, hchunks, rfl, hok⟩ := ih hfits h
          refine ⟨_ :: slices, bytes :: chunks, List.cons_prefix_cons.mpr ⟨rfl, hinitial⟩,
            .cons hslice hchunks, rfl, fun total' hresult => ?_⟩
          obtain ⟨rfl, hemits, rfl, hle⟩ := hok total' hresult
          exact ⟨rfl, ⟨hemit, hemits⟩, by simp [Nat.add_assoc], hle⟩
      · rw [encodeSlices_cons_overflow hslice hfits] at h
        cases h
        exact ⟨[], [], List.nil_prefix, .nil, rfl, nofun⟩

theorem encodeSlices_encoded (hemit : ∀ state bytes, (emit state bytes).2 = .ok ())
    (hchunks : Encoded date field (starts.map (pieceAt array rows)) chunks)
    (hle : total + chunks.flatten.length ≤ usizeMax) :
    encodeSlices date field array rows emit starts total state =
      (feed emit state chunks, .ok (total + chunks.flatten.length)) := by
  induction starts generalizing total state chunks with
  | nil =>
    cases hchunks
    rfl
  | cons start starts ih =>
    cases hchunks with
    | cons hslice hrest =>
      rw [List.flatten_cons, List.length_append, ← Nat.add_assoc] at hle ⊢
      rw [encodeSlices_cons_ok hslice (by omega) (hemit _ _), ih hrest hle]
      rfl

def encodePieces (date : Int → Option Date) (field : Field) (targetBytes : Nat) (array : Column)
    (emit : σ → Bytes → σ × Except ε Unit) (total : Nat) (state : σ) :
    σ × Except (ChunkedEncodeError ε) Nat :=
  let rows := rowsPerChunk targetBytes array.len (rowEstimates field array).sum
  encodeSlices date field array rows emit (chunkStarts array.len rows) total state

theorem encodeArrays_cons_error {e : EncodeError}
    (hest : estimatedEncodedSize field array = .error e) :
    encodeArrays date field targetBytes emit (array :: arrays) total state =
      (state, .error (.encode e)) := by
  simp only [encodeArrays, hest]

theorem encodeArrays_cons_stop {est : Nat} {error : ChunkedEncodeError ε}
    (hest : estimatedEncodedSize field array = .ok est)
    (h : encodePieces date field targetBytes array emit total state = (state', .error error)) :
    encodeArrays date field targetBytes emit (array :: arrays) total state =
      (state', .error error) := by
  rw [encodePieces, ← (estimatedEncodedSize_eq hest).1] at h
  simp only [encodeArrays, hest, h]

theorem encodeArrays_cons_ok {est total' : Nat}
    (hest : estimatedEncodedSize field array = .ok est)
    (h : encodePieces date field targetBytes array emit total state = (state', .ok total')) :
    encodeArrays date field targetBytes emit (array :: arrays) total state =
      encodeArrays date field targetBytes emit arrays total' state' := by
  rw [encodePieces, ← (estimatedEncodedSize_eq hest).1] at h
  simp only [encodeArrays, hest, h]

theorem encodeArrays_run (htotal : total ≤ usizeMax)
    (h : encodeArrays date field targetBytes emit arrays total state = (state', result)) :
    ∃ slices chunks, slices <+: allPieces field targetBytes arrays ∧
      Encoded date field slices chunks ∧ state' = feed emit state chunks ∧
      ∀ total', result = .ok total' → slices = allPieces field targetBytes arrays ∧
        (∀ array ∈ arrays, ∃ est, estimatedEncodedSize field array = .ok est) ∧
        EmitsAll emit state chunks ∧ total' = total + chunks.flatten.length ∧ total' ≤ usizeMax := by
  induction arrays generalizing total state with
  | nil =>
    cases h
    refine ⟨[], [], List.nil_prefix, .nil, rfl, ?_⟩
    rintro total' hok
    cases hok
    exact ⟨rfl, by simp, trivial, rfl, htotal⟩
  | cons array arrays ih =>
    cases hest : estimatedEncodedSize field array with
    | error e =>
      rw [encodeArrays_cons_error hest] at h
      cases h
      exact ⟨[], [], List.nil_prefix, .nil, rfl, nofun⟩
    | ok est =>
      cases hpieces : encodePieces date field targetBytes array emit total state with
      | mk middle outcome =>
        obtain ⟨slices, chunks, hinitial, hchunks, rfl, hok⟩ := encodeSlices_run htotal hpieces
        cases outcome with
        | error error =>
          rw [encodeArrays_cons_stop hest hpieces] at h
          cases h
          exact ⟨slices, chunks, hinitial.trans (List.prefix_append _ _), hchunks, rfl, nofun⟩
        | ok sum =>
          rw [encodeArrays_cons_ok hest hpieces] at h
          obtain ⟨rfl, hemits, rfl, hle⟩ := hok sum rfl
          obtain ⟨slices', chunks', hinitial', hchunks', rfl, hok'⟩ := ih hle h
          refine ⟨_, chunks ++ chunks', (List.prefix_append_right_inj _).mpr hinitial',
            hchunks.append hchunks', by simp [feed], fun total' hresult => ?_⟩
          obtain ⟨rfl, hestimates, hemits', rfl, hle'⟩ := hok' total' hresult
          exact ⟨rfl, List.forall_mem_cons.mpr ⟨⟨est, hest⟩, hestimates⟩, hemits.append hemits',
            by simp [Nat.add_assoc], hle'⟩

theorem encodeArrays_encoded (hemit : ∀ state bytes, (emit state bytes).2 = .ok ())
    (hestimates : ∀ array ∈ arrays, ∃ est, estimatedEncodedSize field array = .ok est)
    (hchunks : Encoded date field (allPieces field targetBytes arrays) chunks)
    (hle : total + chunks.flatten.length ≤ usizeMax) :
    encodeArrays date field targetBytes emit arrays total state =
      (feed emit state chunks, .ok (total + chunks.flatten.length)) := by
  induction arrays generalizing total state chunks with
  | nil =>
    cases hchunks
    rfl
  | cons array arrays ih =>
    obtain ⟨⟨est, hest⟩, hrest⟩ := List.forall_mem_cons.mp hestimates
    obtain ⟨first, rest, rfl, hfirst, hlast⟩ := hchunks.split
    rw [List.flatten_append, List.length_append, ← Nat.add_assoc] at hle ⊢
    have hpieces : encodePieces date field targetBytes array emit total state =
        (feed emit state first, .ok (total + first.flatten.length)) :=
      encodeSlices_encoded hemit hfirst (by omega)
    rw [encodeArrays_cons_ok hest hpieces, ih hrest hlast hle]
    simp [feed]

theorem encodeColumnChunks_run
    (h : encodeColumnChunks date field arrays targetBytes emit state = (state', result)) :
    ∃ slices chunks, slices <+: allPieces field targetBytes arrays ∧
      Encoded date field slices chunks ∧ state' = feed emit state chunks ∧
      ∀ total, result = .ok total → slices = allPieces field targetBytes arrays ∧
        (∀ array ∈ arrays, ∃ est, estimatedEncodedSize field array = .ok est) ∧
        total = chunks.flatten.length := by
  obtain ⟨slices, chunks, hinitial, hchunks, hstate, hok⟩ := encodeArrays_run (Nat.zero_le _) h
  refine ⟨slices, chunks, hinitial, hchunks, hstate, fun total hresult => ?_⟩
  obtain ⟨hall, hestimates, -, htotal, -⟩ := hok total hresult
  exact ⟨hall, hestimates, by rw [htotal, Nat.zero_add]⟩

theorem encodeColumnChunks_emits
    (h : encodeColumnChunks date field arrays targetBytes emit state = (state', .ok total)) :
    ∃ chunks, Encoded date field (allPieces field targetBytes arrays) chunks ∧
      EmitsAll emit state chunks ∧ state' = feed emit state chunks := by
  obtain ⟨slices, chunks, -, hchunks, hstate, hok⟩ := encodeArrays_run (Nat.zero_le _) h
  obtain ⟨rfl, -, hemits, -⟩ := hok total rfl
  exact ⟨chunks, hchunks, hemits, hstate⟩

end Runs

section Borrowed
variable {w : Nat} {bytes : Bytes}

theorem borrowedNative_some {slots : List (Slot w)} (h : borrowedNative slots = some bytes) :
    (∀ slot ∈ slots, slot.isNull = false) ∧ bytes = nativeBytes slots := by
  rw [borrowedNative] at h
  split_ifs at h with hnulls
  exact ⟨by simpa using hnulls, (Option.some.inj h).symm⟩

theorem nativeBytes_length (slots : List (Slot w)) :
    (nativeBytes slots).length = slots.length * (w / 8) := by
  rw [nativeBytes, flatten_length (w / 8), List.length_map]
  intro p hp
  obtain ⟨slot, -, rfl⟩ := List.mem_map.mp hp
  exact leBytes_length _

theorem borrowedSigned_some {row : Nat} {all rest : List (Slot w)}
    (h : borrowedSigned row all rest = .ok (some bytes)) :
    borrowedNative all = some bytes ∧ ∀ slot ∈ rest, slot.value ≠ BitVec.intMin w := by
  induction rest generalizing row with
  | nil => exact ⟨Except.ok.inj h, by simp⟩
  | cons slot rest ih =>
    rw [borrowedSigned] at h
    split_ifs at h with hmin hnull
    · cases h
    · cases h
    · obtain ⟨hbytes, hrest⟩ := ih h
      exact ⟨hbytes, List.forall_mem_cons.mpr ⟨hmin, hrest⟩⟩

theorem borrowedFloat_some {isFinite : BitVec w → Bool} {slots : List (Slot w)}
    (h : borrowedFloat isFinite slots = .ok (some bytes)) : borrowedNative slots = some bytes := by
  obtain ⟨checked, -, h⟩ := bind_eq_ok.mp h
  exact Except.ok.inj h

theorem borrowedWireBytes_some {array : Column} (monetType : MonetType)
    (h : borrowedWireBytes array = .ok (some bytes)) :
    bytes.length = (arrayCosts monetType array).sum := by
  have hnative : ∀ {w : Nat} {slots : List (Slot w)} (width : Nat), w / 8 = width →
      borrowedNative slots = some bytes → bytes.length = (List.replicate slots.length width).sum := by
    intro w slots width hwidth hslots
    rw [(borrowedNative_some hslots).2, nativeBytes_length, List.sum_replicate, hwidth]
    rfl
  cases array with
  | primitive type slots =>
    cases type with
    | int8 | int16 | int32 | int64 => exact hnative _ rfl (borrowedSigned_some h).1
    | float32 | float64 => exact hnative _ rfl (borrowedFloat_some h)
    | _ => cases h
  | _ => cases h

end Borrowed

section Sizes
variable {date : Int → Option Date} {field : Field} {targetBytes : Nat}

theorem encodeSlice_cost {slice : Column} {bytes : Bytes}
    (h : encodeSlice date field slice = .ok bytes) :
    bytes.length = (rowCosts field slice).sum := by
  rw [encodeSlice] at h
  obtain ⟨borrowed, hborrowed, h⟩ := bind_eq_ok.mp h
  cases borrowed with
  | some native =>
    cases h
    exact borrowedWireBytes_some _ hborrowed
  | none => exact encodeColumn_cost h

theorem Encoded.lengths {slices : List Column} {chunks : List Bytes}
    (h : Encoded date field slices chunks) :
    chunks.map List.length = slices.map fun slice => (rowCosts field slice).sum := by
  induction h with
  | nil => rfl
  | cons hslice _ ih => rw [List.map_cons, List.map_cons, ih, encodeSlice_cost hslice]

def estimatesOf (field : Field) (arrays : List Column) : Nat :=
  (arrays.map fun array => (rowEstimates field array).sum).sum

def costsOf (field : Field) (slices : List Column) : Nat :=
  (slices.map fun slice => (rowCosts field slice).sum).sum

theorem encoded_size_within_estimate_iff (date : Int → Option Date) (field : Field) :
    (∀ (array : Column) (bytes : Bytes), encodeColumn date field array = .ok bytes →
      ((∃ est, estimatedEncodedSize field array = .ok est ∧ bytes.length ≤ est) ↔
        Estimable field array ∧ (rowEstimates field array).sum ≤ usizeMax ∧
          (rowCosts field array).sum ≤ (rowEstimates field array).sum) ∧
      (array.dataType = field.dataType → Estimable field array)) ∧
    ∀ (σ ε : Type) (emit : σ → Bytes → σ × Except ε Unit) (arrays : List Column)
      (targetBytes total : Nat) (state state' : σ),
      encodeColumnChunks date field arrays targetBytes emit state = (state', .ok total) →
      ∃ estimates,
        List.Forall₂ (fun array est => estimatedEncodedSize field array = .ok est) arrays estimates ∧
        (total ≤ estimates.sum ↔
          costsOf field (allPieces field targetBytes arrays) ≤ estimatesOf field arrays) := by
  refine ⟨fun array bytes h => ⟨?_, fun htype => encodeColumn_estimable htype h⟩,
    fun σ ε emit arrays targetBytes total state state' h => ?_⟩
  · rw [← and_assoc, ← estimatedEncodedSize_isOk h, ← encodeColumn_cost h]
    constructor
    · rintro ⟨est, hest, hle⟩
      exact ⟨⟨est, hest⟩, by rwa [← (estimatedEncodedSize_eq hest).1]⟩
    · rintro ⟨⟨est, hest⟩, hle⟩
      exact ⟨est, hest, by rwa [(estimatedEncodedSize_eq hest).1]⟩
  · obtain ⟨slices, chunks, -, hchunks, -, hok⟩ := encodeColumnChunks_run h
    obtain ⟨rfl, hestimates, rfl⟩ := hok total rfl
    refine ⟨arrays.map fun array => (rowEstimates field array).sum, ?_, ?_⟩
    · rw [List.forall₂_map_right_iff, List.forall₂_same]
      intro array harray
      obtain ⟨est, hest⟩ := hestimates array harray
      rw [hest, (estimatedEncodedSize_eq hest).1]
    · rw [List.length_flatten, hchunks.lengths]
      rfl

theorem repeated_text_within_estimate :
    (∃ est, estimatedEncodedSize ⟨"a", .utf8 .standard, true, none⟩
        (.utf8 .standard [some ⟨[97], rfl⟩, some ⟨[97], rfl⟩]) = .ok est ∧ [97, 0, 129].length ≤ est) ∧
    ∃ estimates, List.Forall₂ (fun array est => estimatedEncodedSize
          ⟨"a", .utf8 .standard, true, none⟩ array = .ok est)
        [.utf8 .standard [some ⟨[97], rfl⟩, some ⟨[97], rfl⟩]] estimates ∧ 3 ≤ estimates.sum := by
  obtain ⟨hwhole, hchunks⟩ := encoded_size_within_estimate_iff (fun _ => none)
    ⟨"a", .utf8 .standard, true, none⟩
  obtain ⟨estimates, hestimates, hiff⟩ := hchunks (List Bytes) Empty collect
    [.utf8 .standard [some ⟨[97], rfl⟩, some ⟨[97], rfl⟩]] 8 3 [] [[97, 0, 129]] rfl
  refine ⟨(hwhole (.utf8 .standard [some ⟨[97], rfl⟩, some ⟨[97], rfl⟩]) [97, 0, 129] rfl).1.mpr
    ⟨fun _ => rfl, ?_, ?_⟩, estimates, hestimates, hiff.mpr ?_⟩ <;> decide

theorem inet4_null_exceeds_estimate :
    encodeColumn (fun _ => none) ⟨"a", .utf8 .standard, true, some "monetdb.inet4"⟩
      (.utf8 .standard [none]) = .ok [0, 0, 0, 0] ∧
    estimatedEncodedSize ⟨"a", .utf8 .standard, true, some "monetdb.inet4"⟩
      (.utf8 .standard [none]) = .ok 2 ∧
    encodeColumnChunks (fun _ => none) ⟨"a", .utf8 .standard, true, some "monetdb.inet4"⟩
      [.utf8 .standard [none]] 1024 collect [] = ([[0, 0, 0, 0]], .ok 4) := by
  refine ⟨?_, ?_, ?_⟩ <;> rfl

end Sizes

section Pieces
variable {σ ε : Type} {date : Int → Option Date} {field : Field} {targetBytes : Nat}

def record (emit : σ → Bytes → σ × Except ε Unit) (state : σ × List Bytes) (bytes : Bytes) :
    (σ × List Bytes) × Except ε Unit :=
  (((emit state.1 bytes).1, state.2 ++ [bytes]), (emit state.1 bytes).2)

theorem feed_record (emit : σ → Bytes → σ × Except ε Unit) (state : σ) (log chunks : List Bytes) :
    feed (record emit) (state, log) chunks = (feed emit state chunks, log ++ chunks) := by
  induction chunks generalizing state log with
  | nil => simp [feed]
  | cons bytes chunks ih =>
    rw [feed, List.foldl_cons, ← feed]
    exact (ih _ _).trans (by simp [feed])

def Bounded (targetBytes : Nat) (slices : List Column) (chunks : List Bytes) : Prop :=
  List.Forall₂ (fun slice bytes => bytes.length ≤ targetBytes ∨ slice.len = 1) slices chunks

theorem Encoded.bounded_iff {slices : List Column} {chunks : List Bytes}
    (h : Encoded date field slices chunks) :
    Bounded targetBytes slices chunks ↔
      ∀ slice ∈ slices, (rowCosts field slice).sum ≤ targetBytes ∨ slice.len = 1 := by
  induction h with
  | nil => exact ⟨nofun, fun _ => .nil⟩
  | cons hslice _ ih =>
    rw [Bounded, List.forall₂_cons, List.forall_mem_cons, encodeSlice_cost hslice]
    exact and_congr_right fun _ => ih

theorem chunk_bound_iff (date : Int → Option Date) (field : Field) (arrays : List Column)
    (targetBytes : Nat) (emit : σ → Bytes → σ × Except ε Unit) (state state' : σ)
    (chunks : List Bytes) (result : Except (ChunkedEncodeError ε) Nat)
    (h : encodeColumnChunks date field arrays targetBytes (record emit) (state, []) =
      ((state', chunks), result)) :
    ∃ slices, slices <+: allPieces field targetBytes arrays ∧ Encoded date field slices chunks ∧
      ((∀ piece ∈ allPieces field targetBytes arrays,
        (rowCosts field piece).sum ≤ targetBytes ∨ piece.len = 1) →
          Bounded targetBytes slices chunks) ∧
      ((∃ total, result = .ok total) → slices = allPieces field targetBytes arrays ∧
        (Bounded targetBytes slices chunks ↔ ∀ piece ∈ allPieces field targetBytes arrays,
          (rowCosts field piece).sum ≤ targetBytes ∨ piece.len = 1)) := by
  obtain ⟨slices, emitted, hinitial, hencoded, hstate, hok⟩ := encodeColumnChunks_run h
  rw [feed_record, List.nil_append, Prod.mk.injEq] at hstate
  obtain ⟨rfl, rfl⟩ := hstate
  refine ⟨slices, hinitial, hencoded, fun hall => hencoded.bounded_iff.mpr fun slice hslice =>
    hall slice (hinitial.subset hslice), ?_⟩
  rintro ⟨total, rfl⟩
  obtain ⟨rfl, -⟩ := hok total rfl
  exact ⟨rfl, hencoded.bounded_iff⟩

theorem short_texts_within_target :
    ∃ slices, slices <+: allPieces ⟨"a", .utf8 .standard, true, none⟩ 2
        [.utf8 .standard [some ⟨[97], rfl⟩, some ⟨[98], rfl⟩]] ∧
      Bounded 2 slices [[97, 0], [98, 0]] := by
  obtain ⟨slices, hinitial, -, -, hok⟩ := chunk_bound_iff (fun _ => none)
    ⟨"a", .utf8 .standard, true, none⟩ [.utf8 .standard [some ⟨[97], rfl⟩, some ⟨[98], rfl⟩]] 2
    collect [] [[97, 0], [98, 0]] [[97, 0], [98, 0]] (.ok 4) rfl
  exact ⟨slices, hinitial, (hok ⟨4, rfl⟩).2.mpr (by decide)⟩

theorem skewed_texts_exceed_target :
    encodeColumnChunks (fun _ => none) ⟨"a", .utf8 .standard, true, none⟩
        [.utf8 .standard [some ⟨[97, 97, 97, 97, 97], rfl⟩, some ⟨[], rfl⟩, some ⟨[], rfl⟩,
          some ⟨[], rfl⟩]] 5 collect [] =
      ([[97, 97, 97, 97, 97, 0, 0], [0, 129]], .ok 9) ∧
    allPieces ⟨"a", .utf8 .standard, true, none⟩ 5
        [.utf8 .standard [some ⟨[97, 97, 97, 97, 97], rfl⟩, some ⟨[], rfl⟩, some ⟨[], rfl⟩,
          some ⟨[], rfl⟩]] =
      [.utf8 .standard [some ⟨[97, 97, 97, 97, 97], rfl⟩, some ⟨[], rfl⟩],
        .utf8 .standard [some ⟨[], rfl⟩, some ⟨[], rfl⟩]] ∧
    ¬Bounded 5
      [.utf8 .standard [some ⟨[97, 97, 97, 97, 97], rfl⟩, some ⟨[], rfl⟩],
        .utf8 .standard [some ⟨[], rfl⟩, some ⟨[], rfl⟩]]
      [[97, 97, 97, 97, 97, 0, 0], [0, 129]] := by
  refine ⟨rfl, rfl, fun h => ?_⟩
  have hfirst := (List.forall₂_cons.mp h).1
  revert hfirst
  decide

end Pieces

end MonetdbAdbc
