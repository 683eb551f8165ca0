import MonetdbAdbc.Encode

namespace MonetdbAdbc
open LittleEndian Utf8 Machine Rows Ieee754 Calendar

inductive ChunkedEncodeError (ε : Type) where
  | encode (error : EncodeError)
  | sink (error : ε)
  deriving DecidableEq, Repr

section Estimate

def checkedEncodedSize (rows width : Nat) : Except EncodeError Nat :=
  okOr (.invalidValue 0 "encoded column length overflows") (checkedMul rows width)

def estimatedTotal (rows : Nat) (message : String) : Nat → List Nat → Except EncodeError Nat
  | total, [] => .ok total
  | total, size :: sizes =>
    match checkedAdd total size with
    | none => invalid rows message
    | some total => estimatedTotal rows message total sizes

def estimatedStrings (values : List (Option Str)) : Except EncodeError Nat :=
  estimatedTotal values.length "encoded string column length overflows" 0
    (values.map fun value => value.elim 2 fun value => saturatingAdd value.bytes.length 1)

def estimatedBlobs (values : List (Option Bytes)) : Except EncodeError Nat :=
  estimatedTotal values.length "encoded BLOB column length overflows" 0
    (values.map fun value => saturatingAdd 8 (value.elim 0 List.length))

def estimatedDictionaryStrings (key : DataType) (keys : List (Option Nat)) (values : Column) :
    Except EncodeError Nat :=
  match isDictionaryKey key, values with
  | true, .utf8 _ strings => do
    let _ ← mapRows (fun row index =>
      if index.any (strings.length ≤ ·) then
        invalid row "dictionary key is outside the dictionary values"
      else .ok ()) keys
    estimatedStrings (keys.map fun index => index.bind fun index => strings[index]?.join)
  | _, values => .error (.unsupported (.dictionary key values.dataType))

def estimatedVariable : Column → Except EncodeError Nat
  | .utf8 _ values => estimatedStrings values
  | .dictionary key keys values => estimatedDictionaryStrings key keys values
  | .binary _ values => estimatedBlobs values
  | .fixedSizeBinary _ values => estimatedBlobs (values.map (·.map Subtype.val))
  | array => .error (.unsupported array.dataType)

def estimatedEncodedSize (field : Field) (array : Column) : Except EncodeError Nat := do
  match ← arrayWireWidth field array.dataType with
  | some width => checkedEncodedSize array.len width
  | none => estimatedVariable array

end Estimate

section Borrowed
variable {w : Nat}

def nativeBytes (slots : List (Slot w)) : Bytes := (slots.map fun slot => leBytes slot.value).flatten

def borrowedNative (slots : List (Slot w)) : Option Bytes :=
  if slots.all (!·.isNull) then some (nativeBytes slots) else none

-- A masked minimum ends the search without an error: encode_column repeats it.
def borrowedSigned (row : Nat) (all : List (Slot w)) :
    List (Slot w) → Except EncodeError (Option Bytes)
  | [] => .ok (borrowedNative all)
  | slot :: slots =>
    if slot.value = BitVec.intMin w then
      if slot.isNull then .ok none
      else invalid row "value collides with MonetDB's NULL sentinel"
    else borrowedSigned (row + 1) all slots

def borrowedFloat (isFinite : BitVec w → Bool) (slots : List (Slot w)) :
    Except EncodeError (Option Bytes) := do
  let _ ← mapRows (fun row slot =>
    if !slot.isNull && !isFinite slot.value then invalid row nonFinite else .ok ()) slots
  .ok (borrowedNative slots)

def borrowedWireBytes : Column → Except EncodeError (Option Bytes)
  | .primitive .int8 slots => borrowedSigned 0 slots slots
  | .primitive .int16 slots => borrowedSigned 0 slots slots
  | .primitive .int32 slots => borrowedSigned 0 slots slots
  | .primitive .int64 slots => borrowedSigned 0 slots slots
  | .primitive .float32 slots => borrowedFloat f32IsFinite slots
  | .primitive .float64 slots => borrowedFloat f64IsFinite slots
  | _ => .ok none

end Borrowed

section Chunks
variable (dateFromUnixDays : Int → Option Date) {σ ε : Type} {field : Field} {chunks : List Bytes}

def rowsPerChunk (targetBytes len estimated : Nat) : Nat :=
  if estimated = 0 then max len 1
  else max 1 (min (saturatingMul targetBytes len / estimated) (max len 1))

def chunkStarts (len rows : Nat) : List Nat :=
  (List.range ((len + rows - 1) / rows)).map (· * rows)

def encodeSlice (field : Field) (slice : Column) : Except EncodeError Bytes := do
  match ← borrowedWireBytes slice with
  | some bytes => .ok bytes
  | none => encodeColumn dateFromUnixDays field slice

def encodeSlices (field : Field) (array : Column) (rows : Nat)
    (emit : σ → Bytes → σ × Except ε Unit) :
    List Nat → Nat → σ → σ × Except (ChunkedEncodeError ε) Nat
  | [], total, state => (state, .ok total)
  | start :: starts, total, state =>
    match encodeSlice dateFromUnixDays field (array.slice start (min (array.len - start) rows)) with
    | .error error => (state, .error (.encode error))
    | .ok bytes =>
      match checkedAdd total bytes.length with
      | none => (state, .error (.encode (.invalidValue 0 "encoded column length overflows")))
      | some total =>
        match emit state bytes with
        | (state, .error error) => (state, .error (.sink error))
        | (state, .ok _) => encodeSlices field array rows emit starts total state

def encodeArrays (field : Field) (targetBytes : Nat) (emit : σ → Bytes → σ × Except ε Unit) :
    List Column → Nat → σ → σ × Except (ChunkedEncodeError ε) Nat
  | [], total, state => (state, .ok total)
  | array :: arrays, total, state =>
    match estimatedEncodedSize field array with
    | .error error => (state, .error (.encode error))
    | .ok estimated =>
      let rows := rowsPerChunk targetBytes array.len estimated
      match encodeSlices dateFromUnixDays field array rows emit (chunkStarts array.len rows) total
          state with
      | (state, .error error) => (state, .error error)
      | (state, .ok total) => encodeArrays field targetBytes emit arrays total state

def encodeColumnChunks (field : Field) (arrays : List Column) (targetBytes : Nat)
    (emit : σ → Bytes → σ × Except ε Unit) (state : σ) : σ × Except (ChunkedEncodeError ε) Nat :=
  encodeArrays dateFromUnixDays field targetBytes emit arrays 0 state

def collect (chunks : List Bytes) (chunk : Bytes) : List Bytes × Except Empty Unit :=
  (chunks ++ [chunk], .ok ())

theorem encodeSlices_total {array : Column} {rows : Nat} {starts : List Nat}
    {total finalTotal : Nat} {finalChunks : List Bytes}
    (h : encodeSlices dateFromUnixDays field array rows collect starts total chunks =
      (finalChunks, .ok finalTotal))
    (hchunks : total = chunks.flatten.length) : finalTotal = finalChunks.flatten.length := by
  induction starts generalizing total chunks with
  | nil =>
    simp only [encodeSlices, Prod.mk.injEq, Except.ok.injEq] at h
    rw [← h.1, ← h.2, hchunks]
  | cons start starts ih =>
    rw [encodeSlices] at h
    split at h
    case h_1 error herror => simp at h
    case h_2 bytes hbytes =>
      split at h
      case h_1 hadd => simp at h
      case h_2 added hadd =>
        obtain ⟨-, rfl⟩ := checkedAdd_eq_some.mp hadd
        exact ih h (by simp [hchunks])

theorem encodeArrays_total {targetBytes : Nat} {arrays : List Column} {total finalTotal : Nat}
    {finalChunks : List Bytes}
    (h : encodeArrays dateFromUnixDays field targetBytes collect arrays total chunks =
      (finalChunks, .ok finalTotal))
    (hchunks : total = chunks.flatten.length) : finalTotal = finalChunks.flatten.length := by
  induction arrays generalizing total chunks with
  | nil =>
    simp only [encodeArrays, Prod.mk.injEq, Except.ok.injEq] at h
    rw [← h.1, ← h.2, hchunks]
  | cons array arrays ih =>
    rw [encodeArrays] at h
    split at h
    case h_1 error herror => simp at h
    case h_2 estimated hestimated =>
      dsimp only at h
      split at h
      case h_1 state error hslices => simp at h
      case h_2 state added hslices =>
        exact ih h (encodeSlices_total dateFromUnixDays hslices hchunks)

theorem encodeColumnChunks_total {arrays : List Column} {targetBytes total : Nat}
    (h : encodeColumnChunks dateFromUnixDays field arrays targetBytes collect [] =
      (chunks, .ok total)) : total = chunks.flatten.length :=
  encodeArrays_total dateFromUnixDays h rfl

end Chunks

end MonetdbAdbc
