import MonetdbAdbc.Driver.RecordBatch

namespace MonetdbAdbc.Driver
open LittleEndian Machine

inductive WireCompression where
  | none
  | auto
  | lz4
  deriving DecidableEq, Repr

inductive CompressionTransform where
  | plain
  | shuffle (width : Nat)
  deriving DecidableEq, Repr

inductive CompressionFormat where
  | block
  | frame
  deriving DecidableEq, Repr

inductive CompressionMode where
  | unknown
  | enabled (transform : CompressionTransform)
  | disabled
  deriving DecidableEq, Repr

def encodeChunkBytes : Nat := 1024 * 1024

def minEncodeBufferBytes : Nat := 64 * 1024

def compressedArenaSlabBytes : Nat := 16 * 1024 * 1024

def compressionProbeBytes : Nat := 256 * 1024

structure CompressedSlab where
  data : Bytes
  used : Nat
  used_le : used ≤ data.length

def copyInto (data : Bytes) (offset : Nat) (bytes : Bytes) : Bytes :=
  data.take offset ++ bytes ++ data.drop (offset + bytes.length)

theorem length_copyInto {data bytes : Bytes} {offset : Nat}
    (h : offset + bytes.length ≤ data.length) :
    (copyInto data offset bytes).length = data.length := by
  simp only [copyInto, List.length_append, List.length_take, List.length_drop]
  omega

namespace CompressedSlab

def mapAnon (capacity : Nat) : CompressedSlab := ⟨List.replicate capacity 0, 0, Nat.zero_le _⟩

def write (slab : CompressedSlab) (bytes : Bytes)
    (h : bytes.length ≤ slab.data.length - slab.used) : CompressedSlab where
  data := copyInto slab.data slab.used bytes
  used := slab.used + bytes.length
  used_le := by
    have hused := slab.used_le
    rw [length_copyInto (by omega)]
    omega

theorem mapAnon_room (bytes : Bytes) (least : Nat) :
    bytes.length ≤ (mapAnon (max least bytes.length)).data.length -
      (mapAnon (max least bytes.length)).used := by
  simp [mapAnon]

end CompressedSlab

structure CompressedArena where
  slabs : List CompressedSlab

structure CompressedData where
  slab : Nat
  offset : Nat
  deriving DecidableEq, Repr

namespace CompressedArena

def append (slabs : List CompressedSlab) (slab : CompressedSlab) (bytes : Bytes)
    (h : bytes.length ≤ slab.data.length - slab.used) : CompressedData × CompressedArena :=
  (⟨slabs.length, slab.used⟩, ⟨slabs ++ [slab.write bytes h]⟩)

def store (arena : CompressedArena) (bytes : Bytes) : CompressedData × CompressedArena :=
  match arena.slabs.getLast? with
  | some slab =>
    if h : bytes.length ≤ slab.data.length - slab.used then
      append arena.slabs.dropLast slab bytes h
    else
      append arena.slabs (.mapAnon (max compressedArenaSlabBytes bytes.length)) bytes
        (CompressedSlab.mapAnon_room bytes _)
  | none =>
    append arena.slabs (.mapAnon (max compressedArenaSlabBytes bytes.length)) bytes
      (CompressedSlab.mapAnon_room bytes _)

def slice (arena : CompressedArena) (data : CompressedData) (len : Nat) : Option Bytes :=
  match arena.slabs[data.slab]? with
  | some slab =>
    if data.offset + len ≤ slab.data.length then some ((slab.data.drop data.offset).take len)
    else none
  | none => none

def physicalBytes (arena : CompressedArena) : Nat :=
  (arena.slabs.map fun slab => slab.data.length).sum

end CompressedArena

inductive EncodedChunk where
  | raw (data : Bytes)
  | lz4 (data : CompressedData) (len decodedLen : Nat) (transform : CompressionTransform)
      (format : CompressionFormat)

def EncodedChunk.storedLen : EncodedChunk → Nat
  | .raw data => data.length
  | .lz4 _ len _ _ _ => len

structure PendingEncodedChunk where
  capacity : Nat
  data : Bytes

structure EncodedColumn where
  chunks : List EncodedChunk
  pending : Option PendingEncodedChunk
  compression : CompressionMode
  fixedWidth : Option Nat
  wireCompression : WireCompression
  bytes : Nat

inductive Lz4Failure where
  | write (value : String)
  | finish (value : String)
  deriving DecidableEq, Repr

structure Lz4 where
  compressBlock : Bytes → Except String Bytes
  compressFrame : Bytes → Except Lz4Failure Bytes

-- What decoding writes into an output of the given length, and how many bytes a frame still
-- yields after that many were read.
structure Lz4Decoder where
  decompressBlock : Bytes → Nat → Except String Bytes
  readExact : Bytes → Nat → Except String Bytes
  readTrailing : Bytes → Nat → Except String Nat

def Lz4Failure.message : Lz4Failure → String
  | .write value => "compressing an ingest buffer failed: " ++ value
  | .finish value => "finishing an ingest compression frame failed: " ++ value

def shuffleBytes (input : Bytes) (width : Nat) : Bytes :=
  let alignedLen := input.length - input.length % width
  let rows := alignedLen / width
  (List.range width).flatMap (fun byte =>
    (List.range rows).map fun row => input.getD (row * width + byte) 0) ++ input.drop alignedLen

def unshuffleBytes (input : Bytes) (width : Nat) (output : Bytes) : Bytes :=
  let alignedLen := input.length - input.length % width
  let rows := alignedLen / width
  let scattered := (List.range width).foldl (fun output byte =>
    (List.range rows).foldl (fun output row =>
      output.set (row * width + byte) (input.getD (byte * rows + row) 0)) output) output
  scattered.take alignedLen ++ input.drop alignedLen

section Compression
variable (lz4 : Lz4)

def compressedBytes (format : CompressionFormat) (input : Bytes) : Except IngestError Bytes :=
  match format with
  | .block => (lz4.compressBlock input).mapError fun value =>
      .fileTransfer ("compressing an ingest buffer failed: " ++ value)
  | .frame => (lz4.compressFrame input).mapError fun failure => .fileTransfer failure.message

def bestTransform (plain : Bytes) (plainLen : Nat) (fixedWidth : Option Nat)
    (allowShuffle : Bool) (format : CompressionFormat) :
    Except IngestError (CompressionTransform × Nat) :=
  match fixedWidth.filter (fun width => 1 < width) with
  | some width =>
    if allowShuffle && decide (0 < plain.length - plain.length % width) then
      (compressedBytes lz4 format (shuffleBytes plain width)).map fun shuffled =>
        if shuffled.length < plainLen then (.shuffle width, shuffled.length) else (.plain, plainLen)
    else .ok (.plain, plainLen)
  | none => .ok (.plain, plainLen)

def selectCompressionTransform (input : Bytes) (fixedWidth : Option Nat) (allowShuffle : Bool)
    (format : CompressionFormat) : Except IngestError (Option CompressionTransform) := do
  let sampleLen := min compressionProbeBytes input.length
  let plain := input.take sampleLen
  let plainCompressed ← compressedBytes lz4 format plain
  let best ← bestTransform lz4 plain plainCompressed.length fixedWidth allowShuffle format
  .ok (if saturatingMul best.2 8 ≤ saturatingMul plain.length 7 then some best.1 else none)

def compressBytes (input : Bytes) (transform : CompressionTransform) (format : CompressionFormat) :
    Except IngestError Bytes :=
  match transform with
  | .plain => compressedBytes lz4 format input
  | .shuffle width => compressedBytes lz4 format (shuffleBytes input width)

namespace EncodedColumn
variable (column : EncodedColumn)

def new (fixedWidth : Option Nat) (wireCompression : WireCompression) : EncodedColumn :=
  ⟨[], none, .unknown, fixedWidth, wireCompression, 0⟩

def chosenTransform (input : Bytes) : Except IngestError (Option CompressionTransform) :=
  match column.compression with
  | .unknown =>
    if column.wireCompression = .lz4 then .ok (some .plain)
    else selectCompressionTransform lz4 input column.fixedWidth (column.wireCompression != .lz4)
      (if column.wireCompression = .lz4 then .frame else .block)
  | .enabled transform => .ok (some transform)
  | .disabled => .ok none

def compressedWith (input : Bytes) (transform : CompressionTransform) :
    Except IngestError (Option (Bytes × CompressionTransform × CompressionFormat)) :=
  let format := if column.wireCompression ≠ .none ∧ transform = .plain then
    CompressionFormat.frame else .block
  (compressBytes lz4 input transform format).map fun compressed =>
    if column.wireCompression ≠ .lz4 ∧
        saturatingMul compressed.length 8 > saturatingMul input.length 7 then none
    else some (compressed, transform, format)

def compressedChunk (input : Bytes) :
    Except IngestError (Option (Bytes × CompressionTransform × CompressionFormat)) := do
  match ← chosenTransform lz4 column input with
  | none => .ok none
  | some transform => compressedWith lz4 column input transform

def fileChunk (arena : CompressedArena) (input : Bytes) :
    Option (Bytes × CompressionTransform × CompressionFormat) → EncodedColumn × CompressedArena
  | some (compressed, transform, format) =>
    ({ column with
      pending := none
      compression := .enabled transform
      chunks := column.chunks ++
        [.lz4 (arena.store compressed).1 compressed.length input.length transform format] },
      (arena.store compressed).2)
  | none =>
    ({ column with
      pending := none
      compression := .disabled
      chunks := column.chunks ++ [.raw input] }, arena)

def finishPending (arena : CompressedArena) :
    Except IngestError (EncodedColumn × CompressedArena) :=
  match column.pending with
  | none => .ok (column, arena)
  | some pending =>
    (compressedChunk lz4 column pending.data).map (fileChunk column arena pending.data)

def pendingOr (bytes : Bytes) : PendingEncodedChunk :=
  column.pending.getD ⟨max minEncodeBufferBytes (min bytes.length encodeChunkBytes), []⟩

def copiedLen (pending : PendingEncodedChunk) (bytes : Bytes) : Nat :=
  min bytes.length (pending.capacity - pending.data.length)

def fill (pending : PendingEncodedChunk) (bytes : Bytes) : PendingEncodedChunk :=
  ⟨pending.capacity, pending.data ++ bytes.take (copiedLen pending bytes)⟩

def finishIfFull (arena : CompressedArena)
    (filled : PendingEncodedChunk) : Except IngestError (EncodedColumn × CompressedArena) :=
  if filled.data.length = filled.capacity then
    finishPending lz4 { column with pending := some filled } arena
  else .ok ({ column with pending := some filled }, arena)

def pushFrom : Nat → EncodedColumn → CompressedArena → Bytes →
    Except IngestError (EncodedColumn × CompressedArena)
  | _, column, arena, [] => .ok (column, arena)
  | 0, _, _, _ :: _ => .error .stuck
  | fuel + 1, column, arena, bytes@(_ :: _) => do
    let pending := pendingOr column bytes
    let (column, arena) ← finishIfFull lz4 column arena (fill pending bytes)
    pushFrom fuel column arena (bytes.drop (copiedLen pending bytes))

def push (arena : CompressedArena) (bytes : Bytes) :
    Except IngestError (EncodedColumn × CompressedArena) :=
  pushFrom lz4 bytes.length column arena bytes

def storedBytes : Nat := (column.chunks.map EncodedChunk.storedLen).sum

def rawBytes : Nat :=
  (column.chunks.map fun
    | .raw data => data.length
    | .lz4 .. => 0).sum

end EncodedColumn

end Compression

section Upload
variable (decoder : Lz4Decoder)

def decompressFrameInto (input : Bytes) (len : Nat) : Except IngestError Bytes := do
  let output ← (decoder.readExact input len).mapError fun value =>
    .fileTransfer ("decompressing an ingest buffer failed: " ++ value)
  let trailing ← (decoder.readTrailing input len).mapError fun value =>
    .fileTransfer ("finishing ingest decompression failed: " ++ value)
  if trailing ≠ 0 then
    .error (.fileTransfer "decompressed ingest buffer exceeds its declared size")
  else .ok output

def decodedBytes (format : CompressionFormat) (input : Bytes) (len : Nat) :
    Except IngestError Bytes :=
  match format with
  | .block => (decoder.decompressBlock input len).mapError fun value =>
      .fileTransfer ("decompressing an ingest buffer failed: " ++ value)
  | .frame => decompressFrameInto decoder input len

def unshuffleBuffer (unshuffled : Option Bytes) (decodedLen : Nat) : Bytes :=
  match unshuffled with
  | some buffer => if buffer.length < decodedLen then List.replicate decodedLen 0 else buffer
  | none => List.replicate decodedLen 0

-- The bytes one stored chunk sends and the unshuffle buffer the next chunk finds.
def uploadChunk (wireLz4 : Bool) (arena : CompressedArena) (unshuffled : Option Bytes) :
    EncodedChunk → Except IngestError (Bytes × Option Bytes)
  | .raw data => .ok (data, unshuffled)
  | .lz4 data len decodedLen transform format => do
    let input ← okOr .overflow (arena.slice data len)
    if wireLz4 then
      if transform ≠ .plain ∨ format ≠ .frame then
        .error (.fileTransfer "wire-compressed ingest contains a client-only transform")
      else .ok (input, unshuffled)
    else
      let decoded ← decodedBytes decoder format input decodedLen
      if decoded.length ≠ decodedLen then
        .error (.fileTransfer ("decompressed ingest buffer has " ++ toString decoded.length ++
          " bytes, expected " ++ toString decodedLen))
      else match transform with
        | .plain => .ok (decoded, unshuffled)
        | .shuffle width =>
          let buffer := unshuffleBuffer unshuffled decodedLen
          let output := unshuffleBytes decoded width (buffer.take decodedLen)
          .ok (output, some (output ++ buffer.drop decodedLen))

def uploadChunks (wireLz4 : Bool) (arena : CompressedArena) :
    Option Bytes → List EncodedChunk → Except IngestError Bytes
  | _, [] => .ok []
  | unshuffled, chunk :: chunks => do
    let (bytes, unshuffled) ← uploadChunk decoder wireLz4 arena unshuffled chunk
    let rest ← uploadChunks wireLz4 arena unshuffled chunks
    .ok (bytes ++ rest)

end Upload

end MonetdbAdbc.Driver
