import RemoteTerm.Foundation.Parity
import RemoteTerm.Foundation.Table
import RemoteTerm.Foundation.BitPack

/-!
# Pictures as channel data

`app/imaging/aeic/channel_data.py` cuts the bitstream of a picture into chunks, each a blob of its
own, and adds a chunk with the exclusive or of their bodies and lengths. `ChannelDataReassembler`
of `channel_data_ingest.py` collects the blobs until all data chunks are there, or all but one and
the parity.

A picture is known by the conversation, two bytes of its sender's key and an id. The clock counts
milliseconds. Lists that Python indexes out of range are `none` here.
-/

namespace RemoteTerm.Imaging

open Foundation

def blobBytes : Nat := 163
def headerBytes : Nat := 4
def parityLengthBytes : Nat := 1
def bodyBytes : Nat := blobBytes - headerBytes - parityLengthBytes
def metadataBytes : Nat := 1
def maxDataChunks : Nat := 15
def chunkZeroImageBytes : Nat := bodyBytes - metadataBytes

inductive ChannelDataFormatError where
  | senderPrefixOutOfRange (senderPrefix : Nat)
  | imageIdOutOfRange (imgId : Nat)
  | totalOutOfRange (total : Nat)
  | indexOutOfRange (index total : Nat)
  | bodyExceedsBlob (length : Nat)
  | emptyBitstream
  | metadataByteOutOfRange (metadataByte : Nat)
  | tooManyChunks (count : Nat)
  /-- Not a format error: an index behind the end of an array. -/
  | indexError
  deriving DecidableEq, Repr

structure ChannelDataChunk where
  senderPrefix : Nat
  imgId : Nat
  index : Nat
  total : Nat
  body : Bytes
  deriving DecidableEq, Repr

def ChannelDataChunk.isParity (chunk : ChannelDataChunk) : Bool := chunk.index = chunk.total

/-! ## Sending -/

/-- Four bytes of header and the body. -/
def buildChunkBlob (senderPrefix imgId index total : Nat) (body : Bytes) :
    Except ChannelDataFormatError Bytes :=
  if ¬senderPrefix ≤ 0xFFFF then .error (.senderPrefixOutOfRange senderPrefix)
  else if ¬imgId ≤ 0xFF then .error (.imageIdOutOfRange imgId)
  else if ¬(1 ≤ total ∧ total ≤ maxDataChunks) then .error (.totalOutOfRange total)
  else if ¬index ≤ total then .error (.indexOutOfRange index total)
  else if bodyBytes + parityLengthBytes < body.length then .error (.bodyExceedsBlob body.length)
  else
    .ok ([.ofNat (senderPrefix / 0x100), .ofNat senderPrefix, .ofNat imgId,
      .ofNat (index % 0x10 * 0x10 + total % 0x10)] ++ body)

def parseChunkBlob (blob : Bytes) : Option ChannelDataChunk :=
  match blob with
  | b₀ :: b₁ :: b₂ :: b₃ :: body =>
    let total := b₃.toNat % 0x10
    let index := b₃.toNat / 0x10
    if body = [] ∨ total < 1 ∨ total < index then none
    else some ⟨b₀.toNat * 0x100 + b₁.toNat, b₂.toNat, index, total, body⟩
  | _ => none

/-- The loop of `split_image_bodies`. -/
def splitLoop (bitstream : Bytes) (offset : Nat) (bodies : List Bytes) : List Bytes :=
  if offset < bitstream.length then
    splitLoop bitstream (offset + bodyBytes) (bodies ++ [(bitstream.drop offset).take bodyBytes])
  else bodies
termination_by bitstream.length - offset
decreasing_by
  unfold bodyBytes blobBytes headerBytes parityLengthBytes
  omega

/-- The metadata byte and the bitstream, in bodies of full length. -/
def splitImageBodies (bitstream : Bytes) (metadataByte : Nat) :
    Except ChannelDataFormatError (List Bytes) :=
  if bitstream = [] then .error .emptyBitstream
  else if ¬metadataByte ≤ 0xFF then .error (.metadataByteOutOfRange metadataByte)
  else
    let bodies := splitLoop bitstream chunkZeroImageBytes
      [.ofNat metadataByte :: bitstream.take chunkZeroImageBytes]
    if maxDataChunks < bodies.length then .error (.tooManyChunks bodies.length) else .ok bodies

/-- Exclusive or of the lengths. -/
def lengthXor (start : Nat) (bodies : List Bytes) : Nat :=
  (bodies.map List.length).foldl (· ^^^ ·) start

def buildParityBody (bodies : List Bytes) : Option Bytes :=
  (xorAll (List.replicate bodyBytes 0) bodies).map (.ofNat (lengthXor 0 bodies) :: ·)

/-- The blobs of all bodies, and the parity. -/
def buildImageChunks (bitstream : Bytes) (metadataByte senderPrefix imgId : Nat)
    (withParity : Bool) :
    Except ChannelDataFormatError (List Bytes) := do
  let bodies ← splitImageBodies bitstream metadataByte
  let total := bodies.length
  let blobs ← bodies.zipIdx.mapM fun (body, index) =>
    buildChunkBlob senderPrefix imgId index total body
  if withParity then
    match buildParityBody bodies with
    | none => .error .indexError
    | some parityBody =>
      let parity ← buildChunkBlob senderPrefix imgId total total parityBody
      return blobs ++ [parity]
  else return blobs

/-! ## Receiving -/

structure PendingImage where
  total : Nat
  bodies : Table Nat Bytes
  parityBody : Option Bytes
  firstSeen : Int
  lastSeen : Int

namespace PendingImage

variable (entry : PendingImage)

/-- The first data chunk that is not there. -/
def missing? : Option Nat := (List.range entry.total).find? fun i => (entry.bodies.get? i).isNone

def isComplete : Bool := entry.bodies.size = entry.total ∧ entry.missing? = none

def isRecoverable : Bool := entry.parityBody.isSome ∧ entry.bodies.size + 1 = entry.total

/-- The exclusive or of the parity and the bodies that came, cut to length. -/
def recoverMissingBody : Except ChannelDataFormatError (Option Bytes) :=
  match entry.parityBody, entry.missing? with
  | some parity, some missing =>
    if ¬entry.isRecoverable then .ok none
    else
      match parity with
      | [] => .error .indexError
      | lengthByte :: parity =>
        let start := parity.take bodyBytes ++ List.replicate (bodyBytes - parity.length) 0
        match xorAll start entry.bodies.values with
        | none => .error .indexError
        | some xor =>
          let length := lengthXor lengthByte.toNat entry.bodies.values
          if bodyBytes < length then .ok none
          else if missing = 0 ∧ length < metadataBytes then .ok none
          else if missing + 1 < entry.total ∧ length ≠ bodyBytes then .ok none
          else .ok (some (xor.take length))
  | _, _ => .ok none

/-- The bitstream and the metadata byte. -/
def assemble : Option (Bytes × UInt8) :=
  match entry.bodies.get? 0 with
  | some (metadataByte :: image) => do
    let rest ← (List.range' 1 (entry.total - 1)).mapM entry.bodies.get?
    return (image ++ rest.flatten, metadataByte)
  | _ => none

/-- `setdefault` for data, an assignment for the parity. -/
def absorb (chunk : ChannelDataChunk) : PendingImage :=
  if chunk.isParity then { entry with parityBody := some chunk.body }
  else if (entry.bodies.get? chunk.index).isSome then entry
  else { entry with bodies := entry.bodies.set chunk.index chunk.body }

end PendingImage

def sessionTtl : Int := 600000
def maxPendingImages : Nat := 32

structure ImageKey where
  conversationKey : Text
  senderPrefix : Nat
  imgId : Nat
  deriving DecidableEq, Repr

structure ChannelDataReassembler where
  pending : Table ImageKey PendingImage
  /-- When it was finished, and its number of chunks. -/
  completed : Table ImageKey (Int × Nat)

/-- A blob comes in. -/
structure Arrival where
  conversationKey : Text
  blob : Bytes
  now : Int
  deriving DecidableEq, Repr

/-- Bitstream, metadata byte, and whether a chunk had to be rebuilt. -/
abbrev ImageResult := Bytes × UInt8 × Bool

namespace ChannelDataReassembler

def empty : ChannelDataReassembler := ⟨.empty, .empty⟩

variable (r : ChannelDataReassembler)

def expire (now : Int) : ChannelDataReassembler where
  pending := r.pending.filter fun _ entry => ¬now - entry.lastSeen > sessionTtl
  completed := r.completed.filter fun _ finished => ¬now - finished.1 > sessionTtl

def alreadyFinished (key : ImageKey) (total : Nat) (now : Int) : Bool :=
  match r.completed.get? key with
  | none => false
  | some (finishedAt, completedTotal) => completedTotal = total ∧ now - finishedAt ≤ sessionTtl

/-- Drop the entry that was seen first, other than the protected one. -/
def evictOldest (protect : ImageKey) (pending : Table ImageKey PendingImage) :
    Table ImageKey PendingImage :=
  match (pending.entries.filter (·.1 ≠ protect)).minOn? (·.2.firstSeen) with
  | none => pending
  | some oldest => pending.erase oldest.1

/-- As often as there are too many. -/
def enforceCap (protect : ImageKey) (pending : Table ImageKey PendingImage) :
    Table ImageKey PendingImage :=
  (evictOldest protect)^[pending.size - maxPendingImages] pending

def forgetOldest (completed : Table ImageKey (Int × Nat)) : Table ImageKey (Int × Nat) :=
  match completed.entries.minOn? (·.2.1) with
  | none => completed
  | some oldest => completed.erase oldest.1

def trimCompleted (completed : Table ImageKey (Int × Nat)) : Table ImageKey (Int × Nat) :=
  forgetOldest^[completed.size - maxPendingImages] completed

/-- The entry that takes a chunk: a new one for a new picture, also when only the number
of chunks is new. -/
def entryFor (key : ImageKey) (total : Nat) (now : Int) : PendingImage :=
  match r.pending.get? key with
  | some entry =>
    if entry.total = total then { entry with lastSeen := now } else ⟨total, .empty, none, now, now⟩
  | none => ⟨total, .empty, none, now, now⟩

/-- All data chunks are there. -/
def finish (key : ImageKey) (now : Int) (entry : PendingImage) (recovered : Bool) :
    ChannelDataReassembler × Option ImageResult :=
  match entry.assemble with
  | none => (r, none)
  | some (bitstream, metadataByte) =>
    (⟨r.pending.erase key, trimCompleted (r.completed.set key (now, entry.total))⟩,
      some (bitstream, metadataByte, recovered))

/-- Look whether the picture is whole or can be made so. -/
def tryFinish (key : ImageKey) (now : Int) (entry : PendingImage) :
    ChannelDataReassembler × Except ChannelDataFormatError (Option ImageResult) :=
  if entry.isComplete then
    let (r, result) := r.finish key now entry false
    (r, .ok result)
  else
    match entry.recoverMissingBody, entry.missing? with
    | .error error, _ => (r, .error error)
    | .ok (some rebuilt), some missing =>
      let entry := { entry with bodies := entry.bodies.set missing rebuilt }
      let (r, result) :=
        finish { r with pending := r.pending.set key entry } key now entry true
      (r, .ok result)
    | .ok _, _ => (r, .ok none)

/-- A blob that came in: the table afterwards, and the picture if it is finished. -/
def noteChunk (a : Arrival) :
    ChannelDataReassembler × Except ChannelDataFormatError (Option ImageResult) :=
  match parseChunkBlob a.blob with
  | none => (r, .ok none)
  | some chunk =>
    let r := r.expire a.now
    let key : ImageKey := ⟨a.conversationKey, chunk.senderPrefix, chunk.imgId⟩
    if r.alreadyFinished key chunk.total a.now then (r, .ok none)
    else
      let entry := r.entryFor key chunk.total a.now
      let pending := enforceCap key (r.pending.set key entry)
      let entry := entry.absorb chunk
      tryFinish { r with pending := pending.set key entry } key a.now entry

end ChannelDataReassembler

end RemoteTerm.Imaging
