import RemoteTerm.Foundation.LittleEndian

/-!
# The framing of a packet

`parse_packet_envelope` (`app/path_utils.py`) and `parse_packet` (`app/decoder.py`): a
header byte, two transport codes on scoped routes, a byte that packs the length and the
width of the path, the path, and at least one byte of payload.
-/

namespace RemoteTerm.Packets

open Foundation List

inductive RouteType where
  | transportFlood
  | flood
  | direct
  | transportDirect
  deriving DecidableEq, Repr

inductive PayloadType where
  | request
  | response
  | textMessage
  | ack
  | advert
  | groupText
  | groupData
  | anonRequest
  | path
  | trace
  | multipart
  | control
  | rawCustom
  deriving DecidableEq, Repr

def RouteType.ofValue : Nat → Option RouteType
  | 0x00 => some .transportFlood
  | 0x01 => some .flood
  | 0x02 => some .direct
  | 0x03 => some .transportDirect
  | _ => none

def PayloadType.ofValue : Nat → Option PayloadType
  | 0x00 => some .request
  | 0x01 => some .response
  | 0x02 => some .textMessage
  | 0x03 => some .ack
  | 0x04 => some .advert
  | 0x05 => some .groupText
  | 0x06 => some .groupData
  | 0x07 => some .anonRequest
  | 0x08 => some .path
  | 0x09 => some .trace
  | 0x0A => some .multipart
  | 0x0B => some .control
  | 0x0F => some .rawCustom
  | _ => none

/-! ## The path byte -/

def maxPathSize : Nat := 64

/-- Number of hops and bytes for each; mode 3 is reserved. -/
def decodePathByte (pathByte : UInt8) : Option (Nat × Nat) :=
  let hashMode := pathByte.toNat >>> 6 &&& 0x03
  if hashMode = 3 then none else some (pathByte.toNat &&& 0x3F, hashMode + 1)

def pathWireLen (hopCount hashSize : Nat) : Nat := hopCount * hashSize

def validatePathByte (pathByte : UInt8) : Option (Nat × Nat × Nat) :=
  (decodePathByte pathByte).bind fun (hopCount, hashSize) =>
    let byteLen := pathWireLen hopCount hashSize
    if maxPathSize < byteLen then none else some (hopCount, hashSize, byteLen)

/-! ## The envelope -/

structure ParsedPacketEnvelope where
  header : UInt8
  routeType : Nat
  payloadType : Nat
  payloadVersion : Nat
  pathByte : UInt8
  hopCount : Nat
  hashSize : Nat
  path : Bytes
  payload : Bytes
  payloadOffset : Nat
  transportCodes : Option (Nat × Nat)
  deriving DecidableEq, Repr

/-- The routes whose packets carry transport codes. -/
def hasTransportCodes (header : UInt8) : Bool :=
  let routeType := header.toNat &&& 0x03
  routeType = 0x00 || routeType = 0x03

/-- The parts of a frame, `none` if it is too short. -/
def parsePacketEnvelope (rawPacket : Bytes) : Option ParsedPacketEnvelope :=
  if rawPacket.length < 2 then none
  else
    let header := rawPacket.headD 0
    let transport := hasTransportCodes header
    if transport ∧ rawPacket.length < 1 + 4 then none
    else
      let offset := if transport then 1 + 4 else 1
      if rawPacket.length < offset + 1 then none
      else
        let pathByte := rawPacket.getD offset 0
        (validatePathByte pathByte).bind fun (hopCount, hashSize, pathByteLen) =>
          if rawPacket.length < offset + 1 + pathByteLen then none
          else
            let payloadOffset := offset + 1 + pathByteLen
            if rawPacket.length ≤ payloadOffset then none
            else
              some {
                header := header
                routeType := header.toNat &&& 0x03
                payloadType := header.toNat >>> 2 &&& 0x0F
                payloadVersion := header.toNat >>> 6 &&& 0x03
                pathByte := pathByte
                hopCount := hopCount
                hashSize := hashSize
                path := (rawPacket.drop (offset + 1)).take pathByteLen
                payload := rawPacket.drop payloadOffset
                payloadOffset := payloadOffset
                transportCodes :=
                  if transport then
                    some (ofLeBytes ((rawPacket.drop 1).take 2),
                      ofLeBytes ((rawPacket.drop 3).take 2))
                  else none }

structure PacketInfo where
  routeType : RouteType
  payloadType : PayloadType
  payloadVersion : Nat
  pathLength : Nat
  pathHashSize : Nat
  path : Bytes
  payload : Bytes
  transportCodes : Option (Nat × Nat)
  deriving DecidableEq, Repr

/-- An envelope whose route and payload types have a name. -/
def parsePacket (rawPacket : Bytes) : Option PacketInfo :=
  (parsePacketEnvelope rawPacket).bind fun envelope =>
    (RouteType.ofValue envelope.routeType).bind fun routeType =>
      (PayloadType.ofValue envelope.payloadType).map fun payloadType =>
        { routeType := routeType
          payloadType := payloadType
          payloadVersion := envelope.payloadVersion
          pathLength := envelope.hopCount
          pathHashSize := envelope.hashSize
          path := envelope.path
          payload := envelope.payload
          transportCodes := envelope.transportCodes }

/-! ## Frames -/

/-- The parts of a packet, as long as they fit together. -/
structure Frame where
  header : UInt8
  transportCodes : Nat × Nat
  pathByte : UInt8
  hopCount : Nat
  hashSize : Nat
  path : Bytes
  payload : Bytes
  codesFit : transportCodes.1 < 256 ^ 2 ∧ transportCodes.2 < 256 ^ 2
  pathFits : validatePathByte pathByte = some (hopCount, hashSize, path.length)
  payloadPresent : payload ≠ []

namespace Frame

variable (f : Frame)

def codeBytes : Bytes :=
  if hasTransportCodes f.header then leBytes 2 f.transportCodes.1 ++ leBytes 2 f.transportCodes.2
  else []

def bytes : Bytes := f.header :: (f.codeBytes ++ f.pathByte :: (f.path ++ f.payload))

/-- The parts that the frame is read as. -/
def envelope : ParsedPacketEnvelope where
  header := f.header
  routeType := f.header.toNat &&& 0x03
  payloadType := f.header.toNat >>> 2 &&& 0x0F
  payloadVersion := f.header.toNat >>> 6 &&& 0x03
  pathByte := f.pathByte
  hopCount := f.hopCount
  hashSize := f.hashSize
  path := f.path
  payload := f.payload
  payloadOffset := 1 + f.codeBytes.length + 1 + f.path.length
  transportCodes := if hasTransportCodes f.header then some f.transportCodes else none

theorem length_codeBytes : f.codeBytes.length = if hasTransportCodes f.header then 4 else 0 := by
  unfold codeBytes
  split
  · rw [length_append, length_leBytes, length_leBytes]
  · rfl

theorem length_bytes :
    f.bytes.length = 1 + f.codeBytes.length + 1 + f.path.length + f.payload.length := by
  simp only [bytes, length_cons, length_append]
  omega

theorem drop_bytes (k : Nat) :
    f.bytes.drop (1 + f.codeBytes.length + 1 + k) = (f.path ++ f.payload).drop k := by
  rw [Nat.add_assoc 1, Nat.add_assoc 1, Nat.add_comm 1, bytes, drop_succ_cons,
    Nat.add_assoc, drop_length_add_append, Nat.add_comm 1 k, drop_succ_cons]

theorem getD_bytes : f.bytes.getD (1 + f.codeBytes.length) 0 = f.pathByte := by
  rw [Nat.add_comm, bytes, getD_cons_succ, getD_eq_getElem?_getD,
    getElem?_append_right (Nat.le_refl _), Nat.sub_self, getElem?_cons_zero,
    Option.getD_some]

theorem transportCodes_bytes (h : hasTransportCodes f.header = true) :
    (ofLeBytes ((f.bytes.drop 1).take 2), ofLeBytes ((f.bytes.drop 3).take 2)) =
      f.transportCodes := by
  have hFirst : (f.bytes.drop 1).take 2 = leBytes 2 f.transportCodes.1 := by
    rw [bytes, codeBytes, if_pos h]
    rfl
  have hSecond : (f.bytes.drop 3).take 2 = leBytes 2 f.transportCodes.2 := by
    rw [bytes, codeBytes, if_pos h]
    rfl
  rw [hFirst, hSecond, ofLeBytes_leBytes f.codesFit.1, ofLeBytes_leBytes f.codesFit.2]

end Frame

/-- A frame that is built from its parts is read back as these parts. -/
theorem parsePacketEnvelope_frame (f : Frame) : parsePacketEnvelope f.bytes = some f.envelope := by
  have hPayload : 0 < f.payload.length := length_pos_iff.mpr f.payloadPresent
  have hLength := f.length_bytes
  have hCodes := f.length_codeBytes
  have hOffset : (if hasTransportCodes f.header = true then 1 + 4 else 1) =
      1 + f.codeBytes.length := by
    rw [hCodes]
    split <;> rfl
  have hHeader : f.bytes.headD 0 = f.header := rfl
  have hShort : ¬(hasTransportCodes f.header = true ∧ f.bytes.length < 1 + 4) := by
    rintro ⟨hTransport, hLt⟩
    rw [if_pos hTransport] at hCodes
    omega
  unfold parsePacketEnvelope
  rw [if_neg (by omega), hHeader]
  dsimp only
  rw [if_neg hShort, hOffset, if_neg (by omega), f.getD_bytes, f.pathFits, Option.bind_some]
  dsimp only
  rw [if_neg (by omega), if_neg (by omega), f.drop_bytes, drop_left,
    ← Nat.add_zero (1 + f.codeBytes.length + 1), f.drop_bytes 0, drop_zero, take_left]
  congr 2
  split
  next hTransport => rw [f.transportCodes_bytes hTransport]
  next => rfl

end RemoteTerm.Packets
