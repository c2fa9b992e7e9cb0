import FlashGordon.FabricStart
import FlashGordon.WirePages

/-! Frames on a fabric channel (`fabric.c`, `protocol.c`). A channel is the bytes that are still to be read from it. A
receive reads a header, looks at its version and at the length that it announces, and only then reads the payload; it
leaves the payload in the channel when that is longer than the buffer. -/

namespace FlashGordon.Fabric

open Wire ByteCodec Reader

/-- `fg_frame_header`, with its numbers in host order. -/
structure FrameHeader where
  magic : UInt32
  version : UInt16
  type : UInt16
  bytes : UInt32
  requestId : UInt64
  sequence : UInt32
  flags : UInt32
  crc32c : UInt32
  deriving DecidableEq

def frameHeaderBytes : Nat := 32

def frameHeaderWire (header : FrameHeader) : List UInt8 :=
  putU32 header.magic ++ putU16 header.version ++ putU16 header.type ++ putU32 header.bytes ++
    putU64 header.requestId ++ putU32 header.sequence ++ putU32 header.flags ++ putU32 header.crc32c

def readFrameHeader : Decoder FrameHeader := do
  let magic ← u32 0
  let version ← u16 4
  let type ← u16 6
  let bytes ← u32 8
  let requestId ← u64 12
  let sequence ← u32 20
  let flags ← u32 24
  let crc32c ← u32 28
  pure ⟨magic, version, type, bytes, requestId, sequence, flags, crc32c⟩

/-- One bit of `crc32c_portable`. -/
def crc32cBit (crc : UInt32) : UInt32 := (crc >>> 1) ^^^ (if crc &&& 1 = 1 then 0x82f63b78 else 0)

def fgCrc32c (data : List UInt8) : UInt32 :=
  ~~~(data.foldl (fun crc x => (List.range 8).foldl (fun crc _ => crc32cBit crc) (crc ^^^ x.toUInt32)) 0xffffffff)

def within (type first last : UInt16) : Bool := first ≤ type && type ≤ last

def messageTypeSupported (version type : UInt16) : Bool :=
  within type 1 18 || within type 25 28 ||
    (6 ≤ version && (within type 29 33 || within type 40 41 || within type 42 47 || within type 48 50 ||
      within type 51 52 || within type 19 24))

/-- `FG_MSG_QSA_PAGE_BARRIER`, `FG_MSG_QSA_PAGE_BARRIER_ACK` and `FG_MSG_QSA_PAGE_RESULT`. -/
def msgQsaPageBarrier : UInt16 := 30

def msgQsaPageBarrierAck : UInt16 := 31

def msgQsaPageResult : UInt16 := 33

def frameHeader (version type : UInt16) (requestId : UInt64) (sequence flags : UInt32) (payload : List UInt8) :
    FrameHeader where
  magic := frameMagic
  version := version
  type := type
  bytes := UInt32.ofNat payload.length
  requestId := requestId
  sequence := sequence
  flags := flags
  crc32c := fgCrc32c payload

def fgFrameEncodeVersion (version type : UInt16) (requestId : UInt64) (sequence flags : UInt32) (payload : List UInt8) :
    Except Error FrameHeader :=
  if ¬VersionSupported version ∨ maxFrameBytes < payload.length ∨ messageTypeSupported version type = false then
    .error ⟨.argument, s!"invalid frame arguments for protocol {version}"⟩
  else .ok (frameHeader version type requestId sequence flags payload)

def fgFrameValidate (header : FrameHeader) (payload : List UInt8) : Except Error Unit :=
  let version := header.version
  let request := header.requestId
  if header.magic ≠ frameMagic ∨ ¬VersionSupported version then
    .error ⟨.mismatch, s!"frame magic or protocol {version} mismatch"⟩
  else if messageTypeSupported version header.type = false ∨ maxFrameBytes < header.bytes.toNat then
    .error ⟨.format, s!"invalid frame type or length for protocol {version}"⟩
  else if fgCrc32c payload ≠ header.crc32c then
    .error ⟨.mismatch, s!"frame CRC32C mismatch for request {request}"⟩
  else .ok ()

def fgFrameValidateVersion (header : FrameHeader) (protocolVersion : UInt16) (payload : List UInt8) : Except Error Unit :=
  let version := header.version
  if ¬VersionSupported protocolVersion then .error ⟨.argument, s!"unsupported expected protocol {protocolVersion}"⟩
  else if version ≠ protocolVersion then
    .error ⟨.mismatch, s!"frame protocol {version} does not match negotiated protocol {protocolVersion}"⟩
  else fgFrameValidate header payload

/-- `fg_fabric_recv`: what it answers and what is left in the channel; `none` while it waits for bytes. -/
def fgFabricRecv (protocolVersion : UInt16) (cap : Nat) (channel : List UInt8) :
    Option (Except Error (FrameHeader × List UInt8) × List UInt8) :=
  match readFrameHeader.run channel with
  | .refused _ => none
  | .overrun _ => none
  | .ok header =>
    let rest := channel.drop frameHeaderBytes
    let version := header.version
    let n := header.bytes.toNat
    if version ≠ protocolVersion then
      some (.error ⟨.mismatch, s!"frame protocol {version} does not match fabric protocol {protocolVersion}"⟩, rest)
    else if cap < n then
      some (.error ⟨.limit, s!"fabric payload {n} exceeds receive buffer {cap}"⟩, rest)
    else if rest.length < n then none
    else
      match fgFrameValidateVersion header protocolVersion (rest.take n) with
      | .error err => some (.error err, rest.drop n)
      | .ok () => some (.ok (header, rest.take n), rest.drop n)

/-! A frame that the sender was allowed to send. -/

theorem readFrameHeader_ok {p : List UInt8} {header : FrameHeader} :
    readFrameHeader.run p = .ok header ↔ At p 0 (frameHeaderWire header) := by
  obtain ⟨magic, version, type, bytes, requestId, sequence, flags, crc32c⟩ := header
  simp [readFrameHeader, frameHeaderWire]

theorem frameHeaderWire_length (header : FrameHeader) : (frameHeaderWire header).length = frameHeaderBytes := rfl

def frameBytes (version type : UInt16) (requestId : UInt64) (sequence flags : UInt32) (payload : List UInt8) :
    List UInt8 :=
  frameHeaderWire (frameHeader version type requestId sequence flags payload) ++ payload

structure Allowed (version type : UInt16) (payload : List UInt8) : Prop where
  supported : VersionSupported version
  known : messageTypeSupported version type = true
  bounded : payload.length ≤ maxFrameBytes

variable {version type : UInt16} {payload : List UInt8}

section

variable (h : Allowed version type payload)
include h

theorem Allowed.encode (requestId : UInt64) (sequence flags : UInt32) :
    fgFrameEncodeVersion version type requestId sequence flags payload =
      .ok (frameHeader version type requestId sequence flags payload) := by
  rw [fgFrameEncodeVersion, if_neg]
  rintro (hversion | hbytes | htype)
  · exact hversion h.supported
  · exact absurd h.bounded (Nat.not_le.mpr hbytes)
  · cases htype.symm.trans h.known

theorem Allowed.length (requestId : UInt64) (sequence flags : UInt32) :
    (frameHeader version type requestId sequence flags payload).bytes.toNat = payload.length := by
  have hbytes := h.bounded
  have hmax : maxFrameBytes < 2 ^ 32 := by decide
  exact UInt32.toNat_ofNat_of_lt' (hbytes.trans_lt hmax)

theorem Allowed.validate (requestId : UInt64) (sequence flags : UInt32) :
    fgFrameValidateVersion (frameHeader version type requestId sequence flags payload) version payload = .ok () := by
  have hbytes : ¬maxFrameBytes < (frameHeader version type requestId sequence flags payload).bytes.toNat := by
    rw [h.length]
    exact Nat.not_lt.mpr h.bounded
  have hversion : (frameHeader version type requestId sequence flags payload).version = version := rfl
  have htype : (frameHeader version type requestId sequence flags payload).type = type := rfl
  rw [fgFrameValidateVersion, fgFrameValidate]
  simp only [hversion, htype, hbytes, h.supported, h.known]
  simp [frameHeader]

theorem fgFabricRecv_frame (requestId : UInt64) (sequence flags : UInt32) (cap : Nat) (rest : List UInt8) :
    fgFabricRecv version cap (frameBytes version type requestId sequence flags payload ++ rest) =
      if payload.length ≤ cap then
        some (.ok (frameHeader version type requestId sequence flags payload, payload), rest)
      else
        let n := payload.length
        some (.error ⟨.limit, s!"fabric payload {n} exceeds receive buffer {cap}"⟩, payload ++ rest) := by
  have hread : readFrameHeader.run (frameBytes version type requestId sequence flags payload ++ rest) =
      .ok (frameHeader version type requestId sequence flags payload) := by
    rw [readFrameHeader_ok, At, List.drop_zero, frameBytes, List.append_assoc]
    exact List.prefix_append _ _
  have hdrop : (frameBytes version type requestId sequence flags payload ++ rest).drop frameHeaderBytes =
      payload ++ rest := by
    rw [frameBytes, List.append_assoc, ← frameHeaderWire_length (frameHeader version type requestId sequence flags payload),
      List.drop_left]
  rw [fgFabricRecv, hread]
  simp only [hdrop, h.length]
  rw [if_neg (not_not.mpr (show (frameHeader version type requestId sequence flags payload).version = version from rfl))]
  by_cases hcap : payload.length ≤ cap
  · rw [if_pos hcap, if_neg (Nat.not_lt.mpr hcap), if_neg (by simp), List.take_left, List.drop_left, h.validate]
  · rw [if_neg hcap, if_pos (Nat.not_le.mp hcap)]

end

end FlashGordon.Fabric
