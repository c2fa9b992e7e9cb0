import FlashGordon.WirePages
import FlashGordon.WireOutput

/-! The payloads of n-gram lookups and of the control of owner sessions (`protocol.c`). An n-gram request and its
answer have one layout: a header, then one item for each head, with a row number or with the row itself. -/

namespace FlashGordon.Wire

open ByteCodec Reader Prefill DecodeBatch QsaOwner

/-! `fg_ngram_work` and `fg_ngram_result`. -/

def ngramHeadCount : Nat := 16

def ngramWireRowBytes : Nat := 90

structure NgramItem (Row : Type) where
  head : UInt8
  row : Row

/-- The items are the first `item_count` entries of the arrays. -/
structure NgramMessage (Row : Type) where
  sourceRank : UInt8
  destinationRank : UInt8
  tokenIndex : UInt32
  items : List (NgramItem Row)

abbrev NgramWork := NgramMessage UInt64

abbrev NgramResult := NgramMessage (Vector UInt8 ngramWireRowBytes)

/-- The loop of `validate_ngram_items`, with the heads seen before. -/
def ngramHeadsCheck (seen : List UInt8) : List UInt8 → Except Error Unit
  | [] => .ok ()
  | head :: heads => do
    failIf (ngramHeadCount ≤ head.toNat ∨ head ∈ seen) (malformed s!"invalid resident n-gram head {head}")
    ngramHeadsCheck (head :: seen) heads

section NgramMessage

variable {Row : Type}

def validateNgramItems (message : NgramMessage Row) : Except Error Unit := do
  failIf (rankCount ≤ message.sourceRank.toNat ∨ rankCount ≤ message.destinationRank.toNat ∨
      message.sourceRank = message.destinationRank ∨ message.items.length = 0 ∨
      ngramHeadCount < message.items.length)
    (malformed "invalid resident n-gram route")
  ngramHeadsCheck [] (message.items.map NgramItem.head)

variable (put : Row → List UInt8) (read : Nat → Decoder Row) (rowBytes : Nat)

def putNgramItem (item : NgramItem Row) : List UInt8 := item.head :: put item.row

def putNgramItems (items : List (NgramItem Row)) : List UInt8 := items.flatMap (putNgramItem put)

def ngramMessageBytes (message : NgramMessage Row) : Nat := 8 + message.items.length * (1 + rowBytes)

def ngramWire (message : NgramMessage Row) : List UInt8 :=
  [message.sourceRank, message.destinationRank, .ofNat message.items.length, 0] ++ putU32 message.tokenIndex ++
    putNgramItems put message.items

def ngramEncode (tooSmall : String) (capacity : Nat) (message : NgramMessage Row) : Except Error (List UInt8) := do
  validateNgramItems message
  failIf (capacity < ngramMessageBytes rowBytes message) ⟨.limit, tooSmall⟩
  .ok (ngramWire put message)

def ngramItemAt (offset : Nat) : Decoder (NgramItem Row) := do
  let head ← byte offset
  let row ← read (offset + 1)
  pure ⟨head, row⟩

def ngramDecode (short missize : String) : Decoder (NgramMessage Row) := do
  refuseIf ⟨.argument, short⟩ [shorter 8]
  let count ← byte 2
  refuseIf (malformed missize)
    [nonzero 3, test (count = 0), test (ngramHeadCount < count.toNat), missized (8 + count.toNat * (1 + rowBytes))]
  let sourceRank ← byte 0
  let destinationRank ← byte 1
  let tokenIndex ← u32 4
  let items ← listAt (fun i => ngramItemAt read (8 + i * (1 + rowBytes))) count.toNat
  accept validateNgramItems ⟨sourceRank, destinationRank, tokenIndex, items⟩

end NgramMessage

def ngramWorkEncode (capacity : Nat) (work : NgramWork) : Except Error (List UInt8) :=
  ngramEncode putU64 8 "n-gram work buffer is too small" capacity work

def ngramWorkDecode : Decoder NgramWork :=
  ngramDecode u64 8 "invalid n-gram work input" "invalid n-gram work size"

def ngramResultEncode (capacity : Nat) (result : NgramResult) : Except Error (List UInt8) :=
  ngramEncode Vector.toList ngramWireRowBytes "n-gram result buffer is too small" capacity result

def ngramResultDecode : Decoder NgramResult :=
  ngramDecode (fun offset => bytes offset ngramWireRowBytes) ngramWireRowBytes "invalid n-gram result input"
    "invalid n-gram result size"

section NgramMessage

variable {Row : Type} {put : Row → List UInt8} {read : Nat → Decoder Row} {rowBytes : Nat} {p : List UInt8}

variable {message : NgramMessage Row}

theorem validateNgramItems_counts (h : validateNgramItems message = .ok ()) :
    message.items.length ≠ 0 ∧ message.items.length ≤ ngramHeadCount := by
  simp [validateNgramItems] at h
  exact ⟨fun hzero => h.1.2.2.2.1 (List.length_eq_zero_iff.mp hzero), h.1.2.2.2.2⟩

theorem putNgramItem_length (hput : ∀ row, (put row).length = rowBytes) (item : NgramItem Row) :
    (putNgramItem put item).length = 1 + rowBytes := by
  rw [putNgramItem, List.length_cons, hput, Nat.add_comm]

theorem ngramItemAt_ok (hread : ∀ i row, (read i).run p = .ok row ↔ At p i (put row)) {offset : Nat}
    {item : NgramItem Row} : (ngramItemAt read offset).run p = .ok item ↔ At p offset (putNgramItem put item) := by
  obtain ⟨head, row⟩ := item
  simp [ngramItemAt, putNgramItem, hread]

section

variable (hput : ∀ row, (put row).length = rowBytes)
include hput

theorem ngramItems_ok (hread : ∀ i row, (read i).run p = .ok row ↔ At p i (put row)) {n : Nat} {items : List (NgramItem Row)} :
    (listAt (fun i => ngramItemAt read (8 + i * (1 + rowBytes))) n).run p = .ok items ↔
      items.length = n ∧ At p 8 (putNgramItems put items) := by
  have hitem : ∀ k item, (ngramItemAt read (8 + k * (1 + rowBytes))).run p = .ok item ↔
      At p (8 + k * (1 + rowBytes)) (putNgramItem put item) ∧ True := by
    intro k item
    rw [ngramItemAt_ok hread, and_true]
  rw [listAt_entries (putNgramItem_length hput) hitem, putNgramItems]
  simp

theorem ngramWire_length (message : NgramMessage Row) :
    (ngramWire put message).length = ngramMessageBytes rowBytes message := by
  simp [ngramWire, ngramMessageBytes, putNgramItems, flatMap_length (putNgramItem_length hput)]
  omega

theorem ngramDecode_ok (hread : ∀ i row, (read i).run p = .ok row ↔ At p i (put row)) {short missize : String} :
    (ngramDecode read rowBytes short missize).run p = .ok message ↔
      p = ngramWire put message ∧ validateNgramItems message = .ok () := by
  have hlengths := ngramWire_length hput message
  rw [eq_iff_at, hlengths]
  have hcounts := @validateNgramItems_counts Row message
  obtain ⟨sourceRank, destinationRank, tokenIndex, items⟩ := message
  simp [ngramDecode, ngramItems_ok hput hread, ngramWire, ngramMessageBytes]
  constructor
  · rintro ⟨-, count, h2, ⟨h3, -, -, hlength⟩, h0, h1, h4, ⟨hcounted, hitems⟩, hvalid⟩
    rw [(toNat_eq_iff8.mp hcounted).1] at h2
    rw [← hcounted] at hlength
    exact ⟨⟨hlength, h0, h1, h2, h3, h4, hitems⟩, hvalid⟩
  · rintro ⟨⟨hlength, h0, h1, h2, h3, h4, hitems⟩, hvalid⟩
    obtain ⟨hnonempty, hmax⟩ := hcounts hvalid
    have hcounted : items.length = (UInt8.ofNat items.length).toNat :=
      toNat_eq_iff8.mpr ⟨rfl, Nat.lt_of_le_of_lt hmax (by decide)⟩
    refine ⟨by omega, _, h2, ⟨h3, fun hzero => ?_, ?_, ?_⟩, h0, h1, h4, ⟨hcounted, hitems⟩, hvalid⟩
    · rw [hzero] at hcounted
      exact hnonempty hcounted
    · rwa [← hcounted]
    · rwa [← hcounted]

end

theorem ngramDecode_safe (hread : ∀ i, i + rowBytes ≤ p.length → (read i).Safe p) {short missize : String} :
    (ngramDecode read rowBytes short missize).Safe p := by
  have hitem : ∀ offset, offset + (1 + rowBytes) ≤ p.length → (ngramItemAt read offset).Safe p := by
    intro offset hoffset
    simp [ngramItemAt, hread (offset + 1) (by omega)]
    omega
  simp +contextual (disch := omega) [ngramDecode, safe_u32, safe_entries _ fun _ => hitem _]
  grind

theorem ngram_roundTrip (hput : ∀ row, (put row).length = rowBytes)
    (hread : ∀ i row, (read i).run p = .ok row ↔ At p i (put row)) {tooSmall short missize : String} {capacity : Nat}
    (h : ngramEncode put rowBytes tooSmall capacity message = .ok p) :
    (ngramDecode read rowBytes short missize).run p = .ok message := by
  simp [ngramEncode] at h
  exact (ngramDecode_ok hput hread).mpr ⟨h.2.2.symm, h.1⟩

theorem ngram_canonical (hput : ∀ row, (put row).length = rowBytes)
    (hread : ∀ i row, (read i).run p = .ok row ↔ At p i (put row)) {tooSmall short missize : String} {capacity : Nat}
    (h : (ngramDecode read rowBytes short missize).run p = .ok message)
    (hcapacity : p.length ≤ capacity) : ngramEncode put rowBytes tooSmall capacity message = .ok p := by
  obtain ⟨rfl, hvalid⟩ := (ngramDecode_ok hput hread).mp h
  rw [ngramWire_length hput] at hcapacity
  simp [ngramEncode, hvalid, hcapacity]

end NgramMessage

variable {p : List UInt8}

theorem ngramWork_roundTrip {capacity : Nat} {work : NgramWork}
    (h : ngramWorkEncode capacity work = .ok p) : ngramWorkDecode.run p = .ok work :=
  ngram_roundTrip putU64_length (fun _ _ => u64_ok) h

theorem ngramWork_canonical {capacity : Nat} {work : NgramWork}
    (h : ngramWorkDecode.run p = .ok work) (hcapacity : p.length ≤ capacity) :
    ngramWorkEncode capacity work = .ok p :=
  ngram_canonical putU64_length (fun _ _ => u64_ok) h hcapacity

theorem ngramWorkDecode_safe : ngramWorkDecode.Safe p :=
  ngramDecode_safe fun _ => safe_u64

theorem ngramResult_roundTrip {capacity : Nat} {result : NgramResult}
    (h : ngramResultEncode capacity result = .ok p) : ngramResultDecode.run p = .ok result :=
  ngram_roundTrip (fun _ => Vector.length_toList) (fun _ _ => bytes_ok) h

theorem ngramResult_canonical {capacity : Nat} {result : NgramResult}
    (h : ngramResultDecode.run p = .ok result) (hcapacity : p.length ≤ capacity) :
    ngramResultEncode capacity result = .ok p :=
  ngram_canonical (fun _ => Vector.length_toList) (fun _ _ => bytes_ok) h hcapacity

theorem ngramResultDecode_safe : ngramResultDecode.Safe p :=
  ngramDecode_safe fun _ => safe_bytes

/-! `fg_owner_session_control`. -/

/-- The mode is the value of an enumeration of the source; only its low byte is sent. -/
structure OwnerSessionControl where
  version : UInt16
  operation : UInt8
  rank : UInt8
  positionMode : UInt32
  flags : UInt8
  stateSlot : UInt8
  sessionNonce : UInt64
  generation : UInt64
  committedTokens : UInt64
  identitySha256 : Digest
  frontierSha256 : Digest
  stateFormatSha256 : Digest
  stateSha256 : Digest
  logicalContextTokens : UInt32
  gpuIndexTokens : UInt32
  qsaHotTokens : UInt32
  qsaPageCacheBytes : UInt64

def DigestZero (digest : Digest) : Prop := ∀ x ∈ digest.toList, x = 0

instance (digest : Digest) : Decidable (DigestZero digest) := by
  unfold DigestZero
  infer_instance

/-- `FG_OWNER_SESSION_BEGIN` or `FG_OWNER_SESSION_READY`. -/
def OwnerSessionControl.Initial (control : OwnerSessionControl) : Prop :=
  control.operation = 1 ∨ control.operation = 2

/-- From `FG_OWNER_SESSION_PREPARE` on. -/
def OwnerSessionControl.Transactional (control : OwnerSessionControl) : Prop := 3 ≤ control.operation

/-- `FG_OWNER_SESSION_PREPARED` or `FG_OWNER_SESSION_RESTORED`. -/
def OwnerSessionControl.StateReply (control : OwnerSessionControl) : Prop :=
  control.operation = 4 ∨ control.operation = 8

instance (control : OwnerSessionControl) : Decidable control.Initial := by
  unfold OwnerSessionControl.Initial
  infer_instance

instance (control : OwnerSessionControl) : Decidable control.Transactional := by
  unfold OwnerSessionControl.Transactional
  infer_instance

instance (control : OwnerSessionControl) : Decidable control.StateReply := by
  unfold OwnerSessionControl.StateReply
  infer_instance

def validateOwnerSessionControl (control : OwnerSessionControl) : Except Error Unit := do
  failIf (control.version ≠ ownerSessionControlVersion ∨ control.operation < 1 ∨ 8 < control.operation ∨
      rankCount ≤ control.rank.toNat ∨ 1 < control.positionMode ∨ control.flags ≠ 0 ∨
      batchMax ≤ control.stateSlot.toNat ∨ control.sessionNonce = 0 ∨ DigestZero control.identitySha256 ∨
      DigestZero control.stateFormatSha256 ∨ control.logicalContextTokens = 0 ∨ control.gpuIndexTokens = 0 ∨
      control.logicalContextTokens < control.gpuIndexTokens ∨ control.logicalContextTokens < control.qsaHotTokens ∨
      control.qsaHotTokens = 0 ∧ control.qsaPageCacheBytes = 0)
    ⟨.mismatch, "invalid owner session control header"⟩
  failIf (control.Initial ∧ (control.generation ≠ 0 ∨ control.committedTokens ≠ 0 ∨
      ¬DigestZero control.frontierSha256 ∨ ¬DigestZero control.stateSha256))
    ⟨.mismatch, "initial owner session control has checkpoint state"⟩
  failIf (control.Transactional ∧ (control.generation = 0 ∨ DigestZero control.frontierSha256))
    ⟨.mismatch, "transactional owner session control lacks a frontier"⟩
  failIf (¬(control.StateReply ↔ ¬DigestZero control.stateSha256))
    ⟨.mismatch, "owner session state fingerprint is invalid for operation"⟩

def OwnerSessionControl.wire (control : OwnerSessionControl) : List UInt8 :=
  putU16 control.version ++ [control.operation, control.rank, control.positionMode.toUInt8, control.flags,
      control.stateSlot, 0] ++ putU64 control.sessionNonce ++ putU64 control.generation ++
    putU64 control.committedTokens ++ control.identitySha256.toList ++ control.frontierSha256.toList ++
    control.stateFormatSha256.toList ++ control.stateSha256.toList ++ putU32 control.logicalContextTokens ++
    putU32 control.gpuIndexTokens ++ putU32 control.qsaHotTokens ++ [0, 0, 0, 0] ++ putU64 control.qsaPageCacheBytes

def ownerSessionControlEncode (control : OwnerSessionControl) : Except Error (List UInt8) := do
  validateOwnerSessionControl control
  .ok control.wire

def ownerSessionControlDecode : Decoder OwnerSessionControl := do
  refuseIf (malformed "invalid owner session control size or reserved bytes")
    [missized 184, nonzero 7, nonzero 172, nonzero 173, nonzero 174, nonzero 175]
  let version ← u16 0
  let operation ← byte 2
  let rank ← byte 3
  let positionMode ← byte 4
  let flags ← byte 5
  let stateSlot ← byte 6
  let sessionNonce ← u64 8
  let generation ← u64 16
  let committedTokens ← u64 24
  let identitySha256 ← bytes 32 32
  let frontierSha256 ← bytes 64 32
  let stateFormatSha256 ← bytes 96 32
  let stateSha256 ← bytes 128 32
  let logicalContextTokens ← u32 160
  let gpuIndexTokens ← u32 164
  let qsaHotTokens ← u32 168
  let qsaPageCacheBytes ← u64 176
  accept validateOwnerSessionControl
    ⟨version, operation, rank, positionMode.toUInt32, flags, stateSlot, sessionNonce, generation, committedTokens,
      identitySha256, frontierSha256, stateFormatSha256, stateSha256, logicalContextTokens, gpuIndexTokens,
      qsaHotTokens, qsaPageCacheBytes⟩

variable {control : OwnerSessionControl}

theorem validateOwnerSessionControl_mode (h : validateOwnerSessionControl control = .ok ()) :
    control.positionMode.toUInt8.toUInt32 = control.positionMode := by
  simp only [validateOwnerSessionControl, except_bind_unit_ok, failIf_ok, not_or] at h
  have hmode : ¬1 < control.positionMode := h.1.2.2.2.2.1
  apply UInt32.toNat_inj.mp
  rw [UInt32.lt_iff_toNat_lt] at hmode
  simp at hmode ⊢
  omega

theorem ownerSessionControlDecode_ok :
    ownerSessionControlDecode.run p = .ok control ↔
      p = control.wire ∧ validateOwnerSessionControl control = .ok () := by
  rw [eq_iff_at]
  have hmode := @validateOwnerSessionControl_mode control
  obtain ⟨version, operation, rank, mode, flags, slot, nonce, generation, committed, identity, frontier, format,
    state, logical, index, hot, cache⟩ := control
  simp [ownerSessionControlDecode, OwnerSessionControl.wire]
  grind [UInt8.toUInt8_toUInt32]

theorem ownerSessionControl_roundTrip
    (h : ownerSessionControlEncode control = .ok p) : ownerSessionControlDecode.run p = .ok control := by
  simp [ownerSessionControlEncode] at h
  exact ownerSessionControlDecode_ok.mpr ⟨h.2.symm, h.1⟩

theorem ownerSessionControl_canonical
    (h : ownerSessionControlDecode.run p = .ok control) : ownerSessionControlEncode control = .ok p := by
  obtain ⟨rfl, hvalid⟩ := ownerSessionControlDecode_ok.mp h
  simp [ownerSessionControlEncode, hvalid]

theorem ownerSessionControlDecode_safe : ownerSessionControlDecode.Safe p := by
  by_cases hlength : p.length = 184
  · simp (disch := omega) [ownerSessionControlDecode, hlength, safe_u32, safe_u64, safe_bytes]
  · simp [ownerSessionControlDecode, hlength]

end FlashGordon.Wire
