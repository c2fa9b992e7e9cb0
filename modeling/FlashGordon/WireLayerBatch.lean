import FlashGordon.WireLayer

/-! The payloads of many tokens at once (`protocol.c`): layer work and results of a prefill chunk, whose rows go
into storage the receiver brings, and decode batch work and results, which carry one entry for each slot. -/

namespace FlashGordon.Wire

open ByteCodec Reader Prefill DecodeBatch RingWire

/-! `fg_prefill_layer_work`. -/

@[irreducible] def positionValues (mode : PositionMode) (tokenCount : UInt16) : Nat :=
  tokenCount.toNat * positionAxes mode

@[irreducible] def hyperValues (tokenCount : UInt16) : Nat := tokenCount.toNat * hyperWidth

@[irreducible] def embeddingValues (tokenCount : UInt16) : Nat := tokenCount.toNat * ngramEmbedValues

/-- `fg_prefill_layer_work`, with the rows of its tokens; the embeddings may be a null pointer. -/
structure PrefillLayerRecord where
  layer : UInt8
  sourceRank : UInt8
  destinationRank : UInt8
  flags : UInt8
  positionMode : PositionMode
  firstToken : UInt32
  tokenCount : UInt16
  positions : Vector UInt32 (positionValues positionMode tokenCount)
  hyper : Vector Binary32 (hyperValues tokenCount)
  ngramEmbeddings : Option (Vector Binary32 (embeddingValues tokenCount))

def PrefillLayerRecord.toWork (work : PrefillLayerRecord) : PrefillLayerWork where
  layer := work.layer
  sourceRank := work.sourceRank
  destinationRank := work.destinationRank
  flags := work.flags
  positionMode := work.positionMode
  firstToken := work.firstToken
  tokenCount := work.tokenCount
  positions := work.positions.toList
  hyper := work.hyper.toList
  ngramEmbeddings := work.ngramEmbeddings.map Vector.toList

def validatePrefillLayerRecord (work : PrefillLayerRecord) : Except Error Unit :=
  validatePrefillLayerWork work.toWork

def embeddingBytes (flags : UInt8) (tokenCount : UInt16) : Nat :=
  if HasNgram flags then embeddingValues tokenCount * 4 else 0

def putEmbeddings {n : Nat} (flags : UInt8) (rows : Option (Vector Binary32 n)) : List UInt8 :=
  if HasNgram flags then putF32s (rows.elim [] Vector.toList) else []

def PrefillLayerRecord.bytes (work : PrefillLayerRecord) : Nat :=
  16 + positionValues work.positionMode work.tokenCount * 4 + hyperValues work.tokenCount * 4 +
    embeddingBytes work.flags work.tokenCount

def PrefillLayerRecord.wire (version : UInt16) (work : PrefillLayerRecord) : List UInt8 :=
  [work.layer, work.sourceRank, work.destinationRank, work.flags] ++ putU32 work.firstToken ++
    putU16 work.tokenCount ++ putMode version work.positionMode ++ putU32 0 ++ putU32s work.positions.toList ++
    putF32s work.hyper.toList ++ putEmbeddings work.flags work.ngramEmbeddings

def prefillLayerWorkEncode (version : UInt16) (capacity : Nat) (work : PrefillLayerRecord) :
    Except Error (List UInt8) := do
  failIf (¬VersionSupported version) ⟨.argument, "invalid prefill layer work output or protocol"⟩
  validatePrefillLayerRecord work
  failIf (version = protocolMinVersion ∧ work.positionMode ≠ .text)
    ⟨.mismatch, "protocol 5 prefill layer work requires text positions"⟩
  failIf (maxFrameBytes < work.bytes ∨ capacity < work.bytes) ⟨.limit, "prefill layer work buffer is too small"⟩
  .ok (work.wire version)

def headerMode (version : UInt16) (legacy contract : String) : Decoder PositionMode :=
  if version = protocolMinVersion then do
    refuseIf (malformed legacy) [nonzero 10, nonzero 11]
    pure .text
  else do
    let mode ← byte 10
    let axes ← byte 11
    refuseIf (malformed contract) [test (1 < mode), test (axes ≠ axesByte (modeOf mode))]
    pure (modeOf mode)

/-- The storage of a receiver, in values; the embeddings may have none. -/
structure ChunkStorage where
  positions : Nat
  hyper : Nat
  ngram : Option Nat

def ChunkStorage.lacksNgram (storage : ChunkStorage) (flags : UInt8) (tokenCount : UInt16) : Prop :=
  HasNgram flags ∧ storage.ngram.getD 0 < embeddingValues tokenCount

instance (storage : ChunkStorage) (flags : UInt8) (tokenCount : UInt16) :
    Decidable (storage.lacksNgram flags tokenCount) := by
  unfold ChunkStorage.lacksNgram
  infer_instance

def prefillLayerWorkDecode (version : UInt16) (storage : ChunkStorage) : Decoder PrefillLayerRecord := do
  refuseIf ⟨.argument, "invalid prefill layer work input or protocol"⟩ [shorter 16, test (¬VersionSupported version)]
  let flags ← byte 3
  let tokenCount ← u16 8
  let mode ← headerMode version "protocol 5 prefill position header is not legacy"
    "invalid protocol 6 prefill position contract"
  refuseIf (malformed "invalid prefill layer work size, reserved bytes, or storage capacity")
    [nonzeroU32 12, test (tokenCount = 0), test (prefillMaxTokens < tokenCount.toNat),
      missized (16 + positionValues mode tokenCount * 4 + hyperValues tokenCount * 4 + embeddingBytes flags tokenCount),
      test (storage.positions < positionValues mode tokenCount), test (storage.hyper < hyperValues tokenCount),
      test (storage.lacksNgram flags tokenCount)]
  let layer ← byte 0
  let sourceRank ← byte 1
  let destinationRank ← byte 2
  let firstToken ← u32 4
  let positions ← u32s 16 (positionValues mode tokenCount)
  let hyper ← f32s (16 + positionValues mode tokenCount * 4) (hyperValues tokenCount)
  let ngramEmbeddings ← optional (HasNgram flags)
    (f32s (16 + positionValues mode tokenCount * 4 + hyperValues tokenCount * 4) (embeddingValues tokenCount))
  accept validatePrefillLayerRecord ⟨layer, sourceRank, destinationRank, flags, mode, firstToken, tokenCount, positions,
    hyper, ngramEmbeddings⟩

def carriedPrefillLayer (work : PrefillLayerRecord) : PrefillLayerRecord :=
  { work with ngramEmbeddings := if HasNgram work.flags then work.ngramEmbeddings else none }

variable {p : List UInt8} {version : UInt16}

variable {mode : PositionMode}

theorem headerMode_ok {legacy contract : String} : (headerMode version legacy contract).run p = .ok mode ↔
      At p 10 (putMode version mode) ∧ ModeFits version mode := by
  rw [headerMode, putMode, ModeFits]
  split
  next hversion =>
    simp [hversion]
    tauto
  next hversion =>
    simp [hversion]
    constructor
    · rintro ⟨x, h10, h11, hx, rfl⟩
      rw [modeByte_modeOf hx]
      exact ⟨h10, h11⟩
    · rintro ⟨h10, h11⟩
      exact ⟨modeByte mode, h10, by simpa using h11, by simp, by simp⟩

theorem headerMode_safe {legacy contract : String} (h : 12 ≤ p.length) :
    (headerMode version legacy contract).Safe p := by
  rw [headerMode]
  split
  · simp +contextual (disch := omega)
    grind
  · simp +contextual (disch := omega)
    grind

variable {flags : UInt8}

theorem embeddings_ok {n offset : Nat} {rows : Option (Vector Binary32 n)} :
    (optional (HasNgram flags) (f32s offset n) : Decoder _).run p = .ok rows ↔
      At p offset (putEmbeddings flags rows) ∧ (HasNgram flags ↔ rows ≠ none) := by
  rw [optional_ok, putEmbeddings]
  by_cases hflag : HasNgram flags
  · cases rows with
    | none => simp [hflag]
    | some row => simp [hflag]
  · cases rows with
    | none => simp [hflag]
    | some row => simp [hflag]

theorem putEmbeddings_length {tokenCount : UInt16}
    {rows : Option (Vector Binary32 (embeddingValues tokenCount))} (h : HasNgram flags → rows ≠ none) :
    (putEmbeddings flags rows).length = embeddingBytes flags tokenCount := by
  rw [putEmbeddings, embeddingBytes]
  split
  next hflag =>
    obtain ⟨row, rfl⟩ := Option.ne_none_iff_exists'.mp (h hflag)
    simp
  · rfl

variable {work : PrefillLayerRecord}

theorem carriedPrefillLayer_iff :
    carriedPrefillLayer work = work ↔ (¬HasNgram work.flags → work.ngramEmbeddings = none) := by
  obtain ⟨layer, sourceRank, destinationRank, flags, mode, firstToken, tokenCount, positions, hyper, ngram⟩ := work
  rw [carriedPrefillLayer]
  split <;> simp_all [eq_comm]

theorem validatePrefillLayerRecord_counts (h : validatePrefillLayerRecord work = .ok ()) :
    work.tokenCount ≠ 0 ∧ work.tokenCount.toNat ≤ prefillMaxTokens ∧
      (HasNgram work.flags → work.ngramEmbeddings ≠ none) := by
  rw [validatePrefillLayerRecord, validatePrefillLayerWork] at h
  split at h
  · cases h
  next hheader =>
    simp only [PrefillLayerWork.HeaderInvalid, not_or, not_and, not_lt] at hheader
    obtain ⟨-, -, -, -, -, htokens, hmax, hngram⟩ := hheader
    refine ⟨htokens, hmax, fun hflag hnone => hngram hflag ?_⟩
    rw [PrefillLayerRecord.toWork, hnone]
    rfl

theorem PrefillLayerRecord.wire_length
    (h : HasNgram work.flags → work.ngramEmbeddings ≠ none) : (work.wire version).length = work.bytes := by
  rw [PrefillLayerRecord.wire, PrefillLayerRecord.bytes]
  simp [putEmbeddings_length h]
  omega

variable {storage : ChunkStorage}

theorem prefillLayerWorkDecode_ok
    : (prefillLayerWorkDecode version storage).run p = .ok work ↔
      p = work.wire version ∧ validatePrefillLayerRecord work = .ok () ∧ VersionSupported version ∧
        ModeFits version work.positionMode ∧ carriedPrefillLayer work = work ∧
        positionValues work.positionMode work.tokenCount ≤ storage.positions ∧
        hyperValues work.tokenCount ≤ storage.hyper ∧ ¬storage.lacksNgram work.flags work.tokenCount := by
  rw [carriedPrefillLayer_iff, eq_iff_at]
  constructor
  · intro h
    obtain ⟨layer, sourceRank, destinationRank, flags, mode, firstToken, tokenCount, positions, hyper, ngram⟩ := work
    simp [prefillLayerWorkDecode, headerMode_ok, embeddings_ok] at h
    obtain ⟨⟨-, hversion⟩, h3, _, h8, _, ⟨h10, hfits⟩, ⟨h12, -, -, hlength, hpositions, hhyper, hngram⟩, h0, h1, h2, h4,
      _, h16, _, hrow, _, ⟨hrows, hsome⟩, hvalid, rfl, rfl, hheq⟩ := h
    obtain ⟨hp, hh, hn⟩ := hheq
    cases hp
    cases hh
    cases hn
    have hcarried (hflag : ¬HasNgram flags) := not_not.mp fun hne => hflag (hsome.mpr hne)
    rw [PrefillLayerRecord.wire_length hsome.mp]
    refine ⟨⟨hlength, ?_⟩, hvalid, hversion, hfits, hcarried, hpositions, hhyper, hngram⟩
    simp [PrefillLayerRecord.wire, h0, h1, h2, h3, h4, h8, h10, h12, h16, hrow, hrows]
  · rintro ⟨⟨hlength, hat⟩, hvalid, hversion, hfits, hcarried, hpositions, hhyper, hngram⟩
    obtain ⟨htokens, hmax, hsome⟩ := validatePrefillLayerRecord_counts hvalid
    rw [PrefillLayerRecord.wire_length hsome, PrefillLayerRecord.bytes] at hlength
    obtain ⟨layer, sourceRank, destinationRank, flags, mode, firstToken, tokenCount, positions, hyper, ngram⟩ := work
    simp [PrefillLayerRecord.wire] at hat
    obtain ⟨h0, h1, h2, h3, h4, h8, h10, h12, h16, hrow, hrows⟩ := hat
    simp [prefillLayerWorkDecode, headerMode_ok, embeddings_ok]
    exact ⟨⟨by omega, hversion⟩, h3, _, h8, _, ⟨h10, hfits⟩, ⟨h12, htokens, hmax, hlength, hpositions, hhyper, hngram⟩,
      h0, h1, h2, h4, _, h16, _, hrow, _, ⟨hrows, ⟨hsome, fun hne => by_contra fun h => hne (hcarried h)⟩⟩, hvalid, rfl,
      rfl, HEq.rfl, HEq.rfl, HEq.rfl⟩

theorem carriedPrefillLayer_carried (work : PrefillLayerRecord) :
    carriedPrefillLayer (carriedPrefillLayer work) = carriedPrefillLayer work := by
  rw [carriedPrefillLayer_iff]
  intro h
  exact if_neg h

theorem wire_carriedPrefillLayer (version : UInt16) (work : PrefillLayerRecord) :
    (carriedPrefillLayer work).wire version = work.wire version := by
  by_cases hflag : HasNgram work.flags
  · simp [PrefillLayerRecord.wire, carriedPrefillLayer, hflag]
  · simp [PrefillLayerRecord.wire, carriedPrefillLayer, putEmbeddings, hflag]

theorem validate_carriedPrefillLayer (work : PrefillLayerRecord) :
    validatePrefillLayerRecord (carriedPrefillLayer work) = validatePrefillLayerRecord work := by
  rw [carriedPrefillLayer]
  split
  · rfl
  next hflag =>
    rw [HasNgram, not_not] at hflag
    simp [validatePrefillLayerRecord, validatePrefillLayerWork, PrefillLayerWork.HeaderInvalid,
      PrefillLayerRecord.toWork, hflag]

theorem PrefillLayerRecord.bytes_le (h : validatePrefillLayerRecord work = .ok ()) : work.bytes ≤ maxFrameBytes := by
  obtain ⟨-, htokens, -⟩ := validatePrefillLayerRecord_counts h
  have haxes : positionAxes work.positionMode ≤ 4 := by cases work.positionMode <;> decide
  have hpositions : positionValues work.positionMode work.tokenCount ≤ work.tokenCount.toNat * 4 := by
    rw [positionValues]
    exact Nat.mul_le_mul_left _ haxes
  have hembeddings : embeddingBytes work.flags work.tokenCount ≤ work.tokenCount.toNat * ngramEmbedValues * 4 := by
    rw [embeddingBytes, embeddingValues]
    split <;> omega
  rw [PrefillLayerRecord.bytes, hyperValues]
  simp only [prefillMaxTokens, hyperWidth, ngramEmbedValues, maxFrameBytes] at *
  omega

variable {capacity : Nat}

theorem prefillLayerWork_roundTrip
    (h : prefillLayerWorkEncode version capacity work = .ok p)
    (hpositions : positionValues work.positionMode work.tokenCount ≤ storage.positions)
    (hhyper : hyperValues work.tokenCount ≤ storage.hyper)
    (hngram : ¬storage.lacksNgram work.flags work.tokenCount) :
    (prefillLayerWorkDecode version storage).run p = .ok (carriedPrefillLayer work) := by
  simp [prefillLayerWorkEncode] at h
  obtain ⟨hversion, hvalid, hfits, -, rfl⟩ := h
  rw [prefillLayerWorkDecode_ok, validate_carriedPrefillLayer, wire_carriedPrefillLayer]
  exact ⟨rfl, hvalid, hversion, hfits, carriedPrefillLayer_carried work, hpositions, hhyper, hngram⟩

theorem prefillLayerWork_canonical
    (h : (prefillLayerWorkDecode version storage).run p = .ok work)
    (hcapacity : p.length ≤ capacity) : prefillLayerWorkEncode version capacity work = .ok p := by
  obtain ⟨rfl, hvalid, hversion, hfits, -⟩ := prefillLayerWorkDecode_ok.mp h
  rw [PrefillLayerRecord.wire_length (validatePrefillLayerRecord_counts hvalid).2.2] at hcapacity
  simp [prefillLayerWorkEncode, hvalid, hversion, hcapacity, PrefillLayerRecord.bytes_le hvalid]
  exact hfits

theorem prefillLayerWorkDecode_safe : (prefillLayerWorkDecode version storage).Safe p := by
  simp [prefillLayerWorkDecode, headerMode_ok]
  grind [safe_nonzeroU32, safe_u32, safe_u32s, safe_f32s, headerMode_safe, embeddingBytes]

/-! `fg_prefill_layer_result`. -/

structure PrefillLayerResultRecord where
  layer : UInt8
  sourceRank : UInt8
  destinationRank : UInt8
  firstToken : UInt32
  tokenCount : UInt16
  hyper : Vector Binary32 (hyperValues tokenCount)

def PrefillLayerResultRecord.toResult (result : PrefillLayerResultRecord) : PrefillLayerResult where
  layer := result.layer
  sourceRank := result.sourceRank
  destinationRank := result.destinationRank
  firstToken := result.firstToken
  tokenCount := result.tokenCount
  hyper := result.hyper.toList

def validatePrefillLayerResultRecord (result : PrefillLayerResultRecord) : Except Error Unit :=
  validatePrefillLayerResult result.toResult

def PrefillLayerResultRecord.bytes (result : PrefillLayerResultRecord) : Nat := 16 + hyperValues result.tokenCount * 4

def PrefillLayerResultRecord.wire (result : PrefillLayerResultRecord) : List UInt8 :=
  [result.layer, result.sourceRank, result.destinationRank, 0] ++ putU32 result.firstToken ++
    putU16 result.tokenCount ++ [0, 0] ++ putU32 0 ++ putF32s result.hyper.toList

def prefillLayerResultEncode (capacity : Nat) (result : PrefillLayerResultRecord) : Except Error (List UInt8) := do
  validatePrefillLayerResultRecord result
  failIf (maxFrameBytes < result.bytes ∨ capacity < result.bytes) ⟨.limit, "prefill layer result buffer is too small"⟩
  .ok result.wire

def prefillLayerResultDecode (hyperCapacity : Nat) : Decoder PrefillLayerResultRecord := do
  refuseIf ⟨.argument, "invalid prefill layer result input"⟩ [shorter 16]
  let tokenCount ← u16 8
  refuseIf (malformed "invalid prefill layer result size, reserved bytes, or storage capacity")
    [nonzero 3, nonzero 10, nonzero 11, nonzeroU32 12, test (tokenCount = 0),
      test (prefillMaxTokens < tokenCount.toNat), missized (16 + hyperValues tokenCount * 4),
      test (hyperCapacity < hyperValues tokenCount)]
  let layer ← byte 0
  let sourceRank ← byte 1
  let destinationRank ← byte 2
  let firstToken ← u32 4
  let hyper ← f32s 16 (hyperValues tokenCount)
  accept validatePrefillLayerResultRecord ⟨layer, sourceRank, destinationRank, firstToken, tokenCount, hyper⟩

variable {result : PrefillLayerResultRecord}

theorem validatePrefillLayerResultRecord_counts (h : validatePrefillLayerResultRecord result = .ok ()) :
    result.tokenCount ≠ 0 ∧ result.tokenCount.toNat ≤ prefillMaxTokens := by
  rw [validatePrefillLayerResultRecord, validatePrefillLayerResult] at h
  split at h
  · cases h
  next hheader =>
    simp only [not_or, not_lt] at hheader
    exact ⟨hheader.2.2.2.1, hheader.2.2.2.2⟩

variable {hyperCapacity : Nat}

theorem prefillLayerResultDecode_ok :
    (prefillLayerResultDecode hyperCapacity).run p = .ok result ↔
      p = result.wire ∧ validatePrefillLayerResultRecord result = .ok () ∧
        hyperValues result.tokenCount ≤ hyperCapacity := by
  rw [eq_iff_at]
  have hcounts := @validatePrefillLayerResultRecord_counts result
  obtain ⟨layer, sourceRank, destinationRank, firstToken, tokenCount, hyper⟩ := result
  simp [prefillLayerResultDecode, PrefillLayerResultRecord.wire]
  constructor
  · rintro ⟨-, _, h8, ⟨h3, h10, h11, h12, -, -, hlength, hroom⟩, h0, h1, h2, h4, _, h16, hvalid, rfl, h⟩
    cases h
    exact ⟨⟨by omega, h0, h1, h2, h3, h4, h8, h10, h11, h12, h16⟩, hvalid, hroom⟩
  · rintro ⟨⟨hlength, h0, h1, h2, h3, h4, h8, h10, h11, h12, h16⟩, hvalid, hroom⟩
    obtain ⟨htokens, hmax⟩ := hcounts hvalid
    exact ⟨by omega, _, h8, ⟨h3, h10, h11, h12, htokens, hmax, by omega, hroom⟩, h0, h1, h2, h4, _, h16, hvalid, rfl,
      HEq.rfl⟩

theorem PrefillLayerResultRecord.wire_length (result : PrefillLayerResultRecord) :
    result.wire.length = result.bytes := by
  simp [PrefillLayerResultRecord.wire, PrefillLayerResultRecord.bytes]
  omega

theorem PrefillLayerResultRecord.bytes_le
    (h : validatePrefillLayerResultRecord result = .ok ()) : result.bytes ≤ maxFrameBytes := by
  obtain ⟨-, htokens⟩ := validatePrefillLayerResultRecord_counts h
  rw [PrefillLayerResultRecord.bytes, hyperValues]
  simp only [prefillMaxTokens, hyperWidth, maxFrameBytes] at *
  omega

theorem prefillLayerResult_roundTrip {hyperCapacity capacity : Nat}
    (h : prefillLayerResultEncode capacity result = .ok p)
    (hroom : hyperValues result.tokenCount ≤ hyperCapacity) :
    (prefillLayerResultDecode hyperCapacity).run p = .ok result := by
  simp [prefillLayerResultEncode] at h
  exact prefillLayerResultDecode_ok.mpr ⟨h.2.2.symm, h.1, hroom⟩

theorem prefillLayerResult_canonical {hyperCapacity capacity : Nat}
    (h : (prefillLayerResultDecode hyperCapacity).run p = .ok result)
    (hcapacity : p.length ≤ capacity) : prefillLayerResultEncode capacity result = .ok p := by
  obtain ⟨rfl, hvalid, -⟩ := prefillLayerResultDecode_ok.mp h
  rw [PrefillLayerResultRecord.wire_length] at hcapacity
  simp [prefillLayerResultEncode, hvalid, hcapacity, PrefillLayerResultRecord.bytes_le hvalid]

theorem prefillLayerResultDecode_safe : (prefillLayerResultDecode hyperCapacity).Safe p := by
  simp [prefillLayerResultDecode]
  grind [safe_nonzeroU32, safe_u32, safe_f32s]

/-! `fg_decode_batch_work`. -/

@[irreducible] def slotBytes (flags : UInt8) (mode : PositionMode) : Nat :=
  8 + positionAxes mode * 4 + hyperWidth * 4 + ngramBytes flags

def zeroHyper : Vector Binary32 hyperWidth := .replicate hyperWidth ⟨0⟩

def putSlot (flags : UInt8) (mode : PositionMode) (entry : SlotWork) : List UInt8 :=
  putU32 entry.tokenIndex ++ putU32 entry.stateSlot ++ putPosition mode entry.position ++
    putF32s (entry.hyper.getD zeroHyper).toList ++ putNgram flags (entry.ngramEmbedding.getD zeroEmbedding)

def putSlots (flags : UInt8) (mode : PositionMode) (slots : List SlotWork) : List UInt8 :=
  slots.flatMap (putSlot flags mode)

def batchWorkBytes (work : BatchWork) : Nat := 16 + work.slots.length * slotBytes work.flags work.positionMode

def batchWorkWire (work : BatchWork) : List UInt8 :=
  [work.layer, work.sourceRank, work.destinationRank, work.flags] ++ putU32 0 ++
    putU16 (.ofNat work.slots.length) ++ [modeByte work.positionMode, axesByte work.positionMode] ++
    putU16 0 ++ putU16 0 ++ putSlots work.flags work.positionMode work.slots

def decodeBatchWorkEncode (version : UInt16) (capacity : Nat) (work : BatchWork) : Except Error (List UInt8) := do
  failIf (¬VersionSupported version) ⟨.argument, "invalid decode batch work output or protocol"⟩
  failIf (version < protocolVersion) ⟨.mismatch, "batched decode requires protocol 6"⟩
  validateDecodeBatchWork work
  failIf (maxFrameBytes < batchWorkBytes work ∨ capacity < batchWorkBytes work)
    ⟨.limit, "decode batch work buffer is too small"⟩
  .ok (batchWorkWire work)

def slotAt (flags : UInt8) (mode : PositionMode) (offset : Nat) : Decoder SlotWork := do
  let tokenIndex ← u32 offset
  let stateSlot ← u32 (offset + 4)
  let position ← positionAt (offset + 8) mode
  let hyper ← f32s (offset + 8 + positionAxes mode * 4) hyperWidth
  let ngram ← optional (HasNgram flags)
    (f32s (offset + 8 + positionAxes mode * 4 + hyperWidth * 4) ngramEmbedValues)
  pure ⟨tokenIndex, stateSlot, position, some hyper, ngram⟩

/-- Too little storage for the embeddings of a batch. -/
def LacksSlotNgram (ngram : Option Nat) (flags : UInt8) (slotCount : Nat) : Prop :=
  HasNgram flags ∧ ngram.getD 0 < slotCount * ngramEmbedValues

instance (ngram : Option Nat) (flags : UInt8) (slotCount : Nat) : Decidable (LacksSlotNgram ngram flags slotCount) := by
  unfold LacksSlotNgram
  infer_instance

def decodeBatchWorkDecode (version : UInt16) (hyperCapacity : Nat) (ngramCapacity : Option Nat) :
    Decoder BatchWork := do
  refuseIf ⟨.argument, "invalid decode batch work input or protocol"⟩ [test (¬VersionSupported version)]
  refuseIf (malformed "batched decode work is shorter than protocol 6 minimum")
    [test (version < protocolVersion), shorter 16]
  let flags ← byte 3
  let slotCount ← u16 8
  let mode ← byte 10
  let axes ← byte 11
  refuseIf (malformed "invalid decode batch work size, reserved bytes, or storage capacity")
    [nonzeroU32 4, nonzeroU16 12, nonzeroU16 14, test (slotCount = 0), test (batchMax < slotCount.toNat),
      missized (16 + slotCount.toNat * (8 + axes.toNat * 4 + hyperWidth * 4 + ngramBytes flags)),
      test (1 < mode), test (axes ≠ axesByte (modeOf mode)), test (hyperCapacity < slotCount.toNat * hyperWidth),
      test (LacksSlotNgram ngramCapacity flags slotCount.toNat)]
  let layer ← byte 0
  let sourceRank ← byte 1
  let destinationRank ← byte 2
  let slots ← listAt (fun slot => slotAt flags (modeOf mode) (16 + slot * slotBytes flags (modeOf mode)))
    slotCount.toNat
  accept validateDecodeBatchWork ⟨layer, sourceRank, destinationRank, flags, modeOf mode, slots⟩

def carriedSlot (flags : UInt8) (entry : SlotWork) : SlotWork :=
  { entry with ngramEmbedding := if HasNgram flags then entry.ngramEmbedding else none }

def carriedBatchWork (work : BatchWork) : BatchWork :=
  { work with slots := work.slots.map (carriedSlot work.flags) }

/-- A slot as a decoder fills it: no axis past the mode's, and its rows where they are carried. -/
structure SlotFilled (flags : UInt8) (mode : PositionMode) (entry : SlotWork) : Prop where
  position : mode = .text → entry.position.get 3 = 0
  hyper : entry.hyper ≠ none
  ngram : HasNgram flags ↔ entry.ngramEmbedding ≠ none

theorem putSlot_length (flags : UInt8) (mode : PositionMode) (entry : SlotWork) :
    (putSlot flags mode entry).length = slotBytes flags mode := by
  simp [putSlot, slotBytes]
  omega

theorem putSlots_length (flags : UInt8) (mode : PositionMode) (slots : List SlotWork) :
    (putSlots flags mode slots).length = slots.length * slotBytes flags mode :=
  flatMap_length (putSlot_length flags mode) slots

theorem putEmbeddings_eq {row : Option (Vector Binary32 ngramEmbedValues)}
    (h : HasNgram flags → row ≠ none) : putEmbeddings flags row = putNgram flags (row.getD zeroEmbedding) := by
  rw [putEmbeddings, putNgram]
  split
  next hflag =>
    obtain ⟨value, rfl⟩ := Option.ne_none_iff_exists'.mp (h hflag)
    rfl
  · rfl

variable {offset : Nat}

theorem slotAt_ok {entry : SlotWork} : (slotAt flags mode offset).run p = .ok entry ↔
      At p offset (putSlot flags mode entry) ∧ SlotFilled flags mode entry := by
  obtain ⟨tokenIndex, stateSlot, position, hyper, ngram⟩ := entry
  simp [slotAt, positionAt_ok, embeddings_ok, putSlot]
  constructor
  · rintro ⟨htoken, hslot, ⟨hposition, hzero⟩, row, hrow, ⟨hngram, hsome⟩, rfl⟩
    rw [putEmbeddings_eq hsome.mp] at hngram
    exact ⟨⟨htoken, hslot, hposition, hrow, hngram⟩, hzero, by simp, hsome⟩
  · rintro ⟨⟨htoken, hslot, hposition, hrow, hngram⟩, hzero, hhyper, hsome⟩
    obtain ⟨row, rfl⟩ := Option.ne_none_iff_exists'.mp hhyper
    rw [← putEmbeddings_eq hsome.mp] at hngram
    exact ⟨htoken, hslot, ⟨hposition, hzero⟩, row, hrow, ⟨hngram, hsome⟩, rfl⟩

theorem slots_ok {n : Nat} {slots : List SlotWork} :
    (listAt (fun slot => slotAt flags mode (16 + slot * slotBytes flags mode)) n).run p = .ok slots ↔
      slots.length = n ∧ At p 16 (putSlots flags mode slots) ∧ ∀ entry ∈ slots, SlotFilled flags mode entry := by
  rw [listAt_entries (putSlot_length flags mode) fun k entry => slotAt_ok, putSlots]

variable {work : BatchWork}

theorem validateSlot_filled {before : List SlotWork} {slot : Nat} {entry : SlotWork}
    (h : validateSlot work before slot entry = .ok ()) :
    (work.positionMode = .text → entry.position.get 3 = 0) ∧ entry.hyper ≠ none ∧
      (HasNgram work.flags → entry.ngramEmbedding ≠ none) := by
  rw [validateSlot] at h
  split at h
  · cases h
  next row hrow =>
    split at h
    · cases h
    next hheader =>
      simp only [not_or, not_and, not_not] at hheader
      refine ⟨hheader.2.2, by simp [hrow], fun hflag hnone => ?_⟩
      split at h
      · cases h
      · split at h
        · cases h
        · rw [if_neg hflag, hnone] at h
          cases h

theorem validateSlots_filled {before rest : List SlotWork}
    (h : validateSlots work before rest = .ok ()) : ∀ entry ∈ rest,
      (work.positionMode = .text → entry.position.get 3 = 0) ∧ entry.hyper ≠ none ∧
        (HasNgram work.flags → entry.ngramEmbedding ≠ none) := by
  induction rest generalizing before with
  | nil => exact fun entry hentry => absurd hentry List.not_mem_nil
  | cons head rest ih =>
    rw [validateSlots] at h
    split at h
    · cases h
    next hhead =>
      exact List.forall_mem_cons.mpr ⟨validateSlot_filled hhead, ih h⟩

theorem validateDecodeBatchWork_parts (h : validateDecodeBatchWork work = .ok ()) :
    ¬work.HeaderInvalid ∧ validateSlots work [] work.slots = .ok () := by
  rw [validateDecodeBatchWork] at h
  split at h
  · cases h
  · exact ⟨‹_›, h⟩

theorem validateDecodeBatchWork_count (h : validateDecodeBatchWork work = .ok ()) :
    work.slots.length ≠ 0 ∧ work.slots.length ≤ batchMax := by
  have hheader := (validateDecodeBatchWork_parts h).1
  simp only [BatchWork.HeaderInvalid, not_or, not_lt] at hheader
  exact ⟨hheader.2.2.2.2.2.1, hheader.2.2.2.2.2.2⟩

theorem carriedBatchWork_iff : carriedBatchWork work = work ↔
    ∀ entry ∈ work.slots, ¬HasNgram work.flags → entry.ngramEmbedding = none := by
  obtain ⟨layer, sourceRank, destinationRank, flags, mode, slots⟩ := work
  simp only [carriedBatchWork, BatchWork.mk.injEq, true_and]
  nth_rewrite 2 [← List.map_id slots]
  rw [List.map_inj_left]
  refine forall₂_congr fun entry _ => ?_
  obtain ⟨tokenIndex, stateSlot, position, hyper, ngram⟩ := entry
  rw [carriedSlot]
  split <;> simp_all [eq_comm]

variable {ngramCapacity : Option Nat}

theorem decodeBatchWorkDecode_ok :
    (decodeBatchWorkDecode version hyperCapacity ngramCapacity).run p = .ok work ↔
      p = batchWorkWire work ∧ validateDecodeBatchWork work = .ok () ∧
        (VersionSupported version ∧ protocolVersion ≤ version) ∧
        carriedBatchWork work = work ∧ work.slots.length * hyperWidth ≤ hyperCapacity ∧
        ¬LacksSlotNgram ngramCapacity work.flags work.slots.length := by
  rw [carriedBatchWork_iff, eq_iff_at]
  have hcount := @validateDecodeBatchWork_count work
  have hfilled (hvalid : validateDecodeBatchWork work = .ok ()) :=
    validateSlots_filled (validateDecodeBatchWork_parts hvalid).2
  obtain ⟨layer, sourceRank, destinationRank, flags, mode, slots⟩ := work
  have hbytes : 8 + positionAxes mode * 4 + hyperWidth * 4 + ngramBytes flags = slotBytes flags mode := by
    rw [slotBytes]
  simp [decodeBatchWorkDecode, slots_ok, batchWorkWire, putSlots_length]
  constructor
  · rintro ⟨hversion, ⟨hnew, -⟩, h3, slotCount, h8, x, h10, h11, ⟨h4, h12, h14, -, -, hlength, hx, hhyper, hngram⟩,
      h0, h1, h2, ⟨hcounted, h16, hslots⟩, hvalid, rfl⟩
    rw [(toNat_eq_iff16.mp hcounted).1] at h8
    rw [← hcounted] at hlength hhyper hngram
    rw [hbytes] at hlength
    rw [modeByte_modeOf hx]
    refine ⟨⟨by omega, h0, h1, h2, h3, h4, h8, h10, h11, h12, h14, h16⟩, hvalid, ⟨hversion, hnew⟩, ?_, hhyper, hngram⟩
    exact fun entry hentry hflag => not_not.mp fun hne => hflag ((hslots entry hentry).ngram.mpr hne)
  · rintro ⟨⟨hlength, h0, h1, h2, h3, h4, h8, h10, h11, h12, h14, h16⟩, hvalid, ⟨hversion, hnew⟩, hcarried, hhyper,
      hngram⟩
    obtain ⟨hnonempty, hmax⟩ := hcount hvalid
    have hcounted : slots.length = (UInt16.ofNat slots.length).toNat := by
      apply toNat_eq_iff16.mpr ⟨rfl, ?_⟩
      simp [batchMax] at hmax
      omega
    refine ⟨hversion, ⟨hnew, by omega⟩, h3, _, h8, modeByte mode, h10, by simpa using h11,
      ⟨h4, h12, h14, fun hzero => ?_, ?_, ?_, by simp, ?_, ?_⟩, h0, h1, h2, ⟨hcounted, by simpa using h16, ?_⟩,
      by simpa using hvalid, by simp⟩
    · rw [hzero] at hcounted
      exact hnonempty hcounted
    · rwa [← hcounted]
    · rw [← hcounted, modeOf_modeByte, hbytes]
      omega
    · rwa [← hcounted]
    · rwa [← hcounted]
    · rw [modeOf_modeByte]
      intro entry hentry
      obtain ⟨hposition, hrow, hsome⟩ := hfilled hvalid entry hentry
      exact ⟨hposition, hrow, hsome, fun hne => by_contra fun hflag => hne (hcarried entry hentry hflag)⟩

theorem carriedSlot_of_flag (h : HasNgram flags) (entry : SlotWork) : carriedSlot flags entry = entry := by
  rw [carriedSlot, if_pos h]

theorem validateSlots_carried (h : ¬HasNgram work.flags) (before rest : List SlotWork) :
    validateSlots (carriedBatchWork work) (before.map (carriedSlot work.flags)) (rest.map (carriedSlot work.flags)) =
      validateSlots work before rest := by
  induction rest generalizing before with
  | nil => rfl
  | cons head rest ih =>
    have hhead : validateSlot (carriedBatchWork work) (before.map (carriedSlot work.flags)) before.length
        (carriedSlot work.flags head) = validateSlot work before before.length head := by
      rw [HasNgram, not_not] at h
      simp [validateSlot, carriedBatchWork, carriedSlot, h, List.findIdx?_map, Function.comp_def]
      rfl
    rw [List.map_cons, validateSlots, validateSlots, List.length_map, hhead]
    have hstep := ih (before ++ [head])
    rw [List.map_append, List.map_singleton] at hstep
    rw [hstep]

theorem validate_carriedBatchWork (work : BatchWork) :
    validateDecodeBatchWork (carriedBatchWork work) = validateDecodeBatchWork work := by
  by_cases hflag : HasNgram work.flags
  · rw [carriedBatchWork_iff.mpr fun entry _ hnone => absurd hflag hnone]
  · have hslots := validateSlots_carried hflag [] work.slots
    have hheader : (carriedBatchWork work).HeaderInvalid ↔ work.HeaderInvalid := by
      simp [BatchWork.HeaderInvalid, carriedBatchWork]
    rw [validateDecodeBatchWork, validateDecodeBatchWork]
    simp only [hheader]
    rw [← hslots]
    rfl

theorem batchWorkWire_carried (work : BatchWork) : batchWorkWire (carriedBatchWork work) = batchWorkWire work := by
  have hslots : putSlots work.flags work.positionMode (work.slots.map (carriedSlot work.flags)) =
      putSlots work.flags work.positionMode work.slots := by
    rw [putSlots, putSlots, List.flatMap_map]
    congr 1
    funext entry
    by_cases hflag : HasNgram work.flags
    · rw [carriedSlot_of_flag hflag]
    · simp [putSlot, carriedSlot, putNgram, hflag]
  rw [batchWorkWire, batchWorkWire]
  simp only [carriedBatchWork, List.length_map, hslots]

theorem batchWorkWire_length (work : BatchWork) : (batchWorkWire work).length = batchWorkBytes work := by
  simp [batchWorkWire, batchWorkBytes, putSlots_length]
  omega

theorem batchWorkBytes_le (h : validateDecodeBatchWork work = .ok ()) : batchWorkBytes work ≤ maxFrameBytes := by
  have hslots := (validateDecodeBatchWork_count h).2
  have haxes : positionAxes work.positionMode ≤ 4 := by cases work.positionMode <;> decide
  have hngram : ngramBytes work.flags ≤ ngramEmbedValues * 4 := by
    rw [ngramBytes]
    split <;> omega
  have hslot : slotBytes work.flags work.positionMode ≤ 60000 := by
    rw [slotBytes]
    simp only [hyperWidth, ngramEmbedValues] at *
    omega
  have hall : work.slots.length * slotBytes work.flags work.positionMode ≤ 2 * 60000 := Nat.mul_le_mul hslots hslot
  rw [batchWorkBytes, maxFrameBytes]
  omega

theorem decodeBatchWork_roundTrip (h : decodeBatchWorkEncode version capacity work = .ok p)
    (hhyper : work.slots.length * hyperWidth ≤ hyperCapacity)
    (hngram : ¬LacksSlotNgram ngramCapacity work.flags work.slots.length) :
    (decodeBatchWorkDecode version hyperCapacity ngramCapacity).run p = .ok (carriedBatchWork work) := by
  simp [decodeBatchWorkEncode] at h
  obtain ⟨hversion, hnew, hvalid, -, rfl⟩ := h
  rw [decodeBatchWorkDecode_ok, validate_carriedBatchWork, batchWorkWire_carried]
  refine ⟨rfl, hvalid, ⟨hversion, hnew⟩, carriedBatchWork_iff.mpr ?_, ?_, ?_⟩
  · intro entry hentry hflag
    obtain ⟨original, -, rfl⟩ := List.mem_map.mp hentry
    exact if_neg hflag
  · simpa [carriedBatchWork] using hhyper
  · simpa [carriedBatchWork] using hngram

theorem decodeBatchWork_canonical (h : (decodeBatchWorkDecode version hyperCapacity ngramCapacity).run p = .ok work)
    (hcapacity : p.length ≤ capacity) : decodeBatchWorkEncode version capacity work = .ok p := by
  obtain ⟨rfl, hvalid, ⟨hversion, hnew⟩, -⟩ := decodeBatchWorkDecode_ok.mp h
  rw [batchWorkWire_length] at hcapacity
  simp [decodeBatchWorkEncode, hvalid, hversion, hnew, hcapacity, batchWorkBytes_le hvalid]

theorem slotAt_safe (h : offset + slotBytes flags mode ≤ p.length) : (slotAt flags mode offset).Safe p := by
  rw [slotBytes] at h
  simp [slotAt]
  grind [safe_u32, positionAt_safe, safe_f32s, ngramBytes]

theorem decodeBatchWorkDecode_safe : (decodeBatchWorkDecode version hyperCapacity ngramCapacity).Safe p := by
  have hslots (flags x : UInt8) (n : Nat) (h : 16 + n * slotBytes flags (modeOf x) ≤ p.length) :
      (listAt (fun slot => slotAt flags (modeOf x) (16 + slot * slotBytes flags (modeOf x))) n).Safe p :=
    safe_entries h fun _ => slotAt_safe
  simp [decodeBatchWorkDecode]
  intro _ _ hlength
  refine ⟨by omega, fun flags _ => ⟨by omega, fun slotCount _ => ⟨by omega, fun mode _ => ⟨by omega, fun axes _ => ?_⟩⟩⟩⟩
  refine ⟨⟨safe_nonzeroU32 (by omega), fun _ => ⟨safe_nonzeroU16 (by omega), fun _ => safe_nonzeroU16 (by omega)⟩⟩, ?_⟩
  rintro - - - - - hlength - rfl - -
  rw [axesByte_toNat, ← slotBytes] at hlength
  exact ⟨by omega, fun _ _ => ⟨by omega, fun _ _ => ⟨by omega, fun _ _ => hslots flags mode _ (by omega)⟩⟩⟩

/-! `fg_decode_batch_result`. -/

@[irreducible] def slotResultBytes : Nat := 4 + hyperWidth * 4

def putSlotResult (entry : SlotResult) : List UInt8 := putU32 entry.tokenIndex ++ putF32s entry.hyper.toList

def putSlotResults (slots : List SlotResult) : List UInt8 := slots.flatMap putSlotResult

def batchResultBytes (result : BatchResult) : Nat := 16 + result.slots.length * slotResultBytes

def batchResultWire (result : BatchResult) : List UInt8 :=
  [result.layer, result.sourceRank, result.destinationRank, 0] ++ putU32 0 ++
    putU16 (.ofNat result.slots.length) ++ putU16 0 ++ putU32 0 ++ putSlotResults result.slots

def decodeBatchResultEncode (capacity : Nat) (result : BatchResult) : Except Error (List UInt8) := do
  validateDecodeBatchResult result
  failIf (maxFrameBytes < batchResultBytes result ∨ capacity < batchResultBytes result)
    ⟨.limit, "decode batch result buffer is too small"⟩
  .ok (batchResultWire result)

def slotResultAt (offset : Nat) : Decoder SlotResult := do
  let tokenIndex ← u32 offset
  let hyper ← f32s (offset + 4) hyperWidth
  pure ⟨tokenIndex, hyper⟩

def decodeBatchResultDecode : Decoder BatchResult := do
  refuseIf (malformed "decode batch result is shorter than its header") [shorter 16]
  let slotCount ← u16 8
  refuseIf (malformed "invalid decode batch result size, reserved bytes, or slot count")
    [nonzero 3, nonzeroU32 4, nonzeroU16 10, nonzeroU32 12, test (slotCount = 0), test (batchMax < slotCount.toNat),
      missized (16 + slotCount.toNat * slotResultBytes)]
  let layer ← byte 0
  let sourceRank ← byte 1
  let destinationRank ← byte 2
  let slots ← listAt (fun slot => slotResultAt (16 + slot * slotResultBytes)) slotCount.toNat
  accept validateDecodeBatchResult ⟨layer, sourceRank, destinationRank, 0, slots⟩

theorem putSlotResult_length (entry : SlotResult) : (putSlotResult entry).length = slotResultBytes := by
  simp [putSlotResult, slotResultBytes]

@[simp] theorem putSlotResults_length (slots : List SlotResult) :
    (putSlotResults slots).length = slots.length * slotResultBytes :=
  flatMap_length putSlotResult_length slots

theorem slotResultAt_ok {entry : SlotResult} :
    (slotResultAt offset).run p = .ok entry ↔ At p offset (putSlotResult entry) := by
  obtain ⟨tokenIndex, hyper⟩ := entry
  simp [slotResultAt, putSlotResult]

theorem slotResults_ok {n : Nat} {slots : List SlotResult} :
    (listAt (fun slot => slotResultAt (16 + slot * slotResultBytes)) n).run p = .ok slots ↔
      slots.length = n ∧ At p 16 (putSlotResults slots) := by
  rw [listAt_entries putSlotResult_length fun k x => by rw [slotResultAt_ok, and_iff_left trivial], putSlotResults]
  simp

variable {result : BatchResult}

theorem validateDecodeBatchResult_counts (h : validateDecodeBatchResult result = .ok ()) :
    result.flags = 0 ∧ result.slots.length ≠ 0 ∧ result.slots.length ≤ batchMax := by
  rw [validateDecodeBatchResult] at h
  split at h
  · cases h
  next hheader =>
    simp only [not_or, not_lt, not_not] at hheader
    exact hheader.2.2.2

theorem decodeBatchResultDecode_ok : decodeBatchResultDecode.run p = .ok result ↔
      p = batchResultWire result ∧ validateDecodeBatchResult result = .ok () := by
  rw [eq_iff_at]
  have hcounts := @validateDecodeBatchResult_counts result
  obtain ⟨layer, sourceRank, destinationRank, flags, slots⟩ := result
  simp [decodeBatchResultDecode, slotResults_ok, batchResultWire]
  constructor
  · rintro ⟨-, slotCount, h8, ⟨h3, h4, h10, h12, -, -, hlength⟩, h0, h1, h2, ⟨hcounted, h16⟩, hvalid, rfl⟩
    rw [(toNat_eq_iff16.mp hcounted).1] at h8
    rw [← hcounted] at hlength
    exact ⟨⟨by omega, h0, h1, h2, h3, h4, h8, h10, h12, h16⟩, hvalid⟩
  · rintro ⟨⟨hlength, h0, h1, h2, h3, h4, h8, h10, h12, h16⟩, hvalid⟩
    obtain ⟨hflags, hnonempty, hmax⟩ := hcounts hvalid
    subst hflags
    have hcounted : slots.length = (UInt16.ofNat slots.length).toNat := by
      apply toNat_eq_iff16.mpr ⟨rfl, ?_⟩
      simp [batchMax] at hmax
      omega
    refine ⟨by omega, _, h8, ⟨h3, h4, h10, h12, fun hzero => ?_, ?_, ?_⟩, h0, h1, h2, ⟨hcounted, h16⟩, hvalid, rfl⟩
    · rw [hzero] at hcounted
      exact hnonempty hcounted
    · rwa [← hcounted]
    · rw [← hcounted]
      omega

theorem batchResultWire_length (result : BatchResult) : (batchResultWire result).length = batchResultBytes result := by
  simp [batchResultWire, batchResultBytes]
  omega

theorem batchResultBytes_le (h : validateDecodeBatchResult result = .ok ()) :
    batchResultBytes result ≤ maxFrameBytes := by
  have hslots := (validateDecodeBatchResult_counts h).2.2
  have hslot : slotResultBytes = 40964 := by
    rw [slotResultBytes]
    rfl
  have hall : result.slots.length * slotResultBytes ≤ 2 * slotResultBytes := Nat.mul_le_mul_right _ hslots
  rw [batchResultBytes, maxFrameBytes]
  omega

theorem decodeBatchResult_roundTrip
    (h : decodeBatchResultEncode capacity result = .ok p) : decodeBatchResultDecode.run p = .ok result := by
  simp [decodeBatchResultEncode] at h
  exact decodeBatchResultDecode_ok.mpr ⟨h.2.2.symm, h.1⟩

theorem decodeBatchResult_canonical
    (h : decodeBatchResultDecode.run p = .ok result) (hcapacity : p.length ≤ capacity) :
    decodeBatchResultEncode capacity result = .ok p := by
  obtain ⟨rfl, hvalid⟩ := decodeBatchResultDecode_ok.mp h
  rw [batchResultWire_length] at hcapacity
  simp [decodeBatchResultEncode, hvalid, hcapacity, batchResultBytes_le hvalid]

theorem slotResultAt_safe (h : offset + slotResultBytes ≤ p.length) : (slotResultAt offset).Safe p := by
  rw [slotResultBytes] at h
  simp [slotResultAt]
  grind [safe_u32, safe_f32s]

theorem decodeBatchResultDecode_safe : decodeBatchResultDecode.Safe p := by
  simp +contextual (disch := omega) [decodeBatchResultDecode, safe_nonzeroU32, safe_nonzeroU16,
    safe_entries _ fun _ => slotResultAt_safe]
  grind

end FlashGordon.Wire
