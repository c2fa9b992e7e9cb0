import FlashGordon.QsaOwnerWriter
import FlashGordon.WireLayerBatch

/-! The payloads of QSA blocks, of QSA pages and of the GDN state (`protocol.c`). The block messages test that
their rows are finite while they copy them; the page messages share one batch header and one entry header. -/

namespace FlashGordon.Wire

open ByteCodec Reader Prefill DecodeBatch RingWire ExpertRoute QsaOwner

def checkFinite (label : String) (values : List Binary32) : Except Error Unit :=
  match values.findIdx? fun value => !value.isFinite with
  | some i => .error (malformed s!"{label} at {i}")
  | none => .ok ()

def finiteF32s (label : String) (offset n : Nat) : Decoder (Vector Binary32 n) :=
  vectorAt (fun i => do
    let value ← f32 (offset + i * 4)
    refuseIf (malformed s!"{label} at {i}") [test (value.isFinite = false)]
    pure value) n

def AllFinite (values : List Binary32) : Prop := ∀ value ∈ values, value.isFinite = true

variable {label : String}

theorem checkFinite_ok {values : List Binary32} : checkFinite label values = .ok () ↔ AllFinite values := by
  rw [checkFinite, AllFinite]
  cases h : values.findIdx? fun value => !value.isFinite with
  | none => simpa using h
  | some i =>
    obtain ⟨hi, hvalue, -⟩ := List.findIdx?_eq_some_iff_getElem.mp h
    simp only [reduceCtorEq, false_iff]
    intro hall
    have hfinite := hall values[i] (List.getElem_mem hi)
    simp [hfinite] at hvalue

variable {p : List UInt8}

theorem finiteF32s_ok {offset n : Nat} {row : Vector Binary32 n} :
    (finiteF32s label offset n).run p = .ok row ↔ At p offset (putF32s row.toList) ∧ AllFinite row.toList := by
  rw [finiteF32s, vectorAt_entries putF32_length fun k x => ?_, putF32s, AllFinite]
  simp

theorem finiteF32s_safe {offset n : Nat} (h : offset + n * 4 ≤ p.length) : (finiteF32s label offset n).Safe p := by
  apply safe_vectorAt
  intro k hk
  simp [safe_f32 (show offset + k * 4 + 4 ≤ p.length by omega)]

def validateQsaBlockRoute (layer sourceRank destinationRank : UInt8) : Except Error Unit :=
  failIf (layerCount ≤ layer.toNat ∨ layer &&& 3 ≠ 3 ∨ rankCount ≤ sourceRank.toNat ∨
    rankCount ≤ destinationRank.toNat ∨ sourceRank = destinationRank) (malformed "invalid QSA block route or storage")

/-! `fg_qsa_block_work`. -/

structure QsaBlockWork where
  layer : UInt8
  sourceRank : UInt8
  destinationRank : UInt8
  positionMode : PositionMode
  tokenIndex : UInt32
  position : Positions
  hidden : Vector Binary32 hiddenSize

def QsaBlockWork.bytes (version : UInt16) (work : QsaBlockWork) : Nat :=
  layerHeader version work.positionMode + hiddenSize * 4

def QsaBlockWork.wire (version : UInt16) (work : QsaBlockWork) : List UInt8 :=
  [work.layer, work.sourceRank, work.destinationRank, 0] ++ putU32 work.tokenIndex ++
    putLayerMode version work.positionMode ++ putPosition work.positionMode work.position ++
    putF32s work.hidden.toList

def qsaBlockWorkEncode (version : UInt16) (capacity : Nat) (work : QsaBlockWork) : Except Error (List UInt8) := do
  failIf (¬VersionSupported version) ⟨.argument, "invalid QSA block work output or protocol"⟩
  validateQsaBlockRoute work.layer work.sourceRank work.destinationRank
  failIf ((work.positionMode = .text ∧ work.position.get 3 ≠ 0) ∨
    (version = protocolMinVersion ∧ work.positionMode ≠ .text)) ⟨.mismatch, "QSA block work position contract mismatch"⟩
  failIf (capacity < work.bytes version) ⟨.limit, "QSA block work buffer is too small"⟩
  checkFinite "non-finite QSA block input" work.hidden.toList
  .ok (work.wire version)

def qsaBlockMode (version : UInt16) : Decoder PositionMode :=
  if version = protocolMinVersion then pure .text
  else do
    let bytes ← size
    refuseIf (malformed "invalid protocol 6 QSA block work size")
      [test (bytes ≠ 24 + hiddenSize * 4 ∧ bytes ≠ 28 + hiddenSize * 4)]
    let mode ← byte 8
    let axes ← byte 9
    refuseIf (malformed "invalid protocol 6 QSA block position contract")
      [nonzero 10, nonzero 11, test (1 < mode), test (axes ≠ axesByte (modeOf mode))]
    pure (modeOf mode)

/-- The reserved byte is tested before the length. -/
def qsaBlockWorkDecode (version : UInt16) (hiddenCapacity : Nat) : Decoder QsaBlockWork := do
  refuseIf ⟨.argument, "invalid QSA block work input or protocol"⟩
    [test (hiddenCapacity < hiddenSize), test (¬VersionSupported version)]
  let mode ← qsaBlockMode version
  refuseIf (malformed "invalid QSA block work payload size")
    [nonzero 3, missized (layerHeader version mode + hiddenSize * 4)]
  let layer ← byte 0
  let sourceRank ← byte 1
  let destinationRank ← byte 2
  let tokenIndex ← u32 4
  let position ← positionAt (positionOffset version) mode
  let hidden ← finiteF32s "non-finite QSA block input" (layerHeader version mode) hiddenSize
  accept (fun work => validateQsaBlockRoute work.layer work.sourceRank work.destinationRank)
    ⟨layer, sourceRank, destinationRank, mode, tokenIndex, position, hidden⟩

variable {version : UInt16}

theorem qsaBlockMode_ok {mode : PositionMode} :
    (qsaBlockMode version).run p = .ok mode ↔ At p 8 (putLayerMode version mode) ∧ ModeFits version mode ∧
      (version ≠ protocolMinVersion → p.length = 24 + hiddenSize * 4 ∨ p.length = 28 + hiddenSize * 4) := by
  rw [qsaBlockMode, putLayerMode, ModeFits]
  split
  next hversion =>
    simp [hversion]
    tauto
  next hversion =>
    simp [hversion]
    constructor
    · rintro ⟨hsize, x, h8, h9, ⟨h10, h11, hx⟩, rfl⟩
      rw [modeByte_modeOf hx]
      exact ⟨⟨h8, h9, h10, h11⟩, by tauto⟩
    · rintro ⟨⟨h8, h9, h10, h11⟩, hsize⟩
      exact ⟨by tauto, modeByte mode, h8, by simpa using h9, ⟨h10, h11, by simp⟩, by simp⟩

variable {hiddenCapacity : Nat}

variable {work : QsaBlockWork}

theorem qsaBlockWorkDecode_ok : (qsaBlockWorkDecode version hiddenCapacity).run p = .ok work ↔
      p = work.wire version ∧ validateQsaBlockRoute work.layer work.sourceRank work.destinationRank = .ok () ∧
        (work.positionMode = .text → work.position.get 3 = 0) ∧ AllFinite work.hidden.toList ∧
        VersionSupported version ∧ ModeFits version work.positionMode ∧ hiddenSize ≤ hiddenCapacity := by
  rw [eq_iff_at]
  obtain ⟨layer, sourceRank, destinationRank, mode, tokenIndex, position, hidden⟩ := work
  have hoffset : 8 + (putLayerMode version mode).length = positionOffset version :=
    (positionOffset_eq version mode).symm
  have hheader : ModeFits version mode → layerHeader version mode = positionOffset version + positionAxes mode * 4 :=
    layerHeader_eq
  have hsizes : version ≠ protocolMinVersion → layerHeader version mode = 24 ∨ layerHeader version mode = 28 := by
    intro hversion
    rw [layerHeader, if_neg hversion]
    cases mode <;> simp [positionAxes]
  simp [qsaBlockWorkDecode, qsaBlockMode_ok, positionAt_ok, finiteF32s_ok, QsaBlockWork.wire, hoffset]
  grind

theorem QsaBlockWork.wire_length (h : ModeFits version work.positionMode) :
    (work.wire version).length = work.bytes version := by
  have hoffset := positionOffset_eq version work.positionMode
  rw [QsaBlockWork.bytes, layerHeader_eq h, QsaBlockWork.wire]
  simp
  omega

variable {capacity hiddenCapacity : Nat}

theorem qsaBlockWork_roundTrip
    (h : qsaBlockWorkEncode version capacity work = .ok p) (hroom : hiddenSize ≤ hiddenCapacity) :
    (qsaBlockWorkDecode version hiddenCapacity).run p = .ok work := by
  simp [qsaBlockWorkEncode, checkFinite_ok] at h
  obtain ⟨hversion, hroute, ⟨hposition, hfits⟩, -, hfinite, rfl⟩ := h
  exact qsaBlockWorkDecode_ok.mpr ⟨rfl, hroute, hposition, hfinite, hversion, hfits, hroom⟩

theorem qsaBlockWork_canonical
    (h : (qsaBlockWorkDecode version hiddenCapacity).run p = .ok work) (hcapacity : p.length ≤ capacity) :
    qsaBlockWorkEncode version capacity work = .ok p := by
  obtain ⟨rfl, hroute, hposition, hfinite, hversion, hfits, -⟩ := qsaBlockWorkDecode_ok.mp h
  rw [QsaBlockWork.wire_length hfits] at hcapacity
  simp [qsaBlockWorkEncode, checkFinite_ok, hroute, hfinite, hversion, hcapacity]
  exact ⟨hposition, hfits⟩

theorem qsaBlockMode_safe : (qsaBlockMode version).Safe p := by
  rw [qsaBlockMode]
  split
  · exact safe_pure
  · simp
    grind

theorem qsaBlockWorkDecode_safe_iff :
    (qsaBlockWorkDecode version hiddenCapacity).Safe p ↔
      ¬(hiddenSize ≤ hiddenCapacity ∧ version = protocolMinVersion ∧ p.length ≤ 3) := by
  simp [qsaBlockWorkDecode, qsaBlockMode_ok, qsaBlockMode_safe]
  constructor
  · intro h hroom hversion
    have hfirst := h hroom (versionSupported_iff.mpr (.inl hversion)) .text
    simp [hversion, putLayerMode, ModeFits] at hfirst
    exact hfirst.1
  · intro h hroom _ mode _ hfits hsize
    have hlength : 3 < p.length := by
      by_cases hversion : version = protocolMinVersion
      · exact h hroom hversion
      · have := hsize hversion
        omega
    have hposition := layerHeader_eq hfits
    refine ⟨hlength, fun _ hlength => ?_⟩
    grind [safe_u32, positionAt_safe, finiteF32s_safe, positionOffset]

/-! `fg_qsa_block_result`. -/

structure QsaBlockResult where
  layer : UInt8
  sourceRank : UInt8
  destinationRank : UInt8
  tokenIndex : UInt32
  hidden : Vector Binary32 hiddenSize

def QsaBlockResult.wire (result : QsaBlockResult) : List UInt8 :=
  [result.layer, result.sourceRank, result.destinationRank, 0] ++ putU32 result.tokenIndex ++
    putF32s result.hidden.toList

def qsaBlockResultEncode (result : QsaBlockResult) : Except Error (List UInt8) := do
  validateQsaBlockRoute result.layer result.sourceRank result.destinationRank
  checkFinite "non-finite QSA block result" result.hidden.toList
  .ok result.wire

def qsaBlockResultDecode (hiddenCapacity : Nat) : Decoder QsaBlockResult := do
  refuseIf ⟨.argument, "invalid QSA block result input"⟩ [test (hiddenCapacity < hiddenSize)]
  refuseIf (malformed "invalid QSA block result payload size") [missized (8 + hiddenSize * 4), nonzero 3]
  let layer ← byte 0
  let sourceRank ← byte 1
  let destinationRank ← byte 2
  let tokenIndex ← u32 4
  let hidden ← finiteF32s "non-finite QSA block result" 8 hiddenSize
  accept (fun result => validateQsaBlockRoute result.layer result.sourceRank result.destinationRank)
    ⟨layer, sourceRank, destinationRank, tokenIndex, hidden⟩

variable {result : QsaBlockResult}

theorem qsaBlockResultDecode_ok : (qsaBlockResultDecode hiddenCapacity).run p = .ok result ↔
      p = result.wire ∧ validateQsaBlockRoute result.layer result.sourceRank result.destinationRank = .ok () ∧
        AllFinite result.hidden.toList ∧ hiddenSize ≤ hiddenCapacity := by
  rw [eq_iff_at]
  obtain ⟨layer, sourceRank, destinationRank, tokenIndex, hidden⟩ := result
  simp [qsaBlockResultDecode, finiteF32s_ok, QsaBlockResult.wire]
  grind

theorem qsaBlockResult_roundTrip (h : qsaBlockResultEncode result = .ok p) (hroom : hiddenSize ≤ hiddenCapacity) :
    (qsaBlockResultDecode hiddenCapacity).run p = .ok result := by
  simp [qsaBlockResultEncode, checkFinite_ok] at h
  exact qsaBlockResultDecode_ok.mpr ⟨h.2.2.symm, h.1, h.2.1, hroom⟩

theorem qsaBlockResult_canonical
    (h : (qsaBlockResultDecode hiddenCapacity).run p = .ok result) : qsaBlockResultEncode result = .ok p := by
  obtain ⟨rfl, hroute, hfinite, -⟩ := qsaBlockResultDecode_ok.mp h
  simp [qsaBlockResultEncode, checkFinite_ok, hroute, hfinite]

theorem qsaBlockResultDecode_safe : (qsaBlockResultDecode hiddenCapacity).Safe p := by
  simp [qsaBlockResultDecode]
  grind [safe_u32, finiteF32s_safe]

/-! `fg_qsa_block_prefill_work`. -/

structure QsaPrefillWork where
  layer : UInt8
  sourceRank : UInt8
  destinationRank : UInt8
  positionMode : PositionMode
  firstToken : UInt32
  tokenCount : UInt16
  positions : Vector UInt32 (positionValues positionMode tokenCount)
  hidden : Vector Binary32 (outputValues tokenCount)

def QsaPrefillWork.bytes (work : QsaPrefillWork) : Nat :=
  16 + (positionValues work.positionMode work.tokenCount + outputValues work.tokenCount) * 4

def QsaPrefillWork.wire (version : UInt16) (work : QsaPrefillWork) : List UInt8 :=
  [work.layer, work.sourceRank, work.destinationRank, 0] ++ putU32 work.firstToken ++ putU16 work.tokenCount ++
    putMode version work.positionMode ++ putU32 0 ++ putU32s work.positions.toList ++ putF32s work.hidden.toList

def qsaBlockPrefillWorkEncode (version : UInt16) (capacity : Nat) (work : QsaPrefillWork) :
    Except Error (List UInt8) := do
  failIf (work.tokenCount = 0 ∨ prefillMaxTokens < work.tokenCount.toNat ∨ ¬VersionSupported version)
    ⟨.argument, "invalid QSA block prefill work output"⟩
  validateQsaBlockRoute work.layer work.sourceRank work.destinationRank
  failIf (version = protocolMinVersion ∧ work.positionMode ≠ .text)
    ⟨.mismatch, "legacy QSA block prefill requires text positions"⟩
  failIf (capacity < work.bytes) ⟨.limit, "QSA block prefill work buffer is too small"⟩
  checkFinite "non-finite QSA block prefill input" work.hidden.toList
  .ok (work.wire version)

def qsaBlockPrefillWorkDecode (version : UInt16) (positionCapacity hiddenCapacity : Nat) :
    Decoder QsaPrefillWork := do
  refuseIf ⟨.argument, "invalid QSA block prefill work input"⟩ [shorter 16, test (¬VersionSupported version)]
  let tokenCount ← u16 8
  let mode ← headerMode version "legacy QSA block prefill position header is not zero"
    "invalid QSA block prefill position contract"
  refuseIf (malformed "invalid QSA block prefill size or storage capacity")
    [nonzero 3, nonzeroU32 12, test (tokenCount = 0), test (prefillMaxTokens < tokenCount.toNat),
      missized (16 + (positionValues mode tokenCount + outputValues tokenCount) * 4),
      test (positionCapacity < positionValues mode tokenCount), test (hiddenCapacity < outputValues tokenCount)]
  let layer ← byte 0
  let sourceRank ← byte 1
  let destinationRank ← byte 2
  let firstToken ← u32 4
  let positions ← u32s 16 (positionValues mode tokenCount)
  let hidden ← finiteF32s "non-finite QSA block prefill input" (16 + positionValues mode tokenCount * 4)
    (outputValues tokenCount)
  accept (fun work => validateQsaBlockRoute work.layer work.sourceRank work.destinationRank)
    ⟨layer, sourceRank, destinationRank, mode, firstToken, tokenCount, positions, hidden⟩

variable {work : QsaPrefillWork}

theorem qsaBlockPrefillWorkDecode_ok {positionCapacity hiddenCapacity : Nat}
    : (qsaBlockPrefillWorkDecode version positionCapacity hiddenCapacity).run p = .ok work ↔
      p = work.wire version ∧ validateQsaBlockRoute work.layer work.sourceRank work.destinationRank = .ok () ∧
        (work.tokenCount ≠ 0 ∧ work.tokenCount.toNat ≤ prefillMaxTokens) ∧ AllFinite work.hidden.toList ∧
        VersionSupported version ∧ ModeFits version work.positionMode ∧
        positionValues work.positionMode work.tokenCount ≤ positionCapacity ∧
        outputValues work.tokenCount ≤ hiddenCapacity := by
  rw [eq_iff_at]
  obtain ⟨layer, sourceRank, destinationRank, mode, firstToken, tokenCount, positions, hidden⟩ := work
  simp [qsaBlockPrefillWorkDecode, headerMode_ok, finiteF32s_ok, QsaPrefillWork.wire]
  constructor
  · rintro ⟨⟨-, hversion⟩, _, h8, _, ⟨h10, hfits⟩, ⟨h3, h12, htokens, hmax, hlength, hpositions, hroom⟩, h0, h1, h2, h4,
      _, h16, _, ⟨hrow, hfinite⟩, hroute, rfl, rfl, hp, hh⟩
    cases hp
    cases hh
    exact ⟨⟨by omega, h0, h1, h2, h3, h4, h8, h10, h12, h16, hrow⟩, hroute, ⟨htokens, hmax⟩, hfinite, hversion, hfits,
      hpositions, hroom⟩
  · rintro ⟨⟨hlength, h0, h1, h2, h3, h4, h8, h10, h12, h16, hrow⟩, hroute, ⟨htokens, hmax⟩, hfinite, hversion, hfits,
      hpositions, hroom⟩
    exact ⟨⟨by omega, hversion⟩, _, h8, _, ⟨h10, hfits⟩, ⟨h3, h12, htokens, hmax, by omega, hpositions, hroom⟩, h0, h1,
      h2, h4, _, h16, _, ⟨hrow, hfinite⟩, hroute, rfl, rfl, HEq.rfl, HEq.rfl⟩

theorem QsaPrefillWork.wire_length (version : UInt16) (work : QsaPrefillWork) :
    (work.wire version).length = work.bytes := by
  simp [QsaPrefillWork.wire, QsaPrefillWork.bytes]
  omega

theorem qsaBlockPrefillWork_roundTrip {capacity positionCapacity hiddenCapacity : Nat}
    (h : qsaBlockPrefillWorkEncode version capacity work = .ok p)
    (hpositions : positionValues work.positionMode work.tokenCount ≤ positionCapacity)
    (hroom : outputValues work.tokenCount ≤ hiddenCapacity) :
    (qsaBlockPrefillWorkDecode version positionCapacity hiddenCapacity).run p = .ok work := by
  simp [qsaBlockPrefillWorkEncode, checkFinite_ok] at h
  obtain ⟨⟨htokens, hmax, hversion⟩, hroute, hfits, -, hfinite, rfl⟩ := h
  exact qsaBlockPrefillWorkDecode_ok.mpr
    ⟨rfl, hroute, ⟨htokens, hmax⟩, hfinite, hversion, hfits, hpositions, hroom⟩

theorem qsaBlockPrefillWork_canonical {capacity positionCapacity hiddenCapacity : Nat}
    (h : (qsaBlockPrefillWorkDecode version positionCapacity hiddenCapacity).run p = .ok work)
    (hcapacity : p.length ≤ capacity) : qsaBlockPrefillWorkEncode version capacity work = .ok p := by
  obtain ⟨rfl, hroute, ⟨htokens, hmax⟩, hfinite, hversion, hfits, -⟩ := qsaBlockPrefillWorkDecode_ok.mp h
  rw [QsaPrefillWork.wire_length] at hcapacity
  simp [qsaBlockPrefillWorkEncode, checkFinite_ok, htokens, hmax, hroute, hfinite, hversion, hcapacity]
  exact hfits

theorem qsaBlockPrefillWorkDecode_safe {positionCapacity hiddenCapacity : Nat} :
    (qsaBlockPrefillWorkDecode version positionCapacity hiddenCapacity).Safe p := by
  simp [qsaBlockPrefillWorkDecode, headerMode_ok]
  grind [safe_nonzeroU32, safe_u32, safe_u32s, headerMode_safe, finiteF32s_safe]

/-! `fg_qsa_block_prefill_result`. -/

structure QsaPrefillResult where
  layer : UInt8
  sourceRank : UInt8
  destinationRank : UInt8
  firstToken : UInt32
  tokenCount : UInt16
  hidden : Vector Binary32 (outputValues tokenCount)

def QsaPrefillResult.bytes (result : QsaPrefillResult) : Nat := 16 + outputValues result.tokenCount * 4

def QsaPrefillResult.wire (result : QsaPrefillResult) : List UInt8 :=
  [result.layer, result.sourceRank, result.destinationRank, 0] ++ putU32 result.firstToken ++
    putU16 result.tokenCount ++ [0, 0] ++ putU32 0 ++ putF32s result.hidden.toList

def qsaBlockPrefillResultEncode (capacity : Nat) (result : QsaPrefillResult) : Except Error (List UInt8) := do
  failIf (result.tokenCount = 0 ∨ prefillMaxTokens < result.tokenCount.toNat)
    ⟨.argument, "invalid QSA block prefill result output"⟩
  validateQsaBlockRoute result.layer result.sourceRank result.destinationRank
  failIf (capacity < result.bytes) ⟨.limit, "QSA block prefill result buffer is too small"⟩
  checkFinite "non-finite QSA block prefill result" result.hidden.toList
  .ok result.wire

def qsaBlockPrefillResultDecode (hiddenCapacity : Nat) : Decoder QsaPrefillResult := do
  refuseIf ⟨.argument, "invalid QSA block prefill result input"⟩ [shorter 16]
  let tokenCount ← u16 8
  refuseIf (malformed "invalid QSA block prefill result size")
    [nonzero 3, nonzero 10, nonzero 11, nonzeroU32 12, test (tokenCount = 0),
      test (prefillMaxTokens < tokenCount.toNat), missized (16 + outputValues tokenCount * 4),
      test (hiddenCapacity < outputValues tokenCount)]
  let layer ← byte 0
  let sourceRank ← byte 1
  let destinationRank ← byte 2
  let firstToken ← u32 4
  let hidden ← finiteF32s "non-finite QSA block prefill result" 16 (outputValues tokenCount)
  accept (fun result => validateQsaBlockRoute result.layer result.sourceRank result.destinationRank)
    ⟨layer, sourceRank, destinationRank, firstToken, tokenCount, hidden⟩

variable {result : QsaPrefillResult}

theorem qsaBlockPrefillResultDecode_ok : (qsaBlockPrefillResultDecode hiddenCapacity).run p = .ok result ↔
      p = result.wire ∧ validateQsaBlockRoute result.layer result.sourceRank result.destinationRank = .ok () ∧
        (result.tokenCount ≠ 0 ∧ result.tokenCount.toNat ≤ prefillMaxTokens) ∧ AllFinite result.hidden.toList ∧
        outputValues result.tokenCount ≤ hiddenCapacity := by
  rw [eq_iff_at]
  obtain ⟨layer, sourceRank, destinationRank, firstToken, tokenCount, hidden⟩ := result
  simp [qsaBlockPrefillResultDecode, finiteF32s_ok, QsaPrefillResult.wire]
  constructor
  · rintro ⟨-, _, h8, ⟨h3, h10, h11, h12, htokens, hmax, hlength, hroom⟩, h0, h1, h2, h4, _, ⟨hrow, hfinite⟩, hroute,
      rfl, hh⟩
    cases hh
    exact ⟨⟨by omega, h0, h1, h2, h3, h4, h8, h10, h11, h12, hrow⟩, hroute, ⟨htokens, hmax⟩, hfinite, hroom⟩
  · rintro ⟨⟨hlength, h0, h1, h2, h3, h4, h8, h10, h11, h12, hrow⟩, hroute, ⟨htokens, hmax⟩, hfinite, hroom⟩
    exact ⟨by omega, _, h8, ⟨h3, h10, h11, h12, htokens, hmax, by omega, hroom⟩, h0, h1, h2, h4, _, ⟨hrow, hfinite⟩,
      hroute, rfl, HEq.rfl⟩

theorem QsaPrefillResult.wire_length (result : QsaPrefillResult) : result.wire.length = result.bytes := by
  simp [QsaPrefillResult.wire, QsaPrefillResult.bytes]
  omega

theorem qsaBlockPrefillResult_roundTrip
    (h : qsaBlockPrefillResultEncode capacity result = .ok p) (hroom : outputValues result.tokenCount ≤ hiddenCapacity) :
    (qsaBlockPrefillResultDecode hiddenCapacity).run p = .ok result := by
  simp [qsaBlockPrefillResultEncode, checkFinite_ok] at h
  obtain ⟨⟨htokens, hmax⟩, hroute, -, hfinite, rfl⟩ := h
  exact qsaBlockPrefillResultDecode_ok.mpr ⟨rfl, hroute, ⟨htokens, hmax⟩, hfinite, hroom⟩

theorem qsaBlockPrefillResult_canonical
    (h : (qsaBlockPrefillResultDecode hiddenCapacity).run p = .ok result) (hcapacity : p.length ≤ capacity) :
    qsaBlockPrefillResultEncode capacity result = .ok p := by
  obtain ⟨rfl, hroute, ⟨htokens, hmax⟩, hfinite, -⟩ := qsaBlockPrefillResultDecode_ok.mp h
  rw [QsaPrefillResult.wire_length] at hcapacity
  simp [qsaBlockPrefillResultEncode, checkFinite_ok, htokens, hmax, hroute, hfinite, hcapacity]

theorem qsaBlockPrefillResultDecode_safe : (qsaBlockPrefillResultDecode hiddenCapacity).Safe p := by
  simp [qsaBlockPrefillResultDecode]
  grind [safe_nonzeroU32, safe_u32, finiteF32s_safe]

end FlashGordon.Wire
