import FlashGordon.RingWire
import FlashGordon.WireExpert

/-! The payloads that travel around the layer ring (`protocol.c`): layer work and results of one token, of a
prefill chunk and of a decode batch. Under protocol 5 a payload has no position header and only text positions;
protocol 6 names the position mode and its number of axes. -/

namespace FlashGordon.Wire

open ByteCodec Reader Prefill DecodeBatch RingWire

def protocolMinVersion : UInt16 := 5

def protocolVersion : UInt16 := 6

/-- `fg_protocol_version_supported`. -/
def VersionSupported (version : UInt16) : Prop := protocolMinVersion ≤ version ∧ version ≤ protocolVersion

instance (version : UInt16) : Decidable (VersionSupported version) := by
  unfold VersionSupported
  infer_instance

variable {version : UInt16}

theorem versionSupported_iff : VersionSupported version ↔ version = protocolMinVersion ∨ version = protocolVersion := by
  rw [VersionSupported, ← UInt16.toNat_inj, ← UInt16.toNat_inj, UInt16.le_iff_toNat_le, UInt16.le_iff_toNat_le]
  rw [show protocolMinVersion.toNat = 5 from rfl, show protocolVersion.toNat = 6 from rfl]
  omega

def modeByte : PositionMode → UInt8
  | .text => 0
  | .fourAxis => 1

def modeOf (x : UInt8) : PositionMode := if x = 1 then .fourAxis else .text

def axesByte (mode : PositionMode) : UInt8 := .ofNat (positionAxes mode)

/-- The bytes that name the mode; protocol 5 leaves them zero. -/
def putMode (version : UInt16) (mode : PositionMode) : List UInt8 :=
  if version = protocolMinVersion then [0, 0] else [modeByte mode, axesByte mode]

def ModeFits (version : UInt16) (mode : PositionMode) : Prop := version = protocolMinVersion → mode = .text

@[simp] theorem putMode_length (version : UInt16) (mode : PositionMode) : (putMode version mode).length = 2 := by
  rw [putMode]
  split
  · rfl
  · rfl

@[simp] theorem modeOf_modeByte (mode : PositionMode) : modeOf (modeByte mode) = mode := by
  cases mode <;> decide

@[simp] theorem modeByte_le (mode : PositionMode) : modeByte mode ≤ 1 := by
  cases mode <;> decide

theorem modeByte_modeOf {x : UInt8} (h : x ≤ 1) : modeByte (modeOf x) = x := by
  have hcases : x = 0 ∨ x = 1 := by
    rw [← UInt8.toNat_inj, ← UInt8.toNat_inj]
    change x.toNat ≤ 1 at h
    change x.toNat = 0 ∨ x.toNat = 1
    omega
  rcases hcases with rfl | rfl
  · decide
  · decide

@[simp] theorem axesByte_toNat (mode : PositionMode) : (axesByte mode).toNat = positionAxes mode := by
  cases mode <;> decide

section Position

variable {p : List UInt8} {version : UInt16} {mode : PositionMode} {offset : Nat}

/-- The first axes of a position; the others stay zero. -/
def fillPosition (row : List UInt32) : Positions := .ofFn fun i => row.getD i.val 0

def putPosition (mode : PositionMode) (position : Positions) : List UInt8 :=
  putU32s (position.toList.take (positionAxes mode))

def positionAt (offset : Nat) (mode : PositionMode) : Decoder Positions := do
  let row ← u32s offset (positionAxes mode)
  pure (fillPosition row.toList)

@[simp] theorem putPosition_length (position : Positions) :
    (putPosition mode position).length = positionAxes mode * 4 := by
  cases mode <;> simp [putPosition, positionAxes]

theorem take_fillPosition {row : List UInt32} (h : row.length = positionAxes mode) :
    (fillPosition row).toList.take (positionAxes mode) = row := by
  have haxes : positionAxes mode ≤ 4 := by cases mode <;> decide
  apply List.ext_getElem
  · simp [h, haxes]
  · intro i hi hrow
    simp [fillPosition, List.getElem?_eq_getElem hrow]

theorem fillPosition_take {position : Positions} (h : mode = .text → position.get 3 = 0) :
    fillPosition (position.toList.take (positionAxes mode)) = position := by
  apply Vector.ext
  intro i hi
  by_cases haxes : i < positionAxes mode
  · simp [fillPosition, haxes, List.getElem?_take]
  · have hlast : mode = .text ∧ i = 3 := by
      cases mode with
      | text => exact ⟨rfl, by rw [positionAxes] at haxes; omega⟩
      | fourAxis => rw [positionAxes] at haxes; omega
    obtain ⟨hmode, rfl⟩ := hlast
    have hzero : position[3] = 0 := h hmode
    simp [fillPosition, haxes, List.getElem?_take, hzero]

theorem positionAt_ok {position : Positions} : (positionAt offset mode).run p = .ok position ↔
    At p offset (putPosition mode position) ∧ (mode = .text → position.get 3 = 0) := by
  rw [positionAt, bind_ok]
  constructor
  · rintro ⟨row, hrow, h⟩
    rw [pure_ok] at h
    subst h
    refine ⟨?_, ?_⟩
    · rw [putPosition, take_fillPosition row.length_toList]
      exact u32s_ok.mp hrow
    · rintro rfl
      have hlength : row.toList.length = 3 := row.length_toList
      have hget : (fillPosition row.toList)[3] = row.toList.getD 3 0 := by simp [fillPosition]
      exact hget.trans (List.getD_eq_default _ _ (by omega))
  · rintro ⟨hat, h⟩
    have hlength : (position.toList.take (positionAxes mode)).length = positionAxes mode := by
      cases mode <;> simp [positionAxes]
    refine ⟨⟨(position.toList.take (positionAxes mode)).toArray, by simpa using hlength⟩, ?_, ?_⟩
    · exact u32s_ok.mpr hat
    · rw [pure_ok]
      exact fillPosition_take h

theorem positionAt_safe (h : offset + positionAxes mode * 4 ≤ p.length) : (positionAt offset mode).Safe p := by
  rw [positionAt, safe_bind]
  exact ⟨safe_u32s h, fun _ _ => safe_pure⟩

end Position

/-! `fg_layer_work`, which `fg_decode_layer_work_encode` and `fg_decode_layer_work_decode` also use. -/

/-- The part a payload has only with n-gram embeddings. -/
def HasNgram (flags : UInt8) : Prop := flags &&& layerWorkHasNgram ≠ 0

instance (flags : UInt8) : Decidable (HasNgram flags) := by
  unfold HasNgram
  infer_instance

def ngramBytes (flags : UInt8) : Nat := if HasNgram flags then ngramEmbedValues * 4 else 0

def putNgram (flags : UInt8) (row : Vector Binary32 ngramEmbedValues) : List UInt8 :=
  if HasNgram flags then putF32s row.toList else []

def zeroEmbedding : Vector Binary32 ngramEmbedValues := .replicate ngramEmbedValues ⟨0⟩

def ngramAt (flags : UInt8) (offset : Nat) : Decoder (Vector Binary32 ngramEmbedValues) :=
  if HasNgram flags then f32s offset ngramEmbedValues else pure zeroEmbedding

def layerBody (flags : UInt8) : Nat := hyperWidth * 4 + ngramBytes flags

def layerHeader (version : UInt16) (mode : PositionMode) : Nat :=
  if version = protocolMinVersion then 20 else 12 + positionAxes mode * 4

def layerWorkBytes (version : UInt16) (work : LayerWork) : Nat :=
  layerHeader version work.positionMode + layerBody work.flags

def positionOffset (version : UInt16) : Nat := if version = protocolMinVersion then 8 else 12

def putLayerMode (version : UInt16) (mode : PositionMode) : List UInt8 :=
  if version = protocolMinVersion then [] else [modeByte mode, axesByte mode, 0, 0]

def layerWorkWire (version : UInt16) (work : LayerWork) : List UInt8 :=
  [work.layer, work.sourceRank, work.destinationRank, work.flags] ++ putU32 work.tokenIndex ++
    putLayerMode version work.positionMode ++ putPosition work.positionMode work.position ++
    putF32s work.hyper.toList ++ putNgram work.flags work.ngramEmbedding

def layerWorkEncode (version : UInt16) (capacity : Nat) (work : LayerWork) : Except Error (List UInt8) := do
  failIf (¬VersionSupported version) ⟨.argument, "invalid layer work output or protocol"⟩
  validateLayerWork work
  failIf (version = protocolMinVersion ∧ work.positionMode ≠ .text)
    ⟨.mismatch, "protocol 5 layer work requires text positions"⟩
  failIf (capacity < layerWorkBytes version work) ⟨.limit, "layer work buffer is too small"⟩
  .ok (layerWorkWire version work)

/-- The position mode of a layer work whose header has `header` bytes. -/
def layerMode (version : UInt16) (header : Nat) : Decoder PositionMode :=
  if version = protocolMinVersion then do
    refuseIf (malformed "protocol 5 layer work is not legacy layout") [test (header ≠ 20)]
    pure .text
  else do
    refuseIf (malformed "invalid protocol 6 layer work size") [test (header ≠ 24 ∧ header ≠ 28)]
    let mode ← byte 8
    let axes ← byte 9
    refuseIf (malformed "invalid protocol 6 layer position contract")
      [nonzero 10, nonzero 11, test (1 < mode), test (axes ≠ axesByte (modeOf mode)),
        test (header ≠ 12 + axes.toNat * 4)]
    pure (modeOf mode)

def layerWorkDecode (version : UInt16) : Decoder LayerWork := do
  refuseIf ⟨.argument, "invalid layer work input or protocol"⟩ [test (¬VersionSupported version)]
  refuseIf (malformed s!"layer work is shorter than protocol {version} minimum")
    [shorter ((if version = protocolMinVersion then 20 else 24) + hyperWidth * 4)]
  let bytes ← size
  let flags ← byte 3
  refuseIf (malformed "invalid layer work payload size") [shorter (layerBody flags)]
  let mode ← layerMode version (bytes - layerBody flags)
  let layer ← byte 0
  let sourceRank ← byte 1
  let destinationRank ← byte 2
  let tokenIndex ← u32 4
  let position ← positionAt (positionOffset version) mode
  let hyper ← f32s (bytes - layerBody flags) hyperWidth
  let ngramEmbedding ← ngramAt flags (bytes - layerBody flags + hyperWidth * 4)
  accept validateLayerWork
    ⟨layer, sourceRank, destinationRank, flags, mode, tokenIndex, position, hyper, ngramEmbedding⟩

def carriedLayerWork (work : LayerWork) : LayerWork :=
  { work with ngramEmbedding := if HasNgram work.flags then work.ngramEmbedding else zeroEmbedding }

variable {p : List UInt8}

theorem layerMode_ok {header : Nat} {mode : PositionMode} :
    (layerMode version header).run p = .ok mode ↔
      At p 8 (putLayerMode version mode) ∧ header = layerHeader version mode ∧ ModeFits version mode := by
  rw [layerMode, putLayerMode, layerHeader, ModeFits]
  split
  next hversion =>
    simp [hversion]
    tauto
  next hversion =>
    simp
    constructor
    · rintro ⟨-, x, h8, h9, ⟨h10, h11, hx, hheader⟩, rfl⟩
      rw [modeByte_modeOf hx]
      exact ⟨⟨h8, h9, h10, h11⟩, hheader, fun h => absurd h hversion⟩
    · rintro ⟨⟨h8, h9, h10, h11⟩, hheader, -⟩
      refine ⟨?_, modeByte mode, h8, ?_⟩
      · cases mode <;> simp [positionAxes] at hheader <;> omega
      · simp [h9, h10, h11, hheader]

theorem layerMode_safe {header : Nat} (h : 12 ≤ p.length) : (layerMode version header).Safe p := by
  rw [layerMode]
  split
  · simp
  · simp +contextual (disch := omega)
    grind

theorem positionOffset_eq (version : UInt16) (mode : PositionMode) :
    positionOffset version = 8 + (putLayerMode version mode).length := by
  rw [positionOffset, putLayerMode]
  split
  · rfl
  · rfl

theorem layerHeader_eq {mode : PositionMode} (h : ModeFits version mode) :
    layerHeader version mode = positionOffset version + positionAxes mode * 4 := by
  rw [layerHeader, positionOffset]
  split
  next hversion =>
    rw [h hversion]
    rfl
  · rfl

theorem layerHeader_ge (version : UInt16) (mode : PositionMode) :
    (if version = protocolMinVersion then 20 else 24) ≤ layerHeader version mode := by
  rw [layerHeader]
  cases mode <;> split <;> simp [positionAxes]

@[simp] theorem putNgram_length (flags : UInt8) (row : Vector Binary32 ngramEmbedValues) :
    (putNgram flags row).length = ngramBytes flags := by
  rw [putNgram, ngramBytes]
  split <;> simp

theorem ngramAt_ok {flags : UInt8} {offset : Nat} {row : Vector Binary32 ngramEmbedValues} :
    (ngramAt flags offset).run p = .ok row ↔ At p offset (putNgram flags row) ∧ (¬HasNgram flags → row = zeroEmbedding) := by
  rw [ngramAt, putNgram]
  split
  · simp_all
  · simp_all
    tauto

theorem ngramAt_safe {flags : UInt8} {offset : Nat} (h : offset + ngramBytes flags ≤ p.length) :
    (ngramAt flags offset).Safe p := by
  rw [ngramBytes] at h
  rw [ngramAt]
  split
  · simp_all [safe_f32s]
  · exact safe_pure

variable {work : LayerWork}

theorem carriedLayerWork_iff :
    carriedLayerWork work = work ↔ (¬HasNgram work.flags → work.ngramEmbedding = zeroEmbedding) := by
  obtain ⟨layer, sourceRank, destinationRank, flags, mode, tokenIndex, position, hyper, ngram⟩ := work
  rw [carriedLayerWork]
  split <;> simp_all [eq_comm]

theorem validateLayerWork_position (h : validateLayerWork work = .ok ())
    (htext : work.positionMode = .text) : work.position.get 3 = 0 := by
  rw [validateLayerWork] at h
  split at h
  · cases h
  next hheader =>
    simp only [LayerWork.HeaderInvalid, not_or, not_and, not_not] at hheader
    exact hheader.2.2.2.2.2 htext

theorem layerWorkWire_length (h : ModeFits version work.positionMode) :
    (layerWorkWire version work).length = layerWorkBytes version work := by
  have hoffset := positionOffset_eq version work.positionMode
  rw [layerWorkBytes, layerHeader_eq h, layerWorkWire, layerBody]
  simp
  omega

theorem layerWorkDecode_ok :
    (layerWorkDecode version).run p = .ok work ↔
      p = layerWorkWire version work ∧ validateLayerWork work = .ok () ∧ VersionSupported version ∧
        ModeFits version work.positionMode ∧ carriedLayerWork work = work := by
  rw [carriedLayerWork_iff, eq_iff_at]
  obtain ⟨layer, sourceRank, destinationRank, flags, mode, tokenIndex, position, hyper, ngram⟩ := work
  have hoffset : 8 + (putLayerMode version mode).length = positionOffset version :=
    (positionOffset_eq version mode).symm
  have hheader : ModeFits version mode → layerHeader version mode = positionOffset version + positionAxes mode * 4 :=
    layerHeader_eq
  have hmin := layerHeader_ge version mode
  have hzero (hvalid : validateLayerWork ⟨layer, sourceRank, destinationRank, flags, mode, tokenIndex, position, hyper,
      ngram⟩ = .ok ()) : mode = .text → position.get 3 = 0 := validateLayerWork_position hvalid
  have hbody : layerBody flags = hyperWidth * 4 + ngramBytes flags := by rw [layerBody]
  simp [layerWorkDecode, layerMode_ok, positionAt_ok, ngramAt_ok, layerWorkWire, hoffset]
  grind

theorem carriedLayerWork_carried (work : LayerWork) :
    carriedLayerWork (carriedLayerWork work) = carriedLayerWork work := by
  rw [carriedLayerWork_iff]
  intro h
  exact if_neg h

theorem layerWorkWire_carried (version : UInt16) (work : LayerWork) :
    layerWorkWire version (carriedLayerWork work) = layerWorkWire version work := by
  rw [layerWorkWire, layerWorkWire, carriedLayerWork, putNgram, putNgram]
  split <;> rfl

theorem validate_carriedLayerWork (work : LayerWork) :
    validateLayerWork (carriedLayerWork work) = validateLayerWork work := by
  rw [carriedLayerWork]
  split
  · rfl
  next hflag =>
    rw [HasNgram, not_not] at hflag
    simp [validateLayerWork, LayerWork.HeaderInvalid, hflag]

theorem layerWork_roundTrip {capacity : Nat} (h : layerWorkEncode version capacity work = .ok p) :
    (layerWorkDecode version).run p = .ok (carriedLayerWork work) := by
  simp [layerWorkEncode] at h
  obtain ⟨hversion, hvalid, hfits, -, rfl⟩ := h
  rw [layerWorkDecode_ok, validate_carriedLayerWork, layerWorkWire_carried]
  exact ⟨rfl, hvalid, hversion, hfits, carriedLayerWork_carried work⟩

theorem layerWork_canonical {capacity : Nat}
    (h : (layerWorkDecode version).run p = .ok work) (hcapacity : p.length ≤ capacity) :
    layerWorkEncode version capacity work = .ok p := by
  obtain ⟨rfl, hvalid, hversion, hfits, -⟩ := layerWorkDecode_ok.mp h
  rw [layerWorkWire_length hfits] at hcapacity
  simp [layerWorkEncode, hvalid, hversion, hcapacity]
  exact hfits

theorem layerWorkDecode_safe : (layerWorkDecode version).Safe p := by
  have hhyper : hyperWidth = 10240 := rfl
  simp [layerWorkDecode, layerMode_ok]
  intro _ hmin
  refine ⟨by omega, fun flags _ hbody => ⟨layerMode_safe (by omega), fun mode _ hheader hfits => ?_⟩⟩
  have hparts : layerBody flags = hyperWidth * 4 + ngramBytes flags := by rw [layerBody]
  have hposition := layerHeader_eq hfits
  rw [hheader]
  refine ⟨by omega, fun _ _ => ⟨by omega, fun _ _ => ⟨by omega, fun _ _ => ⟨safe_u32 (by omega), fun _ _ => ?_⟩⟩⟩⟩
  exact ⟨positionAt_safe (by omega), fun _ _ => ⟨safe_f32s (by omega), fun _ _ => ngramAt_safe (by omega)⟩⟩

/-! `fg_layer_result`, which `fg_decode_layer_result_encode` and `fg_decode_layer_result_decode` also use. -/

def layerResultBytes : Nat := 8 + hyperWidth * 4

def layerResultWire (result : LayerResult) : List UInt8 :=
  [result.layer, result.sourceRank, result.destinationRank, 0] ++ putU32 result.tokenIndex ++
    putF32s result.hyper.toList

def layerResultEncode (result : LayerResult) : Except Error (List UInt8) := do
  validateLayerResult result
  .ok (layerResultWire result)

/-- The reserved byte is tested before the length. -/
def layerResultDecode : Decoder LayerResult := do
  refuseIf (malformed "invalid layer result payload size or reserved byte") [nonzero 3, missized layerResultBytes]
  let layer ← byte 0
  let sourceRank ← byte 1
  let destinationRank ← byte 2
  let tokenIndex ← u32 4
  let hyper ← f32s 8 hyperWidth
  accept validateLayerResult ⟨layer, sourceRank, destinationRank, tokenIndex, hyper⟩

/-- `fg_output_slice_encode`: the result of the last block, addressed to rank 0. -/
def outputSliceEncode (result : LayerResult) : Except Error (List UInt8) :=
  layerResultEncode { result with destinationRank := 0 }

variable {result : LayerResult}

theorem layerResultDecode_ok : layerResultDecode.run p = .ok result ↔
    p = layerResultWire result ∧ validateLayerResult result = .ok () := by
  obtain ⟨layer, sourceRank, destinationRank, tokenIndex, hyper⟩ := result
  rw [eq_iff_at]
  simp [layerResultDecode, layerResultWire, layerResultBytes]
  grind

theorem layerResult_roundTrip (h : layerResultEncode result = .ok p) : layerResultDecode.run p = .ok result := by
  simp [layerResultEncode] at h
  exact layerResultDecode_ok.mpr ⟨h.2.symm, h.1⟩

theorem layerResult_canonical (h : layerResultDecode.run p = .ok result) : layerResultEncode result = .ok p := by
  obtain ⟨rfl, hvalid⟩ := layerResultDecode_ok.mp h
  simp [layerResultEncode, hvalid]

theorem layerResultDecode_safe_iff : layerResultDecode.Safe p ↔ 3 < p.length := by
  simp +contextual (disch := omega) [layerResultDecode, layerResultBytes, safe_u32, safe_f32s]
  omega

end FlashGordon.Wire
