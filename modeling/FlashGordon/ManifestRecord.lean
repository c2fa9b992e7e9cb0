import FlashGordon.Checks

/-!
The manifest in memory: the tensor records, the ledger of every rank, the session contract and the
topology, with the bytes that a cooked matrix takes. Integers have the width of the C fields, so the
products below wrap where the C ones do.
-/

namespace FlashGordon.SealedManifest

open Checks

abbrev Digest := Vector UInt8 32

def manifestMagic : UInt64 := 0x314d47464e574f51
def legacyFormatVersion : UInt32 := 4
def sessionFormatVersion : UInt32 := 5
def formatVersion : UInt32 := 6
def contractVersion : UInt32 := 1
def defaultContextTokens : UInt32 := 8192
def protocolMinVersion : UInt32 := 5
def protocolVersion : UInt32 := 6
def expertCount : Nat := 512
def expertsPerRank : Nat := 128
def groupSize : Nat := 4
def topK : UInt32 := 10
def hiddenSize : UInt32 := 2560
def maxTensors : Nat := 4096
def ngramShardCount : Nat := 7
def componentCount : Nat := 5
def reservedLayerOffsets : Nat := 9
def alignment : UInt64 := 4096
def positionText : UInt32 := 0
def positionFourAxis : UInt32 := 1
def expertParallel : UInt32 := 0
def u32Max : UInt64 := 0xffffffff
def u64Max : UInt64 := 0xffffffffffffffff

def tensorCommon : UInt8 := 1
def tensorRoutedExpert : UInt8 := 2
def tensorNgram : UInt8 := 3
def tensorVision : UInt8 := 4
def tensorMtp : UInt8 := 5
def tensorTokenizer : UInt8 := 6
def tensorHostCache : UInt8 := 7

def layoutQ8Cooked : UInt8 := 1
def layoutKQuantExpertCooked : UInt8 := 2
def layoutQ51ExpertCooked : UInt8 := 3
def layoutHostQ8 : UInt8 := 4
def layoutQ8ExpertCooked : UInt8 := 5
def layoutDenseSoa : UInt8 := 6
def layoutDenseCompact : UInt8 := 7

/-- `fg_tensor_record`, with the bytes the compiler pads it with. -/
structure TensorRecord where
  name : Vector UInt8 96
  offset : UInt64
  bytes : UInt64
  ggmlType : UInt32
  dims : UInt32
  shape : Fin 4 → UInt64
  rank : UInt16
  layer : UInt16
  expert : UInt16
  kind : UInt8
  layout : UInt8
  reserved : Vector UInt8 4
  sha256 : Digest
  padding : Vector UInt8 4

/-- `fg_rank_record`. -/
structure RankRecord where
  endpoint : Vector UInt8 64
  persistentBytes : UInt64
  transientBytes : UInt64
  kvBytes : UInt64
  stateFileBytes : UInt64
  scratchBytes : UInt64
  driverReserveBytes : UInt64
  tensorBegin : UInt32
  tensorCount : UInt32

/-- `fg_manifest_contract`. -/
structure Contract where
  version : UInt32
  minimumProtocolVersion : UInt32
  positionMode : UInt32
  flags : UInt32
  gpuIndexTokens : UInt32
  qsaHotRecordTokens : UInt32
  hostPageCacheBytes : UInt64
  ropePolicySha256 : Digest
  quantizationSha256 : Digest
  stateFormatSha256 : Digest
  componentSha256 : Fin componentCount → Digest
  rankStateFormatSha256 : Fin rankCount → Digest
  logicalContextTokens : UInt32
  reserved : Vector UInt8 60

/-- `fg_ngram_shard_record`. -/
structure NgramShardRecord where
  logicalRank : UInt32
  reserved : UInt32
  rowBegin : UInt64
  rowCount : UInt64
  bytes : UInt64
  sha256 : Digest
  deriving DecidableEq

/-- `fg_manifest`, with the bytes the compiler pads it with. -/
structure Manifest where
  magic : UInt64
  formatVersion : UInt32
  protocolVersion : UInt32
  headerBytes : UInt32
  rankCount : UInt32
  layerCount : UInt32
  expertCount : UInt32
  hiddenSize : UInt32
  topK : UInt32
  requiredCu : UInt32
  nativeContext : UInt32
  maxContext : UInt32
  prefillMicrobatch : UInt32
  prefillWindow : UInt32
  tensorCount : UInt32
  flags : UInt32
  padding : Vector UInt8 4
  persistentCapBytes : UInt64
  residencyCapBytes : UInt64
  sourceSha256 : Digest
  quantProfileSha256 : Digest
  manifestSha256 : Digest
  ranks : Fin FlashGordon.rankCount → RankRecord
  layerOwner : Fin FlashGordon.layerCount → UInt8
  layerGroups : Fin FlashGordon.layerCount → Fin groupSize → UInt8
  expertRank : Fin FlashGordon.layerCount → Fin SealedManifest.expertCount → UInt16
  tensors : Fin maxTensors → TensorRecord
  session : Contract
  executionMode : UInt32
  stageCount : UInt32
  stageRanks : Fin FlashGordon.rankCount → UInt8
  layerOffsets : Fin reservedLayerOffsets → UInt32
  slotCount : UInt32
  topologySha256 : Digest
  topologyReserved : Vector UInt8 32
  ngramShardCount : UInt32
  deploymentReserved : UInt32
  ngramShards : Fin SealedManifest.ngramShardCount → NgramShardRecord
  hostResidentBytes : Fin FlashGordon.rankCount → UInt64

def zeroDigest : Digest := Vector.replicate 32 0

def zeroShard : NgramShardRecord := ⟨0, 0, 0, 0, 0, zeroDigest⟩

def zeroContract : Contract :=
  ⟨0, 0, 0, 0, 0, 0, 0, zeroDigest, zeroDigest, zeroDigest, fun _ => zeroDigest, fun _ => zeroDigest, 0,
    Vector.replicate 60 0⟩

/-- A C string: the bytes before the first zero. -/
def cString {n : Nat} (text : Vector UInt8 n) : List UInt8 := text.toList.takeWhile (· ≠ 0)

/-- The tensors a loop below `tensor_count` visits. -/
def Manifest.tensorIndexes (m : Manifest) : List (Fin maxTensors) :=
  (List.finRange maxTensors).take m.tensorCount.toNat

/-- `fg_align_up_u64`, for an alignment other than zero. -/
def alignUp (value align : UInt64) : UInt64 := (value + align - 1) &&& ~~~(align - 1)

/-! The bytes of a cooked matrix; zero where the geometry has none. -/

def q8CookedTileBytes (inputWidth : UInt64) : UInt64 :=
  if inputWidth = 0 ∨ inputWidth % 32 ≠ 0 then 0
  else alignUp (alignUp (16 * (inputWidth / 32) * 2) 64 + 16 * (inputWidth / 32) * 32) 64

def q8CookedMatrixBytes (inputWidth rows : UInt64) : UInt64 :=
  let tile := q8CookedTileBytes inputWidth
  let tiles := (rows + 16 - 1) / 16
  if tile = 0 ∨ rows = 0 ∨ u64Max / tile < tiles then 0 else tiles * tile

def q51CookedTileBytes (inputWidth : UInt64) : UInt64 :=
  if inputWidth = 0 ∨ inputWidth % 32 ≠ 0 then 0 else inputWidth / 32 * 16 * 24

def q51CookedMatrixBytes (inputWidth rows : UInt64) : UInt64 :=
  let tile := q51CookedTileBytes inputWidth
  if tile = 0 ∨ rows = 0 ∨ rows % 16 ≠ 0 then 0
  else if u64Max / tile < rows / 16 then 0 else rows / 16 * tile

def kQuantBlockBytes (ggmlType : UInt32) : UInt64 :=
  if ggmlType = 12 then 144 else if ggmlType = 13 then 176 else 0

def kQuantCookedTileBytes (inputWidth : UInt64) (ggmlType : UInt32) : UInt64 :=
  let block := kQuantBlockBytes ggmlType
  if block = 0 ∨ inputWidth = 0 ∨ inputWidth % 256 ≠ 0 then 0 else inputWidth / 256 * 8 * block

def kQuantCookedMatrixBytes (inputWidth rows : UInt64) (ggmlType : UInt32) : UInt64 :=
  let tile := kQuantCookedTileBytes inputWidth ggmlType
  if tile = 0 ∨ rows = 0 ∨ rows % 8 ≠ 0 then 0
  else if u64Max / tile < rows / 8 then 0 else rows / 8 * tile

def denseSoaBytes (inputWidth rows : UInt64) (type : UInt32) : UInt64 :=
  if rows = 0 ∨ inputWidth = 0 ∨ inputWidth % (if type = 20 then 32 else 256) ≠ 0 ∨
      (type ≠ 12 ∧ type ≠ 13 ∧ type ≠ 20) then 0
  else alignUp rows 8 * (inputWidth / 32) * (if type = 13 then 28 else if type = 20 then 18 else 24)

def denseCompactBytes (inputWidth rows : UInt64) (type : UInt32) : UInt64 :=
  if type = 20 then denseSoaBytes inputWidth rows type
  else if (type ≠ 12 ∧ type ≠ 13) ∨ rows = 0 ∨ inputWidth = 0 ∨ inputWidth % 256 ≠ 0 then 0
  else alignUp rows 8 * (inputWidth / 256) * (if type = 12 then 148 else 180)

/-- Both sides of a matrix, where the code narrows them to 32 bits. -/
def TensorRecord.Narrow (t : TensorRecord) : Prop := t.shape 0 ≤ u32Max ∧ t.shape 1 ≤ u32Max

instance (t : TensorRecord) : Decidable t.Narrow := inferInstanceAs (Decidable (_ ∧ _))

/-- `fg_tensor_record_expected_bytes` of a record with a dense layout: zero where it refuses, but an
opaque record may hold any bytes except none. -/
def TensorRecord.denseExpectedBytes (t : TensorRecord) : Option UInt64 :=
  if t.kind = tensorTokenizer ∨ t.kind = tensorVision ∨ t.kind = tensorMtp then
    if t.bytes = 0 then none else some t.bytes
  else
    let matrix :=
      if t.kind = tensorCommon ∧ t.dims = 2 ∧ t.Narrow then
        if t.layout = layoutDenseCompact then denseCompactBytes (t.shape 0) (t.shape 1) t.ggmlType
        else denseSoaBytes (t.shape 0) (t.shape 1) t.ggmlType
      else 0
    if matrix = 0 then none
    else if t.dims = 3 then
      if t.shape 2 = 0 ∨ u64Max / t.shape 2 < matrix then none else some (matrix * t.shape 2)
    else some matrix

/-- `fg_topology_layer_rank_experts`. -/
def layerRankExperts (m : Manifest) (layer rank : Nat) : UInt64 :=
  if h : layer < layerCount ∧ rank < rankCount then
    .ofNat ((List.finRange expertCount).countP fun expert =>
      (m.expertRank ⟨layer, h.1⟩ expert).toNat = rank)
  else 0

/-- An expert matrix that is not `experts` cooked matrices of the given bytes. -/
def TensorRecord.BadExperts (t : TensorRecord) (matrix experts : UInt64) : Prop :=
  t.kind ≠ tensorRoutedExpert ∨ t.dims ≠ 3 ∨ t.shape 2 ≠ experts ∨ matrix = 0 ∨
    u64Max / t.shape 2 < matrix ∨ t.bytes ≠ matrix * t.shape 2

instance (t : TensorRecord) (matrix experts : UInt64) : Decidable (t.BadExperts matrix experts) :=
  inferInstanceAs (Decidable (_ ∨ _))

/-- A cooked Q8_0 matrix of the wrong geometry or size. -/
def TensorRecord.BadQ8 (t : TensorRecord) : Prop :=
  t.ggmlType ≠ 8 ∨ t.dims ≠ 2 ∨ ¬ t.Narrow ∨ t.shape 0 % 32 ≠ 0 ∨
    let blocks := t.shape 0 / 32
    let tile := alignUp (alignUp (16 * blocks * 2) 64 + 16 * blocks * 32) 64
    let tiles := (t.shape 1 + 16 - 1) / 16
    u32Max < tile ∨ u64Max / tile < tiles ∨ t.bytes ≠ tile * tiles ∨ u32Max < t.bytes

instance (t : TensorRecord) : Decidable t.BadQ8 := inferInstanceAs (Decidable (_ ∨ _))

def tokenEmbedding : List UInt8 := "token_embd.weight".toUTF8.toList

def outputWeight : List UInt8 := "output.weight".toUTF8.toList

/-- What the check of tensor `i` makes of its record; `maximumLayout` is the last layout of the format. -/
def checkTensor (m : Manifest) (maximumLayout : UInt8) (i : Fin maxTensors) : Except Error Unit :=
  let t := m.tensors i
  let narrow (bytes : UInt64) : UInt64 := if t.Narrow then bytes else 0
  let experts := layerRankExperts m t.layer.toNat t.rank.toNat
  do
    refuse (t.dims = 0 ∨ 4 < t.dims) ⟨.format, s!"tensor {i} has invalid dimension count"⟩
    refuse (∃ dimension : Fin 4, dimension.val < t.dims.toNat ∧ t.shape dimension = 0)
      ⟨.format, s!"tensor {i} has an empty dimension"⟩
    refuse (maximumLayout < t.layout) ⟨.format, s!"tensor {i} has unknown storage layout {t.layout}"⟩
    refuse (¬ (t.kind = tensorHostCache ↔ t.layout = layoutHostQ8))
      ⟨.format, s!"tensor {i} host-cache kind/layout disagree"⟩
    refuse (t.layout = layoutHostQ8) ⟨.format, "retired external embedding layout is unsupported"⟩
    whenever (t.layout = layoutDenseSoa ∨ t.layout = layoutDenseCompact) <|
      refuse (t.denseExpectedBytes ≠ some t.bytes ∨ cString t.name = tokenEmbedding ∨
          cString t.name = outputWeight)
        ⟨.format, s!"tensor {i} has invalid cooked dense storage"⟩
    whenever (t.layout = layoutQ8Cooked) <|
      refuse t.BadQ8 ⟨.format, s!"tensor {i} has an invalid cooked Q8_0 layout"⟩
    whenever (t.layout = layoutKQuantExpertCooked) <|
      refuse (t.BadExperts (narrow (kQuantCookedMatrixBytes (t.shape 0) (t.shape 1) t.ggmlType)) experts)
        ⟨.format, s!"tensor {i} has an invalid cooked K-quant expert layout"⟩
    whenever (t.layout = layoutQ51ExpertCooked) <|
      refuse (t.ggmlType ≠ 7 ∨
          t.BadExperts (narrow (q51CookedMatrixBytes (t.shape 0) (t.shape 1))) experts)
        ⟨.format, s!"tensor {i} has an invalid cooked Q5_1 expert layout"⟩
    whenever (t.layout = layoutQ8ExpertCooked) <|
      refuse (t.ggmlType ≠ 8 ∨
          t.BadExperts (narrow (q8CookedMatrixBytes (t.shape 0) (t.shape 1))) experts)
        ⟨.format, s!"tensor {i} has an invalid cooked Q8_0 expert layout"⟩

theorem checkTensor_mono {m m' : Manifest} {low high : UInt8} {i : Fin maxTensors} (hle : low ≤ high)
    (htensors : m'.tensors i = m.tensors i) (hexperts : m'.expertRank = m.expertRank)
    (h : checkTensor m low i = .ok ()) : checkTensor m' high i = .ok () := by
  have hcount (layer rank : Nat) : layerRankExperts m' layer rank = layerRankExperts m layer rank := by
    rw [layerRankExperts, layerRankExperts, hexperts]
  simp only [checkTensor, bind_eq_ok, exists_unit, htensors, hcount] at h ⊢
  obtain ⟨hdims, hempty, hlayout, hrest⟩ := h
  refine ⟨hdims, hempty, ?_, hrest⟩
  rw [refuse_eq_ok] at hlayout ⊢
  exact fun hlt => hlayout (UInt8.lt_of_le_of_lt hle hlt)

end FlashGordon.SealedManifest
