import FlashGordon.ManifestRecord
import FlashGordon.ByteCodec

/-!
What the manifest seals itself with: the digests of its components, of its quantization, of the
session policies, of the topology and of its own memory image. SHA-256 is any fixed function `sha`
of the bytes hashed.
-/

namespace FlashGordon.SealedManifest

open ByteCodec

/-- An integer in memory, least significant byte first. -/
def leU16 (x : UInt16) : List UInt8 := (putU16 x).reverse
def leU32 (x : UInt32) : List UInt8 := (putU32 x).reverse
def leU64 (x : UInt64) : List UInt8 := (putU64 x).reverse

/-- The elements of an array one after another. -/
def row {n : Nat} {α : Type} (bytes : α → List UInt8) (xs : Fin n → α) : List UInt8 :=
  (List.ofFn xs).flatMap bytes

def TensorRecord.image (t : TensorRecord) : List UInt8 :=
  t.name.toList ++ leU64 t.offset ++ leU64 t.bytes ++ leU32 t.ggmlType ++ leU32 t.dims ++ row leU64 t.shape ++
    leU16 t.rank ++ leU16 t.layer ++ leU16 t.expert ++ [t.kind, t.layout] ++ t.reserved.toList ++
    t.sha256.toList ++ t.padding.toList

def RankRecord.image (r : RankRecord) : List UInt8 :=
  r.endpoint.toList ++ leU64 r.persistentBytes ++ leU64 r.transientBytes ++ leU64 r.kvBytes ++
    leU64 r.stateFileBytes ++ leU64 r.scratchBytes ++ leU64 r.driverReserveBytes ++ leU32 r.tensorBegin ++
    leU32 r.tensorCount

def Contract.image (c : Contract) : List UInt8 :=
  leU32 c.version ++ leU32 c.minimumProtocolVersion ++ leU32 c.positionMode ++ leU32 c.flags ++
    leU32 c.gpuIndexTokens ++ leU32 c.qsaHotRecordTokens ++ leU64 c.hostPageCacheBytes ++
    c.ropePolicySha256.toList ++ c.quantizationSha256.toList ++ c.stateFormatSha256.toList ++
    row Vector.toList c.componentSha256 ++ row Vector.toList c.rankStateFormatSha256 ++
    leU32 c.logicalContextTokens ++ c.reserved.toList

def NgramShardRecord.image (r : NgramShardRecord) : List UInt8 :=
  leU32 r.logicalRank ++ leU32 r.reserved ++ leU64 r.rowBegin ++ leU64 r.rowCount ++ leU64 r.bytes ++
    r.sha256.toList

def Manifest.legacyImage (m : Manifest) : List UInt8 :=
  leU64 m.magic ++ leU32 m.formatVersion ++ leU32 m.protocolVersion ++ leU32 m.headerBytes ++
    leU32 m.rankCount ++ leU32 m.layerCount ++ leU32 m.expertCount ++ leU32 m.hiddenSize ++ leU32 m.topK ++
    leU32 m.requiredCu ++ leU32 m.nativeContext ++ leU32 m.maxContext ++ leU32 m.prefillMicrobatch ++
    leU32 m.prefillWindow ++ leU32 m.tensorCount ++ leU32 m.flags ++ m.padding.toList ++
    leU64 m.persistentCapBytes ++ leU64 m.residencyCapBytes ++ m.sourceSha256.toList ++
    m.quantProfileSha256.toList ++ m.manifestSha256.toList ++ row RankRecord.image m.ranks ++
    row List.singleton m.layerOwner ++ row (row List.singleton) m.layerGroups ++
    row (row leU16) m.expertRank ++ row TensorRecord.image m.tensors

def Manifest.image (m : Manifest) : List UInt8 :=
  m.legacyImage ++ m.session.image ++ leU32 m.executionMode ++ leU32 m.stageCount ++
    row List.singleton m.stageRanks ++ row leU32 m.layerOffsets ++ leU32 m.slotCount ++
    m.topologySha256.toList ++ m.topologyReserved.toList ++ leU32 m.ngramShardCount ++
    leU32 m.deploymentReserved ++ row NgramShardRecord.image m.ngramShards ++ row leU64 m.hostResidentBytes

/-- `FG_MANIFEST_V4_BYTES`, `FG_MANIFEST_V5_BYTES` and the size of the struct. -/
def manifestV4Bytes : Nat := 869736
def manifestV5Bytes : Nat := 870344
def manifestSize : Nat := 870984

section Sizes

end Sizes

/-! The streams that are hashed; their integers are most significant byte first. -/

def ascii (text : String) : List UInt8 := text.toUTF8.toList

/-- `component_flag`, in the order of `fg_manifest_component`. -/
def componentFlag (component : Fin componentCount) : UInt32 := [1, 2, 16, 4, 8].getD component.val 0

/-- `tensor_in_component`. -/
def TensorRecord.inComponent (t : TensorRecord) (component : Fin componentCount) : Bool :=
  match component.val with
  | 0 => t.kind = tensorCommon ∨ t.kind = tensorRoutedExpert
  | 1 => t.kind = tensorNgram
  | 2 => t.kind = tensorTokenizer
  | 3 => t.kind = tensorVision
  | _ => t.kind = tensorMtp

def hashTensorRecord (t : TensorRecord) : List UInt8 :=
  putU32 (.ofNat (cString t.name).length) ++ cString t.name ++ putU64 t.offset ++ putU64 t.bytes ++
    putU32 t.ggmlType ++ putU32 t.dims ++ row putU64 t.shape ++ putU16 t.rank ++ putU16 t.layer ++
    putU16 t.expert ++ putU32 t.kind.toUInt32 ++ putU32 t.layout.toUInt32 ++ t.sha256.toList

def hashNgramShardRecord (r : NgramShardRecord) : List UInt8 :=
  putU32 r.logicalRank ++ putU64 r.rowBegin ++ putU64 r.rowCount ++ putU64 r.bytes ++ r.sha256.toList

variable (sha : List UInt8 → Digest)

def componentDigest (m : Manifest) (component : Fin componentCount) : Digest :=
  if m.flags &&& componentFlag component = 0 then zeroDigest
  else
    let members := m.tensorIndexes.filter fun i => (m.tensors i).inComponent component
    sha (ascii "flash-gordon-component-v1" ++ putU32 (.ofNat component.val) ++ putU32 (.ofNat members.length) ++
      (members.flatMap fun i => putU32 (.ofNat i.val) ++ hashTensorRecord (m.tensors i)) ++
      if component.val = 1 ∧ m.formatVersion = formatVersion ∧ m.ngramShardCount ≠ 0 then
        putU32 m.ngramShardCount ++
          ((List.finRange ngramShardCount).take m.ngramShardCount.toNat).flatMap fun i =>
            putU32 (.ofNat i.val) ++ hashNgramShardRecord (m.ngramShards i)
      else [])

def quantizationDigest (m : Manifest) : Digest :=
  sha (ascii "flash-gordon-quantization-v1" ++ putU32 m.tensorCount ++ m.tensorIndexes.flatMap fun i =>
    putU32 (.ofNat i.val) ++ putU32 (m.tensors i).kind.toUInt32 ++ putU32 (m.tensors i).ggmlType ++
      putU32 (m.tensors i).layout.toUInt32 ++ putU32 (m.tensors i).dims ++ row putU64 (m.tensors i).shape)

def policyDigest (domain : String) (mode : UInt32) : Digest := sha (ascii domain ++ putU32 mode)

def rankStateDigest (m : Manifest) (c : Contract) (rank : Fin rankCount) : Digest :=
  sha (ascii "flash-gordon-rank-state-format-v1" ++ putU32 (.ofNat rank.val) ++ putU32 m.maxContext ++
    putU32 c.positionMode ++ putU32 c.logicalContextTokens ++ putU32 c.gpuIndexTokens ++
    putU32 c.qsaHotRecordTokens ++ putU64 c.hostPageCacheBytes ++ c.stateFormatSha256.toList ++
    ((List.finRange layerCount).filter fun layer => (m.layerOwner layer).toNat = rank).flatMap fun layer =>
      putU32 (.ofNat layer.val))

def topologyFingerprint (m : Manifest) : Digest :=
  sha (ascii "flash-gordon-topology-v1" ++ putU32 m.executionMode ++ putU32 m.stageCount ++
    row List.singleton m.stageRanks ++ row putU32 m.layerOffsets ++ putU32 m.slotCount ++
    row List.singleton m.layerOwner ++ row (row List.singleton) m.layerGroups ++
    row (row putU16) m.expertRank)

/-- `manifest_minimum_protocol`. -/
def minimumProtocol (m : Manifest) : UInt32 :=
  if m.formatVersion = legacyFormatVersion then protocolMinVersion else protocolVersion

def manifestBytes (m : Manifest) : Nat :=
  if m.formatVersion = legacyFormatVersion then manifestV4Bytes
  else if m.formatVersion = sessionFormatVersion then manifestV5Bytes
  else manifestSize

def manifestDigest (m : Manifest) : Digest :=
  sha (({ m with manifestSha256 := zeroDigest }).image.take (manifestBytes m))

def bootContext (m : Manifest) : UInt32 :=
  if m.nativeContext < defaultContextTokens then m.nativeContext else defaultContextTokens

/-- `build_contract` up to its digests: the budgets that are zero get the boot context. -/
def fillBudgets (m : Manifest) (c : Contract) : Contract :=
  { c with
    version := contractVersion
    minimumProtocolVersion := minimumProtocol m
    flags := 0
    logicalContextTokens := if c.logicalContextTokens = 0 then bootContext m else c.logicalContextTokens
    gpuIndexTokens := if c.gpuIndexTokens = 0 then bootContext m else c.gpuIndexTokens
    qsaHotRecordTokens :=
      if c.qsaHotRecordTokens = 0 ∧ c.hostPageCacheBytes = 0 then bootContext m else c.qsaHotRecordTokens }

/-- The digests `build_contract` puts into a contract. -/
def sealContract (m : Manifest) (c : Contract) : Contract :=
  let c := { c with
    ropePolicySha256 := policyDigest sha "flash-gordon-rope-policy-v1" c.positionMode
    quantizationSha256 := quantizationDigest sha m
    stateFormatSha256 := policyDigest sha "flash-gordon-session-state-format-v1" c.positionMode }
  { c with
    componentSha256 := componentDigest sha m
    rankStateFormatSha256 := rankStateDigest sha m c
    reserved := Vector.replicate 60 0 }

def buildContract (m : Manifest) : Contract := sealContract sha m (fillBudgets m m.session)

/-- The budgets `validate_contract` accepts, below the native context. -/
structure GoodBudgets (native : UInt32) (c : Contract) : Prop where
  mode : c.positionMode ≤ positionFourAxis
  logical_ne : c.logicalContextTokens ≠ 0
  logical_le : c.logicalContextTokens ≤ native
  index_ne : c.gpuIndexTokens ≠ 0
  index_le : c.gpuIndexTokens ≤ c.logicalContextTokens
  hot_le : c.qsaHotRecordTokens ≤ c.logicalContextTokens
  records : ¬ (c.qsaHotRecordTokens = 0 ∧ c.hostPageCacheBytes = 0)

variable {sha}

theorem GoodBudgets.fillBudgets {native : UInt32} {m : Manifest} {c : Contract} (h : GoodBudgets native c) :
    fillBudgets m c =
      { c with version := contractVersion, minimumProtocolVersion := minimumProtocol m, flags := 0 } := by
  rw [SealedManifest.fillBudgets, if_neg h.logical_ne, if_neg h.index_ne, if_neg h.records]

theorem GoodBudgets.built {native : UInt32} {m : Manifest} (h : GoodBudgets native m.session) :
    GoodBudgets native (buildContract sha m) := by
  rw [buildContract, h.fillBudgets]
  exact ⟨h.mode, h.logical_ne, h.logical_le, h.index_ne, h.index_le, h.hot_le, h.records⟩

theorem buildContract_idem {native : UInt32} {m : Manifest} (h : GoodBudgets native m.session) :
    buildContract sha { m with session := buildContract sha m } = buildContract sha m := by
  have hbuilt : GoodBudgets native (buildContract sha m) := h.built
  show sealContract sha m (SealedManifest.fillBudgets m (buildContract sha m)) = _
  rw [hbuilt.fillBudgets, buildContract, h.fillBudgets]
  rfl

end FlashGordon.SealedManifest
