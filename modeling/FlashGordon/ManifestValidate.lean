import FlashGordon.ManifestDigest

/-!
`fg_manifest_validate`, and the files it guards. A file is some number of bytes of a manifest in
memory: reading loads the bytes of its format over a zeroed manifest and validates the result, and
writing seals the manifest again but validates only the topology.
-/

namespace FlashGordon.SealedManifest

open Checks

/-- `layer_distinct_ranks`. -/
def distinctRanks (groups : Fin groupSize → UInt8) : List UInt8 :=
  (List.ofFn groups).foldl (fun seen rank => if rank ∈ seen then seen else seen ++ [rank]) []

def epDelta : List Nat := [0, 1, 3, 5]

/-- What `fg_topology_validate` asks of one layer. -/
def checkLayer (owner : Fin layerCount → UInt8) (groups : Fin layerCount → Fin groupSize → UInt8)
    (experts : Fin layerCount → Fin expertCount → UInt16) (layer : Fin layerCount) : Except Error Unit :=
  let mismatch : Error := ⟨.format, s!"layer {layer} group topology mismatch"⟩
  let counts (rank : UInt8) : Nat :=
    (List.finRange expertCount).countP fun expert => (experts layer expert).toNat = rank.toNat
  do
    refuse (rankCount ≤ (owner layer).toNat) ⟨.format, s!"layer {layer} owner is outside the fleet"⟩
    match distinctRanks (groups layer) with
    | [rank] =>
      refuse (rankCount ≤ rank.toNat) mismatch
      (List.finRange expertCount).forM fun expert =>
        refuse ((experts layer expert).toNat ≠ rank.toNat)
          ⟨.format, s!"layer {layer} expert {expert} assigned outside its single owner"⟩
    | _ =>
      (List.finRange groupSize).forM fun group =>
        refuse (rankCount ≤ (groups layer group).toNat ∨
            (groups layer group).toNat ≠ (layer.val + epDelta.getD group.val 0) % rankCount ∨
            ∃ earlier < group, groups layer earlier = groups layer group) mismatch
      (List.finRange expertCount).forM fun expert =>
        refuse (rankCount ≤ (experts layer expert).toNat ∨
            ∀ group, (groups layer group).toNat ≠ (experts layer expert).toNat)
          ⟨.format, s!"layer {layer} expert {expert} assigned outside group"⟩
      (List.finRange groupSize).forM fun group =>
        refuse (counts (groups layer group) ≠ expertsPerRank)
          ⟨.format, s!"layer {layer} rank {groups layer group} owns {counts (groups layer group)} experts, expected {expertsPerRank}"⟩

theorem checkLayer_single {owner : Fin layerCount → UInt8} {groups : Fin layerCount → Fin groupSize → UInt8}
    {experts : Fin layerCount → Fin expertCount → UInt16} {layer : Fin layerCount} {rank : UInt8}
    (howner : (owner layer).toNat < rankCount) (hrank : rank.toNat < rankCount)
    (hgroups : groups layer = fun _ => rank) (hexperts : ∀ e, (experts layer e).toNat = rank.toNat) :
    checkLayer owner groups experts layer = .ok () := by
  have hdistinct : distinctRanks (groups layer) = [rank] := by
    rw [hgroups]
    simp [distinctRanks, groupSize]
  simp only [checkLayer, hdistinct, bind_eq_ok, exists_unit, refuse_eq_ok, forM_eq_ok]
  exact ⟨Nat.not_le.mpr howner, Nat.not_le.mpr hrank, fun e _ hne => hne (hexperts e)⟩

theorem checkLayer_split {owner : Fin layerCount → UInt8} {groups : Fin layerCount → Fin groupSize → UInt8}
    {experts : Fin layerCount → Fin expertCount → UInt16} {layer : Fin layerCount}
    (hmany : (distinctRanks (groups layer)).length ≠ 1) :
    checkLayer owner groups experts layer = .ok () ↔
      (owner layer).toNat < rankCount ∧
      (∀ group, ¬ (rankCount ≤ (groups layer group).toNat ∨
        (groups layer group).toNat ≠ (layer.val + epDelta.getD group.val 0) % rankCount ∨
        ∃ earlier < group, groups layer earlier = groups layer group)) ∧
      (∀ expert, (experts layer expert).toNat < rankCount ∧
        ∃ group, (groups layer group).toNat = (experts layer expert).toNat) ∧
      ∀ group, (List.finRange expertCount).countP
        (fun expert => (experts layer expert).toNat = (groups layer group).toNat) = expertsPerRank := by
  have hexpert (expert) : (¬ (rankCount ≤ (experts layer expert).toNat ∨
      ∀ group, (groups layer group).toNat ≠ (experts layer expert).toNat)) ↔
      (experts layer expert).toNat < rankCount ∧
        ∃ group, (groups layer group).toNat = (experts layer expert).toNat := by
    rw [not_or, Nat.not_le, not_forall_not]
  cases hdistinct : distinctRanks (groups layer) with
  | nil =>
    simp only [checkLayer, hdistinct, bind_eq_ok, exists_unit, refuse_eq_ok, forM_eq_ok, hexpert, Nat.not_le,
      List.mem_finRange, forall_const, ne_eq, not_not]
  | cons first rest =>
    cases rest with
    | nil => exact absurd (congrArg List.length hdistinct) hmany
    | cons second rest =>
      simp only [checkLayer, hdistinct, bind_eq_ok, exists_unit, refuse_eq_ok, forM_eq_ok, hexpert,
        Nat.not_le, List.mem_finRange, forall_const, ne_eq, not_not]

variable (sha : List UInt8 → Digest)

/-- `fg_topology_validate`. -/
def topologyValidate (m : Manifest) : Except Error Unit := do
  refuse (m.executionMode ≠ expertParallel)
    ⟨.mismatch, "retired pipeline manifest is unsupported; repack for expert-parallel"⟩
  whenever (formatVersion ≤ m.formatVersion) do
    refuse (m.stageCount ≠ 0 ∨ m.slotCount ≠ 0) ⟨.format, "expert-parallel manifest has pipeline geometry"⟩
    refuse (∃ rank, m.stageRanks rank ≠ 0) ⟨.format, "expert-parallel stage rank metadata is non-zero"⟩
    refuse (∃ i, m.layerOffsets i ≠ 0) ⟨.format, "expert-parallel layer offset metadata is non-zero"⟩
  (List.finRange layerCount).forM (checkLayer m.layerOwner m.layerGroups m.expertRank)
  whenever (formatVersion ≤ m.formatVersion) do
    refuse (m.topologyReserved ≠ Vector.replicate 32 0)
      ⟨.format, "manifest topology reserved bytes are non-zero"⟩
    refuse (topologyFingerprint sha m ≠ m.topologySha256)
      ⟨.mismatch, "manifest topology fingerprint mismatch"⟩

/-- `fg_topology_seal`. -/
def Manifest.sealTopology (m : Manifest) : Manifest := { m with topologySha256 := topologyFingerprint sha m }

/-- `fg_topology_set_expert_parallel_metadata`. -/
def Manifest.setExpertParallelMetadata (m : Manifest) : Manifest :=
  ({ m with
    executionMode := expertParallel
    stageCount := 0
    stageRanks := fun _ => 0
    layerOffsets := fun _ => 0
    slotCount := 0
    topologyReserved := Vector.replicate 32 0 }).sealTopology sha

def hyperWidth : UInt64 := 10240
def hyperRank : UInt64 := 320
def hyperCount : UInt64 := 4
def hidden : UInt64 := 2560
def expertWidth : UInt64 := 640
def gdnConvWidth : UInt64 := 10240
def gdnValueWidth : UInt64 := 6144
def gdnHeads : UInt64 := 48
def attnQueryWidth : UInt64 := 12288
def attnKvWidth : UInt64 := 512
def indexQueryWidth : UInt64 := 512
def indexWidth : UInt64 := 128
def qsaKeyBytes : UInt64 := 544
def qsaValueBytes : UInt64 := 544
def qsaIndexKeyBytes : UInt64 := 136
def qsaPositionBytes : UInt64 := 12
def qsaStatePageBytes : UInt64 := 8192
def ngramRow : UInt64 := 16 * 160
def vocabSize : UInt64 := 248320

/-- `fg_qsa_attention_scratch_bytes`. -/
def qsaAttentionScratchBytes (tokens : UInt64) : UInt64 :=
  tokens * (12288 + 512 + 512 + 6144 + 6144 + 512 + 512 + 128 + 512 + 6144 + 2560) * 4 +
    tokens * (qsaKeyBytes + qsaValueBytes + qsaIndexKeyBytes)

/-- `fg_qsa_selection_scratch_bytes`, for a batch of at most 512 tokens. -/
def qsaSelectionScratchBytes (context batch : UInt64) : UInt64 :=
  let blocks := (context + 4 - 1) / 4
  let queries := if batch / 32 = 0 then 1 else if batch / 32 < 4 then batch / 32 else 4
  let base := alignUp (qsaAttentionScratchBytes batch) alignment
  let scores := (fun offset => alignUp (offset + queries * blocks * 4) alignment)^[4] base
  alignUp (scores + queries * (2048 + 4 - 1) *
    (qsaKeyBytes + qsaValueBytes + qsaIndexKeyBytes + qsaPositionBytes)) alignment - base

/-- `fg_q38_runtime_scratch_bytes`. -/
def runtimeScratchBytes (rank : Nat) (microbatch window maxContext : UInt32) : UInt64 :=
  if rankCount ≤ rank ∨ microbatch = 0 ∨ 512 < microbatch ∨ window = 0 ∨ 4 < window ∨ maxContext = 0 then u64Max
  else
    let tokens := microbatch.toUInt64
    let pairs := tokens * 10
    let q8k : UInt64 := 2560 / 256 * 296
    let expert := tokens * q8k + pairs * 5 * 4 + pairs * expertWidth * 4 * 3 + pairs * hidden * 4
    let ownerStateless :=
      (hyperWidth + hyperRank * 2 + hyperWidth + hyperCount + hidden + hyperCount + hyperWidth + 512) * 4 *
        tokens + tokens * q8k + (expertWidth * 3 + hidden + 1 + hidden) * 4 * tokens
    let gdn := (gdnConvWidth * 2 + gdnValueWidth + gdnHeads * 2 + gdnValueWidth + hidden) * 4 * tokens
    let pleDynamic := if rank = 1 then (hyperWidth + hidden + hyperWidth * 6) * 4 * tokens else 0
    let qsaDynamic :=
      if rank = 3 ∨ rank = 7 then
        ((attnQueryWidth + attnKvWidth * 2 + attnQueryWidth + attnKvWidth + indexQueryWidth + indexWidth +
          indexQueryWidth + attnQueryWidth / 2 + hidden) * 4 + qsaKeyBytes + qsaValueBytes +
          qsaIndexKeyBytes) * tokens
      else 0
    let transport := (hyperWidth + ngramRow) * 4 * tokens + tokens * 4
    let perWindow := expert + ownerStateless + gdn + pleDynamic + qsaDynamic + transport
    let fixed := (hyperWidth + ngramRow) * 4 + (if rank = 1 then hyperWidth * 9 * 4 else 0) +
      (if rank = 3 ∨ rank = 7 then
        qsaSelectionScratchBytes maxContext.toUInt64 microbatch.toUInt64 + 4 * 1024 * 1024 else 0) +
      (if rank = 4 then (hyperWidth * 2 + hyperRank * 2 + hidden + vocabSize) * 4 else 0)
    alignUp (perWindow * window.toUInt64 + fixed) (64 * 1024 * 1024)

def ownedLayers (owner : Fin layerCount → UInt8) (rank : Fin rankCount) : List (Fin layerCount) :=
  (List.finRange layerCount).filter fun layer => (owner layer).toNat = rank

/-- `fg_q38_session_state_bytes_for_rank`: the device state of a rank's layers and its state file. -/
def sessionStateBytes (owner : Fin layerCount → UInt8) (maxContext : UInt32) (rank : Fin rankCount) : UInt64 × UInt64 :=
  let layers := ownedLayers owner rank
  let qsaLayers : UInt64 := .ofNat (layers.countP fun layer => layer.val % 4 = 3)
  let blocks := ((maxContext + 4 - 1) / 4).toUInt64
  let kv := layers.foldl (fun kv layer =>
    kv + if layer.val % 4 = 3 then maxContext.toUInt64 * qsaIndexKeyBytes
      else gdnConvWidth * 4 * 4 + gdnHeads * 128 * 128 * 4) 0
  if qsaLayers = 0 then (kv, 0)
  else (kv + maxContext.toUInt64 * qsaPositionBytes, qsaStatePageBytes + qsaLayers * blocks * qsaStatePageBytes)

/-- The sum of a ledger, if it does not overflow. -/
def addParts (total : UInt64) : List UInt64 → Option UInt64
  | [] => some total
  | part :: parts => if u64Max - total < part then none else addParts (total + part) parts

def RankRecord.resident (r : RankRecord) : Option UInt64 :=
  addParts r.persistentBytes [r.transientBytes, r.kvBytes, r.scratchBytes, r.driverReserveBytes]

/-- What `fg_manifest_validate` asks of the ledger of one rank, once it is summed. -/
def checkResident (m : Manifest) (rank : Fin rankCount) (r : RankRecord) (required : UInt64) :
    Option UInt64 → Except Error Unit
  | none => .error ⟨.limit, s!"rank {rank} Vulkan residency ledger overflows"⟩
  | some resident => do
    refuse (required = u64Max ∨ r.scratchBytes < required)
      ⟨.limit, s!"rank {rank} scratch ledger is {r.scratchBytes} bytes, requires at least {required} for prefill {m.prefillMicrobatch}x{m.prefillWindow}"⟩
    refuse (m.persistentCapBytes < r.persistentBytes ∨ m.residencyCapBytes < resident)
      ⟨.limit, s!"rank {rank} Vulkan memory cap: gpu-persistent={r.persistentBytes} transient={r.transientBytes} kv={r.kvBytes} scratch={r.scratchBytes} driver={r.driverReserveBytes} total={resident} persistent-cap={m.persistentCapBytes} residency-cap={m.residencyCapBytes}"⟩

def checkRank (m : Manifest) (rank : Fin rankCount) : Except Error Unit :=
  checkResident m rank (m.ranks rank) (runtimeScratchBytes rank m.prefillMicrobatch m.prefillWindow m.maxContext)
    (m.ranks rank).resident

def validateContract (m : Manifest) : Except Error Unit :=
  let c := m.session
  let expected := buildContract sha m
  do
    refuse (c.version ≠ contractVersion ∨ c.minimumProtocolVersion ≠ minimumProtocol m ∨
        positionFourAxis < c.positionMode ∨ c.flags ≠ 0)
      ⟨.mismatch, "unsupported manifest session contract"⟩
    refuse (c.logicalContextTokens = 0 ∨ m.nativeContext < c.logicalContextTokens ∨ c.gpuIndexTokens = 0 ∨
        c.logicalContextTokens < c.gpuIndexTokens ∨ c.logicalContextTokens < c.qsaHotRecordTokens ∨
        (c.qsaHotRecordTokens = 0 ∧ c.hostPageCacheBytes = 0))
      ⟨.format, "invalid manifest session memory budgets"⟩
    refuse (c.reserved ≠ Vector.replicate 60 0) ⟨.format, "manifest session reserved bytes are non-zero"⟩
    refuse (c.ropePolicySha256 ≠ expected.ropePolicySha256 ∨
        c.quantizationSha256 ≠ expected.quantizationSha256 ∨
        c.stateFormatSha256 ≠ expected.stateFormatSha256 ∨
        (∃ i, c.componentSha256 i ≠ expected.componentSha256 i) ∨
        ∃ rank, c.rankStateFormatSha256 rank ≠ expected.rankStateFormatSha256 rank)
      ⟨.mismatch, "manifest session or component fingerprint mismatch"⟩

def checkHeader (m : Manifest) : Except Error Unit := do
  refuse (m.magic ≠ manifestMagic) ⟨.format, "unsupported manifest header"⟩
  refuse ((m.formatVersion ≠ legacyFormatVersion ∧ m.formatVersion ≠ sessionFormatVersion ∧
      m.formatVersion ≠ formatVersion) ∨ m.headerBytes ≠ .ofNat (manifestBytes m) ∨
      m.protocolVersion ≠ minimumProtocol m)
    ⟨.mismatch, s!"unsupported manifest v{m.formatVersion} protocol {m.protocolVersion} header {m.headerBytes}"⟩
  refuse (m.rankCount.toNat ≠ rankCount ∨ m.layerCount.toNat ≠ layerCount ∨
      m.expertCount.toNat ≠ expertCount ∨ m.hiddenSize ≠ hiddenSize ∨ m.topK ≠ topK)
    ⟨.mismatch, "manifest model constants do not match this binary"⟩

def checkLimits (m : Manifest) : Except Error Unit := do
  refuse (m.nativeContext = 0 ∨ m.maxContext < m.nativeContext ∨ maxContext < m.maxContext.toNat)
    ⟨.format, "manifest context limits are invalid"⟩
  refuse (m.prefillMicrobatch ≠ 128 ∧ m.prefillMicrobatch ≠ 256 ∧ m.prefillMicrobatch ≠ 512)
    ⟨.format, "prefill microbatch is not qualified"⟩
  refuse (m.prefillWindow < 1 ∨ 4 < m.prefillWindow ∨ maxTensors < m.tensorCount.toNat)
    ⟨.format, "invalid prefill window or tensor count"⟩

def checkShards (m : Manifest) : Except Error Unit := do
  refuse (ngramShardCount < m.ngramShardCount.toNat ∨ m.deploymentReserved ≠ 0)
    ⟨.format, "invalid v6 resident n-gram metadata header"⟩
  refuse (∃ i : Fin ngramShardCount, m.ngramShardCount.toNat ≤ i.val ∧ m.ngramShards i ≠ zeroShard)
    ⟨.format, "unused v6 resident n-gram metadata is non-zero"⟩
  refuse (m.ngramShardCount = 0 ∧ ∃ rank, m.hostResidentBytes rank ≠ 0)
    ⟨.format, "v6 host-resident ledger has no sealed artifacts"⟩

def maximumLayout (m : Manifest) : UInt8 :=
  if m.formatVersion = formatVersion then layoutDenseCompact else layoutQ51ExpertCooked

/-- `fg_manifest_validate`. -/
def validate (m : Manifest) : Except Error Unit := do
  checkHeader m
  checkLimits m
  whenever (m.formatVersion = formatVersion) (checkShards m)
  m.tensorIndexes.forM (checkTensor m (maximumLayout m))
  (List.finRange rankCount).forM (checkRank m)
  topologyValidate sha m
  whenever (m.formatVersion = sessionFormatVersion ∨ m.formatVersion = formatVersion) (validateContract sha m)
  refuse (manifestDigest sha m ≠ m.manifestSha256) ⟨.mismatch, "manifest SHA-256 mismatch"⟩

/-- A file: the first `size` bytes of the image of a manifest. -/
structure File where
  size : Nat
  image : Manifest

def Manifest.clearTail (m : Manifest) : Manifest :=
  { m with
    executionMode := 0
    stageCount := 0
    stageRanks := fun _ => 0
    layerOffsets := fun _ => 0
    slotCount := 0
    topologySha256 := zeroDigest
    topologyReserved := Vector.replicate 32 0
    ngramShardCount := 0
    deploymentReserved := 0
    ngramShards := fun _ => zeroShard
    hostResidentBytes := fun _ => 0 }

/-- What reading the bytes of a file's format over a zeroed manifest loads. -/
def File.load (file : File) : Manifest :=
  if file.image.formatVersion = legacyFormatVersion then { file.image.clearTail with session := zeroContract }
  else if file.image.formatVersion = sessionFormatVersion then file.image.clearTail
  else file.image

/-- The bytes before the field `rank_count`. -/
def probeBytes : Nat := 20

/-- What reading makes of a manifest it has validated: the contract and the topology metadata that its
format does not have. -/
def finish (m : Manifest) : Manifest :=
  let m := if m.formatVersion = legacyFormatVersion then { m with session := buildContract sha m } else m
  if m.formatVersion ≠ formatVersion then m.setExpertParallelMetadata sha else m

/-- `fg_manifest_read` of a file that opens. -/
def read (path : String) (file : File) : Except Error Manifest := do
  refuse (file.size < probeBytes) ⟨.format, s!"manifest {path} has a truncated header"⟩
  refuse (file.image.formatVersion ≠ legacyFormatVersion ∧ file.image.formatVersion ≠ sessionFormatVersion ∧
      file.image.formatVersion ≠ formatVersion)
    ⟨.mismatch, s!"manifest {path} has unsupported version {file.image.formatVersion}"⟩
  refuse (file.size ≠ manifestBytes file.image) ⟨.format, s!"manifest {path} has wrong size"⟩
  validate sha file.load
  pure (finish sha file.load)

/-- The manifest `fg_manifest_write` seals, by its format. -/
def prepare (m : Manifest) : Except Error Manifest :=
  if m.formatVersion = formatVersion then
    let m := ({ m with protocolVersion := protocolVersion, headerBytes := .ofNat manifestSize }).sealTopology sha
    do
      topologyValidate sha m
      pure { m with session := buildContract sha m }
  else if m.formatVersion = sessionFormatVersion then
    let m := { m with protocolVersion := protocolVersion, headerBytes := .ofNat manifestV5Bytes }
    do
      topologyValidate sha m
      pure { m with session := buildContract sha m }
  else if m.formatVersion = legacyFormatVersion then
    let m := { m with protocolVersion := protocolMinVersion, headerBytes := .ofNat manifestV4Bytes }
    do
      topologyValidate sha m
      let m := { m with session := { zeroContract with positionMode := positionText } }
      pure { m with session := buildContract sha m }
  else .error ⟨.mismatch, s!"cannot write unsupported manifest version {m.formatVersion}"⟩

/-- `fg_manifest_write` to a file that takes every byte. -/
def write (m : Manifest) : Except Error File := do
  let m ← prepare sha m
  refuse (manifestDigest sha m = zeroDigest) ⟨.oom, "hash manifest"⟩
  let m := { m with manifestSha256 := manifestDigest sha m }
  pure ⟨manifestBytes m, m⟩

end FlashGordon.SealedManifest
