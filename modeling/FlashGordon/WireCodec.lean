import FlashGordon.WireSession

/-! Every message of `protocol.c` at once: a kind of message has its values, an encoder, a decoder, and the part of
a value that its format carries. What holds of a codec is then one statement over all kinds. Three laws are taken
here: what is encoded is decoded, what is decoded is encoded again to the same bytes, and a decoder stays inside
its payload. Each fails in one place, and the statements say where. -/

namespace FlashGordon.Wire

open ByteCodec Reader Prefill DecodeBatch RingWire QsaOwner ExpertRoute

/-- The kinds of messages, each with the protocol version it is coded under and the storage its receiver brings
where its codec takes them. -/
inductive MessageKind where
  | decodeWork
  | expertResult
  | prefillWork (activationCapacity pairCapacity : Nat)
  | prefillResult (pairCapacity outputCapacity : Nat)
  | prefillLayerWork (version : UInt16) (storage : ChunkStorage)
  | prefillLayerResult (hyperCapacity : Nat)
  | layerWork (version : UInt16)
  | layerResult
  | decodeLayerWork (version : UInt16)
  | decodeLayerResult
  | decodeBatchWork (version : UInt16) (hyperCapacity : Nat) (ngramCapacity : Option Nat)
  | decodeBatchResult
  | qsaBlockWork (version : UInt16) (hiddenCapacity : Nat)
  | qsaBlockResult (hiddenCapacity : Nat)
  | qsaBlockPrefillWork (version : UInt16) (positionCapacity hiddenCapacity : Nat)
  | qsaBlockPrefillResult (hiddenCapacity : Nat)
  | qsaPageAppend (pageCapacity : Nat)
  | qsaPageFetch (pageCapacity : Nat)
  | qsaPageResult (pageCapacity : Nat)
  | qsaPageBarrier
  | gdnStateFetch
  | gdnStateResult
  | outputWork
  | outputConfig
  | outputResult
  | outputPartial
  | outputSliceHidden
  | outputHistory (storage : Nat)
  | ngramWork
  | ngramResult
  | ownerSessionControl

namespace MessageKind

abbrev Value : MessageKind → Type
  | decodeWork => DecodeWork
  | expertResult => ExpertResult
  | prefillWork _ _ => PrefillWorkRecord
  | prefillResult _ _ => PrefillResultRecord
  | prefillLayerWork _ _ => PrefillLayerRecord
  | prefillLayerResult _ => PrefillLayerResultRecord
  | layerWork _ | decodeLayerWork _ => LayerWork
  | layerResult | decodeLayerResult => LayerResult
  | decodeBatchWork _ _ _ => BatchWork
  | decodeBatchResult => BatchResult
  | qsaBlockWork _ _ => QsaBlockWork
  | qsaBlockResult _ => QsaBlockResult
  | qsaBlockPrefillWork _ _ _ => QsaPrefillWork
  | qsaBlockPrefillResult _ => QsaPrefillResult
  | qsaPageAppend _ | qsaPageFetch _ | qsaPageResult _ => PageBatch PageRecords
  | qsaPageBarrier => PageBarrier
  | gdnStateFetch => GdnStateFetch
  | gdnStateResult => GdnStateResult
  | outputWork => OutputWork
  | outputConfig => OutputConfig
  | outputResult => OutputResult
  | outputPartial => OutputPartial
  | outputSliceHidden => OutputSliceHidden
  | outputHistory _ => OutputHistory
  | ngramWork => NgramWork
  | ngramResult => NgramResult
  | ownerSessionControl => OwnerSessionControl

/-- The encoder of a kind, into a buffer of this capacity; a format of fixed size has a buffer of its size. -/
def encode (capacity : Nat) : (kind : MessageKind) → kind.Value → Except Error (List UInt8)
  | decodeWork => decodeWorkEncode
  | expertResult => expertResultEncode capacity
  | prefillWork _ _ => prefillWorkEncode capacity
  | prefillResult _ _ => prefillResultEncode capacity
  | prefillLayerWork version _ => prefillLayerWorkEncode version capacity
  | prefillLayerResult _ => prefillLayerResultEncode capacity
  | layerWork version | decodeLayerWork version => layerWorkEncode version capacity
  | layerResult | decodeLayerResult => layerResultEncode
  | decodeBatchWork version _ _ => decodeBatchWorkEncode version capacity
  | decodeBatchResult => decodeBatchResultEncode capacity
  | qsaBlockWork version _ => qsaBlockWorkEncode version capacity
  | qsaBlockResult _ => qsaBlockResultEncode
  | qsaBlockPrefillWork version _ _ => qsaBlockPrefillWorkEncode version capacity
  | qsaBlockPrefillResult _ => qsaBlockPrefillResultEncode capacity
  | qsaPageAppend _ => qsaPageAppendEncode capacity
  | qsaPageFetch _ => qsaPageFetchEncode capacity
  | qsaPageResult _ => qsaPageResultEncode capacity
  | qsaPageBarrier => qsaPageBarrierEncode
  | gdnStateFetch => gdnStateFetchEncode
  | gdnStateResult => gdnStateResultEncode capacity
  | outputWork => outputWorkEncode
  | outputConfig => outputConfigEncode
  | outputResult => outputResultEncode
  | outputPartial => outputPartialEncode
  | outputSliceHidden => outputSliceHiddenEncode
  | outputHistory _ => outputHistoryEncode capacity
  | ngramWork => ngramWorkEncode capacity
  | ngramResult => ngramResultEncode capacity
  | ownerSessionControl => ownerSessionControlEncode

def decode : (kind : MessageKind) → Decoder kind.Value
  | decodeWork => decodeWorkDecode
  | expertResult => expertResultDecode
  | prefillWork activationCapacity pairCapacity => prefillWorkDecode activationCapacity pairCapacity
  | prefillResult pairCapacity outputCapacity => prefillResultDecode pairCapacity outputCapacity
  | prefillLayerWork version storage => prefillLayerWorkDecode version storage
  | prefillLayerResult hyperCapacity => prefillLayerResultDecode hyperCapacity
  | layerWork version | decodeLayerWork version => layerWorkDecode version
  | layerResult | decodeLayerResult => layerResultDecode
  | decodeBatchWork version hyperCapacity ngramCapacity => decodeBatchWorkDecode version hyperCapacity ngramCapacity
  | decodeBatchResult => decodeBatchResultDecode
  | qsaBlockWork version hiddenCapacity => qsaBlockWorkDecode version hiddenCapacity
  | qsaBlockResult hiddenCapacity => qsaBlockResultDecode hiddenCapacity
  | qsaBlockPrefillWork version positionCapacity hiddenCapacity =>
    qsaBlockPrefillWorkDecode version positionCapacity hiddenCapacity
  | qsaBlockPrefillResult hiddenCapacity => qsaBlockPrefillResultDecode hiddenCapacity
  | qsaPageAppend pageCapacity => qsaPageAppendDecode pageCapacity
  | qsaPageFetch pageCapacity => qsaPageFetchDecode pageCapacity
  | qsaPageResult pageCapacity => qsaPageResultDecode pageCapacity
  | qsaPageBarrier => qsaPageBarrierDecode
  | gdnStateFetch => gdnStateFetchDecode
  | gdnStateResult => gdnStateResultDecode
  | outputWork => outputWorkDecode
  | outputConfig => outputConfigDecode
  | outputResult => outputResultDecode
  | outputPartial => outputPartialDecode
  | outputSliceHidden => outputSliceHiddenDecode
  | outputHistory storage => outputHistoryDecode storage
  | ngramWork => ngramWorkDecode
  | ngramResult => ngramResultDecode
  | ownerSessionControl => ownerSessionControlDecode

/-- A value without what its format leaves out: the entries past the selected experts, embeddings no flag announces,
the records of a fetched page, the seed of a sampler. -/
def carried : (kind : MessageKind) → kind.Value → kind.Value
  | expertResult, value => carriedExpertResult value
  | prefillLayerWork _ _, value => carriedPrefillLayer value
  | layerWork _, value => carriedLayerWork value
  | decodeLayerWork _, value => carriedLayerWork value
  | decodeBatchWork _ _ _, value => carriedBatchWork value
  | qsaPageFetch _, value => carriedPageBatch false value
  | outputWork, value => carriedOutputWork value
  | outputConfig, value => carriedOutputConfig value
  | _, value => value

def HasRoom : (kind : MessageKind) → kind.Value → Prop
  | prefillWork activationCapacity pairCapacity, (work : PrefillWorkRecord) =>
    activationBytes work.tokenCount ≤ activationCapacity ∧ work.pairs.length ≤ pairCapacity
  | prefillResult pairCapacity outputCapacity, (result : PrefillResultRecord) =>
    result.pairs.length ≤ pairCapacity ∧ outputValues result.tokenCount ≤ outputCapacity
  | prefillLayerWork _ storage, (work : PrefillLayerRecord) =>
    positionValues work.positionMode work.tokenCount ≤ storage.positions ∧
      hyperValues work.tokenCount ≤ storage.hyper ∧ ¬storage.lacksNgram work.flags work.tokenCount
  | prefillLayerResult hyperCapacity, (result : PrefillLayerResultRecord) =>
    hyperValues result.tokenCount ≤ hyperCapacity
  | decodeBatchWork _ hyperCapacity ngramCapacity, (work : BatchWork) =>
    work.slots.length * hyperWidth ≤ hyperCapacity ∧ ¬LacksSlotNgram ngramCapacity work.flags work.slots.length
  | qsaBlockWork _ hiddenCapacity, _ => hiddenSize ≤ hiddenCapacity
  | qsaBlockResult hiddenCapacity, _ => hiddenSize ≤ hiddenCapacity
  | qsaBlockPrefillWork _ positionCapacity hiddenCapacity, (work : QsaPrefillWork) =>
    positionValues work.positionMode work.tokenCount ≤ positionCapacity ∧
      outputValues work.tokenCount ≤ hiddenCapacity
  | qsaBlockPrefillResult hiddenCapacity, (result : QsaPrefillResult) =>
    outputValues result.tokenCount ≤ hiddenCapacity
  | qsaPageAppend pageCapacity, (batch : PageBatch PageRecords) => batch.pages.length ≤ pageCapacity
  | qsaPageFetch pageCapacity, (batch : PageBatch PageRecords) => batch.pages.length ≤ pageCapacity
  | qsaPageResult pageCapacity, (batch : PageBatch PageRecords) => batch.pages.length ≤ pageCapacity
  | outputHistory storage, (history : OutputHistory) => history.tokens.length ≤ storage
  | _, _ => True

def FlagsKnown : (kind : MessageKind) → kind.Value → Prop
  | outputConfig, (config : OutputConfig) => KnownFlags config.flags
  | _, _ => True

/-- The four bytes a GDN state result leaves unread are zero. -/
def GapZero : MessageKind → List UInt8 → Prop
  | gdnStateResult, p => At p 12 (putU32 0)
  | _, _ => True

/-- The decoders that look at byte 3 before they compare the length. -/
def ReadsAhead : MessageKind → Prop
  | layerResult | decodeLayerResult => True
  | qsaBlockWork version hiddenCapacity => version = protocolMinVersion ∧ hiddenSize ≤ hiddenCapacity
  | _ => False

end MessageKind

variable {kind : MessageKind} {capacity : Nat} {value : kind.Value} {p : List UInt8}

/-- What is encoded is decoded, up to the flags of an output config: its encoder writes any flags, its decoder
refuses those it does not know. -/
theorem wire_roundTrip_iff (h : kind.encode capacity value = .ok p) (hroom : kind.HasRoom value) :
    kind.decode.run p = .ok (kind.carried value) ↔ kind.FlagsKnown value := by
  cases kind with
  | outputConfig => exact outputConfig_roundTrip_iff h
  | decodeWork => exact iff_true_intro (decodeWork_roundTrip h)
  | expertResult => exact iff_true_intro (expertResult_roundTrip h)
  | prefillWork _ _ => exact iff_true_intro (prefillWork_roundTrip h hroom.1 hroom.2)
  | prefillResult _ _ => exact iff_true_intro (prefillResult_roundTrip h hroom.1 hroom.2)
  | prefillLayerWork _ _ =>
    exact iff_true_intro (prefillLayerWork_roundTrip h hroom.1 hroom.2.1 hroom.2.2)
  | prefillLayerResult _ => exact iff_true_intro (prefillLayerResult_roundTrip h hroom)
  | layerWork _ => exact iff_true_intro (layerWork_roundTrip h)
  | layerResult => exact iff_true_intro (layerResult_roundTrip h)
  | decodeLayerWork _ => exact iff_true_intro (layerWork_roundTrip h)
  | decodeLayerResult => exact iff_true_intro (layerResult_roundTrip h)
  | decodeBatchWork _ _ _ => exact iff_true_intro (decodeBatchWork_roundTrip h hroom.1 hroom.2)
  | decodeBatchResult => exact iff_true_intro (decodeBatchResult_roundTrip h)
  | qsaBlockWork _ _ => exact iff_true_intro (qsaBlockWork_roundTrip h hroom)
  | qsaBlockResult _ => exact iff_true_intro (qsaBlockResult_roundTrip h hroom)
  | qsaBlockPrefillWork _ _ _ => exact iff_true_intro (qsaBlockPrefillWork_roundTrip h hroom.1 hroom.2)
  | qsaBlockPrefillResult _ => exact iff_true_intro (qsaBlockPrefillResult_roundTrip h hroom)
  | qsaPageAppend _ => exact iff_true_intro (qsaPageAppend_roundTrip h hroom)
  | qsaPageFetch _ => exact iff_true_intro (qsaPageFetch_roundTrip h hroom)
  | qsaPageResult _ => exact iff_true_intro (qsaPageResult_roundTrip h hroom)
  | qsaPageBarrier => exact iff_true_intro (qsaPageBarrier_roundTrip h)
  | gdnStateFetch => exact iff_true_intro (gdnStateFetch_roundTrip h)
  | gdnStateResult => exact iff_true_intro (gdnStateResult_roundTrip h)
  | outputWork => exact iff_true_intro (outputWork_roundTrip h)
  | outputResult => exact iff_true_intro (outputResult_roundTrip h)
  | outputPartial => exact iff_true_intro (outputPartial_roundTrip h)
  | outputSliceHidden => exact iff_true_intro (outputSliceHidden_roundTrip h)
  | outputHistory _ => exact iff_true_intro (outputHistory_roundTrip h hroom)
  | ngramWork => exact iff_true_intro (ngramWork_roundTrip h)
  | ngramResult => exact iff_true_intro (ngramResult_roundTrip h)
  | ownerSessionControl => exact iff_true_intro (ownerSessionControl_roundTrip h)

def greedyConfig (flags : UInt8) : OutputConfig :=
  ⟨0, 4, flags, 0, 0, ⟨⟨0⟩, ⟨0⟩, 0, ⟨0⟩, ⟨0⟩, ⟨0⟩, ⟨0⟩, 0⟩, ⟨0⟩⟩

theorem greedyConfig_encode (flags : UInt8) :
    outputConfigEncode (greedyConfig flags) = .ok (greedyConfig flags).wire := by
  have hvalid : validateOutputConfig (greedyConfig flags) = .ok () := by rfl
  simp [outputConfigEncode, hvalid]

theorem wire_roundTrip_split : MessageKind.outputConfig.encode 40 (greedyConfig 3) = .ok (greedyConfig 3).wire ∧
    (MessageKind.outputConfig.decode.run (greedyConfig 3).wire = .ok (greedyConfig 3) ↔ KnownFlags 3) :=
  ⟨greedyConfig_encode 3, @wire_roundTrip_iff .outputConfig 40 (greedyConfig 3) _ (greedyConfig_encode 3) trivial⟩

/-- A split over four ways without the flag of a split is written and not taken back. -/
theorem wire_loses_config : MessageKind.outputConfig.encode 40 (greedyConfig 2) = .ok (greedyConfig 2).wire ∧
    MessageKind.outputConfig.HasRoom (greedyConfig 2) ∧
    MessageKind.outputConfig.decode.run (greedyConfig 2).wire ≠
      .ok (MessageKind.outputConfig.carried (greedyConfig 2)) := by
  refine ⟨greedyConfig_encode 2, trivial, fun h => ?_⟩
  have hflags : KnownFlags 2 := (outputConfig_roundTrip_iff (greedyConfig_encode 2)).mp h
  revert hflags
  rw [KnownFlags]
  decide

/-- What is decoded is encoded again to the same bytes, up to the gap of a GDN state result. -/
theorem wire_canonical_iff (h : kind.decode.run p = .ok value) (hcapacity : p.length ≤ capacity) :
    kind.encode capacity value = .ok p ↔ kind.GapZero p := by
  cases kind with
  | gdnStateResult => exact gdnStateResult_canonical_iff h hcapacity
  | decodeWork => exact iff_true_intro (decodeWork_canonical h)
  | expertResult => exact iff_true_intro (expertResult_canonical h hcapacity)
  | prefillWork _ _ => exact iff_true_intro (prefillWork_canonical h hcapacity)
  | prefillResult _ _ => exact iff_true_intro (prefillResult_canonical h hcapacity)
  | prefillLayerWork _ _ => exact iff_true_intro (prefillLayerWork_canonical h hcapacity)
  | prefillLayerResult _ => exact iff_true_intro (prefillLayerResult_canonical h hcapacity)
  | layerWork _ => exact iff_true_intro (layerWork_canonical h hcapacity)
  | layerResult => exact iff_true_intro (layerResult_canonical h)
  | decodeLayerWork _ => exact iff_true_intro (layerWork_canonical h hcapacity)
  | decodeLayerResult => exact iff_true_intro (layerResult_canonical h)
  | decodeBatchWork _ _ _ => exact iff_true_intro (decodeBatchWork_canonical h hcapacity)
  | decodeBatchResult => exact iff_true_intro (decodeBatchResult_canonical h hcapacity)
  | qsaBlockWork _ _ => exact iff_true_intro (qsaBlockWork_canonical h hcapacity)
  | qsaBlockResult _ => exact iff_true_intro (qsaBlockResult_canonical h)
  | qsaBlockPrefillWork _ _ _ => exact iff_true_intro (qsaBlockPrefillWork_canonical h hcapacity)
  | qsaBlockPrefillResult _ => exact iff_true_intro (qsaBlockPrefillResult_canonical h hcapacity)
  | qsaPageAppend _ => exact iff_true_intro (qsaPageAppend_canonical h hcapacity)
  | qsaPageFetch _ => exact iff_true_intro (qsaPageFetch_canonical h hcapacity)
  | qsaPageResult _ => exact iff_true_intro (qsaPageResult_canonical h hcapacity)
  | qsaPageBarrier => exact iff_true_intro (qsaPageBarrier_canonical h)
  | gdnStateFetch => exact iff_true_intro (gdnStateFetch_canonical h)
  | outputWork => exact iff_true_intro (outputWork_canonical h)
  | outputConfig => exact iff_true_intro (outputConfig_canonical h)
  | outputResult => exact iff_true_intro (outputResult_canonical h)
  | outputPartial => exact iff_true_intro (outputPartial_canonical h)
  | outputSliceHidden => exact iff_true_intro (outputSliceHidden_canonical h)
  | outputHistory _ => exact iff_true_intro (outputHistory_canonical h hcapacity)
  | ngramWork => exact iff_true_intro (ngramWork_canonical h hcapacity)
  | ngramResult => exact iff_true_intro (ngramResult_canonical h hcapacity)
  | ownerSessionControl => exact iff_true_intro (ownerSessionControl_canonical h)

@[irreducible] def zeroState : GdnStateResult :=
  ⟨0, 0, 0, .replicate gdnConvBytes 0, .replicate gdnRecurrentBytes 0, none⟩

@[irreducible] def zeroStatePayload (gap : UInt32) : List UInt8 :=
  zeroState.header ++ putU32 gap ++ zeroState.body

theorem zeroStatePayload_decode (gap : UInt32) : gdnStateResultDecode.run (zeroStatePayload gap) = .ok zeroState := by
  have hrank : zeroState.sourceRank = 0 := by rw [zeroState]
  have hlayer : zeroState.layer = 0 := by rw [zeroState]
  rw [gdnStateResultDecode_ok, hrank, hlayer]
  exact ⟨⟨gap, by rw [zeroStatePayload]⟩, by decide, by decide⟩

theorem zeroStatePayload_gap (gap : UInt32) : At (zeroStatePayload gap) 12 (putU32 gap) := by
  rw [zeroStatePayload]
  exact at_middle

theorem wire_canonical_zeroState : MessageKind.gdnStateResult.decode.run (zeroStatePayload 0) = .ok zeroState ∧
    MessageKind.gdnStateResult.encode (zeroStatePayload 0).length zeroState = .ok (zeroStatePayload 0) :=
  ⟨zeroStatePayload_decode 0, (@wire_canonical_iff .gdnStateResult _ zeroState _ (zeroStatePayload_decode 0)
    le_rfl).mpr (zeroStatePayload_gap 0)⟩

/-- Two payloads that differ in the gap carry one message. -/
theorem wire_gap_ignored : MessageKind.gdnStateResult.decode.run (zeroStatePayload 1) = .ok zeroState ∧
    MessageKind.gdnStateResult.decode.run (zeroStatePayload 0) = .ok zeroState ∧
    MessageKind.gdnStateResult.encode (zeroStatePayload 1).length zeroState ≠ .ok (zeroStatePayload 1) := by
  refine ⟨zeroStatePayload_decode 1, zeroStatePayload_decode 0, fun h => ?_⟩
  have hzero : At (zeroStatePayload 1) 12 (putU32 0) :=
    (gdnStateResult_canonical_iff (zeroStatePayload_decode 1) le_rfl).mp h
  have hgap := at_unique hzero (zeroStatePayload_gap 1) rfl
  revert hgap
  decide

/-- A decoder stays inside its payload, save three that look at byte 3 of a payload they have not measured. -/
theorem wire_safe_iff : kind.decode.Safe p ↔ (kind.ReadsAhead → 3 < p.length) := by
  cases kind with
  | layerResult => exact layerResultDecode_safe_iff.trans ⟨fun h _ => h, fun h => h trivial⟩
  | decodeLayerResult => exact layerResultDecode_safe_iff.trans ⟨fun h _ => h, fun h => h trivial⟩
  | qsaBlockWork version hiddenCapacity =>
    refine qsaBlockWorkDecode_safe_iff.trans ?_
    constructor
    · rintro h ⟨hversion, hroom⟩
      exact not_le.mp fun hshort => h ⟨hroom, hversion, hshort⟩
    · rintro h ⟨hroom, hversion, hshort⟩
      exact absurd (h ⟨hversion, hroom⟩) (not_lt.mpr hshort)
  | decodeWork => exact iff_of_true decodeWorkDecode_safe False.elim
  | expertResult => exact iff_of_true expertResultDecode_safe False.elim
  | prefillWork _ _ => exact iff_of_true prefillWorkDecode_safe False.elim
  | prefillResult _ _ => exact iff_of_true prefillResultDecode_safe False.elim
  | prefillLayerWork _ _ => exact iff_of_true prefillLayerWorkDecode_safe False.elim
  | prefillLayerResult _ => exact iff_of_true prefillLayerResultDecode_safe False.elim
  | layerWork _ => exact iff_of_true layerWorkDecode_safe False.elim
  | decodeLayerWork _ => exact iff_of_true layerWorkDecode_safe False.elim
  | decodeBatchWork _ _ _ => exact iff_of_true decodeBatchWorkDecode_safe False.elim
  | decodeBatchResult => exact iff_of_true decodeBatchResultDecode_safe False.elim
  | qsaBlockResult _ => exact iff_of_true qsaBlockResultDecode_safe False.elim
  | qsaBlockPrefillWork _ _ _ => exact iff_of_true qsaBlockPrefillWorkDecode_safe False.elim
  | qsaBlockPrefillResult _ => exact iff_of_true qsaBlockPrefillResultDecode_safe False.elim
  | qsaPageAppend _ => exact iff_of_true qsaPageAppendDecode_safe False.elim
  | qsaPageFetch _ => exact iff_of_true pageBatchDecode_safe False.elim
  | qsaPageResult _ => exact iff_of_true pageBatchDecode_safe False.elim
  | qsaPageBarrier => exact iff_of_true qsaPageBarrierDecode_safe False.elim
  | gdnStateFetch => exact iff_of_true gdnStateFetchDecode_safe False.elim
  | gdnStateResult => exact iff_of_true gdnStateResultDecode_safe False.elim
  | outputWork => exact iff_of_true outputWorkDecode_safe False.elim
  | outputConfig => exact iff_of_true outputConfigDecode_safe False.elim
  | outputResult => exact iff_of_true outputResultDecode_safe False.elim
  | outputPartial => exact iff_of_true outputPartialDecode_safe False.elim
  | outputSliceHidden => exact iff_of_true outputSliceHiddenDecode_safe False.elim
  | outputHistory _ => exact iff_of_true outputHistoryDecode_safe False.elim
  | ngramWork => exact iff_of_true ngramWorkDecode_safe False.elim
  | ngramResult => exact iff_of_true ngramResultDecode_safe False.elim
  | ownerSessionControl => exact iff_of_true ownerSessionControlDecode_safe False.elim

/-- The decoder of a layer result reads byte 3 of an empty payload. -/
theorem wire_overruns_empty : MessageKind.layerResult.decode.run [] = .overrun 3 ∧
    ¬MessageKind.layerResult.decode.Safe [] ∧
    ¬(MessageKind.qsaBlockWork protocolMinVersion hiddenSize).decode.Safe [] := by
  refine ⟨rfl, fun h => absurd (layerResultDecode_safe_iff.mp h) (by decide), fun h => ?_⟩
  exact qsaBlockWorkDecode_safe_iff.mp h ⟨le_rfl, rfl, by decide⟩

end FlashGordon.Wire
