import FlashGordon.WireQsa

/-! The payloads of the output stage (`protocol.c`): output work, its sampler config sent ahead, results, partial
finalists, hidden slices and the sampling history. The encoder of a config writes any flags; the decoder takes
only those it knows. -/

namespace FlashGordon.Wire

open ByteCodec Reader Prefill DecodeBatch ExpertRoute

def vocabSize : Nat := 248320

def nativeContext : Nat := 262144

/-- `fg_sampler_config`. -/
structure SamplerConfig where
  temperature : Binary32
  topP : Binary32
  topK : UInt32
  presencePenalty : Binary32
  frequencyPenalty : Binary32
  repetitionPenalty : Binary32
  minP : Binary32
  seed : UInt64

/-- The values `1.0f` and `2.0f`. -/
def one : Binary32 := ⟨0x3f800000⟩

def two : Binary32 := ⟨0x40000000⟩

/-- The test of `fg_sampler_config_validate`. -/
def SamplerConfig.Invalid (config : SamplerConfig) : Prop :=
  config.temperature.isFinite = false ∨ config.temperature.order < 0 ∨
    config.topP.isFinite = false ∨ config.topP.order ≤ 0 ∨ one.order < config.topP.order ∨
    config.topK = 0 ∨ 64 < config.topK.toNat ∨
    config.presencePenalty.isFinite = false ∨ config.presencePenalty.order < -two.order ∨
    two.order < config.presencePenalty.order ∨
    config.frequencyPenalty.isFinite = false ∨ config.frequencyPenalty.order < -two.order ∨
    two.order < config.frequencyPenalty.order ∨
    config.repetitionPenalty.isFinite = false ∨ config.repetitionPenalty.order ≤ 0 ∨
    config.minP.isFinite = false ∨ config.minP.order ≠ 0

instance (config : SamplerConfig) : Decidable config.Invalid := by
  unfold SamplerConfig.Invalid
  infer_instance

/-- Every control is zero: the config of a greedy draw. -/
def SamplerConfig.Blank (config : SamplerConfig) : Prop :=
  config.temperature.order = 0 ∧ config.topP.order = 0 ∧ config.topK = 0 ∧ config.presencePenalty.order = 0 ∧
    config.frequencyPenalty.order = 0 ∧ config.repetitionPenalty.order = 0 ∧ config.minP.order = 0

instance (config : SamplerConfig) : Decidable config.Blank := by
  unfold SamplerConfig.Blank
  infer_instance

def validateDraw (route draw : String) (sourceRank destinationRank sessionSlot : UInt8) (sampler : SamplerConfig)
    (uniform : Binary32) : Except Error Unit := do
  failIf (rankCount ≤ sourceRank.toNat ∨ destinationRank ≠ 4 ∨ batchMax ≤ sessionSlot.toNat) (malformed route)
  failIf (¬sampler.Blank ∧ sampler.Invalid) (malformed "invalid sampler controls")
  failIf (uniform.isFinite = false ∨ uniform.order < 0 ∨ one.order ≤ uniform.order) (malformed draw)

def putDraw (sampler : SamplerConfig) (uniform : Binary32) : List UInt8 :=
  putF32 sampler.temperature ++ putF32 sampler.topP ++ putU32 sampler.topK ++ putF32 uniform ++
    putF32 sampler.presencePenalty ++ putF32 sampler.frequencyPenalty ++ putF32 sampler.repetitionPenalty ++
    putF32 sampler.minP

def drawAt : Decoder (SamplerConfig × Binary32) := do
  let temperature ← f32 8
  let topP ← f32 12
  let topK ← u32 16
  let uniform ← f32 20
  let presencePenalty ← f32 24
  let frequencyPenalty ← f32 28
  let repetitionPenalty ← f32 32
  let minP ← f32 36
  pure (⟨temperature, topP, topK, presencePenalty, frequencyPenalty, repetitionPenalty, minP, 0⟩, uniform)

def carriedSampler (sampler : SamplerConfig) : SamplerConfig := { sampler with seed := 0 }

@[simp] theorem putDraw_length (sampler : SamplerConfig) (uniform : Binary32) :
    (putDraw sampler uniform).length = 32 := rfl

variable {p : List UInt8}

theorem drawAt_ok {sampler : SamplerConfig} {uniform : Binary32} :
    drawAt.run p = .ok (sampler, uniform) ↔ At p 8 (putDraw sampler uniform) ∧ sampler.seed = 0 := by
  obtain ⟨temperature, topP, topK, presence, frequency, repetition, minP, seed⟩ := sampler
  simp [drawAt, putDraw]
  grind

theorem drawAt_safe (h : 40 ≤ p.length) : drawAt.Safe p := by
  simp [drawAt]
  grind [safe_f32, safe_u32]

/-! `fg_output_work`. -/

structure OutputWork where
  sourceRank : UInt8
  destinationRank : UInt8
  sessionSlot : UInt8
  tokenIndex : UInt32
  sampler : SamplerConfig
  uniform : Binary32
  hyper : Vector Binary32 hyperWidth

def validateOutputWork (work : OutputWork) : Except Error Unit := do
  validateDraw "invalid output work route" "invalid output sampler draw" work.sourceRank work.destinationRank
    work.sessionSlot work.sampler work.uniform
  checkFinite "non-finite output input" work.hyper.toList

def OutputWork.wire (work : OutputWork) : List UInt8 :=
  [work.sourceRank, work.destinationRank, 0, work.sessionSlot] ++ putU32 work.tokenIndex ++
    putDraw work.sampler work.uniform ++ putF32s work.hyper.toList

def outputWorkEncode (work : OutputWork) : Except Error (List UInt8) := do
  validateOutputWork work
  .ok work.wire

def outputWorkDecode : Decoder OutputWork := do
  refuseIf (malformed "invalid output work size or reserved bytes") [missized (40 + hyperWidth * 4), nonzero 2]
  let sourceRank ← byte 0
  let destinationRank ← byte 1
  let sessionSlot ← byte 3
  let tokenIndex ← u32 4
  let draw ← drawAt
  let hyper ← f32s 40 hyperWidth
  accept validateOutputWork ⟨sourceRank, destinationRank, sessionSlot, tokenIndex, draw.1, draw.2, hyper⟩

def carriedOutputWork (work : OutputWork) : OutputWork := { work with sampler := carriedSampler work.sampler }

variable {work : OutputWork}

theorem outputWorkDecode_ok : outputWorkDecode.run p = .ok work ↔
    p = work.wire ∧ validateOutputWork work = .ok () ∧ work.sampler.seed = 0 := by
  rw [eq_iff_at]
  obtain ⟨sourceRank, destinationRank, sessionSlot, tokenIndex, sampler, uniform, hyper⟩ := work
  simp [outputWorkDecode, drawAt_ok, OutputWork.wire]
  grind

theorem outputWork_roundTrip (h : outputWorkEncode work = .ok p) :
    outputWorkDecode.run p = .ok (carriedOutputWork work) := by
  simp [outputWorkEncode] at h
  exact outputWorkDecode_ok.mpr ⟨h.2.symm, h.1, rfl⟩

theorem outputWork_canonical (h : outputWorkDecode.run p = .ok work) : outputWorkEncode work = .ok p := by
  obtain ⟨rfl, hvalid, -⟩ := outputWorkDecode_ok.mp h
  simp [outputWorkEncode, hvalid]

theorem outputWorkDecode_safe : outputWorkDecode.Safe p := by
  simp [outputWorkDecode]
  grind [safe_u32, drawAt_safe, safe_f32s]

/-! `fg_output_config`. -/

def configFlagSplit : UInt8 := 1

def configFlagSplit4 : UInt8 := 2

structure OutputConfig where
  sourceRank : UInt8
  destinationRank : UInt8
  flags : UInt8
  sessionSlot : UInt8
  tokenIndex : UInt32
  sampler : SamplerConfig
  uniform : Binary32

/-- `validate_output_config`, which does not look at the flags. -/
def validateOutputConfig (config : OutputConfig) : Except Error Unit :=
  validateDraw "invalid output config route" "invalid output config sampler draw" config.sourceRank
    config.destinationRank config.sessionSlot config.sampler config.uniform

def OutputConfig.wire (config : OutputConfig) : List UInt8 :=
  [config.sourceRank, config.destinationRank, config.flags, config.sessionSlot] ++ putU32 config.tokenIndex ++
    putDraw config.sampler config.uniform

def outputConfigEncode (config : OutputConfig) : Except Error (List UInt8) := do
  validateOutputConfig config
  .ok config.wire

def outputConfigDecode : Decoder OutputConfig := do
  refuseIf (malformed "invalid output config size or reserved bytes")
    [missized 40,
      do
        let flags ← byte 2
        test (flags &&& ~~~(configFlagSplit ||| configFlagSplit4) ≠ 0),
      do
        let flags ← byte 2
        test (flags &&& configFlagSplit4 ≠ 0 ∧ flags &&& configFlagSplit = 0)]
  let sourceRank ← byte 0
  let destinationRank ← byte 1
  let flags ← byte 2
  let sessionSlot ← byte 3
  let tokenIndex ← u32 4
  let draw ← drawAt
  accept validateOutputConfig ⟨sourceRank, destinationRank, flags, sessionSlot, tokenIndex, draw.1, draw.2⟩

def carriedOutputConfig (config : OutputConfig) : OutputConfig :=
  { config with sampler := carriedSampler config.sampler }

/-- No split, a split over two ways, a split over four. -/
def KnownFlags (flags : UInt8) : Prop := flags = 0 ∨ flags = 1 ∨ flags = 3

theorem knownFlags_iff {flags : UInt8} : KnownFlags flags ↔
    flags &&& ~~~(configFlagSplit ||| configFlagSplit4) = 0 ∧
      (flags &&& configFlagSplit4 ≠ 0 → flags &&& configFlagSplit ≠ 0) := by
  have hbits : ∀ y : BitVec 8, (y = 0#8 ∨ y = 1#8 ∨ y = 3#8) ↔
      y &&& ~~~(1#8 ||| 2#8) = 0#8 ∧ (y &&& 2#8 ≠ 0#8 → y &&& 1#8 ≠ 0#8) := by decide
  have hflags := hbits flags.toBitVec
  simp only [KnownFlags, ← UInt8.toBitVec_inj, ne_eq]
  exact hflags

variable {config : OutputConfig}

theorem outputConfigDecode_ok : outputConfigDecode.run p = .ok config ↔
    p = config.wire ∧ validateOutputConfig config = .ok () ∧ KnownFlags config.flags ∧ config.sampler.seed = 0 := by
  rw [eq_iff_at, knownFlags_iff]
  obtain ⟨sourceRank, destinationRank, flags, sessionSlot, tokenIndex, sampler, uniform⟩ := config
  simp [outputConfigDecode, drawAt_ok, OutputConfig.wire]
  grind

theorem outputConfig_roundTrip_iff (h : outputConfigEncode config = .ok p) :
    outputConfigDecode.run p = .ok (carriedOutputConfig config) ↔ KnownFlags config.flags := by
  simp [outputConfigEncode] at h
  obtain ⟨hvalid, rfl⟩ := h
  rw [outputConfigDecode_ok]
  exact ⟨fun h => h.2.2.1, fun hflags => ⟨rfl, hvalid, hflags, rfl⟩⟩

theorem outputConfig_canonical (h : outputConfigDecode.run p = .ok config) : outputConfigEncode config = .ok p := by
  obtain ⟨rfl, hvalid, -⟩ := outputConfigDecode_ok.mp h
  simp [outputConfigEncode, hvalid]

theorem outputConfigDecode_safe : outputConfigDecode.Safe p := by
  simp [outputConfigDecode]
  grind [safe_u32, drawAt_safe]

/-! `fg_output_result`. -/

structure OutputResult where
  sourceRank : UInt8
  destinationRank : UInt8
  tokenIndex : UInt32
  token : UInt32
  logit : Binary32

def validateOutputResult (result : OutputResult) : Except Error Unit :=
  failIf (result.sourceRank ≠ 4 ∨ rankCount ≤ result.destinationRank.toNat ∨ vocabSize ≤ result.token.toNat ∨
    result.logit.isFinite = false) (malformed "invalid output result")

def OutputResult.wire (result : OutputResult) : List UInt8 :=
  [result.sourceRank, result.destinationRank, 0, 0] ++ putU32 result.tokenIndex ++ putU32 result.token ++
    putF32 result.logit

def outputResultEncode (result : OutputResult) : Except Error (List UInt8) := do
  validateOutputResult result
  .ok result.wire

def outputResultDecode : Decoder OutputResult := do
  refuseIf (malformed "invalid output result size or reserved bytes") [missized 16, nonzero 2, nonzero 3]
  let sourceRank ← byte 0
  let destinationRank ← byte 1
  let tokenIndex ← u32 4
  let token ← u32 8
  let logit ← f32 12
  accept validateOutputResult ⟨sourceRank, destinationRank, tokenIndex, token, logit⟩

variable {result : OutputResult}

theorem outputResultDecode_ok :
    outputResultDecode.run p = .ok result ↔ p = result.wire ∧ validateOutputResult result = .ok () := by
  rw [eq_iff_at]
  obtain ⟨sourceRank, destinationRank, tokenIndex, token, logit⟩ := result
  simp [outputResultDecode, OutputResult.wire]
  grind

theorem outputResult_roundTrip (h : outputResultEncode result = .ok p) : outputResultDecode.run p = .ok result := by
  simp [outputResultEncode] at h
  exact outputResultDecode_ok.mpr ⟨h.2.symm, h.1⟩

theorem outputResult_canonical (h : outputResultDecode.run p = .ok result) : outputResultEncode result = .ok p := by
  obtain ⟨rfl, hvalid⟩ := outputResultDecode_ok.mp h
  simp [outputResultEncode, hvalid]

theorem outputResultDecode_safe : outputResultDecode.Safe p := by
  simp [outputResultDecode]
  grind [safe_u32, safe_f32]

/-! `fg_output_partial`. -/

structure OutputPartial where
  tokenIndex : UInt32
  value : Binary32
  id : UInt32

def validateOutputPartial (finalist : OutputPartial) : Except Error Unit :=
  failIf (vocabSize ≤ finalist.id.toNat ∨ finalist.value.isFinite = false) (malformed "invalid output partial")

def OutputPartial.wire (finalist : OutputPartial) : List UInt8 :=
  putU32 finalist.tokenIndex ++ putF32 finalist.value ++ putU32 finalist.id

def outputPartialEncode (finalist : OutputPartial) : Except Error (List UInt8) := do
  validateOutputPartial finalist
  .ok finalist.wire

def outputPartialDecode : Decoder OutputPartial := do
  refuseIf (malformed "invalid output partial size") [missized 12]
  let tokenIndex ← u32 0
  let value ← f32 4
  let id ← u32 8
  accept validateOutputPartial ⟨tokenIndex, value, id⟩

variable {finalist : OutputPartial}

theorem outputPartialDecode_ok :
    outputPartialDecode.run p = .ok finalist ↔ p = finalist.wire ∧ validateOutputPartial finalist = .ok () := by
  rw [eq_iff_at]
  obtain ⟨tokenIndex, value, id⟩ := finalist
  simp [outputPartialDecode, OutputPartial.wire]
  grind

theorem outputPartial_roundTrip
    (h : outputPartialEncode finalist = .ok p) : outputPartialDecode.run p = .ok finalist := by
  simp [outputPartialEncode] at h
  exact outputPartialDecode_ok.mpr ⟨h.2.symm, h.1⟩

theorem outputPartial_canonical
    (h : outputPartialDecode.run p = .ok finalist) : outputPartialEncode finalist = .ok p := by
  obtain ⟨rfl, hvalid⟩ := outputPartialDecode_ok.mp h
  simp [outputPartialEncode, hvalid]

theorem outputPartialDecode_safe : outputPartialDecode.Safe p := by
  simp [outputPartialDecode]
  grind [safe_u32, safe_f32]

/-! `fg_output_slice_hidden`. -/

structure OutputSliceHidden where
  sourceRank : UInt8
  destinationRank : UInt8
  tokenIndex : UInt32
  hidden : Vector Binary32 hiddenSize

def validateOutputSliceHidden (slice : OutputSliceHidden) : Except Error Unit := do
  failIf (rankCount ≤ slice.sourceRank.toNat ∨ rankCount ≤ slice.destinationRank.toNat ∨
    slice.sourceRank = slice.destinationRank) (malformed "invalid output slice hidden route")
  checkFinite "non-finite output slice hidden" slice.hidden.toList

def OutputSliceHidden.wire (slice : OutputSliceHidden) : List UInt8 :=
  [slice.sourceRank, slice.destinationRank, 0, 0] ++ putU32 slice.tokenIndex ++ putF32s slice.hidden.toList

def outputSliceHiddenEncode (slice : OutputSliceHidden) : Except Error (List UInt8) := do
  validateOutputSliceHidden slice
  .ok slice.wire

def outputSliceHiddenDecode : Decoder OutputSliceHidden := do
  refuseIf (malformed "invalid output slice hidden size or reserved bytes")
    [missized (8 + hiddenSize * 4), nonzero 2, nonzero 3]
  let sourceRank ← byte 0
  let destinationRank ← byte 1
  let tokenIndex ← u32 4
  let hidden ← f32s 8 hiddenSize
  accept validateOutputSliceHidden ⟨sourceRank, destinationRank, tokenIndex, hidden⟩

variable {slice : OutputSliceHidden}

theorem outputSliceHiddenDecode_ok :
    outputSliceHiddenDecode.run p = .ok slice ↔ p = slice.wire ∧ validateOutputSliceHidden slice = .ok () := by
  rw [eq_iff_at]
  obtain ⟨sourceRank, destinationRank, tokenIndex, hidden⟩ := slice
  simp [outputSliceHiddenDecode, OutputSliceHidden.wire]
  grind

theorem outputSliceHidden_roundTrip
    (h : outputSliceHiddenEncode slice = .ok p) : outputSliceHiddenDecode.run p = .ok slice := by
  simp [outputSliceHiddenEncode] at h
  exact outputSliceHiddenDecode_ok.mpr ⟨h.2.symm, h.1⟩

theorem outputSliceHidden_canonical
    (h : outputSliceHiddenDecode.run p = .ok slice) : outputSliceHiddenEncode slice = .ok p := by
  obtain ⟨rfl, hvalid⟩ := outputSliceHiddenDecode_ok.mp h
  simp [outputSliceHiddenEncode, hvalid]

theorem outputSliceHiddenDecode_safe : outputSliceHiddenDecode.Safe p := by
  simp [outputSliceHiddenDecode]
  grind [safe_u32, safe_f32s]

/-! `fg_output_history`. -/

structure OutputHistory where
  sessionSlot : UInt8
  tokens : List UInt32

def OutsideVocabulary (token : UInt32) : Prop := vocabSize ≤ token.toNat

instance (token : UInt32) : Decidable (OutsideVocabulary token) := by
  unfold OutsideVocabulary
  infer_instance

def OutputHistory.bytes (history : OutputHistory) : Nat := 8 + history.tokens.length * 4

def OutputHistory.wire (history : OutputHistory) : List UInt8 :=
  putU32 (.ofNat history.tokens.length) ++ [history.sessionSlot, 0, 0, 0] ++ putU32s history.tokens

def outputHistoryEncode (capacity : Nat) (history : OutputHistory) : Except Error (List UInt8) := do
  failIf (nativeContext < history.tokens.length ∨ batchMax ≤ history.sessionSlot.toNat)
    ⟨.argument, "invalid output history"⟩
  failIf (capacity < history.bytes ∨ maxFrameBytes < history.bytes) ⟨.limit, "output history buffer is too small"⟩
  failIf (∃ token ∈ history.tokens, OutsideVocabulary token)
    (malformed "output history token is outside vocabulary")
  .ok history.wire

def historyTokenAt (offset : Nat) : Decoder UInt32 := do
  let token ← u32 offset
  refuseIf (malformed "output history token is outside vocabulary") [test (OutsideVocabulary token)]
  pure token

def outputHistoryDecode (capacity : Nat) : Decoder OutputHistory := do
  refuseIf ⟨.argument, "invalid output history input"⟩ [shorter 8]
  let count ← u32 0
  let sessionSlot ← byte 4
  let reserved₁ ← byte 5
  let reserved₂ ← byte 6
  let reserved₃ ← byte 7
  refuseIf (malformed "invalid output history size or reserved bytes")
    [test (reserved₁ ≠ 0 ∨ reserved₂ ≠ 0 ∨ reserved₃ ≠ 0), test (batchMax ≤ sessionSlot.toNat),
      test (nativeContext < count.toNat), test (capacity < count.toNat), missized (8 + count.toNat * 4)]
  let tokens ← listAt (fun i => historyTokenAt (8 + i * 4)) count.toNat
  pure ⟨sessionSlot, tokens⟩

theorem historyTokenAt_ok {offset : Nat} {token : UInt32} :
    (historyTokenAt offset).run p = .ok token ↔ At p offset (putU32 token) ∧ ¬OutsideVocabulary token := by
  simp [historyTokenAt]

theorem historyTokens_ok {n : Nat} {tokens : List UInt32} :
    (listAt (fun i => historyTokenAt (8 + i * 4)) n).run p = .ok tokens ↔
      tokens.length = n ∧ At p 8 (putU32s tokens) ∧ ∀ token ∈ tokens, ¬OutsideVocabulary token := by
  rw [listAt_entries putU32_length fun k token => historyTokenAt_ok, putU32s]

variable {history : OutputHistory}

theorem outputHistoryDecode_ok {capacity : Nat} : (outputHistoryDecode capacity).run p = .ok history ↔
      p = history.wire ∧ history.sessionSlot.toNat < batchMax ∧ history.tokens.length ≤ nativeContext ∧
        history.tokens.length ≤ capacity ∧ ∀ token ∈ history.tokens, ¬OutsideVocabulary token := by
  rw [eq_iff_at]
  obtain ⟨sessionSlot, tokens⟩ := history
  simp [outputHistoryDecode, historyTokens_ok, OutputHistory.wire]
  constructor
  · rintro ⟨-, count, h0, h4, h5, h6, h7, ⟨hslot, hcontext, hroom, hlength⟩, hcounted, htokens, hin⟩
    rw [(toNat_eq_iff32.mp hcounted).1] at h0
    exact ⟨⟨by omega, h0, h4, h5, h6, h7, htokens⟩, hslot, by omega, by omega, hin⟩
  · rintro ⟨⟨hlength, h0, h4, h5, h6, h7, htokens⟩, hslot, hcontext, hroom, hin⟩
    have hcounted : tokens.length = (UInt32.ofNat tokens.length).toNat :=
      toNat_eq_iff32.mpr ⟨rfl, hcontext.trans_lt (by decide)⟩
    refine ⟨by omega, _, h0, h4, h5, h6, h7, ⟨hslot, ?_, ?_, ?_⟩, hcounted, htokens, hin⟩
    · rwa [← hcounted]
    · rwa [← hcounted]
    · rw [← hcounted]
      omega

theorem outputHistory_roundTrip {capacity storage : Nat}
    (h : outputHistoryEncode capacity history = .ok p) (hroom : history.tokens.length ≤ storage) :
    (outputHistoryDecode storage).run p = .ok history := by
  simp [outputHistoryEncode] at h
  obtain ⟨⟨hcontext, hslot⟩, -, hin, rfl⟩ := h
  exact outputHistoryDecode_ok.mpr ⟨rfl, hslot, hcontext, hroom, hin⟩

theorem outputHistory_canonical {capacity storage : Nat}
    (h : (outputHistoryDecode storage).run p = .ok history) (hcapacity : p.length ≤ capacity) :
    outputHistoryEncode capacity history = .ok p := by
  obtain ⟨rfl, hslot, hcontext, -, hin⟩ := outputHistoryDecode_ok.mp h
  have hlength : history.wire.length = history.bytes := by
    simp [OutputHistory.wire, OutputHistory.bytes]
    omega
  have hframe : history.bytes ≤ maxFrameBytes := by
    rw [OutputHistory.bytes]
    calc 8 + history.tokens.length * 4 ≤ 8 + nativeContext * 4 := by omega
      _ ≤ maxFrameBytes := by decide
  rw [hlength] at hcapacity
  simp [outputHistoryEncode]
  exact ⟨⟨hcontext, hslot⟩, ⟨hcapacity, hframe⟩, hin⟩

theorem outputHistoryDecode_safe {capacity : Nat} : (outputHistoryDecode capacity).Safe p := by
  have htoken : ∀ offset, offset + 4 ≤ p.length → (historyTokenAt offset).Safe p := by
    intro offset hoffset
    simp [historyTokenAt, safe_u32 hoffset]
  simp +contextual (disch := omega) [outputHistoryDecode, safe_u32, safe_entries _ fun _ => htoken _]
  grind

end FlashGordon.Wire
