import FlashGordon.DecodeBatchWire
import FlashGordon.PrefillWork

/-! The messages of the layer ring (`protocol.c`): a chunk of tokens, a single token or a batch of tokens
travels from block owner to block owner as layer work, and the last owner hands it back as a layer result. A
message is its record; what the byte codec refuses on its own (sizes, reserved bytes) is left to the frame
that carries it. -/

namespace FlashGordon.RingWire

open DecodeBatch Prefill

/-- The loop that extends a block from its first layer over the layers of the same owner; `fuel` bounds the
layers it may still pass. -/
def blockEndFrom (manifest : Manifest) (self : Nat) : Nat → Nat → Nat
  | 0, last => last
  | fuel + 1, last =>
    if last + 1 < layerCount ∧ manifest.layerOwner (last + 1) = self then
      blockEndFrom manifest self fuel (last + 1)
    else last

/-- The last layer of the block that `self` owns from `layer` on. -/
def blockEnd (manifest : Manifest) (self layer : Nat) : Nat := blockEndFrom manifest self layerCount layer

section Block

variable {manifest : Manifest} {self layer : Nat}

theorem le_blockEndFrom (fuel last : Nat) : last ≤ blockEndFrom manifest self fuel last := by
  induction fuel generalizing last with
  | zero => exact Nat.le_refl last
  | succ fuel ih =>
    rw [blockEndFrom]
    split
    · exact (Nat.le_succ last).trans (ih (last + 1))
    · exact Nat.le_refl last

theorem blockEndFrom_lt (fuel : Nat) {last : Nat} (hlast : last < layerCount) :
    blockEndFrom manifest self fuel last < layerCount := by
  induction fuel generalizing last with
  | zero => exact hlast
  | succ fuel ih =>
    rw [blockEndFrom]
    split
    next hnext =>
      exact ih hnext.1
    · exact hlast

theorem le_blockEnd : layer ≤ blockEnd manifest self layer := le_blockEndFrom layerCount layer

theorem blockEnd_lt (hlayer : layer < layerCount) : blockEnd manifest self layer < layerCount :=
  blockEndFrom_lt layerCount hlayer

theorem blockEndFrom_owned (fuel : Nat) {last k : Nat} (hlast : last < k)
    (hk : k ≤ blockEndFrom manifest self fuel last) : manifest.layerOwner k = self := by
  induction fuel generalizing last with
  | zero => exact absurd (hlast.trans_le hk) (Nat.lt_irrefl last)
  | succ fuel ih =>
    rw [blockEndFrom] at hk
    split at hk
    next hnext =>
      rcases Nat.lt_or_eq_of_le (Nat.succ_le_of_lt hlast) with hlt | heq
      · exact ih hlt hk
      · exact heq ▸ hnext.2
    · exact absurd (hlast.trans_le hk) (Nat.lt_irrefl last)

theorem blockEndFrom_maximal (fuel : Nat) {last : Nat} (hfuel : layerCount ≤ last + fuel)
    (hmore : blockEndFrom manifest self fuel last + 1 < layerCount) :
    manifest.layerOwner (blockEndFrom manifest self fuel last + 1) ≠ self := by
  induction fuel generalizing last with
  | zero =>
    rw [blockEndFrom] at hmore
    omega
  | succ fuel ih =>
    rw [blockEndFrom] at hmore ⊢
    split
    next hnext =>
      rw [if_pos hnext] at hmore
      exact ih (by omega) hmore
    next hstop =>
      rw [if_neg hstop] at hmore
      exact fun howner => hstop ⟨hmore, howner⟩

theorem blockEnd_owned {k : Nat} (hlayer : manifest.layerOwner layer = self) (hk : layer ≤ k)
    (hend : k ≤ blockEnd manifest self layer) : manifest.layerOwner k = self := by
  rcases Nat.lt_or_eq_of_le hk with hlt | rfl
  · exact blockEndFrom_owned layerCount hlt hend
  · exact hlayer

theorem blockEnd_maximal (hmore : blockEnd manifest self layer + 1 < layerCount) :
    manifest.layerOwner (blockEnd manifest self layer + 1) ≠ self :=
  blockEndFrom_maximal layerCount (Nat.le_add_left _ _) hmore

theorem lt_blockEnd (hmore : layer + 1 < layerCount) (hnext : manifest.layerOwner (layer + 1) = self) :
    layer + 1 ≤ blockEnd manifest self layer := by
  rw [blockEnd, show layerCount = 47 + 1 from rfl, blockEndFrom, if_pos ⟨hmore, hnext⟩]
  exact le_blockEndFrom 47 (layer + 1)

end Block

structure PrefillLayerWork where
  layer : UInt8
  sourceRank : UInt8
  destinationRank : UInt8
  flags : UInt8
  positionMode : PositionMode
  firstToken : UInt32
  tokenCount : UInt16
  positions : List UInt32
  hyper : List Binary32
  ngramEmbeddings : Option (List Binary32)

def firstNonFiniteAt (values : List Binary32) : Option Nat := values.findIdx? fun value => !value.isFinite

/-- The header test; the positions and the hidden rows are always there. -/
def PrefillLayerWork.HeaderInvalid (work : PrefillLayerWork) : Prop :=
  layerCount ≤ work.layer.toNat ∨ rankCount ≤ work.sourceRank.toNat ∨
    rankCount ≤ work.destinationRank.toNat ∨ work.flags &&& ~~~layerWorkHasNgram ≠ 0 ∨
    (work.flags &&& layerWorkHasNgram ≠ 0 ∧ 1 < work.layer) ∨
    work.tokenCount = 0 ∨ prefillMaxTokens < work.tokenCount.toNat ∨
    (work.flags &&& layerWorkHasNgram ≠ 0 ∧ work.ngramEmbeddings = none)

instance (work : PrefillLayerWork) : Decidable work.HeaderInvalid := by
  unfold PrefillLayerWork.HeaderInvalid
  infer_instance

def validatePrefillLayerWork (work : PrefillLayerWork) : Except Error Unit :=
  if work.HeaderInvalid then .error ⟨.format, "invalid prefill layer work header"⟩
  else match firstNonFiniteAt work.hyper with
    | some i => .error ⟨.format, s!"non-finite prefill layer input at {i}"⟩
    | none =>
      if work.flags &&& layerWorkHasNgram = 0 then .ok ()
      else match firstNonFiniteAt (work.ngramEmbeddings.getD []) with
        | some i => .error ⟨.format, s!"non-finite batched n-gram embedding at {i}"⟩
        | none => .ok ()

/-- The buffers a receiver decodes into: rows for so many tokens, and n-gram rows when it has them. -/
structure Storage where
  tokens : Nat
  ngram : Bool

def positionAxes : PositionMode → Nat
  | .text => 3
  | .fourAxis => 4

/-- `fg_prefill_layer_work_decode`, once the bytes are read. -/
def prefillLayerWorkDecode (storage : Storage) (work : PrefillLayerWork) : Except Error PrefillLayerWork :=
  let tokens := work.tokenCount.toNat
  if tokens = 0 ∨ prefillMaxTokens < tokens ∨ storage.tokens * 3 < tokens * positionAxes work.positionMode ∨
      storage.tokens < tokens ∨ (work.flags &&& layerWorkHasNgram ≠ 0 ∧ storage.ngram = false) then
    .error ⟨.format, "invalid prefill layer work size, reserved bytes, or storage capacity"⟩
  else (validatePrefillLayerWork work).map fun _ => work

theorem prefillLayerWorkDecode_ok {storage : Storage} {wire work : PrefillLayerWork}
    (h : prefillLayerWorkDecode storage wire = .ok work) :
    work = wire ∧ validatePrefillLayerWork wire = .ok () := by
  rw [prefillLayerWorkDecode] at h
  split at h
  · cases h
  · cases hvalid : validatePrefillLayerWork wire with
    | error err => rw [hvalid] at h; cases h
    | ok => rw [hvalid] at h; cases h; exact ⟨rfl, rfl⟩

structure PrefillLayerResult where
  layer : UInt8
  sourceRank : UInt8
  destinationRank : UInt8
  firstToken : UInt32
  tokenCount : UInt16
  hyper : List Binary32

def validatePrefillLayerResult (result : PrefillLayerResult) : Except Error Unit :=
  if layerCount ≤ result.layer.toNat ∨ rankCount ≤ result.sourceRank.toNat ∨
      rankCount ≤ result.destinationRank.toNat ∨ result.tokenCount = 0 ∨
      prefillMaxTokens < result.tokenCount.toNat then
    .error ⟨.format, "invalid prefill layer result header"⟩
  else match firstNonFiniteAt result.hyper with
    | some i => .error ⟨.format, s!"non-finite prefill layer result at {i}"⟩
    | none => .ok ()

/-- `fg_prefill_layer_result_decode`, once the bytes are read. -/
def prefillLayerResultDecode (storage : Storage) (result : PrefillLayerResult) :
    Except Error PrefillLayerResult :=
  let tokens := result.tokenCount.toNat
  if tokens = 0 ∨ prefillMaxTokens < tokens ∨ storage.tokens < tokens then
    .error ⟨.format, "invalid prefill layer result size, reserved bytes, or storage capacity"⟩
  else (validatePrefillLayerResult result).map fun _ => result

theorem prefillLayerResultDecode_ok {storage : Storage} {wire result : PrefillLayerResult}
    (h : prefillLayerResultDecode storage wire = .ok result) : result = wire := by
  rw [prefillLayerResultDecode] at h
  split at h
  · cases h
  · cases hvalid : validatePrefillLayerResult wire with
    | error err => rw [hvalid] at h; cases h
    | ok => rw [hvalid] at h; cases h; rfl

/-- `fg_layer_work`, the work of one decoded token. -/
structure LayerWork where
  layer : UInt8
  sourceRank : UInt8
  destinationRank : UInt8
  flags : UInt8
  positionMode : PositionMode
  tokenIndex : UInt32
  position : Positions
  hyper : Vector Binary32 hyperWidth
  ngramEmbedding : Vector Binary32 ngramEmbedValues

def LayerWork.HeaderInvalid (work : LayerWork) : Prop :=
  layerCount ≤ work.layer.toNat ∨ rankCount ≤ work.sourceRank.toNat ∨
    rankCount ≤ work.destinationRank.toNat ∨
    work.flags &&& ~~~(layerWorkHasNgram ||| layerWorkFlagOutput4wayGreedy) ≠ 0 ∨
    (work.flags &&& layerWorkHasNgram ≠ 0 ∧ 1 < work.layer) ∨
    (work.positionMode = .text ∧ work.position.get 3 ≠ 0)

instance (work : LayerWork) : Decidable work.HeaderInvalid := by
  unfold LayerWork.HeaderInvalid
  infer_instance

def validateLayerWork (work : LayerWork) : Except Error Unit :=
  if work.HeaderInvalid then .error ⟨.format, "invalid layer work header"⟩
  else match firstNonFinite work.hyper with
    | some i => .error ⟨.format, s!"non-finite layer input at {i}"⟩
    | none =>
      if work.flags &&& layerWorkHasNgram = 0 then .ok ()
      else match firstNonFinite work.ngramEmbedding with
        | some i => .error ⟨.format, s!"non-finite n-gram embedding at {i}"⟩
        | none => .ok ()

structure LayerResult where
  layer : UInt8
  sourceRank : UInt8
  destinationRank : UInt8
  tokenIndex : UInt32
  hyper : Vector Binary32 hyperWidth

def validateLayerResult (result : LayerResult) : Except Error Unit :=
  if layerCount ≤ result.layer.toNat ∨ rankCount ≤ result.sourceRank.toNat ∨
      rankCount ≤ result.destinationRank.toNat then
    .error ⟨.format, "invalid layer result header"⟩
  else match firstNonFinite result.hyper with
    | some i => .error ⟨.format, s!"non-finite layer result at {i}"⟩
    | none => .ok ()

structure SlotResult where
  tokenIndex : UInt32
  hyper : Vector Binary32 hyperWidth

structure BatchResult where
  layer : UInt8
  sourceRank : UInt8
  destinationRank : UInt8
  flags : UInt8
  slots : List SlotResult

/-- The loop over the slots of a batch result, from slot `slot` on. -/
def validateSlotResults : Nat → List SlotResult → Except Error Unit
  | _, [] => .ok ()
  | slot, entry :: rest =>
    if maxContext ≤ entry.tokenIndex.toNat then
      .error ⟨.format, s!"invalid decode batch result slot {slot}"⟩
    else match firstNonFinite entry.hyper with
      | some i => .error ⟨.format, s!"non-finite decode batch result slot {slot} hidden at {i}"⟩
      | none => validateSlotResults (slot + 1) rest

def validateDecodeBatchResult (result : BatchResult) : Except Error Unit :=
  if layerCount ≤ result.layer.toNat ∨ rankCount ≤ result.sourceRank.toNat ∨
      rankCount ≤ result.destinationRank.toNat ∨ result.flags ≠ 0 ∨ result.slots.length = 0 ∨
      batchMax < result.slots.length then
    .error ⟨.format, "invalid decode batch result header"⟩
  else validateSlotResults 0 result.slots

def ringSequence (token : UInt32) (layer : Nat) : UInt32 :=
  token * UInt32.ofNat layerCount + UInt32.ofNat layer

end FlashGordon.RingWire
