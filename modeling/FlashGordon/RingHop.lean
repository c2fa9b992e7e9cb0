import FlashGordon.PrefillBatch
import FlashGordon.Relay
import FlashGordon.RingPrefill

/-! The hops of the layer ring (`runtime.c`). The coordinator hands a chunk, a token or a batch to the owner of
layer 0; every owner that receives layer work checks it, runs its block and hands the work to the owner of the
next layer, and the owner of the last layer answers rank 0. Workers run `handle_prefill_layer_work`,
`handle_decode_layer_work` and `handle_decode_batch_work`; rank 0 runs its own blocks inside
`coordinator_prefill_pipeline_ring`, `coordinator_decode_token_ring` and `coordinator_decode_batch_step`. -/

namespace FlashGordon.RingHop

open DecodeBatch Prefill Relay RingWire RingPrefill

structure Packet (Message : Type) where
  source : Nat
  destination : Nat
  requestId : UInt64
  sessionSlot : Nat
  sequence : UInt32
  message : Message

/-- `fg_fabric_send`: a rank has no channel to itself. -/
def fabricSend {Message : Type} (packet : Packet Message) : Except Error Unit :=
  if rankCount ≤ packet.destination ∨ packet.destination = packet.source then
    .error ⟨.argument, "invalid fabric destination"⟩
  else .ok ()

/-- A fleet whose topology is accepted and whose first block is remote, in one session. The devices answer
finite rows; anything else is refused before it is sent. `chainEligible` is `decode_block_chain_eligible`. -/
structure Deployment where
  manifest : Manifest
  microbatch : Nat
  maxContext : Nat
  sessionId : UInt64
  sessionSlot : Nat
  outputSplitWays : Nat
  chainEligible : Nat → Nat → Nat → Bool
  prefillBlock : Nat → Nat → List Binary32 → List Binary32
  decodeBlock : Nat → Nat → UInt32 → Vector Binary32 hyperWidth → Vector Binary32 hyperWidth
  topology : validateTopology manifest = .ok ()
  remote : manifest.layerOwner 0 ≠ 0
  microbatch_range : 1 ≤ microbatch ∧ microbatch ≤ prefillMaxTokens
  maxContext_le : maxContext ≤ FlashGordon.maxContext
  sessionId_ne : sessionId ≠ 0
  prefillBlock_finite : ∀ rank layer rows, firstNonFiniteAt (prefillBlock rank layer rows) = none
  decodeBlock_finite : ∀ rank layer slot row, firstNonFinite (decodeBlock rank layer slot row) = none

variable (deployment : Deployment)

/-- A rank keeps n-gram storage only when it owns layer 1. -/
def Deployment.hasNgramStorage (self : Nat) : Bool := deployment.manifest.layerOwner 1 = self

def blockLayers (first last : Nat) : List Nat := List.range' first (last + 1 - first)

section Prefill

inductive PrefillMessage where
  | work (work : PrefillLayerWork)
  | result (result : PrefillLayerResult)

/-- The work for the next block, without n-gram rows. -/
def nextPrefillWork (self last : Nat) (work : PrefillLayerWork) (hyper : List Binary32) : PrefillLayerWork where
  layer := UInt8.ofNat (last + 1)
  sourceRank := UInt8.ofNat self
  destinationRank := UInt8.ofNat (deployment.manifest.layerOwner (last + 1))
  flags := 0
  positionMode := .text
  firstToken := work.firstToken
  tokenCount := work.tokenCount
  positions := work.positions
  hyper := hyper
  ngramEmbeddings := none

/-- Layer work encoded and addressed to the owner of `layer`. -/
def sendPrefillWork (self : Nat) (requestId : UInt64) (sessionSlot layer : Nat) (work : PrefillLayerWork) :
    Except Error (Packet PrefillMessage) :=
  match validatePrefillLayerWork work with
  | .error err => .error err
  | .ok () =>
    .ok ⟨self, deployment.manifest.layerOwner layer, requestId, sessionSlot,
      ringSequence work.firstToken layer, .work work⟩

def PrefillStale (self : Nat) (packet : Packet PrefillMessage) (work : PrefillLayerWork) : Prop :=
  deployment.sessionId = 0 ∨ packet.requestId ≠ deployment.sessionId ∨
    packet.source ≠ work.sourceRank.toNat ∨ work.destinationRank.toNat ≠ self ∨ work.tokenCount = 0 ∨
    deployment.microbatch < work.tokenCount.toNat ∨ layerCount ≤ work.layer.toNat ∨
    deployment.manifest.layerOwner work.layer.toNat ≠ self ∨
    packet.sequence ≠ ringSequence work.firstToken work.layer.toNat

instance (self : Nat) (packet : Packet PrefillMessage) (work : PrefillLayerWork) :
    Decidable (PrefillStale deployment self packet work) := by
  unfold PrefillStale
  infer_instance

def handlePrefillLayerWork (self : Nat) (packet : Packet PrefillMessage) (wire : PrefillLayerWork) :
    Except Error (Hop (Packet PrefillMessage)) :=
  match prefillLayerWorkDecode ⟨deployment.microbatch, deployment.hasNgramStorage self⟩ wire with
  | .error err => .error err
  | .ok work =>
    let layer := work.layer.toNat
    let last := blockEnd deployment.manifest self layer
    if PrefillStale deployment self packet work then
      .error ⟨.mismatch, "stale or misrouted prefill layer work"⟩
    else if 0 < layer ∧ deployment.manifest.layerOwner (layer - 1) = self then
      .error ⟨.mismatch, "prefill layer work does not start a block"⟩
    else if layer ≤ 1 ∧ 1 ≤ last ∧
        (work.flags &&& layerWorkHasNgram = 0 ∨ deployment.hasNgramStorage self = false) then
      .error ⟨.mismatch, "layer-1 worker work is missing n-gram embeddings"⟩
    else
      let hyper := deployment.prefillBlock self layer work.hyper
      if last + 1 < layerCount then
        match sendPrefillWork deployment self packet.requestId packet.sessionSlot (last + 1)
            (nextPrefillWork deployment self last work hyper) with
        | .error err => .error err
        | .ok sent => .ok ⟨blockLayers layer last, [], some sent⟩
      else
        let result : PrefillLayerResult :=
          { layer := UInt8.ofNat last
            sourceRank := UInt8.ofNat self
            destinationRank := 0
            firstToken := work.firstToken
            tokenCount := work.tokenCount
            hyper := hyper }
        match validatePrefillLayerResult result with
        | .error err => .error err
        | .ok () =>
          .ok ⟨blockLayers layer last, [], some ⟨self, 0, packet.requestId, packet.sessionSlot,
            ringSequence work.firstToken last, .result result⟩⟩

/-- A chunk under way: it lies in the prompt of the call that issued it and its slot is in use. -/
structure Chunk (deployment : Deployment) where
  promptFirst : Nat
  promptCount : Nat
  slots : Nat → RingSlot
  firstToken : UInt32
  tokenCount : UInt16
  positions : List UInt32
  hyper : List Binary32
  ngram : List Binary32
  prompt_le : promptFirst + promptCount ≤ deployment.maxContext
  tokenCount_range : 1 ≤ tokenCount.toNat ∧ tokenCount.toNat ≤ deployment.microbatch
  within : promptFirst ≤ firstToken.toNat ∧ firstToken.toNat + tokenCount.toNat ≤ promptFirst + promptCount
  held : (ringSlotFind slots firstToken.toNat tokenCount.toNat).isSome = true
  hyper_finite : firstNonFiniteAt hyper = none
  ngram_finite : firstNonFiniteAt ngram = none

variable {deployment}

def Chunk.call (chunk : Chunk deployment) : RingPrefill.Call where
  manifest := deployment.manifest
  microbatch := deployment.microbatch
  maxContext := deployment.maxContext
  sessionId := deployment.sessionId
  outputSession := deployment.sessionSlot
  firstToken := chunk.promptFirst
  tokenCount := chunk.promptCount
  hasEmbedding := true
  setup := .ok ()
  ringDecode := true
  microbatch_range := deployment.microbatch_range
  maxContext_le := deployment.maxContext_le

def Packet.incoming (packet : Packet PrefillMessage) : RingPrefill.Incoming :=
  { peer := packet.source
    requestId := packet.requestId
    sessionSlot := packet.sessionSlot
    sequence := packet.sequence
    body := match packet.message with
      | .work work => .prefillLayerWork (.ok work)
      | .result result => .prefillLayerResult (.ok result) }

/-- Layer work at rank 0 in ring prefill. Rank 0 has no n-gram rows for layer 1, and finishes the chunk itself
after the last layer. -/
def coordinatorPrefillWork (chunk : Chunk deployment) (packet : Packet PrefillMessage) (wire : PrefillLayerWork) :
    Except Error (Hop (Packet PrefillMessage)) :=
  match prefillLayerWorkDecode chunk.call.storage wire with
  | .error err => .error err
  | .ok work =>
    let layer := work.layer.toNat
    let last := blockEnd deployment.manifest 0 layer
    if ¬ WorkRouted chunk.call packet.incoming work then .error ⟨.mismatch, "misrouted ring layer work"⟩
    else match ringSlotFind chunk.slots work.firstToken.toNat work.tokenCount.toNat with
      | none => .error ⟨.mismatch, "ring work does not match an in-flight chunk"⟩
      | some _ =>
        if layer ≤ 1 ∧ 1 ≤ last then
          .error ⟨.mismatch, "layer-1 batched PLE embedding presence mismatch"⟩
        else if last + 1 < layerCount then
          match sendPrefillWork deployment 0 deployment.sessionId deployment.sessionSlot (last + 1)
              (nextPrefillWork deployment 0 last work (deployment.prefillBlock 0 layer work.hyper)) with
          | .error err => .error err
          | .ok sent => .ok ⟨blockLayers layer last, [], some sent⟩
        else .ok ⟨blockLayers layer last, [], none⟩

def coordinatorPrefillResult (chunk : Chunk deployment) (packet : Packet PrefillMessage)
    (wire : PrefillLayerResult) : Except Error (Hop (Packet PrefillMessage)) :=
  match prefillLayerResultDecode chunk.call.storage wire with
  | .error err => .error err
  | .ok result =>
    if ¬ ResultRouted chunk.call packet.incoming result then .error ⟨.mismatch, "misrouted ring result"⟩
    else match ringSlotFind chunk.slots result.firstToken.toNat result.tokenCount.toNat with
      | none => .error ⟨.mismatch, "ring result does not match an in-flight chunk"⟩
      | some _ => .ok ⟨[], [], none⟩

/-- The rank a packet is addressed to takes it. A worker knows no results. -/
def receivePrefill (chunk : Chunk deployment) (packet : Packet PrefillMessage) :
    Except Error (Hop (Packet PrefillMessage)) :=
  let self := packet.destination
  match packet.message with
  | .work work =>
    if self = 0 then coordinatorPrefillWork chunk packet work
    else handlePrefillLayerWork deployment self packet work
  | .result result =>
    if self = 0 then coordinatorPrefillResult chunk packet result
    else .error ⟨.format, s!"rank {self} received unsupported message 16"⟩

def Chunk.work (chunk : Chunk deployment) : PrefillLayerWork where
  layer := 0
  sourceRank := 0
  destinationRank := UInt8.ofNat (deployment.manifest.layerOwner 0)
  flags := layerWorkHasNgram
  positionMode := .text
  firstToken := chunk.firstToken
  tokenCount := chunk.tokenCount
  positions := chunk.positions
  hyper := chunk.hyper
  ngramEmbeddings := some chunk.ngram

def Chunk.packet (chunk : Chunk deployment) : Packet PrefillMessage where
  source := 0
  destination := deployment.manifest.layerOwner 0
  requestId := deployment.sessionId
  sessionSlot := deployment.sessionSlot
  sequence := ringSequence chunk.firstToken 0
  message := .work chunk.work

/-- The way of a chunk round the ring; one hop more than there are layers is enough. -/
def prefillTrace (chunk : Chunk deployment) : Trace (Packet PrefillMessage) Error :=
  Relay.run fabricSend (receivePrefill chunk) (layerCount + 1) chunk.packet

end Prefill

section Decode

variable (deployment : Deployment)

inductive DecodeMessage where
  | work (work : LayerWork)
  | result (result : LayerResult)
  | outputHidden (result : LayerResult)
  | outputSlice (result : LayerResult)
  | outputSliceHidden (sourceRank destinationRank : Nat) (tokenIndex : UInt32)

/-- `fg_output_owner_rank`. -/
def outputOwnerRank : Nat := 4

/-- `FG_OUTPUT_SPLIT_WAYS_MIN` and `FG_OUTPUT_SPLIT_WAYS_MAX`. -/
def outputSplitWaysMin : Nat := 2

def outputSplitWaysMax : Nat := 4

/-- `fg_output_split_rank` for the four ways. -/
def outputSplitRanks : List Nat := [4, 0, 1, 2]

def decodeDirectOutputEligible (manifest : Manifest) : Bool :=
  outputOwnerRank ≠ 0 ∧ manifest.layerOwner (layerCount - 1) ≠ 0 ∧
    outputOwnerRank ≠ manifest.layerOwner (layerCount - 1)

def sendDecodeWork (self : Nat) (requestId : UInt64) (sessionSlot layer : Nat) (work : LayerWork) :
    Except Error (Packet DecodeMessage) :=
  match validateLayerWork work with
  | .error err => .error err
  | .ok () =>
    .ok ⟨self, deployment.manifest.layerOwner layer, requestId, sessionSlot,
      ringSequence work.tokenIndex layer, .work work⟩

/-- `worker_decode_output` after the last layer: the hidden row goes to the output owner, as one message or in
slices, or back to rank 0. -/
def workerDecodeOutput (self : Nat) (packet : Packet DecodeMessage) (work : LayerWork) (first last : Nat)
    (hyper : Vector Binary32 hyperWidth) : Except Error (Hop (Packet DecodeMessage)) :=
  let direct := decodeDirectOutputEligible deployment.manifest && outputOwnerRank ≠ self
  let split := direct && work.flags &&& layerWorkFlagOutput4wayGreedy ≠ 0
  let skipHidden := split && deployment.outputSplitWays = outputSplitWaysMax
  let destination := if direct then outputOwnerRank else 0
  let result : LayerResult :=
    { layer := UInt8.ofNat last
      sourceRank := UInt8.ofNat self
      destinationRank := UInt8.ofNat destination
      tokenIndex := work.tokenIndex
      hyper := hyper }
  let address (destination : Nat) (message : DecodeMessage) : Packet DecodeMessage :=
    ⟨self, destination, packet.requestId, packet.sessionSlot, ringSequence work.tokenIndex last, message⟩
  -- the row that goes out in slices only is never encoded whole
  match if skipHidden then .ok () else validateLayerResult result with
  | .error err => .error err
  | .ok () =>
    if direct then
      let hidden := if skipHidden then [] else [address outputOwnerRank (.outputHidden result)]
      let slices :=
        if split ∧ deployment.outputSplitWays = outputSplitWaysMin then [address 0 (.outputSlice result)]
        else if split ∧ deployment.outputSplitWays = outputSplitWaysMax then
          (outputSplitRanks.filter (· ≠ self)).map fun rank =>
            address rank (.outputSliceHidden self rank work.tokenIndex)
        else []
      .ok ⟨blockLayers first last, hidden ++ slices, none⟩
    else .ok ⟨blockLayers first last, [], some (address 0 (.result result))⟩

def DecodeStale (self : Nat) (packet : Packet DecodeMessage) (work : LayerWork) : Prop :=
  deployment.sessionId = 0 ∨ packet.requestId ≠ deployment.sessionId ∨
    packet.source ≠ work.sourceRank.toNat ∨ work.destinationRank.toNat ≠ self ∨
    layerCount ≤ work.layer.toNat ∨ deployment.manifest.layerOwner work.layer.toNat ≠ self ∨
    (0 < work.layer.toNat ∧ deployment.manifest.layerOwner (work.layer.toNat - 1) = self) ∨
    ¬ (work.layer.toNat ≤ 1 ↔ work.flags &&& layerWorkHasNgram ≠ 0) ∨
    packet.sequence ≠ ringSequence work.tokenIndex work.layer.toNat

instance (self : Nat) (packet : Packet DecodeMessage) (work : LayerWork) :
    Decidable (DecodeStale deployment self packet work) := by
  unfold DecodeStale
  infer_instance

def nextLayerWork (self last : Nat) (work : LayerWork) (hyper : Vector Binary32 hyperWidth) : LayerWork where
  layer := UInt8.ofNat (last + 1)
  sourceRank := UInt8.ofNat self
  destinationRank := UInt8.ofNat (deployment.manifest.layerOwner (last + 1))
  flags := work.flags &&& layerWorkFlagOutput4wayGreedy
  positionMode := .text
  tokenIndex := work.tokenIndex
  position := #v[work.position.get 0, work.position.get 1, work.position.get 2, 0]
  hyper := hyper
  ngramEmbedding := Vector.replicate ngramEmbedValues ⟨0⟩

def validateBlockHidden (rank token throughLayer : Nat) (row : Vector Binary32 hyperWidth) : Except Error Unit :=
  match firstNonFinite row with
  | some i => .error ⟨.format, s!"rank {rank} decode block through layer {throughLayer} token {token} " ++
      s!"produced non-finite hidden at element {i}"⟩
  | none => .ok ()

def handleDecodeLayerWork (self : Nat) (packet : Packet DecodeMessage) (work : LayerWork) :
    Except Error (Hop (Packet DecodeMessage)) :=
  match validateLayerWork work with
  | .error err => .error err
  | .ok () =>
    let layer := work.layer.toNat
    let last := blockEnd deployment.manifest self layer
    if DecodeStale deployment self packet work then
      .error ⟨.mismatch, "stale or misrouted decode layer work"⟩
    else if work.flags &&& layerWorkHasNgram ≠ 0 ∧ deployment.hasNgramStorage self = false then
      .error ⟨.mismatch, s!"rank {self} has no decode n-gram storage"⟩
    else
      let hyper := deployment.decodeBlock self layer 0 work.hyper
      match validateBlockHidden self work.tokenIndex.toNat last hyper with
      | .error err => .error err
      | .ok () =>
        if last + 1 < layerCount then
          match sendDecodeWork deployment self packet.requestId packet.sessionSlot (last + 1)
              (nextLayerWork deployment self last work hyper) with
          | .error err => .error err
          | .ok sent => .ok ⟨blockLayers layer last, [], some sent⟩
        else workerDecodeOutput deployment self packet work layer last hyper

/-- A token to decode, with the row of its embedding and the n-gram row that its lookup answered; `greedy`
says that the output may be split. -/
structure Token (deployment : Deployment) where
  tokenIndex : UInt32
  position : UInt32
  greedy : Bool
  hyper : Vector Binary32 hyperWidth
  ngram : Vector Binary32 ngramEmbedValues
  hyper_finite : firstNonFinite hyper = none
  ngram_finite : firstNonFinite ngram = none

variable {deployment}

/-- Layer work at rank 0 in ring decode. Rank 0 passes no n-gram row to its block. -/
def coordinatorDecodeWork (token : Token deployment) (packet : Packet DecodeMessage) (work : LayerWork) :
    Except Error (Hop (Packet DecodeMessage)) :=
  match validateLayerWork work with
  | .error err => .error err
  | .ok () =>
    let layer := work.layer.toNat
    let last := blockEnd deployment.manifest 0 layer
    if work.destinationRank ≠ 0 ∨ deployment.manifest.layerOwner layer ≠ 0 ∨
        packet.source ≠ work.sourceRank.toNat ∨
        (0 < layer ∧ packet.source ≠ deployment.manifest.layerOwner (layer - 1)) ∨
        (0 < layer ∧ deployment.manifest.layerOwner (layer - 1) = 0) ∨
        packet.requestId ≠ deployment.sessionId ∨
        packet.sequence ≠ ringSequence work.tokenIndex layer ∨ work.tokenIndex ≠ token.tokenIndex then
      .error ⟨.mismatch, "misrouted ring decode layer work"⟩
    else if layer ≤ 1 then
      .error ⟨.argument,
        if deployment.chainEligible 0 layer last then "invalid chained owner decode block arguments"
        else "invalid owner decode block arguments"⟩
    else
      let hyper := deployment.decodeBlock 0 layer 0 work.hyper
      match validateBlockHidden 0 work.tokenIndex.toNat last hyper with
      | .error err => .error err
      | .ok () =>
        if last + 1 < layerCount then
          match sendDecodeWork deployment 0 deployment.sessionId deployment.sessionSlot (last + 1)
              (nextLayerWork deployment 0 last work hyper) with
          | .error err => .error err
          | .ok sent => .ok ⟨blockLayers layer last, [], some sent⟩
        else
          let result : LayerResult := ⟨UInt8.ofNat last, 0, 0, work.tokenIndex, hyper⟩
          match validateLayerResult result with
          | .error err => .error err
          | .ok () =>
            .ok ⟨blockLayers layer last, [], some ⟨0, 0, deployment.sessionId, deployment.sessionSlot,
              ringSequence work.tokenIndex last, .result result⟩⟩

def coordinatorDecodeResult (token : Token deployment) (packet : Packet DecodeMessage) (result : LayerResult) :
    Except Error (Hop (Packet DecodeMessage)) :=
  if decodeDirectOutputEligible deployment.manifest then
    .error ⟨.mismatch, "unexpected ring decode message type 45"⟩
  else match validateLayerResult result with
    | .error err => .error err
    | .ok () =>
      if result.destinationRank ≠ 0 ∨
          result.sourceRank.toNat ≠ deployment.manifest.layerOwner (layerCount - 1) ∨
          result.sourceRank.toNat ≠ packet.source ∨ packet.requestId ≠ deployment.sessionId ∨
          packet.sequence ≠ ringSequence result.tokenIndex result.layer.toNat ∨
          result.tokenIndex ≠ token.tokenIndex ∨ result.layer.toNat ≠ layerCount - 1 then
        .error ⟨.mismatch, "misrouted ring decode result"⟩
      else .ok ⟨[], [], none⟩

/-- The rank a packet is addressed to takes it. What leaves the ring is no matter of the relay. -/
def receiveDecode (token : Token deployment) (packet : Packet DecodeMessage) :
    Except Error (Hop (Packet DecodeMessage)) :=
  let self := packet.destination
  match packet.message with
  | .work work =>
    if self = 0 then coordinatorDecodeWork token packet work
    else handleDecodeLayerWork deployment self packet work
  | .result result =>
    if self = 0 then coordinatorDecodeResult token packet result
    else .error ⟨.format, s!"rank {self} received unsupported message 45"⟩
  | _ => .ok ⟨[], [], none⟩

def Token.work (token : Token deployment) : LayerWork where
  layer := 0
  sourceRank := 0
  destinationRank := UInt8.ofNat (deployment.manifest.layerOwner 0)
  flags :=
    if decodeDirectOutputEligible deployment.manifest && token.greedy then
      layerWorkHasNgram ||| layerWorkFlagOutput4wayGreedy
    else layerWorkHasNgram
  positionMode := .text
  tokenIndex := token.tokenIndex
  position := #v[token.position, token.position, token.position, 0]
  hyper := token.hyper
  ngramEmbedding := token.ngram

def Token.packet (token : Token deployment) : Packet DecodeMessage where
  source := 0
  destination := deployment.manifest.layerOwner 0
  requestId := deployment.sessionId
  sessionSlot := deployment.sessionSlot
  sequence := ringSequence token.tokenIndex 0
  message := .work token.work

def decodeTrace (token : Token deployment) : Trace (Packet DecodeMessage) Error :=
  Relay.run fabricSend (receiveDecode token) (layerCount + 1) token.packet

end Decode

section Batch

variable (deployment : Deployment)

inductive BatchMessage where
  | work (work : BatchWork)
  | result (result : BatchResult)

def firstTokenIndex (slots : List SlotWork) : UInt32 := (slots.head?.map SlotWork.tokenIndex).getD 0

def BatchStale (self : Nat) (packet : Packet BatchMessage) (work : BatchWork) : Prop :=
  deployment.sessionId = 0 ∨ packet.requestId ≠ deployment.sessionId ∨
    packet.source ≠ work.sourceRank.toNat ∨ work.destinationRank.toNat ≠ self ∨
    layerCount ≤ work.layer.toNat ∨ deployment.manifest.layerOwner work.layer.toNat ≠ self ∨
    (0 < work.layer.toNat ∧ deployment.manifest.layerOwner (work.layer.toNat - 1) = self) ∨
    ¬ (work.layer.toNat ≤ 1 ↔ work.flags &&& layerWorkHasNgram ≠ 0) ∨ work.positionMode ≠ .text ∨
    packet.sequence ≠ ringSequence (firstTokenIndex work.slots) work.layer.toNat

instance (self : Nat) (packet : Packet BatchMessage) (work : BatchWork) :
    Decidable (BatchStale deployment self packet work) := by
  unfold BatchStale
  infer_instance

/-- The block of `self` run on one slot; a slot that passed the decoder has its row. -/
def runSlot (self layer : Nat) (entry : SlotWork) : SlotWork :=
  { entry with
    hyper := entry.hyper.map (deployment.decodeBlock self layer entry.stateSlot)
    ngramEmbedding := none }

def slotResult (entry : SlotWork) : SlotResult :=
  ⟨entry.tokenIndex, entry.hyper.getD (Vector.replicate hyperWidth ⟨0⟩)⟩

/-- The loop over the slots as far as it can fail: every row that a block leaves is finite. -/
def validateRanSlots (self last : Nat) : List SlotWork → Except Error Unit
  | [] => .ok ()
  | entry :: rest =>
    match validateBlockHidden self entry.tokenIndex.toNat last (slotResult entry).hyper with
    | .error err => .error err
    | .ok () => validateRanSlots self last rest

/-- `handle_decode_batch_work`, which rank 0 runs for its own blocks too. -/
def handleDecodeBatchWork (self : Nat) (packet : Packet BatchMessage) (work : BatchWork) :
    Except Error (Hop (Packet BatchMessage)) :=
  match validateDecodeBatchWork work with
  | .error err => .error err
  | .ok () =>
    let layer := work.layer.toNat
    let last := blockEnd deployment.manifest self layer
    if BatchStale deployment self packet work then
      .error ⟨.mismatch, "stale or misrouted decode batch work"⟩
    else if work.flags &&& layerWorkHasNgram ≠ 0 ∧ deployment.hasNgramStorage self = false then
      .error ⟨.argument, "invalid Vulkan tensor write"⟩
    else
      let slots := work.slots.map (runSlot deployment self layer)
      match validateRanSlots self last slots with
      | .error err => .error err
      | .ok () =>
        if last + 1 < layerCount then
          let forward : BatchWork :=
            { work with
              layer := UInt8.ofNat (last + 1)
              sourceRank := UInt8.ofNat self
              destinationRank := UInt8.ofNat (deployment.manifest.layerOwner (last + 1))
              flags := 0
              slots := slots }
          match validateDecodeBatchWork forward with
          | .error err => .error err
          | .ok () =>
            .ok ⟨blockLayers layer last, [], some ⟨self, deployment.manifest.layerOwner (last + 1),
              packet.requestId, packet.sessionSlot,
              ringSequence (firstTokenIndex work.slots) (last + 1), .work forward⟩⟩
        else
          let result : BatchResult := ⟨UInt8.ofNat last, UInt8.ofNat self, 0, 0, slots.map slotResult⟩
          match validateDecodeBatchResult result with
          | .error err => .error err
          | .ok () =>
            .ok ⟨blockLayers layer last, [], some ⟨self, 0, packet.requestId, packet.sessionSlot,
              ringSequence (firstTokenIndex work.slots) last, .result result⟩⟩

/-- The first message of a batch: rank 0 to the owner of layer 0, with the n-gram rows of every slot. -/
def issuedBatch (slots : List SlotWork) : BatchWork where
  layer := 0
  sourceRank := 0
  destinationRank := UInt8.ofNat (deployment.manifest.layerOwner 0)
  flags := layerWorkHasNgram
  positionMode := .text
  slots := slots

structure DecodeStep (deployment : Deployment) where
  slots : List SlotWork
  encoded : validateDecodeBatchWork (issuedBatch deployment slots) = .ok ()

variable {deployment}

def coordinatorBatchWork (packet : Packet BatchMessage) (work : BatchWork) : Except Error (Hop (Packet BatchMessage)) :=
  match validateDecodeBatchWork work with
  | .error err => .error err
  | .ok () =>
    if work.destinationRank ≠ 0 ∨ packet.source ≠ work.sourceRank.toNat then
      .error ⟨.mismatch, "misrouted decode batch work at rank 0"⟩
    else handleDecodeBatchWork deployment 0 packet work

def coordinatorBatchResult (step : DecodeStep deployment) (packet : Packet BatchMessage) (result : BatchResult) :
    Except Error (Hop (Packet BatchMessage)) :=
  match validateDecodeBatchResult result with
  | .error err => .error err
  | .ok () =>
    if result.destinationRank ≠ 0 ∨ result.layer.toNat ≠ layerCount - 1 ∨
        result.sourceRank.toNat ≠ deployment.manifest.layerOwner (layerCount - 1) ∨
        result.sourceRank.toNat ≠ packet.source ∨ packet.requestId ≠ deployment.sessionId ∨
        result.slots.length ≠ step.slots.length ∨
        packet.sequence ≠ ringSequence (firstTokenIndex step.slots) (layerCount - 1) then
      .error ⟨.mismatch, "misrouted decode batch result"⟩
    else .ok ⟨[], [], none⟩

def receiveBatch (step : DecodeStep deployment) (packet : Packet BatchMessage) :
    Except Error (Hop (Packet BatchMessage)) :=
  let self := packet.destination
  match packet.message with
  | .work work =>
    if self = 0 then @coordinatorBatchWork deployment packet work
    else handleDecodeBatchWork deployment self packet work
  | .result result =>
    if self = 0 then coordinatorBatchResult step packet result
    else .error ⟨.format, s!"rank {self} received unsupported message 52"⟩

def DecodeStep.packet (step : DecodeStep deployment) : Packet BatchMessage where
  source := 0
  destination := deployment.manifest.layerOwner 0
  requestId := deployment.sessionId
  sessionSlot := deployment.sessionSlot
  sequence := ringSequence (firstTokenIndex step.slots) 0
  message := .work (issuedBatch deployment step.slots)

def batchTrace (step : DecodeStep deployment) : Trace (Packet BatchMessage) Error :=
  Relay.run fabricSend (receiveBatch step) (layerCount + 1) step.packet

end Batch

end FlashGordon.RingHop
