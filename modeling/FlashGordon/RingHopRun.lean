import FlashGordon.RingHop

/-! The hop contract of the layer ring, and the way of a prefill chunk. When one rank owns the first two
layers, the chain of a chunk passes every check on its way, and the blocks run are the layers in order,
wherever the blocks of rank 0 fall. -/

namespace FlashGordon.RingHop

open DecodeBatch Prefill Relay RingWire RingPrefill

/-- One rank owns the first two layers. -/
abbrev Deployment.FirstTogether (deployment : Deployment) : Prop :=
  deployment.manifest.layerOwner 1 = deployment.manifest.layerOwner 0

variable {deployment : Deployment}

/-- The chain of messages of a ring pass does what it should: every message is accepted by its receiver, none
goes from a rank to itself, and the blocks run are the layers, each once and in order. -/
structure Contract {Message : Type} (trace : Trace (Packet Message) Error) : Prop where
  accepted : trace.status = some (.ok ())
  noSelf : ∀ packet ∈ trace.sent, packet.source ≠ packet.destination
  inOrder : trace.executed = List.range layerCount

variable {Message : Type}

theorem fabricSend_ok {packet : Packet Message} :
    fabricSend packet = .ok () ↔ packet.destination < rankCount ∧ packet.source ≠ packet.destination := by
  rw [fabricSend]
  split
  next hbad =>
    constructor
    · intro h
      cases h
    · rintro ⟨hlt, hne⟩
      rcases hbad with hle | heq
      · exact absurd hlt (not_lt.mpr hle)
      · exact absurd heq.symm hne
  next hgood =>
    obtain ⟨hlt, hne⟩ := not_or.mp hgood
    exact ⟨fun _ => ⟨not_le.mp hlt, fun heq => hne heq.symm⟩, fun _ => rfl⟩

theorem Contract.of_completes {trace : Trace (Packet Message) Error}
    (h : Completes fabricSend (List.range' 0 (layerCount - 0)) trace) : Contract trace where
  accepted := h.ended
  noSelf packet hmem := (fabricSend_ok.mp (h.carried packet hmem)).2
  inOrder := h.executed

theorem Deployment.owner_lt (deployment : Deployment) {layer : Nat} (hlayer : layer < layerCount) :
    deployment.manifest.layerOwner layer < rankCount :=
  validateLayer_owner (validateTopology_layer deployment.topology hlayer)

theorem toNat_ofNat_rank {rank : Nat} (h : rank < rankCount) : (UInt8.ofNat rank).toNat = rank :=
  UInt8.toNat_ofNat_of_lt' (h.trans (by decide))

theorem toNat_ofNat_layer {layer : Nat} (h : layer < layerCount) : (UInt8.ofNat layer).toNat = layer :=
  UInt8.toNat_ofNat_of_lt' (h.trans (by decide))

/-- The address of a packet that starts the block at `layer`. A block after the first starts beyond layer 1. -/
structure Addressed {Message : Type} (deployment : Deployment) (layer : Nat) (packet : Packet Message) : Prop where
  lt : layer < layerCount
  starts : layer = 0 ∨
    (2 ≤ layer ∧ deployment.manifest.layerOwner (layer - 1) ≠ deployment.manifest.layerOwner layer)
  source_eq : packet.source = if layer = 0 then 0 else deployment.manifest.layerOwner (layer - 1)
  destination_eq : packet.destination = deployment.manifest.layerOwner layer
  requestId_eq : packet.requestId = deployment.sessionId
  sessionSlot_eq : packet.sessionSlot = deployment.sessionSlot

namespace Addressed

variable {Message : Type} {layer : Nat} {packet : Packet Message}

section

variable (h : Addressed deployment layer packet)
include h

theorem source_ne : packet.source ≠ packet.destination := by
  rw [h.source_eq, h.destination_eq]
  rcases h.starts with rfl | ⟨hlayer, hne⟩
  · rw [if_pos rfl]
    exact deployment.remote.symm
  · rw [if_neg (by omega)]
    exact hne

theorem sends : fabricSend packet = .ok () :=
  fabricSend_ok.mpr ⟨h.destination_eq ▸ deployment.owner_lt h.lt, h.source_ne⟩

theorem self_lt : packet.destination < rankCount := h.destination_eq ▸ deployment.owner_lt h.lt

theorem source_lt : packet.source < rankCount := by
  rw [h.source_eq]
  split
  · decide
  · exact deployment.owner_lt (Nat.lt_of_le_of_lt (Nat.sub_le _ _) h.lt)

theorem last_eq (hmore : ¬ blockEnd deployment.manifest packet.destination layer + 1 < layerCount) :
    blockEnd deployment.manifest packet.destination layer = layerCount - 1 := by
  have hlt : blockEnd deployment.manifest packet.destination layer < layerCount := blockEnd_lt h.lt
  omega

theorem later_of_home (hself : packet.destination = 0) : 2 ≤ layer := by
  rcases h.starts with rfl | ⟨hlater, -⟩
  · exact absurd (h.destination_eq.symm.trans hself) deployment.remote
  · exact hlater

theorem block (hfirst : deployment.FirstTogether) :
    layer ≤ blockEnd deployment.manifest packet.destination layer ∧
      1 ≤ blockEnd deployment.manifest packet.destination layer ∧
      blockEnd deployment.manifest packet.destination layer < layerCount ∧
      deployment.manifest.layerOwner (blockEnd deployment.manifest packet.destination layer) =
        packet.destination := by
  have hle : layer ≤ blockEnd deployment.manifest packet.destination layer := le_blockEnd
  refine ⟨hle, ?_, blockEnd_lt h.lt, blockEnd_owned h.destination_eq.symm hle (Nat.le_refl _)⟩
  rcases h.starts with rfl | ⟨hlayer, -⟩
  · exact lt_blockEnd (by decide) (by rw [h.destination_eq]; exact hfirst)
  · omega

theorem next {Other : Type} {after : Packet Other}
    (hfirst : deployment.FirstTogether) {last : Nat}
    (hlast : last = blockEnd deployment.manifest packet.destination layer) (hmore : last + 1 < layerCount)
    (hsource : after.source = packet.destination)
    (hdestination : after.destination = deployment.manifest.layerOwner (last + 1))
    (hrequest : after.requestId = deployment.sessionId) (hslot : after.sessionSlot = deployment.sessionSlot) :
    Addressed deployment (last + 1) after := by
  subst hlast
  obtain ⟨-, hone, -, howner⟩ := h.block hfirst
  constructor
  · exact hmore
  · refine .inr ⟨by omega, ?_⟩
    rw [Nat.add_sub_cancel, howner]
    exact (blockEnd_maximal hmore).symm
  · rw [if_neg (Nat.succ_ne_zero _), Nat.add_sub_cancel, howner, hsource]
  · exact hdestination
  · exact hrequest
  · exact hslot

theorem serves {receive : Packet Message → Except Error (Hop (Packet Message))} {hop : Hop (Packet Message)}
    {At : Nat → Packet Message → Prop} {Final : Option (Packet Message) → Prop} {last : Nat}
    (hlast : last = blockEnd deployment.manifest packet.destination layer)
    (hreceive : receive packet = .ok hop) (hexecuted : hop.executed = blockLayers layer last)
    (houtputs : ∀ output ∈ hop.outputs, fabricSend output = .ok ())
    (hmore : last + 1 < layerCount → ∃ next, hop.next = some next ∧ At (last + 1) next)
    (hend : last + 1 = layerCount → Final hop.next) :
    Serves fabricSend receive layerCount At Final layer packet := by
  subst hlast
  exact ⟨h.sends, hop, _, hreceive, le_blockEnd, blockEnd_lt h.lt, hexecuted, houtputs, hmore, hend⟩

end

end Addressed

theorem sends_nil : ∀ output ∈ ([] : List (Packet Message)), fabricSend output = .ok () :=
  fun _ hmem => absurd hmem List.not_mem_nil

section Prefill

variable {chunk : Chunk deployment} {layer : Nat} {packet : Packet PrefillMessage} {work : PrefillLayerWork}

/-- The work of the chunk at a block start: only the first block gets the n-gram rows. -/
structure ChunkWork (chunk : Chunk deployment) (layer : Nat) (packet : Packet PrefillMessage)
    (work : PrefillLayerWork) : Prop where
  layer_eq : work.layer.toNat = layer
  source_eq : work.sourceRank.toNat = packet.source
  destination_eq : work.destinationRank.toNat = packet.destination
  flags_eq : work.flags = if layer = 0 then layerWorkHasNgram else 0
  mode_eq : work.positionMode = .text
  firstToken_eq : work.firstToken = chunk.firstToken
  tokenCount_eq : work.tokenCount = chunk.tokenCount
  hyper_finite : firstNonFiniteAt work.hyper = none
  ngram_eq : layer = 0 → work.ngramEmbeddings = some chunk.ngram

structure PrefillAt (chunk : Chunk deployment) (layer : Nat) (packet : Packet PrefillMessage) : Prop extends
    Addressed deployment layer packet where
  sequence_eq : packet.sequence = ringSequence chunk.firstToken layer
  message_eq : ∃ work, packet.message = .work work ∧ ChunkWork chunk layer packet work

theorem flags_ngram_iff {flags : UInt8} (h : flags = if layer = 0 then layerWorkHasNgram else 0) :
    flags &&& layerWorkHasNgram ≠ 0 ↔ layer = 0 := by
  rw [h]
  split
  next hzero =>
    exact ⟨fun _ => hzero, fun _ => by decide⟩
  next hne =>
    exact ⟨fun hflag => absurd (by decide) hflag, fun hzero => absurd hzero hne⟩

theorem ChunkWork.flags_ngram (h : ChunkWork chunk layer packet work) :
    work.flags &&& layerWorkHasNgram ≠ 0 ↔ layer = 0 := flags_ngram_iff h.flags_eq

theorem Chunk.tokenCount_le (chunk : Chunk deployment) : chunk.tokenCount.toNat ≤ prefillMaxTokens :=
  chunk.tokenCount_range.2.trans deployment.microbatch_range.2

theorem Chunk.tokenCount_ne (chunk : Chunk deployment) : chunk.tokenCount ≠ 0 := by
  intro hzero
  have hpos := chunk.tokenCount_range.1
  rw [hzero] at hpos
  exact absurd hpos (by decide)

theorem ChunkWork.valid (h : ChunkWork chunk layer packet work) (haddressed : Addressed deployment layer packet) :
    validatePrefillLayerWork work = .ok () := by
  have hheader : ¬ work.HeaderInvalid := by
    rw [PrefillLayerWork.HeaderInvalid, h.flags_ngram, h.layer_eq, h.source_eq, h.destination_eq, h.tokenCount_eq]
    rintro (hlayer | hsource | hdestination | hflags | ⟨hzero, hlater⟩ | hnone | hmany | ⟨hzero, hmissing⟩)
    · exact absurd haddressed.lt (not_lt.mpr hlayer)
    · exact absurd haddressed.source_lt (not_lt.mpr hsource)
    · rw [haddressed.destination_eq] at hdestination
      exact absurd (deployment.owner_lt haddressed.lt) (not_lt.mpr hdestination)
    · rw [h.flags_eq] at hflags
      split at hflags
      · exact absurd (by decide) hflags
      · exact absurd (by decide) hflags
    · rw [UInt8.lt_iff_toNat_lt, h.layer_eq, hzero] at hlater
      exact absurd hlater (Nat.not_lt_zero _)
    · exact chunk.tokenCount_ne hnone
    · exact absurd chunk.tokenCount_le (not_le.mpr hmany)
    · rw [h.ngram_eq hzero] at hmissing
      cases hmissing
  rw [validatePrefillLayerWork, if_neg hheader, h.hyper_finite]
  dsimp only
  split
  · rfl
  next hflag =>
    rw [h.ngram_eq (h.flags_ngram.mp hflag), Option.getD_some, chunk.ngram_finite]

theorem ChunkWork.decodes (h : ChunkWork chunk layer packet work) (haddressed : Addressed deployment layer packet)
    {storage : Bool} (hstorage : layer = 0 → storage = true) :
    prefillLayerWorkDecode ⟨deployment.microbatch, storage⟩ work = .ok work := by
  have htokens := chunk.tokenCount_range
  have hmax := chunk.tokenCount_le
  have hfits : ¬ (work.tokenCount.toNat = 0 ∨ prefillMaxTokens < work.tokenCount.toNat ∨
      deployment.microbatch * 3 < work.tokenCount.toNat * positionAxes work.positionMode ∨
      deployment.microbatch < work.tokenCount.toNat ∨
      (work.flags &&& layerWorkHasNgram ≠ 0 ∧ storage = false)) := by
    rw [h.tokenCount_eq, h.mode_eq, h.flags_ngram, positionAxes]
    rintro (hzero | hmany | haxes | hrows | ⟨hzero, hnone⟩)
    · omega
    · omega
    · omega
    · omega
    · rw [hstorage hzero] at hnone
      cases hnone
  rw [prefillLayerWorkDecode, if_neg hfits, h.valid haddressed]
  rfl

structure PrefillDone (chunk : Chunk deployment) (packet : Packet PrefillMessage) : Prop where
  source_eq : packet.source = deployment.manifest.layerOwner (layerCount - 1)
  source_ne : packet.source ≠ 0
  destination_eq : packet.destination = 0
  requestId_eq : packet.requestId = deployment.sessionId
  sessionSlot_eq : packet.sessionSlot = deployment.sessionSlot
  sequence_eq : packet.sequence = ringSequence chunk.firstToken (layerCount - 1)
  message_eq : ∃ result, packet.message = .result result ∧ result.layer.toNat = layerCount - 1 ∧
    result.sourceRank.toNat = packet.source ∧ result.destinationRank = 0 ∧
    result.firstToken = chunk.firstToken ∧ result.tokenCount = chunk.tokenCount ∧
    firstNonFiniteAt result.hyper = none

/-- What the last block hands on: its result, or nothing when rank 0 ran it. -/
def PrefillFinal (chunk : Chunk deployment) (next : Option (Packet PrefillMessage)) : Prop :=
  next = none ∨ ∃ packet, next = some packet ∧ PrefillDone chunk packet

theorem Chunk.inPrompt (chunk : Chunk deployment) :
    RingPrefill.inPrompt chunk.call chunk.firstToken chunk.tokenCount := by
  refine ⟨chunk.within.1, ?_⟩
  have hwithin := chunk.within.2
  have hprompt := chunk.prompt_le
  have hcontext := deployment.maxContext_le
  have hsmall : FlashGordon.maxContext < 2 ^ 32 := by decide
  rw [UInt32.toNat_add, UInt16.toNat_toUInt32, Nat.mod_eq_of_lt (by omega)]
  exact hwithin

theorem Chunk.found (chunk : Chunk deployment) :
    ∃ f, ringSlotFind chunk.slots chunk.firstToken.toNat chunk.tokenCount.toNat = some f :=
  Option.isSome_iff_exists.mp chunk.held

variable {Message : Type}

theorem Addressed.storage {packet : Packet Message} (h : Addressed deployment layer packet)
    (hfirst : deployment.FirstTogether) (hzero : layer = 0) :
    deployment.hasNgramStorage packet.destination = true := by
  subst hzero
  rw [Deployment.hasNgramStorage, h.destination_eq]
  exact decide_eq_true hfirst

theorem Addressed.ngram_held {packet : Packet Message} (h : Addressed deployment layer packet)
    (hfirst : deployment.FirstTogether) {flags : UInt8} (hflags : flags &&& layerWorkHasNgram ≠ 0 ↔ layer = 0) :
    ¬ (flags &&& layerWorkHasNgram ≠ 0 ∧ deployment.hasNgramStorage packet.destination = false) := by
  rintro ⟨hflag, hstorage⟩
  rw [h.storage hfirst (hflags.mp hflag)] at hstorage
  cases hstorage

theorem PrefillAt.not_stale (h : PrefillAt chunk layer packet) (hwork : ChunkWork chunk layer packet work) :
    ¬ PrefillStale deployment packet.destination packet work := by
  rw [PrefillStale, hwork.layer_eq, hwork.source_eq, hwork.destination_eq, hwork.tokenCount_eq, hwork.firstToken_eq]
  rintro (hsession | hrequest | hsource | hdestination | hnone | hmany | hlayer | howner | hsequence)
  · exact deployment.sessionId_ne hsession
  · exact hrequest h.requestId_eq
  · exact hsource rfl
  · exact hdestination rfl
  · exact chunk.tokenCount_ne hnone
  · exact absurd chunk.tokenCount_range.2 (not_le.mpr hmany)
  · exact absurd h.lt (not_lt.mpr hlayer)
  · exact howner h.destination_eq.symm
  · exact hsequence h.sequence_eq

theorem Addressed.starts_block {packet : Packet Message} (h : Addressed deployment layer packet) :
    ¬ (0 < layer ∧ deployment.manifest.layerOwner (layer - 1) = packet.destination) := by
  rintro ⟨hpos, hsame⟩
  rcases h.starts with rfl | ⟨-, hne⟩
  · exact absurd hpos (Nat.lt_irrefl 0)
  · exact hne (hsame.trans h.destination_eq)

theorem Addressed.le_one_iff {packet : Packet Message} (h : Addressed deployment layer packet) :
    layer ≤ 1 ↔ layer = 0 := by
  have hstarts := h.starts
  omega

section

variable (h : PrefillAt chunk layer packet)
include h

theorem PrefillAt.forward (hwork : ChunkWork chunk layer packet work)
    (hfirst : deployment.FirstTogether) {last : Nat}
    (hlast : last = blockEnd deployment.manifest packet.destination layer) (hmore : last + 1 < layerCount)
    {hyper : List Binary32} (hfinite : firstNonFiniteAt hyper = none) :
    ∃ after, sendPrefillWork deployment packet.destination deployment.sessionId deployment.sessionSlot (last + 1)
      (nextPrefillWork deployment packet.destination last work hyper) = .ok after ∧
      PrefillAt chunk (last + 1) after := by
  have hat : PrefillAt chunk (last + 1) ⟨packet.destination, deployment.manifest.layerOwner (last + 1),
      deployment.sessionId, deployment.sessionSlot, ringSequence work.firstToken (last + 1),
      .work (nextPrefillWork deployment packet.destination last work hyper)⟩ := by
    refine ⟨h.next hfirst hlast hmore rfl rfl rfl rfl, by rw [hwork.firstToken_eq], _, rfl, ?_⟩
    constructor
    · exact toNat_ofNat_layer hmore
    · exact toNat_ofNat_rank h.self_lt
    · exact toNat_ofNat_rank (deployment.owner_lt hmore)
    · rw [if_neg (Nat.succ_ne_zero last)]
      rfl
    · rfl
    · exact hwork.firstToken_eq
    · exact hwork.tokenCount_eq
    · exact hfinite
    · exact fun hzero => absurd hzero (Nat.succ_ne_zero last)
  obtain ⟨next, hnext, hchunk⟩ := hat.message_eq
  cases hnext
  refine ⟨_, ?_, hat⟩
  rw [sendPrefillWork, hchunk.valid hat.toAddressed]
  rfl

theorem PrefillAt.worker_hop (hfirst : deployment.FirstTogether)
    (hworker : packet.destination ≠ 0) :
    Serves fabricSend (receivePrefill chunk) layerCount (PrefillAt chunk) (PrefillFinal chunk) layer packet := by
  obtain ⟨work, hmessage, hwork⟩ := h.message_eq
  obtain ⟨hle, hone, hlt, howner⟩ := h.block hfirst
  have hngram : ¬ (layer ≤ 1 ∧ 1 ≤ blockEnd deployment.manifest packet.destination layer ∧
      (work.flags &&& layerWorkHasNgram = 0 ∨ deployment.hasNgramStorage packet.destination = false)) := by
    rintro ⟨hsmall, -, hmissing⟩
    have hzero : layer = 0 := h.le_one_iff.mp hsmall
    rcases hmissing with hflag | hstorage
    · exact hwork.flags_ngram.mpr hzero hflag
    · rw [h.storage hfirst hzero] at hstorage
      cases hstorage
  have hreceive : receivePrefill chunk packet = handlePrefillLayerWork deployment packet.destination packet work := by
    rw [receivePrefill, hmessage]
    exact if_neg hworker
  rw [handlePrefillLayerWork, hwork.decodes h.toAddressed (h.storage hfirst)] at hreceive
  dsimp only at hreceive
  rw [if_neg (h.not_stale hwork), hwork.layer_eq, if_neg h.starts_block, if_neg hngram,
    h.requestId_eq, h.sessionSlot_eq] at hreceive
  by_cases hmore : blockEnd deployment.manifest packet.destination layer + 1 < layerCount
  · obtain ⟨after, hsent, hat⟩ := h.forward hwork hfirst rfl hmore (deployment.prefillBlock_finite _ _ _)
    rw [if_pos hmore, hsent] at hreceive
    exact h.serves rfl hreceive rfl sends_nil (fun _ => ⟨after, rfl, hat⟩)
      fun hend => absurd hmore (by omega)
  · have hend := h.last_eq hmore
    have hvalid : validatePrefillLayerResult
        { layer := UInt8.ofNat (layerCount - 1)
          sourceRank := UInt8.ofNat packet.destination
          destinationRank := 0
          firstToken := work.firstToken
          tokenCount := work.tokenCount
          hyper := deployment.prefillBlock packet.destination layer work.hyper } = .ok () := by
      rw [validatePrefillLayerResult, if_neg, deployment.prefillBlock_finite]
      rw [hwork.tokenCount_eq]
      rintro (hlayer | hsource | hdestination | hnone | hmany)
      · exact absurd (show layerCount ≤ (UInt8.ofNat (layerCount - 1)).toNat from hlayer) (by decide)
      · rw [toNat_ofNat_rank h.self_lt] at hsource
        exact absurd h.self_lt (not_lt.mpr hsource)
      · exact absurd (show rankCount ≤ (0 : UInt8).toNat from hdestination) (by decide)
      · exact chunk.tokenCount_ne hnone
      · exact absurd chunk.tokenCount_le (not_le.mpr hmany)
    rw [if_neg hmore, hend, hvalid] at hreceive
    apply h.serves hend.symm hreceive rfl sends_nil (fun hless => absurd hless (by decide))
    refine fun _ => .inr ⟨_, rfl, ?_⟩
    constructor
    · rw [← hend, howner]
    · exact hworker
    · rfl
    · rfl
    · rfl
    · rw [hwork.firstToken_eq]
    · exact ⟨_, rfl, toNat_ofNat_layer (by decide), toNat_ofNat_rank h.self_lt, rfl, hwork.firstToken_eq,
        hwork.tokenCount_eq, deployment.prefillBlock_finite _ _ _⟩

theorem PrefillAt.coordinator_hop (hfirst : deployment.FirstTogether)
    (hself : packet.destination = 0) :
    Serves fabricSend (receivePrefill chunk) layerCount (PrefillAt chunk) (PrefillFinal chunk) layer packet := by
  obtain ⟨work, hmessage, hwork⟩ := h.message_eq
  have howner : deployment.manifest.layerOwner layer = 0 := h.destination_eq.symm.trans hself
  have hlater := h.later_of_home hself
  have hrouted : WorkRouted chunk.call packet.incoming work := by
    refine ⟨?_, hwork.source_eq, ?_, fun _ => ?_, h.requestId_eq, h.sessionSlot_eq, ?_, ?_⟩
    · exact UInt8.toNat_inj.mp (hwork.destination_eq.trans hself)
    · rw [hwork.layer_eq]
      exact howner
    · rw [hwork.layer_eq]
      exact h.source_eq.trans (if_neg (by omega))
    · rw [hwork.firstToken_eq, hwork.layer_eq]
      exact h.sequence_eq
    · rw [hwork.firstToken_eq, hwork.tokenCount_eq]
      exact chunk.inPrompt
  have hreceive : receivePrefill chunk packet = coordinatorPrefillWork chunk packet work := by
    rw [receivePrefill, hmessage]
    exact if_pos hself
  have hdecodes : prefillLayerWorkDecode chunk.call.storage work = .ok work :=
    hwork.decodes h.toAddressed fun _ => rfl
  obtain ⟨f, hfound⟩ := chunk.found
  rw [coordinatorPrefillWork, hdecodes] at hreceive
  dsimp only at hreceive
  rw [if_neg (not_not.mpr hrouted), hwork.firstToken_eq, hwork.tokenCount_eq, hfound, hwork.layer_eq] at hreceive
  rw [if_neg fun hsmall => absurd hlater (by omega), ← hself] at hreceive
  by_cases hmore : blockEnd deployment.manifest packet.destination layer + 1 < layerCount
  · obtain ⟨after, hsent, hat⟩ := h.forward hwork hfirst rfl hmore (deployment.prefillBlock_finite _ _ _)
    rw [if_pos hmore, hsent] at hreceive
    exact h.serves rfl hreceive rfl sends_nil (fun _ => ⟨after, rfl, hat⟩)
      fun hend => absurd hmore (by omega)
  · rw [if_neg hmore] at hreceive
    exact h.serves rfl hreceive rfl sends_nil (fun hless => absurd hless hmore) fun _ => .inl rfl

end

theorem PrefillDone.accepted (h : PrefillDone chunk packet) :
    fabricSend packet = .ok () ∧ receivePrefill chunk packet = .ok ⟨[], [], none⟩ := by
  obtain ⟨result, hmessage, hlayer, hsource, hdestination, hfirst, hcount, hfinite⟩ := h.message_eq
  have hne : packet.source ≠ packet.destination := by
    rw [h.destination_eq]
    exact h.source_ne
  refine ⟨fabricSend_ok.mpr ⟨by rw [h.destination_eq]; decide, hne⟩, ?_⟩
  have hsourceLt : result.sourceRank.toNat < rankCount := by
    rw [hsource, h.source_eq]
    exact deployment.owner_lt (by decide)
  have hvalid : validatePrefillLayerResult result = .ok () := by
    rw [validatePrefillLayerResult, if_neg, hfinite]
    rw [hcount, hlayer, hdestination]
    rintro (hlayer | hsource | hdestination | hnone | hmany)
    · exact absurd hlayer (by decide)
    · exact absurd hsourceLt (not_lt.mpr hsource)
    · exact absurd hdestination (by decide)
    · exact chunk.tokenCount_ne hnone
    · exact absurd chunk.tokenCount_le (not_le.mpr hmany)
  have htokens := chunk.tokenCount_range
  have hmax := chunk.tokenCount_le
  have hdecodes : prefillLayerResultDecode chunk.call.storage result = .ok result := by
    rw [prefillLayerResultDecode, hcount, if_neg, hvalid]
    · rfl
    · rintro (hzero | hmany | hrows)
      · omega
      · omega
      · exact absurd htokens.2 (not_le.mpr hrows)
  have hrouted : ResultRouted chunk.call packet.incoming result := by
    refine ⟨hdestination, hsource, hsource.trans h.source_eq, h.requestId_eq, h.sessionSlot_eq, ?_, ?_⟩
    · rw [hfirst]
      exact h.sequence_eq
    · rw [hfirst, hcount]
      exact chunk.inPrompt
  obtain ⟨f, hfound⟩ := chunk.found
  have hreceive : receivePrefill chunk packet = coordinatorPrefillResult chunk packet result := by
    rw [receivePrefill, hmessage]
    exact if_pos h.destination_eq
  rw [hreceive, coordinatorPrefillResult, hdecodes]
  dsimp only
  rw [if_neg (not_not.mpr hrouted), hfirst, hcount, hfound]

theorem PrefillAt.serves (h : PrefillAt chunk layer packet)
    (hfirst : deployment.FirstTogether) :
    Serves fabricSend (receivePrefill chunk) layerCount (PrefillAt chunk) (PrefillFinal chunk) layer packet := by
  by_cases hself : packet.destination = 0
  · exact h.coordinator_hop hfirst hself
  · exact h.worker_hop hfirst hself

theorem Chunk.starts (chunk : Chunk deployment) : PrefillAt chunk 0 chunk.packet := by
  have haddressed : Addressed deployment 0 chunk.packet := ⟨by decide, .inl rfl, rfl, rfl, rfl, rfl⟩
  refine ⟨haddressed, rfl, chunk.work, rfl, ?_⟩
  exact ⟨rfl, rfl, toNat_ofNat_rank (deployment.owner_lt (by decide)), rfl, rfl, rfl, rfl, chunk.hyper_finite,
    fun _ => rfl⟩

theorem prefill_contract (chunk : Chunk deployment)
    (hfirst : deployment.FirstTogether) :
    Contract (prefillTrace chunk) := by
  apply Contract.of_completes
  apply run_completes (fun _ _ _ hat => PrefillAt.serves hat hfirst) _ (by decide) (by decide) chunk.starts
  rintro packet (hnone | ⟨final, hfinal, hdone⟩)
  · cases hnone
  · cases hfinal
    exact hdone.accepted

theorem prefill_refused (chunk : Chunk deployment)
    (hfirst : deployment.manifest.layerOwner 1 ≠ deployment.manifest.layerOwner 0) :
    ¬ Contract (prefillTrace chunk) := by
  intro hcontract
  have hstorage : deployment.hasNgramStorage (deployment.manifest.layerOwner 0) = false := decide_eq_false hfirst
  have hreceive : receivePrefill chunk chunk.packet =
      .error ⟨.format, "invalid prefill layer work size, reserved bytes, or storage capacity"⟩ := by
    calc receivePrefill chunk chunk.packet
        = handlePrefillLayerWork deployment (deployment.manifest.layerOwner 0) chunk.packet chunk.work :=
          if_neg deployment.remote
      _ = _ := by
          rw [handlePrefillLayerWork, hstorage, prefillLayerWorkDecode, if_pos]
          have hflag : chunk.work.flags &&& layerWorkHasNgram ≠ 0 :=
            show layerWorkHasNgram &&& layerWorkHasNgram ≠ 0 by decide
          exact .inr (.inr (.inr (.inr ⟨hflag, rfl⟩)))
  have haccepted := hcontract.accepted
  rw [prefillTrace, run_rejected layerCount chunk.starts.toAddressed.sends hreceive] at haccepted
  cases haccepted

end Prefill

end FlashGordon.RingHop
