import FlashGordon.RingHopRun

/-! The way of a decoded token round the ring. It keeps the hop contract unless rank 0 owns the last layer:
then rank 0 sends its result to itself. -/

namespace FlashGordon.RingHop

open DecodeBatch Prefill Relay RingWire

variable {deployment : Deployment}

variable {token : Token deployment} {layer : Nat} {packet : Packet DecodeMessage} {work : LayerWork}

structure TokenWork (token : Token deployment) (layer : Nat) (packet : Packet DecodeMessage)
    (work : LayerWork) : Prop where
  layer_eq : work.layer.toNat = layer
  source_eq : work.sourceRank.toNat = packet.source
  destination_eq : work.destinationRank.toNat = packet.destination
  flags_known : work.flags &&& ~~~(layerWorkHasNgram ||| layerWorkFlagOutput4wayGreedy) = 0
  flags_ngram : work.flags &&& layerWorkHasNgram ≠ 0 ↔ layer = 0
  axis_eq : work.position.get 3 = 0
  tokenIndex_eq : work.tokenIndex = token.tokenIndex
  hyper_finite : firstNonFinite work.hyper = none
  ngram_eq : layer = 0 → work.ngramEmbedding = token.ngram

structure DecodeAt (token : Token deployment) (layer : Nat) (packet : Packet DecodeMessage) : Prop extends
    Addressed deployment layer packet where
  sequence_eq : packet.sequence = ringSequence token.tokenIndex layer
  message_eq : ∃ work, packet.message = .work work ∧ TokenWork token layer packet work

/-- The result of the token on its way to rank 0, which may have sent it itself. -/
structure DecodeDone (token : Token deployment) (packet : Packet DecodeMessage) : Prop where
  notDirect : decodeDirectOutputEligible deployment.manifest = false
  source_eq : packet.source = deployment.manifest.layerOwner (layerCount - 1)
  destination_eq : packet.destination = 0
  requestId_eq : packet.requestId = deployment.sessionId
  sequence_eq : packet.sequence = ringSequence token.tokenIndex (layerCount - 1)
  message_eq : ∃ result, packet.message = .result result ∧ result.layer.toNat = layerCount - 1 ∧
    result.sourceRank.toNat = packet.source ∧ result.destinationRank = 0 ∧
    result.tokenIndex = token.tokenIndex ∧ firstNonFinite result.hyper = none

/-- What the last block hands on: nothing when its row went to the output owner, else its result. -/
def DecodeFinal (token : Token deployment) (next : Option (Packet DecodeMessage)) : Prop :=
  (next = none ∧ decodeDirectOutputEligible deployment.manifest = true) ∨
    ∃ packet, next = some packet ∧ DecodeDone token packet

theorem TokenWork.valid (h : TokenWork token layer packet work) (haddressed : Addressed deployment layer packet) :
    validateLayerWork work = .ok () := by
  have hheader : ¬ work.HeaderInvalid := by
    rw [LayerWork.HeaderInvalid, h.flags_ngram, h.layer_eq, h.source_eq, h.destination_eq]
    rintro (hlayer | hsource | hdestination | hflags | ⟨hzero, hlater⟩ | ⟨-, haxis⟩)
    · exact absurd haddressed.lt (not_lt.mpr hlayer)
    · exact absurd haddressed.source_lt (not_lt.mpr hsource)
    · rw [haddressed.destination_eq] at hdestination
      exact absurd (deployment.owner_lt haddressed.lt) (not_lt.mpr hdestination)
    · exact hflags h.flags_known
    · rw [UInt8.lt_iff_toNat_lt, h.layer_eq, hzero] at hlater
      exact absurd hlater (Nat.not_lt_zero _)
    · exact haxis h.axis_eq
  rw [validateLayerWork, if_neg hheader, h.hyper_finite]
  dsimp only
  split
  · rfl
  next hflag =>
    rw [h.ngram_eq (h.flags_ngram.mp hflag), token.ngram_finite]

theorem DecodeAt.not_stale (h : DecodeAt token layer packet) (hwork : TokenWork token layer packet work) :
    ¬ DecodeStale deployment packet.destination packet work := by
  rw [DecodeStale, hwork.layer_eq, hwork.source_eq, hwork.destination_eq, hwork.tokenIndex_eq, hwork.flags_ngram]
  rintro (hsession | hrequest | hsource | hdestination | hlayer | howner | hstart | hngram | hsequence)
  · exact deployment.sessionId_ne hsession
  · exact hrequest h.requestId_eq
  · exact hsource rfl
  · exact hdestination rfl
  · exact absurd h.lt (not_lt.mpr hlayer)
  · exact howner h.destination_eq.symm
  · exact h.starts_block hstart
  · exact hngram h.le_one_iff
  · exact hsequence h.sequence_eq

theorem validateBlockHidden_ok (rank index through layer : Nat) (slot : UInt32)
    (row : Vector Binary32 hyperWidth) :
    validateBlockHidden rank index through (deployment.decodeBlock rank layer slot row) = .ok () := by
  rw [validateBlockHidden, deployment.decodeBlock_finite]

theorem DecodeAt.forward (h : DecodeAt token layer packet) (hwork : TokenWork token layer packet work)
    (hfirst : deployment.FirstTogether) {last : Nat}
    (hlast : last = blockEnd deployment.manifest packet.destination layer) (hmore : last + 1 < layerCount)
    {hyper : Vector Binary32 hyperWidth} (hfinite : firstNonFinite hyper = none) :
    ∃ after, sendDecodeWork deployment packet.destination deployment.sessionId deployment.sessionSlot (last + 1)
      (nextLayerWork deployment packet.destination last work hyper) = .ok after ∧
      DecodeAt token (last + 1) after := by
  have hat : DecodeAt token (last + 1) ⟨packet.destination, deployment.manifest.layerOwner (last + 1),
      deployment.sessionId, deployment.sessionSlot, ringSequence work.tokenIndex (last + 1),
      .work (nextLayerWork deployment packet.destination last work hyper)⟩ := by
    refine ⟨h.next hfirst hlast hmore rfl rfl rfl rfl, by rw [hwork.tokenIndex_eq], _, rfl, ?_⟩
    constructor
    · exact toNat_ofNat_layer hmore
    · exact toNat_ofNat_rank h.self_lt
    · exact toNat_ofNat_rank (deployment.owner_lt hmore)
    · show (work.flags &&& layerWorkFlagOutput4wayGreedy) &&& _ = 0
      rw [UInt8.and_assoc]
      exact UInt8.and_zero
    · show (work.flags &&& layerWorkFlagOutput4wayGreedy) &&& layerWorkHasNgram ≠ 0 ↔ last + 1 = 0
      rw [UInt8.and_assoc]
      exact ⟨fun hflag => absurd UInt8.and_zero hflag, fun hzero => absurd hzero (Nat.succ_ne_zero last)⟩
    · rfl
    · exact hwork.tokenIndex_eq
    · exact hfinite
    · exact fun hzero => absurd hzero (Nat.succ_ne_zero last)
  obtain ⟨next, hnext, hchunk⟩ := hat.message_eq
  cases hnext
  refine ⟨_, ?_, hat⟩
  rw [sendDecodeWork, hchunk.valid hat.toAddressed]
  rfl

theorem direct_iff : decodeDirectOutputEligible deployment.manifest = true ↔
    deployment.manifest.layerOwner (layerCount - 1) ≠ 0 ∧
      outputOwnerRank ≠ deployment.manifest.layerOwner (layerCount - 1) := by
  rw [decodeDirectOutputEligible, decide_eq_true_iff]
  exact ⟨fun h => h.2, fun h => ⟨by decide, h⟩⟩

theorem outputSplitRanks_lt {rank : Nat} (h : rank ∈ outputSplitRanks) : rank < rankCount := by
  have hall : ∀ rank ∈ outputSplitRanks, rank < rankCount := by decide
  exact hall rank h

theorem validateLayerResult_ok {result : LayerResult} (hlayer : result.layer.toNat < layerCount)
    (hsource : result.sourceRank.toNat < rankCount) (hdestination : result.destinationRank.toNat < rankCount)
    (hfinite : firstNonFinite result.hyper = none) : validateLayerResult result = .ok () := by
  rw [validateLayerResult, if_neg, hfinite]
  rintro (hle | hle | hle)
  · exact absurd hlayer (not_lt.mpr hle)
  · exact absurd hsource (not_lt.mpr hle)
  · exact absurd hdestination (not_lt.mpr hle)

section

variable (h : DecodeAt token layer packet)
include h

theorem workerDecodeOutput_ok (hwork : TokenWork token layer packet work)
    (hworker : packet.destination ≠ 0)
    (howner : deployment.manifest.layerOwner (layerCount - 1) = packet.destination)
    {hyper : Vector Binary32 hyperWidth} (hfinite : firstNonFinite hyper = none) :
    ∃ hop, workerDecodeOutput deployment packet.destination packet work layer (layerCount - 1) hyper = .ok hop ∧
      hop.executed = blockLayers layer (layerCount - 1) ∧
      (∀ output ∈ hop.outputs, fabricSend output = .ok ()) ∧ DecodeFinal token hop.next := by
  have hlayer : (UInt8.ofNat (layerCount - 1)).toNat < layerCount := by decide
  have hsource : (UInt8.ofNat packet.destination).toNat < rankCount := by
    rw [toNat_ofNat_rank h.self_lt]
    exact h.self_lt
  rw [workerDecodeOutput]
  cases hdirect : decodeDirectOutputEligible deployment.manifest with
  | false =>
    have hvalid : validateLayerResult
        ⟨UInt8.ofNat (layerCount - 1), UInt8.ofNat packet.destination, UInt8.ofNat 0, work.tokenIndex, hyper⟩ =
          .ok () := validateLayerResult_ok hlayer hsource (by decide : (UInt8.ofNat 0).toNat < rankCount) hfinite
    simp only [Bool.false_and, Bool.false_eq_true, if_false, hvalid]
    refine ⟨_, rfl, rfl, sends_nil, .inr ⟨_, rfl, ?_⟩⟩
    constructor
    · exact hdirect
    · exact howner.symm
    · rfl
    · exact h.requestId_eq
    · rw [hwork.tokenIndex_eq]
    · exact ⟨_, rfl, toNat_ofNat_layer (by decide), toNat_ofNat_rank h.self_lt, rfl, hwork.tokenIndex_eq, hfinite⟩
  | true =>
    have hother : outputOwnerRank ≠ packet.destination := howner ▸ (direct_iff.mp hdirect).2
    have hvalid : validateLayerResult ⟨UInt8.ofNat (layerCount - 1), UInt8.ofNat packet.destination,
        UInt8.ofNat outputOwnerRank, work.tokenIndex, hyper⟩ = .ok () :=
      validateLayerResult_ok hlayer hsource (by decide : (UInt8.ofNat outputOwnerRank).toNat < rankCount) hfinite
    have hsend (rank : Nat) (hrank : rank < rankCount) (hne : rank ≠ packet.destination)
        (message : DecodeMessage) : fabricSend ⟨packet.destination, rank, packet.requestId, packet.sessionSlot,
          ringSequence work.tokenIndex (layerCount - 1), message⟩ = .ok () :=
      fabricSend_ok.mpr ⟨hrank, hne.symm⟩
    simp only [Bool.true_and, decide_eq_true hother, if_true, hvalid, ite_self]
    refine ⟨_, rfl, rfl, List.forall_mem_append.mpr ⟨?_, ?_⟩, .inl ⟨rfl, hdirect⟩⟩
    · split
      · exact sends_nil
      · exact List.forall_mem_singleton.mpr (hsend _ (by decide) hother _)
    · split
      · exact List.forall_mem_singleton.mpr (hsend 0 (by decide) hworker.symm _)
      · split
        · intro output hmem
          obtain ⟨rank, hrank, rfl⟩ := List.mem_map.mp hmem
          obtain ⟨hsplit, hne⟩ := List.mem_filter.mp hrank
          exact hsend rank (outputSplitRanks_lt hsplit) (of_decide_eq_true hne) _
        · exact sends_nil

section

variable (hfirst : deployment.FirstTogether)
include hfirst

theorem DecodeAt.worker_hop (hworker : packet.destination ≠ 0) :
    Serves fabricSend (receiveDecode token) layerCount (DecodeAt token) (DecodeFinal token) layer packet := by
  obtain ⟨work, hmessage, hwork⟩ := h.message_eq
  obtain ⟨-, -, -, howner⟩ := h.block hfirst
  have hngram := h.ngram_held hfirst hwork.flags_ngram
  have hreceive : receiveDecode token packet = handleDecodeLayerWork deployment packet.destination packet work := by
    rw [receiveDecode, hmessage]
    exact if_neg hworker
  rw [handleDecodeLayerWork, hwork.valid h.toAddressed] at hreceive
  dsimp only at hreceive
  rw [if_neg (h.not_stale hwork), if_neg hngram, hwork.layer_eq, validateBlockHidden_ok] at hreceive
  by_cases hmore : blockEnd deployment.manifest packet.destination layer + 1 < layerCount
  · obtain ⟨after, hsent, hat⟩ := h.forward hwork hfirst rfl hmore (deployment.decodeBlock_finite _ _ _ _)
    rw [if_pos hmore, h.requestId_eq, h.sessionSlot_eq, hsent] at hreceive
    exact h.serves rfl hreceive rfl sends_nil (fun _ => ⟨after, rfl, hat⟩)
      fun hend => absurd hmore (by omega)
  · have hend := h.last_eq hmore
    obtain ⟨hop, houtput, hexecuted, houtputs, hfinal⟩ :=
      workerDecodeOutput_ok h hwork hworker (hend ▸ howner) (deployment.decodeBlock_finite _ _ _ _)
    rw [if_neg hmore, hend, houtput] at hreceive
    exact h.serves hend.symm hreceive hexecuted houtputs (fun hless => absurd hless (by decide))
      fun _ => hfinal

theorem DecodeAt.coordinator_hop (hself : packet.destination = 0) :
    Serves fabricSend (receiveDecode token) layerCount (DecodeAt token) (DecodeFinal token) layer packet := by
  obtain ⟨work, hmessage, hwork⟩ := h.message_eq
  obtain ⟨-, -, -, hlastOwner⟩ := h.block hfirst
  have howner : deployment.manifest.layerOwner layer = 0 := h.destination_eq.symm.trans hself
  have hlater := h.later_of_home hself
  have hrouted : ¬ (work.destinationRank ≠ 0 ∨ deployment.manifest.layerOwner layer ≠ 0 ∨
      packet.source ≠ work.sourceRank.toNat ∨
      (0 < layer ∧ packet.source ≠ deployment.manifest.layerOwner (layer - 1)) ∨
      (0 < layer ∧ deployment.manifest.layerOwner (layer - 1) = 0) ∨
      packet.requestId ≠ deployment.sessionId ∨
      packet.sequence ≠ ringSequence work.tokenIndex layer ∨ work.tokenIndex ≠ token.tokenIndex) := by
    rintro (hdestination | hother | hsource | ⟨-, hprevious⟩ | hstart | hrequest | hsequence | htoken)
    · exact hdestination (UInt8.toNat_inj.mp (hwork.destination_eq.trans hself))
    · exact hother howner
    · exact hsource hwork.source_eq.symm
    · exact hprevious (h.source_eq.trans (if_neg (by omega)))
    · exact h.starts_block (hself ▸ hstart)
    · exact hrequest h.requestId_eq
    · exact hsequence (hwork.tokenIndex_eq ▸ h.sequence_eq)
    · exact htoken hwork.tokenIndex_eq
  have hreceive : receiveDecode token packet = coordinatorDecodeWork token packet work := by
    rw [receiveDecode, hmessage]
    exact if_pos hself
  rw [coordinatorDecodeWork, hwork.valid h.toAddressed] at hreceive
  dsimp only at hreceive
  rw [hwork.layer_eq, if_neg hrouted, if_neg (by omega), validateBlockHidden_ok] at hreceive
  by_cases hmore : blockEnd deployment.manifest packet.destination layer + 1 < layerCount
  · obtain ⟨after, hsent, hat⟩ := h.forward hwork hfirst rfl hmore (deployment.decodeBlock_finite _ _ _ _)
    rw [hself] at hsent hmore hat
    rw [if_pos hmore, hsent] at hreceive
    exact h.serves (by rw [hself]) hreceive rfl sends_nil (fun _ => ⟨after, rfl, hat⟩)
      fun hend => absurd hmore (by omega)
  · have hend := h.last_eq hmore
    have hvalid : validateLayerResult ⟨UInt8.ofNat (layerCount - 1), 0, 0, work.tokenIndex,
        deployment.decodeBlock 0 layer 0 work.hyper⟩ = .ok () :=
      validateLayerResult_ok (by decide : (UInt8.ofNat (layerCount - 1)).toNat < layerCount)
        (by decide : (0 : UInt8).toNat < rankCount) (by decide : (0 : UInt8).toNat < rankCount)
        (deployment.decodeBlock_finite _ _ _ _)
    rw [hself] at hmore
    rw [if_neg hmore, ← hself, hend, hself, hvalid] at hreceive
    apply h.serves hend.symm hreceive rfl sends_nil (fun hless => absurd hless (by decide))
    refine fun _ => .inr ⟨_, rfl, ?_⟩
    have hlast : deployment.manifest.layerOwner (layerCount - 1) = 0 := by
      rw [← hend, hlastOwner, hself]
    constructor
    · exact Bool.eq_false_iff.mpr fun hdirect => (direct_iff.mp hdirect).1 hlast
    · exact hlast.symm
    · rfl
    · rfl
    · rw [hwork.tokenIndex_eq]
    · exact ⟨_, rfl, toNat_ofNat_layer (by decide), rfl, rfl, hwork.tokenIndex_eq,
        deployment.decodeBlock_finite _ _ _ _⟩

theorem DecodeAt.serves :
    Serves fabricSend (receiveDecode token) layerCount (DecodeAt token) (DecodeFinal token) layer packet := by
  by_cases hself : packet.destination = 0
  · exact h.coordinator_hop hfirst hself
  · exact h.worker_hop hfirst hself

end

end

theorem Token.flags_cases (token : Token deployment) :
    token.work.flags = layerWorkHasNgram ||| layerWorkFlagOutput4wayGreedy ∨
      token.work.flags = layerWorkHasNgram := by
  rw [Token.work]
  split
  · exact .inl rfl
  · exact .inr rfl

theorem Token.starts (token : Token deployment) : DecodeAt token 0 token.packet := by
  have haddressed : Addressed deployment 0 token.packet := ⟨by decide, .inl rfl, rfl, rfl, rfl, rfl⟩
  refine ⟨haddressed, rfl, token.work, rfl, ?_⟩
  constructor
  · rfl
  · rfl
  · exact toNat_ofNat_rank (deployment.owner_lt (by decide))
  · rcases token.flags_cases with hflags | hflags
    · rw [hflags]
      decide
    · rw [hflags]
      decide
  · rcases token.flags_cases with hflags | hflags
    · rw [hflags]
      decide
    · rw [hflags]
      decide
  · rfl
  · rfl
  · exact token.hyper_finite
  · exact fun _ => rfl

theorem DecodeDone.accepted (h : DecodeDone token packet)
    (hlast : deployment.manifest.layerOwner (layerCount - 1) ≠ 0) :
    fabricSend packet = .ok () ∧ receiveDecode token packet = .ok ⟨[], [], none⟩ := by
  obtain ⟨result, hmessage, hlayer, hsource, hdestination, htoken, hfinite⟩ := h.message_eq
  have hne : packet.source ≠ packet.destination := by
    rw [h.destination_eq, h.source_eq]
    exact hlast
  refine ⟨fabricSend_ok.mpr ⟨by rw [h.destination_eq]; decide, hne⟩, ?_⟩
  have hsourceLt : result.sourceRank.toNat < rankCount := by
    rw [hsource, h.source_eq]
    exact deployment.owner_lt (by decide)
  have hvalid : validateLayerResult result = .ok () :=
    validateLayerResult_ok (by rw [hlayer]; decide) hsourceLt (by rw [hdestination]; decide) hfinite
  have hreceive : receiveDecode token packet = coordinatorDecodeResult token packet result := by
    rw [receiveDecode, hmessage]
    exact if_pos h.destination_eq
  rw [hreceive, coordinatorDecodeResult, h.notDirect, if_neg (by decide), hvalid]
  rw [if_neg]
  rw [hlayer, htoken]
  rintro (hother | howner | hpeer | hrequest | hsequence | hindex | hwrong)
  · exact hother hdestination
  · exact howner (hsource.trans h.source_eq)
  · exact hpeer hsource
  · exact hrequest h.requestId_eq
  · exact hsequence h.sequence_eq
  · exact hindex rfl
  · exact hwrong rfl

theorem decode_contract (token : Token deployment)
    (hfirst : deployment.FirstTogether)
    (hlast : deployment.manifest.layerOwner (layerCount - 1) ≠ 0) : Contract (decodeTrace token) := by
  apply Contract.of_completes
  apply run_completes (fun _ _ _ hat => DecodeAt.serves hat hfirst) _ (by decide) (by decide) token.starts
  rintro packet (⟨hnone, -⟩ | ⟨final, hfinal, hdone⟩)
  · cases hnone
  · cases hfinal
    exact hdone.accepted hlast

theorem decode_to_self (token : Token deployment)
    (hfirst : deployment.FirstTogether)
    (hlast : deployment.manifest.layerOwner (layerCount - 1) = 0) :
    ∃ packet ∈ (decodeTrace token).sent, packet.source = 0 ∧ packet.destination = 0 := by
  have hnone : ¬ DecodeFinal token none := by
    rintro (⟨-, hdirect⟩ | ⟨packet, hpacket, -⟩)
    · exact (direct_iff.mp hdirect).1 hlast
    · cases hpacket
  have hrefused : ∀ packet, DecodeFinal token (some packet) → ∃ err, fabricSend packet = .error err := by
    rintro packet (⟨hpacket, -⟩ | ⟨final, hfinal, hdone⟩)
    · cases hpacket
    · cases hfinal
      refine ⟨_, if_pos (.inr ?_)⟩
      rw [hdone.destination_eq, hdone.source_eq, hlast]
  have hhops : layerCount - 0 + 1 ≤ layerCount + 1 := by decide
  obtain ⟨final, err, hfinal, hmem, -⟩ :=
    run_stuck (fun _ _ _ hat => DecodeAt.serves hat hfirst) hnone hrefused (by decide) hhops token.starts
  obtain ⟨hnone, -⟩ | ⟨packet, hpacket, hdone⟩ := hfinal
  · cases hnone
  · cases hpacket
    exact ⟨final, hmem, hdone.source_eq.trans hlast, hdone.destination_eq⟩

end FlashGordon.RingHop
