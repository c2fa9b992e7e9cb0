import FlashGordon.RingHopDecode

/-! The way of a decode batch round the ring, and the hop contract for all three kinds of work. A batch
passes on its slots with the rows that a block left and without n-gram rows; what the encoder accepted at the
first layer it accepts at every later one. -/

namespace FlashGordon.RingHop

open DecodeBatch Prefill Relay RingWire

variable {deployment : Deployment} {step : DecodeStep deployment} {self layer last : Nat}
  {packet : Packet BatchMessage} {work : BatchWork}

theorem validateSlot_runSlot {forward : BatchWork} {before : List SlotWork} {n m : Nat} {entry : SlotWork}
    (h : validateSlot work before n entry = .ok ()) (hmode : forward.positionMode = work.positionMode)
    (hflags : forward.flags &&& layerWorkHasNgram = 0) :
    validateSlot forward (before.map (runSlot deployment self layer)) m (runSlot deployment self layer entry) =
      .ok () := by
  rw [validateSlot] at h
  cases hrow : entry.hyper with
  | none =>
    rw [hrow] at h
    cases h
  | some row =>
    have hran : (runSlot deployment self layer entry).hyper =
        some (deployment.decodeBlock self layer entry.stateSlot row) := congrArg (Option.map _) hrow
    simp only [hrow] at h
    split at h
    · cases h
    next hheader =>
      split at h
      · cases h
      next hfree =>
        have hfreeMap : ((before.map (runSlot deployment self layer)).findIdx? fun other =>
            other.stateSlot = (runSlot deployment self layer entry).stateSlot) = none := by
          rw [List.findIdx?_map]
          exact hfree
        have hheaderRan : ¬ (batchMax ≤ (runSlot deployment self layer entry).stateSlot.toNat ∨
            maxContext ≤ (runSlot deployment self layer entry).tokenIndex.toNat ∨
            (forward.positionMode = .text ∧ (runSlot deployment self layer entry).position.get 3 ≠ 0)) := by
          rw [hmode]
          exact hheader
        simp only [validateSlot, hran, if_neg hheaderRan, hfreeMap, deployment.decodeBlock_finite, if_pos hflags]

variable {slots : List SlotWork}

theorem validateSlots_runSlot {forward : BatchWork} (before : List SlotWork)
    (h : validateSlots work before slots = .ok ()) (hmode : forward.positionMode = work.positionMode)
    (hflags : forward.flags &&& layerWorkHasNgram = 0) :
    validateSlots forward (before.map (runSlot deployment self layer))
      (slots.map (runSlot deployment self layer)) = .ok () := by
  induction slots generalizing before with
  | nil => rfl
  | cons entry rest ih =>
    rw [validateSlots] at h
    cases hslot : validateSlot work before before.length entry with
    | error err =>
      rw [hslot] at h
      cases h
    | ok =>
      rw [hslot] at h
      have hrest := ih (before ++ [entry]) h
      rw [List.map_append] at hrest
      rw [List.map_cons, validateSlots, validateSlot_runSlot hslot hmode hflags]
      exact hrest

theorem validateSlots_hyper {before slots : List SlotWork} (h : validateSlots work before slots = .ok ()) :
    ∀ entry ∈ slots, ∃ row, entry.hyper = some row := by
  induction slots generalizing before with
  | nil => exact fun entry hmem => absurd hmem List.not_mem_nil
  | cons entry rest ih =>
    rw [validateSlots] at h
    cases hslot : validateSlot work before before.length entry with
    | error err =>
      rw [hslot] at h
      cases h
    | ok =>
      rw [hslot] at h
      refine List.forall_mem_cons.mpr ⟨?_, ih h⟩
      cases hrow : entry.hyper with
      | none =>
        rw [validateSlot, hrow] at hslot
        cases hslot
      | some row => exact ⟨row, rfl⟩

theorem slotResult_finite {entry : SlotWork} (h : ∃ row, entry.hyper = some row) :
    firstNonFinite (slotResult (runSlot deployment self layer entry)).hyper = none := by
  obtain ⟨row, hrow⟩ := h
  have hran : (slotResult (runSlot deployment self layer entry)).hyper =
      deployment.decodeBlock self layer entry.stateSlot row := by
    rw [slotResult, runSlot, hrow]
    rfl
  rw [hran, deployment.decodeBlock_finite]

theorem validateRanSlots_ok (h : ∀ entry ∈ slots, ∃ row, entry.hyper = some row) :
    validateRanSlots self last (slots.map (runSlot deployment self layer)) = .ok () := by
  induction slots with
  | nil => rfl
  | cons entry rest ih =>
    obtain ⟨hentry, hrest⟩ := List.forall_mem_cons.mp h
    rw [List.map_cons, validateRanSlots, validateBlockHidden, slotResult_finite hentry]
    exact ih hrest

theorem validateSlotResults_ok (n : Nat) (h : ∀ entry ∈ slots, ∃ row, entry.hyper = some row)
    (htoken : ∀ entry ∈ slots, entry.tokenIndex.toNat < maxContext) :
    validateSlotResults n ((slots.map (runSlot deployment self layer)).map slotResult) = .ok () := by
  induction slots generalizing n with
  | nil => rfl
  | cons entry rest ih =>
    obtain ⟨hentry, hrest⟩ := List.forall_mem_cons.mp h
    obtain ⟨hindex, htokens⟩ := List.forall_mem_cons.mp htoken
    rw [List.map_cons, List.map_cons, validateSlotResults, if_neg, slotResult_finite hentry]
    · exact ih (n + 1) hrest htokens
    · exact not_le.mpr hindex

/-- The work of the batch at a block start: the slots of the step, n-gram rows only for the first block. -/
structure StepWork (step : DecodeStep deployment) (layer : Nat) (packet : Packet BatchMessage)
    (work : BatchWork) : Prop where
  layer_eq : work.layer.toNat = layer
  source_eq : work.sourceRank.toNat = packet.source
  destination_eq : work.destinationRank.toNat = packet.destination
  flags_eq : work.flags = if layer = 0 then layerWorkHasNgram else 0
  mode_eq : work.positionMode = .text
  first_eq : firstTokenIndex work.slots = firstTokenIndex step.slots
  length_eq : work.slots.length = step.slots.length
  valid : validateDecodeBatchWork work = .ok ()

structure BatchAt (step : DecodeStep deployment) (layer : Nat) (packet : Packet BatchMessage) : Prop extends
    Addressed deployment layer packet where
  sequence_eq : packet.sequence = ringSequence (firstTokenIndex step.slots) layer
  message_eq : ∃ work, packet.message = .work work ∧ StepWork step layer packet work

/-- The result of the batch on its way to rank 0, which may have sent it itself. -/
structure BatchDone (step : DecodeStep deployment) (packet : Packet BatchMessage) : Prop where
  source_eq : packet.source = deployment.manifest.layerOwner (layerCount - 1)
  destination_eq : packet.destination = 0
  requestId_eq : packet.requestId = deployment.sessionId
  sequence_eq : packet.sequence = ringSequence (firstTokenIndex step.slots) (layerCount - 1)
  message_eq : ∃ result, packet.message = .result result ∧ result.layer.toNat = layerCount - 1 ∧
    result.sourceRank.toNat = packet.source ∧ result.destinationRank = 0 ∧
    result.slots.length = step.slots.length ∧ validateDecodeBatchResult result = .ok ()

def BatchFinal (step : DecodeStep deployment) (next : Option (Packet BatchMessage)) : Prop :=
  ∃ packet, next = some packet ∧ BatchDone step packet

theorem StepWork.flags_ngram (h : StepWork step layer packet work) :
    work.flags &&& layerWorkHasNgram ≠ 0 ↔ layer = 0 := flags_ngram_iff h.flags_eq

theorem validateDecodeBatchWork_ok (h : validateDecodeBatchWork work = .ok ()) :
    ¬ work.HeaderInvalid ∧ validateSlots work [] work.slots = .ok () := by
  rw [validateDecodeBatchWork] at h
  split at h
  · cases h
  next hheader =>
    exact ⟨hheader, h⟩

theorem StepWork.rows (h : StepWork step layer packet work) : ∀ entry ∈ work.slots, ∃ row, entry.hyper = some row :=
  validateSlots_hyper (validateDecodeBatchWork_ok h.valid).2

theorem DecodeStep.length_range (step : DecodeStep deployment) :
    step.slots.length ≠ 0 ∧ step.slots.length ≤ batchMax := by
  have hheader := (validateDecodeBatchWork_ok step.encoded).1
  constructor
  · exact fun hnone => hheader (.inr (.inr (.inr (.inr (.inr (.inl hnone))))))
  · exact not_lt.mp fun hmany => hheader (.inr (.inr (.inr (.inr (.inr (.inr hmany))))))

theorem firstTokenIndex_map (slots : List SlotWork) :
    firstTokenIndex (slots.map (runSlot deployment self layer)) = firstTokenIndex slots := by
  cases slots with
  | nil => rfl
  | cons entry rest => rfl

section

variable (h : BatchAt step layer packet)
include h

theorem BatchAt.not_stale (hwork : StepWork step layer packet work) :
    ¬ BatchStale deployment packet.destination packet work := by
  rw [BatchStale, hwork.layer_eq, hwork.source_eq, hwork.destination_eq, hwork.first_eq, hwork.flags_ngram]
  rintro (hsession | hrequest | hsource | hdestination | hlayer | howner | hstart | hngram | hmode | hsequence)
  · exact deployment.sessionId_ne hsession
  · exact hrequest h.requestId_eq
  · exact hsource rfl
  · exact hdestination rfl
  · exact absurd h.lt (not_lt.mpr hlayer)
  · exact howner h.destination_eq.symm
  · exact h.starts_block hstart
  · exact hngram h.le_one_iff
  · exact hmode hwork.mode_eq
  · exact hsequence h.sequence_eq

theorem BatchAt.forward (hwork : StepWork step layer packet work)
    (hfirst : deployment.FirstTogether)
    (hlast : last = blockEnd deployment.manifest packet.destination layer) (hmore : last + 1 < layerCount)
    {forward : BatchWork}
    (hforward : forward =
      { work with
        layer := UInt8.ofNat (last + 1)
        sourceRank := UInt8.ofNat packet.destination
        destinationRank := UInt8.ofNat (deployment.manifest.layerOwner (last + 1))
        flags := 0
        slots := work.slots.map (runSlot deployment packet.destination layer) }) :
    validateDecodeBatchWork forward = .ok () ∧
      BatchAt step (last + 1) ⟨packet.destination, deployment.manifest.layerOwner (last + 1),
        deployment.sessionId, deployment.sessionSlot, ringSequence (firstTokenIndex work.slots) (last + 1),
        .work forward⟩ := by
  subst hforward
  have hlayer : (UInt8.ofNat (last + 1)).toNat = last + 1 := toNat_ofNat_layer hmore
  have hsource : (UInt8.ofNat packet.destination).toNat = packet.destination := toNat_ofNat_rank h.self_lt
  have howner : (UInt8.ofNat (deployment.manifest.layerOwner (last + 1))).toNat =
      deployment.manifest.layerOwner (last + 1) := toNat_ofNat_rank (deployment.owner_lt hmore)
  have hlength : (work.slots.map (runSlot deployment packet.destination layer)).length = step.slots.length := by
    rw [List.length_map, hwork.length_eq]
  have hvalid : validateDecodeBatchWork
      { work with
        layer := UInt8.ofNat (last + 1)
        sourceRank := UInt8.ofNat packet.destination
        destinationRank := UInt8.ofNat (deployment.manifest.layerOwner (last + 1))
        flags := 0
        slots := work.slots.map (runSlot deployment packet.destination layer) } = .ok () := by
    rw [validateDecodeBatchWork, if_neg]
    · exact validateSlots_runSlot [] (validateDecodeBatchWork_ok hwork.valid).2 rfl
        (show (0 : UInt8) &&& layerWorkHasNgram = 0 by decide)
    · rw [BatchWork.HeaderInvalid]
      dsimp only
      rw [hlayer, hsource, howner, hlength]
      rintro (hle | hle | hle | hflags | ⟨hflags, -⟩ | hnone | hmany)
      · exact absurd hmore (not_lt.mpr hle)
      · exact absurd h.self_lt (not_lt.mpr hle)
      · exact absurd (deployment.owner_lt hmore) (not_lt.mpr hle)
      · exact absurd (by decide) hflags
      · exact absurd (by decide) hflags
      · exact step.length_range.1 hnone
      · exact absurd step.length_range.2 (not_le.mpr hmany)
  refine ⟨hvalid, h.next hfirst hlast hmore rfl rfl rfl rfl, by rw [hwork.first_eq], _, rfl, ?_⟩
  constructor
  · exact hlayer
  · exact hsource
  · exact howner
  · rw [if_neg (Nat.succ_ne_zero last)]
  · exact hwork.mode_eq
  · exact (firstTokenIndex_map work.slots).trans hwork.first_eq
  · exact hlength
  · exact hvalid

theorem BatchAt.handled (hwork : StepWork step layer packet work)
    (hfirst : deployment.FirstTogether)
    (hreceive : receiveBatch step packet = handleDecodeBatchWork deployment packet.destination packet work) :
    Serves fabricSend (receiveBatch step) layerCount (BatchAt step) (BatchFinal step) layer packet := by
  obtain ⟨-, -, -, howner⟩ := h.block hfirst
  have hngram := h.ngram_held hfirst hwork.flags_ngram
  rw [handleDecodeBatchWork, hwork.valid] at hreceive
  dsimp only at hreceive
  rw [if_neg (h.not_stale hwork), if_neg hngram, hwork.layer_eq, validateRanSlots_ok hwork.rows] at hreceive
  by_cases hmore : blockEnd deployment.manifest packet.destination layer + 1 < layerCount
  · obtain ⟨hvalid, hat⟩ := h.forward hwork hfirst rfl hmore rfl
    rw [if_pos hmore, hvalid, h.requestId_eq, h.sessionSlot_eq] at hreceive
    exact h.serves rfl hreceive rfl sends_nil (fun _ => ⟨_, rfl, hat⟩)
      fun hend => absurd hmore (by omega)
  · have hend := h.last_eq hmore
    have hlength : ((work.slots.map (runSlot deployment packet.destination layer)).map slotResult).length =
        step.slots.length := by
      rw [List.length_map, List.length_map, hwork.length_eq]
    have hvalid : validateDecodeBatchResult ⟨UInt8.ofNat (layerCount - 1), UInt8.ofNat packet.destination, 0, 0,
        (work.slots.map (runSlot deployment packet.destination layer)).map slotResult⟩ = .ok () := by
      rw [validateDecodeBatchResult, if_neg]
      · exact validateSlotResults_ok 0 hwork.rows (validateDecodeBatchWork_tokenIndex hwork.valid)
      · dsimp only
        rw [hlength, toNat_ofNat_rank h.self_lt]
        rintro (hle | hle | hle | hflags | hnone | hmany)
        · exact absurd hle (by decide)
        · exact absurd h.self_lt (not_lt.mpr hle)
        · exact absurd hle (by decide)
        · exact hflags rfl
        · exact step.length_range.1 hnone
        · exact absurd step.length_range.2 (not_le.mpr hmany)
    rw [if_neg hmore, hend, hvalid] at hreceive
    apply h.serves hend.symm hreceive rfl sends_nil (fun hless => absurd hless (by decide))
    refine fun _ => ⟨_, rfl, ?_⟩
    constructor
    · rw [← hend, howner]
    · rfl
    · exact h.requestId_eq
    · rw [hwork.first_eq]
    · exact ⟨_, rfl, toNat_ofNat_layer (by decide), toNat_ofNat_rank h.self_lt, rfl, hlength, hvalid⟩

theorem BatchAt.serves (hfirst : deployment.FirstTogether) :
    Serves fabricSend (receiveBatch step) layerCount (BatchAt step) (BatchFinal step) layer packet := by
  obtain ⟨work, hmessage, hwork⟩ := h.message_eq
  apply h.handled hwork hfirst
  rw [receiveBatch, hmessage]
  dsimp only
  split
  next hself =>
    rw [coordinatorBatchWork, hwork.valid]
    rw [if_neg, hself]
    rintro (hdestination | hsource)
    · exact hdestination (UInt8.toNat_inj.mp (hwork.destination_eq.trans hself))
    · exact hsource hwork.source_eq.symm
  · rfl

end

theorem DecodeStep.starts (step : DecodeStep deployment) : BatchAt step 0 step.packet := by
  have haddressed : Addressed deployment 0 step.packet := ⟨by decide, .inl rfl, rfl, rfl, rfl, rfl⟩
  refine ⟨haddressed, rfl, _, rfl, ?_⟩
  exact ⟨rfl, rfl, toNat_ofNat_rank (deployment.owner_lt (by decide)), rfl, rfl, rfl, rfl, step.encoded⟩

theorem BatchDone.accepted (h : BatchDone step packet)
    (hlast : deployment.manifest.layerOwner (layerCount - 1) ≠ 0) :
    fabricSend packet = .ok () ∧ receiveBatch step packet = .ok ⟨[], [], none⟩ := by
  obtain ⟨result, hmessage, hlayer, hsource, hdestination, hlength, hvalid⟩ := h.message_eq
  have hne : packet.source ≠ packet.destination := by
    rw [h.destination_eq, h.source_eq]
    exact hlast
  refine ⟨fabricSend_ok.mpr ⟨by rw [h.destination_eq]; decide, hne⟩, ?_⟩
  have hreceive : receiveBatch step packet = coordinatorBatchResult step packet result := by
    rw [receiveBatch, hmessage]
    exact if_pos h.destination_eq
  rw [hreceive, coordinatorBatchResult, hvalid]
  rw [if_neg]
  rintro (hother | hwrong | howner | hpeer | hrequest | hcount | hsequence)
  · exact hother hdestination
  · exact hwrong hlayer
  · exact howner (hsource.trans h.source_eq)
  · exact hpeer hsource
  · exact hrequest h.requestId_eq
  · exact hcount hlength
  · exact hsequence h.sequence_eq

theorem batch_contract (step : DecodeStep deployment)
    (hfirst : deployment.FirstTogether)
    (hlast : deployment.manifest.layerOwner (layerCount - 1) ≠ 0) : Contract (batchTrace step) := by
  apply Contract.of_completes
  apply run_completes (fun _ _ _ hat => BatchAt.serves hat hfirst) _ (by decide) (by decide) step.starts
  rintro packet ⟨final, hfinal, hdone⟩
  cases hfinal
  exact hdone.accepted hlast

/-- The chains of a chunk, a token and a batch all keep the contract exactly when one rank owns the first two
layers and rank 0 does not own the last one. -/
theorem ring_contract_iff (deployment : Deployment) (chunk : Chunk deployment) (token : Token deployment)
    (step : DecodeStep deployment) :
    (Contract (prefillTrace chunk) ∧ Contract (decodeTrace token) ∧ Contract (batchTrace step)) ↔
      (deployment.manifest.layerOwner 1 = deployment.manifest.layerOwner 0 ∧
        deployment.manifest.layerOwner (layerCount - 1) ≠ 0) := by
  constructor
  · rintro ⟨hprefill, hdecode, -⟩
    have hfirst : deployment.manifest.layerOwner 1 = deployment.manifest.layerOwner 0 := by
      by_contra hne
      exact prefill_refused chunk hne hprefill
    refine ⟨hfirst, fun hlast => ?_⟩
    obtain ⟨packet, hmem, hsource, hdestination⟩ := decode_to_self token hfirst hlast
    exact hdecode.noSelf packet hmem (hsource.trans hdestination.symm)
  · rintro ⟨hfirst, hlast⟩
    exact ⟨prefill_contract chunk hfirst, decode_contract token hfirst hlast, batch_contract step hfirst hlast⟩

section Sample

/-- A topology in which every layer has a single rank: rank 1, but rank 0 for the last layer. -/
def homeLastManifest : Manifest where
  layerOwner layer := if layer = layerCount - 1 then 0 else 1
  layerGroups layer _ := if layer = layerCount - 1 then 0 else 1
  expertRank layer _ := if layer = layerCount - 1 then 0 else 1

theorem homeLastManifest_valid : validateTopology homeLastManifest = .ok () := by
  apply validateTopology_of_layers
  intro layer
  have howner : homeLastManifest.layerOwner layer < rankCount := by
    rw [homeLastManifest]
    dsimp only
    split
    · decide
    · decide
  have hgroup : groupRanks homeLastManifest layer = [homeLastManifest.layerOwner layer] := by
    rw [groupRanks, homeLastManifest]
    dsimp only
    split
    · rfl
    · rfl
  rw [validateLayer, if_neg (not_le.mpr howner), hgroup]
  dsimp only
  rw [if_neg (not_le.mpr howner), List.find?_eq_none.mpr]
  intro expert _
  rw [decide_eq_true_eq, not_not]
  rfl

theorem zeroRow_finite (n : Nat) : firstNonFinite (Vector.replicate n (⟨0⟩ : Binary32)) = none := by
  apply firstNonFinite_eq_none
  intro value hvalue
  rw [List.eq_of_mem_replicate hvalue]
  decide

/-- One session of that fleet, on devices that answer zero rows. -/
def homeLastDeployment : Deployment where
  manifest := homeLastManifest
  microbatch := 16
  maxContext := 4096
  sessionId := 1
  sessionSlot := 0
  outputSplitWays := 2
  chainEligible _ _ _ := false
  prefillBlock _ _ _ := []
  decodeBlock _ _ _ _ := Vector.replicate hyperWidth ⟨0⟩
  topology := homeLastManifest_valid
  remote := by decide
  microbatch_range := by decide
  maxContext_le := by decide
  sessionId_ne := by decide
  prefillBlock_finite _ _ _ := rfl
  decodeBlock_finite _ _ _ _ := zeroRow_finite hyperWidth

def homeLastToken : Token homeLastDeployment where
  tokenIndex := 0
  position := 0
  greedy := false
  hyper := Vector.replicate hyperWidth ⟨0⟩
  ngram := Vector.replicate ngramEmbedValues ⟨0⟩
  hyper_finite := zeroRow_finite hyperWidth
  ngram_finite := zeroRow_finite ngramEmbedValues

/-- In this fleet the token's chain ends in a message of rank 0 to itself. -/
theorem homeLast_sends_to_itself : validateTopology homeLastDeployment.manifest = .ok () ∧
    homeLastDeployment.manifest.layerOwner 0 ≠ 0 ∧
    (∃ packet ∈ (decodeTrace homeLastToken).sent, packet.source = packet.destination) ∧
    ¬ Contract (decodeTrace homeLastToken) := by
  obtain ⟨packet, hmem, hsource, hdestination⟩ := decode_to_self homeLastToken rfl rfl
  have hself : packet.source = packet.destination := hsource.trans hdestination.symm
  exact ⟨homeLastManifest_valid, by decide, ⟨packet, hmem, hself⟩, fun hcontract => hcontract.noSelf packet hmem hself⟩

end Sample

end FlashGordon.RingHop
