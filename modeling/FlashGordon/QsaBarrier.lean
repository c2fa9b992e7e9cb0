import FlashGordon.FabricFrame

/-! The barrier of the coordinator (`coordinator_qsa_barrier` in `runtime.c`). It asks every owner that got page appends
for an acknowledgement and then reads each owner's bulk channel until that comes. A result of an earlier session may
still stand in the channel; it is read into the buffer of the acknowledgement and passed over. -/

namespace FlashGordon.Barrier

open Wire ByteCodec Fabric Transport List

/-- `FG_QSA_PAGE_BARRIER_BYTES`. -/
def barrierBytes : Nat := 8

/-- `FG_QSA_PAGE_RESULT_MAX_BYTES`. -/
def resultMaxBytes : Nat := 12 + QsaOwner.fetchMaxPages * pageEntryBytes true

structure Coordinator where
  protocolVersion : UInt16
  slot : UInt32
  sessionId : UInt64
  appendOwnerMask : UInt32
  appendSequence : Nat → UInt32

/-- The transport, the bytes that are to come on each owner's bulk channel, and what has been sent to them. -/
structure State where
  transport : Transport.State
  channels : Nat → List UInt8
  sent : List (Nat × List UInt8)

structure Answers where
  drain : Except Error Unit
  send : Nat → Except Error Unit

def owners (coordinator : Coordinator) : List Nat :=
  (List.range' 1 (rankCount - 1)).filter fun owner => coordinator.appendOwnerMask.toNat.testBit owner

def State.poison (state : State) : State := { state with transport := transportPoison state.transport }

def sendBarrier (coordinator : Coordinator) (answers : Answers) (owner : Nat) (state : State) : Except Error Unit × State :=
  let sequence := coordinator.appendSequence owner
  match qsaPageBarrierEncode ⟨0, UInt8.ofNat owner, sequence⟩ with
  | .error err => (.error err, if state.transport = .ready then state else state.poison)
  | .ok wire =>
    match fgFrameEncodeVersion coordinator.protocolVersion msgQsaPageBarrier coordinator.sessionId sequence
        (coordinator.slot <<< 24) wire with
    | .error err => (.error err, state.poison)
    | .ok header =>
      match answers.send owner with
      | .error err => (.error err, state.poison)
      | .ok () =>
        (.ok (), { state with
          transport := transportPending state.transport
          sent := state.sent ++ [(owner, frameHeaderWire header ++ wire)] })

/-- The sending loop, up to its first failure. -/
def sendBarriers (coordinator : Coordinator) (answers : Answers) : List Nat → State → Except Error Unit × State
  | [], state => (.ok (), state)
  | owner :: rest, state =>
    match sendBarrier coordinator answers owner state with
    | (.error err, state) => (.error err, state)
    | (.ok (), state) => sendBarriers coordinator answers rest state

/-- The loop that passes over results; each turn reads a header at least. -/
def discardResults (protocolVersion : UInt16) :
    Nat → List UInt8 → Option (Except Error (FrameHeader × List UInt8) × List UInt8)
  | 0, _ => none
  | fuel + 1, channel =>
    match fgFabricRecv protocolVersion barrierBytes channel with
    | none => none
    | some (.error err, rest) => some (.error err, rest)
    | some (.ok frame, rest) =>
      if frame.1.type = msgQsaPageResult then discardResults protocolVersion fuel rest else some (.ok frame, rest)

def checkAck (coordinator : Coordinator) (owner : Nat) (header : FrameHeader) (payload : List UInt8) :
    Except Error Unit :=
  let sequence := coordinator.appendSequence owner
  if header.type ≠ msgQsaPageBarrierAck ∨ header.requestId ≠ coordinator.sessionId ∨ header.sequence ≠ sequence then
    .error ⟨.mismatch, "stale QSA page barrier acknowledgement"⟩
  else
    match qsaPageBarrierDecode.run payload with
    | .refused err => .error err
    | .overrun _ => .error ⟨.format, "invalid QSA page barrier size"⟩
    | .ok ack =>
      if ack.sourceRank.toNat ≠ owner ∨ ack.destinationRank ≠ 0 ∨ ack.batchId ≠ sequence then
        .error ⟨.mismatch, "misrouted QSA page barrier acknowledgement"⟩
      else .ok ()

/-- One turn of the receiving loop; `none` while it waits. -/
def receiveAck (coordinator : Coordinator) (owner : Nat) (state : State) : Option (Except Error Unit × State) :=
  (discardResults coordinator.protocolVersion ((state.channels owner).length + 1) (state.channels owner)).map fun answer =>
    let state := { state with channels := Function.update state.channels owner answer.2 }
    match answer.1 with
    | .error err => (.error err, state.poison)
    | .ok (header, payload) =>
      match checkAck coordinator owner header payload with
      | .error err => (.error err, state.poison)
      | .ok () => (.ok (), state)

/-- The receiving loop, up to its first failure. -/
def receiveAcks (coordinator : Coordinator) : List Nat → State → Option (Except Error Unit × State)
  | [], state => some (.ok (), state)
  | owner :: rest, state =>
    match receiveAck coordinator owner state with
    | none => none
    | some (.error err, state) => some (.error err, state)
    | some (.ok (), state) => receiveAcks coordinator rest state

/-- `coordinator_qsa_barrier`; `none` while it waits. -/
def coordinatorQsaBarrier (coordinator : Coordinator) (answers : Answers) (state : State) :
    Option (Except Error Unit × State) :=
  if coordinator.sessionId = 0 then some (.ok (), state)
  else
    match answers.drain with
    | .error err => some (.error err, state)
    | .ok () =>
      match sendBarriers coordinator answers (owners coordinator) state with
      | (.error err, state) => some (.error err, state)
      | (.ok (), state) =>
        (receiveAcks coordinator (owners coordinator) state).map fun answer =>
          match answer with
          | (.error err, state) => (.error err, state)
          | (.ok (), state) => (.ok (), { state with transport := transportComplete state.transport })

section Send

variable {coordinator : Coordinator} {answers : Answers}

theorem mem_owners {owner : Nat} : owner ∈ owners coordinator ↔
    (1 ≤ owner ∧ owner < rankCount) ∧ coordinator.appendOwnerMask.toNat.testBit owner = true := by
  simp only [owners, mem_filter, mem_range'_1, rankCount]

theorem owner_toNat {owner : Nat} (howner : owner ∈ owners coordinator) : (UInt8.ofNat owner).toNat = owner := by
  have hlt := (mem_owners.mp howner).1.2
  exact UInt8.toNat_ofNat_of_lt' (hlt.trans (by decide))

theorem barrier_encode {owner : Nat} (howner : owner ∈ owners coordinator) (batchId : UInt32) :
    qsaPageBarrierEncode ⟨0, UInt8.ofNat owner, batchId⟩ = .ok (barrierWire ⟨0, UInt8.ofNat owner, batchId⟩) := by
  have hrange := (mem_owners.mp howner).1
  have hnat := owner_toNat howner
  have hroute : checkBarrierRoute "invalid QSA page barrier" ⟨0, UInt8.ofNat owner, batchId⟩ = .ok () := by
    rw [checkBarrierRoute, failIf_ok]
    rintro (hzero | hhigh | hsame)
    · simp [rankCount] at hzero
    · rw [hnat] at hhigh
      omega
    · have hzero := congrArg UInt8.toNat hsame
      rw [hnat, UInt8.toNat_zero] at hzero
      omega
  rw [qsaPageBarrierEncode, hroute]
  rfl

theorem allowed_page {version type : UInt16} (payload : List UInt8) (hsupported : VersionSupported version)
    (hversion : 6 ≤ version) (htype : within type 29 33 = true) (hbounded : payload.length ≤ maxFrameBytes) :
    Allowed version type payload := by
  refine ⟨hsupported, ?_, hbounded⟩
  simp [messageTypeSupported, hversion, htype]

theorem sendBarriers_ok (hsupported : VersionSupported coordinator.protocolVersion)
    (hversion : 6 ≤ coordinator.protocolVersion) (hsend : ∀ owner, answers.send owner = .ok ()) (list : List Nat)
    (hlist : ∀ owner ∈ list, owner ∈ owners coordinator) (state : State) (hstate : state.transport ≠ .poisoned) :
    ∃ after, sendBarriers coordinator answers list state = (.ok (), after) ∧ after.channels = state.channels ∧
      after.transport ≠ .poisoned := by
  induction list generalizing state with
  | nil => exact ⟨state, rfl, rfl, hstate⟩
  | cons owner list ih =>
    have hallowed := allowed_page (barrierWire ⟨0, UInt8.ofNat owner, coordinator.appendSequence owner⟩)
      hsupported hversion (show within msgQsaPageBarrier 29 33 = true by decide) (by simp [barrierWire, maxFrameBytes])
    simp only [sendBarriers, sendBarrier, barrier_encode (hlist owner mem_cons_self), hallowed.encode, hsend]
    obtain ⟨after, hafter, hchannels, htransport⟩ := ih (fun other hother => hlist other (mem_cons_of_mem owner hother))
      { state with
        transport := transportPending state.transport
        sent := state.sent ++ [(owner, frameHeaderWire (frameHeader coordinator.protocolVersion msgQsaPageBarrier
          coordinator.sessionId (coordinator.appendSequence owner) (coordinator.slot <<< 24)
          (barrierWire ⟨0, UInt8.ofNat owner, coordinator.appendSequence owner⟩)) ++
          barrierWire ⟨0, UInt8.ofNat owner, coordinator.appendSequence owner⟩)] }
      (by cases htransport : state.transport <;> simp_all [transportPending])
    exact ⟨after, hafter, hchannels, htransport⟩

end Send

structure StaleResult where
  requestId : UInt64
  sequence : UInt32
  flags : UInt32
  payload : List UInt8

def StaleResult.wire (protocolVersion : UInt16) (stale : StaleResult) : List UInt8 :=
  frameBytes protocolVersion msgQsaPageResult stale.requestId stale.sequence stale.flags stale.payload

def ackPayload (coordinator : Coordinator) (owner : Nat) : List UInt8 :=
  barrierWire ⟨UInt8.ofNat owner, 0, coordinator.appendSequence owner⟩

def ackHeader (coordinator : Coordinator) (owner : Nat) (flags : UInt32) : FrameHeader :=
  frameHeader coordinator.protocolVersion msgQsaPageBarrierAck coordinator.sessionId (coordinator.appendSequence owner)
    flags (ackPayload coordinator owner)

/-- What comes on the channel of an owner: results of an earlier session, the acknowledgement, and anything else. -/
structure Queue where
  stale : List StaleResult
  flags : UInt32
  rest : List UInt8

def Queue.wire (coordinator : Coordinator) (owner : Nat) (queue : Queue) : List UInt8 :=
  queue.stale.flatMap (StaleResult.wire coordinator.protocolVersion) ++
    (frameHeaderWire (ackHeader coordinator owner queue.flags) ++ ackPayload coordinator owner ++ queue.rest)

/-- No result before the acknowledgement is longer than the acknowledgement. -/
def Queue.Short (queue : Queue) : Prop := ∀ stale ∈ queue.stale, stale.payload.length ≤ barrierBytes

section Receive

variable {coordinator : Coordinator} (hsupported : VersionSupported coordinator.protocolVersion)
  (hversion : 6 ≤ coordinator.protocolVersion)

include hsupported hversion

theorem recv_stale {stale : StaleResult} (hsize : stale.payload.length ≤ resultMaxBytes) (rest : List UInt8) :
    (stale.payload.length ≤ barrierBytes → ∃ frame, frame.1.type = msgQsaPageResult ∧
      fgFabricRecv coordinator.protocolVersion barrierBytes (stale.wire coordinator.protocolVersion ++ rest) =
        some (.ok frame, rest)) ∧
    (¬stale.payload.length ≤ barrierBytes → ∃ err left,
      fgFabricRecv coordinator.protocolVersion barrierBytes (stale.wire coordinator.protocolVersion ++ rest) =
        some (.error err, left)) := by
  have hmax : resultMaxBytes ≤ maxFrameBytes := by
    rw [resultMaxBytes, pageEntryBytes]
    decide
  have hallowed := allowed_page stale.payload hsupported hversion
    (show within msgQsaPageResult 29 33 = true by decide) (hsize.trans hmax)
  rw [StaleResult.wire, fgFabricRecv_frame hallowed]
  constructor
  · intro hshort
    rw [if_pos hshort]
    exact ⟨_, rfl, rfl⟩
  · intro hlong
    rw [if_neg hlong]
    exact ⟨_, _, rfl⟩

theorem recv_ack (owner : Nat) (flags : UInt32) (rest : List UInt8) :
    fgFabricRecv coordinator.protocolVersion barrierBytes
        (frameHeaderWire (ackHeader coordinator owner flags) ++ ackPayload coordinator owner ++ rest) =
      some (.ok (ackHeader coordinator owner flags, ackPayload coordinator owner), rest) := by
  have hallowed := allowed_page (ackPayload coordinator owner) hsupported hversion
    (show within msgQsaPageBarrierAck 29 33 = true by decide) (by simp [ackPayload, barrierWire, maxFrameBytes])
  have hrecv := fgFabricRecv_frame hallowed coordinator.sessionId (coordinator.appendSequence owner) flags barrierBytes rest
  exact hrecv

theorem discardResults_queue {stale : List StaleResult} (hsize : ∀ frame ∈ stale, frame.payload.length ≤ resultMaxBytes)
    {fuel : Nat} (hfuel : stale.length < fuel) (owner : Nat) (flags : UInt32) (rest : List UInt8) :
    ((∀ frame ∈ stale, frame.payload.length ≤ barrierBytes) →
      discardResults coordinator.protocolVersion fuel (stale.flatMap (StaleResult.wire coordinator.protocolVersion) ++
          (frameHeaderWire (ackHeader coordinator owner flags) ++ ackPayload coordinator owner ++ rest)) =
        some (.ok (ackHeader coordinator owner flags, ackPayload coordinator owner), rest)) ∧
    (¬(∀ frame ∈ stale, frame.payload.length ≤ barrierBytes) → ∃ err left,
      discardResults coordinator.protocolVersion fuel (stale.flatMap (StaleResult.wire coordinator.protocolVersion) ++
          (frameHeaderWire (ackHeader coordinator owner flags) ++ ackPayload coordinator owner ++ rest)) =
        some (.error err, left)) := by
  induction stale generalizing fuel with
  | nil =>
    obtain ⟨fuel, rfl⟩ := Nat.exists_eq_add_one.mpr hfuel
    refine ⟨fun _ => ?_, fun hlong => absurd (fun frame hframe => nomatch hframe) hlong⟩
    rw [flatMap_nil, nil_append, discardResults, recv_ack hsupported hversion]
    exact if_neg (show ¬msgQsaPageBarrierAck = msgQsaPageResult by decide)
  | cons frame stale ih =>
    obtain ⟨fuel, rfl⟩ := Nat.exists_eq_add_one.mpr (Nat.zero_lt_of_lt hfuel)
    obtain ⟨hpass, hstop⟩ := recv_stale hsupported hversion (hsize frame mem_cons_self)
      (stale.flatMap (StaleResult.wire coordinator.protocolVersion) ++
        (frameHeaderWire (ackHeader coordinator owner flags) ++ ackPayload coordinator owner ++ rest))
    have hless : stale.length < fuel := by simpa using hfuel
    obtain ⟨hshorts, hlongs⟩ := ih (fun other hother => hsize other (mem_cons_of_mem frame hother)) hless
    rw [flatMap_cons, append_assoc, discardResults]
    by_cases hframe : frame.payload.length ≤ barrierBytes
    · obtain ⟨header, htype, hrecv⟩ := hpass hframe
      rw [hrecv]
      simp only [htype, if_true]
      refine ⟨fun hall => hshorts fun other hother => hall other (mem_cons_of_mem frame hother), fun hnot => ?_⟩
      exact hlongs fun hall => hnot (forall_mem_cons.mpr ⟨hframe, hall⟩)
    · obtain ⟨err, left, hrecv⟩ := hstop hframe
      rw [hrecv]
      exact ⟨fun hall => absurd (hall frame mem_cons_self) hframe, fun _ => ⟨err, left, rfl⟩⟩

omit hsupported hversion

theorem checkAck_ack {owner : Nat} (howner : owner ∈ owners coordinator) (flags : UInt32) :
    checkAck coordinator owner (ackHeader coordinator owner flags) (ackPayload coordinator owner) = .ok () := by
  have hnat := owner_toNat howner
  have hrange := (mem_owners.mp howner).1
  have hroute : checkBarrierRoute "invalid QSA page barrier" ⟨UInt8.ofNat owner, 0, coordinator.appendSequence owner⟩ =
      .ok () := by
    rw [checkBarrierRoute, failIf_ok]
    rintro (hhigh | hzero | hsame)
    · rw [hnat] at hhigh
      omega
    · simp [rankCount] at hzero
    · have hzero := congrArg UInt8.toNat hsame
      rw [hnat, UInt8.toNat_zero] at hzero
      omega
  have hdecode : qsaPageBarrierDecode.run (ackPayload coordinator owner) =
      .ok ⟨UInt8.ofNat owner, 0, coordinator.appendSequence owner⟩ := qsaPageBarrierDecode_ok.mpr ⟨rfl, hroute⟩
  simp [checkAck, ackHeader, frameHeader, hdecode, hnat]

theorem stale_length (version : UInt16) (stale : List StaleResult) :
    stale.length ≤ (stale.flatMap (StaleResult.wire version)).length := by
  induction stale with
  | nil => exact Nat.zero_le _
  | cons frame stale ih =>
    rw [flatMap_cons, length_append, length_cons, StaleResult.wire, frameBytes, length_append,
      frameHeaderWire_length, frameHeaderBytes]
    omega

end Receive

section Barrier

variable {coordinator : Coordinator} (hsupported : VersionSupported coordinator.protocolVersion)
  (hversion : 6 ≤ coordinator.protocolVersion) {queues : Nat → Queue}
  (hsize : ∀ owner, ∀ frame ∈ (queues owner).stale, frame.payload.length ≤ resultMaxBytes)

include hsupported hversion hsize

theorem receiveAck_queue {owner : Nat} (howner : owner ∈ owners coordinator) {state : State}
    (hchannel : state.channels owner = (queues owner).wire coordinator owner) :
    ((queues owner).Short → receiveAck coordinator owner state =
      some (.ok (), { state with channels := Function.update state.channels owner (queues owner).rest })) ∧
    (¬(queues owner).Short → ∃ err after, receiveAck coordinator owner state = some (.error err, after)) := by
  have hfuel : (queues owner).stale.length < (state.channels owner).length + 1 := by
    have hlength := stale_length coordinator.protocolVersion (queues owner).stale
    rw [hchannel, Queue.wire, length_append]
    omega
  obtain ⟨hshort, hlong⟩ := discardResults_queue hsupported hversion (hsize owner) hfuel owner (queues owner).flags
    (queues owner).rest
  rw [← Queue.wire, ← hchannel] at hshort hlong
  constructor
  · intro hall
    rw [receiveAck, hshort hall]
    simp only [Option.map_some, checkAck_ack howner]
  · intro hnot
    obtain ⟨err, left, hdiscard⟩ := hlong hnot
    rw [receiveAck, hdiscard]
    exact ⟨err, _, rfl⟩

theorem receiveAcks_queue (list : List Nat) (hlist : ∀ owner ∈ list, owner ∈ owners coordinator) (hnodup : list.Nodup)
    (state : State) (hchannels : ∀ owner ∈ list, state.channels owner = (queues owner).wire coordinator owner) :
    ((∀ owner ∈ list, (queues owner).Short) → receiveAcks coordinator list state =
      some (.ok (), { state with
        channels := fun owner => if owner ∈ list then (queues owner).rest else state.channels owner })) ∧
    (¬(∀ owner ∈ list, (queues owner).Short) →
      ∃ err after, receiveAcks coordinator list state = some (.error err, after)) := by
  induction list generalizing state with
  | nil => exact ⟨fun _ => by simp [receiveAcks], fun hnot => absurd (fun owner howner => nomatch howner) hnot⟩
  | cons owner list ih =>
    obtain ⟨hnotMem, hnodup⟩ := nodup_cons.mp hnodup
    obtain ⟨hpass, hstop⟩ := receiveAck_queue hsupported hversion hsize (hlist owner mem_cons_self)
      (hchannels owner mem_cons_self)
    rw [receiveAcks]
    by_cases hshort : (queues owner).Short
    · rw [hpass hshort]
      have hbehind : ∀ other ∈ list, Function.update state.channels owner (queues owner).rest other =
          (queues other).wire coordinator other := by
        intro other hother
        have hne : other ≠ owner := fun h => hnotMem (h ▸ hother)
        rw [Function.update_of_ne hne]
        exact hchannels other (mem_cons_of_mem owner hother)
      obtain ⟨hrest, hfail⟩ := ih (fun other hother => hlist other (mem_cons_of_mem owner hother)) hnodup
        { state with channels := Function.update state.channels owner (queues owner).rest } hbehind
      refine ⟨fun hall => ?_, fun hnot => ?_⟩
      · refine (hrest fun other hother => hall other (mem_cons_of_mem owner hother)).trans ?_
        congr 3
        funext other
        by_cases hother : other = owner
        · subst hother
          simp [hnotMem]
        · simp [hother]
      · exact hfail fun hall => hnot (forall_mem_cons.mpr ⟨hshort, hall⟩)
    · obtain ⟨err, after, hreceive⟩ := hstop hshort
      rw [hreceive]
      exact ⟨fun hall => absurd (hall owner mem_cons_self) hshort, fun _ => ⟨err, after, rfl⟩⟩

/-- The barrier is done: its answer is success, the transport is ready, and each owner's channel stands behind its
acknowledgement. -/
def Done (coordinator : Coordinator) (queues : Nat → Queue) (outcome : Except Error Unit × State) : Prop :=
  outcome.1 = .ok () ∧ outcome.2.transport = .ready ∧
    ∀ owner ∈ owners coordinator, outcome.2.channels owner = (queues owner).rest

omit hsupported hversion hsize in
theorem transportComplete_ready {transport : Transport.State} (h : transport ≠ .poisoned) :
    transportComplete transport = .ready := by
  cases transport with
  | ready => rfl
  | pending => rfl
  | poisoned => exact absurd rfl h

theorem coordinatorQsaBarrier_queue {answers : Answers} (hsession : coordinator.sessionId ≠ 0)
    (hdrain : answers.drain = .ok ()) (hsend : ∀ owner, answers.send owner = .ok ()) {state : State}
    (hready : state.transport = .ready)
    (hchannels : ∀ owner ∈ owners coordinator, state.channels owner = (queues owner).wire coordinator owner) :
    ∃ outcome, coordinatorQsaBarrier coordinator answers state = some outcome ∧
      (Done coordinator queues outcome ↔ ∀ owner ∈ owners coordinator, (queues owner).Short) := by
  obtain ⟨sent, hsent, hsame, htransport⟩ := sendBarriers_ok hsupported hversion hsend
    (owners coordinator) (fun _ howner => howner) state (by simp [hready])
  have hnodup : (owners coordinator).Nodup := (nodup_range' ..).filter _
  obtain ⟨hpass, hstop⟩ := receiveAcks_queue hsupported hversion hsize (owners coordinator)
    (fun _ howner => howner) hnodup sent (hsame ▸ hchannels)
  rw [coordinatorQsaBarrier, if_neg hsession, hdrain]
  simp only [hsent]
  by_cases hshort : ∀ owner ∈ owners coordinator, (queues owner).Short
  · rw [hpass hshort]
    refine ⟨_, rfl, fun _ => hshort, fun _ => ⟨rfl, transportComplete_ready htransport, fun owner howner => ?_⟩⟩
    exact if_pos howner
  · obtain ⟨err, after, hreceive⟩ := hstop hshort
    rw [hreceive]
    refine ⟨_, rfl, fun hdone => ?_, fun hall => absurd hall hshort⟩
    cases hdone.1

omit hsupported hversion hsize in
theorem barrierBytes_lt_result {payload : List UInt8} {pageCapacity : Nat} {batch : QsaOwner.PageBatch PageRecords}
    (h : (qsaPageResultDecode pageCapacity).run payload = .ok batch) : barrierBytes < payload.length := by
  obtain ⟨rfl, -⟩ := qsaPageResultDecode_ok.mp h
  rw [pageBatchWire_length, pageBatchBytes, barrierBytes]
  omega

/-- A payload that `fg_qsa_page_result_decode` takes. -/
def LegalResult (payload : List UInt8) : Prop :=
  ∃ pageCapacity batch, (qsaPageResultDecode pageCapacity).run payload = .ok batch

/-- With any results before the acknowledgements the barrier comes to an answer. It is done exactly when none of them
is longer than an acknowledgement; of legal results none may be there at all. -/
theorem coordinatorQsaBarrier_stale {answers : Answers} (hsession : coordinator.sessionId ≠ 0)
    (hdrain : answers.drain = .ok ()) (hsend : ∀ owner, answers.send owner = .ok ()) {state : State}
    (hready : state.transport = .ready)
    (hchannels : ∀ owner ∈ owners coordinator, state.channels owner = (queues owner).wire coordinator owner) :
    ∃ outcome, coordinatorQsaBarrier coordinator answers state = some outcome ∧
      (Done coordinator queues outcome ↔ ∀ owner ∈ owners coordinator, (queues owner).Short) ∧
      ((∀ owner, ∀ frame ∈ (queues owner).stale, LegalResult frame.payload) →
        (Done coordinator queues outcome ↔ ∀ owner ∈ owners coordinator, (queues owner).stale = [])) := by
  obtain ⟨outcome, houtcome, hdone⟩ := coordinatorQsaBarrier_queue hsupported hversion hsize hsession hdrain hsend hready
    hchannels
  refine ⟨outcome, houtcome, hdone, fun hlegal => hdone.trans ⟨fun hshort owner howner => ?_, fun hnone owner howner => ?_⟩⟩
  · refine eq_nil_iff_forall_not_mem.mpr fun frame hframe => ?_
    obtain ⟨pageCapacity, batch, hdecode⟩ := hlegal owner frame hframe
    exact absurd (hshort owner howner frame hframe) (Nat.not_le.mpr (barrierBytes_lt_result hdecode))
  · intro frame hframe
    rw [hnone owner howner] at hframe
    cases hframe

end Barrier

def sampleCoordinator : Coordinator where
  protocolVersion := 6
  slot := 0
  sessionId := 9
  appendOwnerMask := 2
  appendSequence _ := 5

def sampleState (queue : Queue) : State where
  transport := .ready
  channels owner := queue.wire sampleCoordinator owner
  sent := []

theorem resultMaxBytes_eq : resultMaxBytes = 2535436 := by
  rw [resultMaxBytes, pageEntryBytes]
  decide

theorem coordinatorQsaBarrier_stale_sample :
    ∃ outcome, coordinatorQsaBarrier sampleCoordinator ⟨.ok (), fun _ => .ok ()⟩ (sampleState ⟨[⟨8, 1, 0, [7]⟩], 0, [1, 2]⟩) =
        some outcome ∧
      Done sampleCoordinator (fun _ => ⟨[⟨8, 1, 0, [7]⟩], 0, [1, 2]⟩) outcome := by
  obtain ⟨outcome, houtcome, hdone, -⟩ := @coordinatorQsaBarrier_stale sampleCoordinator (by decide) (by decide)
    (fun _ => ⟨[⟨8, 1, 0, [7]⟩], 0, [1, 2]⟩) (by simp [resultMaxBytes_eq]) ⟨.ok (), fun _ => .ok ()⟩ (by decide) rfl
    (fun _ => rfl) (sampleState ⟨[⟨8, 1, 0, [7]⟩], 0, [1, 2]⟩) rfl (fun _ _ => rfl)
  refine ⟨outcome, houtcome, hdone.mpr fun owner _ frame hframe => ?_⟩
  obtain rfl := mem_singleton.mp hframe
  decide

def oldBatch : QsaOwner.PageBatch PageRecords := ⟨1, 0, 4, [⟨3, 0, some zeroRecords⟩]⟩

def oldResult : StaleResult := ⟨8, 4, 0, pageBatchWire true oldBatch⟩

/-- A legal result of one page before the acknowledgement: the barrier fails. -/
theorem coordinatorQsaBarrier_refused :
    qsaPageResultEncode resultMaxBytes oldBatch = .ok oldResult.payload ∧
    ∃ outcome, coordinatorQsaBarrier sampleCoordinator ⟨.ok (), fun _ => .ok ()⟩ (sampleState ⟨[oldResult], 0, []⟩) =
        some outcome ∧
      ¬Done sampleCoordinator (fun _ => ⟨[oldResult], 0, []⟩) outcome := by
  have hpages : pageEntryBytes true = 4952 := by
    rw [pageEntryBytes]
    decide
  have hlength : pageBatchBytes true oldBatch = 4964 := by rw [pageBatchBytes, hpages]; rfl
  have hpayload : oldResult.payload.length = 4964 := (pageBatchWire_length ..).trans hlength
  constructor
  · have hvalid : QsaOwner.validateQsaPageBatch QsaOwner.fetchMaxPages true oldBatch = .ok () := rfl
    rw [qsaPageResultEncode, hvalid, hlength, resultMaxBytes_eq]
    rfl
  · obtain ⟨outcome, houtcome, hdone⟩ := @coordinatorQsaBarrier_queue sampleCoordinator (by decide) (by decide)
      (fun _ => ⟨[oldResult], 0, []⟩) (by simp [hpayload, resultMaxBytes_eq]) ⟨.ok (), fun _ => .ok ()⟩ (by decide) rfl
      (fun _ => rfl) (sampleState ⟨[oldResult], 0, []⟩) rfl (fun _ _ => rfl)
    refine ⟨outcome, houtcome, fun h => ?_⟩
    have hshort := hdone.mp h 1 (by decide) oldResult mem_cons_self
    rw [hpayload] at hshort
    exact absurd hshort (by decide)

end FlashGordon.Barrier
