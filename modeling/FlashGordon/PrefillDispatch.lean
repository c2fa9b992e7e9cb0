import FlashGordon.PrefillWork
import FlashGordon.Transport

/-! The source's side of the prefill reduction: `fg_partition_prefill_routes` (`protocol.c`) and
`dispatch_prefill_experts` (`runtime.c`), which broadcasts the work to the root of the tree, computes its
own experts and drains the root's tile stream. The fabric, the allocator and the device are parameters. -/

namespace FlashGordon.Prefill

open Transport

structure PrefillRoute where
  destinationRank : Nat
  pairs : List PrefillPair

structure Routing where
  tokenCount : Nat
  expertIds : Nat → Nat → Nat
  gates : Nat → Nat → Binary32

/-- All (token, slot) pairs of a routing, token by token. -/
def Routing.pairs (routing : Routing) : List PrefillPair :=
  (List.range routing.tokenCount).flatMap fun token =>
    (List.range topK).map fun slot => ⟨token, routing.expertIds token slot, slot, routing.gates token slot⟩

/-- The checking loop of `fg_partition_prefill_routes`, with the pairs already passed. -/
def checkRoutes (manifest : Manifest) (layer : Nat) : List PrefillPair → List PrefillPair → Except Error Unit
  | _, [] => .ok ()
  | before, pair :: rest =>
    let token := pair.tokenSlot
    let slot := pair.routingSlot
    let expert := pair.expertId
    if expertCount ≤ pair.expertId ∨ pair.gate.isFinite = false ∨
        (before.any fun other => other.tokenSlot = pair.tokenSlot ∧ other.expertId = pair.expertId) then
      .error ⟨.format, s!"invalid prefill expert token {token} slot {slot}"⟩
    else if rankInLayer manifest layer (manifest.pairRank layer pair) = false then
      .error ⟨.mismatch, s!"prefill expert {expert} is outside layer {layer} group"⟩
    else checkRoutes manifest layer (before ++ [pair]) rest

def groupRanks (manifest : Manifest) (layer : Nat) : List Nat :=
  ((List.finRange 4).map (manifest.layerGroups layer)).eraseDups

/-- `fg_partition_prefill_routes`: one route for every rank of the group that a pair falls to. -/
def partitionPrefillRoutes (manifest : Manifest) (layer : Nat) (routing : Routing) : Except Error (List PrefillRoute) :=
  if layerCount ≤ layer ∨ routing.tokenCount = 0 ∨ prefillMaxTokens < routing.tokenCount then
    .error ⟨.argument, "invalid prefill route partition arguments"⟩
  else match checkRoutes manifest layer [] routing.pairs with
    | .error err => .error err
    | .ok () =>
      .ok ((groupRanks manifest layer).filterMap fun rank =>
        match routing.pairs.filter fun pair => manifest.pairRank layer pair = rank with
        | [] => none
        | pairs => some ⟨rank, pairs⟩)

section Tiles

variable {Row Payload : Type} [Zero Row] [DecidableEq Row] (finite : Row → Bool)
  (decode : Payload → Except Error (PrefillResult Row))

/-- The checks of a received tile, at the root (`dispatch_prefill_experts`) or inside the tree
(`handle_prefill_expert_work`); `place` names which in the error texts. -/
def checkTile (place : String) (manifest : Manifest) (work : PrefillWork) (mask : Finset Nat)
    (sender : Nat) (requestId : UInt64) (sequence : UInt32) (first : Nat) (frame : Frame Payload) :
    Except Error (PrefillResult Row) :=
  if ¬ Frame.Answers .prefillResult requestId sequence frame then
    .error ⟨.mismatch, s!"stale prefill {place} frame"⟩
  else match decode frame.payload with
    | .error err => .error err
    | .ok tile =>
      if tile.sourceRank ≠ sender ∨ tile.firstPosition ≠ work.firstPosition + UInt32.ofNat first ∨
          tile.tokenCount ≠ tileTokens work.tokenCount first then
        .error ⟨.mismatch, s!"wrong prefill {place} sender or tile"⟩
      else match validateSubset finite manifest work mask tile with
        | .error err => .error err
        | .ok () => .ok tile

/-- What the drain has gathered: its status, the frames read, and the result assembled from the tiles. -/
structure Draining (Row Payload : Type) where
  received : Except Error Unit
  consumed : List (Frame Payload)
  pairs : List ResultPair
  outputs : Nat → Row

def Draining.place (draining : Draining Row Payload) (first : Nat) (tile : PrefillResult Row) :
    Draining Row Payload :=
  { draining with
    pairs := draining.pairs ++ tile.pairs.map fun pair => ⟨pair.tokenSlot + first, pair.routingSlot⟩
    outputs := fun token =>
      if first ≤ token ∧ token < first + tile.tokenCount then tile.outputs (token - first)
      else draining.outputs token }

def receiveFrom (peer : Nat) (arrive : Nat → Except Error (Frame Payload)) (n : Nat) : Except Error (Frame Payload) :=
  (arrive n).map fun frame => { frame with peer := peer }

/-- The drain loop: every tile is read even after one was refused; a failed receive breaks it. -/
def drainTiles (check : Nat → Frame Payload → Except Error (PrefillResult Row))
    (arrive : Nat → Except Error (Frame Payload)) :
    List Nat → Draining Row Payload → Draining Row Payload
  | [], draining => draining
  | first :: rest, draining =>
    match arrive draining.consumed.length with
    | .error err => { draining with received := firstError draining.received err }
    | .ok frame =>
      let read := { draining with consumed := draining.consumed ++ [frame] }
      drainTiles check arrive rest
        (match draining.received with
        | .error _ => read
        | .ok () =>
          match check first frame with
          | .error err => { read with received := .error err }
          | .ok tile => read.place first tile)

end Tiles

structure Environment (Row Payload : Type) where
  allocate : Except Error Unit
  send : Except Error Unit
  shared : Except Error Unit
  enqueue : Except Error Unit
  finish : Except Error (Nat → Row)
  arrive : Nat → Except Error (Frame Payload)

structure DispatchContext where
  manifest : Manifest
  self : Nat
  requestId : UInt64
  sequence : UInt32
  transport : State

/-- What the dispatch leaves: transport and status, the work it broadcast and to whom, the frames it
consumed, and the results (its own first), which are read only after a good status. -/
structure Dispatched (Row Payload : Type) where
  transport : State
  status : Except Error Unit
  broadcast : Option (Nat × PrefillWork)
  sendFailed : Bool
  consumed : List (Frame Payload)
  results : List (PrefillResult Row)

section Dispatch

variable {Row Payload : Type} [Zero Row] [DecidableEq Row] (finite : Row → Bool)
  (decode : Payload → Except Error (PrefillResult Row))

def sourceWork (self layer : Nat) (firstPosition : UInt32) (tokenCount : Nat)
    (routes : List PrefillRoute) : PrefillWork where
  layer := layer
  sourceRank := self
  destinationRank := self
  firstPosition := firstPosition
  tokenCount := tokenCount
  pairs := routes.flatMap PrefillRoute.pairs

/-- The result that `fg_expert_prefill_finish` fills in for a rank's own pairs. -/
def expertResult (rank : Nat) (work : PrefillWork) (outputs : Nat → Row) : PrefillResult Row where
  layer := work.layer
  sourceRank := rank
  destinationRank := work.sourceRank
  contributorMask := {rank}
  firstPosition := work.firstPosition
  tokenCount := work.tokenCount
  pairs := work.pairs.map fun pair => ⟨pair.tokenSlot, pair.routingSlot⟩
  outputs := outputs

def rootResult (work : PrefillWork) (ranks : List Nat) (draining : Draining Row Payload) :
    PrefillResult Row where
  layer := work.layer
  sourceRank := ranks.headD 0
  destinationRank := work.sourceRank
  contributorMask := prefillSubtreeMask ranks 0
  firstPosition := work.firstPosition
  tokenCount := work.tokenCount
  pairs := draining.pairs
  outputs := draining.outputs

/-- The exchange with the tree once the broadcast was sent: drain the root's channel, then validate the
assembled result. -/
def drainRoot (context : DispatchContext) (work : PrefillWork) (ranks : List Nat)
    (arrive : Nat → Except Error (Frame Payload)) : Draining Row Payload :=
  let drained := drainTiles
    (checkTile finite decode "root" context.manifest work (prefillSubtreeMask ranks 0) (ranks.headD 0)
      context.requestId context.sequence)
    (receiveFrom (ranks.headD 0) arrive) (tileStarts work.tokenCount) ⟨.ok (), [], [], fun _ => 0⟩
  match drained.received with
  | .error _ => drained
  | .ok () =>
    { drained with
      received := validateSubset finite context.manifest work (prefillSubtreeMask ranks 0)
        (rootResult work ranks drained) }

/-- The rest of the dispatch once the broadcast was sent, or found to be needless: shared work, own
experts, drain, finish. -/
def dispatchSent (context : DispatchContext) (environment : Environment Row Payload) (work : PrefillWork)
    (ranks : List Nat) (routes : List PrefillRoute) (sent : Bool) (transport : State) :
    Dispatched Row Payload :=
  let own := (routes.find? fun route => route.destinationRank = context.self).map fun route =>
    { work with destinationRank := context.self, pairs := route.pairs }
  let enqueued := environment.shared = .ok () ∧ environment.enqueue = .ok () ∧ own.isSome
  let draining := drainRoot finite decode context work ranks environment.arrive
  { transport :=
      if sent = false then transport
      else if draining.received = .ok () then transportComplete transport
      else transportPoison transport
    status := do
      environment.shared
      if own.isSome then environment.enqueue
      if sent then draining.received
      if enqueued then discard environment.finish
    broadcast := if sent then some (ranks.headD 0, work) else none
    sendFailed := false
    consumed := if sent then draining.consumed else []
    results :=
      (match own, environment.finish with
        | some own, .ok outputs => if enqueued then [expertResult context.self own outputs] else []
        | _, _ => []) ++
      if sent ∧ draining.received = .ok () then [rootResult work ranks draining] else [] }

def dispatchPrefillExperts (context : DispatchContext) (environment : Environment Row Payload)
    (layer : Nat) (firstPosition : UInt32) (routing : Routing) : Dispatched Row Payload :=
  let refused := fun err => (⟨context.transport, .error err, none, false, [], []⟩ : Dispatched Row Payload)
  match partitionPrefillRoutes context.manifest layer routing with
  | .error err => refused err
  | .ok routes =>
    let work := sourceWork context.self layer firstPosition routing.tokenCount routes
    match prefillTreeRanks context.manifest work with
    | .error err => refused err
    | .ok [] => dispatchSent finite decode context environment work [] routes false context.transport
    | .ok (root :: rest) =>
      match environment.allocate with
      | .error err => refused err
      | .ok () =>
        let work := { work with destinationRank := root }
        match validatePrefillWork work with
        | .error err => refused err
        | .ok () =>
          let transport := transportPending context.transport
          match environment.send with
          | .error err => ⟨transportPoison transport, .error err, none, true, [], []⟩
          | .ok () =>
            dispatchSent finite decode context environment work (root :: rest) routes true transport

section Discipline

variable {finite decode} {check : Nat → Frame Payload → Except Error (PrefillResult Row)}
  {arrive : Nat → Except Error (Frame Payload)}

omit [Zero Row] [DecidableEq Row] in
theorem drainTiles_refused {starts : List Nat} {draining : Draining Row Payload} {err : Error}
    (h : draining.received = .error err) :
    (drainTiles check arrive starts draining).received = .error err := by
  induction starts generalizing draining with
  | nil => exact h
  | cons first rest ih =>
    unfold drainTiles
    split
    · rw [h]
      rfl
    · rw [h]
      exact ih rfl

omit [Zero Row] [DecidableEq Row] in
theorem drainTiles_accepted {starts : List Nat} {draining : Draining Row Payload}
    (h : (drainTiles check arrive starts draining).received = .ok ()) :
    ∃ frames, (drainTiles check arrive starts draining).consumed = draining.consumed ++ frames ∧
      List.Forall₂ (fun first frame => (∃ tile, check first frame = .ok tile) ∧ ∃ n, arrive n = .ok frame)
        starts frames := by
  induction starts generalizing draining with
  | nil => exact ⟨[], (List.append_nil _).symm, .nil⟩
  | cons first rest ih =>
    cases hstatus : draining.received with
    | error err =>
      rw [drainTiles_refused hstatus] at h
      cases h
    | ok u =>
      unfold drainTiles at h ⊢
      cases harrive : arrive draining.consumed.length with
      | error err =>
        simp only [harrive, hstatus, firstError] at h
        cases h
      | ok frame =>
        simp only [harrive, hstatus] at h ⊢
        cases htile : check first frame with
        | error err =>
          simp only [htile] at h
          rw [drainTiles_refused rfl] at h
          cases h
        | ok tile =>
          simp only [htile] at h ⊢
          obtain ⟨frames, hconsumed, hframes⟩ := ih h
          refine ⟨frame :: frames, ?_, .cons ⟨⟨tile, htile⟩, _, harrive⟩ hframes⟩
          rw [hconsumed]
          simp [Draining.place]

/-- The consumed frames are the complete tile stream of the root the work was broadcast to, or nothing
when nothing was broadcast. -/
def StreamOf (finite : Row → Bool) (decode : Payload → Except Error (PrefillResult Row))
    (context : DispatchContext) (broadcast : Option (Nat × PrefillWork)) (consumed : List (Frame Payload)) :
    Prop :=
  match broadcast with
  | none => consumed = []
  | some (root, work) => List.Forall₂
      (fun first frame => frame.peer = root ∧
        ∃ tile, checkTile finite decode "root" context.manifest work
          (prefillSubtreeMask (activeRanks context.manifest work) 0) root context.requestId context.sequence
          first frame = .ok tile)
      (tileStarts work.tokenCount) consumed

theorem drainRoot_accepted {context : DispatchContext} {work : PrefillWork} {ranks : List Nat}
    (hranks : activeRanks context.manifest work = ranks) (h : (drainRoot finite decode context work ranks arrive).received = .ok ()) :
    StreamOf finite decode context (some (ranks.headD 0, work))
      (drainRoot finite decode context work ranks arrive).consumed := by
  unfold drainRoot at h ⊢
  dsimp only at h ⊢
  split at h
  next err hdrained =>
    rw [hdrained] at h
    cases h
  next hdrained =>
    obtain ⟨frames, hconsumed, hframes⟩ := drainTiles_accepted hdrained
    simp only [StreamOf]
    rw [hconsumed, hranks]
    refine hframes.imp fun first frame hframe => ⟨?_, hframe.1⟩
    obtain ⟨-, n, harrive⟩ := hframe
    unfold receiveFrom at harrive
    cases hn : arrive n with
    | error err =>
      rw [hn] at harrive
      cases harrive
    | ok arrived =>
      rw [hn] at harrive
      cases harrive
      rfl

def Dispatched.outcome (dispatched : Dispatched Row Payload) : Outcome Payload :=
  ⟨dispatched.transport, dispatched.status, dispatched.consumed⟩

theorem dispatchSent_disciplined (context : DispatchContext) (environment : Environment Row Payload)
    {work : PrefillWork} {ranks : List Nat} (routes : List PrefillRoute) (sent : Bool)
    {start transport : State} (hranks : activeRanks context.manifest work = ranks)
    (hpoisoned : start = .poisoned → transport = .poisoned) :
    Disciplined
      (StreamOf finite decode context
        (dispatchSent finite decode context environment work ranks routes sent transport).broadcast)
      (dispatchSent finite decode context environment work ranks routes sent transport).sendFailed start
      (dispatchSent finite decode context environment work ranks routes sent transport).outcome := by
  unfold dispatchSent Dispatched.outcome
  cases sent with
  | false => exact .of_ready_only (fun _ _ => rfl) Bool.false_ne_true.elim hpoisoned
  | true =>
    refine .of_ready_only (fun _ hready => ?_) Bool.false_ne_true.elim fun hstart => ?_
    · simp only [Bool.true_eq_false, if_false, if_true] at hready ⊢
      split_ifs at hready with hreceived
      · exact drainRoot_accepted hranks hreceived
      · cases hready
    · simp only [Bool.true_eq_false, if_false, hpoisoned hstart]
      split_ifs
      · rfl
      · rfl

theorem prefill_disciplined (finite : Row → Bool) (decode : Payload → Except Error (PrefillResult Row))
    (context : DispatchContext) (environment : Environment Row Payload) (layer : Nat)
    (firstPosition : UInt32) (routing : Routing) :
    Disciplined
      (StreamOf finite decode context
        (dispatchPrefillExperts finite decode context environment layer firstPosition routing).broadcast)
      (dispatchPrefillExperts finite decode context environment layer firstPosition routing).sendFailed
      context.transport
      (dispatchPrefillExperts finite decode context environment layer firstPosition routing).outcome := by
  unfold dispatchPrefillExperts
  dsimp only
  have hrefused : ∀ err, Disciplined
      (StreamOf finite decode context (none : Option (Nat × PrefillWork))) false context.transport
      (⟨context.transport, .error err, none, false, [], []⟩ : Dispatched Row Payload).outcome :=
    fun err => .of_ready_only (fun _ _ => rfl) Bool.false_ne_true.elim fun h => h
  split
  · exact hrefused _
  · split
    · exact hrefused _
    next htree =>
      exact dispatchSent_disciplined context environment _ _ (prefillTreeRanks_ok htree) fun h => h
    next htree =>
      split
      · exact hrefused _
      · split
        · exact hrefused _
        · split
          · exact .of_ready_only (fun _ h => State.noConfusion h) (fun _ => rfl) fun _ => rfl
          · refine dispatchSent_disciplined context environment _ _ (prefillTreeRanks_ok htree) fun h => ?_
            rw [h]
            rfl

end Discipline

end Dispatch

end FlashGordon.Prefill
