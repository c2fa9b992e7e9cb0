import FlashGordon.HeapTree
import FlashGordon.PrefillDispatch

/-! The workers' side of the prefill reduction: `handle_prefill_expert_work` (`runtime.c`), which passes
the broadcast on to the children of its node, computes its own experts and streams reduced tiles to its
parent; the layer checks of `fg_topology_validate` (`topology.c`); and
`fg_prefill_results_validate_route` (`protocol.c`). A message on the wire is the record that its codec
carries; encoding and decoding make the codec's own checks. Last, the ranks joined into one network:
every worker reads what its children send, and the source reads what the root sends. A receive names the
channel it reads, so what the ranks compute does not depend on the order in which they run. -/

namespace FlashGordon.Prefill

open Transport Shares

section Topology

def epDelta : Fin 4 → Nat
  | 0 => 0
  | 1 => 1
  | 2 => 3
  | 3 => 5

/-- One round of the layer loop of `fg_topology_validate`. -/
def validateLayer (manifest : Manifest) (layer : Nat) : Except Error Unit :=
  let experts := List.range expertCount
  if rankCount ≤ manifest.layerOwner layer then
    .error ⟨.format, s!"layer {layer} owner is outside the fleet"⟩
  else match groupRanks manifest layer with
    | [rank] =>
      if rankCount ≤ rank then .error ⟨.format, s!"layer {layer} group topology mismatch"⟩
      else match experts.find? fun expert => manifest.expertRank layer expert ≠ rank with
        | some expert =>
          .error ⟨.format, s!"layer {layer} expert {expert} assigned outside its single owner"⟩
        | none => .ok ()
    | _ =>
      -- the expected ranks of a layer are different ones, so the duplicate test never decides
      if ∃ group, manifest.layerGroups layer group ≠ (layer + epDelta group) % rankCount then
        .error ⟨.format, s!"layer {layer} group topology mismatch"⟩
      else match experts.find? fun expert => ¬ ∃ group,
          manifest.layerGroups layer group = manifest.expertRank layer expert with
        | some expert => .error ⟨.format, s!"layer {layer} expert {expert} assigned outside group"⟩
        | none =>
          let owned := fun rank => experts.countP fun expert => manifest.expertRank layer expert = rank
          match (List.finRange 4).find? fun group =>
              owned (manifest.layerGroups layer group) ≠ expertsPerRank with
          | some group =>
            let rank := manifest.layerGroups layer group
            let count := owned rank
            .error ⟨.format,
              s!"layer {layer} rank {rank} owns {count} experts, expected {expertsPerRank}"⟩
          | none => .ok ()

/-- The layer loop of `fg_topology_validate`. -/
def validateTopology (manifest : Manifest) : Except Error Unit :=
  (List.range layerCount).foldlM (fun _ layer => validateLayer manifest layer) ()

end Topology

/-- What travels between the ranks. -/
inductive Message (Row : Type) where
  | work (work : PrefillWork)
  | result (result : PrefillResult Row)

section Codec

variable {Row : Type} [Zero Row] [DecidableEq Row] (finite : Row → Bool)

/-- `fg_prefill_work_encode`. -/
def prefillWorkEncode (work : PrefillWork) : Except Error (Message Row) :=
  (validatePrefillWork work).map fun _ => .work work

/-- `fg_prefill_work_decode`, into storage for `tokenCapacity` tokens. -/
def prefillWorkDecode (tokenCapacity : Nat) : Message Row → Except Error PrefillWork
  | .result _ => .error ⟨.format, "invalid prefill work payload size or header"⟩
  | .work work =>
    if work.tokenCount = 0 ∨ prefillMaxTokens < work.tokenCount ∨ work.pairs.length = 0 ∨
        work.tokenCount * topK < work.pairs.length ∨ tokenCapacity < work.tokenCount ∨
        tokenCapacity * topK < work.pairs.length then
      .error ⟨.format, "invalid prefill work payload size or header"⟩
    else (validatePrefillWork work).map fun _ => work

/-- `fg_prefill_result_encode`: the rows of the result's own tokens are written. -/
def prefillResultEncode (result : PrefillResult Row) : Except Error (Message Row) :=
  (validatePrefillResult finite result).map fun _ =>
    .result { result with
      outputs := fun token => if token < result.tokenCount then result.outputs token else 0 }

/-- `fg_prefill_result_decode`. -/
def prefillResultDecode : Message Row → Except Error (PrefillResult Row)
  | .work _ => .error ⟨.format, "invalid prefill shard result version, size or header"⟩
  | .result result =>
    if result.contributorMask = ∅ ∨ result.tokenCount = 0 ∨ prefillMaxTokens < result.tokenCount ∨
        result.tokenCount * topK < result.pairs.length then
      .error ⟨.format, "invalid prefill shard result version, size or header"⟩
    else (validatePrefillResult finite result).map fun _ => result

/-- The duplicate check of `fg_prefill_results_validate_route`, with the pairs already passed. -/
def checkCanonical : List PrefillPair → List PrefillPair → Except Error Unit
  | _, [] => .ok ()
  | before, pair :: rest =>
    let token := pair.tokenSlot
    let slot := pair.routingSlot
    if expertCount ≤ pair.expertId ∨
        (before.any fun other => other.tokenSlot = pair.tokenSlot ∧ other.expertId = pair.expertId) then
      .error ⟨.format, s!"invalid canonical prefill expert token {token} slot {slot}"⟩
    else checkCanonical (before ++ [pair]) rest

/-- The result loop of `fg_prefill_results_validate_route`: the ranks seen and the pairs received. -/
def checkResults (manifest : Manifest) (work : PrefillWork) :
    List (PrefillResult Row) → Finset Nat → Nat → Except Error Nat
  | [], _, received => .ok received
  | result :: rest, seen, received =>
    if result.firstPosition ≠ work.firstPosition ∨ result.tokenCount ≠ work.tokenCount ∨
        seen ∩ result.contributorMask ≠ ∅ then
      .error ⟨.mismatch, "overlapping prefill subtrees"⟩
    else match validateSubset finite manifest work result.contributorMask result with
      | .error err => .error err
      | .ok () =>
        checkResults manifest work rest (seen ∪ result.contributorMask) (received + result.pairs.length)

/-- The work that `fg_prefill_results_validate_route` rebuilds from the expert ids, with zero gates. -/
def canonicalWork (layer ownerRank : Nat) (firstPosition : UInt32) (routing : Routing) : PrefillWork where
  layer := layer
  sourceRank := ownerRank
  destinationRank := ownerRank
  firstPosition := firstPosition
  tokenCount := routing.tokenCount
  pairs := { routing with gates := fun _ _ => ⟨0⟩ : Routing }.pairs

/-- `fg_prefill_results_validate_route`. -/
def validateRoute (manifest : Manifest) (layer ownerRank : Nat) (firstPosition : UInt32)
    (routing : Routing) (results : List (PrefillResult Row)) : Except Error Unit :=
  let work := canonicalWork layer ownerRank firstPosition routing
  if layerCount ≤ layer ∨ rankCount ≤ ownerRank ∨
      (ownerRank ≠ 0 ∧ manifest.layerOwner layer ≠ ownerRank) ∨ routing.tokenCount = 0 ∨
      prefillMaxTokens < routing.tokenCount ∨ results.length = 0 ∨ groupSize < results.length then
    .error ⟨.argument, "invalid prefill result route validation arguments"⟩
  else match checkCanonical [] work.pairs with
    | .error err => .error err
    | .ok () =>
      match checkResults finite manifest work results ∅ 0 with
      | .error err => .error err
      | .ok received =>
        if received ≠ routing.tokenCount * topK then
          .error ⟨.mismatch, "incomplete prefill reduction"⟩
        else .ok ()

end Codec

structure WorkerContext where
  manifest : Manifest
  self : Nat
  sessionId : UInt64
  tokenCapacity : Nat

/-- Everything outside a worker: its sends, its device, and the n-th frame of each child's channel. -/
structure WorkerEnvironment (Row : Type) where
  send : Nat → Except Error Unit
  expertPrefill : PrefillWork → Except Error (Nat → Row)
  arrive : Nat → Nat → Except Error (Frame (Message Row))

/-- What a worker leaves: the broadcasts it passed on and to whom, the frames it sent to the peer the
work came from, and its status. -/
structure Handled (Row : Type) where
  forwards : List (Nat × Frame (Message Row))
  tiles : List (Frame (Message Row))
  status : Except Error Unit

section Worker

variable {Row : Type} [ZeroSum Row] [DecidableEq Row] (finite : Row → Bool)

/-- A broadcast that a worker takes up: the work, the ranks of the tree and its own node. -/
structure Admitted where
  work : PrefillWork
  ranks : List Nat
  node : Nat

def admitWork (context : WorkerContext) (frame : Frame (Message Row)) : Except Error Admitted :=
  match prefillWorkDecode context.tokenCapacity frame.payload with
  | .error err => .error err
  | .ok work =>
    if context.sessionId = 0 ∨ frame.requestId ≠ context.sessionId ∨ work.destinationRank ≠ context.self ∨
        (work.sourceRank ≠ 0 ∧ context.manifest.layerOwner work.layer ≠ work.sourceRank) ∨
        frame.sequence ≠ work.firstPosition * UInt32.ofNat layerCount + UInt32.ofNat work.layer then
      .error ⟨.mismatch, "stale or misrouted prefill broadcast"⟩
    else match prefillTreeRanks context.manifest work with
      | .error err => .error err
      | .ok ranks =>
        let node := ranks.idxOf context.self
        let parent := if node = 0 then work.sourceRank else ranks.getD (HeapTree.parent node) 0
        if node = ranks.length ∨ frame.peer ≠ parent then
          .error ⟨.mismatch, "prefill broadcast from wrong parent"⟩
        else .ok ⟨work, ranks, node⟩

def replyFrame (context : WorkerContext) (type : MessageType) (frame : Frame (Message Row))
    (payload : Message Row) : Frame (Message Row) :=
  ⟨context.self, type, frame.requestId, frame.sequence, payload⟩

/-- The forwarding loop: every child gets the same work with its own destination. -/
def forwardWork (context : WorkerContext) (environment : WorkerEnvironment Row) (frame : Frame (Message Row))
    (admitted : Admitted) : List Nat → List (Nat × Frame (Message Row)) × Except Error Unit
  | [] => ([], .ok ())
  | child :: rest =>
    let rank := admitted.ranks.getD child 0
    match prefillWorkEncode { admitted.work with destinationRank := rank } with
    | .error err => ([], .error err)
    | .ok payload =>
      match environment.send rank with
      | .error err => ([], .error err)
      | .ok () =>
        let others := forwardWork context environment frame admitted rest
        ((rank, replyFrame context .prefillWork frame payload) :: others.1, others.2)

/-- `prefill_merge`, at the tile's place in the batch. -/
def mergeTile (first : Nat) (tile : PrefillResult Row) (outputs : Nat → Row) (token : Nat) : Row :=
  if first ≤ token ∧ token < first + tile.tokenCount then outputs token + tile.outputs (token - first)
  else outputs token

def mergeChildren (context : WorkerContext) (environment : WorkerEnvironment Row)
    (frame : Frame (Message Row)) (admitted : Admitted) (index first : Nat) :
    List Nat → (Nat → Row) → Except Error (Nat → Row)
  | [], outputs => .ok outputs
  | child :: rest, outputs =>
    let rank := admitted.ranks.getD child 0
    match environment.arrive rank index with
    | .error err => .error err
    | .ok reply =>
      match checkTile finite (prefillResultDecode finite) "subtree" context.manifest admitted.work
          (prefillSubtreeMask admitted.ranks child) rank frame.requestId frame.sequence first reply with
      | .error err => .error err
      | .ok tile =>
        mergeChildren context environment frame admitted index first rest (mergeTile first tile outputs)

def nodeTile (context : WorkerContext) (admitted : Admitted) (first : Nat) (outputs : Nat → Row) :
    PrefillResult Row where
  layer := admitted.work.layer
  sourceRank := context.self
  destinationRank := admitted.work.sourceRank
  contributorMask := prefillSubtreeMask admitted.ranks admitted.node
  firstPosition := admitted.work.firstPosition + UInt32.ofNat first
  tokenCount := tileTokens admitted.work.tokenCount first
  pairs := windowPairs context.manifest admitted.work (prefillSubtreeMask admitted.ranks admitted.node)
    first (tileTokens admitted.work.tokenCount first)
  outputs := fun token => outputs (first + token)

def sendTiles (context : WorkerContext) (environment : WorkerEnvironment Row) (frame : Frame (Message Row))
    (admitted : Admitted) (index : Nat) :
    List Nat → (Nat → Row) → List (Frame (Message Row)) × Except Error Unit
  | [], _ => ([], .ok ())
  | first :: rest, outputs =>
    match mergeChildren finite context environment frame admitted index first
        (HeapTree.children admitted.ranks.length admitted.node) outputs with
    | .error err => ([], .error err)
    | .ok outputs =>
      match prefillResultEncode finite (nodeTile context admitted first outputs) with
      | .error err => ([], .error err)
      | .ok payload =>
        match environment.send frame.peer with
        | .error err => ([], .error err)
        | .ok () =>
          let others := sendTiles context environment frame admitted (index + 1) rest outputs
          (replyFrame context .prefillResult frame payload :: others.1, others.2)

def localWork (manifest : Manifest) (work : PrefillWork) (rank : Nat) : PrefillWork :=
  { work with
    destinationRank := rank
    pairs := work.pairs.filter fun pair => manifest.pairRank work.layer pair = rank }

/-- The part of the handler after the broadcast was passed on. -/
def reduceSubtree (context : WorkerContext) (environment : WorkerEnvironment Row)
    (frame : Frame (Message Row)) (admitted : Admitted) : List (Frame (Message Row)) × Except Error Unit :=
  let own := localWork context.manifest admitted.work context.self
  match environment.expertPrefill own with
  | .error err => ([], .error err)
  | .ok outputs =>
    match validateSubset finite context.manifest { admitted.work with destinationRank := context.self }
        {context.self} (expertResult context.self own outputs) with
    | .error err => ([], .error err)
    | .ok () =>
      sendTiles finite context environment frame admitted 0 (tileStarts admitted.work.tokenCount) outputs

def handlePrefillExpertWork (context : WorkerContext) (environment : WorkerEnvironment Row)
    (frame : Frame (Message Row)) : Handled Row :=
  match admitWork context frame with
  | .error err => ⟨[], [], .error err⟩
  | .ok admitted =>
    let forwarded := forwardWork context environment frame admitted
      (HeapTree.children admitted.ranks.length admitted.node)
    match forwarded.2 with
    | .error err => ⟨forwarded.1, [], .error err⟩
    | .ok () =>
      let reduced := reduceSubtree finite context environment frame admitted
      ⟨forwarded.1, reduced.1, reduced.2⟩

end Worker

/-- The deployment that a reduction runs on: what all ranks share, and what the device of each rank
computes for the work it is given. -/
structure Fleet (Row : Type) where
  manifest : Manifest
  sessionId : UInt64
  tokenCapacity : Nat
  device : Nat → PrefillWork → Nat → Row

section Network

variable {Row : Type} [ZeroSum Row] [DecidableEq Row] (finite : Row → Bool)

def Fleet.worker (fleet : Fleet Row) (rank : Nat) : WorkerContext :=
  ⟨fleet.manifest, rank, fleet.sessionId, fleet.tokenCapacity⟩

def channel (frames : List (Frame (Message Row))) (n : Nat) : Except Error (Frame (Message Row)) :=
  match frames[n]? with
  | some frame => .ok frame
  | none => .error ⟨.io, "fabric channel is quiet"⟩

/-- A worker that has received a broadcast, with all workers below it: each child takes up the
broadcast passed on to it and answers with its tiles. `depth` bounds the levels of the tree. -/
def runWorker (fleet : Fleet Row) : Nat → Nat → Frame (Message Row) → Handled Row
  | 0, _, _ => ⟨[], [], .error ⟨.unavailable, "rank is not running"⟩⟩
  | depth + 1, rank, frame =>
    let quiet := handlePrefillExpertWork finite (fleet.worker rank)
      ⟨fun _ => .ok (), fun work => .ok (fleet.device rank work), fun _ => channel []⟩ frame
    handlePrefillExpertWork finite (fleet.worker rank)
      { send := fun _ => .ok ()
        expertPrefill := fun work => .ok (fleet.device rank work)
        arrive := fun child =>
          match quiet.forwards.lookup child with
          | some broadcast => channel (runWorker fleet depth child broadcast).tiles
          | none => channel [] }
      frame

/-- Every broadcast delivered below a rank, its own first, with the rank that receives it. -/
def deliveries (fleet : Fleet Row) : Nat → Nat → Frame (Message Row) → List (Nat × Frame (Message Row))
  | 0, rank, frame => [(rank, frame)]
  | depth + 1, rank, frame =>
    (rank, frame) :: (runWorker finite fleet (depth + 1) rank frame).forwards.flatMap fun forward =>
      deliveries fleet depth forward.1 forward.2

def broadcastFrame (fleet : Fleet Row) (source : Nat) (sequence : UInt32) (work : PrefillWork) : Frame (Message Row) :=
  ⟨source, .prefillWork, fleet.sessionId, sequence, .work work⟩

def ownWork (manifest : Manifest) (source layer : Nat) (firstPosition : UInt32) (routing : Routing) :
    PrefillWork where
  layer := layer
  sourceRank := source
  destinationRank := source
  firstPosition := firstPosition
  tokenCount := routing.tokenCount
  pairs := routing.pairs.filter fun pair => manifest.pairRank layer pair = source

/-- The source's dispatch, with nothing failing but what the frames of its channel make fail. -/
def runSource (fleet : Fleet Row) (source layer : Nat) (firstPosition : UInt32) (routing : Routing)
    (arrive : Nat → Except Error (Frame (Message Row))) : Dispatched Row (Message Row) :=
  dispatchPrefillExperts finite (prefillResultDecode finite)
    ⟨fleet.manifest, source, fleet.sessionId, firstPosition * UInt32.ofNat layerCount + UInt32.ofNat layer, .ready⟩
    ⟨.ok (), .ok (), .ok (), .ok (), .ok (fleet.device source (ownWork fleet.manifest source layer firstPosition routing)), arrive⟩
    layer firstPosition routing

structure Reduction (Row : Type) where
  delivered : List (Nat × Frame (Message Row))
  dispatched : Dispatched Row (Message Row)

/-- The source broadcasts, the tree answers, and the source reads the root's tiles. -/
def runReduction (fleet : Fleet Row) (source layer : Nat) (firstPosition : UInt32) (routing : Routing) :
    Reduction Row :=
  let sequence := firstPosition * UInt32.ofNat layerCount + UInt32.ofNat layer
  match (runSource finite fleet source layer firstPosition routing (channel [])).broadcast with
  | none => ⟨[], runSource finite fleet source layer firstPosition routing (channel [])⟩
  | some (root, work) =>
    let frame := broadcastFrame fleet source sequence work
    ⟨deliveries finite fleet groupSize root frame,
      runSource finite fleet source layer firstPosition routing
        (channel (runWorker finite fleet groupSize root frame).tiles)⟩

end Network

end FlashGordon.Prefill
