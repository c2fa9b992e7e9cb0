import Mathlib.Data.Prod.Lex
import FlashGordon.Binary32
import FlashGordon.Status

/-! The split output head at its owner, rank 4: the row spans and ranks of a split (`protocol.c`), the
order of the finalists (`output.c`), the one-deep handoff state (`fg_output_handoff`) and the handlers of
the worker loop that feed it (`runtime.c`). The slice executor and the sampler are parameters; a result
frame is sent when a handler lists it. -/

namespace FlashGordon.OutputSplit

def vocabSize : Nat := 248320

/-- `FG_OUTPUT_SPLIT_FIRST_ROWS`. -/
def splitFirstRows : Nat := 140048

def splitWaysMin : Nat := 2

def splitWaysMax : Nat := 4

def outputRank : Nat := 4

/-- `fg_output_split_way_for_rank`. -/
def splitWayForRank (ways rank : Nat) : Option Nat :=
  if ways = splitWaysMin then
    if rank = 4 then some 0 else if rank = 0 then some 1 else none
  else if ways = splitWaysMax then
    if rank = 4 then some 0
    else if rank = 0 then some 1
    else if rank = 1 then some 2
    else if rank = 2 then some 3
    else none
  else none

/-- `fg_output_split_span`: the first row of a slice and how many rows it has. -/
def splitSpan (ways way : Nat) : Nat × Nat :=
  if ways = splitWaysMin then
    if way = 0 then (0, splitFirstRows)
    else if way = 1 then (splitFirstRows, vocabSize - splitFirstRows)
    else (0, 0)
  else if ways = splitWaysMax ∧ way < splitWaysMax then
    let per := vocabSize / splitWaysMax
    (way * per, if way + 1 = splitWaysMax then vocabSize - way * per else per)
  else (0, 0)

def InSpan (ways way row : Nat) : Prop :=
  (splitSpan ways way).1 ≤ row ∧ row < (splitSpan ways way).1 + (splitSpan ways way).2

instance (ways way row : Nat) : Decidable (InSpan ways way row) := inferInstanceAs (Decidable (_ ∧ _))

/-- The winner of some rows: a logit and its row. -/
structure Finalist where
  value : Binary32
  id : Nat
  deriving DecidableEq

def paddingId : Nat := 0xffffffff

/-- `fg_output_better`. -/
def outputBetter (left right : Finalist) : Bool :=
  let leftPadding := left.id = paddingId
  let rightPadding := right.id = paddingId
  if leftPadding ∨ rightPadding then ¬ leftPadding ∧ rightPadding
  else if left.value.isFinite = false ∨ right.value.isFinite = false then
    if left.value.isFinite ≠ right.value.isFinite then left.value.isFinite = false
    else left.id < right.id
  else
    right.value.order < left.value.order ∨ (left.value.order = right.value.order ∧ left.id < right.id)

/-- `fg_output_combine`. -/
def outputCombine (left right : Finalist) : Finalist := if outputBetter left right then left else right

structure OutputConfig where
  sourceRank : Nat
  destinationRank : Nat
  split : Bool
  split4 : Bool
  sessionSlot : Nat
  tokenIndex : UInt32
  /-- What `output_split_greedy` answers for the sampler. -/
  greedy : Bool

structure LayerResult (Activation : Type) where
  layer : Nat
  sourceRank : Nat
  destinationRank : Nat
  tokenIndex : UInt32
  hyper : Activation

structure OutputPartial where
  tokenIndex : UInt32
  finalist : Finalist

structure OutputResult where
  sourceRank : Nat
  destinationRank : Nat
  tokenIndex : UInt32
  token : Nat
  logit : Binary32
  deriving DecidableEq

/-- `fg_output_handoff`; each half is there or not, and a partial is kept with the rank it came from. -/
structure Handoff (Activation : Type) where
  config : Option OutputConfig
  hidden : Option (LayerResult Activation)
  hiddenSlice : Option (LayerResult Activation)
  own : Option Finalist
  remotes : List (Nat × Finalist)

structure FrameHeader where
  peer : Nat
  requestId : UInt64
  sequence : UInt32
  slot : Nat

inductive Message (Activation : Type) where
  | config (header : FrameHeader) (config : OutputConfig)
  | hidden (header : FrameHeader) (hidden : LayerResult Activation)
  | sliceHidden (header : FrameHeader) (slice : LayerResult Activation)
  | splitPartial (header : FrameHeader) (partialResult : OutputPartial)

/-- What the worker of rank 4 has: its session, the manifest's answers, and its executors. -/
structure Owner (Activation : Type) where
  sessionId : UInt64
  /-- What `decode_direct_output_eligible` answers for the manifest. -/
  eligible : Bool
  multiplexed : Bool
  lastLayerOwner : Nat
  sliceWays : Option Nat
  sliceRun : Activation → Except Error Finalist
  sample : OutputConfig → Activation → Except Error Finalist

variable {Activation : Type}

/-- `fg_output_handoff_reset`. -/
def Handoff.reset : Handoff Activation := ⟨none, none, none, none, []⟩

def Handoff.clearPartials (state : Handoff Activation) : Handoff Activation :=
  { state with own := none, remotes := [] }

def holds {α : Type} (half : Option α) (token : α → UInt32) (test : UInt32 → Bool) : Bool :=
  half.any fun stored => test (token stored)

/-- `fg_output_handoff_config`. -/
def handoffConfig (state : Handoff Activation) (config : OutputConfig) : Handoff Activation :=
  let new := config.tokenIndex
  if holds state.config OutputConfig.tokenIndex (new = ·) then { state with config := some config }
  else if holds state.config OutputConfig.tokenIndex (new < ·) then state
  else if holds state.hidden LayerResult.tokenIndex (new < ·) then state
  else
    let state := if holds state.hidden LayerResult.tokenIndex (· < new) then
      { state with hidden := none } else state
    if holds state.hiddenSlice LayerResult.tokenIndex (new < ·) then state
    else
      let state := if holds state.hiddenSlice LayerResult.tokenIndex (· < new) then
        { state with hiddenSlice := none } else state
      { state with config := some config }.clearPartials

/-- The last part of both `fg_output_handoff_hidden` and `fg_output_handoff_hidden_slice`: a newer half
drops the config, and the partials stay only with a config of the same token. -/
def handoffSettle (state : Handoff Activation) (new : UInt32) : Handoff Activation :=
  let state := if holds state.config OutputConfig.tokenIndex (· < new) then
    { state with config := none }.clearPartials else state
  if holds state.config OutputConfig.tokenIndex (new = ·) then state else state.clearPartials

/-- `fg_output_handoff_hidden`. -/
def handoffHidden (state : Handoff Activation) (hidden : LayerResult Activation) : Handoff Activation :=
  let new := hidden.tokenIndex
  if holds state.hidden LayerResult.tokenIndex (new = ·) then { state with hidden := some hidden }
  else if holds state.hidden LayerResult.tokenIndex (new < ·) then state
  else if holds state.hiddenSlice LayerResult.tokenIndex (new < ·) then state
  else
    let state := if holds state.hiddenSlice LayerResult.tokenIndex (· < new) then
      { state with hiddenSlice := none } else state
    if holds state.config OutputConfig.tokenIndex (new < ·) then state
    else { handoffSettle state new with hidden := some hidden }

/-- `fg_output_handoff_hidden_slice`. -/
def handoffHiddenSlice (state : Handoff Activation) (slice : LayerResult Activation) : Handoff Activation :=
  let new := slice.tokenIndex
  if holds state.hiddenSlice LayerResult.tokenIndex (new = ·) then { state with hiddenSlice := some slice }
  else if holds state.hiddenSlice LayerResult.tokenIndex (new < ·) then state
  else if holds state.hidden LayerResult.tokenIndex (new < ·) then state
  else
    let state := if holds state.hidden LayerResult.tokenIndex (· < new) then
      { state with hidden := none } else state
    if holds state.config OutputConfig.tokenIndex (new < ·) then state
    else { handoffSettle state new with hiddenSlice := some slice }

/-- `fg_output_handoff_partial`: counted, whatever ranks came before. -/
def handoffPartial (state : Handoff Activation) (tokenIndex : UInt32) (rank : Nat) (finalist : Finalist) :
    Except Error (Handoff Activation) :=
  if holds state.config OutputConfig.tokenIndex (tokenIndex = ·) = false then
    .error ⟨.mismatch, "stale output handoff partial"⟩
  else if splitWaysMax ≤ state.remotes.length then .error ⟨.limit, "too many output handoff partials"⟩
  else .ok { state with remotes := state.remotes ++ [(rank, finalist)] }

/-- `worker_output_split_ways`. -/
def splitWays (config : OutputConfig) : Nat := if config.split4 then splitWaysMax else splitWaysMin

/-- The input that `fg_output_handoff_ready` waits for, when it is there. -/
def readyInput (state : Handoff Activation) (config : OutputConfig) : Option Activation :=
  let half := if config.split4 then state.hiddenSlice else state.hidden
  (half.filter fun stored => stored.tokenIndex = config.tokenIndex).map LayerResult.hyper

/-- The loop of `worker_output_split_combine`. -/
def combineRemotes (ways : Nat) : List (Nat × Finalist) → Finalist → Except Error Finalist
  | [], combined => .ok combined
  | (rank, remote) :: rest, combined =>
    let id := remote.id
    match splitWayForRank ways rank with
    | none => .error ⟨.mismatch,
        s!"output partial from rank {rank} which owns no slice in the {ways}-way split"⟩
    | some way =>
      let (first, rows) := splitSpan ways way
      if InSpan ways way remote.id then combineRemotes ways rest (outputCombine remote combined)
      else .error ⟨.mismatch,
        s!"output partial id {id} is outside rank {rank} slice {first}..{first + rows}"⟩

/-- `worker_output_split_combine`. -/
def splitCombine (ways : Nat) (own : Finalist) (remotes : List (Nat × Finalist)) : Except Error Finalist :=
  match combineRemotes ways remotes own with
  | .error err => .error err
  | .ok combined =>
    if vocabSize ≤ combined.id ∨ combined.value.isFinite = false then
      .error ⟨.mismatch, "invalid combined output finalist"⟩
    else .ok combined

def validateOutputResult (result : OutputResult) : Except Error Unit :=
  if result.sourceRank ≠ outputRank ∨ rankCount ≤ result.destinationRank ∨ vocabSize ≤ result.token ∨
      result.logit.isFinite = false then .error ⟨.format, "invalid output result"⟩
  else .ok ()

def sendResult (config : OutputConfig) (finalist : Finalist) : Except Error (Handoff Activation × List OutputResult) :=
  let result : OutputResult := ⟨outputRank, 0, config.tokenIndex, finalist.id, finalist.value⟩
  match validateOutputResult result with
  | .error err => .error err
  | .ok () => .ok (.reset, [result])

def ownFinalist (owner : Owner Activation) (state : Handoff Activation) (input : Activation) :
    Except Error Finalist :=
  match state.own with
  | some own => .ok own
  | none => owner.sliceRun input

/-- The split branch of `worker_output_handoff_flush`, with the input at hand. -/
def flushSplit (owner : Owner Activation) (state : Handoff Activation) (config : OutputConfig)
    (input : Activation) : Except Error (Handoff Activation × List OutputResult) :=
  let ways := splitWays config
  match owner.sliceWays with
  | none => .error ⟨.mismatch,
      s!"rank 4 needs a {ways}-way slice executor but holds none (output split topology mismatch)"⟩
  | some held =>
    if held ≠ ways then
      .error ⟨.mismatch, s!"output config declares a {ways}-way split but this rank holds a " ++
        s!"{held}-way slice executor (output split topology mismatch)"⟩
    else
      match ownFinalist owner state input with
      | .error err => .error err
      | .ok own =>
        if state.remotes.length < ways - 1 then .ok ({ state with own := some own }, [])
        else match splitCombine ways own state.remotes with
          | .error err => .error err
          | .ok finalist => sendResult config finalist

/-- `worker_output_handoff_flush`. -/
def handoffFlush (owner : Owner Activation) (state : Handoff Activation) :
    Except Error (Handoff Activation × List OutputResult) :=
  match state.config with
  | none => .ok (state, [])
  | some config =>
    if config.split ∧ config.greedy then
      match readyInput state config with
      | none => .ok (state, [])
      | some input => flushSplit owner state config input
    else
      match readyInput state { config with split4 := false } with
      | none => .ok (state, [])
      | some input =>
        match owner.sample config input with
        | .error err => .error err
        | .ok finalist => sendResult config finalist

def outputSequence (tokenIndex : UInt32) : UInt32 :=
  tokenIndex * UInt32.ofNat layerCount + UInt32.ofNat layerCount

/-- `handle_output_config`, for a decoded config. -/
def handleOutputConfig (owner : Owner Activation) (state : Handoff Activation) (header : FrameHeader)
    (config : OutputConfig) : Except Error (Handoff Activation × List OutputResult) :=
  if owner.eligible = false then
    .error ⟨.mismatch, "output config reached a rank without the direct handoff"⟩
  else if owner.multiplexed = true ∧ config.sessionSlot ≠ header.slot then
    .error ⟨.mismatch, "output config session slot mismatch"⟩
  else if owner.sessionId = 0 ∨ header.requestId ≠ owner.sessionId ∨ header.peer ≠ 0 ∨
      config.sourceRank ≠ 0 ∨ config.destinationRank ≠ outputRank ∨
      header.sequence ≠ outputSequence config.tokenIndex then
    .error ⟨.mismatch, "stale or misrouted output config"⟩
  else handoffFlush owner (handoffConfig state config)

def Misrouted (owner : Owner Activation) (header : FrameHeader) (hidden : LayerResult Activation) : Prop :=
  owner.sessionId = 0 ∨ header.requestId ≠ owner.sessionId ∨ hidden.destinationRank ≠ outputRank ∨
    hidden.sourceRank ≠ owner.lastLayerOwner ∨ header.peer ≠ hidden.sourceRank ∨
    header.sequence ≠ outputSequence hidden.tokenIndex - 1

instance (owner : Owner Activation) (header : FrameHeader) (hidden : LayerResult Activation) :
    Decidable (Misrouted owner header hidden) :=
  inferInstanceAs (Decidable (_ ∨ _ ∨ _ ∨ _ ∨ _ ∨ _))

/-- `handle_output_hidden`, for a decoded layer result. -/
def handleOutputHidden (owner : Owner Activation) (state : Handoff Activation) (header : FrameHeader)
    (hidden : LayerResult Activation) : Except Error (Handoff Activation × List OutputResult) :=
  if owner.eligible = false then
    .error ⟨.mismatch, "output hidden reached a rank without the direct handoff"⟩
  else if Misrouted owner header hidden ∨ hidden.layer ≠ layerCount - 1 then
    .error ⟨.mismatch, "stale or misrouted output hidden"⟩
  else handoffFlush owner (handoffHidden state hidden)

/-- `handle_output_slice_hidden` at rank 4, for a decoded slice. -/
def handleOutputSliceHidden (owner : Owner Activation) (state : Handoff Activation) (header : FrameHeader)
    (slice : LayerResult Activation) : Except Error (Handoff Activation × List OutputResult) :=
  if owner.eligible = false then
    .error ⟨.mismatch, "rank 4 received a 4-way output slice without the direct output handoff"⟩
  else match owner.sliceWays with
    | none => .error ⟨.mismatch, "rank 4 needs a 4-way slice executor but holds none (output split topology mismatch)"⟩
    | some held =>
      if held ≠ splitWaysMax then
        .error ⟨.mismatch, s!"rank 4 holds a {held}-way slice executor for a 4-way output slice " ++
          "(output split topology mismatch)"⟩
      else if Misrouted owner header slice then
        .error ⟨.mismatch, "stale or misrouted output slice hidden"⟩
      else handoffFlush owner (handoffHiddenSlice state slice)

/-- `handle_output_partial`, with the check of `fg_output_partial_decode`. A partial without a config is
dropped. -/
def handleOutputPartial (owner : Owner Activation) (state : Handoff Activation) (header : FrameHeader)
    (partialResult : OutputPartial) : Except Error (Handoff Activation × List OutputResult) :=
  match owner.sliceWays with
  | none => .error ⟨.mismatch, "rank 4 needs a slice executor but holds none (output split topology mismatch)"⟩
  | some ways =>
    if vocabSize ≤ partialResult.finalist.id ∨ partialResult.finalist.value.isFinite = false then
      .error ⟨.format, "invalid output partial"⟩
    else if owner.sessionId = 0 ∨ header.peer = outputRank ∨ splitWayForRank ways header.peer = none ∨
        header.requestId ≠ owner.sessionId ∨ header.sequence ≠ outputSequence partialResult.tokenIndex then
      .error ⟨.mismatch, "stale or misrouted output partial"⟩
    else if state.config.isNone then .ok (state, [])
    else match handoffPartial state partialResult.tokenIndex header.peer partialResult.finalist with
      | .error err => .error err
      | .ok state => handoffFlush owner state

def handleMessage (owner : Owner Activation) (state : Handoff Activation) :
    Message Activation → Except Error (Handoff Activation × List OutputResult)
  | .config header config => handleOutputConfig owner state header config
  | .hidden header hidden => handleOutputHidden owner state header hidden
  | .sliceHidden header slice => handleOutputSliceHidden owner state header slice
  | .splitPartial header partialResult => handleOutputPartial owner state header partialResult

/-- The worker loop as far as the handoff goes: what it has sent, and the error that ended it. -/
structure Worker (Activation : Type) where
  handoff : Handoff Activation
  sent : List OutputResult
  stopped : Option Error

def Worker.receive (owner : Owner Activation) (worker : Worker Activation) (message : Message Activation) :
    Worker Activation :=
  match worker.stopped with
  | some _ => worker
  | none =>
    match handleMessage owner worker.handoff message with
    | .error err => { worker with stopped := some err }
    | .ok (handoff, results) => { worker with handoff := handoff, sent := worker.sent ++ results }

def Worker.start : Worker Activation := ⟨.reset, [], none⟩

end FlashGordon.OutputSplit
