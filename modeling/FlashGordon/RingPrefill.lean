import FlashGordon.Pipeline
import FlashGordon.RingWire
import FlashGordon.Spans
import FlashGordon.Transport

/-! Ring prefill at the coordinator (`coordinator_prefill_pipeline_ring` in `runtime.c`): the prompt is cut
into chunks by the budget of the session pipeline, a few chunks travel the ring of block owners at a time,
and a chunk is done when the last block hands it back. One turn is one round of the loop. What the devices,
the fabric and the caller answer in a turn is a parameter of it; the state also logs the chunks issued and
the chunks done. -/

namespace FlashGordon.RingPrefill

open Prefill RingWire Spans

variable {Content : Type}

/-- `FG_PREFILL_FRAMES`. -/
def prefillFrames : Nat := 3

/-- An error of a call that ring prefill makes; none of them is an interrupt. -/
structure Fault extends Error where
  ne_interrupted : code ≠ .interrupted

/-- `fg_pipeline_options` in the ranges that `fg_pipeline_options_load` admits. -/
structure Options where
  prefillTokens : Nat
  prefillFrames : Nat
  prefillOnlyFrames : Nat
  prefillSliceUs : Nat
  prefillTokens_range : 32 ≤ prefillTokens ∧ prefillTokens ≤ 256
  prefillFrames_range : 1 ≤ prefillFrames ∧ prefillFrames ≤ 8
  prefillOnlyFrames_range : 1 ≤ prefillOnlyFrames ∧ prefillOnlyFrames ≤ 4
  prefillSliceUs_le : prefillSliceUs ≤ 1000000

/-- The pipeline a coroutine runs in, as far as the budget reads it. -/
structure Scheduler (Content : Type) where
  pipeline : Pipeline.State Content
  options : Options
  prefillNsPerToken : Nat

structure Budget where
  tokens : Nat
  frames : Nat

/-- The slice that a decoding session leaves a prefill chunk, in tokens. -/
def Scheduler.sliceLimit (scheduler : Scheduler Content) : Nat :=
  if scheduler.prefillNsPerToken = 0 then 1
  else max 1 (scheduler.options.prefillSliceUs * 1000 / scheduler.prefillNsPerToken)

/-- One round of the loop of `fg_pipeline_prefill_budget`: another active session narrows the budget. -/
def Scheduler.share (scheduler : Scheduler Content) (budget : Budget) (i : Nat) : Budget :=
  let current := scheduler.pipeline.slots scheduler.pipeline.current
  let other := scheduler.pipeline.slots i
  if i = scheduler.pipeline.current ∨ other.active = false then budget
  else
    let tokens := min budget.tokens scheduler.options.prefillTokens
    let window :=
      if current.phase = .prefill ∧ other.phase = .prefill then scheduler.options.prefillOnlyFrames
      else scheduler.options.prefillFrames
    { tokens :=
        if other.phase = .decode ∧ scheduler.options.prefillSliceUs ≠ 0 then min tokens scheduler.sliceLimit
        else tokens
      frames := min budget.frames window }

/-- `fg_pipeline_prefill_budget`; outside a coroutine nothing narrows the budget. -/
def prefillBudget (running : Option (Scheduler Content)) (tokens frames : Nat) : Budget :=
  match running with
  | none => ⟨tokens, frames⟩
  | some scheduler => (List.range Pipeline.sessions).foldl scheduler.share ⟨tokens, frames⟩

/-- `fg_pipeline_failed`. -/
def pipelineFailed (running : Option (Scheduler Content)) : Bool :=
  running.any fun scheduler => scheduler.pipeline.failure.isSome

structure RingSlot where
  active : Bool
  blockDone : Bool
  firstToken : Nat
  chunkIndex : Nat
  tokenCount : Nat

def ringSlotFind (slots : Nat → RingSlot) (first count : Nat) : Option Nat :=
  (List.range prefillFrames).find? fun i =>
    (slots i).active ∧ (slots i).firstToken = first ∧ (slots i).tokenCount = count

/-- `ring_slot_finish`: the slot set free and the prefix that then is done. -/
def ringSlotFinish (slot : RingSlot) (first prefilled : Nat) : Option (RingSlot × Nat) :=
  if slot.active = false ∨ slot.firstToken ≠ first + prefilled then none
  else some ({ slot with active := false }, prefilled + slot.tokenCount)

/-- One call of ring prefill. The manifest bounds the context and the microbatch; `setup` is the answer of
the allocations before the loop. -/
structure Call where
  manifest : Manifest
  microbatch : Nat
  maxContext : Nat
  sessionId : UInt64
  outputSession : Nat
  firstToken : Nat
  tokenCount : Nat
  hasEmbedding : Bool
  setup : Except Fault Unit
  ringDecode : Bool
  microbatch_range : 1 ≤ microbatch ∧ microbatch ≤ prefillMaxTokens
  maxContext_le : maxContext ≤ FlashGordon.maxContext

/-- What a received frame carries, by its type: a record or the refusal of the byte codec. -/
inductive Body where
  | prefillLayerWork (work : Except Fault PrefillLayerWork)
  | prefillLayerResult (result : Except Fault PrefillLayerResult)
  | qsaPageResult
  | other (code : UInt16)

structure Incoming where
  peer : Nat
  requestId : UInt64
  sessionSlot : Nat
  sequence : UInt32
  body : Body

structure Exchange where
  status : Except Fault Unit
  transport : Transport.State

/-- What one turn of the loop meets. `issue` answers embedding and sending a chunk, `block` running rank
0's block on one, `write` storing the final result. -/
structure Turn (Content : Type) where
  running : Option (Scheduler Content)
  interrupted : Bool
  issue : Except Fault Unit
  receive : Except Fault Incoming
  block : Exchange
  forward : Except Fault Unit
  write : Except Fault Unit
  publish : Except Fault Unit
  warmIssue : Exchange
  warmResult : Exchange

structure State where
  slots : Nat → RingSlot
  nextChunk : Nat
  issuedTokens : Nat
  inFlight : Nat
  completed : Nat
  prefilled : Nat
  aborted : Bool
  lastOutput : Option Nat
  outputTokens : Option Nat
  transport : Transport.State
  issued : List Span
  done : List Span

/-- The status after a statement, `none` while the loop goes on. -/
abbrev Left : Type := Option (Except Error Unit)

def Left.ofStatus : Except Fault Unit → Left
  | .ok () => none
  | .error fault => some (.error fault.toError)

def reject (state : State) (message : String) : State × Left :=
  (state, some (.error ⟨.mismatch, message⟩))

/-- Handing the next chunk to the owner of the first block. The slot is taken before anything can fail. -/
def issueChunk (call : Call) (turn : Turn Content) (budget : Budget) (state : State) : State × Left :=
  let f := state.nextChunk % prefillFrames
  if (state.slots f).active then reject state s!"ring slot {f} is still active"
  else
    let first := call.firstToken + state.issuedTokens
    let tokens := min (call.tokenCount - state.issuedTokens) budget.tokens
    let taken : State :=
      { state with
        slots := Function.update state.slots f
          { active := true
            blockDone := false
            firstToken := first
            chunkIndex := state.nextChunk
            tokenCount := tokens % 2 ^ 16 }
        issued := state.issued ++ [⟨first, tokens⟩] }
    match turn.issue with
    | .error fault => (taken, some (.error fault.toError))
    | .ok () =>
      ({ taken with
          transport := Transport.transportPending state.transport
          nextChunk := state.nextChunk + 1
          inFlight := state.inFlight + 1
          issuedTokens := state.issuedTokens + tokens }, none)

/-- The end of a chunk: the last block's rows are stored when they are the prompt's last, and the chunk is
counted when it is the next one of the prefix. A failed store is reported after the count. -/
def completeChunk (call : Call) (turn : Turn Content) (f first count : Nat) (state : State) : State × Left :=
  let final := first + count = call.firstToken + call.tokenCount
  let stored := if final then turn.write else .ok ()
  match ringSlotFinish (state.slots f) call.firstToken state.prefilled with
  | none => reject state "out-of-order ring completion"
  | some (slot, prefilled) =>
    let state : State :=
      { state with
        slots := Function.update state.slots f slot
        prefilled := prefilled
        inFlight := state.inFlight - 1
        completed := state.completed + 1
        lastOutput := if final then some (f % 2) else state.lastOutput
        outputTokens := if final then some count else state.outputTokens
        done := state.done ++ [⟨slot.firstToken, slot.tokenCount⟩] }
    match stored, turn.publish with
    | .error fault, _ => (state, some (.error fault.toError))
    | .ok (), .error fault => (state, some (.error fault.toError))
    | .ok (), .ok () =>
      ({ state with transport := turn.warmIssue.transport }, .ofStatus turn.warmIssue.status)

def inPrompt (call : Call) (firstToken : UInt32) (tokenCount : UInt16) : Prop :=
  call.firstToken ≤ firstToken.toNat ∧
    (firstToken + tokenCount.toUInt32).toNat ≤ call.firstToken + call.tokenCount

instance (call : Call) (firstToken : UInt32) (tokenCount : UInt16) :
    Decidable (inPrompt call firstToken tokenCount) :=
  inferInstanceAs (Decidable (_ ∧ _))

def WorkRouted (call : Call) (frame : Incoming) (work : PrefillLayerWork) : Prop :=
  work.destinationRank = 0 ∧ work.sourceRank.toNat = frame.peer ∧
    call.manifest.layerOwner work.layer.toNat = 0 ∧
    (0 < work.layer → frame.peer = call.manifest.layerOwner (work.layer.toNat - 1)) ∧
    frame.requestId = call.sessionId ∧ frame.sessionSlot = call.outputSession ∧
    frame.sequence = ringSequence work.firstToken work.layer.toNat ∧
    inPrompt call work.firstToken work.tokenCount

instance (call : Call) (frame : Incoming) (work : PrefillLayerWork) : Decidable (WorkRouted call frame work) := by
  unfold WorkRouted
  infer_instance

def ResultRouted (call : Call) (frame : Incoming) (result : PrefillLayerResult) : Prop :=
  result.destinationRank = 0 ∧ result.sourceRank.toNat = frame.peer ∧
    result.sourceRank.toNat = call.manifest.layerOwner (layerCount - 1) ∧
    frame.requestId = call.sessionId ∧ frame.sessionSlot = call.outputSession ∧
    frame.sequence = ringSequence result.firstToken (layerCount - 1) ∧
    inPrompt call result.firstToken result.tokenCount

instance (call : Call) (frame : Incoming) (result : PrefillLayerResult) :
    Decidable (ResultRouted call frame result) := by
  unfold ResultRouted
  infer_instance

/-- The buffers of the coordinator hold a microbatch, n-gram rows included. -/
def Call.storage (call : Call) : Storage := ⟨call.microbatch, true⟩

/-- Layer work for a block of rank 0: the block is run inline and the chunk goes on to the next owner, or
is done when the block was the last. -/
def handleWork (call : Call) (turn : Turn Content) (frame : Incoming) (work : PrefillLayerWork)
    (state : State) : State × Left :=
  if ¬ WorkRouted call frame work then reject state "misrouted ring layer work"
  else match ringSlotFind state.slots work.firstToken.toNat work.tokenCount.toNat with
    | none => reject state "ring work does not match an in-flight chunk"
    | some f =>
      let state : State := { state with transport := turn.block.transport }
      match turn.block.status with
      | .error fault => (state, some (.error fault.toError))
      | .ok () =>
        let ran : State :=
          { state with slots := Function.update state.slots f { state.slots f with blockDone := true } }
        if blockEnd call.manifest 0 work.layer.toNat + 1 < layerCount then (ran, .ofStatus turn.forward)
        else completeChunk call turn f work.firstToken.toNat work.tokenCount.toNat ran

def handleResult (call : Call) (turn : Turn Content) (frame : Incoming) (result : PrefillLayerResult)
    (state : State) : State × Left :=
  if ¬ ResultRouted call frame result then reject state "misrouted ring result"
  else match ringSlotFind state.slots result.firstToken.toNat result.tokenCount.toNat with
    | none => reject state "ring result does not match an in-flight chunk"
    | some f => completeChunk call turn f result.firstToken.toNat result.tokenCount.toNat state

/-- What the loop does with a received frame, by its type. -/
def handleFrame (call : Call) (turn : Turn Content) (frame : Incoming) (state : State) : State × Left :=
  match frame.body with
  | .prefillLayerWork (.error fault) => (state, some (.error fault.toError))
  | .prefillLayerWork (.ok wire) =>
    match prefillLayerWorkDecode call.storage wire with
    | .error err => (state, some (.error err))
    | .ok work => handleWork call turn frame work state
  | .prefillLayerResult (.error fault) => (state, some (.error fault.toError))
  | .prefillLayerResult (.ok wire) =>
    match prefillLayerResultDecode call.storage wire with
    | .error err => (state, some (.error err))
    | .ok result => handleResult call turn frame result state
  | .qsaPageResult => ({ state with transport := turn.warmResult.transport }, .ofStatus turn.warmResult.status)
  | .other code => reject state s!"unexpected ring message type {code}"

/-- What a turn does: it gives up on a failed pipeline, stops for an interrupt with nothing under way,
issues a chunk or takes a frame. -/
inductive Move where
  | fail
  | stop
  | issue (budget : Budget)
  | receive

/-- The interrupt is polled only where a chunk could be issued. -/
def polled (call : Call) (turn : Turn Content) (state : State) : Bool :=
  state.issuedTokens < call.tokenCount ∧
    state.inFlight < (prefillBudget turn.running call.microbatch prefillFrames).frames

def nextMove (call : Call) (turn : Turn Content) (state : State) : Move :=
  if pipelineFailed turn.running then .fail
  else if polled call turn state then
    if state.aborted || turn.interrupted then
      if state.inFlight = 0 then .stop else .receive
    else .issue (prefillBudget turn.running call.microbatch prefillFrames)
  else .receive

def afterPoll (call : Call) (turn : Turn Content) (state : State) : State :=
  if pipelineFailed turn.running = false ∧ polled call turn state then
    { state with aborted := state.aborted || turn.interrupted }
  else state

def ringTurn (call : Call) (turn : Turn Content) (state : State) : State × Left :=
  let polled := afterPoll call turn state
  match nextMove call turn state with
  | .fail => (polled, some (.error ⟨.unavailable, "ring recovery interrupted prefill"⟩))
  | .stop => (polled, some (.ok ()))
  | .issue budget => issueChunk call turn budget polled
  | .receive =>
    match turn.receive with
    | .error fault => (polled, some (.error fault.toError))
    | .ok frame => handleFrame call turn frame polled

def ringLoop (call : Call) : List (Turn Content) → State → State × Left
  | [], state => if state.prefilled < call.tokenCount then (state, none) else (state, some (.ok ()))
  | turn :: rest, state =>
    if state.prefilled < call.tokenCount then
      match ringTurn call turn state with
      | (next, none) => ringLoop call rest next
      | (next, some status) => (next, some status)
    else (state, some (.ok ()))

def RingSlot.free : RingSlot := ⟨false, false, 0, 0, 0⟩

def start (transport : Transport.State) : State where
  slots := fun _ => .free
  nextChunk := 0
  issuedTokens := 0
  inFlight := 0
  completed := 0
  prefilled := 0
  aborted := false
  lastOutput := none
  outputTokens := none
  transport := transport
  issued := []
  done := []

/-- The calls after the loop: draining the mirror warm and importing the owners' state for legacy
decode. -/
structure Closing where
  drain : Exchange
  syncGdnState : Except Fault Unit

/-- What the caller gets: the status, the result tensor and, unless the call was refused at once, the
prefilled tokens. -/
structure Outcome where
  status : Except Error Unit
  output : Option Nat
  prefilled : Option Nat

def interruptedError (call : Call) (state : State) : Error :=
  let prefilled := state.prefilled
  let tokenCount := call.tokenCount
  ⟨.interrupted, s!"prefill interrupted after {prefilled} of {tokenCount} tokens"⟩

def reported (call : Call) (state : State) : Except Error Unit → Except Error Unit
  | .ok () => if state.aborted then .error (interruptedError call state) else .ok ()
  | .error err => .error err

def orInterrupted : Except Error Unit → Bool
  | .ok () => true
  | .error err => err.code = .interrupted

def drained (closing : Closing) (state : State) (status : Except Error Unit) : Except Error Unit × Transport.State :=
  if orInterrupted status then
    match closing.drain.status with
    | .error fault => (.error fault.toError, closing.drain.transport)
    | .ok () => (status, closing.drain.transport)
  else (status, state.transport)

/-- After the loop. The transport is good again when nothing failed and nothing is under way. -/
def leave (call : Call) (closing : Closing) (state : State) (status : Except Error Unit) : State × Outcome :=
  match drained closing state (reported call state status) with
  | (.ok (), transport) =>
    ({ state with
        prefilled := call.tokenCount
        transport :=
          if state.inFlight = 0 then Transport.transportComplete transport
          else Transport.transportPoison transport },
      { status :=
          if call.ringDecode then .ok ()
          else match closing.syncGdnState with
            | .ok () => .ok ()
            | .error fault => .error fault.toError
        output := state.lastOutput
        prefilled := some call.tokenCount })
  | (.error err, transport) =>
    ({ state with
        transport :=
          if err.code = .interrupted ∧ state.inFlight = 0 then Transport.transportComplete transport
          else Transport.transportPoison transport },
      ⟨.error err, none, some state.prefilled⟩)

/-- A call after some turns: its state and, once it has returned, its outcome. -/
structure Run where
  state : State
  outcome : Option Outcome

def refuse (transport : Transport.State) (code : Status) (message : String) : Run :=
  ⟨start transport, some ⟨.error ⟨code, message⟩, none, none⟩⟩

/-- The loop, unless the allocations before it failed. -/
def ringRun (call : Call) (transport : Transport.State) (turns : List (Turn Content)) : State × Left :=
  match call.setup with
  | .error fault => (start transport, some (.error fault.toError))
  | .ok () => ringLoop call turns (start transport)

/-- `coordinator_prefill_pipeline_ring`. -/
def prefillPipelineRing (call : Call) (transport : Transport.State) (turns : List (Turn Content))
    (closing : Closing) : Run :=
  if call.tokenCount = 0 ∨ call.maxContext < call.tokenCount ∨
      call.maxContext - call.tokenCount < call.firstToken then
    refuse transport .argument "invalid coordinator ring prefill"
  else if call.manifest.layerOwner 0 = 0 then
    refuse transport .mismatch "ring prefill requires a remote first block"
  else if call.hasEmbedding = false then
    refuse transport .mismatch "coordinator is missing token_embd.weight"
  else
    match ringRun call transport turns with
    | (state, none) => ⟨state, none⟩
    | (state, some status) => ⟨(leave call closing state status).1, some (leave call closing state status).2⟩

end FlashGordon.RingPrefill
