import FlashGordon.Binary32
import FlashGordon.Prompt
import FlashGordon.Transport

/-! The resident runtime of `runtime.c`: `runtime_generate_tokens` with its plan, prefill, decode loop and
exits, `runtime_reset_state`, and the public entry points over them. What the fabric, the owners, the
tokenizer and the callbacks answer during a call is a parameter of that call; the token a step samples
is a fixed function of the deployment. Beside the fields of the source, the state records the entries the
owners have processed since the last session begin. -/

namespace FlashGordon

/-- `fg_sampler_config`. -/
structure Sampler where
  temperature : Binary32
  topP : Binary32
  topK : UInt32
  presencePenalty : Binary32
  frequencyPenalty : Binary32
  repetitionPenalty : Binary32
  minP : Binary32
  seed : UInt64
  deriving DecidableEq

/-- `fg_sampler_penalties_active`; `0x3f800000` is one. -/
def Sampler.penaltiesActive (sampler : Sampler) : Bool :=
  sampler.presencePenalty.order ≠ 0 || sampler.frequencyPenalty.order ≠ 0 ||
    sampler.repetitionPenalty.order ≠ 0x3f800000

namespace Generate

/-- What does not change while the runtime is open. `sample` is the model with its sampler: the token
drawn with the configuration, the index of the uniform in the seeded stream (absent at temperature
zero), the tokens counted by the penalties (absent when these are inactive) and the processed
entries. -/
structure Deployment where
  ringPrefill : Bool
  ringDecode : Bool
  prefixContinuation : Bool
  contextLimit : Nat
  eos : Nat
  sample : Sampler → Option Nat → Option (List Nat) → List Entry → Nat

/-- `fg_runtime`. `history` is `history[0..history_count)` and `nextToken` the pair `next_token`,
`next_token_valid`. The last three fields are kept outside rank 0 or only recorded: what the block owners
have processed (with legacy decode the coordinator's own executor, which imports their state), the
entries behind `nextToken`, and the penalty counts of the output owner. -/
structure Runtime where
  history : List Nat
  stateFrontier : Nat
  statePosition : Nat
  nextToken : Option Nat
  emptyReason : ResetReason
  stateReady : Bool
  rendered : Bool
  transport : Transport.State
  owners : List Entry
  sampledFrom : List Entry
  counted : List Nat
  deriving DecidableEq

def Runtime.opened : Runtime :=
  { history := []
    stateFrontier := 0
    statePosition := 0
    nextToken := none
    emptyReason := .coldStart
    stateReady := true
    rendered := false
    transport := .ready
    owners := []
    sampledFrom := []
    counted := [] }

/-- What a reset meets: `fg_pipeline_failed`, `warm_outstanding` with its drain, the owner reset and the
session begin; the transport after the last of them, and what a failed reset leaves on the owners. -/
structure ResetAnswer where
  pipelineFailed : Bool
  warmOutstanding : Bool
  drain : Except Error Unit
  drained : Transport.State
  ownerReset : Except Error Unit
  beginSession : Except Error Unit
  transport : Transport.State
  left : List Entry

/-- `coordinator_warm_qsa_drain`, called only on a transport that is not `READY` with fetches left. -/
def warmDrain (transport : Transport.State) (answer : ResetAnswer) : Transport.State × Except Error Unit :=
  if transport ≠ .ready ∧ answer.warmOutstanding then (answer.drained, answer.drain)
  else (transport, .ok ())

def runtimeResetState (runtime : Runtime) (reason : ResetReason) (answer : ResetAnswer) : Runtime × Except Error Unit :=
  if answer.pipelineFailed then
    ({ runtime with stateReady := false }, .error ⟨.unavailable, "ring recovery in progress"⟩)
  else match warmDrain runtime.transport answer with
    | (transport, .error err) =>
      ({ runtime with
          stateReady := false
          transport := transport }, .error err)
    | (transport, .ok ()) =>
      if transport ≠ .ready then
        ({ runtime with
            stateReady := false
            transport := transport },
          .error ⟨.unavailable, "distributed transport is not reusable; reopen the runtime"⟩)
      else match answer.ownerReset.bind fun () => answer.beginSession with
        | .error err =>
          ({ runtime with
              stateReady := false
              transport := answer.transport
              owners := answer.left }, .error err)
        | .ok () =>
          ({ Runtime.opened with
              emptyReason := reason
              transport := answer.transport }, .ok ())

/-- What `coordinator_prefill_pipeline` answers. It reports `FG_ERR_INTERRUPTED` only for the interrupt
it polls between batches, with the number of tokens whose batches are complete. -/
inductive PrefillAnswer where
  | done (transport : Transport.State)
  | interrupted (prefilled : Nat) (transport : Transport.State)
  | failed (err : Error) (uninterrupted : err.code ≠ .interrupted) (left : List Entry)
      (transport : Transport.State)

/-- What `coordinator_decode_token` answers. -/
inductive DecodeAnswer where
  | done (transport : Transport.State)
  | failed (err : Error) (left : List Entry) (transport : Transport.State)

/-- Everything a call meets on its way. The functions are indexed by the number of tokens generated so
far and, where the code passes it, the token. -/
structure Script where
  reserve : Except Error Unit
  resetBefore : ResetAnswer
  sync : Except Error Unit
  prefill : PrefillAnswer
  output : Except Error Unit
  outputTransport : Transport.State
  interrupted : Nat → Bool
  eosText : Nat → Except Error Unit
  tokenText : Nat → Nat → Except Error Unit
  callback : Nat → Nat → Except Error Unit
  renderAppend : Nat → Nat → Except Error Unit
  decode : Nat → DecodeAnswer
  resetAfter : ResetAnswer

structure Request where
  sampler : Sampler
  maxTokens : Nat
  script : Script

/-- The prompt arguments of `runtime_generate_tokens`; `vision` has an entry for every prompt token. -/
structure Prompt where
  tokens : List Nat
  vision : Option (List Entry)
  visionContinuation : Bool
  requirePrefixHit : Bool
  endPosition : Nat
  aligned : ∀ entries, vision = some entries → entries.map Entry.token = tokens

def Prompt.ofTokens (tokens : List Nat) (requirePrefixHit visionContinuation : Bool) : Prompt :=
  { tokens := tokens
    vision := none
    visionContinuation := visionContinuation
    requirePrefixHit := requirePrefixHit
    endPosition := 0
    aligned := by simp }

def Prompt.ofEntries (entries : List Entry) (requirePrefixHit visionContinuation : Bool) (endPosition : Nat) : Prompt :=
  { tokens := entries.map Entry.token
    vision := some entries
    visionContinuation := visionContinuation
    requirePrefixHit := requirePrefixHit
    endPosition := endPosition
    aligned := by simp }

def textEntries (bias : Nat) : Nat → List Nat → List Entry
  | _, [] => []
  | index, token :: rest => ⟨token, .text (index + bias), none⟩ :: textEntries bias (index + 1) rest

/-- The entries that a prefill from `first` on hands to the owners (`vision_fill_positions` and
`vision_apply_embeddings`). -/
def Prompt.prefillEntries (prompt : Prompt) (first bias : Nat) : List Entry :=
  match prompt.vision with
  | none => textEntries bias first (prompt.tokens.drop first)
  | some entries => entries.drop first

/-- The plan of a call: the live-prefix plan, without a hit for a cold vision run and for a ring
configuration that cannot resume its owners. -/
def generatePlan (deployment : Deployment) (runtime : Runtime) (prompt : Prompt) : PrefixPlan :=
  let live := prefixPlanTokens runtime.history runtime.nextToken.isSome prompt.tokens runtime.emptyReason
  let plan :=
    if prompt.vision.isSome ∧ prompt.visionContinuation = false then
      PrefixPlan.cold prompt.tokens .coldStart
    else live
  let resumable := deployment.ringDecode ∧ deployment.prefixContinuation ∧
    plan.prefillOffset = runtime.stateFrontier
  if deployment.ringPrefill ∧ plan.hit ∧ ¬ resumable then
    PrefixPlan.cold prompt.tokens (if deployment.ringDecode then .frontierUnavailable else .coldStart)
  else plan

def positionBias (runtime : Runtime) (prompt : Prompt) (plan : PrefixPlan) : Nat :=
  if prompt.vision = none ∧ plan.hit ∧ plan.prefillOffset = runtime.stateFrontier ∧
      runtime.stateFrontier < runtime.statePosition then
    runtime.statePosition - runtime.stateFrontier
  else 0

def checkRequest (deployment : Deployment) (prompt : Prompt) (plan : PrefixPlan) (request : Request) :
    Except Error Unit :=
  let used := prompt.tokens.length + request.maxTokens
  let limit := deployment.contextLimit
  if prompt.requirePrefixHit ∧ plan.hit = false then
    .error ⟨.unavailable, "runtime-owned continuation is not an exact token-prefix hit"⟩
  else if prompt.tokens = [] ∨ limit < used then
    .error ⟨.limit, s!"prompt plus generation would use {used} of {limit} context tokens"⟩
  else request.script.reserve

/-- `fg_generation_stats`, without its times. -/
structure Stats where
  promptTokens : Nat
  prefilledTokens : Nat
  reusedTokens : Nat
  prefixCacheHit : Bool
  exactFrontier : Bool
  resetReason : ResetReason
  generatedTokens : Nat
  contextTokens : Nat
  deriving DecidableEq

def Stats.zero : Stats := ⟨0, 0, 0, false, false, .none, 0, 0⟩

/-- The result of a call; `emitted` lists the tokens handed to the callback. -/
structure Outcome where
  runtime : Runtime
  status : Except Error Unit
  stats : Stats
  emitted : List Nat
  prefixMiss : Bool

/-- A call that returns before it changes anything. -/
def refuse (runtime : Runtime) (err : Error) : Outcome := ⟨runtime, .error err, .zero, [], false⟩

structure Progress where
  runtime : Runtime
  status : Except Error Unit
  next : Nat
  prefilled : Nat
  generated : Nat
  draws : Nat
  stateMutated : Bool
  emitted : List Nat

/-- The token sampled from what the owners have processed: the next uniform is drawn only at a positive
temperature, and a penalised draw counts its token. -/
def drawToken (deployment : Deployment) (sampler : Sampler) (progress : Progress) : Progress :=
  let runtime := progress.runtime
  let uniform := if 0 < sampler.temperature.order then some progress.draws else none
  let counted := if sampler.penaltiesActive then some runtime.counted else none
  let token := deployment.sample sampler uniform counted runtime.owners
  { progress with
    next := token
    draws := progress.draws + 1
    runtime :=
      { runtime with
        nextToken := some token
        sampledFrom := runtime.owners
        counted := if sampler.penaltiesActive then runtime.counted ++ [token] else runtime.counted } }

/-- `sync_output_history`, when the penalties are active. -/
def syncOutputHistory (prompt : Prompt) (request : Request) (runtime : Runtime) : Runtime × Except Error Unit :=
  if request.sampler.penaltiesActive then
    match request.script.sync with
    | .error err => (runtime, .error err)
    | .ok () => ({ runtime with counted := prompt.tokens }, .ok ())
  else (runtime, .ok ())

def prefillSuffix (deployment : Deployment) (prompt : Prompt) (request : Request) (offset bias : Nat)
    (progress : Progress) : Progress :=
  let runtime := progress.runtime
  let entries := prompt.prefillEntries offset bias
  let count := prompt.tokens.length - offset
  match request.script.prefill with
  | .failed err _ left transport =>
    { progress with
      status := .error err
      runtime :=
        { runtime with
          owners := left
          transport := transport } }
  | .interrupted prefilled transport =>
    { progress with
      status := .error
        ⟨.interrupted, s!"prefill interrupted after {prefilled} of {count} tokens"⟩
      prefilled := prefilled
      runtime :=
        { runtime with
          owners := runtime.owners ++ entries.take prefilled
          transport := transport } }
  | .done transport =>
    let processed :=
      { progress with
        prefilled := count
        runtime :=
          { runtime with
            owners := runtime.owners ++ entries
            transport := transport } }
    let answered :=
      { processed with
        runtime := { processed.runtime with transport := request.script.outputTransport } }
    match request.script.output with
    | .error err => { answered with status := .error err }
    | .ok () =>
      let drawn := drawToken deployment request.sampler answered
      { drawn with
        runtime :=
          { drawn.runtime with
            statePosition :=
              if prompt.vision.isSome then prompt.endPosition
              else prompt.tokens.length + bias } }

def prefillStage (deployment : Deployment) (prompt : Prompt) (request : Request) (offset bias : Nat)
    (runtime : Runtime) : Progress :=
  let written :=
    { runtime with history := runtime.history.take offset ++ prompt.tokens.drop offset }
  let (synced, status) := syncOutputHistory prompt request written
  let progress : Progress :=
    { runtime := synced
      status := status
      next := runtime.nextToken.getD 0
      prefilled := 0
      generated := 0
      draws := 0
      stateMutated := offset < prompt.tokens.length
      emitted := [] }
  match status with
  | .error _ => progress
  | .ok () =>
    if offset < prompt.tokens.length then prefillSuffix deployment prompt request offset bias progress
    else progress

def emitToken (script : Script) (generated token : Nat) : Bool × Except Error Unit :=
  match script.tokenText generated token with
  | .error err => (false, .error err)
  | .ok () =>
    (true, (script.callback generated token).bind fun () => script.renderAppend generated token)

/-- `runtime->history[runtime->history_count++]=next`. -/
def appendToken (progress : Progress) : Progress :=
  { progress with
    generated := progress.generated + 1
    stateMutated := true
    runtime := { progress.runtime with history := progress.runtime.history ++ [progress.next] } }

def processToken (transport : Transport.State) (progress : Progress) : Progress :=
  { progress with
    runtime :=
      { progress.runtime with
        owners := progress.runtime.owners ++
          [⟨progress.next, .text progress.runtime.statePosition, none⟩]
        transport := transport } }

def advanceCursor (progress : Progress) : Progress :=
  { progress with
    runtime := { progress.runtime with statePosition := progress.runtime.statePosition + 1 } }

def decodeToken (deployment : Deployment) (request : Request) (progress : Progress) : Progress :=
  let appended := appendToken progress
  match request.script.decode progress.generated with
  | .failed err left transport =>
    { appended with
      status := .error err
      runtime :=
        { appended.runtime with
          owners := left
          transport := transport } }
  | .done transport =>
    advanceCursor (drawToken deployment request.sampler (processToken transport appended))

def decodeTurn (deployment : Deployment) (request : Request) (progress : Progress) : Progress × Bool :=
  if request.script.interrupted progress.generated then (progress, false)
  else if progress.next = deployment.eos then 
    ({ progress with status := request.script.eosText progress.generated }, false)
  else match emitToken request.script progress.generated progress.next with
    | (reached, .error err) =>
      ({ progress with
          status := .error err
          emitted := if reached then progress.emitted ++ [progress.next] else progress.emitted }, false)
    | (_, .ok ()) =>
      let decoded := decodeToken deployment request
        { progress with emitted := progress.emitted ++ [progress.next] }
      (decoded, decoded.status.toBool)

/-- The decode loop, at most `remaining` more turns. -/
def decodeLoop (deployment : Deployment) (request : Request) : Nat → Progress → Progress
  | 0, progress => progress
  | remaining + 1, progress =>
    match decodeTurn deployment request progress with
    | (turned, true) => decodeLoop deployment request remaining turned
    | (turned, false) => turned

/-- The decode loop of a call whose prefill succeeded. -/
def decodeStage (deployment : Deployment) (request : Request) (filled : Progress) : Progress :=
  match filled.status with
  | .ok () => decodeLoop deployment request request.maxTokens filled
  | .error _ => filled

/-- The exits of the call: success, an interrupted prefill that keeps what the owners have, a reset, a
runtime that is no longer ready, and the rollback of a call that changed nothing. -/
def finish (prompt : Prompt) (request : Request) (plan : PrefixPlan) (offset bias : Nat) (old : Runtime)
    (progress : Progress) : Outcome :=
  let runtime := progress.runtime
  let count := prompt.tokens.length
  let stats : Stats :=
    { promptTokens := count
      prefilledTokens := count - offset
      reusedTokens := plan.reusedTokens
      prefixCacheHit := plan.hit
      exactFrontier := plan.exactFrontier
      resetReason := plan.resetReason
      generatedTokens := 0
      contextTokens := 0 }
  match progress.status with
  | .ok () =>
    { runtime :=
        { runtime with
          emptyReason := .none
          stateFrontier := runtime.history.length
          rendered := true }
      status := .ok ()
      stats :=
        { stats with
          generatedTokens := progress.generated
          contextTokens := runtime.history.length }
      emitted := progress.emitted
      prefixMiss := false }
  | .error err =>
    if err.code = .interrupted ∧ offset < count ∧ runtime.transport = .ready then
      let achieved := min (offset + progress.prefilled) count
      { runtime :=
          { runtime with
            history := runtime.history.take achieved
            stateFrontier := achieved
            statePosition := achieved + bias
            nextToken := none
            emptyReason := .none }
        status := .error err
        stats :=
          { stats with
            prefilledTokens := achieved - offset
            contextTokens := achieved }
        emitted := progress.emitted
        prefixMiss := false }
    else if progress.stateMutated ∧ runtime.transport = .ready then
      match runtimeResetState runtime .failure request.script.resetAfter with
      | (reset, .ok ()) => ⟨reset, .error err, stats, progress.emitted, false⟩
      | (reset, .error resetError) => ⟨reset, .error resetError, stats, progress.emitted, false⟩
    else if progress.stateMutated then
      ⟨{ runtime with stateReady := false }, .error err, stats, progress.emitted, false⟩
    else
      { runtime :=
          { runtime with
            history := runtime.history.take old.history.length
            nextToken := old.nextToken }
        status := .error err
        stats := stats
        emitted := progress.emitted
        prefixMiss := false }

def resetForMiss (runtime : Runtime) (plan : PrefixPlan) (answer : ResetAnswer) : Runtime × Except Error Unit :=
  if plan.hit = false ∧ runtime.history ≠ [] then runtimeResetState runtime plan.resetReason answer
  else (runtime, .ok ())

def runtimeGenerateTokens (deployment : Deployment) (runtime : Runtime) (prompt : Prompt)
    (request : Request) : Outcome :=
  if request.maxTokens = 0 then refuse runtime ⟨.argument, "invalid resident generation arguments"⟩
  else if runtime.stateReady = false then
    refuse runtime ⟨.mismatch, "resident runtime requires a successful reset"⟩
  else
    let plan := generatePlan deployment runtime prompt
    let bias := positionBias runtime prompt plan
    let offset := plan.start
    match checkRequest deployment prompt plan request with
    | .error err => { refuse runtime err with prefixMiss := prompt.requirePrefixHit && !plan.hit }
    | .ok () =>
      match resetForMiss runtime plan request.script.resetBefore with
      | (reset, .error err) => refuse reset err
      | (ready, .ok ()) =>
        let prefilled := prefillStage deployment prompt request offset bias ready
        finish prompt request plan offset bias runtime (decodeStage deployment request prefilled)

/-- `fg_runtime_generate`, with the tokenized transcript. -/
def generate (deployment : Deployment) (runtime : Runtime) (encoded : Except Error (List Nat))
    (request : Request) : Outcome :=
  match encoded with
  | .error err =>
    refuse runtime
      (if err.code = .argument then ⟨.argument, "invalid resident generation arguments"⟩ else err)
  | .ok tokens => runtimeGenerateTokens deployment runtime (.ofTokens tokens false false) request

/-- The check at the head of `runtime_build_continuation`. -/
def requireFrontier (runtime : Runtime) : Except Error Unit :=
  if runtime.rendered ∧ runtime.nextToken.isSome then .ok ()
  else .error ⟨.unavailable, "runtime has no reusable continuation frontier"⟩

/-- `fg_runtime_generate_continuation`, with the tokenized suffix that starts at the pending `EOS`. -/
def generateContinuation (deployment : Deployment) (runtime : Runtime)
    (suffix : Except Error (List Nat)) (request : Request) : Outcome :=
  match requireFrontier runtime with
  | .error err => { refuse runtime err with prefixMiss := true }
  | .ok () =>
    match suffix.bind fun tokens =>
        prefixBuildContinuationTokens runtime.history deployment.eos tokens with
    | .error err => refuse runtime err
    | .ok tokens => runtimeGenerateTokens deployment runtime (.ofTokens tokens true true) request

structure VisionInput where
  media : Except Error (List Medium)
  encoded : Except Error (List Nat)

/-- Both passes over a vision transcript, from a cursor: the items, their entries and the cursor after
them. -/
def expandVision (position : Nat) (tokens : List Nat) (media : List Medium) :
    Except Error (List Item × List Entry × Nat) :=
  (matchMedia 0 tokens media).bind fun items =>
    (placeItems none position items).map fun placed => (items, placed)

/-- `fg_runtime_generate_vision`. -/
def generateVision (deployment : Deployment) (runtime : Runtime) (input : VisionInput) (request : Request) : Outcome :=
  if input.media = .ok [] ∨ request.maxTokens = 0 then
    refuse runtime ⟨.argument, "invalid vision generation arguments"⟩
  else
    let expanded := input.media.bind fun media =>
      input.encoded.bind fun tokens => expandVision 0 tokens media
    match expanded with
    | .error err => refuse runtime err
    | .ok (_, entries, last) =>
      runtimeGenerateTokens deployment runtime (.ofEntries entries false false last) request

def continuationEntries (history : List Nat) (entries : List Entry) : List Entry :=
  history.map (fun token => ⟨token, .text 0, none⟩) ++ entries

/-- `fg_runtime_generate_vision_continuation`, with the suffix expanded from the saved cursor. -/
def generateVisionContinuation (deployment : Deployment) (runtime : Runtime) (input : VisionInput)
    (request : Request) : Outcome :=
  if input.media = .ok [] ∨ request.maxTokens = 0 then
    refuse runtime ⟨.argument, "invalid vision continuation arguments"⟩
  else match input.media with
    | .error err => refuse runtime err
    | .ok media =>
      match requireFrontier runtime with
      | .error err => { refuse runtime err with prefixMiss := true }
      | .ok () =>
        match input.encoded.bind fun tokens => expandVision runtime.statePosition tokens media with
        | .error err => refuse runtime err
        | .ok (_, entries, last) =>
          match prefixBuildContinuationTokens runtime.history deployment.eos
              (entries.map Entry.token) with
          | .error err => refuse runtime err
          | .ok _ =>
            runtimeGenerateTokens deployment runtime
              (.ofEntries (continuationEntries runtime.history entries) true true last) request

/-- The calls of the public interface. The three resets differ in their reason. -/
inductive Call where
  | generate (encoded : Except Error (List Nat)) (request : Request)
  | generateContinuation (suffix : Except Error (List Nat)) (request : Request)
  | generateVision (input : VisionInput) (request : Request)
  | generateVisionContinuation (input : VisionInput) (request : Request)
  | reset (reason : ResetReason) (answer : ResetAnswer)

def perform (deployment : Deployment) (runtime : Runtime) : Call → Outcome
  | .generate encoded request => generate deployment runtime encoded request
  | .generateContinuation suffix request => generateContinuation deployment runtime suffix request
  | .generateVision input request => generateVision deployment runtime input request
  | .generateVisionContinuation input request => generateVisionContinuation deployment runtime input request
  | .reset reason answer =>
    let (after, status) := runtimeResetState runtime reason answer
    ⟨after, status, .zero, [], false⟩

end Generate

end FlashGordon
