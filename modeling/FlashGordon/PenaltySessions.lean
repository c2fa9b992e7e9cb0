import FlashGordon.Frontier
import FlashGordon.OutputHistory

/-! The requests of interleaved sessions, message by message. `runtime_generate_tokens` is cut where it exchanges
a message with the output rank or lets another session run; between two such points a session runs the functions
of the sequential model. The sessions share the output rank, and the token that its sampler selects is an input of
the step. -/

namespace FlashGordon.Generate

open OutputHistory

/-- What a running call has fixed. -/
structure Running where
  prompt : Prompt
  request : Request
  plan : PrefixPlan
  bias : Nat
  old : Runtime

def Running.offset (call : Running) : Nat := call.plan.start

/-- Where a session is between two messages. -/
inductive Point where
  | idle (runtime : Runtime)
  | resetting (call : Running) (runtime : Runtime)
  | syncing (call : Running) (progress : Progress)
  | prefilling (call : Running) (progress : Progress)
  | samplingFirst (call : Running) (progress : Progress)
  | turning (call : Running) (progress : Progress)
  | samplingNext (call : Running) (progress : Progress)
  | finishing (call : Running) (progress : Progress)

/-- The history update of a call whose miss, if any, has been reset. -/
def writeHistory (call : Running) (runtime : Runtime) : Point :=
  .syncing call
    { runtime :=
        { runtime with history := runtime.history.take call.offset ++ call.prompt.tokens.drop call.offset }
      status := .ok ()
      next := runtime.nextToken.getD 0
      prefilled := 0
      generated := 0
      draws := 0
      stateMutated := call.offset < call.prompt.tokens.length
      emitted := [] }

/-- The head of `runtime_generate_tokens`. -/
def enterCall (deployment : Deployment) (runtime : Runtime) (prompt : Prompt) (request : Request) : Point :=
  if request.maxTokens = 0 then .idle runtime
  else if runtime.stateReady = false then .idle runtime
  else
    let plan := generatePlan deployment runtime prompt
    let call : Running := ⟨prompt, request, plan, positionBias runtime prompt plan, runtime⟩
    match checkRequest deployment prompt plan request with
    | .error _ => .idle runtime
    | .ok () =>
      if plan.hit = false ∧ runtime.history ≠ [] then .resetting call runtime else writeHistory call runtime

/-- `while(status==FG_OK&&generated<max_tokens)`. -/
def loopPoint (call : Running) (progress : Progress) : Point :=
  if progress.generated < call.request.maxTokens then .turning call progress else .finishing call progress

def prefillPoint (call : Running) (progress : Progress) : Point :=
  if call.offset < call.prompt.tokens.length then .prefilling call progress else loopPoint call progress

def prefillPart (call : Running) (progress : Progress) : Point :=
  let entries := call.prompt.prefillEntries call.offset call.bias
  let runtime := progress.runtime
  match call.request.script.prefill with
  | .failed err _ left transport =>
    .finishing call
      { progress with
        status := .error err
        runtime :=
          { runtime with
            owners := left
            transport := transport } }
  | .interrupted prefilled transport =>
    .finishing call
      { progress with
        status := .error
          ⟨.interrupted,
            s!"prefill interrupted after {prefilled} of {call.prompt.tokens.length - call.offset} tokens"⟩
        prefilled := prefilled
        runtime :=
          { runtime with
            owners := runtime.owners ++ entries.take prefilled
            transport := transport } }
  | .done transport =>
    .samplingFirst call
      { progress with
        prefilled := call.prompt.tokens.length - call.offset
        runtime :=
          { runtime with
            owners := runtime.owners ++ entries
            transport := transport } }

/-- The answer of the output rank becomes the pending token. -/
def takeToken (call : Running) (token : Nat) (progress : Progress) : Progress :=
  let runtime := progress.runtime
  { progress with
    next := token
    draws := progress.draws + 1
    runtime :=
      { runtime with
        nextToken := some token
        sampledFrom := runtime.owners
        counted := if call.request.sampler.penaltiesActive then runtime.counted ++ [token] else runtime.counted } }

/-- The head of one turn of the decode loop, up to the messages of `coordinator_decode_token`. -/
def turnHead (deployment : Deployment) (call : Running) (progress : Progress) : Point :=
  let script := call.request.script
  if script.interrupted progress.generated then .finishing call progress
  else if progress.next = deployment.eos then
    .finishing call { progress with status := script.eosText progress.generated }
  else match emitToken script progress.generated progress.next with
    | (reached, .error err) =>
      .finishing call
        { progress with
          status := .error err
          emitted := if reached then progress.emitted ++ [progress.next] else progress.emitted }
    | (_, .ok ()) =>
      .samplingNext call (appendToken { progress with emitted := progress.emitted ++ [progress.next] })

/-- The sessions by their slot at the output rank, and the output rank. -/
structure Sessions where
  output : OutputRank
  session : Nat → Point

def Sessions.opened : Sessions := ⟨.initial, fun _ => .idle .opened⟩

/-- What drives a session: a public call, an explicit reset, or the next message of a running call with the token
that the output rank selects; `reached` says whether a message whose exchange fails got to the output rank. -/
inductive Drive where
  | call (prompt : Prompt) (request : Request)
  | reset (reason : ResetReason) (answer : ResetAnswer) (reached : Bool)
  | go (token : Nat) (reached : Bool)

def resetOutput (output : OutputRank) (slot : Nat) (status : Except Error Unit) (reached : Bool) : OutputRank :=
  if status.toBool ∨ reached then output.beginSession slot else output

def exitCall (call : Running) (progress : Progress) : Runtime × Bool :=
  let outcome := finish call.prompt call.request call.plan call.offset call.bias call.old progress
  let kept := match progress.status with
    | .ok () => true
    | .error err =>
      err.code = .interrupted ∧ call.offset < call.prompt.tokens.length ∧ progress.runtime.transport = .ready
  (outcome.runtime, !kept && progress.stateMutated && progress.runtime.transport = .ready)

/-- A draw at the output rank; `none` for a token that the sampler cannot select. -/
def draw (output : OutputRank) (slot : Nat) (call : Running) (token : Nat) : Option OutputRank :=
  match output.handleOutputWork slot call.request.sampler.penaltiesActive token with
  | (output, .ok ()) => if token < OutputSplit.vocabSize then some output else none
  | (_, .error _) => none

def goOn (deployment : Deployment) (output : OutputRank) (slot token : Nat) (reached : Bool) :
    Point → Option (OutputRank × Point)
  | .idle _ => none
  | .resetting call runtime =>
    match runtimeResetState runtime call.plan.resetReason call.request.script.resetBefore with
    | (reset, .error err) => some (resetOutput output slot (.error err) reached, .idle reset)
    | (ready, .ok ()) => some (resetOutput output slot (.ok ()) reached, writeHistory call ready)
  | .syncing call progress =>
    if call.request.sampler.penaltiesActive then
      match output.handleOutputHistory slot call.prompt.tokens, call.request.script.sync with
      | (synced, .ok ()), .ok () =>
        some (synced, prefillPoint call
          { progress with runtime := { progress.runtime with counted := call.prompt.tokens } })
      | (synced, .error err), .ok () => some (synced, .finishing call { progress with status := .error err })
      | (synced, _), .error err =>
        some (if reached then synced else output, .finishing call { progress with status := .error err })
    else some (output, prefillPoint call progress)
  | .prefilling call progress => some (output, prefillPart call progress)
  | .samplingFirst call progress =>
    (draw output slot call token).map fun drawn =>
      let answered :=
        { progress with
          runtime := { progress.runtime with transport := call.request.script.outputTransport } }
      match call.request.script.output with
      | .error err => (if reached then drawn else output, .finishing call { answered with status := .error err })
      | .ok () =>
        let taken := takeToken call token answered
        (drawn, loopPoint call
          { taken with
            runtime :=
              { taken.runtime with
                statePosition :=
                  if call.prompt.vision.isSome then call.prompt.endPosition
                  else call.prompt.tokens.length + call.bias } })
  | .turning call progress => some (output, turnHead deployment call progress)
  | .samplingNext call progress =>
    (draw output slot call token).map fun drawn =>
      match call.request.script.decode (progress.generated - 1) with
      | .failed err left transport =>
        (if reached then drawn else output, .finishing call
          { progress with
            status := .error err
            runtime :=
              { progress.runtime with
                owners := left
                transport := transport } })
      | .done transport =>
        (drawn, loopPoint call (advanceCursor (takeToken call token (processToken transport progress))))
  | .finishing call progress =>
    let (runtime, resets) := exitCall call progress
    some (if resets ∧ reached then output.beginSession slot else output, .idle runtime)

def sessionsStep (deployment : Deployment) (s : Sessions) : Nat × Drive → Option Sessions
  | (slot, drive) =>
    if slot < maxSlots then
      match drive, s.session slot with
      | .call prompt request, .idle runtime =>
        some { s with
          session := Function.update s.session slot (enterCall deployment runtime prompt request) }
      | .reset reason answer reached, .idle runtime =>
        let (after, status) := runtimeResetState runtime reason answer
        some ⟨resetOutput s.output slot status reached, Function.update s.session slot (.idle after)⟩
      | .go token reached, point =>
        (goOn deployment s.output slot token reached point).map fun (output, next) =>
          ⟨output, Function.update s.session slot next⟩
      | _, _ => none
    else none

def Point.draws : Point → Option (Running × List Nat)
  | .samplingFirst call progress | .samplingNext call progress => some (call, progress.runtime.history)
  | _ => none

end FlashGordon.Generate
