import FlashGordon.DecodeBatchBuild
import FlashGordon.DecodeBatchTransaction
import FlashGordon.OutputHistory

/-! The whole decode batch step of the coordinator (`coordinator_decode_batch_step` in `runtime.c`): begin and
build, the pass round the ring, one draw for each slot at the output rank, and the commit or the rollback. What
the owners compute and which token the sampler selects are functions of what they read. What goes wrong in an
attempt is part of the attempt. -/

namespace FlashGordon.DecodeBatchSample

open DecodeBatch OutputHistory

/-- `fg_sampler_uniform`: the 24 bits that the draw is made of, and the state after it. -/
def samplerUniform (sampler : SamplerState) : UInt64 × SamplerState :=
  let x := sampler.state
  let x := x ^^^ (x >>> 12)
  let x := x ^^^ (x <<< 25)
  let x := x ^^^ (x >>> 27)
  ((x * 2685821657736338717) >>> 40, ⟨x⟩)

/-- The deterministic part: what one pass of a batch leaves of a state slot on each rank and the hidden row it
returns for the slot, what a pass that breaks off leaves, whether the temperature is positive, and the token
selected from the uniform number, the penalty counts and the hidden row. -/
structure Model (δ η : Type) where
  ring : BatchWork → (UInt32 → Fin 8 → δ) → UInt32 → (Fin 8 → δ) × η
  torn : BatchWork → (UInt32 → Fin 8 → δ) → UInt32 → Fin 8 → δ
  warm : Bool
  select : Option UInt64 → (Nat → Nat) → η → UInt32

/-- How an exchange with the output rank ends. A lost one may have reached it or not. -/
inductive Answer where
  | arrives
  | lost (err : Error) (reached : Bool)

/-- One attempt at a step: the coordinator with the answers of its owner transactions, the arguments, and what
goes wrong. `carried` says which ranks carry out a transaction that fails. -/
structure Attempt where
  coordinator : Coordinator
  policy : Option Policy
  histories : Nat → History
  injectAbort : Bool
  ring : Except Error Unit
  input : Nat → Except Error Unit
  output : Nat → Answer
  carried : List HookCall → HookCall → Fin 8 → Bool

structure Session (δ : Type) where
  state : δ
  checkpoint : Option δ := none

variable {δ η : Type}

/-- `depthb_owner_prepare`, `depthb_owner_commit` and `depthb_owner_restore`. -/
def Session.carryOut (kind : HookKind) (session : Session δ) : Session δ :=
  match kind with
  | .prepare => { session with checkpoint := some session.state }
  | .commit => { session with checkpoint := none }
  | .restore => { state := session.checkpoint.getD session.state }

abbrev Sessions (δ : Type) := UInt32 → Fin 8 → Session δ

/-- Sessions between steps hold no checkpoint. -/
def resting (owners : UInt32 → Fin 8 → δ) : Sessions δ := fun slot rank => { state := owners slot rank }

def states (sessions : Sessions δ) : UInt32 → Fin 8 → δ := fun slot rank => (sessions slot rank).state

namespace Attempt

variable (attempt : Attempt)

def hook : HookKind → Hook
  | .prepare => attempt.coordinator.prepare
  | .commit => attempt.coordinator.commit
  | .restore => attempt.coordinator.restore

def answer (before : List HookCall) (call : HookCall) : Except Error Unit :=
  attempt.hook call.kind before call.sequenceId call.stateSlot

def carries (before : List HookCall) (call : HookCall) (rank : Fin 8) : Bool :=
  (attempt.answer before call).isOk || attempt.carried before call rank

/-- `coordinator_owner_transaction` at the owners. -/
def carryOut (before : List HookCall) (call : HookCall) (sessions : Sessions δ) : Sessions δ := fun slot rank =>
  if slot = call.stateSlot ∧ attempt.carries before call rank = true then
    (sessions slot rank).carryOut call.kind
  else sessions slot rank

def carryOutAll : List HookCall → List HookCall → Sessions δ → Sessions δ
  | _, [], sessions => sessions
  | before, call :: rest, sessions =>
    carryOutAll (before ++ [call]) rest (attempt.carryOut before call sessions)

end Attempt

def rewrite (batch : List UInt32) (left : UInt32 → Fin 8 → δ) (sessions : Sessions δ) : Sessions δ :=
  fun slot rank =>
    if slot ∈ batch then { sessions slot rank with state := left slot rank } else sessions slot rank

/-- What the loop over the slots changes: the outcomes of the step, the coordinator's working copy of the
sampler state, and the tables of the output rank. -/
structure Draws where
  step : Step
  samplerState : SamplerState
  output : OutputRank

/-- The outcome recorded for a slot: positions one on, and a record more in every fourth layer. -/
def outcomeOf (sequence : Sequence) (token : UInt32) (sampler : SamplerState) : Outcome where
  nextToken := token
  position := Vector.ofFn fun axis => if axis.val = 3 then 0 else sequence.position.get axis + 1
  qsaRecords := Vector.ofFn fun layer => if layer.val % 4 = 3 then (sequence.tokenIndex + 1).toUInt64 else 0
  sampler := sampler

variable (model : Model δ η) (attempt : Attempt)

/-- The uniform number of `coordinator_output`, drawn from the sequence's sampler state. -/
def drawFrom (sampler : SamplerState) : Option UInt64 × SamplerState :=
  if model.warm then (some (samplerUniform sampler).1, (samplerUniform sampler).2) else (none, sampler)

/-- One turn of the sampling loop: the slot's input, the exchange of `coordinator_output` and the advance. -/
def drawSlot (table : Table) (hidden : UInt32 → η) (k : Nat) (entry : Entry) (draws : Draws) :
    Draws × Except Error Unit :=
  match attempt.input k with
  | .error err => (draws, .error err)
  | .ok () =>
    let sequence := table.sequences entry.index
    let slot := entry.slot.stateSlot.toNat
    let drawn := drawFrom model sequence.sampler
    let token := model.select drawn.1 (draws.output.countsFor slot) (hidden entry.slot.stateSlot)
    let worked := draws.output.handleOutputWork slot attempt.coordinator.penaltiesActive token.toNat
    match attempt.output k with
    | .lost err reached =>
      ({ draws with samplerState := drawn.2, output := if reached then worked.1 else draws.output },
        .error err)
    | .arrives =>
      let draws := { draws with samplerState := drawn.2, output := worked.1 }
      match worked.2 with
      | .error err => (draws, .error err)
      | .ok () =>
        match stepAdvance draws.step (UInt32.ofNat k) (some (outcomeOf sequence token drawn.2)) with
        | .error err => (draws, .error err)
        | .ok step => ({ draws with step := step }, .ok ())

/-- The sampling loop from slot `k` on, up to its first failure. -/
def drawSlots (table : Table) (hidden : UInt32 → η) : Nat → List Entry → Draws → Draws × Except Error Unit
  | _, [], draws => (draws, .ok ())
  | k, entry :: rest, draws =>
    match drawSlot model attempt table hidden k entry draws with
    | (draws, .error err) => (draws, .error err)
    | (draws, .ok ()) => drawSlots table hidden (k + 1) rest draws

structure State (δ : Type) where
  table : Table
  step : Step
  owners : UInt32 → Fin 8 → δ
  samplerState : SamplerState
  output : OutputRank

/-- What an attempt leaves, with the calls it made, its status, and the status of the restore if one ran. -/
structure Result (δ : Type) where
  state : State δ
  calls : List HookCall
  status : Except Error Unit
  rollback : Except Error Unit

def commitRollback (table : Table) (step : Step) (calls : List HookCall) : Except Error Unit :=
  match step.ops.bind Ops.commit with
  | none => .ok ()
  | some hook =>
    match commitHooks hook table step.entries calls with
    | (made, .error _) => (stepRestore table step made).status
    | (_, .ok ()) => .ok ()

/-- The end of an attempt: the owners carry out the calls made since `before`. -/
def finish (before : List HookCall) (sessions : Sessions δ) (draws : Draws) (reply : Reply)
    (status rollback : Except Error Unit) : Result δ where
  state :=
    { table := reply.table
      step := reply.step
      owners := states (attempt.carryOutAll before (reply.calls.drop before.length) sessions)
      samplerState := draws.samplerState
      output := draws.output }
  calls := reply.calls
  status := status
  rollback := rollback

/-- A failure after begin ends in `fg_decode_batch_step_restore`. -/
def rollBack (table : Table) (calls : List HookCall) (sessions : Sessions δ) (draws : Draws) (err : Error) :
    Result δ :=
  let restored := stepRestore table draws.step calls
  finish attempt calls sessions draws restored (.error err) restored.status

/-- The injected abort reports the restore's status when that fails. -/
def abort (table : Table) (calls : List HookCall) (sessions : Sessions δ) (draws : Draws) : Result δ :=
  let restored := stepRestore table draws.step calls
  let status := match restored.status with
    | .ok () => .error ⟨.interrupted, "injected decode batch abort"⟩
    | .error err => .error err
  finish attempt calls sessions draws restored status restored.status

def commit (table : Table) (calls : List HookCall) (sessions : Sessions δ) (draws : Draws) : Result δ :=
  let committed := stepCommit table draws.step calls
  finish attempt calls sessions draws committed committed.status (commitRollback table draws.step calls)

def passRing (table : Table) (step : Step) (calls : List HookCall) (sessions : Sessions δ) (work : BatchWork)
    (draws : Draws) : Result δ :=
  let batch := step.entries.map fun entry => entry.slot.stateSlot
  match attempt.ring with
  | .error err => rollBack attempt table calls (rewrite batch (model.torn work (states sessions)) sessions) draws err
  | .ok () =>
    let passed := model.ring work (states sessions)
    let sessions := rewrite batch (fun slot => (passed slot).1) sessions
    if attempt.injectAbort then abort attempt table calls sessions draws
    else
      match drawSlots model attempt table (fun slot => (passed slot).2) 0 step.entries draws with
      | (draws, .error err) => rollBack attempt table calls sessions draws err
      | (draws, .ok ()) => commit attempt table calls sessions draws

/-- `coordinator_decode_batch_step`; a null hook is never called, all three being set. -/
def decodeBatchStep (s : State δ) : Option (Result δ) :=
  (decodeBatchStepBuild attempt.coordinator s.table s.step [] attempt.policy attempt.histories).map fun built =>
    let reply := built.reply
    let draws : Draws := { step := reply.step, samplerState := s.samplerState, output := s.output }
    match reply.status with
    | .error err => finish attempt [] (resting s.owners) draws reply (.error err) (.ok ())
    | .ok () =>
      let sessions := attempt.carryOutAll [] reply.calls (resting s.owners)
      match built.message with
      | .error err => rollBack attempt reply.table reply.calls sessions draws err
      | .ok work => passRing model attempt reply.table reply.step reply.calls sessions work draws

end FlashGordon.DecodeBatchSample
