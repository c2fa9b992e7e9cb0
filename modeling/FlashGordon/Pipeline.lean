import FlashGordon.DecodeBatchTable
import FlashGordon.Fifo
import FlashGordon.Runs

/-! The session pipeline (`pipeline.c`) on the fabric's polling receive (`fabric.c`): two coroutines
whose receives suspend them until the scheduler finds their frame. The scheduler, the running coroutine
and the peers move in turn; the state also keeps a log of every receive. -/

namespace FlashGordon.Pipeline

/-- `FG_PIPELINE_SESSIONS`. -/
def sessions : Nat := 2

inductive FabricClass where
  | control
  | bulk
  deriving DecidableEq

inductive Phase where
  | prefill
  | decode
  deriving DecidableEq

/-- What reading a frame that was peeked at may fail with. The payload was found to fit, so never the
`LIMIT` that the scheduler takes for "not ready". -/
structure ReadError extends Error where
  ne_limit : code ≠ .limit

/-- A frame on the wire: the session slot in its flags, its payload size, what reading and validating it
will answer, and its contents. -/
structure WireFrame (Content : Type) where
  slot : Nat
  bytes : Nat
  receipt : Except ReadError Unit
  content : Content

inductive Link where
  | up
  | closed
  | reset
  deriving DecidableEq

/-- One direction of a channel: the frames whose header has arrived, and the socket behind them. -/
structure Channel (Content : Type) where
  queue : Fifo (WireFrame Content)
  link : Link

structure Fabric (Content : Type) where
  self : Nat
  channel : Nat → FabricClass → Channel Content

/-- What a peer or the network does to a channel. -/
inductive Arrival (Content : Type) where
  | frame (peer : Nat) (cls : FabricClass) (frame : WireFrame Content)
  | link (peer : Nat) (cls : FabricClass) (link : Link)

/-- The parameters of a receive; `wantedPeer = none` is any peer, `timeout = none` waits for ever. -/
structure Request where
  wantedPeer : Option Nat
  cls : FabricClass
  timeout : Option Nat
  capacity : Nat
  payload : Bool

variable {Content : Type}

abbrev Outcome (Content : Type) : Type := Except Error (Option (Nat × WireFrame Content))

/-- Why a receive is over. The first two have taken the frame at that position off the channel. -/
inductive Cause (Content : Type) where
  | satisfied (peer position : Nat) (frame : WireFrame Content)
  | discarded (peer position : Nat) (frame : WireFrame Content) (err : ReadError)
  | timedOut (now : Nat)
  | failed (err : Error)
  | aborted (err : Error)

def Cause.outcome : Cause Content → Outcome Content
  | .satisfied peer _ frame => .ok (some (peer, frame))
  | .discarded _ _ _ err => .error err.toError
  | .timedOut _ => .error ⟨.limit, "pipeline receive timed out"⟩
  | .failed err => .error err
  | .aborted err => .error err

def Cause.consumed : Cause Content → Option (Nat × Nat)
  | .satisfied peer position _ => some (peer, position)
  | .discarded peer position _ _ => some (peer, position)
  | _ => none

def Fabric.update (fabric : Fabric Content) (peer : Nat) (cls : FabricClass)
    (f : Channel Content → Channel Content) : Fabric Content :=
  { fabric with
    channel := fun p c => if p = peer ∧ c = cls then f (fabric.channel p c) else fabric.channel p c }

def Fabric.consume (fabric : Fabric Content) (peer : Nat) (cls : FabricClass) : Fabric Content :=
  fabric.update peer cls fun channel => { channel with queue := channel.queue.pop }

def Fabric.arrive (fabric : Fabric Content) : Arrival Content → Fabric Content
  | .frame peer cls frame =>
    fabric.update peer cls fun channel => { channel with queue := channel.queue.push frame }
  | .link peer cls link => fabric.update peer cls fun channel => { channel with link := link }

inductive Peek (Content : Type) where
  | again
  | lost
  | header (frame : WireFrame Content)

/-- `recv` with `MSG_PEEK` and `MSG_DONTWAIT`; `interrupted` also stands for a frame that comes too late
to be seen. -/
def Channel.peek (channel : Channel Content) (interrupted : Bool) : Peek Content :=
  if interrupted then .again
  else if channel.link = .reset then .lost
  else match channel.queue.head?, channel.link with
    | some frame, _ => .header frame
    | none, .closed => .lost
    | none, _ => .again

/-- The rank loop of `fg_fabric_poll_slot`; no cause is `FG_ERR_LIMIT`. -/
def pollRanks (interrupted : Nat → Bool) (slot : Nat) (request : Request) (fabric : Fabric Content) :
    List Nat → Option (Cause Content) × Fabric Content
  | [] => (none, fabric)
  | rank :: rest =>
    if rank = fabric.self ∨ (request.wantedPeer ≠ none ∧ request.wantedPeer ≠ some rank) then
      pollRanks interrupted slot request fabric rest
    else match (fabric.channel rank request.cls).peek (interrupted rank) with
      | .again => pollRanks interrupted slot request fabric rest
      | .lost => (some (.failed ⟨.io, s!"pipeline peer {rank} disconnected"⟩), fabric)
      | .header frame =>
        let size := frame.bytes
        let capacity := request.capacity
        if DecodeBatch.batchMax ≤ frame.slot then
          (some (.failed ⟨.mismatch, "invalid pipeline frame session slot"⟩), fabric)
        else if frame.slot ≠ slot then pollRanks interrupted slot request fabric rest
        else if request.capacity < frame.bytes ∨ (frame.bytes ≠ 0 ∧ request.payload = false) then
          (some (.failed ⟨.format, s!"pipeline payload {size} exceeds buffer {capacity}"⟩), fabric)
        else
          let position := (fabric.channel rank request.cls).queue.taken
          match frame.receipt with
          | .ok () => (some (.satisfied rank position frame), fabric.consume rank request.cls)
          | .error err => (some (.discarded rank position frame err), fabric.consume rank request.cls)

/-- `fg_fabric_poll_slot`. -/
def pollSlot (interrupted : Nat → Bool) (slot : Nat) (request : Request) (fabric : Fabric Content) :
    Option (Cause Content) × Fabric Content :=
  let valid := match request.wantedPeer with
    | none => true
    | some wanted => wanted < rankCount ∧ wanted ≠ fabric.self
  if DecodeBatch.batchMax ≤ slot ∨ valid = false then
    (some (.failed ⟨.argument, "invalid pipeline receive"⟩), fabric)
  else pollRanks interrupted slot request fabric (List.range rankCount)

inductive Context where
  | entry
  | checkpoint
  | receive
  deriving DecidableEq

structure Slot (Content : Type) where
  active : Bool
  waiting : Bool
  streaming : Bool
  phase : Phase
  request : Request
  deadline : Nat
  result : Outcome Content
  context : Context

inductive Event (Content : Type) where
  | asked (slot : Nat) (request : Request) (now : Nat)
  | settled (slot : Nat) (request : Request) (cause : Cause Content)
  | returned (slot : Nat) (request : Request) (outcome : Outcome Content)
  | aborted (err : Error)

structure State (Content : Type) where
  slots : Nat → Slot Content
  fabric : Fabric Content
  running : Bool
  current : Nat
  next : Nat
  decodePriority : Bool
  failure : Option Error
  log : List (Event Content)

/-- What one poll meets: the arrivals before it, the clock, and the peeks that see nothing. -/
structure Moment (Content : Type) where
  arrivals : List (Arrival Content)
  now : Nat
  interrupted : Nat → Bool

/-- The end of a receive: its result is stored and it waits no more. -/
def State.settle (state : State Content) (index : Nat) (cause : Cause Content) : State Content :=
  { state with
    slots := Function.update state.slots index
      { state.slots index with
        waiting := false
        result := cause.outcome }
    log := state.log ++ [.settled index (state.slots index).request cause] }

def State.arrive (state : State Content) (arrivals : List (Arrival Content)) : State Content :=
  { state with fabric := arrivals.foldl Fabric.arrive state.fabric }

def pipelineReady (moment : Moment Content) (state : State Content) (index : Nat) : Bool × State Content :=
  let slot := state.slots index
  let state := state.arrive moment.arrivals
  if sessions ≤ index then (false, state)
  else if slot.active = false then (false, state)
  else if slot.waiting = false then (true, state)
  else match pollSlot moment.interrupted index slot.request state.fabric with
    | (some cause, fabric) => (true, { state with fabric := fabric }.settle index cause)
    | (none, _) =>
      if slot.deadline = 0 ∨ moment.now < slot.deadline then (false, state)
      else (true, state.settle index (.timedOut moment.now))

def Slot.priority (slot : Slot Content) : Nat :=
  match slot.phase, slot.streaming with
  | .decode, true => 0
  | .decode, false => 1
  | .prefill, _ => 2

/-- The order in which `fg_pipeline_pick` asks the slots. -/
def State.candidates (state : State Content) : List Nat :=
  let levels := if state.decodePriority then 3 else 1
  (List.range levels).flatMap fun level =>
    ((List.range sessions).map fun offset => (state.next + offset) % sessions).filter fun i =>
      levels ≤ 1 ∨ (state.slots i).priority = level

/-- The first ready slot of a list, each asked at its own moment. -/
def pickAmong (moments : Nat → Moment Content) : Nat → List Nat → State Content → Option Nat × State Content
  | _, [], state => (none, state)
  | polls, index :: rest, state =>
    match pipelineReady (moments polls) state index with
    | (true, state) => (some index, state)
    | (false, state) => pickAmong moments (polls + 1) rest state

/-- `fg_pipeline_pick`. -/
def pipelinePick (moments : Nat → Moment Content) (state : State Content) : Option Nat × State Content :=
  pickAmong moments 0 state.candidates state

def State.resume (state : State Content) (index : Nat) : State Content :=
  let slot := state.slots index
  { state with
    running := true
    current := index
    log := match slot.context with
      | .receive => state.log ++ [.returned index slot.request slot.result]
      | _ => state.log }

/-- `fg_pipeline_turn`, up to the coroutine's next suspension. -/
def pipelineTurn (moment : Moment Content) (state : State Content) (index : Nat) : State Content :=
  match pipelineReady moment state index with
  | (false, state) => state
  | (true, state) => state.resume index

def State.yield (state : State Content) (slot : Slot Content) : State Content :=
  { state with
    slots := Function.update state.slots state.current slot
    running := false
    next := (state.current + 1) % sessions }

def Request.deadline (request : Request) (now : Nat) : Nat :=
  match request.timeout with
  | none => 0
  | some timeout => now + timeout

/-- `pipeline_receive`, up to its suspension; in a failed pipeline it returns at once. -/
def pipelineReceive (state : State Content) (request : Request) (now : Nat) : State Content :=
  let index := state.current
  match state.failure with
  | some failure =>
    { state with
      log := state.log ++ [.asked index request now] ++ [.settled index request (.aborted failure)] ++
        [.returned index request (.error failure)] }
  | none =>
    { state with log := state.log ++ [Event.asked index request now] }.yield
      { state.slots index with
        request := request
        waiting := true
        deadline := request.deadline now
        context := .receive }

/-- `fg_pipeline_start`; a busy or invalid slot is refused. -/
def pipelineStart (state : State Content) (index : Nat) : State Content :=
  if sessions ≤ index ∨ (state.slots index).active = true then state
  else
    { state with
      slots := Function.update state.slots index
        { state.slots index with
          active := true
          waiting := false
          streaming := false
          phase := .prefill
          context := .entry } }

/-- The loop of `fg_pipeline_abort` over the waiting slots. -/
def abortSlots (failure : Error) : List Nat → State Content → State Content
  | [], state => state
  | index :: rest, state =>
    if (state.slots index).active = false ∨ (state.slots index).waiting = false then
      abortSlots failure rest state
    else abortSlots failure rest (state.settle index (.aborted failure))

/-- `fg_pipeline_abort`; an error record without a code stands for a ring recovery. -/
def pipelineAbort (state : State Content) (error : Option Error) : State Content :=
  match state.failure with
  | some _ => state
  | none =>
    let failure := error.getD ⟨.unavailable, "ring recovery in progress"⟩
    abortSlots failure (List.range sessions)
      { state with
        failure := some failure
        log := state.log ++ [.aborted failure] }

inductive Action (Content : Type) where
  | arrive (arrival : Arrival Content)
  | start (index : Nat)
  | pick (moments : Nat → Moment Content)
  | turn (index : Nat) (moment : Moment Content)
  | abort (error : Option Error)
  | receive (request : Request) (now : Nat)
  | checkpoint
  | finish
  | setPhase (phase : Phase)
  | setStreaming (streaming : Bool)

/-- One move. The scheduler's moves need control outside the coroutines, a coroutine's inside; peers move
at any time. -/
def step (state : State Content) : Action Content → Option (State Content)
  | .arrive arrival => some (state.arrive [arrival])
  | .start index => if state.running then none else some (pipelineStart state index)
  | .pick moments => if state.running then none else some (pipelinePick moments state).2
  | .turn index moment => if state.running then none else some (pipelineTurn moment state index)
  | .abort error => if state.running then none else some (pipelineAbort state error)
  | .receive request now => if state.running then some (pipelineReceive state request now) else none
  | .checkpoint =>
    if state.running then
      some (state.yield { state.slots state.current with context := .checkpoint })
    else none
  | .finish =>
    if state.running then some (state.yield { state.slots state.current with active := false }) else none
  | .setPhase phase =>
    if state.running then
      some { state with
        slots := Function.update state.slots state.current
          { state.slots state.current with phase := phase } }
    else none
  | .setStreaming streaming =>
    if state.running then
      some { state with
        slots := Function.update state.slots state.current
          { state.slots state.current with streaming := streaming } }
    else none

/-- `fg_pipeline_init`: every slot clear, nothing on the wire yet. -/
def init (self : Nat) (decodePriority : Bool) : State Content where
  slots _ :=
    { active := false
      waiting := false
      streaming := false
      phase := .prefill
      request := ⟨some 0, .control, none, 0, false⟩
      deadline := 0
      result := .ok none
      context := .entry }
  fabric := { self := self, channel := fun _ _ => ⟨.empty, .up⟩ }
  running := false
  current := 0
  next := 0
  decodePriority := decodePriority
  failure := none
  log := []

end FlashGordon.Pipeline
