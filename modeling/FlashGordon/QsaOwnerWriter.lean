import FlashGordon.QsaOwner
import FlashGordon.Ring
import FlashGordon.Runs

/-! The asynchronous page writer of a QSA owner (`runtime.c`). The message thread passes an append through
the guard and puts its pages in a ring of eight slots; the writer thread takes the slot at the head, reads
it with the lock released, writes its pages layer by layer, and takes the lock again to retire the slot. A
step is one message handled up to where it waits for the writer, or one move of the writer: taking a slot,
looking at one page of it, one write of the pages of a layer, retiring it. What the state file answers is
part of the step. -/

namespace FlashGordon.QsaOwner

/-- `FG_QSA_OWNER_WRITE_DEPTH`. -/
def writeDepth : Nat := 8

/-- `FG_QSA_OWNER_LAYER_COUNT`. -/
def ownerLayerCount : Nat := 6

def appendMaxPages : Nat := ownerLayerCount * appendLayerMaxPages

def fetchMaxPages : Nat := 2048 / compressRatio

variable {Records : Type}

/-- `qsa_owner_runtime`, as far as the queue is concerned. A queue slot holds the pages last put in it. -/
structure Runtime (Records : Type) where
  guard : Guard
  layers : List UInt8
  stateOpen : Bool
  statePath : String
  writeQueue : Nat → List (Page Records)
  writeHead : Nat
  writeCount : Nat
  writerStatus : Except Error Unit

/-- The runtime serves pages, and has a writer thread, when the rank owns a QSA layer. -/
def Runtime.enabled (runtime : Runtime Records) : Bool := !runtime.layers.isEmpty

def ownedQsaLayers (manifest : Manifest) (rank : UInt8) : List UInt8 :=
  (qsaLayers.filter fun layer => manifest.layerOwner layer == rank).map UInt8.ofNat

/-- `qsa_owner_runtime_create` once its allocations and its thread are there. -/
def runtimeCreate (manifest : Manifest) (rank : UInt32) : Except Error (Runtime Records) :=
  let layers := ownedQsaLayers manifest rank.toUInt8
  if ownerLayerCount < layers.length then
    .error ⟨.mismatch, s!"rank {rank} has {layers.length} QSA owner layers"⟩
  else
    .ok
      { guard := guardInit rank
        layers := layers
        stateOpen := false
        statePath := ""
        writeQueue := fun _ => []
        writeHead := 0
        writeCount := 0
        writerStatus := .ok () }

/-- The entry loop of `validate_qsa_page_batch`. -/
def pageEntriesCheck (recordsRequired : Bool) :
    List (Page Records) → Nat → List (Page Records) → Except Error Unit
  | _, _, [] => .ok ()
  | prior, i, page :: rest =>
    if layerCount ≤ page.layer.toNat ∨ page.layer.toNat % 4 ≠ 3 ∨
        (maxContext + compressRatio - 1) / compressRatio ≤ page.block.toNat ∨
        (recordsRequired ∧ page.records.isNone) then
      .error ⟨.format, s!"invalid QSA page entry {i}"⟩
    else if prior.any fun other => other.layer == page.layer && other.block == page.block then
      .error ⟨.format, s!"duplicate QSA page entry {i}"⟩
    else pageEntriesCheck recordsRequired (prior ++ [page]) (i + 1) rest

def validateQsaPageBatch (maximum : Nat) (recordsRequired : Bool) (batch : PageBatch Records) :
    Except Error Unit :=
  if rankCount ≤ batch.sourceRank.toNat ∨ rankCount ≤ batch.destinationRank.toNat ∨
      batch.sourceRank = batch.destinationRank ∨ batch.pages.length = 0 ∨ maximum < batch.pages.length then
    .error ⟨.format, "invalid QSA page batch header"⟩
  else pageEntriesCheck recordsRequired [] 0 batch.pages

def validateQsaAppendDistribution : (Nat → Nat) → List (Page Records) → Except Error Unit
  | _, [] => .ok ()
  | pagesPerLayer, page :: rest =>
    let pages := pagesPerLayer page.layer.toNat + 1
    if appendLayerMaxPages < pages then
      .error ⟨.format, "QSA page append exceeds the per-layer batch limit"⟩
    else validateQsaAppendDistribution (Function.update pagesPerLayer page.layer.toNat pages) rest

structure PageFrame (Records : Type) where
  peer : Nat
  requestId : UInt64
  sequence : UInt32
  batch : PageBatch Records

/-- `qsa_owner_writer_drain`; `none` while it waits. -/
def writerDrain (runtime : Runtime Records) : Option (Except Error Unit) :=
  if !runtime.enabled then some (.ok ())
  else if runtime.writeCount ≠ 0 then none
  else some runtime.writerStatus

/-- `qsa_owner_writer_enqueue`. -/
def writerEnqueue (runtime : Runtime Records) (batch : PageBatch Records) : Except Error Unit × Runtime Records :=
  match runtime.writerStatus with
  | .error err => (.error err, runtime)
  | .ok () =>
    if runtime.writeCount = writeDepth then
      (.error ⟨.limit, "QSA owner writer queue is backpressured; session must reset"⟩, runtime)
    else
      (.ok (), { runtime with
        writeQueue := Function.update runtime.writeQueue
          (Ring.slot writeDepth runtime.writeHead runtime.writeCount) batch.pages
        writeCount := runtime.writeCount + 1 })

/-- `handle_qsa_page_append`: the guard moves on only once the pages are queued. -/
def handleQsaPageAppend (manifest : Manifest) (runtime : Runtime Records) (frame : PageFrame Records) :
    Except Error Unit × Runtime Records :=
  if !runtime.enabled ∨ !runtime.stateOpen ∨ frame.peer ≠ 0 then
    (.error ⟨.mismatch, "QSA page append reached an inactive owner"⟩, runtime)
  else
    match validateQsaPageBatch appendMaxPages true frame.batch,
      validateQsaAppendDistribution (fun _ => 0) frame.batch.pages with
    | .error err, _ => (.error err, runtime)
    | .ok (), .error err => (.error err, runtime)
    | .ok (), .ok () =>
      if frame.sequence ≠ frame.batch.batchId then
        (.error ⟨.mismatch, "QSA page append frame sequence mismatch"⟩, runtime)
      else
        match guardAcceptAppend runtime.guard manifest frame.requestId frame.batch with
        | (.error err, _) => (.error err, runtime)
        | (.ok (), next) =>
          match writerEnqueue runtime frame.batch with
          | (.error err, after) => (.error err, after)
          | (.ok (), after) => (.ok (), { after with guard := next })

/-- `handle_qsa_page_barrier` up to its acknowledgement. -/
def handleQsaPageBarrier (runtime : Runtime Records) (peer : Nat) (requestId : UInt64) (sequence : UInt32)
    (barrier : PageBarrier) : Option (Except Error Unit × Runtime Records) :=
  if rankCount ≤ barrier.sourceRank.toNat ∨ rankCount ≤ barrier.destinationRank.toNat ∨
      barrier.sourceRank = barrier.destinationRank then
    some (.error ⟨.format, "invalid QSA page barrier route"⟩, runtime)
  else if peer ≠ 0 ∨ sequence ≠ barrier.batchId then
    some (.error ⟨.mismatch, "QSA page barrier frame mismatch"⟩, runtime)
  else
    match guardAcceptBarrier runtime.guard requestId barrier with
    | (.error err, _) => some (.error err, runtime)
    | (.ok (), _) => (writerDrain runtime).map fun answer => (answer, runtime)

/-- `handle_qsa_page_fetch` up to its reads. The guard has counted the fetch before the drain answers. -/
def handleQsaPageFetch (manifest : Manifest) (runtime : Runtime Records) (frame : PageFrame Records) :
    Option (Except Error Unit × Runtime Records) :=
  if !runtime.enabled ∨ !runtime.stateOpen ∨ frame.peer ≠ 0 then
    some (.error ⟨.mismatch, "QSA page fetch reached an inactive owner"⟩, runtime)
  else
    match validateQsaPageBatch fetchMaxPages false frame.batch with
    | .error err => some (.error err, runtime)
    | .ok () =>
      if frame.sequence ≠ frame.batch.batchId then
        some (.error ⟨.mismatch, "QSA page fetch frame sequence mismatch"⟩, runtime)
      else
        match guardAcceptFetch runtime.guard manifest frame.requestId frame.batch with
        | (.error err, _) => some (.error err, runtime)
        | (.ok (), next) => (writerDrain runtime).map fun answer => (answer, { runtime with guard := next })

/-- `worker_publish_qsa_pages`: the block owner's own frontier is published to the guard. -/
def publishQsaPages (runtime : Runtime Records) (firstToken : UInt32) (tokenCount : UInt16)
    (stateSlot : UInt32) : Runtime Records :=
  if !runtime.enabled ∨ stateSlot ≠ 0 then runtime
  else
    let frontier := firstToken + tokenCount.toUInt32
    { runtime with guard := { runtime.guard with
        nextToken := fun layer =>
          if UInt8.ofNat layer ∈ runtime.layers ∧ layer < 256 ∧ runtime.guard.nextToken layer < frontier
          then frontier else runtime.guard.nextToken layer } }

structure SessionRequest where
  directory : String
  identitySha256 : Digest
  requestId : UInt64
  control : Option Control
  reuse : Bool
  resetAnswer : Except Error Unit
  removeAnswer : Except Error Unit
  openAnswer : Except Error Unit

def statePath (directory : String) (rank : UInt8) (stateSlot : UInt8) : String :=
  if stateSlot ≠ 0 then s!"{directory}/qsa-owner-rank-0{rank}-s{stateSlot}.state"
  else s!"{directory}/qsa-owner-rank-0{rank}.state"

def reopenState (manifest : Manifest) (runtime : Runtime Records) (request : SessionRequest) (path : String) :
    Except Error Unit × Runtime Records :=
  if request.reuse then
    if !runtime.stateOpen ∨ path ≠ runtime.statePath ∨
        sessionContext manifest request.control ≠ runtime.guard.contextLimit then
      (.error ⟨.mismatch, "QSA session state namespace changed"⟩, runtime)
    else (request.resetAnswer, runtime)
  else
    match request.removeAnswer, request.openAnswer with
    | .error err, _ => (.error err, { runtime with stateOpen := false })
    | .ok (), .error err => (.error err, { runtime with stateOpen := false })
    | .ok (), .ok () => (.ok (), { runtime with stateOpen := true })

/-- `qsa_owner_open_session`; `none` while it waits for the writer. -/
def openSession (manifest : Manifest) (runtime : Runtime Records) (request : SessionRequest) :
    Option (Except Error Unit × Runtime Records) :=
  if !runtime.enabled then some (.ok (), runtime)
  else
    match guardBegin runtime.guard manifest request.identitySha256 request.requestId request.control with
    | (.error err, _) => some (.error err, runtime)
    | (.ok (), next) =>
      (writerDrain runtime).map fun answer =>
        match answer with
        | .error err => (.error err, runtime)
        | .ok () =>
          let path := statePath request.directory runtime.guard.rank
            ((request.control.map Control.stateSlot).getD 0)
          if 1200 ≤ path.utf8ByteSize then
            (.error ⟨.limit, "QSA owner state path overflow"⟩, runtime)
          else
            match reopenState manifest runtime request path with
            | (.error err, after) => (.error err, after)
            | (.ok (), after) =>
              (.ok (), { after with writerStatus := .ok (), guard := next, statePath := path })

/-- Where `qsa_owner_writer_main` stands: `gathering` reads page `i` of the slot at `index` for the layer
number `slot`, with the pages of that layer copied so far. -/
inductive Writer (Records : Type) where
  | idle
  | gathering (index pageCount slot i : Nat) (gathered : List (Page Records))
  | failed (err : Error)

structure System (Records : Type) where
  runtime : Runtime Records
  writer : Writer Records
  /-- The batches whose append was answered `FG_OK`. -/
  accepted : List (List (Page Records))
  /-- The pages of the writes that succeeded. -/
  written : List (Page Records)

inductive Action (Records : Type) where
  | append (frame : PageFrame Records)
  | barrier (peer : Nat) (requestId : UInt64) (sequence : UInt32) (barrier : PageBarrier)
  | fetch (frame : PageFrame Records)
  | openSession (request : SessionRequest)
  | publish (firstToken : UInt32) (tokenCount : UInt16) (stateSlot : UInt32)
  | take
  | gather
  | write (outcome : Except Error Unit)
  | retire

/-- One page of the slot is looked at. A layer that is full ends the loop; the source records a limit error
there, which the write that follows overwrites. -/
def gatherPage (runtime : Runtime Records) (index pageCount slot i : Nat) (gathered : List (Page Records)) :
    Writer Records :=
  match (runtime.writeQueue index)[i]? with
  | some page =>
    if runtime.layers[slot]? = some page.layer then
      if appendLayerMaxPages ≤ gathered.length then .gathering index pageCount slot pageCount gathered
      else .gathering index pageCount slot (i + 1) (gathered ++ [page])
    else .gathering index pageCount slot (i + 1) gathered
  | none => .gathering index pageCount slot (i + 1) gathered

/-- What the writer does with the lock at the end of a slot. -/
def retireSlot (runtime : Runtime Records) : Except Error Unit → Runtime Records
  | .error err =>
    { runtime with
      writerStatus :=
        match runtime.writerStatus with
        | .ok () => .error err
        | .error first => .error first
      writeCount := 0 }
  | .ok () =>
    { runtime with
      writeHead := (runtime.writeHead + 1) % writeDepth
      writeCount := runtime.writeCount - 1 }

/-- One step of either thread; `none` where the thread cannot take it. -/
def step (manifest : Manifest) (system : System Records) : Action Records → Option (System Records)
  | .append frame =>
    match handleQsaPageAppend manifest system.runtime frame with
    | (.ok (), runtime) =>
      some { system with runtime := runtime, accepted := system.accepted ++ [frame.batch.pages] }
    | (.error _, runtime) => some { system with runtime := runtime }
  | .barrier peer requestId sequence barrier =>
    (handleQsaPageBarrier system.runtime peer requestId sequence barrier).map fun answer =>
      { system with runtime := answer.2 }
  | .fetch frame =>
    (handleQsaPageFetch manifest system.runtime frame).map fun answer =>
      { system with runtime := answer.2 }
  | .openSession request =>
    (openSession manifest system.runtime request).map fun answer => { system with runtime := answer.2 }
  | .publish firstToken tokenCount stateSlot =>
    some { system with runtime := publishQsaPages system.runtime firstToken tokenCount stateSlot }
  | .take =>
    match system.writer with
    | .idle =>
      if system.runtime.enabled ∧ system.runtime.writeCount ≠ 0 then
        let index := system.runtime.writeHead
        some { system with writer := .gathering index (system.runtime.writeQueue index).length 0 0 [] }
      else none
    | _ => none
  | .gather =>
    match system.writer with
    | .gathering index pageCount slot i gathered =>
      if slot < system.runtime.layers.length ∧ i < pageCount then
        some { system with writer := gatherPage system.runtime index pageCount slot i gathered }
      else none
    | _ => none
  | .write outcome =>
    match system.writer with
    | .gathering index pageCount slot i gathered =>
      if slot < system.runtime.layers.length ∧ pageCount ≤ i then
        if gathered.isEmpty then
          some { system with writer := .gathering index pageCount (slot + 1) 0 [] }
        else
          match outcome with
          | .error err => some { system with writer := .failed err }
          | .ok () => some { system with
              writer := .gathering index pageCount (slot + 1) 0 []
              written := system.written ++ gathered }
      else none
    | _ => none
  | .retire =>
    match system.writer with
    | .gathering _ _ slot _ _ =>
      if system.runtime.layers.length ≤ slot then
        some { system with runtime := retireSlot system.runtime (.ok ()), writer := .idle }
      else none
    | .failed err => some { system with runtime := retireSlot system.runtime (.error err), writer := .idle }
    | .idle => none

end FlashGordon.QsaOwner
