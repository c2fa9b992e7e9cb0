import FlashGordon.QsaAttend
import Mathlib.Data.List.Sort

/-! One prefill step of a QSA session: the records of a chunk are committed to their pages, the queries of
the chunk attend to them in tiles of four, and the pages are written to the state file, the records of
earlier decode steps before them. What the projections, the selection and a fetch leave are arguments, and a
query's records are what its gather copies. -/

namespace FlashGordon.QsaSession

open QsaCache (uint32Max)

variable {R : Type}

/-- `FG_QSA_PREFILL_BATCH_QUERIES`. -/
def prefillBatchQueries : Nat := 4

/-- `FG_PREFILL_MAX_TOKENS`. -/
def prefillMaxTokens : Nat := 512

def blocksPerLayer (maxContext : Nat) : Nat := (maxContext + 3) / 4

/-- `fg_qsa_state_write_block`. -/
def State.writeBlock (state : State R) (maxContext index block : Nat) (records : Page R) (committed : Nat) :
    Except Error (State R) :=
  if blocksPerLayer maxContext ≤ block ∨ committed = 0 ∨ compressRatio < committed then
    .error ⟨.argument, "invalid QSA state write"⟩
  else
    let current := state.layerTokens index
    let last := block * compressRatio + committed
    if block ≠ current / compressRatio ∨ last < current ∨ maxContext < last then
      .error ⟨.mismatch, "non-contiguous QSA state write"⟩
    else
      .ok {
        layerTokens := Function.update state.layerTokens index last
        pages := Function.update state.pages index
          (Function.update (state.pages index) block (some ⟨committed, records⟩)) }

/-- Consecutive complete pages in a layer's part of the file. -/
def storePages (pages : Nat → Option (StatePage R)) : Nat → List (Page R) → Nat → Option (StatePage R)
  | _, [] => pages
  | block, page :: rest => storePages (Function.update pages block (some ⟨compressRatio, page⟩)) (block + 1) rest

/-- `fg_qsa_state_write_blocks` for the blocks from `block` on. -/
def State.writeBlocks (state : State R) (maxContext index block : Nat) (records : List (Page R)) :
    Except Error (State R) :=
  if records = [] ∨ maxSelectedBlocks < records.length then
    .error ⟨.argument, "invalid QSA state write batch"⟩
  else
    let first := state.layerTokens index / compressRatio
    if state.layerTokens index % compressRatio ≠ 0 ∨ blocksPerLayer maxContext < first ∨
        blocksPerLayer maxContext - first < records.length then
      .error ⟨.mismatch, "QSA state write batch frontier is not page aligned"⟩
    else if block ≠ first then
      .error ⟨.mismatch, "non-contiguous QSA state write batch"⟩
    else
      .ok {
        layerTokens := Function.update state.layerTokens index
          (state.layerTokens index + records.length * compressRatio)
        pages := Function.update state.pages index (storePages (state.pages index) block records) }

/-- What a prefill step is handed: the selected blocks of each query, and the answer to a fetch. -/
structure Selected (R : Type) where
  ids : Nat → List UInt32
  fetched : UInt32 → List UInt32 → Except Error (List (Page R))

/-- The records a query attends to: whole pages of the blocks it selected, and the first of its last, partial
block. -/
structure Gathered (R : Type) where
  pages : List (UInt32 × Page R)
  tail : Option (UInt32 × Page R)

/-- Where a tile finds the pages of a query before it fetches what is missing. -/
structure TileRow where
  slots : List (UInt32 × Option Nat)
  tail : Option (UInt32 × Nat)

/-- A list in pieces of at most `size`, the last one with what is left. -/
def pieces {α : Type} (size : Nat) : List α → List (List α)
  | [] => []
  | first :: rest =>
    let (more, others) := rest.toChunksAux (size - 1) (size - 1)
    (first :: more) :: others

namespace Session

/-- `fg_qsa_state_write_block` on the session's own file. -/
def writeBlock (s : Session R) (index block : Nat) (records : Page R) (committed : Nat) :
    Except Error Unit × Session R :=
  match s.state with
  | none => (.error ⟨.argument, "invalid QSA state write"⟩, s)
  | some state =>
    match state.writeBlock s.maxContext index block records committed with
    | .error error => (.error error, s)
    | .ok written => (.ok (), { s with state := some written })

def writeBlocks (s : Session R) (index block : Nat) (records : List (Page R)) : Except Error Unit × Session R :=
  match s.state with
  | none => (.error ⟨.argument, "invalid QSA state write batch"⟩, s)
  | some state =>
    match state.writeBlocks s.maxContext index block records with
    | .error error => (.error error, s)
    | .ok written => (.ok (), { s with state := some written })

/-- One turn of the loop of `commit_prefill_records`. -/
def commitPrefillRecord (s : Session R) (index token : Nat) (record : R) : Option (Except Error Unit × Session R) :=
  match indexTokenLocation s.maxContext token with
  | none => some (.error ⟨.limit, "QSA prefill token has no index segment"⟩, s)
  | some (segment, _) =>
    match s.ensureIndexSegment index segment with
    | .error error => some (.error error, s)
    | .ok ensured => do
      let layer := s.layerAt index
      let block := UInt32.ofNat (token / compressRatio)
      let (slot, _, acquired) ← ensured.qsaCacheAcquire false layer block
      let (pinned, held) ← acquired.pin layer block
      match pinned with
      | .error error => return (.error error, held)
      | .ok () => return (.ok (), held.commitRecord slot token record)

def commitPrefillRecords (s : Session R) (index token : Nat) : List R → Option (Except Error Unit × Session R)
  | [] => some (.ok (), s)
  | record :: rest => do
    let (committed, after) ← s.commitPrefillRecord index token record
    match committed with
    | .error error => return (.error error, after)
    | .ok () => after.commitPrefillRecords index (token + 1) rest

/-- `select_prefill_batch`: every complete block while they all fit, and what the scan selects after that. -/
def prefillSelected (firstVisible queries : Nat) (input : Selected R) (query : Nat) : List UInt32 :=
  let complete := (firstVisible + query) / compressRatio
  if (firstVisible + queries - 1) / compressRatio ≤ maxSelectedBlocks then (List.range complete).map UInt32.ofNat
  else (input.ids query).take (min complete maxSelectedBlocks)

def lookupSlots (s : Session R) (layer : UInt32) : List UInt32 → Option (List (UInt32 × Option Nat) × Session R)
  | [] => some ([], s)
  | block :: rest => do
    let (cached, looked) ← s.lookup layer block
    let (slots, after) ← looked.lookupSlots layer rest
    return ((block, cached) :: slots, after)

/-- The first loop of `prefill_tile_attention` for one query, which sees `tokens` tokens. -/
def lookupQuery (s : Session R) (layer : UInt32) (tokens : Nat) (selected : List UInt32) :
    Option (Except Error TileRow × Session R) := do
  let (slots, looked) ← s.lookupSlots layer selected
  if tokens % compressRatio = 0 then return (.ok ⟨slots, none⟩, looked)
  else
    let block := UInt32.ofNat (tokens / compressRatio)
    let (cached, after) ← looked.lookup layer block
    match cached with
    | none => return (.error ⟨.mismatch, "QSA tile lost its causal tail"⟩, after)
    | some slot => return (.ok ⟨slots, some (block, slot)⟩, after)

def lookupQueries (s : Session R) (layer : UInt32) :
    List (Nat × List UInt32) → Option (Except Error (List TileRow) × Session R)
  | [] => some (.ok [], s)
  | (tokens, selected) :: rest => do
    let (row, looked) ← s.lookupQuery layer tokens selected
    match row with
    | .error error => return (.error error, looked)
    | .ok row =>
      let (rows, after) ← looked.lookupQueries layer rest
      return (rows.map (row :: ·), after)

def missingBlocks (rows : List TileRow) : List UInt32 :=
  let missing := rows.flatMap fun row =>
    row.slots.filterMap fun (block, slot) => if slot.isNone then some block else none
  (missing.insertionSort fun a b => a ≤ b).dedup

/-- Fetched pages go to the cache while it has a slot to give. A page that is there already is written
again. -/
def warmEach (s : Session R) (layer : UInt32) : List (UInt32 × Page R) → Option (Session R)
  | [] => some s
  | (block, page) :: rest => do
    let (slot, _, acquired) ← s.qsaCacheAcquire true layer block
    (if slot = uint32Max then acquired else acquired.writePage slot page).warmEach layer rest

def fetchBatches (s : Session R) (input : Selected R) (layer : UInt32) :
    List (List UInt32) → Option (Except Error (List (UInt32 × Page R)) × Session R)
  | [] => some (.ok [], s)
  | batch :: rest =>
    match s.fetch ⟨[], [], input.fetched⟩ layer batch with
    | .error error => some (.error error, s)
    | .ok pages => do
      let warmed ← s.warmEach layer (batch.zip pages)
      let (others, after) ← warmed.fetchBatches input layer rest
      return (others.map (batch.zip pages ++ ·), after)

/-- What a query's gather copies: the slots as they are before anything is fetched, and the fetched pages. -/
def gatherRow (s : Session R) (fetched : List (UInt32 × Page R)) (row : TileRow) : Gathered R where
  pages := row.slots.filterMap fun (block, slot) =>
    match slot with
    | some slot => some (block, s.cacheRecords slot)
    | none => (fetched.lookup block).map fun page => (block, page)
  tail := row.tail.map fun (block, slot) => (block, s.cacheRecords slot)

/-- `prefill_tile_attention`, for queries with the number of tokens they see and the blocks they selected. -/
def prefillTileAttention (s : Session R) (index : Nat) (queries : List (Nat × List UInt32)) (input : Selected R) :
    Option (Except Error (List (Gathered R)) × Session R) := do
  let layer := s.layerAt index
  let (rows, looked) ← s.lookupQueries layer queries
  match rows with
  | .error error => return (.error error, looked)
  | .ok rows =>
    let (fetched, after) ← looked.fetchBatches input layer (pieces maxSelectedBlocks (missingBlocks rows))
    return (fetched.map fun pages => rows.map (looked.gatherRow pages), after)

def attendTiles (s : Session R) (index : Nat) (input : Selected R) :
    List (List (Nat × List UInt32)) → Option (Except Error (List (Gathered R)) × Session R)
  | [] => some (.ok [], s)
  | tile :: rest => do
    let (gathered, attended) ← s.prefillTileAttention index tile input
    match gathered with
    | .error error => return (.error error, attended)
    | .ok gathered =>
      let (others, after) ← attended.attendTiles index input rest
      return (others.map (gathered ++ ·), after)

def attendPrefillTiles (s : Session R) (index firstToken : Nat) (records : List R) (input : Selected R) :
    Option (Except Error (List (Gathered R)) × Session R) := do
  let (committed, after) ← s.commitPrefillRecords index firstToken records
  match committed with
  | .error error => return (.error error, after)
  | .ok () =>
    let count := records.length
    let queries := (List.range count).map fun query =>
      (firstToken + 1 + query, prefillSelected (firstToken + 1) count input query)
    after.attendTiles index input (pieces prefillBatchQueries queries)

/-- A page that is not complete before or after goes from the cache to the file, and its pin is taken off. -/
def persistPartial (s : Session R) (index block committed : Nat) (lost : String) :
    Option (Except Error Unit × Session R) := do
  let layer := s.layerAt index
  let (cached, looked) ← s.lookup layer (UInt32.ofNat block)
  match cached with
  | none => return (.error ⟨.mismatch, lost⟩, looked)
  | some slot =>
    let (written, stored) := looked.writeBlock index block (looked.cacheRecords slot) committed
    let published ← stored.pagePublished layer (UInt32.ofNat block)
    return (written, published)

def stagePages (s : Session R) (layer : UInt32) : List Nat → Option (Except Error (List (Page R)) × Session R)
  | [] => some (.ok [], s)
  | block :: rest => do
    let (cached, looked) ← s.lookup layer (UInt32.ofNat block)
    match cached with
    | none => return (.error ⟨.mismatch, "QSA persist lost a complete cache page"⟩, looked)
    | some slot =>
      let (pages, after) ← looked.stagePages layer rest
      return (pages.map (looked.cacheRecords slot :: ·), after)

def publishEach (s : Session R) (layer : UInt32) : List Nat → Option (Session R)
  | [] => some s
  | block :: rest => do
    let published ← s.pagePublished layer (UInt32.ofNat block)
    published.publishEach layer rest

def persistComplete (s : Session R) (index block count : Nat) : Option (Except Error Unit × Session R) := do
  let layer := s.layerAt index
  if maxSelectedBlocks < count then
    return (.error ⟨.limit, "QSA persist batch exceeds staging capacity"⟩, s)
  else
    let (staged, looked) ← s.stagePages layer (List.range' block count)
    match staged with
    | .error error => return (.error error, looked)
    | .ok pages =>
      let (written, stored) := looked.writeBlocks index block pages
      let published ← stored.publishEach layer (List.range' block count)
      return (written, published)

def persistWhole (s : Session R) (index block complete : Nat) : Option (Except Error Unit × Session R) :=
  if block < complete then s.persistComplete index block (complete - block) else some (.ok (), s)

def persistAligned (s : Session R) (index block last : Nat) : Option (Except Error Unit × Session R) := do
  let complete := last / compressRatio
  let (written, stored) ← s.persistWhole index block complete
  match written with
  | .error error => return (.error error, stored)
  | .ok () =>
    if last % compressRatio = 0 then return (.ok (), stored)
    else
      stored.persistPartial index (max block complete) (last % compressRatio)
        "QSA persist lost the trailing cache page"

/-- `persist_prefill_state` from the frontier of the file on. -/
def persistRange (s : Session R) (index firstToken tokenCount : Nat) : Option (Except Error Unit × Session R) := do
  let last := firstToken + tokenCount
  let block := firstToken / compressRatio
  if firstToken % compressRatio = 0 then s.persistAligned index block last
  else
    let committed := min (last - block * compressRatio) compressRatio
    let (written, stored) ← s.persistPartial index block committed "QSA persist lost the leading cache page"
    match written with
    | .error error => return (.error error, stored)
    | .ok () =>
      if committed < compressRatio then return (.ok (), stored)
      else stored.persistAligned index (block + 1) last

def flushSteps (persisted firstToken : Nat) : List (Nat × Nat) :=
  let step := maxSelectedBlocks * compressRatio
  (List.range ((firstToken - persisted + step - 1) / step)).map fun i =>
    (persisted + i * step, min (firstToken - (persisted + i * step)) step)

def persistEach (s : Session R) (index : Nat) : List (Nat × Nat) → Option (Except Error Unit × Session R)
  | [] => some (.ok (), s)
  | (first, count) :: rest => do
    let (written, stored) ← s.persistRange index first count
    match written with
    | .error error => return (.error error, stored)
    | .ok () => stored.persistEach index rest

/-- `persist_prefill_state`. Its calls of itself flush what was decoded before the chunk: each starts at the
frontier the one before has left, so it goes on to its own range at once. -/
def persistPrefillState (s : Session R) (index firstToken tokenCount : Nat) : Option (Except Error Unit × Session R) :=
  match s.state with
  | none => some (.ok (), s)
  | some state =>
    let persisted := state.layerTokens index
    if firstToken < persisted then
      some (.error ⟨.mismatch, "QSA state frontier is ahead of the prefill range"⟩, s)
    else s.persistEach index (flushSteps persisted firstToken ++ [(firstToken, tokenCount)])

def markPositions (s : Session R) (token : Nat) : List Position → Except Error Unit × Session R
  | [] => (.ok (), s)
  | position :: rest =>
    match s.markPosition token position with
    | .error error => (.error error, s)
    | .ok marked => marked.markPositions (token + 1) rest

/-- `fg_qsa_session_prefill`, for the positions of the tokens and the records their projections leave. -/
def prefill (s : Session R) (layer : UInt32) (firstToken : Nat) (tokens : List (Position × R))
    (input : Selected R) : Option (Except Error (List (Gathered R)) × Session R) :=
  let count := tokens.length
  match s.layerSlot layer with
  | none => some (.error ⟨.argument, "invalid QSA prefill arguments"⟩, s)
  | some index =>
    if count = 0 ∨ s.maxTokens < count ∨ s.maxContext < count ∨ s.maxContext - count < firstToken then
      some (.error ⟨.argument, "invalid QSA prefill arguments"⟩, s)
    else if firstToken ≠ s.committed index then
      some (.error ⟨.mismatch, "QSA prefill range does not start at committed state"⟩, s)
    else
      match s.ensureIndexSegmentsForRange index firstToken count with
      | .error error => some (.error error, s)
      | .ok ensured =>
        match ensured.markPositions firstToken (tokens.map Prod.fst) with
        | (.error error, marked) => some (.error error, marked)
        | (.ok (), marked) => do
          let (gathered, attended) ← marked.attendPrefillTiles index firstToken (tokens.map Prod.snd) input
          match gathered with
          | .error error => return (.error error, attended)
          | .ok gathered =>
            let (written, stored) ← attended.persistPrefillState index firstToken count
            match written with
            | .error error => return (.error error, stored)
            | .ok () =>
              return (.ok gathered, { stored with
                committed := Function.update stored.committed index (firstToken + count) })

/-! ## Pages that leave and come in -/

/-- `fg_qsa_session_page_records`. -/
def pageRecords (s : Session R) (layer block : UInt32) : Option (Except Error (Page R) × Session R) :=
  match s.layerSlot layer with
  | none => some (.error ⟨.argument, "invalid QSA complete-page lookup"⟩, s)
  | some index =>
    if s.committed index < block.toNat * compressRatio + compressRatio then
      some (.error ⟨.mismatch, "QSA page is incomplete"⟩, s)
    else do
      let (cached, looked) ← s.lookup layer block
      match cached with
      | none => return (.error ⟨.mismatch, "QSA page is not resident in the record cache"⟩, looked)
      | some slot => return (.ok (looked.cacheRecords slot), looked)

/-- `fg_qsa_session_warm_pages`. -/
def warmPages (s : Session R) (layer : UInt32) (pages : List (UInt32 × Page R)) :
    Option (Except Error Unit × Session R) :=
  if (s.layerSlot layer).isNone ∨ pages = [] then
    some (.error ⟨.argument, "invalid QSA mirror warm request"⟩, s)
  else (s.warmEach layer pages).map fun after => (.ok (), after)

end Session

end FlashGordon.QsaSession
