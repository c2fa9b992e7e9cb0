import FlashGordon.QsaSession

/-! One decode step of a QSA session: the token's record is committed to its page, the blocks it attends to
are selected and their slots are found, on the host by lookups and fetches or on the device through the slot
table, and a gather is recorded that the device runs later. -/

namespace FlashGordon.QsaSession

open QsaCache (Cache uint32Max)

variable {R : Type}

/-- What the device and the other ranks hand to a decode step: the blocks its score scan selects, the
read-ahead pages that have arrived, and the answer to a fetch of cold pages. -/
structure Attention (R : Type) where
  ids : List UInt32
  reaped : List (UInt32 × Page R)
  fetched : UInt32 → List UInt32 → Except Error (List (Page R))

/-- The slots of the selected blocks: as the device resolves them when the gather runs, or as the host
wrote them. -/
inductive Source where
  | resolved
  | written (slots : List Nat)

/-- A recorded gather: the selected blocks of a layer and the records of its last, partial block. -/
structure Gather where
  index : Nat
  selected : List UInt32
  source : Source
  tail : Nat
  tailBlock : UInt32
  tailSlot : Nat

/-- The shader `fg_qsa_select_resolve`. -/
def selectResolve (table : Nat → Nat) (blockLimit layerBase : Nat) (ids : List UInt32) : List Nat :=
  ids.map fun block => if block.toNat < blockLimit then table (layerBase + block.toNat) else uint32Max

/-- How `select_blocks_resolve` ends: the slots stay on the device, or they were read back, or some block
has no slot and the host must look. -/
inductive Selection where
  | device
  | readBack
  | fallback
  deriving DecidableEq

namespace Session

/-- The slots that the table has for these blocks of a layer now. -/
def resolve (s : Session R) (index : Nat) (ids : List UInt32) : List Nat :=
  selectResolve s.slotTable s.maxBlocks (index * s.maxBlocks) ids

/-- The slots a recorded gather reads if it runs now. -/
def gatherSlots (s : Session R) (gather : Gather) : List Nat :=
  match gather.source with
  | .resolved => s.resolve gather.index gather.selected
  | .written slots => slots

def touchEach (s : Session R) : List Nat → Except Error Unit × Session R
  | [] => (.ok (), s)
  | slot :: rest =>
    if s.cachePages ≤ slot then (.error ⟨.mismatch, "resolved QSA slot is out of range"⟩, s)
    else (s.touch slot).touchEach rest

/-- `select_blocks_resolve` once the scan has selected its blocks. -/
def selectBlocksResolve (s : Session R) (index tokens : Nat) (ids : List UInt32) (groupActive : Bool) :
    Except Error Selection × Session R :=
  if groupActive ∧ !s.locality ∧ s.layerCount * s.maxBlocks ≤ s.cachePages ∧
      (tokens + compressRatio - 1) / compressRatio ≤ s.cachedPrefix index then
    (.ok .device, s)
  else
    let slots := s.resolve index ids
    if uint32Max ∈ slots then (.ok .fallback, s)
    else
      match s.touchEach slots with
      | (.ok (), touched) => (.ok .readBack, touched)
      | (.error error, touched) => (.error error, touched)

/-- `qsa_prefetch_reap`: pages that have arrived go to the cache while it has a slot to give. -/
def prefetchReap (s : Session R) (layer : UInt32) : List (UInt32 × Page R) → Option (Session R)
  | [] => some s
  | (block, page) :: rest => do
    let (cached, looked) ← s.lookup layer block
    if cached.isSome then looked.prefetchReap layer rest
    else
      let (slot, _, acquired) ← looked.qsaCacheAcquire true layer block
      if slot = uint32Max then return acquired
      else (acquired.writePage slot page).prefetchReap layer rest

/-- Which of the selected blocks have no slot. -/
def lookupEach (s : Session R) (layer : UInt32) : List UInt32 → Option (List UInt32 × Session R)
  | [] => some ([], s)
  | block :: rest => do
    let (cached, looked) ← s.lookup layer block
    let (missing, after) ← looked.lookupEach layer rest
    return (if cached.isSome then missing else block :: missing, after)

/-- `fg_qsa_page_cache_plan_fetch` for a fetch list with room for `capacity` blocks: the missing blocks, and
after each of them the next one if it is complete, not retained and not cached. -/
def planFetch (cache : Cache) (layer : UInt32) (completeBlocks retainedFirst capacity : Nat) :
    List UInt32 → List UInt32 → Option (List UInt32)
  | [], fetch => some fetch
  | block :: rest, fetch =>
    if capacity ≤ fetch.length then some fetch
    else
      let candidate := block + 1
      if completeBlocks ≤ candidate.toNat ∨ retainedFirst ≤ candidate.toNat * compressRatio then
        planFetch cache layer completeBlocks retainedFirst capacity rest fetch
      else
        match QsaCache.cacheFind cache layer candidate with
        | none => none
        | some slot =>
          planFetch cache layer completeBlocks retainedFirst capacity rest
            (if slot ≠ uint32Max ∨ candidate ∈ fetch then fetch else fetch ++ [candidate])

/-- `fg_qsa_state_read_blocks` as `state_fetch_pages` uses it; the values a corrupt page's header shows are
left out of its text. -/
def stateFetchPages (s : Session R) (layer : UInt32) (blocks : List UInt32) : Except Error (List (Page R)) :=
  match s.layerSlot layer, s.state with
  | some index, some state =>
    if blocks = [] ∨ maxSelectedBlocks < blocks.length then
      .error ⟨.argument, "invalid QSA state read batch"⟩
    else
      match blocks.find? fun block => s.maxBlocks ≤ block.toNat with
      | some block => .error ⟨.argument, s!"QSA state block {block.toNat} is out of range"⟩
      | none =>
        let pages := blocks.map fun block => state.pages index block.toNat
        if pages.any Option.isNone then
          .error ⟨.mismatch, "stale, torn, or corrupt QSA state page"⟩
        else if pages.reduceOption.any fun page => page.committed ≠ compressRatio then
          .error ⟨.mismatch, "QSA state fetch returned an incomplete page"⟩
        else .ok (pages.reduceOption.map StatePage.records)
  | _, _ => .error ⟨.mismatch, "QSA state fetch is not on a state-backed session"⟩

/-- `s->fetch_pages`. -/
def fetch (s : Session R) (input : Attention R) (layer : UInt32) (blocks : List UInt32) :
    Except Error (List (Page R)) :=
  match s.fetchPages with
  | .none => .error ⟨.unavailable, "QSA cold page miss has no owner fetch service"⟩
  | .remote => input.fetched layer blocks
  | .state => s.stateFetchPages layer blocks

/-- Fetched pages go to slots that the cache must give. -/
def insertEach (s : Session R) (layer : UInt32) : List (UInt32 × Page R) → Option (Session R)
  | [] => some s
  | (block, page) :: rest => do
    let (slot, _, acquired) ← s.qsaCacheAcquire false layer block
    (acquired.writePage slot page).insertEach layer rest

/-- The slots of the selected blocks once the missing ones have been fetched. -/
def lookupStoreEach (s : Session R) (layer : UInt32) :
    List UInt32 → Option (Except Error (List Nat) × Session R)
  | [] => some (.ok [], s)
  | block :: rest => do
    let (cached, looked) ← s.lookupStore layer block
    match cached with
    | none => return (.error ⟨.mismatch, "selected QSA page was not cached"⟩, looked)
    | some slot =>
      let (slots, after) ← looked.lookupStoreEach layer rest
      return (slots.map (slot :: ·), after)

/-- The partial block is looked up and the gather is recorded. -/
def attendTail (s : Session R) (index tokens : Nat) (selected : List UInt32) (source : Source) :
    Option (Except Error Gather × Session R) :=
  let tail := tokens % compressRatio
  let block := UInt32.ofNat (tokens / compressRatio)
  if tail = 0 then some (.ok ⟨index, selected, source, 0, block, 0⟩, s)
  else do
    let (cached, looked) ← s.lookup (s.layerAt index) block
    match cached with
    | none => return (.error ⟨.mismatch, "partial QSA page was not cached"⟩, looked)
    | some slot => return (.ok ⟨index, selected, source, tail, block, slot⟩, looked)

def attendSlots (s : Session R) (index tokens : Nat) (selected : List UInt32) :
    Option (Except Error Gather × Session R) := do
  let (slots, stored) ← s.lookupStoreEach (s.layerAt index) selected
  match slots with
  | .error error => return (.error error, stored)
  | .ok slots => stored.attendTail index tokens selected (.written slots)

def attendHost (s : Session R) (index tokens : Nat) (selected : List UInt32) (input : Attention R) :
    Option (Except Error Gather × Session R) := do
  let layer := s.layerAt index
  let (missing, looked) ← s.lookupEach layer selected
  if missing = [] then looked.attendSlots index tokens selected
  else
    let fetch ← planFetch looked.cache layer (tokens / compressRatio) (2 ^ 32 - 1) maxSelectedBlocks missing missing
    match looked.fetch input layer fetch with
    | .error error => return (.error error, looked)
    | .ok pages =>
      let inserted ← looked.insertEach layer (fetch.zip pages)
      inserted.attendSlots index tokens selected

/-- `attend_cache`, up to the gather it records. -/
def attendCache (s : Session R) (index tokens : Nat) (input : Attention R) (groupActive : Bool) :
    Option (Except Error Gather × Session R) := do
  let completeBlocks := tokens / compressRatio
  let reaped ← s.prefetchReap (s.layerAt index) (if s.state.isSome then input.reaped else [])
  if completeBlocks ≤ maxSelectedBlocks then
    reaped.attendHost index tokens ((List.range completeBlocks).map UInt32.ofNat) input
  else if s.locality then reaped.attendHost index tokens input.ids input
  else
    match reaped.selectBlocksResolve index tokens input.ids groupActive with
    | (.error error, touched) => return (.error error, touched)
    | (.ok .fallback, touched) => touched.attendHost index tokens input.ids input
    | (.ok _, touched) => touched.attendTail index tokens input.ids .resolved

/-- `ensure_index_segment`, whose allocation succeeds. -/
def ensureIndexSegment (s : Session R) (index segment : Nat) : Except Error (Session R) :=
  if s.layerCount ≤ index ∨ indexSegmentCount s.maxContext ≤ segment then
    .error ⟨.argument, "invalid QSA index segment request"⟩
  else
    .ok { s with
      indexKeys := Function.update s.indexKeys index (Function.update (s.indexKeys index) segment true) }

/-- `ensure_index_segments_for_range`: every segment up to the last token's. -/
def ensureIndexSegments (s : Session R) (index : Nat) : List Nat → Except Error (Session R)
  | [] => .ok s
  | segment :: rest =>
    match s.ensureIndexSegment index segment with
    | .error error => .error error
    | .ok ensured => ensured.ensureIndexSegments index rest

def ensureIndexSegmentsForRange (s : Session R) (index firstToken tokenCount : Nat) : Except Error (Session R) :=
  s.ensureIndexSegments index (List.range ((firstToken + tokenCount - 1) / indexSegmentTokenCapacity + 1))

def commitRecord (s : Session R) (slot token : Nat) (record : R) : Session R :=
  s.writePage slot (Function.update (s.cacheRecords slot) (token % compressRatio) record)

def commitAndAttendCache (s : Session R) (index token : Nat) (record : R) (input : Attention R)
    (groupActive : Bool) : Option (Except Error Gather × Session R) :=
  if token ≠ s.committed index ∨ s.maxContext ≤ token then
    some (.error ⟨.mismatch, "QSA cache token position does not match committed state"⟩, s)
  else
    match indexTokenLocation s.maxContext token with
    | none => some (.error ⟨.limit, "QSA hot token has no index segment"⟩, s)
    | some (segment, _) =>
      match s.ensureIndexSegment index segment with
      | .error error => some (.error error, s)
      | .ok ensured => do
        let layer := s.layerAt index
        let block := UInt32.ofNat (token / compressRatio)
        let (slot, _, acquired) ← ensured.qsaCacheAcquire false layer block
        let (pinned, held) ← acquired.pin layer block
        match pinned with
        | .error error => return (.error error, held)
        | .ok () =>
          let written := held.commitRecord slot token record
          let committed := { written with committed := Function.update written.committed index (token + 1) }
          committed.attendCache index (token + 1) input groupActive

def markPosition (s : Session R) (token : Nat) (position : Position) : Except Error (Session R) :=
  match s.positions token with
  | none => .ok { s with positions := Function.update s.positions token (some position) }
  | some resident =>
    if resident = position then .ok s
    else .error ⟨.mismatch, "QSA layers received inconsistent MRoPE positions"⟩

/-- `fg_qsa_session_decode`, with the record its projections leave and without the tensor it returns. -/
def decode (s : Session R) (layer : UInt32) (token : Nat) (position : Position) (record : R)
    (input : Attention R) (groupActive : Bool) : Option (Except Error Gather × Session R) :=
  match s.layerSlot layer with
  | none => some (.error ⟨.argument, "invalid QSA decode arguments"⟩, s)
  | some index =>
    if token ≠ s.committed index ∨ s.maxContext ≤ token then
      some (.error ⟨.mismatch, "QSA token position does not match committed state"⟩, s)
    else
      match s.ensureIndexSegmentsForRange index token 1 with
      | .error error => some (.error error, s)
      | .ok ensured =>
        match ensured.markPosition token position with
        | .error error => some (.error error, ensured)
        | .ok marked => marked.commitAndAttendCache index token record input groupActive

/-- `fg_qsa_session_submit_group_ready`. -/
def submitGroupReady (s : Session R) (firstLayer lastLayer token : Nat) : Bool :=
  if lastLayer < firstLayer ∨ FlashGordon.layerCount ≤ lastLayer ∨ s.locality ∨ s.maxContext ≤ token ∨
      s.cachePages < s.layerCount * s.maxBlocks then false
  else
    (List.range' firstLayer (lastLayer + 1 - firstLayer)).all fun layer =>
      layer % 4 ≠ 3 ||
        match s.layerSlot (UInt32.ofNat layer), indexTokenLocation s.maxContext token with
        | some index, some (segment, _) =>
          s.committed index = token &&
            decide ((token + compressRatio - 1) / compressRatio ≤ s.cachedPrefix index) &&
            s.indexKeys index segment
        | _, _ => false

end Session

end FlashGordon.QsaSession
