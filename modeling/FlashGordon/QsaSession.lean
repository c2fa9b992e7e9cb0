import FlashGordon.QsaCache

/-! A QSA session (`qsa.c`): the layers it executes, their committed tokens, the page cache with the records
of its slots, and the two structures derived from the cache for the device: the slot table, one entry for
each layer and block, and for each layer the number of leading blocks that are cached. Records are values of
a type `R`, a page is four of them. What a host function reads back from the device (the ids a score scan
selects, the records a projection leaves) is an argument. -/

namespace FlashGordon.QsaSession

open QsaCache (Cache uint32Max cacheAcquire)

/-- `FG_Q38_QSA_COMPRESS_RATIO`: the tokens of a block. -/
def compressRatio : Nat := 4

/-- `FG_QSA_MAX_SELECTED_BLOCKS`. -/
def maxSelectedBlocks : Nat := 512

/-- `FG_QSA_INDEX_SEGMENT_TOKEN_CAPACITY`. -/
def indexSegmentTokenCapacity : Nat := 131072

/-- `FG_QSA_INDEX_MAX_SEGMENTS`. -/
def indexMaxSegments : Nat := 2

/-- `FG_QSA_MAX_LAYERS`. -/
def maxLayers : Nat := 12

/-- `FG_QSA_OWNER_LAYERS`. -/
def ownerLayers : Nat := 6

/-- The four records of a block as a slot of the cache has them. -/
abbrev Page (R : Type) : Type := Nat → R

/-- The three axes of a token's position. -/
abbrev Position : Type := UInt32 × UInt32 × UInt32

structure StatePage (R : Type) where
  committed : Nat
  records : Page R

/-- The state file and the frontier its handle keeps for each layer (`fg_qsa_state`). -/
structure State (R : Type) where
  layerTokens : Nat → Nat
  pages : Nat → Nat → Option (StatePage R)

/-- Where cold pages come from: nowhere, a service of another rank, or the session's own state file. -/
inductive FetchPages where
  | none
  | remote
  | state
  deriving DecidableEq

structure Session (R : Type) where
  layers : List UInt8
  maxContext : Nat
  maxTokens : Nat
  cachePages : Nat
  locality : Bool
  committed : Nat → Nat
  positions : Nat → Option Position
  indexKeys : Nat → Nat → Bool
  cache : Cache
  cacheRecords : Nat → Page R
  slotTable : Nat → Nat
  cachedPrefix : Nat → Nat
  state : Option (State R)
  fetchPages : FetchPages

variable {R : Type}

namespace Session

def maxBlocks (s : Session R) : Nat := (s.maxContext + 3) / 4

def layerCount (s : Session R) : Nat := s.layers.length

/-- The first place of the layer among the session's layers; the source answers -1 where there is none. -/
def layerSlot (s : Session R) (layer : UInt32) : Option Nat :=
  s.layers.findIdx? fun own => own.toUInt32 = layer

/-- `s->layers[slot]`. -/
def layerAt (s : Session R) (index : Nat) : UInt32 := (s.layers.getD index 0).toUInt32

def qsaSlotStore (s : Session R) (layer block : UInt32) (slot : Nat) : Session R :=
  match s.layerSlot layer with
  | none => s
  | some index =>
    if s.maxBlocks ≤ block.toNat then s
    else
      let stored := Function.update s.slotTable (index * s.maxBlocks + block.toNat) slot
      if slot = uint32Max then
        { s with
          slotTable := stored
          cachedPrefix :=
            if block.toNat < s.cachedPrefix index then Function.update s.cachedPrefix index block.toNat
            else s.cachedPrefix }
      else
        { s with
          slotTable := stored
          cachedPrefix :=
            if block.toNat = s.cachedPrefix index then
              Function.update s.cachedPrefix index (s.cachedPrefix index + 1)
            else s.cachedPrefix }

/-- `qsa_slot_evict`, the hook of the session's cache. -/
def qsaSlotEvict (s : Session R) (page : UInt8 × UInt32) : Session R :=
  s.qsaSlotStore page.1.toUInt32 page.2 uint32Max

/-- The pages the hook was told of between two states of the cache. -/
def told (before after : Cache) : List (UInt8 × UInt32) := after.evictCalls.drop before.evictCalls.length

/-- The cache has changed, and its hook has run for the pages that left. The hook only writes the table and
the prefix, which the cache does not read. -/
def withCache (s : Session R) (cache : Cache) : Session R :=
  (told s.cache cache).foldl qsaSlotEvict { s with cache := cache }

/-- `qsa_cache_acquire` and `qsa_cache_acquire_soft`: the slot, whether it was a hit, and the session. -/
def qsaCacheAcquire (soft : Bool) (s : Session R) (layer block : UInt32) : Option (Nat × Bool × Session R) := do
  let (slot, hit, cache) ← cacheAcquire soft s.cache layer block
  let acquired := s.withCache cache
  return (slot, hit, if soft ∧ slot = uint32Max then acquired else acquired.qsaSlotStore layer block slot)

/-- `qsa_cache_reset`; the table is filled with `0xff`. -/
def qsaCacheReset (s : Session R) : Session R :=
  { s with
    cache := QsaCache.reset s.cache
    cachedPrefix := fun _ => 0
    slotTable := fun _ => uint32Max }

def lookup (s : Session R) (layer block : UInt32) : Option (Option Nat × Session R) :=
  (QsaCache.lookup s.cache layer block).map fun answer => (answer.1, { s with cache := answer.2 })

def touch (s : Session R) (slot : Nat) : Session R := { s with cache := QsaCache.touch s.cache slot }

def pin (s : Session R) (layer block : UInt32) : Option (Except Error Unit × Session R) :=
  (QsaCache.pin s.cache layer block).map fun answer => (answer.1, { s with cache := answer.2 })

/-- `fg_qsa_session_page_published`. -/
def pagePublished (s : Session R) (layer block : UInt32) : Option (Session R) :=
  (QsaCache.unpin s.cache layer block).map fun cache => { s with cache := cache }

def writePage (s : Session R) (slot : Nat) (page : Page R) : Session R :=
  { s with cacheRecords := Function.update s.cacheRecords slot page }

/-- A lookup, and where it finds a slot the table is told of it, as the last loop of the host selection
does. -/
def lookupStore (s : Session R) (layer block : UInt32) : Option (Option Nat × Session R) :=
  (s.lookup layer block).map fun answer =>
    match answer.1 with
    | none => (none, answer.2)
    | some slot => (some slot, answer.2.qsaSlotStore layer block slot)

end Session

/-- `fg_qsa_index_segment_count`. -/
def indexSegmentCount (logicalContext : Nat) : Nat :=
  logicalContext / indexSegmentTokenCapacity +
    if logicalContext % indexSegmentTokenCapacity ≠ 0 then 1 else 0

/-- `fg_qsa_index_token_location`: the segment of a token and its place there. -/
def indexTokenLocation (logicalContext token : Nat) : Option (Nat × Nat) :=
  if logicalContext = 0 ∨ logicalContext ≤ token ∨ indexMaxSegments < indexSegmentCount logicalContext then none
  else
    let segment := token / indexSegmentTokenCapacity
    if segment < indexMaxSegments then some (segment, token % indexSegmentTokenCapacity) else none

/-- The QSA layers are every fourth one; a rank executes those it owns, and the coordinator's full mirror has
them all. -/
def ownedLayers (rank : Nat) (ownedOnly : Bool) (layerOwner : Nat → Nat) : List UInt8 :=
  (((List.range maxLayers).map fun i => 4 * i + 3).filter fun layer =>
    (rank = 0 ∧ !ownedOnly) ∨ layerOwner layer = rank).map UInt8.ofNat

/-- `open_decode_config` once its allocations are there. The cache's list of use comes uninitialised, as do
its records. -/
def openDecodeConfig (rank : Nat) (ownedOnly : Bool) (layerOwner : Nat → Nat)
    (logicalContext cachePages batchSize : Nat) (locality remote : Bool) (state : Option (State R))
    (records : Nat → Page R) (lruPrev lruNext : Nat → Nat) : Except Error (Session R) :=
  let layers := ownedLayers rank ownedOnly layerOwner
  let count := layers.length
  let expected := if rank = 0 then maxLayers else ownerLayers
  if logicalContext = 0 ∨ cachePages = 0 ∨ batchSize = 0 then
    .error ⟨.argument, "invalid decode QSA session arguments"⟩
  else if indexMaxSegments < indexSegmentCount logicalContext then
    .error ⟨.limit, "QSA logical context exceeds segmented index capacity"⟩
  else if 2 ^ 30 < cachePages then
    .error ⟨.limit, "QSA page cache exceeds hash address space"⟩
  else if state.isNone ∧ rank ≠ 0 then
    .error ⟨.argument, "only the coordinator may open a fileless QSA mirror"⟩
  else if count = 0 ∨ expected < count then
    .error ⟨.mismatch, s!"rank {rank} has {count} QSA layers, expected {expected}"⟩
  else do
    let cache ← QsaCache.create cachePages true lruPrev lruNext
    return {
      layers := layers
      maxContext := logicalContext
      maxTokens := batchSize
      cachePages := cachePages
      locality := locality
      committed := fun _ => 0
      positions := fun _ => none
      indexKeys := fun index segment => decide (index < count ∧ segment = 0)
      cache := cache
      cacheRecords := records
      slotTable := fun _ => uint32Max
      cachedPrefix := fun _ => 0
      state := state
      fetchPages := if remote then .remote else if state.isSome then .state else .none }

end FlashGordon.QsaSession
