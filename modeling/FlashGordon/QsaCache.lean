import FlashGordon.Links
import FlashGordon.PinnedLru
import FlashGordon.Status

/-! The page cache of a QSA session (`qsa_cache.c`): hash chains and a list in order of use over a fixed
array of slots. Links of a hash chain are slot numbers plus one, zero ending the chain; in the list of use
`UINT32_MAX` stands for no slot. A loop of the source runs with a bound here, and `none` says that it has
not ended within it. The calls of the eviction hook are recorded. -/

namespace FlashGordon.QsaCache

open Links

def uint32Max : Nat := 2 ^ 32 - 1

structure HashLinks where
  buckets : Nat → Nat
  next : Nat → Nat

structure Cache where
  pages : Nat
  hashCapacity : Nat
  used : Nat
  blocks : Nat → UInt32
  layers : Nat → UInt8
  valid : Nat → Bool
  pinned : Nat → Bool
  hash : HashLinks
  lru : Deque
  evictHook : Bool
  evictCalls : List (UInt8 × UInt32)

def cacheBucket (hashCapacity : Nat) (layer block : UInt32) : Nat :=
  let value : UInt64 := (layer.toUInt64 <<< 32) ||| block.toUInt64
  let value := value ^^^ (value >>> 33)
  let value := value * 0xff51afd7ed558ccd
  let value := value ^^^ (value >>> 33)
  value.toUInt32.toNat &&& (hashCapacity - 1)

def Cache.bucket (cache : Cache) (layer block : UInt32) : Nat := cacheBucket cache.hashCapacity layer block

def Cache.holds (cache : Cache) (layer block : UInt32) (slot : Nat) : Bool :=
  cache.valid slot && (cache.layers slot).toUInt32 == layer && cache.blocks slot == block

def findLink (cache : Cache) (layer block : UInt32) : Nat → Nat → Option Nat
  | 0, _ => none
  | _ + 1, 0 => some uint32Max
  | fuel + 1, slot + 1 =>
    if cache.holds layer block slot then some slot
    else findLink cache layer block fuel (cache.hash.next slot)

def cacheFind (cache : Cache) (layer block : UInt32) : Option Nat :=
  if cache.pages = 0 then some uint32Max
  else findLink cache layer block (cache.pages + 1) (cache.hash.buckets (cache.bucket layer block))

def cacheLruFront (lru : Deque) (slot : Nat) : Deque :=
  let previous := lru.prev slot
  let next := lru.next slot
  let lru :=
    if previous ≠ uint32Max then { lru with next := Function.update lru.next previous next }
    else if lru.head = slot then { lru with head := next }
    else lru
  let lru :=
    if next ≠ uint32Max then { lru with prev := Function.update lru.prev next previous }
    else if lru.tail = slot then { lru with tail := previous }
    else lru
  let lru :=
    { lru with
      prev := Function.update lru.prev slot uint32Max
      next := Function.update lru.next slot lru.head }
  let lru :=
    if lru.head ≠ uint32Max then { lru with prev := Function.update lru.prev lru.head slot }
    else { lru with tail := slot }
  { lru with head := slot }

/-- The place a link is stored in, which `cache_remove_hash` points at while it walks. -/
inductive LinkRef where
  | bucket (bucket : Nat)
  | next (slot : Nat)

def HashLinks.read (hash : HashLinks) : LinkRef → Nat
  | .bucket bucket => hash.buckets bucket
  | .next slot => hash.next slot

def HashLinks.write (hash : HashLinks) (ref : LinkRef) (link : Nat) : HashLinks :=
  match ref with
  | .bucket bucket => { hash with buckets := Function.update hash.buckets bucket link }
  | .next slot => { hash with next := Function.update hash.next slot link }

def removeLink (slot : Nat) : Nat → HashLinks → LinkRef → Option HashLinks
  | 0, _, _ => none
  | fuel + 1, hash, ref =>
    match hash.read ref with
    | 0 => some hash
    | candidate + 1 =>
      if candidate = slot then some (hash.write ref (hash.next slot))
      else removeLink slot fuel hash (.next candidate)

def cacheRemoveHash (cache : Cache) (slot : Nat) : Option HashLinks :=
  removeLink slot (cache.pages + 1) cache.hash
    (.bucket (cache.bucket (cache.layers slot).toUInt32 (cache.blocks slot)))

def growCapacity (wanted : Nat) : Nat → Nat → Nat
  | 0, capacity => capacity
  | fuel + 1, capacity => if capacity < wanted then growCapacity wanted fuel (2 * capacity) else capacity

/-- `fg_qsa_page_cache_create` once its allocations are there; the two arrays of the list of use come
uninitialised. -/
def create (pages : Nat) (evictHook : Bool) (lruPrev lruNext : Nat → Nat) : Except Error Cache :=
  if pages = 0 ∨ 2 ^ 30 < pages then
    .error ⟨if 2 ^ 30 < pages then .limit else .argument, "invalid QSA page cache capacity"⟩
  else
    .ok
      { pages := pages
        hashCapacity := growCapacity (2 * pages) 32 1
        used := 0
        blocks := fun _ => 0
        layers := fun _ => 0
        valid := fun _ => false
        pinned := fun _ => false
        hash := ⟨fun _ => 0, fun _ => 0⟩
        lru := ⟨lruPrev, lruNext, uint32Max, uint32Max⟩
        evictHook := evictHook
        evictCalls := [] }

/-- `fg_qsa_page_cache_reset`. -/
def reset (cache : Cache) : Cache :=
  { cache with
    valid := fun slot => if slot < cache.pages then false else cache.valid slot
    pinned := fun slot => if slot < cache.pages then false else cache.pinned slot
    hash := { cache.hash with
      buckets := fun bucket => if bucket < cache.hashCapacity then 0 else cache.hash.buckets bucket }
    used := 0
    lru := { cache.lru with head := uint32Max, tail := uint32Max } }

/-- `fg_qsa_page_cache_lookup`. -/
def lookup (cache : Cache) (layer block : UInt32) : Option (Option Nat × Cache) :=
  (cacheFind cache layer block).map fun found =>
    if found = uint32Max then (none, cache)
    else (some found, { cache with lru := cacheLruFront cache.lru found })

/-- `fg_qsa_page_cache_touch`. -/
def touch (cache : Cache) (slot : Nat) : Cache :=
  if cache.pages ≤ slot ∨ !cache.valid slot then cache
  else { cache with lru := cacheLruFront cache.lru slot }

/-- The walk from the tail over the pinned slots. -/
def victimFrom (cache : Cache) : Nat → Nat → Option Nat
  | 0, _ => none
  | fuel + 1, found =>
    if found ≠ uint32Max ∧ cache.pinned found then victimFrom cache fuel (cache.lru.prev found)
    else some found

/-- The hook is told which page leaves, the slot leaves its hash chain and loses its pin. -/
def evict (cache : Cache) (slot : Nat) : Option Cache :=
  (cacheRemoveHash cache slot).map fun hash =>
    { cache with
      evictCalls :=
        if cache.evictHook then cache.evictCalls ++ [(cache.layers slot, cache.blocks slot)]
        else cache.evictCalls
      hash := hash
      pinned := Function.update cache.pinned slot false }

/-- The slot takes a page, is hung in front of the page's chain and becomes the latest used. -/
def occupy (cache : Cache) (slot : Nat) (layer block : UInt32) : Cache :=
  let bucket := cache.bucket layer block
  { cache with
    valid := Function.update cache.valid slot true
    layers := Function.update cache.layers slot layer.toUInt8
    blocks := Function.update cache.blocks slot block
    hash :=
      { buckets := Function.update cache.hash.buckets bucket (slot + 1)
        next := Function.update cache.hash.next slot (cache.hash.buckets bucket) }
    lru := cacheLruFront cache.lru slot }

/-- `cache_acquire`: the slot, whether it was a hit, and the cache. -/
def cacheAcquire (soft : Bool) (cache : Cache) (layer block : UInt32) : Option (Nat × Bool × Cache) := do
  let found ← cacheFind cache layer block
  if found ≠ uint32Max then
    return (found, true, { cache with lru := cacheLruFront cache.lru found })
  else if cache.used < cache.pages then
    let fresh : Cache :=
      { cache with
        used := cache.used + 1
        lru := { cache.lru with
          prev := Function.update cache.lru.prev cache.used uint32Max
          next := Function.update cache.lru.next cache.used uint32Max } }
    return (cache.used, false, occupy fresh cache.used layer block)
  else
    let unpinned ← victimFrom cache (cache.pages + 1) cache.lru.tail
    if unpinned = uint32Max ∧ soft then
      return (uint32Max, false, cache)
    else
      let slot := if unpinned = uint32Max then cache.lru.tail else unpinned
      let evicted ← evict cache slot
      return (slot, false, occupy evicted slot layer block)

/-- `fg_qsa_page_cache_pin`. -/
def pin (cache : Cache) (layer block : UInt32) : Option (Except Error Unit × Cache) :=
  (cacheFind cache layer block).map fun slot =>
    if slot = uint32Max then (.error ⟨.mismatch, "cannot pin a missing QSA cache page"⟩, cache)
    else (.ok (), { cache with pinned := Function.update cache.pinned slot true })

/-- `fg_qsa_page_cache_unpin`. -/
def unpin (cache : Cache) (layer block : UInt32) : Option Cache :=
  (cacheFind cache layer block).map fun slot =>
    if slot ≠ uint32Max then { cache with pinned := Function.update cache.pinned slot false } else cache

/-- A page is named by its layer and its block. -/
abbrev Key : Type := UInt32 × UInt32

def slotReply (slot : Nat) : Option Nat := if slot = uint32Max then none else some slot

def call (cache : Cache) : PinnedLru.Op Key → Option (PinnedLru.Reply × Cache)
  | .lookup key => (lookup cache key.1 key.2).map fun answer => (.frame answer.1, answer.2)
  | .acquire soft key =>
    (cacheAcquire soft cache key.1 key.2).map fun answer =>
      (.acquired (slotReply answer.1) answer.2.1, answer.2.2)
  | .touch slot => some (.silent, touch cache slot)
  | .pin key => (pin cache key.1 key.2).map fun answer => (.pinned answer.1.isOk, answer.2)
  | .unpin key => (unpin cache key.1 key.2).map fun after => (.silent, after)
  | .reset => some (.silent, reset cache)

def calls (cache : Cache) : List (PinnedLru.Op Key) → Option (List PinnedLru.Reply × Cache)
  | [] => some ([], cache)
  | op :: rest =>
    (call cache op).bind fun answer =>
      (calls answer.2 rest).map fun after => (answer.1 :: after.1, after.2)

end FlashGordon.QsaCache
