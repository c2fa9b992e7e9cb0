import FlashGordon.ByteBlock
import FlashGordon.Status
import Mathlib.Data.List.Sort

/-! The n-gram table of `ngram.c`: rows of 90 bytes anywhere in a file, read through a cache of blocks of 4 KiB in
sets of four. A lookup first reads the blocks it misses, in pairs where two are adjacent, and then packs the rows from
the cache; what the loads themselves have evicted is read again. -/

namespace FlashGordon.Ngram

open List

/-- `FG_NGRAM_BLOCK_BYTES`. -/
def blockBytes : Nat := 4096

/-- `FG_NGRAM_MAX_READ_BYTES`. -/
def maxReadBytes : Nat := 8192

/-- `FG_NGRAM_ROW_BYTES`. -/
def rowBytes : Nat := 90

/-- `FG_NGRAM_PREFILL_MAX_BLOCKS`. -/
def prefillMaxBlocks : Nat := 1024 * 16 * 2

/-- `FG_NGRAM_IO_SLOTS`. -/
def ioSlots : Nat := 64

def cacheWays : Nat := 4

def cacheSets : Nat := 512

def uint64Max : Nat := 2 ^ 64 - 1

/-- `cache_entry`. -/
structure Entry where
  offset : Nat
  stamp : UInt64
  valid : Bool

/-- `fg_ngram_cache`, its data as one block for each entry. -/
structure Cache where
  data : Nat → ByteBlock
  entry : Nat → Entry
  stamp : UInt64

def cacheSet (offset : Nat) : Nat :=
  let x := UInt64.ofNat (offset / blockBytes)
  let x := x ^^^ (x >>> 33)
  let x := x * 0xff51afd7ed558ccd
  let x := x ^^^ (x >>> 33)
  x.toUInt32.toNat &&& (cacheSets - 1)

namespace Cache

/-- `fg_ngram_cache_create`. -/
def create (data : Nat → ByteBlock) : Cache := ⟨data, fun _ => ⟨0, 0, false⟩, 0⟩

def hits (c : Cache) (offset i : Nat) : Bool := (c.entry i).valid && (c.entry i).offset = offset

def ways (offset : Nat) : List Nat := (List.range cacheWays).map (cacheSet offset * cacheWays + ·)

/-- `fg_ngram_cache_get`. -/
def get (c : Cache) (offset : Nat) : Option ByteBlock × Cache :=
  if offset % blockBytes ≠ 0 then (none, c)
  else
    match (ways offset).find? (c.hits offset) with
    | none => (none, c)
    | some i => (some (c.data i),
        { c with
          entry := Function.update c.entry i { c.entry i with stamp := c.stamp + 1 }
          stamp := c.stamp + 1 })

/-- The loop of `fg_ngram_cache_put`: the entry of the block, the first one that is not in use, or the one that was
used least recently. -/
def victim (c : Cache) (offset : Nat) : Nat → List Nat → Nat
  | oldest, [] => oldest
  | oldest, i :: rest =>
    if c.hits offset i then i
    else if ¬(c.entry i).valid then i
    else victim c offset (if (c.entry i).stamp < (c.entry oldest).stamp then i else oldest) rest

/-- `fg_ngram_cache_put`. -/
def put (c : Cache) (offset : Nat) (block : ByteBlock) : Except Error Unit × Cache :=
  if offset % blockBytes ≠ 0 then (.error ⟨.argument, "invalid aligned n-gram cache block"⟩, c)
  else
    let i := c.victim offset (cacheSet offset * cacheWays) (ways offset)
    (.ok (), {
      data := Function.update c.data i block
      entry := Function.update c.entry i ⟨offset, c.stamp + 1, true⟩
      stamp := c.stamp + 1 })

/-- `cache_has`. -/
def has (c : Cache) (offset : Nat) : Bool × Cache :=
  let (data, c) := c.get offset
  (data.isSome, c)

end Cache

/-- `fg_ngram_read`. -/
structure Read where
  offset : Nat
  bytes : Nat
  deriving DecidableEq

def blockOf (address : Nat) : Nat := address / blockBytes * blockBytes

def distinct : List Nat → List Nat
  | a :: b :: rest => if a = b then distinct (b :: rest) else a :: distinct (b :: rest)
  | list => list

/-- Adjacent blocks are read together, two at most. -/
def pairUp : List Nat → List Read
  | a :: b :: rest => if b = a + blockBytes then ⟨a, maxReadBytes⟩ :: pairUp rest else ⟨a, blockBytes⟩ :: pairUp (b :: rest)
  | [a] => [⟨a, blockBytes⟩]
  | [] => []

def alignUp (n : Nat) : Nat := (n + (blockBytes - 1)) / blockBytes * blockBytes

def checkReads (paddedBytes capacity : Nat) : List Read → Nat → Except Error Unit
  | [], _ => .ok ()
  | read :: rest, n =>
    if paddedBytes < read.offset + read.bytes then .error ⟨.format, "n-gram direct-read plan exceeds padded table"⟩
    else if capacity ≤ n then .error ⟨.limit, "n-gram read plan exceeds capacity"⟩
    else checkReads paddedBytes capacity rest (n + 1)

/-- `fg_ngram_plan_reads`. -/
def planReads (addresses : List Nat) (tableBytes capacity : Nat) : Except Error (List Read) :=
  if tableBytes = 0 then .error ⟨.argument, "invalid n-gram read planner arguments"⟩
  else if prefillMaxBlocks < addresses.length then
    .error ⟨.limit, "n-gram read planner input exceeds bounded prefill capacity"⟩
  else if addresses.any (tableBytes ≤ ·) then .error ⟨.format, "n-gram address is outside table"⟩
  else
    let reads := pairUp (distinct ((addresses.map blockOf).mergeSort (· ≤ ·)))
    (checkReads (alignUp tableBytes) capacity reads 0).map fun _ => reads

/-- `fg_ngram_store` as far as the rows depend on it. -/
structure Store where
  maxRows : Nat
  tableBytes : Nat
  cache : Cache

abbrev Pread := Nat → Nat → Except Error ByteBlock

def missing (cache : Cache) (read : Read) : Option Read × Cache :=
  let second := read.offset + blockBytes
  let (firstCached, cache) := cache.has read.offset
  let (secondCached, cache) := if read.bytes = maxReadBytes then cache.has second else (false, cache)
  if firstCached && (read.bytes = blockBytes || secondCached) then (none, cache)
  else if read.bytes ≠ maxReadBytes then (some read, cache)
  else if firstCached then (some ⟨second, blockBytes⟩, cache)
  else if secondCached then (some ⟨read.offset, blockBytes⟩, cache)
  else (some read, cache)

/-- The reads of a batch, as far as the I/O slots go, with the plan that is left. -/
def gatherBatch : List Read → Nat → Cache → List Read × List Read × Cache
  | [], _, cache => ([], [], cache)
  | read :: rest, room, cache =>
    if room = 0 then ([], read :: rest, cache)
    else
      match missing cache read with
      | (none, cache) => gatherBatch rest room cache
      | (some read, cache) =>
        let (batch, plan, cache) := gatherBatch rest (room - 1) cache
        (read :: batch, plan, cache)

def putRead (cache : Cache) (read : Read) (block : ByteBlock) : Except Error Unit × Cache :=
  match cache.put read.offset block with
  | (.error error, cache) => (.error error, cache)
  | (.ok (), cache) =>
    if read.bytes = maxReadBytes then cache.put (read.offset + blockBytes) fun i => block (blockBytes + i)
    else (.ok (), cache)

def putBatch : List (Read × ByteBlock) → Cache → Except Error Unit × Cache
  | [], cache => (.ok (), cache)
  | (read, block) :: rest, cache =>
    match putRead cache read block with
    | (.error error, cache) => (.error error, cache)
    | (.ok (), cache) => putBatch rest cache

theorem gatherBatch_plan_le (plan : List Read) (room : Nat) (cache : Cache) :
    (gatherBatch plan room cache).2.1.length ≤ plan.length := by
  induction plan generalizing room cache with
  | nil => exact Nat.le_refl 0
  | cons read rest ih =>
    rw [gatherBatch]
    split
    · exact Nat.le_refl _
    · split
      · exact Nat.le_succ_of_le (ih _ _)
      · exact Nat.le_succ_of_le (ih _ _)

theorem gatherBatch_plan_lt (read : Read) (rest : List Read) {room : Nat} (hroom : room ≠ 0) (cache : Cache) :
    (gatherBatch (read :: rest) room cache).2.1.length < (read :: rest).length := by
  rw [gatherBatch, if_neg hroom]
  split
  · exact Nat.lt_succ_of_le (gatherBatch_plan_le _ _ _)
  · exact Nat.lt_succ_of_le (gatherBatch_plan_le _ _ _)

/-- The loop of `load_missing_blocks` over its plan. -/
def loadBatches (pread : Pread) (plan : List Read) (cache : Cache) : Except Error Unit × Cache :=
  match plan with
  | [] => (.ok (), cache)
  | read :: rest =>
    let gathered := gatherBatch (read :: rest) ioSlots cache
    match gathered.1.mapM fun read => pread read.offset read.bytes with
    | .error error => (.error error, gathered.2.2)
    | .ok blocks =>
      match putBatch (gathered.1.zip blocks) gathered.2.2 with
      | (.error error, cache) => (.error error, cache)
      | (.ok (), cache) => loadBatches pread gathered.2.1 cache
termination_by plan.length
decreasing_by exact gatherBatch_plan_lt read rest (show ioSlots ≠ 0 by decide) _

namespace Store

/-- `fg_ngram_store_open` of a file of a size, with a cache that is made at the first lookup. -/
def openFile (tableBytes : UInt64) (maxTokens fileBytes : Nat) (data : Nat → ByteBlock) : Except Error Store :=
  if tableBytes = 0 ∨ maxTokens = 0 ∨ 1024 < maxTokens then .error ⟨.argument, "invalid n-gram store arguments"⟩
  else if fileBytes ≠ alignUp tableBytes.toNat then
    .error ⟨.mismatch, "n-gram table size does not match sealed tensor"⟩
  else .ok ⟨maxTokens * 16, tableBytes.toNat, .create data⟩

def loadMissingBlocks (s : Store) (pread : Pread) (addresses : List Nat) : Except Error Unit × Store :=
  if addresses = [] ∨ s.maxRows < addresses.length then
    (.error ⟨.argument, "invalid bounded n-gram block load"⟩, s)
  else if addresses.any (uint64Max - (rowBytes - 1) < ·) then (.error ⟨.format, "n-gram row address overflows"⟩, s)
  else
    match planReads (addresses.flatMap fun address => [address, address + rowBytes - 1]) s.tableBytes prefillMaxBlocks with
    | .error error => (.error error, s)
    | .ok plan =>
      let (answer, cache) := loadBatches pread plan s.cache
      (answer, { s with cache })

def getOrReloadBlock (s : Store) (pread : Pread) (block : Nat) : Except Error ByteBlock × Store :=
  match s.cache.get block with
  | (some data, cache) => (.ok data, { s with cache })
  | (none, cache) =>
    match pread block blockBytes with
    | .error error => (.error error, { s with cache })
    | .ok bytes =>
      match cache.put block bytes with
      | (.error error, cache) => (.error error, { s with cache })
      | (.ok (), cache) =>
        match cache.get block with
        | (some data, cache) => (.ok data, { s with cache })
        | (none, cache) =>
          (.error ⟨.mismatch, "n-gram cache rejected a reloaded block"⟩, { s with cache })

/-- One row of `pack_rows`. -/
def packRow (s : Store) (pread : Pread) (address : Nat) : Except Error (List UInt8) × Store :=
  let block := blockOf address
  let within := address - block
  let first := if blockBytes - within < rowBytes then blockBytes - within else rowBytes
  match s.getOrReloadBlock pread block with
  | (.error error, s) => (.error error, s)
  | (.ok data, s) =>
    if first < rowBytes then
      match s.getOrReloadBlock pread (block + blockBytes) with
      | (.error error, s) => (.error error, s)
      | (.ok next, s) => (.ok (data.slice within first ++ next.slice 0 (rowBytes - first)), s)
    else (.ok (data.slice within first), s)

def packRows (s : Store) (pread : Pread) : List Nat → Except Error (List (List UInt8)) × Store
  | [] => (.ok [], s)
  | address :: rest =>
    match s.packRow pread address with
    | (.error error, s) => (.error error, s)
    | (.ok row, s) =>
      match s.packRows pread rest with
      | (.error error, s) => (.error error, s)
      | (.ok rows, s) => (.ok (row :: rows), s)

def lookup (s : Store) (pread : Pread) (addresses : List Nat) : Except Error (List (List UInt8)) × Store :=
  match s.loadMissingBlocks pread addresses with
  | (.error error, s) => (.error error, s)
  | (.ok (), s) => s.packRows pread addresses

/-- The answers of lookups one after another. Reads may fail in one and succeed in the next. -/
def lookups (s : Store) : List (Pread × List Nat) → List (Except Error (List (List UInt8)))
  | [] => []
  | (pread, addresses) :: rest =>
    let (answer, s) := s.lookup pread addresses
    answer :: s.lookups rest

end Store

def Cache.Mirrors (c : Cache) (file : ByteBlock) : Prop :=
  ∀ i, (c.entry i).valid = true → ∀ k < blockBytes, c.data i k = file ((c.entry i).offset + k)

def Serves (pread : Pread) (file : ByteBlock) : Prop :=
  ∀ offset bytes block, pread offset bytes = .ok block → ∀ k < bytes, block k = file (offset + k)

variable {c : Cache} {file : ByteBlock} {offset : Nat} {pread : Pread}

theorem Cache.mirrors_create (data : Nat → ByteBlock) (file : ByteBlock) : (Cache.create data).Mirrors file :=
  fun _ hvalid => (nomatch hvalid)

theorem Cache.Mirrors.get (h : c.Mirrors file) (offset : Nat) :
    (c.get offset).2.Mirrors file ∧
      ∀ block, (c.get offset).1 = some block → ∀ k < blockBytes, block k = file (offset + k) := by
  rw [Cache.get]
  split
  · exact ⟨h, fun _ hnone => (nomatch hnone)⟩
  · split
    · exact ⟨h, fun _ hnone => (nomatch hnone)⟩
    next i hfound =>
      have hhit := List.find?_some hfound
      rw [Cache.hits, Bool.and_eq_true, decide_eq_true_eq] at hhit
      refine ⟨fun j hvalid k hk => ?_, fun block hblock k hk => ?_⟩
      · dsimp only at hvalid ⊢
        by_cases hji : j = i
        · subst hji
          rw [Function.update_self] at hvalid ⊢
          exact h j hvalid k hk
        · rw [Function.update_of_ne hji] at hvalid ⊢
          exact h j hvalid k hk
      · obtain rfl := Option.some.inj hblock
        rw [h i hhit.1 k hk, hhit.2]

theorem Cache.Mirrors.has (h : c.Mirrors file) (offset : Nat) : (c.has offset).2.Mirrors file := (h.get offset).1

theorem Cache.victim_mem (c : Cache) (offset : Nat) {oldest : Nat} {ways all : List Nat} (holdest : oldest ∈ all)
    (hways : ∀ i ∈ ways, i ∈ all) : c.victim offset oldest ways ∈ all := by
  induction ways generalizing oldest with
  | nil => exact holdest
  | cons i rest ih =>
    have hrest : ∀ j ∈ rest, j ∈ all := (forall_mem_cons.mp hways).2
    rw [Cache.victim]
    split
    · exact hways i mem_cons_self
    split
    · exact hways i mem_cons_self
    · apply ih _ hrest
      split
      · exact hways i mem_cons_self
      · exact holdest

theorem Cache.Mirrors.put (h : c.Mirrors file) (haligned : offset % blockBytes = 0) {block : ByteBlock}
    (hblock : ∀ k < blockBytes, block k = file (offset + k)) :
    ∃ after, c.put offset block = (.ok (), after) ∧ after.Mirrors file ∧ (after.get offset).1.isSome := by
  rw [Cache.put, if_neg (not_not.mpr haligned)]
  have hmem : c.victim offset (cacheSet offset * cacheWays) (Cache.ways offset) ∈ Cache.ways offset := by
    apply c.victim_mem offset _ fun _ hi => hi
    exact mem_map.mpr ⟨0, mem_range.mpr (by decide), Nat.add_zero _⟩
  generalize c.victim offset (cacheSet offset * cacheWays) (Cache.ways offset) = i at hmem
  refine ⟨_, rfl, fun j hvalid k hk => ?_, ?_⟩
  · dsimp only at hvalid ⊢
    by_cases hji : j = i
    · subst hji
      rw [Function.update_self, Function.update_self]
      exact hblock k hk
    · rw [Function.update_of_ne hji] at hvalid ⊢
      rw [Function.update_of_ne hji]
      exact h j hvalid k hk
  · rw [Cache.get, if_neg (not_not.mpr haligned)]
    split
    next hnone =>
      rw [List.find?_eq_none] at hnone
      apply absurd _ (hnone i hmem)
      simp only [Cache.hits, Function.update_self, Bool.true_and, decide_eq_true_eq]
    · rfl

structure Read.Whole (read : Read) : Prop where
  aligned : read.offset % blockBytes = 0
  bytes : read.bytes = blockBytes ∨ read.bytes = maxReadBytes

variable {read : Read}

theorem missing_spec (h : c.Mirrors file) (hread : read.Whole) :
    (missing c read).2.Mirrors file ∧ ∀ found, (missing c read).1 = some found → found.Whole := by
  have hsecond : (read.offset + blockBytes) % blockBytes = 0 := by
    rw [Nat.add_mod_right]
    exact hread.aligned
  have hfirst := h.has read.offset
  rw [missing]
  have hboth : (if read.bytes = maxReadBytes then (c.has read.offset).2.has (read.offset + blockBytes)
      else (false, (c.has read.offset).2)).2.Mirrors file := by
    split
    · exact hfirst.has _
    · exact hfirst
  dsimp only
  generalize (if read.bytes = maxReadBytes then (c.has read.offset).2.has (read.offset + blockBytes)
    else (false, (c.has read.offset).2)) = second at hboth ⊢
  obtain ⟨secondCached, cache⟩ := second
  split
  · exact ⟨hboth, fun _ hnone => (nomatch hnone)⟩
  split
  · exact ⟨hboth, fun found hfound => Option.some.inj hfound ▸ hread⟩
  split
  · exact ⟨hboth, fun found hfound => Option.some.inj hfound ▸ ⟨hsecond, .inl rfl⟩⟩
  split
  · exact ⟨hboth, fun found hfound => Option.some.inj hfound ▸ ⟨hread.aligned, .inl rfl⟩⟩
  · exact ⟨hboth, fun found hfound => Option.some.inj hfound ▸ hread⟩

variable {plan : List Read}

theorem gatherBatch_spec (h : c.Mirrors file) (hplan : ∀ read ∈ plan, read.Whole) (room : Nat) :
    (gatherBatch plan room c).2.2.Mirrors file ∧ (∀ read ∈ (gatherBatch plan room c).1, read.Whole) ∧
      ∀ read ∈ (gatherBatch plan room c).2.1, read.Whole := by
  induction plan generalizing room c with
  | nil => exact ⟨h, hplan, hplan⟩
  | cons read rest ih =>
    obtain ⟨hmirrors, hfound⟩ := missing_spec h (hplan read mem_cons_self)
    have hrest : ∀ other ∈ rest, other.Whole := (forall_mem_cons.mp hplan).2
    rw [gatherBatch]
    split
    · exact ⟨h, fun _ hnil => (nomatch hnil), hplan⟩
    · split
      next cache heq =>
        rw [heq] at hmirrors
        exact ih hmirrors hrest room
      next found cache heq =>
        rw [heq] at hmirrors hfound
        obtain ⟨hcache, hbatch, hleft⟩ := ih hmirrors hrest (room - 1)
        refine ⟨hcache, fun other hother => ?_, hleft⟩
        rcases mem_cons.mp hother with rfl | hmem
        · exact hfound _ rfl
        · exact hbatch other hmem

theorem putRead_spec (h : c.Mirrors file) (hread : read.Whole) {block : ByteBlock}
    (hblock : ∀ k < read.bytes, block k = file (read.offset + k)) :
    ∃ after, putRead c read block = (.ok (), after) ∧ after.Mirrors file := by
  have hle : blockBytes ≤ read.bytes := by
    rcases hread.bytes with heq | heq
    · exact Nat.le_of_eq heq.symm
    · rw [heq]
      decide
  obtain ⟨first, hput, hfirst, -⟩ := h.put hread.aligned fun k hk => hblock k (Nat.lt_of_lt_of_le hk hle)
  rw [putRead, hput]
  dsimp only
  split
  next htwo =>
    have hsecond : (read.offset + blockBytes) % blockBytes = 0 := by
      rw [Nat.add_mod_right]
      exact hread.aligned
    have hbytes : ∀ k < blockBytes, block (blockBytes + k) = file (read.offset + blockBytes + k) := by
      intro k hk
      rw [Nat.add_assoc]
      apply hblock
      rw [htwo, maxReadBytes]
      rw [blockBytes] at hk ⊢
      omega
    obtain ⟨second, hput', hboth, -⟩ := hfirst.put hsecond hbytes
    exact ⟨second, hput', hboth⟩
  next => exact ⟨first, rfl, hfirst⟩

theorem putBatch_spec {reads : List (Read × ByteBlock)} (h : c.Mirrors file) (hreads : ∀ read ∈ reads, read.1.Whole)
    (hbytes : ∀ read ∈ reads, ∀ k < read.1.bytes, read.2 k = file (read.1.offset + k)) :
    ∃ after, putBatch reads c = (.ok (), after) ∧ after.Mirrors file := by
  induction reads generalizing c with
  | nil => exact ⟨c, rfl, h⟩
  | cons head rest ih =>
    obtain ⟨first, hput, hfirst⟩ := putRead_spec h (hreads head mem_cons_self) (hbytes head mem_cons_self)
    rw [putBatch, hput]
    exact ih hfirst (forall_mem_cons.mp hreads).2 (forall_mem_cons.mp hbytes).2

/-- No read of a request fails. -/
def Pread.Total (pread : Pread) : Prop := ∀ offset bytes, ∃ block, pread offset bytes = .ok block

theorem mapM_pread {reads : List Read} {blocks : List ByteBlock} (hserves : Serves pread file)
    (hmap : (reads.mapM fun read => pread read.offset read.bytes) = .ok blocks) :
    ∀ read ∈ reads.zip blocks, read.1 ∈ reads ∧ ∀ k < read.1.bytes, read.2 k = file (read.1.offset + k) := by
  induction reads generalizing blocks with
  | nil => exact fun _ hnil => (nomatch hnil)
  | cons head rest ih =>
    rw [mapM_cons] at hmap
    cases hhead : pread head.offset head.bytes with
    | error error =>
      rw [hhead] at hmap
      cases hmap
    | ok block =>
      rw [hhead] at hmap
      cases hrest : rest.mapM fun read => pread read.offset read.bytes with
      | error error =>
        rw [hrest] at hmap
        cases hmap
      | ok others =>
        rw [hrest] at hmap
        obtain rfl := Except.ok.inj hmap
        intro read hread
        rcases mem_cons.mp hread with rfl | hmem
        · exact ⟨mem_cons_self, hserves _ _ _ hhead⟩
        · exact ⟨mem_cons_of_mem _ (ih hrest read hmem).1, (ih hrest read hmem).2⟩

theorem mapM_total (htotal : pread.Total) (reads : List Read) :
    ∃ blocks, (reads.mapM fun read => pread read.offset read.bytes) = .ok blocks := by
  induction reads with
  | nil => exact ⟨[], rfl⟩
  | cons head rest ih =>
    obtain ⟨block, hblock⟩ := htotal head.offset head.bytes
    obtain ⟨blocks, hblocks⟩ := ih
    refine ⟨block :: blocks, ?_⟩
    rw [mapM_cons, hblock, hblocks]
    rfl

theorem loadBatches_spec (hserves : Serves pread file) (hplan : ∀ read ∈ plan, read.Whole)
    (h : c.Mirrors file) : (loadBatches pread plan c).2.Mirrors file ∧
      (pread.Total → (loadBatches pread plan c).1 = .ok ()) := by
  induction hn : plan.length using Nat.strongRecOn generalizing plan c with
  | ind n ih =>
    subst hn
    cases plan with
    | nil =>
      rw [loadBatches]
      exact ⟨h, fun _ => rfl⟩
    | cons read rest =>
      obtain ⟨hcache, hbatch, hleft⟩ := gatherBatch_spec h hplan ioSlots
      have hshorter := gatherBatch_plan_lt read rest (show ioSlots ≠ 0 by decide) c
      rw [loadBatches]
      generalize gatherBatch (read :: rest) ioSlots c = gathered at hcache hbatch hleft hshorter ⊢
      cases hread : gathered.1.mapM fun read => pread read.offset read.bytes with
      | error error =>
        refine ⟨hcache, fun htotal => ?_⟩
        obtain ⟨blocks, hblocks⟩ := mapM_total htotal gathered.1
        rw [hread] at hblocks
        cases hblocks
      | ok blocks =>
        have hzip := mapM_pread hserves hread
        obtain ⟨after, hput, hafter⟩ := putBatch_spec hcache
          (fun pair hpair => hbatch _ (hzip pair hpair).1) fun pair hpair => (hzip pair hpair).2
        dsimp only
        rw [hput]
        exact ih _ hshorter hleft hafter rfl

theorem mem_distinct {list : List Nat} {x : Nat} (h : x ∈ distinct list) : x ∈ list := by
  induction list using distinct.induct with
  | case1 a rest ih =>
    rw [distinct, if_pos rfl] at h
    exact mem_cons_of_mem _ (ih h)
  | case2 a b rest hne ih =>
    rw [distinct, if_neg hne] at h
    rcases mem_cons.mp h with rfl | hrest
    · exact mem_cons_self
    · exact mem_cons_of_mem _ (ih hrest)
  | case3 list hshort =>
    rw [distinct] at h
    · exact h
    · exact hshort

theorem distinct_length_le (list : List Nat) : (distinct list).length ≤ list.length := by
  induction list using distinct.induct with
  | case1 a rest ih =>
    rw [distinct, if_pos rfl]
    exact Nat.le_succ_of_le ih
  | case2 a b rest hne ih =>
    rw [distinct, if_neg hne]
    exact Nat.succ_le_succ ih
  | case3 list hshort =>
    rw [distinct]
    exact hshort

structure Read.Of (read : Read) (list : List Nat) : Prop where
  first : read.offset ∈ list
  last : ∃ block ∈ list, read.offset + read.bytes = block + blockBytes
  bytes : read.bytes = blockBytes ∨ read.bytes = maxReadBytes

theorem Read.Of.mono {list more : List Nat} (h : read.Of list) (hsub : ∀ x ∈ list, x ∈ more) : read.Of more := by
  obtain ⟨block, hblock, hlast⟩ := h.last
  exact ⟨hsub _ h.first, ⟨block, hsub _ hblock, hlast⟩, h.bytes⟩

theorem of_pairUp {list : List Nat} : ∀ read ∈ pairUp list, read.Of list := by
  induction list using pairUp.induct with
  | case1 a rest ih =>
    intro read hread
    rw [pairUp, if_pos rfl] at hread
    rcases mem_cons.mp hread with rfl | hmem
    · refine ⟨mem_cons_self, ⟨a + blockBytes, mem_cons_of_mem _ mem_cons_self, ?_⟩, .inr rfl⟩
      rw [Nat.add_assoc]
      rfl
    · exact (ih read hmem).mono fun x hx => mem_cons_of_mem _ (mem_cons_of_mem _ hx)
  | case2 a b rest hne ih =>
    intro read hread
    rw [pairUp, if_neg hne] at hread
    rcases mem_cons.mp hread with rfl | hmem
    · exact ⟨mem_cons_self, ⟨a, mem_cons_self, rfl⟩, .inl rfl⟩
    · exact (ih read hmem).mono fun x hx => mem_cons_of_mem _ hx
  | case3 a =>
    intro read hread
    obtain rfl := mem_singleton.mp hread
    exact ⟨mem_cons_self, ⟨a, mem_cons_self, rfl⟩, .inl rfl⟩
  | case4 => exact fun _ hnil => (nomatch hnil)

theorem pairUp_length_le (list : List Nat) : (pairUp list).length ≤ list.length := by
  induction list using pairUp.induct with
  | case1 a rest ih =>
    rw [pairUp, if_pos rfl]
    exact Nat.succ_le_succ (Nat.le_succ_of_le ih)
  | case2 a b rest hne ih =>
    rw [pairUp, if_neg hne]
    exact Nat.succ_le_succ ih
  | case3 a => exact Nat.le_refl 1
  | case4 => exact Nat.le_refl 0

theorem checkReads_ok {paddedBytes capacity : Nat} {reads : List Read} {n : Nat}
    (hreads : ∀ read ∈ reads, read.offset + read.bytes ≤ paddedBytes) (hn : n + reads.length ≤ capacity) :
    checkReads paddedBytes capacity reads n = .ok () := by
  induction reads generalizing n with
  | nil => rfl
  | cons read rest ih =>
    rw [length_cons] at hn
    rw [checkReads, if_neg (Nat.not_lt_of_le (hreads read mem_cons_self)), if_neg (by omega)]
    exact ih (forall_mem_cons.mp hreads).2 (by omega)

variable {addresses : List Nat}

theorem planned
    (h : read ∈ pairUp (distinct ((addresses.map blockOf).mergeSort (· ≤ ·)))) : read.Of (addresses.map blockOf) :=
  (of_pairUp read h).mono fun _ hx => mem_mergeSort.mp (mem_distinct hx)

theorem blockOf_mod (address : Nat) : blockOf address % blockBytes = 0 := Nat.mul_mod_left _ _

variable {tableBytes capacity : Nat}

theorem planReads_whole (h : planReads addresses tableBytes capacity = .ok plan) : ∀ read ∈ plan, read.Whole := by
  rw [planReads] at h
  split at h
  · cases h
  split at h
  · cases h
  split at h
  · cases h
  · dsimp only at h
    cases hcheck : checkReads (alignUp tableBytes) capacity
        (pairUp (distinct ((addresses.map blockOf).mergeSort (· ≤ ·)))) 0 with
    | error error =>
      rw [hcheck] at h
      cases h
    | ok _ =>
      rw [hcheck] at h
      obtain rfl := Except.ok.inj h
      intro read hread
      have hof := planned hread
      obtain ⟨address, -, hoffset⟩ := mem_map.mp hof.first
      exact ⟨hoffset ▸ blockOf_mod address, hof.bytes⟩

def planFor (addresses : List Nat) : List Read := pairUp (distinct ((addresses.map blockOf).mergeSort (· ≤ ·)))

theorem planFor_length_le (addresses : List Nat) : (planFor addresses).length ≤ addresses.length :=
  calc (planFor addresses).length
      ≤ (distinct ((addresses.map blockOf).mergeSort (· ≤ ·))).length := pairUp_length_le _
    _ ≤ ((addresses.map blockOf).mergeSort (· ≤ ·)).length := distinct_length_le _
    _ = addresses.length := by rw [length_mergeSort, length_map]

theorem planFor_inside {tableBytes : Nat} (hinside : ∀ address ∈ addresses, address < tableBytes) :
    ∀ read ∈ planFor addresses, read.offset + read.bytes ≤ alignUp tableBytes := by
  intro read hread
  obtain ⟨block, hblock, hlast⟩ := (planned hread).last
  obtain ⟨address, haddress, rfl⟩ := mem_map.mp hblock
  have haddr := hinside address haddress
  rw [hlast, blockOf, alignUp, blockBytes]
  omega

theorem planReads_eq (hlength : addresses.length ≤ prefillMaxBlocks)
    (hcapacity : (planFor addresses).length ≤ capacity) (hne : tableBytes ≠ 0)
    (hinside : ∀ address ∈ addresses, address < tableBytes) :
    planReads addresses tableBytes capacity = .ok (planFor addresses) := by
  have hcheck : checkReads (alignUp tableBytes) capacity (planFor addresses) 0 = .ok () :=
    checkReads_ok (planFor_inside hinside) (by rwa [Nat.zero_add])
  have houtside : ¬addresses.any (tableBytes ≤ ·) = true := by
    rw [any_eq_true]
    rintro ⟨address, haddress, hover⟩
    exact absurd (hinside address haddress) (Nat.not_lt_of_le (of_decide_eq_true hover))
  rw [planReads, if_neg hne, if_neg (Nat.not_lt_of_le hlength), if_neg houtside]
  dsimp only
  rw [← planFor, hcheck]
  rfl

theorem planReads_ok (hlength : addresses.length ≤ prefillMaxBlocks)
    (hcapacity : addresses.length ≤ capacity) (hne : tableBytes ≠ 0) (hinside : ∀ address ∈ addresses, address < tableBytes) :
    ∃ plan, planReads addresses tableBytes capacity = .ok plan :=
  ⟨planFor addresses, planReads_eq hlength ((planFor_length_le addresses).trans hcapacity) hne hinside⟩

namespace Store

variable {s : Store}

structure Keeps (s after : Store) (file : ByteBlock) : Prop where
  mirrors : after.cache.Mirrors file
  maxRows : after.maxRows = s.maxRows
  tableBytes : after.tableBytes = s.tableBytes

theorem Keeps.trans {after last : Store} (h : s.Keeps after file) (hnext : after.Keeps last file) : s.Keeps last file :=
  ⟨hnext.mirrors, hnext.maxRows.trans h.maxRows, hnext.tableBytes.trans h.tableBytes⟩

section

variable (hserves : Serves pread file)
include hserves

theorem loadMissingBlocks_spec (h : s.cache.Mirrors file) (addresses : List Nat) :
    s.Keeps (s.loadMissingBlocks pread addresses).2 file := by
  rw [loadMissingBlocks]
  split
  · exact ⟨h, rfl, rfl⟩
  split
  · exact ⟨h, rfl, rfl⟩
  split
  · exact ⟨h, rfl, rfl⟩
  next plan hplan => exact ⟨(loadBatches_spec hserves (planReads_whole hplan) h).1, rfl, rfl⟩

theorem loadMissingBlocks_ok (htotal : pread.Total) (h : s.cache.Mirrors file)
    (hne : addresses ≠ []) (hlength : addresses.length ≤ s.maxRows)
    (hrows : s.maxRows ≤ 1024 * 16) (htable : s.tableBytes ≤ uint64Max)
    (hinside : ∀ address ∈ addresses, address + rowBytes ≤ s.tableBytes) :
    (s.loadMissingBlocks pread addresses).1 = .ok () := by
  have hbytes : rowBytes = 90 := rfl
  have hfits : ¬addresses.any (uint64Max - (rowBytes - 1) < ·) = true := by
    rw [any_eq_true]
    rintro ⟨address, haddress, hover⟩
    have hlast := hinside address haddress
    have hover := of_decide_eq_true hover
    omega
  have hprobes : ∀ n, (addresses.flatMap fun address => [address, address + rowBytes - 1]).length ≤ n ↔
      addresses.length * 2 ≤ n := by
    intro n
    rw [length_flatMap]
    show (addresses.map fun _ => 2).sum ≤ n ↔ _
    rw [map_const', sum_replicate_nat]
  have hblocks : prefillMaxBlocks = 1024 * 16 * 2 := rfl
  obtain ⟨address, haddress⟩ := exists_mem_of_ne_nil addresses hne
  have hpos := hinside address haddress
  obtain ⟨plan, hplan⟩ := @planReads_ok (addresses.flatMap fun address => [address, address + rowBytes - 1])
    s.tableBytes prefillMaxBlocks ((hprobes _).mpr (by omega)) ((hprobes _).mpr (by omega)) (by omega) fun probe hprobe => by
      obtain ⟨address, haddress, hmem⟩ := mem_flatMap.mp hprobe
      have hrow := hinside address haddress
      rcases mem_cons.mp hmem with rfl | hlast
      · omega
      · rw [mem_singleton.mp hlast]
        omega
  rw [loadMissingBlocks, if_neg, if_neg hfits, hplan]
  · exact (loadBatches_spec hserves (planReads_whole hplan) h).2 htotal
  · rintro (hnil | hlong)
    · exact hne hnil
    · exact absurd hlength (Nat.not_le_of_lt hlong)

theorem getOrReloadBlock_spec (h : s.cache.Mirrors file) {block : Nat}
    (haligned : block % blockBytes = 0) :
    s.Keeps (s.getOrReloadBlock pread block).2 file ∧
      (∀ data, (s.getOrReloadBlock pread block).1 = .ok data → ∀ k < blockBytes, data k = file (block + k)) ∧
      (pread.Total → ∃ data, (s.getOrReloadBlock pread block).1 = .ok data) := by
  obtain ⟨hmirrors, hfound⟩ := h.get block
  rw [getOrReloadBlock]
  split
  next data cache hget =>
    rw [hget] at hmirrors hfound
    exact ⟨⟨hmirrors, rfl, rfl⟩, fun found heq => Except.ok.inj heq ▸ hfound data rfl, fun _ => ⟨data, rfl⟩⟩
  next cache hget =>
    rw [hget] at hmirrors
    cases hread : pread block blockBytes with
    | error error =>
      refine ⟨⟨hmirrors, rfl, rfl⟩, fun _ heq => (nomatch heq), fun htotal => ?_⟩
      obtain ⟨bytes, hbytes⟩ := htotal block blockBytes
      rw [hread] at hbytes
      cases hbytes
    | ok bytes =>
      obtain ⟨after, hput, hafter, hsome⟩ := Cache.Mirrors.put hmirrors haligned (hserves _ _ _ hread)
      obtain ⟨hmirrors', hfound'⟩ := hafter.get block
      dsimp only
      rw [hput]
      dsimp only
      split
      next data cache hget =>
        rw [hget] at hmirrors' hfound'
        exact ⟨⟨hmirrors', rfl, rfl⟩, fun found heq => Except.ok.inj heq ▸ hfound' data rfl, fun _ => ⟨data, rfl⟩⟩
      next cache hget =>
        rw [hget] at hsome
        cases hsome

end

theorem slice_block {data : ByteBlock} {block : Nat} (hdata : ∀ k < blockBytes, data k = file (block + k))
    {place count : Nat} (hcount : place + count ≤ blockBytes) : data.slice place count = file.slice (block + place) count := by
  apply map_congr_left
  intro k hk
  rw [mem_range] at hk
  rw [hdata (place + k) (by omega), Nat.add_assoc]

section

variable (hserves : Serves pread file)
include hserves

theorem packRow_spec (h : s.cache.Mirrors file) (address : Nat) :
    s.Keeps (s.packRow pread address).2 file ∧
      (∀ row, (s.packRow pread address).1 = .ok row → row = file.slice address rowBytes) ∧
      (pread.Total → ∃ row, (s.packRow pread address).1 = .ok row) := by
  have hrow : rowBytes = 90 := rfl
  have hblock : blockBytes = 4096 := rfl
  have hle : blockOf address ≤ address := Nat.div_mul_le_self _ _
  have hlt : address < blockOf address + blockBytes := by
    rw [blockOf, hblock]
    omega
  obtain ⟨hkeeps, hdata, htotal⟩ := getOrReloadBlock_spec hserves h (blockOf_mod address)
  rw [packRow]
  generalize hfirst : (if blockBytes - (address - blockOf address) < rowBytes then
    blockBytes - (address - blockOf address) else rowBytes) = first
  have hinside : address - blockOf address + first ≤ blockBytes := by
    rw [← hfirst]
    split
    · omega
    next hover => omega
  have hplace : blockOf address + (address - blockOf address) = address := Nat.add_sub_cancel' hle
  split
  next error t hget =>
    rw [hget] at hkeeps htotal
    refine ⟨hkeeps, fun _ heq => (nomatch heq), fun hall => ?_⟩
    obtain ⟨data, hok⟩ := htotal hall
    cases hok
  next data t hget =>
    rw [hget] at hkeeps hdata
    have hhead : data.slice (address - blockOf address) first = file.slice address first := by
      rw [slice_block (hdata data rfl) hinside, hplace]
    split
    next hpart =>
      have hseam : first = blockBytes - (address - blockOf address) := by
        rw [← hfirst] at hpart ⊢
        split at hpart
        next hshort => rw [if_pos hshort]
        next => exact absurd hpart (Nat.lt_irrefl _)
      have hnext : (blockOf address + blockBytes) % blockBytes = 0 := by
        rw [Nat.add_mod_right]
        exact blockOf_mod address
      obtain ⟨hkeeps', hdata', htotal'⟩ := getOrReloadBlock_spec hserves hkeeps.mirrors hnext
      split
      next error u hget' =>
        rw [hget'] at hkeeps' htotal'
        refine ⟨hkeeps.trans hkeeps', fun _ heq => (nomatch heq), fun hall => ?_⟩
        obtain ⟨data', hok⟩ := htotal' hall
        cases hok
      next next u hget' =>
        rw [hget'] at hkeeps' hdata'
        refine ⟨hkeeps.trans hkeeps', fun row heq => ?_, fun _ => ⟨_, rfl⟩⟩
        obtain rfl := Except.ok.inj heq
        have htail : next.slice 0 (rowBytes - first) = file.slice (address + first) (rowBytes - first) := by
          rw [slice_block (hdata' next rfl) (by omega), show blockOf address + blockBytes + 0 = address + first by omega]
        rw [hhead, htail, ← ByteBlock.slice_add, show first + (rowBytes - first) = rowBytes by omega]
    next hwhole =>
      refine ⟨hkeeps, fun row heq => ?_, fun _ => ⟨_, rfl⟩⟩
      obtain rfl := Except.ok.inj heq
      have hall : first = rowBytes := by
        rw [← hfirst] at hwhole ⊢
        split at hwhole
        next hshort => exact absurd hshort hwhole
        next hlong => rw [if_neg hlong]
      rw [hhead, hall]

theorem packRows_spec (h : s.cache.Mirrors file) (addresses : List Nat) :
    s.Keeps (s.packRows pread addresses).2 file ∧
      (∀ rows, (s.packRows pread addresses).1 = .ok rows → rows = addresses.map (file.slice · rowBytes)) ∧
      (pread.Total → ∃ rows, (s.packRows pread addresses).1 = .ok rows) := by
  induction addresses generalizing s with
  | nil => exact ⟨⟨h, rfl, rfl⟩, fun rows heq => (Except.ok.inj heq).symm, fun _ => ⟨[], rfl⟩⟩
  | cons address rest ih =>
    obtain ⟨hkeeps, hrow, htotal⟩ := packRow_spec hserves h address
    rw [packRows]
    split
    next error t hpack =>
      rw [hpack] at hkeeps htotal
      refine ⟨hkeeps, fun _ heq => (nomatch heq), fun hall => ?_⟩
      obtain ⟨row, hok⟩ := htotal hall
      cases hok
    next row t hpack =>
      rw [hpack] at hkeeps hrow
      obtain ⟨hkeeps', hrows, htotal'⟩ := ih hkeeps.mirrors
      split
      next error u hrest =>
        rw [hrest] at hkeeps' htotal'
        refine ⟨hkeeps.trans hkeeps', fun _ heq => (nomatch heq), fun hall => ?_⟩
        obtain ⟨rows, hok⟩ := htotal' hall
        cases hok
      next rows u hrest =>
        rw [hrest] at hkeeps' hrows
        refine ⟨hkeeps.trans hkeeps', fun all heq => ?_, fun _ => ⟨_, rfl⟩⟩
        obtain rfl := Except.ok.inj heq
        rw [map_cons, hrow row rfl, hrows rows rfl]

theorem lookup_spec (h : s.cache.Mirrors file) (addresses : List Nat) :
    s.Keeps (s.lookup pread addresses).2 file ∧
      (∀ rows, (s.lookup pread addresses).1 = .ok rows → rows = addresses.map (file.slice · rowBytes)) := by
  have hload := loadMissingBlocks_spec hserves h addresses
  rw [lookup]
  split
  next error t hloaded =>
    rw [hloaded] at hload
    exact ⟨hload, fun _ heq => (nomatch heq)⟩
  next t hloaded =>
    rw [hloaded] at hload
    obtain ⟨hkeeps, hrows, -⟩ := packRows_spec hserves hload.mirrors addresses
    exact ⟨hload.trans hkeeps, hrows⟩

theorem lookup_ok (htotal : pread.Total) (h : s.cache.Mirrors file)
    (hne : addresses ≠ []) (hlength : addresses.length ≤ s.maxRows)
    (hrows : s.maxRows ≤ 1024 * 16) (htable : s.tableBytes ≤ uint64Max)
    (hinside : ∀ address ∈ addresses, address + rowBytes ≤ s.tableBytes) :
    (s.lookup pread addresses).1 = .ok (addresses.map (file.slice · rowBytes)) := by
  have hok := loadMissingBlocks_ok hserves htotal h hne hlength hrows htable hinside
  have hload := loadMissingBlocks_spec hserves h addresses
  rw [lookup]
  split
  next error t hloaded =>
    rw [hloaded] at hok
    cases hok
  next t hloaded =>
    rw [hloaded] at hload
    obtain ⟨-, hrows, hall⟩ := packRows_spec hserves hload.mirrors addresses
    obtain ⟨rows, hpacked⟩ := hall htotal
    rw [hpacked, hrows rows hpacked]

end

structure Answers (tableBytes maxRows : Nat) (file : ByteBlock) (request : Pread × List Nat)
    (answer : Except Error (List (List UInt8))) : Prop where
  rows : ∀ rows, answer = .ok rows → rows = request.2.map (file.slice · rowBytes)
  served : request.1.Total → request.2 ≠ [] → request.2.length ≤ maxRows →
    (∀ address ∈ request.2, address + rowBytes ≤ tableBytes) → ∃ rows, answer = .ok rows

theorem lookups_spec (h : s.cache.Mirrors file) (hrows : s.maxRows ≤ 1024 * 16) (htable : s.tableBytes ≤ uint64Max)
    {requests : List (Pread × List Nat)} (hserves : ∀ request ∈ requests, Serves request.1 file) :
    List.Forall₂ (Answers s.tableBytes s.maxRows file) requests (s.lookups requests) := by
  induction requests generalizing s with
  | nil => exact .nil
  | cons request rest ih =>
    obtain ⟨pread, addresses⟩ := request
    have hserved := hserves _ mem_cons_self
    obtain ⟨hkeeps, hanswer⟩ := lookup_spec hserved h addresses
    rw [lookups]
    refine .cons ⟨hanswer, fun htotal hne hlength hinside => ⟨_, lookup_ok hserved htotal h hne hlength hrows htable
      hinside⟩⟩ ?_
    have hrest := ih hkeeps.mirrors (hkeeps.maxRows ▸ hrows) (hkeeps.tableBytes ▸ htable) (forall_mem_cons.mp hserves).2
    rw [hkeeps.tableBytes, hkeeps.maxRows] at hrest
    exact hrest

end Store

/-- Over every run of lookups of a table that was opened, each packed row has the bytes of the file at its address,
whatever was cached, evicted or loaded before it; and a lookup of rows inside the table whose reads succeed is
answered. -/
theorem lookups_transparent {tableBytes : UInt64} {maxTokens fileBytes : Nat} {data : Nat → ByteBlock} {s : Store}
    (hopen : Store.openFile tableBytes maxTokens fileBytes data = .ok s) {file : ByteBlock}
    (requests : List (Pread × List Nat)) (hserves : ∀ request ∈ requests, Serves request.1 file) :
    List.Forall₂ (Store.Answers tableBytes.toNat (maxTokens * 16) file) requests (s.lookups requests) := by
  rw [Store.openFile] at hopen
  split at hopen
  · cases hopen
  next harguments =>
    split at hopen
    · cases hopen
    · obtain rfl := Except.ok.inj hopen
      have htokens : maxTokens ≤ 1024 := Nat.le_of_not_lt fun hover => harguments (.inr (.inr hover))
      have hrows : maxTokens * 16 ≤ 1024 * 16 := Nat.mul_le_mul_right 16 htokens
      have htable : tableBytes.toNat ≤ uint64Max := Nat.le_sub_one_of_lt tableBytes.toNat_lt
      exact @Store.lookups_spec file ⟨maxTokens * 16, tableBytes.toNat, .create data⟩ (Cache.mirrors_create data file)
        hrows htable requests hserves

def countingFile : ByteBlock := fun address => UInt8.ofNat address

theorem lookups_transparent_straddling : List.Forall₂ (Store.Answers 8192 16 countingFile)
    [(fun offset _ => .ok fun i => countingFile (offset + i), [4090, 0, 4090])]
    (Store.lookups ⟨1 * 16, 8192, .create fun _ => ByteBlock.zeros⟩
      [(fun offset _ => .ok fun i => countingFile (offset + i), [4090, 0, 4090])]) := by
  have hopen : Store.openFile 8192 1 8192 (fun _ => ByteBlock.zeros) =
      .ok ⟨1 * 16, 8192, .create fun _ => ByteBlock.zeros⟩ := by
    rw [Store.openFile, if_neg (by decide), if_neg (by decide)]
    rfl
  apply lookups_transparent hopen
  intro request hrequest
  obtain rfl := mem_singleton.mp hrequest
  intro offset bytes block hread k _
  rw [← Except.ok.inj hread]

end FlashGordon.Ngram
