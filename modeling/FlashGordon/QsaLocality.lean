import FlashGordon.WirePages

/-! The QSA locality tracker (`qsa_locality.c`). The pages seen so far are the nodes of a treap, in arrays, whose keys
are the times of the last access. The distance of an access is the number of nodes that were accessed later than its
page. A walk down the treap has fuel for every node there can be. -/

namespace FlashGordon.QsaLocality

/-- `FG_QSA_LOCALITY_LAYER_COUNT`. -/
def localityLayerCount : Nat := 12

/-- `FG_QSA_MAX_SELECTED_BLOCKS`. -/
def maxSelectedBlocks : Nat := 512

def mix64 (value : UInt64) : UInt64 :=
  let value := value ^^^ (value >>> 30)
  let value := value * 0xbf58476d1ce4e5b9
  let value := value ^^^ (value >>> 27)
  let value := value * 0x94d049bb133111eb
  value ^^^ (value >>> 31)

structure Nodes where
  left : Nat → Nat
  right : Nat → Nat
  subtree : Nat → Nat
  lastAccess : Nat → Nat

namespace Nodes

def nodeSize (t : Nodes) (node : Nat) : Nat := if node = 0 then 0 else t.subtree node

def updateSize (t : Nodes) (node : Nat) : Nodes :=
  { t with subtree := Function.update t.subtree node (1 + t.nodeSize (t.left node) + t.nodeSize (t.right node)) }

def setLeft (t : Nodes) (node child : Nat) : Nodes := { t with left := Function.update t.left node child }

def setRight (t : Nodes) (node child : Nat) : Nodes := { t with right := Function.update t.right node child }

end Nodes

section Treap

variable (priority : Nat → UInt64)

def mergeNodes : Nat → Nodes → Nat → Nat → Option (Nodes × Nat)
  | 0, _, _, _ => none
  | fuel + 1, t, left, right =>
    if left = 0 then some (t, right)
    else if right = 0 then some (t, left)
    else if priority right < priority left then do
      let (t, child) ← mergeNodes fuel t (t.right left) right
      some ((t.setRight left child).updateSize left, left)
    else do
      let (t, child) ← mergeNodes fuel t left (t.left right)
      some ((t.setLeft right child).updateSize right, right)

/-- `split_nodes`: the nodes with smaller keys, and the others. -/
def splitNodes (key : Nat) : Nat → Nodes → Nat → Option (Nodes × Nat × Nat)
  | 0, _, _ => none
  | fuel + 1, t, root =>
    if root = 0 then some (t, 0, 0)
    else if t.lastAccess root < key then do
      let (t, left, right) ← splitNodes key fuel t (t.right root)
      some ((t.setRight root left).updateSize root, root, right)
    else do
      let (t, left, right) ← splitNodes key fuel t (t.left root)
      some ((t.setLeft root right).updateSize root, left, root)

def insertNode : Nat → Nodes → Nat → Nat → Option (Nodes × Nat)
  | 0, _, _, _ => none
  | fuel + 1, t, root, node =>
    if root = 0 then some (t, node)
    else if priority root < priority node then do
      let (t, left, right) ← splitNodes (t.lastAccess node) (fuel + 1) t root
      some (((t.setLeft node left).setRight node right).updateSize node, node)
    else if t.lastAccess node < t.lastAccess root then do
      let (t, child) ← insertNode fuel t (t.left root) node
      some ((t.setLeft root child).updateSize root, root)
    else do
      let (t, child) ← insertNode fuel t (t.right root) node
      some ((t.setRight root child).updateSize root, root)

def eraseNode : Nat → Nodes → Nat → Nat → Option (Nodes × Nat)
  | 0, _, _, _ => none
  | fuel + 1, t, root, key =>
    if root = 0 then some (t, 0)
    else if t.lastAccess root = key then mergeNodes priority (fuel + 1) t (t.left root) (t.right root)
    else if key < t.lastAccess root then do
      let (t, child) ← eraseNode fuel t (t.left root) key
      some ((t.setLeft root child).updateSize root, root)
    else do
      let (t, child) ← eraseNode fuel t (t.right root) key
      some ((t.setRight root child).updateSize root, root)

def newerNodes : Nat → Nodes → Nat → Nat → Option Nat
  | 0, _, _, _ => none
  | fuel + 1, t, root, key =>
    if root = 0 then some 0
    else if key < t.lastAccess root then do
      let newer ← newerNodes fuel t (t.left root) key
      some (1 + t.nodeSize (t.right root) + newer)
    else newerNodes fuel t (t.right root) key

end Treap

/-- What `fg_qsa_locality_create` fixes. -/
structure Config where
  maxBlocks : Nat
  hotTokens : Nat
  budgetMib : List Nat
  digestKey : UInt64

def Config.key (config : Config) : UInt64 := if config.digestKey = 0 then 0x6a09e667f3bcc909 else config.digestKey

/-- The counters of `fg_qsa_locality_stats` that a selection changes. -/
structure Stats where
  selections : Nat
  selectedRefs : Nat
  uniquePages : Nat
  dedupPages : Nat
  hotTailHits : Nat
  coldRefs : Nat
  previousOverlap : Nat
  firstColdRefs : Nat
  reusedColdRefs : Nat
  reuseDistanceSum : Nat
  reuseDistanceMax : Nat
  selectionDigest : UInt64
  budgetHits : List Nat
  budgetMisses : List Nat

/-- `fg_qsa_locality_layer`. -/
structure Layer where
  selections : Nat
  selectedRefs : Nat
  uniquePages : Nat
  dedupPages : Nat
  hotTailHits : Nat
  coldRefs : Nat
  previousOverlap : Nat
  previous : List Nat

/-- `fg_qsa_locality`. -/
structure Tracker where
  nodes : Nodes
  root : Nat
  clock : Nat
  generation : UInt32
  seen : Nat → UInt32
  stats : Stats
  layers : Nat → Layer

def Config.nodePriority (config : Config) (node : Nat) : UInt64 :=
  mix64 (config.key ^^^ (UInt64.ofNat node * 0x9e3779b97f4a7c15))

def Config.fuel (config : Config) : Nat := localityLayerCount * config.maxBlocks + 1

def capacityPages (budgetMib : Nat) : Nat := budgetMib * 1024 * 1024 / Wire.pageRecordBytes

def Config.node (config : Config) (slot block : Nat) : Nat := slot * config.maxBlocks + block + 1

/-- An access: its node, and the distance if the page was seen before. -/
structure Access where
  node : Nat
  distance : Option Nat

def addHit (hit : Bool) (count : Nat) : Nat := if hit then count + 1 else count

/-- The first half of `record_reuse`: the distance of a page that was seen before, and the treap without it. -/
def takeOut (config : Config) (s : Tracker) (node : Nat) : Option (Nodes × Nat × Option Nat) :=
  let previous := s.nodes.lastAccess node
  if previous ≠ 0 then do
    let distance ← newerNodes config.fuel s.nodes s.root previous
    let (nodes, root) ← eraseNode config.nodePriority config.fuel s.nodes s.root previous
    some (nodes, root, some distance)
  else some (s.nodes, s.root, none)

def recordReuse (config : Config) (s : Tracker) (node : Nat) : Option (Tracker × Access) := do
  let (nodes, root, distance) ← takeOut config s node
  let clock := s.clock + 1
  let nodes : Nodes :=
    { left := Function.update nodes.left node 0
      right := Function.update nodes.right node 0
      subtree := Function.update nodes.subtree node 1
      lastAccess := Function.update nodes.lastAccess node clock }
  let (nodes, root) ← insertNode config.nodePriority config.fuel nodes root node
  let hit (budget : Nat) : Bool := distance.any fun d => d < capacityPages budget
  let stats : Stats := { s.stats with
    reusedColdRefs := s.stats.reusedColdRefs + if distance.isSome then 1 else 0
    firstColdRefs := s.stats.firstColdRefs + if distance.isSome then 0 else 1
    budgetHits := List.zipWith (fun budget count => addHit (hit budget) count) config.budgetMib s.stats.budgetHits
    budgetMisses := List.zipWith (fun budget count => addHit (!hit budget) count) config.budgetMib s.stats.budgetMisses }
  some ({ s with nodes, root, clock, stats }, ⟨node, distance⟩)

def layerSlot (layer : Nat) : Option Nat := if layer < layerCount ∧ layer % 4 = 3 then some (layer / 4) else none

structure Selected where
  seen : Nat → UInt32
  pages : List Nat
  dedup : Nat

def Selected.turn (maxBlocks : Nat) (generation : UInt32) (acc : Selected) (block : Nat) : Selected :=
  if maxBlocks ≤ block then acc
  else if acc.seen block = generation then { acc with dedup := acc.dedup + 1 }
  else { acc with seen := Function.update acc.seen block generation, pages := acc.pages ++ [block] }

/-- `previous_overlap`. -/
def overlap (previous pages : List Nat) : Nat := pages.countP fun page => page ∈ previous

/-- What the loop over the selected pages carries. -/
structure Recording where
  tracker : Tracker
  accesses : List Access
  digest : UInt64
  index : Nat
  hot : Nat
  cold : Nat
  distanceSum : Nat
  distanceMax : Nat

def Recording.start (tracker : Tracker) (digest : UInt64) : Recording := ⟨tracker, [], digest, 0, 0, 0, 0, 0⟩

def Config.retainedFirst (config : Config) (tokens : Nat) : Nat :=
  if config.hotTokens < tokens then tokens - config.hotTokens else 0

def Recording.turn (config : Config) (slot tokens : Nat) (acc : Recording) (block : Nat) : Option Recording :=
  let digest := mix64 (acc.digest ^^^
    mix64 (config.key + UInt64.ofNat block + UInt64.ofNat acc.index * 0x9e3779b97f4a7c15))
  let acc := { acc with digest, index := acc.index + 1 }
  if config.retainedFirst tokens ≤ block * QsaOwner.compressRatio then some { acc with hot := acc.hot + 1 }
  else do
    let (tracker, access) ← recordReuse config acc.tracker (config.node slot block)
    some { acc with
      tracker
      accesses := acc.accesses ++ [access]
      cold := acc.cold + 1
      distanceSum := acc.distanceSum + access.distance.getD 0
      distanceMax := max acc.distanceMax (access.distance.getD 0) }

def Tracker.nextGeneration (s : Tracker) : UInt32 × (Nat → UInt32) :=
  if s.generation + 1 = 0 then (1, fun _ => 0) else (s.generation + 1, s.seen)

/-- `fg_qsa_locality_record_selection`, with the accesses that it recorded. -/
def recordSelection (config : Config) (s : Tracker) (layer tokens : Nat) (pageIds : List Nat) :
    Option (Tracker × List Access) :=
  match layerSlot layer with
  | none => some (s, [])
  | some slot =>
    if maxSelectedBlocks < pageIds.length then some (s, [])
    else do
      let (generation, seen) := s.nextGeneration
      let selected := pageIds.foldl (Selected.turn config.maxBlocks generation) ⟨seen, [], 0⟩
      let start := Recording.start { s with generation, seen := selected.seen }
        (mix64 (config.key ^^^ (UInt64.ofNat layer <<< 32) ^^^ UInt64.ofNat tokens))
      let done ← selected.pages.foldlM (Recording.turn config slot tokens) start
      let common := overlap (s.layers slot).previous selected.pages
      let stats := done.tracker.stats
      let layerStats := done.tracker.layers slot
      some ({ done.tracker with
        stats := { stats with
          selections := stats.selections + 1
          selectedRefs := stats.selectedRefs + pageIds.length
          uniquePages := stats.uniquePages + selected.pages.length
          dedupPages := stats.dedupPages + selected.dedup
          hotTailHits := stats.hotTailHits + done.hot
          coldRefs := stats.coldRefs + done.cold
          previousOverlap := stats.previousOverlap + common
          reuseDistanceSum := stats.reuseDistanceSum + done.distanceSum
          reuseDistanceMax := max stats.reuseDistanceMax done.distanceMax
          selectionDigest := mix64 (stats.selectionDigest ^^^ done.digest) }
        layers := Function.update done.tracker.layers slot
          { selections := layerStats.selections + 1
            selectedRefs := layerStats.selectedRefs + pageIds.length
            uniquePages := layerStats.uniquePages + selected.pages.length
            dedupPages := layerStats.dedupPages + selected.dedup
            hotTailHits := layerStats.hotTailHits + done.hot
            coldRefs := layerStats.coldRefs + done.cold
            previousOverlap := layerStats.previousOverlap + common
            previous := selected.pages } }, done.accesses)

def Tracker.zero (config : Config) : Tracker where
  nodes := ⟨fun _ => 0, fun _ => 0, fun _ => 0, fun _ => 0⟩
  root := 0
  clock := 0
  generation := 0
  seen := fun _ => 0
  stats := ⟨0, 0, 0, 0, 0, 0, 0, 0, 0, 0, 0, 0, config.budgetMib.map fun _ => 0, config.budgetMib.map fun _ => 0⟩
  layers := fun _ => ⟨0, 0, 0, 0, 0, 0, 0, []⟩

/-- `FG_QSA_LOCALITY_MAX_BUDGETS`. -/
def maxBudgets : Nat := 8

/-- `fg_qsa_locality_create`. -/
def create (config : Config) : Option Tracker :=
  if config.maxBlocks = 0 ∨ config.hotTokens = 0 ∨ config.hotTokens % QsaOwner.compressRatio ≠ 0 ∨ config.budgetMib = [] ∨
      maxBudgets < config.budgetMib.length ∨ 2 ^ 32 - 1 ≤ localityLayerCount * config.maxBlocks then none
  else some (.zero config)

/-- A call of `fg_qsa_locality_record_selection`. -/
structure Selection where
  layer : Nat
  tokens : Nat
  pageIds : List Nat

/-- A tracker and what it recorded so far. -/
structure System where
  tracker : Tracker
  accesses : List Access

def step (config : Config) (s : System) (selection : Selection) : Option System :=
  (recordSelection config s.tracker selection.layer selection.tokens selection.pageIds).map fun (tracker, accesses) =>
    ⟨tracker, s.accesses ++ accesses⟩

end FlashGordon.QsaLocality
