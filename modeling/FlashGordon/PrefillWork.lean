import Mathlib.Data.Finset.Basic
import FlashGordon.Binary32
import FlashGordon.Status

/-! Prefill expert work and results, their validators (`protocol.c`), the part of the topology they read
(`topology.c`) and the shape of the reduction tree (`runtime.c`). An output row is a value of any type
with a zero and an addition; `finite` is what `isfinite` answers for all its elements. A contributor mask
is the set of its ranks. -/

namespace FlashGordon.Prefill

def expertCount : Nat := 512

def expertsPerRank : Nat := 128

def groupSize : Nat := 4

def topK : Nat := 10

def prefillMaxTokens : Nat := 512

/-- `FG_PREFILL_REDUCE_TILE_TOKENS`. -/
def reduceTileTokens : Nat := 16

structure Manifest where
  layerOwner : Nat → Nat
  layerGroups : Nat → Fin 4 → Nat
  expertRank : Nat → Nat → Nat

/-- `fg_topology_rank_in_layer`. -/
def rankInLayer (manifest : Manifest) (layer rank : Nat) : Bool :=
  layer < layerCount ∧ rank < rankCount ∧ ∃ i, manifest.layerGroups layer i = rank

structure PrefillPair where
  tokenSlot : Nat
  expertId : Nat
  routingSlot : Nat
  gate : Binary32
  deriving DecidableEq

structure PrefillWork where
  layer : Nat
  sourceRank : Nat
  destinationRank : Nat
  firstPosition : UInt32
  tokenCount : Nat
  pairs : List PrefillPair

structure ResultPair where
  tokenSlot : Nat
  routingSlot : Nat
  deriving DecidableEq

structure PrefillResult (Row : Type) where
  layer : Nat
  sourceRank : Nat
  destinationRank : Nat
  contributorMask : Finset Nat
  firstPosition : UInt32
  tokenCount : Nat
  pairs : List ResultPair
  outputs : Nat → Row

def Manifest.pairRank (manifest : Manifest) (layer : Nat) (pair : PrefillPair) : Nat :=
  manifest.expertRank layer pair.expertId

/-- The pair loop of `validate_prefill_work`, with the pairs already passed. -/
def checkWorkPairs (tokenCount : Nat) : List PrefillPair → List PrefillPair → Except Error Unit
  | _, [] => .ok ()
  | before, pair :: rest =>
    let i := before.length
    let token := pair.tokenSlot
    if tokenCount ≤ pair.tokenSlot ∨ expertCount ≤ pair.expertId ∨ topK ≤ pair.routingSlot ∨
        pair.gate.isFinite = false then
      .error ⟨.format, s!"invalid prefill route pair {i}"⟩
    else if before.any fun other => other.tokenSlot = pair.tokenSlot ∧
        (other.routingSlot = pair.routingSlot ∨ other.expertId = pair.expertId) then
      .error ⟨.format, s!"duplicate prefill route for token {token}"⟩
    else checkWorkPairs tokenCount (before ++ [pair]) rest

def validatePrefillWork (work : PrefillWork) : Except Error Unit :=
  if layerCount ≤ work.layer ∨ rankCount ≤ work.sourceRank ∨ rankCount ≤ work.destinationRank ∨
      work.tokenCount = 0 ∨ prefillMaxTokens < work.tokenCount ∨ work.pairs.length = 0 ∨
      work.tokenCount * topK < work.pairs.length then
    .error ⟨.format, "invalid prefill work header"⟩
  else checkWorkPairs work.tokenCount [] work.pairs

/-- The pair loop of `validate_prefill_result`. -/
def checkResultPairs (tokenCount : Nat) : List ResultPair → List ResultPair → Except Error Unit
  | _, [] => .ok ()
  | before, pair :: rest =>
    let i := before.length
    if tokenCount ≤ pair.tokenSlot ∨ topK ≤ pair.routingSlot ∨ pair ∈ before then
      .error ⟨.format, s!"invalid prefill result pair {i}"⟩
    else checkResultPairs tokenCount (before ++ [pair]) rest

section Results

variable {Row : Type} [Zero Row] [DecidableEq Row] (finite : Row → Bool)

/-- The row loop of `validate_prefill_result`: finite, and zero for a token without a pair. -/
def checkRows (result : PrefillResult Row) : List Nat → Except Error Unit
  | [] => .ok ()
  | token :: rest =>
    let present := result.pairs.any fun pair => pair.tokenSlot = token
    if finite (result.outputs token) = false ∨ (present = false ∧ result.outputs token ≠ 0) then
      .error ⟨.format, s!"invalid shard sum token {token}"⟩
    else checkRows result rest

def validatePrefillResult (result : PrefillResult Row) : Except Error Unit :=
  if layerCount ≤ result.layer ∨ rankCount ≤ result.sourceRank ∨ rankCount ≤ result.destinationRank ∨
      result.sourceRank ∉ result.contributorMask ∨ result.tokenCount = 0 ∨
      prefillMaxTokens < result.tokenCount ∨ result.tokenCount * topK < result.pairs.length then
    .error ⟨.format, "invalid prefill result header"⟩
  else match checkResultPairs result.tokenCount [] result.pairs with
    | .error err => .error err
    | .ok () => checkRows finite result (List.range result.tokenCount)

/-- The (token, slot) pairs of the work that fall to the ranks of `mask` inside a window of tokens,
counted from the window's first token. -/
def windowPairs (manifest : Manifest) (work : PrefillWork) (mask : Finset Nat) (first tokens : Nat) :
    List ResultPair :=
  (work.pairs.filter fun pair => manifest.pairRank work.layer pair ∈ mask ∧ first ≤ pair.tokenSlot ∧
    pair.tokenSlot < first + tokens).map fun pair => ⟨pair.tokenSlot - first, pair.routingSlot⟩

/-- The last loop of `fg_prefill_result_validate_subset`: every pair is still expected. -/
def matchPairs : List ResultPair → List ResultPair → Except Error Unit
  | _, [] => .ok ()
  | expected, pair :: rest =>
    if pair ∈ expected then matchPairs (expected.filter (· ≠ pair)) rest
    else .error ⟨.mismatch, "wrong prefill subtree route"⟩

/-- `fg_prefill_result_validate_subset`. -/
def validateSubset (manifest : Manifest) (work : PrefillWork) (mask : Finset Nat)
    (result : PrefillResult Row) : Except Error Unit :=
  if mask = ∅ then .error ⟨.argument, "invalid prefill subtree validation"⟩
  else match validatePrefillWork work with
    | .error err => .error err
    | .ok () =>
      match validatePrefillResult finite result with
      | .error err => .error err
      | .ok () =>
        if result.layer ≠ work.layer ∨ result.firstPosition < work.firstPosition ∨
            work.firstPosition.toNat + work.tokenCount <
              result.firstPosition.toNat + result.tokenCount ∨
            result.destinationRank ≠ work.sourceRank ∨ result.contributorMask ≠ mask then
          .error ⟨.mismatch, "stale or wrong-subtree prefill sum"⟩
        else
          let first := result.firstPosition.toNat - work.firstPosition.toNat
          let expected := windowPairs manifest work mask first result.tokenCount
          let observed := (work.pairs.map (manifest.pairRank work.layer)).toFinset ∩ mask
          if ∃ pair ∈ work.pairs,
              rankInLayer manifest work.layer (manifest.pairRank work.layer pair) = false then
            .error ⟨.mismatch, "prefill contributor outside layer group"⟩
          else if observed ≠ mask ∨ expected.length ≠ result.pairs.length then
            .error ⟨.mismatch, "missing prefill subtree contributions"⟩
          else matchPairs expected result.pairs

end Results

def activeRanks (manifest : Manifest) (work : PrefillWork) : List Nat :=
  (List.range rankCount).filter fun rank =>
    rank ≠ work.sourceRank ∧ ∃ pair ∈ work.pairs, manifest.pairRank work.layer pair = rank

def prefillTreeRanks (manifest : Manifest) (work : PrefillWork) : Except Error (List Nat) :=
  if work.pairs.length ≠ work.tokenCount * topK then
    .error ⟨.mismatch, "broadcast requires the complete routing list"⟩
  else if ∃ pair ∈ work.pairs,
      rankInLayer manifest work.layer (manifest.pairRank work.layer pair) = false then
    .error ⟨.mismatch, "broadcast route outside layer group"⟩
  else if groupSize < (activeRanks manifest work).length then
    .error ⟨.mismatch, "too many broadcast participants"⟩
  else .ok (activeRanks manifest work)

theorem prefillTreeRanks_ok {manifest : Manifest} {work : PrefillWork} {ranks : List Nat}
    (h : prefillTreeRanks manifest work = .ok ranks) : activeRanks manifest work = ranks := by
  unfold prefillTreeRanks at h
  split_ifs at h
  exact Except.ok.inj h

/-- `prefill_subtree_mask`: the ranks below a node of the heap, itself included. -/
def prefillSubtreeMask (ranks : List Nat) (node : Nat) : Finset Nat :=
  if h : node < ranks.length then
    insert (ranks.get ⟨node, h⟩)
      (prefillSubtreeMask ranks (2 * node + 1) ∪ prefillSubtreeMask ranks (2 * node + 2))
  else ∅
termination_by ranks.length - node

def tileStarts (tokenCount : Nat) : List Nat :=
  (List.range ((tokenCount + reduceTileTokens - 1) / reduceTileTokens)).map (reduceTileTokens * ·)

/-- The tokens of the tile that starts at `first`. -/
def tileTokens (tokenCount first : Nat) : Nat := min (tokenCount - first) reduceTileTokens

end FlashGordon.Prefill
