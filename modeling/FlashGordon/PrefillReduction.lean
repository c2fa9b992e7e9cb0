import FlashGordon.PrefillBatch

/-! The prefill reduction of a batch. Every worker of the tree admits the broadcast of its parent, hands
it to its children and streams tiles whose rows are the reduced rows of its node; the source assembles
the root's tiles into one result. The rows are sums of the routed expert outputs, each taken once. -/

namespace FlashGordon.Prefill

open Transport Shares List

section Codec

variable {Row : Type} [Zero Row] [DecidableEq Row] {finite : Row → Bool}

omit [Zero Row] [DecidableEq Row] in
theorem prefillWorkDecode_ok {work : PrefillWork} {tokenCapacity : Nat} (h : work.WellFormed)
    (hfit : work.tokenCount ≤ tokenCapacity) :
    prefillWorkDecode tokenCapacity (.work work : Message Row) = .ok work := by
  have := h.tokens_pos
  have := h.tokens_le
  have := h.pairs_pos
  have hpairs := h.pairs_le
  have := hpairs.trans (Nat.mul_le_mul_right topK hfit)
  rw [prefillWorkDecode, if_neg (by omega), h.accepted]
  rfl

omit [Zero Row] [DecidableEq Row] in
theorem prefillWorkEncode_ok {work : PrefillWork} (h : work.WellFormed) :
    prefillWorkEncode work = .ok (.work work : Message Row) := by
  rw [prefillWorkEncode, h.accepted]
  rfl

theorem prefillResultDecode_ok {result : PrefillResult Row} (h : validatePrefillResult finite result = .ok ()) :
    prefillResultDecode finite (.result result) = .ok result := by
  rw [prefillResultDecode, if_neg, h]
  · rfl
  · intro hheader
    rw [validatePrefillResult, if_pos] at h
    · cases h
    · rcases hheader with hmask | hcounts
      · exact .inr (.inr (.inr (.inl (by rw [hmask]; exact Finset.notMem_empty _))))
      · exact .inr (.inr (.inr (.inr hcounts)))

end Codec

theorem mem_tileStarts {tokenCount first : Nat} :
    first ∈ tileStarts tokenCount ↔ first < tokenCount ∧ reduceTileTokens ∣ first := by
  simp only [tileStarts, reduceTileTokens, mem_map, mem_range]
  constructor
  · rintro ⟨i, hi, rfl⟩
    exact ⟨by omega, Dvd.intro i rfl⟩
  · rintro ⟨hlt, i, rfl⟩
    exact ⟨i, by omega, rfl⟩

theorem tileTokens_pos {tokenCount first : Nat} (h : first < tokenCount) :
    0 < tileTokens tokenCount first ∧ first + tileTokens tokenCount first ≤ tokenCount := by
  unfold tileTokens reduceTileTokens
  omega

namespace Batch

variable {Row : Type} [ZeroSum Row] (batch : Batch Row)

def pairsOf (mask : Finset Nat) (token : Nat) : List PrefillPair :=
  batch.work.pairs.filter fun pair =>
    batch.fleet.manifest.pairRank batch.layer pair ∈ mask ∧ pair.tokenSlot = token

def ownRow (node token : Nat) : Row :=
  batch.fleet.device (batch.rankAt node)
    (localWork batch.fleet.manifest batch.work (batch.rankAt node)) token

def nodeRow (node token : Nat) : Row :=
  HeapTree.reduce batch.ranks.length (fun k => batch.ownRow k token) node

theorem nodeRow_sumOf {node token : Nat} (hnode : node < batch.ranks.length)
    (htoken : token < batch.routing.tokenCount) :
    SumOf batch.expertOutput (batch.pairsOf (batch.mask node) token : List PrefillPair)
      (batch.nodeRow node token) := by
  let items := batch.work.pairs.filter fun pair => pair.tokenSlot = token
  let share := fun rank => items.filter fun pair => batch.fleet.manifest.pairRank batch.layer pair = rank
  have hown : ∀ k < batch.ranks.length,
      SumOf batch.expertOutput (share (batch.rankAt k) : List PrefillPair) (batch.ownRow k token) := by
    intro k _
    refine (batch.device_sums _ _ token htoken).congr ?_
    simp only [share, items, localWork, filter_filter, Bool.and_comm]
    rfl
  refine (HeapTree.reduce_sumOf hown hnode).congr (Multiset.coe_eq_coe.mpr ?_)
  rw [← flatMap_map batch.rankAt share]
  have hnodup : ((HeapTree.below batch.ranks.length node).map batch.rankAt).Nodup :=
    List.Nodup.map_on
      (fun k hk other hother heq =>
        batch.rankAt_inj (HeapTree.lt_of_mem_below hk) (HeapTree.lt_of_mem_below hother) heq)
      (HeapTree.nodup_below _ _)
  refine (flatMap_filter_key_perm (batch.fleet.manifest.pairRank batch.layer) hnodup items).trans ?_
  rw [filter_filter, pairsOf]
  refine List.Perm.of_eq (filter_congr fun pair _ => ?_)
  rw [batch.mask_eq]
  simp [Bool.and_comm]

theorem covers_of_sums [DecidableEq Row] {finite : Row → Bool} {mask : Finset Nat} {first rank : Nat}
    {result : PrefillResult Row} (hlayer : result.layer = batch.layer) (hsource : result.sourceRank ∈ mask)
    (hlt : result.sourceRank < rankCount) (hdestination : result.destinationRank = batch.source)
    (hmask : result.contributorMask = mask)
    (hposition : result.firstPosition.toNat = batch.firstPosition.toNat + first)
    (hpos : 0 < result.tokenCount) (hle : first + result.tokenCount ≤ batch.routing.tokenCount)
    (hpairs : result.pairs.Perm (windowPairs batch.fleet.manifest batch.work mask first result.tokenCount))
    (hfinite : ∀ token < result.tokenCount, finite (result.outputs token) = true)
    (hsums : ∀ token < result.tokenCount,
      SumOf batch.expertOutput (batch.pairsOf mask (first + token) : List PrefillPair) (result.outputs token)) :
    Covers finite batch.fleet.manifest (batch.workFor rank) mask first result where
  layer_eq := hlayer
  source_mem := hsource
  source_lt := hlt
  destination_eq := hdestination
  mask_eq := hmask
  position_eq := hposition
  tokens_pos := hpos
  tokens_le := hle
  pairs_perm := hpairs
  rows_finite := hfinite
  rows_zero token htoken hidle := by
    refine (hsums token htoken).eq_zero ?_
    rw [Multiset.coe_eq_zero, pairsOf, filter_eq_nil_iff]
    intro pair hpair hmem
    rw [decide_eq_true_eq] at hmem
    exact hidle ⟨token, pair.routingSlot⟩
      (hpairs.mem_iff.mpr (mem_windowPairs.mpr ⟨htoken, pair, hpair, hmem.1, hmem.2, rfl⟩)) rfl

def place (pair : PrefillPair) : ResultPair := ⟨pair.tokenSlot, pair.routingSlot⟩

theorem windowPairs_batch (mask : Finset Nat) :
    windowPairs batch.fleet.manifest batch.work mask 0 batch.routing.tokenCount =
      (batch.work.pairs.filter fun pair =>
        batch.fleet.manifest.pairRank batch.layer pair ∈ mask).map place := by
  unfold windowPairs
  rw [filter_congr fun pair hpair => ?_]
  · rfl
  · have := batch.work_wellFormed.routed.token_lt pair hpair
    simp only [Nat.zero_le, Nat.zero_add, true_and, decide_eq_decide]
    exact ⟨And.left, fun hmem => ⟨hmem, this⟩⟩

theorem share_sumOf {rank token : Nat} {share : PrefillWork}
    (hpairs : share.pairs.Perm
      (batch.work.pairs.filter fun pair => batch.fleet.manifest.pairRank batch.layer pair = rank))
    (hcount : share.tokenCount = batch.routing.tokenCount) (htoken : token < batch.routing.tokenCount) :
    SumOf batch.expertOutput (batch.pairsOf {rank} token : List PrefillPair)
      (batch.fleet.device rank share token) := by
  refine (batch.device_sums rank share token (hcount ▸ htoken)).congr (Multiset.coe_eq_coe.mpr ?_)
  refine (hpairs.filter _).trans (List.Perm.of_eq ?_)
  rw [pairsOf, filter_filter]
  refine filter_congr fun pair _ => ?_
  simp [Bool.and_comm]

theorem share_covers [DecidableEq Row] {finite : Row → Bool} {rank : Nat} (destination : Nat)
    {share : PrefillWork} (hlt : rank < rankCount) (hlayer : share.layer = batch.layer) (hsource : share.sourceRank = batch.source)
    (hposition : share.firstPosition = batch.firstPosition) (hcount : share.tokenCount = batch.routing.tokenCount)
    (hpairs : share.pairs.Perm
      (batch.work.pairs.filter fun pair => batch.fleet.manifest.pairRank batch.layer pair = rank))
    (hfinite : ∀ token < batch.routing.tokenCount, finite (batch.fleet.device rank share token) = true) :
    Covers finite batch.fleet.manifest (batch.workFor destination) {rank} 0
      (expertResult rank share (batch.fleet.device rank share)) := by
  refine batch.covers_of_sums hlayer (Finset.mem_singleton_self rank) hlt hsource rfl ?_ ?_ ?_ ?_ ?_ ?_
  · exact congrArg UInt32.toNat hposition
  · exact batch.tokens_pos.trans_eq hcount.symm
  · exact (Nat.zero_add _).trans_le hcount.le
  · change (share.pairs.map place).Perm (windowPairs _ _ _ _ share.tokenCount)
    rw [hcount, windowPairs_batch]
    refine (hpairs.map place).trans (List.Perm.of_eq ?_)
    simp only [Finset.mem_singleton]
  · exact fun token htoken => hfinite token (hcount ▸ htoken)
  · intro token htoken
    rw [Nat.zero_add]
    exact batch.share_sumOf hpairs hcount (hcount ▸ htoken)

def sequence : UInt32 := batch.firstPosition * UInt32.ofNat layerCount + UInt32.ofNat batch.layer

def parentRank (node : Nat) : Nat := if node = 0 then batch.source else batch.rankAt (HeapTree.parent node)

def nodeFrame (node : Nat) : Frame (Message Row) :=
  ⟨batch.parentRank node, .prefillWork, batch.fleet.sessionId, batch.sequence,
    .work (batch.workFor (batch.rankAt node))⟩

def tile (node first : Nat) : PrefillResult Row where
  layer := batch.layer
  sourceRank := batch.rankAt node
  destinationRank := batch.source
  contributorMask := batch.mask node
  firstPosition := batch.firstPosition + UInt32.ofNat first
  tokenCount := tileTokens batch.routing.tokenCount first
  pairs := windowPairs batch.fleet.manifest batch.work (batch.mask node) first
    (tileTokens batch.routing.tokenCount first)
  outputs := fun token =>
    if token < tileTokens batch.routing.tokenCount first then batch.nodeRow node (first + token) else 0

def tileFrame (node first : Nat) : Frame (Message Row) :=
  ⟨batch.rankAt node, .prefillResult, batch.fleet.sessionId, batch.sequence, .result (batch.tile node first)⟩

theorem workFor_wellFormed {rank : Nat} (h : rank < rankCount) : (batch.workFor rank).WellFormed :=
  batch.work_wellFormed.readdress h

variable {node : Nat}

theorem rankAt_lt (h : node < batch.ranks.length) : batch.rankAt node < rankCount :=
  batch.lt_of_mem_ranks (batch.rankAt_mem h)

theorem position_toNat {first : Nat} (h : first < batch.routing.tokenCount) :
    (batch.firstPosition + UInt32.ofNat first).toNat = batch.firstPosition.toNat + first := by
  have hfit := batch.positions_fit
  rw [UInt32.toNat_add, UInt32.toNat_ofNat', Nat.mod_eq_of_lt (a := first) (by omega), Nat.mod_eq_of_lt (by omega)]

def sourceRow (token : Nat) : Row :=
  batch.fleet.device batch.source
    (ownWork batch.fleet.manifest batch.source batch.layer batch.firstPosition batch.routing) token

structure FiniteRows (finite : Row → Bool) : Prop where
  own : ∀ node < batch.ranks.length, ∀ token < batch.routing.tokenCount, finite (batch.ownRow node token) = true
  reduced : ∀ node < batch.ranks.length, ∀ token < batch.routing.tokenCount,
    finite (batch.nodeRow node token) = true
  source : ∀ token < batch.routing.tokenCount, finite (batch.sourceRow token) = true

section Worker

variable [DecidableEq Row] {finite : Row → Bool} {batch}

section

variable (hfinite : batch.FiniteRows finite)
include hfinite

theorem nodeTile_covers (rank : Nat) {node first : Nat}
    (hnode : node < batch.ranks.length) (hfirst : first < batch.routing.tokenCount) {outputs : Nat → Row}
    (houtputs : ∀ token < tileTokens batch.routing.tokenCount first,
      outputs token = batch.nodeRow node (first + token)) :
    Covers finite batch.fleet.manifest (batch.workFor rank) (batch.mask node) first
      { batch.tile node first with outputs := outputs } := by
  obtain ⟨hpos, hle⟩ := tileTokens_pos hfirst
  refine batch.covers_of_sums rfl (batch.rankAt_mem_mask hnode) (batch.rankAt_lt hnode) rfl rfl
    (batch.position_toNat hfirst) hpos hle (List.Perm.refl _) (fun token htoken => ?_) fun token htoken => ?_
  · dsimp only [tile] at htoken ⊢
    rw [houtputs token htoken]
    exact hfinite.reduced node hnode _ (by omega)
  · dsimp only [tile] at htoken ⊢
    rw [houtputs token htoken]
    exact batch.nodeRow_sumOf hnode (by omega)

theorem tile_covers (rank : Nat) {node first : Nat}
    (hnode : node < batch.ranks.length) (hfirst : first < batch.routing.tokenCount) :
    Covers finite batch.fleet.manifest (batch.workFor rank) (batch.mask node) first (batch.tile node first) :=
  nodeTile_covers hfinite rank hnode hfirst fun _ htoken => if_pos htoken

theorem tile_accepted {node first rank : Nat}
    (hnode : node < batch.ranks.length) (hfirst : first < batch.routing.tokenCount) (hrank : rank < rankCount) :
    validateSubset finite batch.fleet.manifest (batch.workFor rank) (batch.mask node) (batch.tile node first) =
      .ok () :=
  (tile_covers hfinite rank hnode hfirst).accepted (batch.workFor_wellFormed hrank) batch.inGroup
    (batch.contributing_mask node)

end

theorem checkTile_ok (place : String) (hfinite : batch.FiniteRows finite) {node first rank : Nat}
    (hnode : node < batch.ranks.length) (hfirst : first < batch.routing.tokenCount) (hrank : rank < rankCount) :
    checkTile finite (prefillResultDecode finite) place batch.fleet.manifest (batch.workFor rank)
      (batch.mask node) (batch.rankAt node) batch.fleet.sessionId batch.sequence first
      (batch.tileFrame node first) = .ok (batch.tile node first) := by
  have hresult := (tile_covers hfinite rank hnode hfirst).result_accepted (batch.workFor_wellFormed hrank)
  have hdecode : prefillResultDecode finite (batch.tileFrame node first).payload =
      .ok (batch.tile node first) := prefillResultDecode_ok hresult
  have hheader : ¬ ((batch.tile node first).sourceRank ≠ batch.rankAt node ∨
      (batch.tile node first).firstPosition ≠ (batch.workFor rank).firstPosition + UInt32.ofNat first ∨
      (batch.tile node first).tokenCount ≠ tileTokens (batch.workFor rank).tokenCount first) := by
    rintro (h | h | h) <;> exact h rfl
  rw [checkTile, if_neg (not_not.mpr ⟨rfl, rfl, rfl⟩), hdecode]
  dsimp only
  rw [if_neg hheader, tile_accepted hfinite hnode hfirst hrank]

omit [DecidableEq Row] in
theorem admitWork_ok (hnode : node < batch.ranks.length) :
    admitWork (batch.fleet.worker (batch.rankAt node)) (batch.nodeFrame node) =
      .ok ⟨batch.workFor (batch.rankAt node), batch.ranks, node⟩ := by
  have hindex : batch.ranks.idxOf (batch.rankAt node) = node := by
    rw [batch.rankAt_eq hnode]
    exact batch.nodup_ranks.idxOf_getElem node hnode
  have hdecode : prefillWorkDecode batch.fleet.tokenCapacity (batch.nodeFrame node).payload =
      .ok (batch.workFor (batch.rankAt node)) :=
    prefillWorkDecode_ok (batch.workFor_wellFormed (batch.rankAt_lt hnode)) batch.tokens_fit
  have howner : ¬ (batch.source ≠ 0 ∧ batch.fleet.manifest.layerOwner batch.layer ≠ batch.source) := by
    rintro ⟨hzero, hlayer⟩
    exact batch.source_owner.elim hzero hlayer
  rw [admitWork, show (batch.fleet.worker _).tokenCapacity = batch.fleet.tokenCapacity from rfl, hdecode]
  dsimp only
  rw [if_neg, show (batch.fleet.worker _).manifest = batch.fleet.manifest from rfl, batch.treeRanks_ok]
  · dsimp only
    rw [show (batch.fleet.worker (batch.rankAt node)).self = batch.rankAt node from rfl, hindex, if_neg]
    rintro (hend | hparent)
    · omega
    · exact hparent rfl
  · rintro (hsession | hrequest | hself | hsource | hsequence)
    · exact batch.session hsession
    · exact hrequest rfl
    · exact hself rfl
    · exact howner hsource
    · exact hsequence rfl

omit [DecidableEq Row] in
variable {environment : WorkerEnvironment Row}

omit [DecidableEq Row] in
theorem forwardWork_ok (hsend : ∀ rank, environment.send rank = .ok ())
    {nodes : List Nat} (hnodes : ∀ child ∈ nodes, child ∈ HeapTree.children batch.ranks.length node) :
    forwardWork (batch.fleet.worker (batch.rankAt node)) environment (batch.nodeFrame node)
      ⟨batch.workFor (batch.rankAt node), batch.ranks, node⟩ nodes =
      (nodes.map fun child => (batch.rankAt child, batch.nodeFrame child), .ok ()) := by
  induction nodes with
  | nil => rfl
  | cons child rest ih =>
    obtain ⟨hlt, hpos, hparent⟩ := HeapTree.mem_children.mp (hnodes child mem_cons_self)
    have hencode : prefillWorkEncode
        { batch.workFor (batch.rankAt node) with destinationRank := batch.ranks.getD child 0 } =
        .ok (.work (batch.workFor (batch.rankAt child)) : Message Row) :=
      prefillWorkEncode_ok (batch.workFor_wellFormed (batch.rankAt_lt hlt))
    have hframe : replyFrame (batch.fleet.worker (batch.rankAt node)) .prefillWork (batch.nodeFrame node)
        (.work (batch.workFor (batch.rankAt child))) = batch.nodeFrame child := by
      have hsender : batch.parentRank child = batch.rankAt node := by
        rw [parentRank, if_neg (by omega), hparent]
      unfold replyFrame nodeFrame
      rw [hsender]
      rfl
    rw [forwardWork]
    rw [hencode]
    dsimp only
    rw [hsend, ih (forall_mem_cons.mp hnodes).2, hframe]
    rfl

def Answered (batch : Batch Row) (environment : WorkerEnvironment Row) (node : Nat) : Prop :=
  ∀ child ∈ HeapTree.children batch.ranks.length node, ∀ index,
    index * reduceTileTokens < batch.routing.tokenCount →
      environment.arrive (batch.rankAt child) index = .ok (batch.tileFrame child (index * reduceTileTokens))

section

variable (hfinite : batch.FiniteRows finite)
include hfinite

theorem mergeChildren_ok
    {node index first : Nat} (hnode : node < batch.ranks.length) (hfirst : first < batch.routing.tokenCount)
    {nodes : List Nat} (hnodes : ∀ child ∈ nodes, child < batch.ranks.length ∧
      environment.arrive (batch.rankAt child) index = .ok (batch.tileFrame child first)) (outputs : Nat → Row) :
    ∃ merged, mergeChildren finite (batch.fleet.worker (batch.rankAt node)) environment (batch.nodeFrame node)
        ⟨batch.workFor (batch.rankAt node), batch.ranks, node⟩ index first nodes outputs = .ok merged ∧
      (∀ token < tileTokens batch.routing.tokenCount first, merged (first + token) =
        nodes.foldl (fun sum child => sum + batch.nodeRow child (first + token)) (outputs (first + token))) ∧
      ∀ token, first + tileTokens batch.routing.tokenCount first ≤ token → merged token = outputs token := by
  induction nodes generalizing outputs with
  | nil => exact ⟨outputs, rfl, fun _ _ => rfl, fun _ _ => rfl⟩
  | cons child rest ih =>
    obtain ⟨hlt, harrive⟩ := hnodes child mem_cons_self
    obtain ⟨merged, hmerged, hinside, hbeyond⟩ :=
      ih (forall_mem_cons.mp hnodes).2
        (mergeTile first (batch.tile child first) outputs)
    refine ⟨merged, ?_, fun token htoken => ?_, fun token htoken => ?_⟩
    · rw [mergeChildren]
      rw [show batch.ranks.getD child 0 = batch.rankAt child from rfl, harrive]
      dsimp only
      have hcheck : checkTile finite (prefillResultDecode finite) "subtree"
          (batch.fleet.worker (batch.rankAt node)).manifest (batch.workFor (batch.rankAt node))
          (prefillSubtreeMask batch.ranks child) (batch.rankAt child) (batch.nodeFrame node).requestId
          (batch.nodeFrame node).sequence first (batch.tileFrame child first) = .ok (batch.tile child first) :=
        checkTile_ok "subtree" hfinite hlt hfirst (batch.rankAt_lt hnode)
      rw [hcheck]
      exact hmerged
    · rw [hinside token htoken, foldl_cons]
      have hrow : (batch.tile child first).outputs token = batch.nodeRow child (first + token) := if_pos htoken
      rw [mergeTile, if_pos ⟨Nat.le_add_right _ _, Nat.add_lt_add_left htoken first⟩, Nat.add_sub_cancel_left, hrow]
    · rw [hbeyond token htoken, mergeTile, if_neg fun h => absurd h.2 (not_lt.mpr htoken)]

theorem encodeTile_ok {node first : Nat} (hnode : node < batch.ranks.length)
    (hfirst : first < batch.routing.tokenCount) {outputs : Nat → Row}
    (houtputs : ∀ token < tileTokens batch.routing.tokenCount first,
      outputs (first + token) = batch.nodeRow node (first + token)) :
    prefillResultEncode finite (nodeTile (batch.fleet.worker (batch.rankAt node))
      ⟨batch.workFor (batch.rankAt node), batch.ranks, node⟩ first outputs) =
      .ok (.result (batch.tile node first)) := by
  have hcovers := nodeTile_covers hfinite (batch.rankAt node) hnode hfirst houtputs
  have hvalid : validatePrefillResult finite (nodeTile (batch.fleet.worker (batch.rankAt node))
      ⟨batch.workFor (batch.rankAt node), batch.ranks, node⟩ first outputs) = .ok () :=
    hcovers.result_accepted (batch.workFor_wellFormed (batch.rankAt_lt hnode))
  have hrows : (fun token => if token < tileTokens batch.routing.tokenCount first then outputs (first + token)
      else 0) = (batch.tile node first).outputs := by
    funext token
    by_cases htoken : token < tileTokens batch.routing.tokenCount first
    · simp only [tile, if_pos htoken, houtputs token htoken]
    · simp only [tile, if_neg htoken]
  rw [prefillResultEncode, hvalid]
  exact congrArg (fun rows => Except.ok (Message.result { batch.tile node first with outputs := rows })) hrows

theorem sendTiles_ok (hsend : ∀ rank, environment.send rank = .ok ()) (hnode : node < batch.ranks.length)
    (hanswered : Answered batch environment node) (count index : Nat)
    (hcount : ∀ i < count, (index + i) * reduceTileTokens < batch.routing.tokenCount) (outputs : Nat → Row)
    (houtputs : ∀ token, index * reduceTileTokens ≤ token → outputs token = batch.ownRow node token) :
    sendTiles finite (batch.fleet.worker (batch.rankAt node)) environment (batch.nodeFrame node)
        ⟨batch.workFor (batch.rankAt node), batch.ranks, node⟩ index
        ((List.range' index count).map (reduceTileTokens * ·)) outputs =
      (((List.range' index count).map (reduceTileTokens * ·)).map (batch.tileFrame node), .ok ()) := by
  induction count generalizing index outputs with
  | zero => rfl
  | succ count ih =>
    have hfirst : reduceTileTokens * index < batch.routing.tokenCount := by
      rw [Nat.mul_comm]
      exact hcount 0 (Nat.succ_pos count)
    obtain ⟨merged, hmerged, hinside, hbeyond⟩ := mergeChildren_ok hfinite hnode hfirst
      (fun child (hchild : child ∈ HeapTree.children batch.ranks.length node) => ⟨(HeapTree.mem_children.mp hchild).1, by
        rw [Nat.mul_comm] at hfirst ⊢
        exact hanswered child hchild index hfirst⟩) outputs
    have hrows : ∀ token < tileTokens batch.routing.tokenCount (reduceTileTokens * index),
        merged (reduceTileTokens * index + token) =
          batch.nodeRow node (reduceTileTokens * index + token) := by
      intro token htoken
      rw [hinside token htoken, houtputs _ (by rw [Nat.mul_comm]; exact Nat.le_add_right _ _), nodeRow,
        HeapTree.reduce_eq]
      rfl
    have hencode := encodeTile_ok hfinite hnode hfirst hrows
    rw [List.range'_succ, map_cons, sendTiles]
    rw [hmerged]
    dsimp only
    rw [hencode]
    rw [hsend, ih (index + 1) (fun i hi => by rw [Nat.add_assoc, Nat.add_comm 1]; exact hcount (i + 1) (by omega))
      merged fun token htoken => ?_]
    · rfl
    · rw [hbeyond token, houtputs token (by unfold reduceTileTokens at htoken ⊢; omega)]
      unfold tileTokens reduceTileTokens at *
      omega

theorem reduceSubtree_ok (hsend : ∀ rank, environment.send rank = .ok ())
    (hdevice : ∀ work, environment.expertPrefill work = .ok (batch.fleet.device (batch.rankAt node) work))
    (hnode : node < batch.ranks.length) (hanswered : Answered batch environment node) :
    reduceSubtree finite (batch.fleet.worker (batch.rankAt node)) environment (batch.nodeFrame node)
        ⟨batch.workFor (batch.rankAt node), batch.ranks, node⟩ =
      ((tileStarts batch.routing.tokenCount).map (batch.tileFrame node), .ok ()) := by
  have hrank := batch.rankAt_lt hnode
  have hcovers := batch.share_covers (batch.rankAt node) hrank rfl rfl rfl rfl (List.Perm.refl _)
    (hfinite.own node hnode)
  have hcontributing : Contributing batch.fleet.manifest batch.work {batch.rankAt node} := fun rank hmem =>
    (batch.mem_ranks.mp (Finset.mem_singleton.mp hmem ▸ batch.rankAt_mem hnode)).2
  have hvalid := hcovers.accepted (batch.workFor_wellFormed hrank) batch.inGroup hcontributing
  have hstarts : tileStarts batch.routing.tokenCount = (List.range' 0
      ((batch.routing.tokenCount + reduceTileTokens - 1) / reduceTileTokens)).map (reduceTileTokens * ·) := by
    rw [tileStarts, range_eq_range']
  have hsent := sendTiles_ok hfinite hsend hnode hanswered
    ((batch.routing.tokenCount + reduceTileTokens - 1) / reduceTileTokens) 0
    (fun i hi => by unfold reduceTileTokens at *; omega) (batch.ownRow node) fun _ _ => rfl
  rw [← hstarts] at hsent
  rw [reduceSubtree]
  rw [hdevice]
  dsimp only
  split
  next err hrefused =>
    exact absurd (hrefused.symm.trans hvalid) (by simp)
  · exact hsent

theorem handle_ok (hsend : ∀ rank, environment.send rank = .ok ())
    (hdevice : ∀ work, environment.expertPrefill work = .ok (batch.fleet.device (batch.rankAt node) work))
    (hnode : node < batch.ranks.length) (hanswered : Answered batch environment node) :
    handlePrefillExpertWork finite (batch.fleet.worker (batch.rankAt node)) environment (batch.nodeFrame node) =
      ⟨(HeapTree.children batch.ranks.length node).map fun child => (batch.rankAt child, batch.nodeFrame child),
        (tileStarts batch.routing.tokenCount).map (batch.tileFrame node), .ok ()⟩ := by
  rw [handlePrefillExpertWork, admitWork_ok hnode]
  dsimp only
  rw [forwardWork_ok hsend fun _ h => h]
  rw [reduceSubtree_ok hfinite hsend hdevice hnode hanswered]

end

theorem handle_forwards (hsend : ∀ rank, environment.send rank = .ok ()) (hnode : node < batch.ranks.length) :
    (handlePrefillExpertWork finite (batch.fleet.worker (batch.rankAt node)) environment
        (batch.nodeFrame node)).forwards =
      (HeapTree.children batch.ranks.length node).map fun child =>
        (batch.rankAt child, batch.nodeFrame child) := by
  rw [handlePrefillExpertWork, admitWork_ok hnode]
  dsimp only
  rw [forwardWork_ok hsend fun _ h => h]

omit [DecidableEq Row] in
theorem lookup_forward {nodes : List Nat} {child : Nat} (hnodes : ∀ k ∈ nodes, k < batch.ranks.length)
    (hchild : child ∈ nodes) :
    (nodes.map fun k => (batch.rankAt k, batch.nodeFrame k)).lookup (batch.rankAt child) =
      some (batch.nodeFrame child) := by
  induction nodes with
  | nil => exact absurd hchild not_mem_nil
  | cons k rest ih =>
    rw [map_cons, lookup_cons]
    split
    next heq =>
      have := batch.rankAt_inj (hnodes child hchild) (hnodes k mem_cons_self) (by simpa using heq)
      rw [this]
    next heq =>
      refine ih (forall_mem_cons.mp hnodes).2 ?_
      rcases mem_cons.mp hchild with rfl | hrest
      · simp at heq
      · exact hrest

omit [DecidableEq Row] in
theorem channel_tiles {node index : Nat} (h : index * reduceTileTokens < batch.routing.tokenCount) :
    channel ((tileStarts batch.routing.tokenCount).map (batch.tileFrame node)) index =
      .ok (batch.tileFrame node (index * reduceTileTokens)) := by
  have hindex : index < (batch.routing.tokenCount + reduceTileTokens - 1) / reduceTileTokens := by
    unfold reduceTileTokens at *
    omega
  rw [channel, List.getElem?_map, tileStarts, List.getElem?_map, List.getElem?_range hindex, Nat.mul_comm]
  rfl

theorem runWorker_ok (hfinite : batch.FiniteRows finite) {depth node : Nat} (hnode : node < batch.ranks.length)
    (hdepth : batch.ranks.length ≤ node + depth) :
    runWorker finite batch.fleet depth (batch.rankAt node) (batch.nodeFrame node) =
      ⟨(HeapTree.children batch.ranks.length node).map fun child => (batch.rankAt child, batch.nodeFrame child),
        (tileStarts batch.routing.tokenCount).map (batch.tileFrame node), .ok ()⟩ := by
  induction depth generalizing node with
  | zero => omega
  | succ depth ih =>
    rw [runWorker, handle_forwards (fun _ => rfl) hnode]
    refine handle_ok hfinite (fun _ => rfl) (fun _ => rfl) hnode fun child hchild index hindex => ?_
    obtain ⟨hlt, hpos, hparent⟩ := HeapTree.mem_children.mp hchild
    unfold HeapTree.parent at hparent
    dsimp only
    rw [lookup_forward (fun k hk => (HeapTree.mem_children.mp hk).1) hchild]
    dsimp only
    rw [ih hlt (by omega)]
    exact channel_tiles hindex

theorem deliveries_eq {depth node : Nat} (hnode : node < batch.ranks.length)
    (hdepth : batch.ranks.length ≤ node + depth) :
    deliveries finite batch.fleet depth (batch.rankAt node) (batch.nodeFrame node) =
      (HeapTree.below batch.ranks.length node).map fun k => (batch.rankAt k, batch.nodeFrame k) := by
  induction depth generalizing node with
  | zero => omega
  | succ depth ih =>
    rw [deliveries, runWorker, handle_forwards (fun _ => rfl) hnode, HeapTree.below_eq_flatMap hnode,
      map_cons, map_flatMap, flatMap_map]
    congr 1
    refine flatMap_congr fun child hchild => ?_
    obtain ⟨hlt, hpos, hparent⟩ := HeapTree.mem_children.mp hchild
    unfold HeapTree.parent at hparent
    exact ih hlt (by omega)

end Worker

end Batch

end FlashGordon.Prefill
