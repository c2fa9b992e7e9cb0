import FlashGordon.QsaLocalityTree
import FlashGordon.StackDistance

/-! The tracker measures stack distances. After every sequence of selections the treap holds the stack of the
recorded references, the last used last, so that the number of later nodes is the distance of a page, and the hits of
each budget are those of a cache of its size. -/

namespace FlashGordon.QsaLocality

open StackDistance Function List

variable {t : Nodes} {l : List Nat}

theorem newer_eq_idxOf {x : Nat} (hsorted : Sorted t l.reverse) (hmem : x ∈ l) :
    (l.reverse.filter fun m => t.lastAccess x < t.lastAccess m).length = l.idxOf x := by
  have hnodup : l.Nodup := nodup_reverse.mp hsorted.nodup
  obtain ⟨above, below, rfl⟩ := append_of_mem hmem
  have hnot : x ∉ above := fun hin => (nodup_append.mp hnodup).2.2 x hin x mem_cons_self rfl
  rw [reverse_append, reverse_cons, append_assoc, singleton_append] at hsorted ⊢
  obtain ⟨_, _, hbelow, habove⟩ := hsorted.around
  have hnone : below.reverse.filter (fun m => t.lastAccess x < t.lastAccess m) = [] :=
    filter_eq_nil_iff.mpr fun m hm => by simpa using (hbelow m hm).le
  have hall : above.reverse.filter (fun m => t.lastAccess x < t.lastAccess m) = above.reverse :=
    filter_eq_self.mpr fun m hm => decide_eq_true (habove m hm)
  rw [filter_append, hnone, nil_append, filter_cons_of_neg (by simp), hall, length_reverse,
    idxOf_append_of_notMem hnot, idxOf_cons_self, Nat.add_zero]

theorem Sorted.access_injective (hsorted : Sorted t l) {x m : Nat} (hx : x ∈ l) (hm : m ∈ l)
    (heq : t.lastAccess m = t.lastAccess x) : m = x := by
  obtain ⟨ls, rs, rfl⟩ := append_of_mem hx
  obtain ⟨_, _, hbelow, habove⟩ := hsorted.around
  rcases mem_append.mp hm with hl | hr
  · exact absurd heq (Nat.ne_of_lt (hbelow m hl))
  · rcases mem_cons.mp hr with rfl | hr
    · rfl
    · exact absurd heq (Nat.ne_of_gt (habove m hr))

theorem others_eq_erase {x : Nat} (hsorted : Sorted t l.reverse) (hmem : x ∈ l) :
    (l.reverse.filter fun m => t.lastAccess m ≠ t.lastAccess x) = (l.erase x).reverse := by
  have hnodup : l.Nodup := nodup_reverse.mp hsorted.nodup
  rw [hnodup.erase_eq_filter, ← filter_reverse]
  apply filter_congr
  intro m hm
  by_cases heq : m = x
  · simp [heq]
  · have hne : t.lastAccess m ≠ t.lastAccess x := fun hacc =>
      heq (hsorted.access_injective (mem_reverse.mpr hmem) hm hacc)
    simp [heq, hne]

theorem Represents.setAccess {p : Nat} (h : Represents t p l) (lastAccess : Nat → Nat) :
    Represents { t with lastAccess } p l := by
  induction h with
  | nil => exact .nil
  | node hn _ _ hsize ihleft ihright => exact .node hn ihleft ihright hsize

structure Tracked (config : Config) (refs : List Nat) (s : Tracker) : Prop where
  shape : Represents s.nodes s.root (stack refs).reverse
  sorted : Sorted s.nodes (stack refs).reverse
  known : ∀ node, s.nodes.lastAccess node ≠ 0 ↔ node ∈ refs
  clock_ge : ∀ node, s.nodes.lastAccess node ≤ s.clock
  inRange : ∀ node ∈ refs, node ≠ 0 ∧ node < config.fuel
  hits : s.stats.budgetHits = config.budgetMib.map fun budget => hits (capacityPages budget) refs

variable {config : Config} {refs : List Nat}

variable {s : Tracker}

theorem Tracked.length_lt (h : Tracked config refs s) : (stack refs).reverse.length < config.fuel := by
  have hsub : stack refs ⊆ List.range' 1 (localityLayerCount * config.maxBlocks) := by
    intro node hnode
    obtain ⟨hne, hlt⟩ := h.inRange node (mem_stack.mp hnode)
    rw [Config.fuel] at hlt
    rw [mem_range'_1]
    omega
  have hle := (subperm_of_subset (stack_nodup refs) hsub).length_le
  rw [length_range'] at hle
  rw [length_reverse, Config.fuel]
  omega

theorem Tracked.takeOut (h : Tracked config refs s) (node : Nat) :
    ∃ nodes root, takeOut config s node = some (nodes, root, distance refs node) ∧
      Represents nodes root ((stack refs).erase node).reverse ∧ nodes.lastAccess = s.nodes.lastAccess := by
  rw [QsaLocality.takeOut]
  by_cases hseen : s.nodes.lastAccess node = 0
  · have hnot : node ∉ refs := fun hin => (h.known node).mpr hin hseen
    have hout : node ∉ stack refs := fun hin => hnot (mem_stack.mp hin)
    refine ⟨s.nodes, s.root, ?_, ?_, rfl⟩
    · rw [if_neg (not_not.mpr hseen), distance, if_neg hnot]
    · rw [erase_of_not_mem hout]
      exact h.shape
  · have hin : node ∈ stack refs := mem_stack.mpr ((h.known node).mp hseen)
    obtain ⟨nodes, root, herase, hshape, hchanges⟩ := eraseNode_spec config.nodePriority (s.nodes.lastAccess node)
      h.shape h.sorted h.length_lt
    refine ⟨nodes, root, ?_, ?_, hchanges.lastAccess⟩
    · rw [if_pos hseen, newerNodes_spec h.shape h.sorted h.length_lt, herase, distance_eq, if_pos hin,
        newer_eq_idxOf h.sorted hin]
      rfl
    · rw [← others_eq_erase h.sorted hin]
      exact hshape

theorem Tracked.recordReuse (h : Tracked config refs s) {node : Nat} (hne : node ≠ 0) (hrange : node < config.fuel) :
    ∃ t, recordReuse config s node = some (t, ⟨node, distance refs node⟩) ∧ Tracked config (refs ++ [node]) t ∧
      t.seen = s.seen ∧ t.generation = s.generation ∧ t.layers = s.layers ∧
      t.stats.reuseDistanceSum = s.stats.reuseDistanceSum ∧ t.stats.reuseDistanceMax = s.stats.reuseDistanceMax := by
  obtain ⟨nodes, root, hanswer, hshape, haccess⟩ := h.takeOut node
  have hout : node ∉ ((stack refs).erase node).reverse := by
    rw [mem_reverse, (stack_nodup refs).mem_erase_iff]
    exact fun hin => hin.1 rfl
  let fresh : Nodes :=
    { left := update nodes.left node 0
      right := update nodes.right node 0
      subtree := update nodes.subtree node 1
      lastAccess := update nodes.lastAccess node (s.clock + 1) }
  have hclock : fresh.lastAccess node = s.clock + 1 := update_self ..
  have hothers (m : Nat) (hm : m ≠ node) : fresh.lastAccess m = s.nodes.lastAccess m := by
    rw [← haccess]
    exact update_of_ne hm _ _
  have hne_mem (m : Nat) (hm : m ∈ ((stack refs).erase node).reverse) : m ≠ node := fun heq => hout (heq ▸ hm)
  have hrest : Represents fresh root ((stack refs).erase node).reverse := by
    have hchanges : Changes nodes
        { nodes with
          left := update nodes.left node 0
          right := update nodes.right node 0
          subtree := update nodes.subtree node 1 } [node] :=
      ⟨fun m hm => update_of_ne (ne_of_not_mem_cons hm) _ _,
        fun m hm => update_of_ne (ne_of_not_mem_cons hm) _ _,
        fun m hm => update_of_ne (ne_of_not_mem_cons hm) _ _, rfl⟩
    exact (hshape.frame hchanges fun m hm hin => hne_mem m hm (mem_singleton.mp hin)).setAccess _
  have hsingle : Represents fresh node [node] := by
    have hleft : fresh.left node = 0 := update_self ..
    have hright : fresh.right node = 0 := update_self ..
    have hsize : fresh.subtree node = 1 := update_self ..
    have hbelow : Represents fresh (fresh.left node) [] := hleft ▸ .nil
    have habove : Represents fresh (fresh.right node) [] := hright ▸ .nil
    exact .node hne hbelow habove hsize
  have hsub : ((stack refs).erase node).reverse.Sublist (stack refs).reverse := (erase_sublist ..).reverse
  have hsorted : Sorted fresh ((stack refs).erase node).reverse := by
    refine List.Pairwise.imp_of_mem ?_ (h.sorted.sublist hsub)
    intro m n hm hn hlt
    rw [hothers m (hne_mem m hm), hothers n (hne_mem n hn)]
    exact hlt
  have hlater (m : Nat) (hm : m ∈ ((stack refs).erase node).reverse) : fresh.lastAccess m < fresh.lastAccess node := by
    rw [hothers m (hne_mem m hm), hclock]
    exact Nat.lt_succ_of_le (h.clock_ge m)
  obtain ⟨nodes', root', hinsert, hshape', hchanges'⟩ := insertNode_spec config.nodePriority hrest hsorted hne
    (fun m hm => Nat.ne_of_lt (hlater m hm)) hsingle (hsub.length_le.trans_lt h.length_lt)
  have hsmaller : ((stack refs).erase node).reverse.filter (fun m => fresh.lastAccess m < fresh.lastAccess node) =
      ((stack refs).erase node).reverse :=
    filter_eq_self.mpr fun m hm => decide_eq_true (hlater m hm)
  have hlarger : ((stack refs).erase node).reverse.filter
      (fun m => !decide (fresh.lastAccess m < fresh.lastAccess node)) = [] :=
    filter_eq_nil_iff.mpr fun m hm => by simpa using hlater m hm
  have horder : ((stack refs).erase node).reverse ++ [node] = (stack (refs ++ [node])).reverse := by
    rw [stack_concat, touch, reverse_cons]
  rw [hsmaller, hlarger, horder] at hshape'
  have hstep : QsaLocality.recordReuse config s node = some ({ s with
      nodes := nodes'
      root := root'
      clock := s.clock + 1
      stats := { s.stats with
        reusedColdRefs := s.stats.reusedColdRefs + if (distance refs node).isSome then 1 else 0
        firstColdRefs := s.stats.firstColdRefs + if (distance refs node).isSome then 0 else 1
        budgetHits := List.zipWith (fun budget count =>
          addHit ((distance refs node).any fun d => d < capacityPages budget) count) config.budgetMib s.stats.budgetHits
        budgetMisses := List.zipWith (fun budget count =>
          addHit (!(distance refs node).any fun d => d < capacityPages budget) count) config.budgetMib
          s.stats.budgetMisses } }, ⟨node, distance refs node⟩) := by
    rw [QsaLocality.recordReuse, hanswer]
    show (insertNode config.nodePriority config.fuel fresh root node >>= _) = _
    rw [hinsert]
    rfl
  have haccess' (m : Nat) : nodes'.lastAccess m = if m = node then s.clock + 1 else s.nodes.lastAccess m := by
    rw [hchanges'.lastAccess]
    split
    next heq =>
      rw [heq, hclock]
    next hm =>
      exact hothers m hm
  refine ⟨_, hstep, ⟨hshape', ?_, ?_, ?_, ?_, ?_⟩, rfl, rfl, rfl, rfl, rfl⟩
  · rw [← horder, hchanges'.sorted, Sorted, pairwise_append]
    refine ⟨hsorted, pairwise_singleton _ _, ?_⟩
    intro m hm n hn
    rw [mem_singleton.mp hn]
    exact hlater m hm
  · intro m
    show nodes'.lastAccess m ≠ 0 ↔ _
    rw [haccess', mem_append, mem_singleton]
    split
    next heq =>
      exact ⟨fun _ => .inr heq, fun _ => Nat.succ_ne_zero _⟩
    next hm =>
      rw [h.known]
      exact ⟨.inl, fun hin => hin.resolve_right hm⟩
  · intro m
    show nodes'.lastAccess m ≤ s.clock + 1
    rw [haccess']
    split
    · exact Nat.le_refl _
    · exact (h.clock_ge m).trans (Nat.le_succ _)
  · intro m hm
    rcases mem_append.mp hm with hold | hnew
    · exact h.inRange m hold
    · rw [mem_singleton.mp hnew]
      exact ⟨hne, hrange⟩
  · show List.zipWith _ config.budgetMib s.stats.budgetHits = _
    rw [h.hits, zipWith_map_right, zipWith_self]
    apply map_congr_left
    intro budget _
    have hhit : ((distance refs node).any fun d => d < capacityPages budget) = true ↔
        node ∈ cache (capacityPages budget) refs := by
      rw [mem_cache_iff, Option.any_eq_true]
      simp
    rw [hits_concat, addHit]
    by_cases hin : node ∈ cache (capacityPages budget) refs
    · rw [if_pos hin, if_pos (hhit.mpr hin)]
    · rw [if_neg hin, if_neg fun hany => hin (hhit.mp hany)]
      rfl

def firsts (pages : List Nat) : List Nat := pages.foldl (fun acc page => if page ∈ acc then acc else acc ++ [page]) []

/-- The references that a selection records: the pages that lie before the hot tail, each once. -/
def Config.references (config : Config) (selection : Selection) : List Nat :=
  match layerSlot selection.layer with
  | none => []
  | some slot =>
    if maxSelectedBlocks < selection.pageIds.length then []
    else ((firsts (selection.pageIds.filter (· < config.maxBlocks))).filter fun block =>
      block * QsaOwner.compressRatio < config.retainedFirst selection.tokens).map (config.node slot)

def recorded (before : List Nat) : List Nat → List Access
  | [] => []
  | node :: rest => ⟨node, distance before node⟩ :: recorded (before ++ [node]) rest

theorem recorded_append (before first second : List Nat) :
    recorded before (first ++ second) = recorded before first ++ recorded (before ++ first) second := by
  induction first generalizing before with
  | nil => simp [recorded]
  | cons node rest ih => simp [recorded, ih]

def distances (accesses : List Access) : List Nat := accesses.map fun access => access.distance.getD 0

structure Marked (maxBlocks : Nat) (generation : UInt32) (acc : Selected) : Prop where
  mark : ∀ block, acc.seen block = generation ↔ block ∈ acc.pages
  le : ∀ block, acc.seen block ≤ generation
  inRange : ∀ block ∈ acc.pages, block < maxBlocks

theorem Marked.turn {maxBlocks : Nat} {generation : UInt32} {acc : Selected} (h : Marked maxBlocks generation acc)
    (block : Nat) :
    Marked maxBlocks generation (acc.turn maxBlocks generation block) ∧
      (acc.turn maxBlocks generation block).pages =
        if block < maxBlocks then (if block ∈ acc.pages then acc.pages else acc.pages ++ [block]) else acc.pages := by
  rw [Selected.turn]
  split
  next hout =>
    exact ⟨h, (if_neg (Nat.not_lt.mpr hout)).symm⟩
  rename_i hin
  rw [if_pos (Nat.not_le.mp hin)]
  split
  next hmark =>
    exact ⟨⟨h.mark, h.le, h.inRange⟩, (if_pos ((h.mark block).mp hmark)).symm⟩
  rename_i hmark
  have hnot : block ∉ acc.pages := fun hmem => hmark ((h.mark block).mpr hmem)
  refine ⟨⟨?_, ?_, ?_⟩, (if_neg hnot).symm⟩
  · intro other
    show update acc.seen block generation other = generation ↔ other ∈ acc.pages ++ [block]
    rw [mem_append, mem_singleton]
    by_cases heq : other = block
    · rw [heq, update_self]
      exact ⟨fun _ => .inr rfl, fun _ => rfl⟩
    · rw [update_of_ne heq, h.mark]
      exact ⟨.inl, fun hor => hor.resolve_right heq⟩
  · intro other
    show update acc.seen block generation other ≤ generation
    by_cases heq : other = block
    · rw [heq, update_self]
      exact UInt32.le_refl _
    · rw [update_of_ne heq]
      exact h.le other
  · intro other hother
    rcases mem_append.mp hother with hold | hnew
    · exact h.inRange other hold
    · rw [mem_singleton.mp hnew]
      exact Nat.not_le.mp hin

theorem Marked.select {maxBlocks : Nat} {generation : UInt32} {acc : Selected} (h : Marked maxBlocks generation acc)
    (pageIds : List Nat) :
    Marked maxBlocks generation (pageIds.foldl (Selected.turn maxBlocks generation) acc) ∧
      (pageIds.foldl (Selected.turn maxBlocks generation) acc).pages =
        (pageIds.filter (· < maxBlocks)).foldl (fun acc page => if page ∈ acc then acc else acc ++ [page]) acc.pages := by
  induction pageIds generalizing acc with
  | nil => exact ⟨h, rfl⟩
  | cons block rest ih =>
    obtain ⟨hmarked, hpages⟩ := h.turn block
    obtain ⟨hrest, hall⟩ := ih hmarked
    refine ⟨hrest, hall.trans ?_⟩
    rw [hpages]
    by_cases hin : block < maxBlocks
    · rw [if_pos hin, filter_cons_of_pos (by simpa using hin), foldl_cons]
    · rw [if_neg hin, filter_cons_of_neg (by simpa using hin)]

theorem nextGeneration_spec (h : ∀ block, s.seen block ≤ s.generation) (maxBlocks : Nat) :
    Marked maxBlocks s.nextGeneration.1 ⟨s.nextGeneration.2, [], 0⟩ := by
  have hlt (block : Nat) : s.nextGeneration.2 block < s.nextGeneration.1 := by
    rw [Tracker.nextGeneration]
    split
    · show (0 : UInt32) < 1
      decide
    next hwrap =>
      have hle := UInt32.le_iff_toNat_le.mp (h block)
      rw [UInt32.lt_iff_toNat_lt]
      have hnext : (s.generation + 1).toNat = s.generation.toNat + 1 := by
        have hne : (s.generation + 1).toNat ≠ 0 := fun hz => hwrap (UInt32.toNat_inj.mp hz)
        rw [UInt32.toNat_add] at hne ⊢
        have hbound := s.generation.toNat_lt
        simp only [UInt32.toNat_one] at hne ⊢
        omega
      show (s.seen block).toNat < (s.generation + 1).toNat
      omega
  refine ⟨fun block => ⟨fun heq => ?_, fun hmem => absurd hmem not_mem_nil⟩, fun block => ?_, ?_⟩
  · have hne := UInt32.lt_iff_toNat_lt.mp (hlt block)
    rw [show s.nextGeneration.2 block = s.nextGeneration.1 from heq] at hne
    exact absurd hne (Nat.lt_irrefl _)
  · exact UInt32.le_of_lt (hlt block)
  · intro block hmem
    exact absurd hmem not_mem_nil

theorem layerSlot_lt {layer slot : Nat} (h : layerSlot layer = some slot) : slot < localityLayerCount := by
  rw [layerSlot] at h
  split at h
  next hlayer =>
    have hlt : layer < 48 := hlayer.1
    cases h
    show layer / 4 < 12
    omega
  · cases h

theorem node_range {slot block : Nat} (hslot : slot < localityLayerCount)
    (hblock : block < config.maxBlocks) : config.node slot block ≠ 0 ∧ config.node slot block < config.fuel := by
  have hle : (slot + 1) * config.maxBlocks ≤ localityLayerCount * config.maxBlocks := Nat.mul_le_mul_right _ hslot
  rw [Nat.add_mul, Nat.one_mul] at hle
  rw [Config.node, Config.fuel]
  omega

/-- The loop over the pages of a selection: what it recorded since the references `refs`. -/
structure Recorded (config : Config) (refs : List Nat) (start acc : Recording) : Prop where
  tracked : Tracked config refs acc.tracker
  frame : acc.tracker.seen = start.tracker.seen ∧ acc.tracker.generation = start.tracker.generation ∧
    acc.tracker.layers = start.tracker.layers ∧
    acc.tracker.stats.reuseDistanceSum = start.tracker.stats.reuseDistanceSum ∧
    acc.tracker.stats.reuseDistanceMax = start.tracker.stats.reuseDistanceMax
  sum : acc.distanceSum = (distances acc.accesses).sum
  greatest : acc.distanceMax = (distances acc.accesses).foldl max 0

theorem Recorded.turn {start acc : Recording} (h : Recorded config refs start acc)
    {slot block : Nat} (tokens : Nat) (hslot : slot < localityLayerCount) (hblock : block < config.maxBlocks) :
    let more := if block * QsaOwner.compressRatio < config.retainedFirst tokens then [config.node slot block] else []
    ∃ next, Recording.turn config slot tokens acc block = some next ∧
      next.accesses = acc.accesses ++ recorded refs more ∧ Recorded config (refs ++ more) start next := by
  intro more
  rw [Recording.turn]
  by_cases hcold : block * QsaOwner.compressRatio < config.retainedFirst tokens
  · have hmore : more = [config.node slot block] := if_pos hcold
    obtain ⟨hne, hlt⟩ := node_range hslot hblock
    obtain ⟨tracker, hrecord, htracked, hseen, hgeneration, hlayers, hsum, hmax⟩ := h.tracked.recordReuse hne hlt
    rw [if_neg (Nat.not_le.mpr hcold), hrecord, hmore]
    refine ⟨_, rfl, rfl, ⟨htracked, ?_, ?_, ?_⟩⟩
    · exact ⟨hseen.trans h.frame.1, hgeneration.trans h.frame.2.1, hlayers.trans h.frame.2.2.1,
        hsum.trans h.frame.2.2.2.1, hmax.trans h.frame.2.2.2.2⟩
    · show acc.distanceSum + _ = (distances (acc.accesses ++ [_])).sum
      rw [h.sum, distances, distances, map_append, sum_append]
      rfl
    · show max acc.distanceMax _ = (distances (acc.accesses ++ [_])).foldl max 0
      rw [h.greatest, distances, distances, map_append, foldl_append]
      rfl
  · have hmore : more = [] := if_neg hcold
    rw [if_pos (Nat.not_lt.mp hcold), hmore, append_nil]
    exact ⟨_, rfl, (append_nil _).symm, ⟨h.tracked, h.frame, h.sum, h.greatest⟩⟩

theorem Recorded.all {start acc : Recording} (h : Recorded config refs start acc)
    {slot : Nat} (tokens : Nat) (hslot : slot < localityLayerCount) {blocks : List Nat}
    (hblocks : ∀ block ∈ blocks, block < config.maxBlocks) :
    let more := (blocks.filter fun block => block * QsaOwner.compressRatio < config.retainedFirst tokens).map
      (config.node slot)
    ∃ done, blocks.foldlM (Recording.turn config slot tokens) acc = some done ∧
      done.accesses = acc.accesses ++ recorded refs more ∧ Recorded config (refs ++ more) start done := by
  induction blocks generalizing acc refs with
  | nil => exact ⟨acc, rfl, (append_nil _).symm, (append_nil refs).symm ▸ h⟩
  | cons block rest ih =>
    intro more
    obtain ⟨next, hturn, haccesses, hrecorded⟩ := h.turn tokens hslot (hblocks block mem_cons_self)
    obtain ⟨done, hrest, hall, hdone⟩ := ih hrecorded (forall_mem_cons.mp hblocks).2
    have hmore : more = (if block * QsaOwner.compressRatio < config.retainedFirst tokens then
        [config.node slot block] else []) ++
        (rest.filter fun block => block * QsaOwner.compressRatio < config.retainedFirst tokens).map
          (config.node slot) := by
      by_cases hcold : block * QsaOwner.compressRatio < config.retainedFirst tokens
      · simp [more, hcold]
      · simp [more, hcold]
    refine ⟨done, ?_, ?_, ?_⟩
    · rw [foldlM_cons, hturn]
      exact hrest
    · rw [hall, haccesses, hmore, recorded_append, append_assoc]
    · rw [hmore, ← append_assoc]
      exact hdone

theorem Tracked.start (h : Tracked config refs s) (generation : UInt32) (seen : Nat → UInt32) (digest : UInt64) :
    Recorded config refs (.start { s with generation, seen } digest) (.start { s with generation, seen } digest) :=
  ⟨⟨h.shape, h.sorted, h.known, h.clock_ge, h.inRange, h.hits⟩, ⟨rfl, rfl, rfl, rfl, rfl⟩, rfl, rfl⟩

/-- The tracker between selections, and what it recorded. -/
structure Sound (config : Config) (refs : List Nat) (s : System) : Prop where
  tracked : Tracked config refs s.tracker
  marks : ∀ block, s.tracker.seen block ≤ s.tracker.generation
  accesses : s.accesses = recorded [] refs
  sum : s.tracker.stats.reuseDistanceSum = (distances s.accesses).sum
  greatest : s.tracker.stats.reuseDistanceMax = (distances s.accesses).foldl max 0

theorem foldl_max_append (first second : List Nat) :
    (first ++ second).foldl max 0 = max (first.foldl max 0) (second.foldl max 0) := by
  induction second using List.reverseRecOn with
  | nil => simp
  | append_singleton rest x ih =>
    rw [← append_assoc, foldl_concat, ih, foldl_concat]
    exact max_assoc _ _ _

theorem Sound.step {s : System} (h : Sound config refs s) (selection : Selection) :
    ∃ t, step config s selection = some t ∧ Sound config (refs ++ config.references selection) t := by
  rw [QsaLocality.step, recordSelection, Config.references]
  cases hslot : layerSlot selection.layer with
  | none =>
    rw [append_nil]
    exact ⟨s, by simp, h⟩
  | some slot =>
    dsimp only
    split
    · rw [append_nil]
      exact ⟨s, by simp, h⟩
    have hlt := layerSlot_lt hslot
    obtain ⟨hmarked, hpages⟩ := (nextGeneration_spec h.marks config.maxBlocks).select selection.pageIds
    obtain ⟨done, hdone, haccesses, hrecorded⟩ := (h.tracked.start s.tracker.nextGeneration.1
      (selection.pageIds.foldl (Selected.turn config.maxBlocks s.tracker.nextGeneration.1)
        ⟨s.tracker.nextGeneration.2, [], 0⟩).seen
      (mix64 (config.key ^^^ (UInt64.ofNat selection.layer <<< 32) ^^^ UInt64.ofNat selection.tokens))).all
      selection.tokens hlt hmarked.inRange
    rw [hpages] at haccesses hrecorded
    obtain ⟨hseen, hgeneration, _, hsum, hgreatest⟩ := hrecorded.frame
    have htracked := hrecorded.tracked
    rw [hdone]
    refine ⟨_, rfl, ⟨htracked.shape, htracked.sorted, htracked.known, htracked.clock_ge, htracked.inRange,
      htracked.hits⟩, ?_, ?_, ?_, ?_⟩
    · intro block
      show done.tracker.seen block ≤ done.tracker.generation
      rw [hseen, hgeneration]
      exact hmarked.le block
    · show s.accesses ++ done.accesses = _
      rw [recorded_append, ← h.accesses, haccesses]
      rfl
    · show done.tracker.stats.reuseDistanceSum + done.distanceSum = (distances (s.accesses ++ done.accesses)).sum
      rw [hsum, hrecorded.sum, distances, distances, map_append, sum_append]
      exact congrArg (· + _) h.sum
    · show max done.tracker.stats.reuseDistanceMax done.distanceMax =
        (distances (s.accesses ++ done.accesses)).foldl max 0
      rw [hgreatest, hrecorded.greatest, distances, distances, map_append, foldl_max_append]
      exact congrArg (max · _) h.greatest

theorem create_sound {tracker : Tracker} (h : create config = some tracker) : Sound config [] ⟨tracker, []⟩ := by
  rw [create] at h
  split at h
  · cases h
  cases h
  refine ⟨⟨.nil, List.Pairwise.nil, ?_, fun _ => Nat.le_refl 0, ?_, ?_⟩, fun _ => UInt32.le_refl _, rfl, rfl, rfl⟩
  · intro node
    exact ⟨fun hne => absurd rfl hne, fun hmem => absurd hmem not_mem_nil⟩
  · intro node hmem
    exact absurd hmem not_mem_nil
  · rfl

theorem exec_sound {s : System} (h : Sound config refs s) (selections : List Selection) :
    ∃ t, Runs.exec (step config) s selections = some t ∧
      Sound config (refs ++ selections.flatMap config.references) t := by
  induction selections generalizing refs s with
  | nil => exact ⟨s, rfl, (append_nil refs).symm ▸ h⟩
  | cons selection rest ih =>
    obtain ⟨next, hstep, hnext⟩ := h.step selection
    obtain ⟨t, hexec, ht⟩ := ih hnext
    refine ⟨t, Runs.exec_cons_eq_some.mpr ⟨next, hstep, hexec⟩, ?_⟩
    rw [flatMap_cons, ← append_assoc]
    exact ht

/-- Every sequence of selections is recorded, and then the treap is a search tree by the last access with the right
sizes and a node for each page seen, every access was given its stack distance, and the hits of each budget are those
of a cache that holds its pages and forgets the longest unused. -/
theorem exec_distances {config : Config} {tracker : Tracker} (hcreate : create config = some tracker)
    (selections : List Selection) :
    let refs := selections.flatMap config.references
    ∃ s, Runs.exec (step config) ⟨tracker, []⟩ selections = some s ∧
      (∃ order, Represents s.tracker.nodes s.tracker.root order ∧ Sorted s.tracker.nodes order ∧ order.Nodup ∧
        ∀ node, node ∈ order ↔ node ∈ refs) ∧
      s.accesses = recorded [] refs ∧
      s.tracker.stats.reuseDistanceSum = (distances s.accesses).sum ∧
      s.tracker.stats.reuseDistanceMax = (distances s.accesses).foldl max 0 ∧
      s.tracker.stats.budgetHits = config.budgetMib.map fun budget => hits (capacityPages budget) refs := by
  intro refs
  obtain ⟨s, hexec, hsound⟩ := exec_sound (create_sound hcreate) selections
  refine ⟨s, hexec, ⟨_, hsound.tracked.shape, hsound.tracked.sorted, hsound.tracked.sorted.nodup, ?_⟩,
    hsound.accesses, hsound.sum, hsound.greatest, hsound.tracked.hits⟩
  intro node
  rw [mem_reverse]
  exact mem_stack

/-- Two layers; the second selection of the first layer comes back to its pages. -/
theorem exec_distances_twice :
    let selections : List Selection := [⟨3, 16, [0, 1, 1]⟩, ⟨7, 16, [2]⟩, ⟨3, 16, [1, 0]⟩]
    ∃ s, Runs.exec (step ⟨4, 4, [1], 0⟩) ⟨.zero ⟨4, 4, [1], 0⟩, []⟩ selections = some s ∧
      distances s.accesses = [0, 0, 0, 1, 2] ∧ s.tracker.stats.budgetHits = [2] := by
  intro selections
  have hcreate : create ⟨4, 4, [1], 0⟩ = some (.zero ⟨4, 4, [1], 0⟩) := rfl
  obtain ⟨s, hexec, _, haccesses, _, _, hhits⟩ := exec_distances hcreate selections
  refine ⟨s, hexec, ?_, ?_⟩
  · rw [haccesses]
    decide +kernel
  · rw [hhits]
    decide +kernel

end FlashGordon.QsaLocality
