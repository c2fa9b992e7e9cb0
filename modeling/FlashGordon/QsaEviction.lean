import FlashGordon.QsaPersist

/-! Runs of a state-backed session: decode and prefill steps, pages that are brought in, pages that are
published or handed out, over all its layers and in any order. A commit may take the slot of a pinned page
when every slot is pinned, and it may take a slot for a block that has begun and does not look whether the slot
still has the block's earlier records. While neither happens no committed record is lost. -/

namespace FlashGordon.QsaSession

open QsaCache (Key Represents uint32Max)
open PinnedLru Option

variable {R : Type}

/-- A call on a state-backed session, with what the device, the file's read-ahead and the other ranks hand
it. -/
inductive Step (R : Type) where
  | decode (layer : UInt32) (token : Nat) (position : Position) (record : R) (input : Attention R) (group : Bool)
  | prefill (layer : UInt32) (firstToken : Nat) (tokens : List (Position × R)) (input : Selected R)
  | warm (layer : UInt32) (pages : List (UInt32 × Page R))
  | published (layer block : UInt32)
  | records (layer block : UInt32)

/-- A session and the records it has committed so far. -/
structure Stage (R : Type) where
  session : Session R
  log : Log R

/-- A page that is gathered for a layer or handed out. -/
structure Shown (R : Type) where
  index : Nat
  block : UInt32
  page : Page R

/-- The pages a decode step's gather copies. -/
def Session.gatherPages (s : Session R) (gather : Gather) : List (Shown R) :=
  let selected := (gather.selected.zip (s.gatherSlots gather)).map fun (block, slot) =>
    ⟨gather.index, block, s.cacheRecords slot⟩
  if gather.tail = 0 then selected
  else selected ++ [⟨gather.index, gather.tailBlock, s.cacheRecords gather.tailSlot⟩]

/-- The pages a prefill step's gathers copy. -/
def Gathered.shown (index : Nat) (gathered : Gathered R) : List (Shown R) :=
  (gathered.pages ++ gathered.tail.toList).map fun (block, page) => ⟨index, block, page⟩

namespace Stage

/-- The records a call has committed, by how far the layer's counter went. -/
def note (stage : Stage R) (after : Session R) (index : Nat) (records : List R) : Stage R :=
  ⟨after, stage.log.extend index (records.take (after.committed index - stage.session.committed index))⟩

def perform (stage : Stage R) : Step R → Option (List (Shown R) × Stage R)
  | .decode layer token position record input group =>
    (stage.session.decode layer token position record input group).map fun (answer, after) =>
      (match answer with
        | .ok gather => after.gatherPages gather
        | .error _ => [],
        stage.note after ((stage.session.layerSlot layer).getD 0) [record])
  | .prefill layer firstToken tokens input =>
    (stage.session.prefill layer firstToken tokens input).map fun (answer, after) =>
      let index := (stage.session.layerSlot layer).getD 0
      (match answer with
        | .ok list => list.flatMap (Gathered.shown index)
        | .error _ => [],
        stage.note after index (tokens.map Prod.snd))
  | .warm layer pages =>
    (stage.session.warmPages layer pages).map fun (_, after) => ([], ⟨after, stage.log⟩)
  | .published layer block => (stage.session.pagePublished layer block).map fun after => ([], ⟨after, stage.log⟩)
  | .records layer block =>
    (stage.session.pageRecords layer block).map fun (answer, after) =>
      (match answer with
        | .ok page => [⟨(stage.session.layerSlot layer).getD 0, block, page⟩]
        | .error _ => [],
        ⟨after, stage.log⟩)

def exec (stage : Stage R) : List (Step R) → Option (Stage R)
  | [] => some stage
  | step :: rest => (stage.perform step).bind fun (_, next) => next.exec rest

/-- Committed records are where they can be read: every page of the cache and of the file has those of its
block, and every block that has begun is in the cache or in the file. -/
structure Survives (stage : Stage R) : Prop where
  lengths : ∀ index < stage.session.layerCount, (stage.log index).length = stage.session.committed index
  cached : ∀ index < stage.session.layerCount, ∀ block slot,
    stage.session.cache.holds (stage.session.layerAt index) block slot = true →
    Holds (stage.log index) block.toNat (stage.session.cacheRecords slot)
  kept : ∀ index < stage.session.layerCount, ∀ block, block * compressRatio < (stage.log index).length →
    (∃ slot < stage.session.cachePages,
      stage.session.cache.holds (stage.session.layerAt index) (UInt32.ofNat block) slot = true) ∨
    ∃ state page, stage.session.state = some state ∧ state.pages index block = some page ∧
      page.committed = min ((stage.log index).length - block * compressRatio) compressRatio ∧
      ∀ k < page.committed, ∀ record, (stage.log index)[block * compressRatio + k]? = some record →
        page.records k = record
  filed : ∀ state, stage.session.state = some state → ∀ index < stage.session.layerCount,
    Filed (stage.log index) (state.layerTokens index) (state.pages index)

/-- Along a run committed records survive, and every page that is shown has those of its block. -/
def Endures (stage : Stage R) : List (Step R) → Prop
  | [] => stage.Survives
  | step :: rest => stage.Survives ∧ ∃ shown next, stage.perform step = some (shown, next) ∧
      (∀ one ∈ shown, Holds (next.log one.index) one.block.toNat one.page) ∧ next.Endures rest

end Stage

/-- What a call is handed is what the file, the device and the other ranks really have. -/
def Stage.Served (stage : Stage R) : Step R → Prop
  | .decode layer token _ record input _ => ∀ index, stage.session.layerSlot layer = some index →
      ∀ state, stage.session.state = some state →
      input.Sound stage.session (stage.log.extend index [record]) state index (token + 1)
  | .prefill layer _ tokens input => ∀ index, stage.session.layerSlot layer = some index →
      Truthful stage.session (stage.log.extend index (tokens.map Prod.snd)) input.fetched
  | .warm layer pages => ∀ index, stage.session.layerSlot layer = some index →
      ∀ page ∈ pages, Holds (stage.log index) page.1.toNat page.2
  | .published _ _ => True
  | .records _ _ => True

def Session.pinnedPages (s : Session R) : Finset Key :=
  (((List.range s.cache.used).filter s.cache.pinned).map s.cache.page).toFinset

/-- Tokens from `first` on can be committed: a block that has begun is cached, and the pages that are pinned,
the new ones among them, fit the cache. -/
structure Session.Admits (s : Session R) (index first count : Nat) : Prop where
  cached : first % compressRatio ≠ 0 → ∃ slot < s.cachePages,
    s.cache.holds (s.layerAt index) (UInt32.ofNat (first / compressRatio)) slot = true
  room : (s.pinnedPages ∪ rangePages (s.layerAt index) first count).card ≤ s.cachePages

/-- A call takes no pinned slot and commits to no page that has lost its records, and a page is published only
when its records are in the file. -/
def Stage.Safe (stage : Stage R) : Step R → Prop
  | .decode layer token _ _ input _ => ∀ index, stage.session.layerSlot layer = some index →
      token = stage.session.committed index → stage.session.Admits index token 1 ∧
      ((stage.session.pinnedPages ∪ rangePages layer token 1).card < stage.session.cachePages ∨
        ∀ block ∈ attended (token + 1) input.ids,
          (layer, block) ∈ stage.session.pinnedPages ∪ rangePages layer token 1)
  | .prefill layer firstToken tokens _ => ∀ index, stage.session.layerSlot layer = some index →
      firstToken = stage.session.committed index → stage.session.Admits index firstToken tokens.length
  | .warm _ _ => True
  | .published layer block => ∀ index, stage.session.layerSlot layer = some index →
      ∀ state, stage.session.state = some state → ∀ token, state.layerTokens index ≤ token →
      token < stage.session.committed index → token / compressRatio ≠ block.toNat
  | .records _ _ => True

/-- A property of every call of a run, in the state the call finds. -/
def Stage.Along (property : Stage R → Step R → Prop) (stage : Stage R) : List (Step R) → Prop
  | [] => True
  | step :: rest => property stage step ∧
      ∀ shown next, stage.perform step = some (shown, next) → next.Along property rest

variable {s : Session R} {capacity : Nat} {map : Map Key capacity} {log : Log R} {state : State R}

theorem Mirrors.pinnedPages (h : Mirrors s map) : s.pinnedPages = map.pinned := by
  ext key
  rw [Session.pinnedPages, List.mem_toFinset, List.mem_map, Map.mem_pinned]
  constructor
  · rintro ⟨slot, hslot, rfl⟩
    rw [List.mem_filter, List.mem_range] at hslot
    obtain ⟨entry, hentry, rfl⟩ := h.represents.entry_of_lt hslot.1
    have hshows := h.represents.shows entry hentry
    have hkey : s.cache.page entry.frame = entry.key := Prod.ext hshows.layer hshows.block
    rw [hkey, Map.find?_of_mem hentry, map_some, ← hshows.pinned, hslot.2]
  · intro hpinned
    obtain ⟨entry, hfind, hpin⟩ := map_eq_some_iff.mp hpinned
    obtain ⟨hentry, rfl⟩ := Map.find?_mem hfind
    have hshows := h.represents.shows entry hentry
    refine ⟨entry.frame, List.mem_filter.mpr ⟨List.mem_range.mpr (h.represents.frame_lt hentry), ?_⟩,
      Prod.ext hshows.layer hshows.block⟩
    rw [hshows.pinned, hpin]

theorem Mirrors.fits (h : Mirrors s map) {index first count : Nat} (hadmits : s.Admits index first count) :
    Fits s map index first count := by
  constructor
  · intro hinside
    obtain ⟨slot, -, hholds⟩ := hadmits.cached hinside
    rw [(holds_iff_frame? h.represents).mp hholds]
    rfl
  · rw [← h.pinnedPages, ← h.pages]
    exact hadmits.room

structure Stage.Steady (stage : Stage R) (map : Map Key capacity) (state : State R) : Prop where
  kept : Kept stage.session map stage.log state
  lengths : ∀ index < stage.session.layerCount, (stage.log index).length = stage.session.committed index
  batch : stage.session.maxTokens ≤ prefillMaxTokens

variable {stage : Stage R}

theorem Stage.Steady.survives (h : stage.Steady map state) : stage.Survives := by
  refine ⟨h.lengths, fun index hindex block slot hholds => ?_, fun index hindex block hblock => ?_,
    fun found hfound => ?_⟩
  · have hframe := (holds_iff_frame? h.kept.mirrors.represents).mp hholds
    exact h.kept.coherent.frames _ slot hframe index (layerSlot_layerAt h.kept.mirrors.layers hindex)
  · by_cases hdirty : state.layerTokens index < min (stage.log index).length ((block + 1) * compressRatio)
    · left
      have hparts : state.layerTokens index / compressRatio ≤ block ∧
          block * compressRatio < (stage.log index).length ∧ state.layerTokens index < (stage.log index).length := by
        simp only [compressRatio] at hdirty hblock ⊢
        omega
      obtain ⟨slot, hframe, -⟩ := h.kept.found hindex hparts.1 hparts.2.1 hparts.2.2
      exact ⟨slot, (h.kept.mirrors.frame?_ne hframe).2, (holds_iff_frame? h.kept.mirrors.represents).mpr hframe⟩
    · right
      have hfiled := h.kept.filed index hindex
      have hle := hfiled.le
      obtain ⟨page, hpage, hcommitted, hrecords⟩ := hfiled.page block (by
        simp only [compressRatio] at hdirty hblock ⊢
        omega)
      refine ⟨state, page, h.kept.backed, hpage, hcommitted.trans ?_, hrecords⟩
      simp only [compressRatio] at hdirty hblock ⊢
      omega
  · obtain rfl := Option.some.inj (h.kept.backed.symm.trans hfound)
    exact h.kept.filed

variable {after : Session R}

theorem Stage.Steady.note (h : stage.Steady map state) {index : Nat} {records added : List R}
    {map' : Map Key capacity} {state' : State R} (hadvanced : Advanced stage.session after index added)
    (hadded : added = [] ∨ added = records) (hkept : Kept after map' (stage.log.extend index added) state') :
    (stage.note after index records).Steady map' state' ∧
      (stage.note after index records).log = stage.log.extend index added := by
  have htake : records.take (after.committed index - stage.session.committed index) = added := by
    rw [hadvanced.committed, Function.update_self, Nat.add_sub_cancel_left]
    rcases hadded with rfl | rfl
    · rw [List.length_nil, List.take_zero]
    · exact List.take_length
  have hlog : (stage.note after index records).log = stage.log.extend index added := by
    rw [Stage.note, htake]
  refine ⟨⟨?_, fun other hother => ?_, ?_⟩, hlog⟩
  · rw [hlog]
    exact hkept
  · have hlengths := h.lengths other (hadvanced.shape.layerCount ▸ hother)
    show _ = after.committed other
    rw [hlog, hadvanced.committed]
    by_cases heq : other = index
    · subst heq
      rw [Log.extend_self, Function.update_self, List.length_append, hlengths]
    · rw [Log.extend_of_ne heq, Function.update_of_ne heq, hlengths]
  · show after.maxTokens ≤ _
    rw [hadvanced.maxTokens]
    exact h.batch

theorem Aimed.shown_holds (hkept : Kept after map log state) {gather : Gather} (haimed : Aimed after map gather) :
    ∀ one ∈ after.gatherPages gather, Holds (log one.index) one.block.toNat one.page := by
  have hframe : ∀ block slot, map.frame? (after.layerAt gather.index, block) = some slot →
      Holds (log gather.index) block.toNat (after.cacheRecords slot) := fun block slot hslot =>
    hkept.coherent.frames _ slot hslot gather.index (layerSlot_layerAt hkept.mirrors.layers haimed.index)
  have hselected : ∀ one ∈ (gather.selected.zip (after.gatherSlots gather)).map
      (fun (block, slot) => (⟨gather.index, block, after.cacheRecords slot⟩ : Shown R)),
      Holds (log one.index) one.block.toNat one.page := by
    intro one hone
    obtain ⟨⟨block, slot⟩, hpair, rfl⟩ := List.mem_map.mp hone
    exact hframe block slot ((List.forall₂_iff_zip.mp (haimed.slots hkept.mirrors)).2 hpair)
  intro one hone
  rw [Session.gatherPages] at hone
  split at hone
  next => exact hselected one hone
  next htail =>
    rcases List.mem_append.mp hone with hfirst | hlast
    · exact hselected one hfirst
    · obtain rfl := List.mem_singleton.mp hlast
      exact hframe _ _ (haimed.tail htail)

theorem Stage.Steady.rests (h : stage.Steady map state)
    {map' : Map Key capacity} (hrests : Rests stage.session map after map' stage.log state) :
    (Stage.mk after stage.log).Steady map' state := by
  refine ⟨hrests.kept, fun index hindex => ?_, ?_⟩
  · show _ = after.committed index
    rw [hrests.same.committed]
    exact h.lengths index (hrests.same.shape.layerCount ▸ hindex)
  · show after.maxTokens ≤ _
    rw [hrests.same.maxTokens]
    exact h.batch

theorem Stage.note_self (stage : Stage R) (index : Nat) (records : List R) :
    stage.note stage.session index records = stage := by
  rw [Stage.note, Nat.sub_self, List.take_zero, Log.extend_nil]

theorem Stage.Steady.perform (h : stage.Steady map state) {step : Step R}
    (hserved : stage.Served step) (hsafe : stage.Safe step) :
    ∃ (shown : List (Shown R)) (next : Stage R) (map' : Map Key capacity) (state' : State R),
      stage.perform step = some (shown, next) ∧ next.Steady map' state' ∧
      ∀ one ∈ shown, Holds (next.log one.index) one.block.toNat one.page := by
  have hpages := h.kept.mirrors.pages
  have hpinned := h.kept.mirrors.pinnedPages
  cases step with
  | decode layer token position record input group =>
    cases hlayer : stage.session.layerSlot layer with
    | none =>
      refine ⟨[], stage, map, state, ?_, h, fun _ hone => absurd hone List.not_mem_nil⟩
      rw [Stage.perform, Session.decode, hlayer, map_some]
      dsimp only
      rw [Stage.note_self]
    | some index =>
      obtain ⟨hindex, hlayerAt⟩ := layerAt_of_layerSlot hlayer
      obtain ⟨answer, after, map', added, hdecode, hadded, hadvanced, hkept, haimed⟩ := h.kept.decode hlayer
        (h.lengths index hindex) (fun htoken => h.kept.mirrors.fits (hsafe index hlayer htoken).1)
        (hserved index hlayer state h.kept.backed) (fun htoken => by
          rw [hlayerAt, ← hpinned, ← hpages]
          exact (hsafe index hlayer htoken).2) position group
      obtain ⟨hsteady, hlog⟩ := h.note hadvanced hadded hkept
      refine ⟨_, _, map', state, by rw [Stage.perform, hdecode, hlayer]; rfl, hsteady, ?_⟩
      cases answer with
      | error error => exact fun _ hone => absurd hone List.not_mem_nil
      | ok gather =>
        rw [hlog]
        exact (haimed gather rfl).2.shown_holds hkept
  | prefill layer firstToken tokens input =>
    cases hlayer : stage.session.layerSlot layer with
    | none =>
      refine ⟨[], stage, map, state, ?_, h, fun _ hone => absurd hone List.not_mem_nil⟩
      rw [Stage.perform, Session.prefill, hlayer]
      rw [map_some]
      dsimp only
      rw [Stage.note_self]
    | some index =>
      obtain ⟨hindex, -⟩ := layerAt_of_layerSlot hlayer
      obtain ⟨answer, after, map', added, state', hprefill, hadded, hadvanced, hkept, hright⟩ :=
        h.kept.prefill hlayer (h.lengths index hindex) h.batch
          (fun hfirst => h.kept.mirrors.fits (hsafe index hlayer hfirst)) (hserved index hlayer)
      obtain ⟨hsteady, hlog⟩ := h.note hadvanced (hadded.imp And.left And.left) hkept
      refine ⟨_, _, map', state', by rw [Stage.perform, hprefill, hlayer]; rfl, hsteady, ?_⟩
      cases answer with
      | error error => exact fun _ hone => absurd hone List.not_mem_nil
      | ok list =>
        obtain ⟨rfl, hlist⟩ := hright list rfl
        dsimp only [getD_some]
        intro one hone
        obtain ⟨gathered, hgathered, hshown⟩ := List.mem_flatMap.mp hone
        obtain ⟨⟨block, page⟩, hpage, rfl⟩ := List.mem_map.mp hshown
        rw [hlog, Log.extend_self]
        rcases List.mem_append.mp hpage with hwhole | htail
        · exact (hlist gathered hgathered).pages _ hwhole
        · exact (hlist gathered hgathered).tail _ (mem_toList.mp htail)
  | warm layer pages =>
    by_cases hbad : (stage.session.layerSlot layer).isNone ∨ pages = []
    · refine ⟨[], stage, map, state, ?_, h, fun _ hone => absurd hone List.not_mem_nil⟩
      rw [Stage.perform, Session.warmPages, if_pos hbad]
      rfl
    · obtain ⟨index, hlayer⟩ := ne_none_iff_exists'.mp fun hnone =>
        hbad (.inl (isNone_iff_eq_none.mpr hnone))
      obtain ⟨after, map', hwarm, hafter⟩ := h.kept.warmEach hlayer (hserved index hlayer)
      refine ⟨[], ⟨after, stage.log⟩, map', state, ?_, h.rests hafter, fun _ hone => absurd hone List.not_mem_nil⟩
      rw [Stage.perform, Session.warmPages, if_neg hbad, hwarm]
      rfl
  | published layer block =>
    obtain ⟨after, hunpin, ⟨cache, rfl⟩, hafter⟩ := h.kept.mirrors.pagePublished layer block
    have hclean : ¬Dirty stage.session stage.log state (layer, block) := by
      rintro ⟨index, hlayer, token, hfrom, hbelow, hblock⟩
      rw [h.lengths index (layerAt_of_layerSlot hlayer).1] at hbelow
      exact hsafe index hlayer state h.kept.backed token hfrom hbelow hblock
    have hkept := h.kept.of_coherent hafter ⟨rfl, rfl, rfl, rfl⟩ rfl (h.kept.coherent.unpin hclean)
    refine ⟨[], ⟨{ stage.session with cache := cache }, stage.log⟩, _, state, ?_, ⟨hkept, h.lengths, h.batch⟩,
      fun _ hone => absurd hone List.not_mem_nil⟩
    rw [Stage.perform, hunpin]
    rfl
  | records layer block =>
    cases hlayer : stage.session.layerSlot layer with
    | none =>
      refine ⟨[], stage, map, state, ?_, h, fun _ hone => absurd hone List.not_mem_nil⟩
      rw [Stage.perform, Session.pageRecords, hlayer]
      rfl
    | some index =>
      by_cases hshort : stage.session.committed index < block.toNat * compressRatio + compressRatio
      · refine ⟨[], stage, map, state, ?_, h, fun _ hone => absurd hone List.not_mem_nil⟩
        rw [Stage.perform, Session.pageRecords, hlayer]
        dsimp only
        rw [if_pos hshort]
        rfl
      · obtain ⟨after, map', hlookup, hstays⟩ := h.kept.mirrors.lookup_stays layer block
        have hafter := h.kept.rests hstays
        have hperform : stage.perform (.records layer block) = some
            ((map.frame? (layer, block)).elim [] fun slot => [⟨index, block, after.cacheRecords slot⟩],
              ⟨after, stage.log⟩) := by
          rw [Stage.perform, Session.pageRecords, hlayer]
          dsimp only
          rw [if_neg hshort, hlookup, bind_eq_bind, bind_some]
          cases map.frame? (layer, block) <;> rfl
        refine ⟨_, _, map', state, hperform, h.rests hafter, ?_⟩
        cases hframe : map.frame? (layer, block) with
        | none => exact fun _ hone => absurd hone List.not_mem_nil
        | some slot =>
          intro one hone
          obtain rfl := List.mem_singleton.mp hone
          rw [hstays.records]
          exact h.kept.coherent.frames _ slot hframe index hlayer

theorem Stage.Steady.endures (h : stage.Steady map state) {steps : List (Step R)}
    (hserved : stage.Along Stage.Served steps) (hsafe : stage.Along Stage.Safe steps) : stage.Endures steps := by
  induction steps generalizing stage map state with
  | nil => exact h.survives
  | cons step rest ih =>
    obtain ⟨shown, next, map', state', hperform, hnext, hshown⟩ := h.perform hserved.1 hsafe.1
    exact ⟨h.survives, shown, next, hperform, hshown,
      ih hnext (hserved.2 shown next hperform) (hsafe.2 shown next hperform)⟩

theorem Stage.Endures.exec {stage final : Stage R} {steps : List (Step R)} (h : stage.Endures steps)
    (hexec : stage.exec steps = some final) : final.Survives := by
  induction steps generalizing stage with
  | nil =>
    obtain rfl := Option.some.inj hexec
    exact h
  | cons step rest ih =>
    obtain ⟨-, shown, next, hperform, -, hrest⟩ := h
    rw [Stage.exec, hperform, bind_some] at hexec
    exact ih hrest hexec

theorem openDecodeConfig_steady {rank : Nat} {ownedOnly : Bool} {layerOwner : Nat → Nat}
    {logicalContext cachePages batchSize : Nat} {locality remote : Bool} {pages : Nat → Nat → Option (StatePage R)}
    {records : Nat → Page R} {lruPrev lruNext : Nat → Nat}
    (hopen : openDecodeConfig rank ownedOnly layerOwner logicalContext cachePages batchSize locality remote
      (some ⟨fun _ => 0, pages⟩) records lruPrev lruNext = .ok s)
    (hbatch : batchSize ≤ prefillMaxTokens) :
    (Stage.mk s fun _ => []).Steady (Map.empty : Map Key cachePages) ⟨fun _ => 0, pages⟩ := by
  obtain ⟨hmirrors, -, hsegments⟩ := openDecodeConfig_mirrors hopen
  obtain ⟨-, cache, -, rfl⟩ := openDecodeConfig_eq hopen
  refine ⟨⟨hmirrors, rfl, ?_, fun _ _ => Nat.zero_le _, fun _ _ => filed_zero _ _, Map.coherent_empty ?_⟩,
    fun _ _ => rfl, hbatch⟩
  · exact maxContext_le hsegments
  · rintro key ⟨index, -, token, -, hbelow, -⟩
    exact Nat.not_lt_zero _ hbelow

/-- Over every run of a session that opens on a state file with nothing committed, as long as each call finds
the session so that it takes no pinned slot and loses no records, committed records survive: each page that is
gathered or handed out has the records of its block, and so have the pages of the cache and of the file. -/
theorem eviction_endures {rank : Nat} {ownedOnly : Bool} {layerOwner : Nat → Nat}
    {logicalContext cachePages batchSize : Nat} {locality remote : Bool} {pages : Nat → Nat → Option (StatePage R)}
    {records : Nat → Page R} {lruPrev lruNext : Nat → Nat}
    (hopen : openDecodeConfig rank ownedOnly layerOwner logicalContext cachePages batchSize locality remote
      (some ⟨fun _ => 0, pages⟩) records lruPrev lruNext = .ok s)
    (hbatch : batchSize ≤ prefillMaxTokens) (steps : List (Step R))
    (hserved : (Stage.mk s fun _ => []).Along Stage.Served steps)
    (hsafe : (Stage.mk s fun _ => []).Along Stage.Safe steps) : (Stage.mk s fun _ => []).Endures steps :=
  (openDecodeConfig_steady hopen hbatch).endures hserved hsafe

def Attention.idle : Attention Nat := ⟨[], [], fun _ _ => .ok []⟩

theorem Attention.idle_sound (s : Session Nat) (log : Log Nat) (state : State Nat) (index tokens : Nat) :
    Attention.idle.Sound s log state index tokens := by
  refine ⟨fun _ hblock => (nomatch hblock), fun _ hpage => (nomatch hpage), ?_⟩
  rintro - layer other blocks pages - hpages pair hpair
  obtain rfl := Except.ok.inj hpages
  rw [List.zip_nil_right] at hpair
  cases hpair

/-- A session of rank 1 that owns every eighth layer from layer 3 on, with a new state file. -/
def ownedSession (cachePages : Nat) : Except Error (Session Nat) :=
  openDecodeConfig 1 true (fun layer => if layer % 8 = 3 then 1 else 0) 64 cachePages 8 false false
    (some ⟨fun _ => 0, fun _ _ => none⟩) (fun _ _ => 0) (fun _ => 0) (fun _ => 0)

def oneToken : List (Step Nat) :=
  [.decode 3 0 (0, 0, 0) 10 .idle false, .decode 11 0 (0, 0, 0) 20 .idle false]

theorem oneToken_served (stage : Stage Nat) : stage.Along Stage.Served oneToken :=
  ⟨fun index _ state _ => Attention.idle_sound _ _ state index _, fun _ _ _ =>
    ⟨fun index _ state _ => Attention.idle_sound _ _ state index _, fun _ _ _ => trivial⟩⟩

/-- With one page of cache the second layer's commit takes the page of the first: its record is nowhere. -/
theorem eviction_takes_pinned_page : ∃ s : Session Nat, ownedSession 1 = .ok s ∧
    (Stage.mk s fun _ => []).Along Stage.Served oneToken ∧ ¬(Stage.mk s fun _ => []).Endures oneToken := by
  have hrun : ((ownedSession 1).toOption.bind fun s => (Stage.mk s fun _ => []).exec oneToken).any (fun final =>
      final.log 0 == [10] && decide (0 < final.session.layerCount) && decide (final.session.cachePages = 1) &&
      !final.session.cache.holds (final.session.layerAt 0) 0 0 &&
      final.session.state.all fun state => (state.pages 0 0).isNone) = true := by
    decide +kernel
  cases hopen : ownedSession 1 with
  | error error =>
    rw [hopen] at hrun
    cases hrun
  | ok s =>
    refine ⟨s, rfl, oneToken_served _, fun hendures => ?_⟩
    rw [hopen, Except.toOption, bind_some] at hrun
    cases hexec : (Stage.mk s fun _ => []).exec oneToken with
    | none =>
      rw [hexec] at hrun
      cases hrun
    | some final =>
      rw [hexec, any_some] at hrun
      simp only [Bool.and_eq_true, beq_iff_eq, decide_eq_true_eq, Bool.not_eq_true'] at hrun
      obtain ⟨⟨⟨⟨hlog, hcount⟩, hpages⟩, hcached⟩, hfiled⟩ := hrun
      rcases (hendures.exec hexec).kept 0 hcount 0 (by rw [hlog]; exact Nat.one_pos) with
        ⟨slot, hslot, hholds⟩ | ⟨state, page, hstate, hpage, -⟩
      · obtain rfl : slot = 0 := by omega
        rw [show UInt32.ofNat 0 = 0 from rfl, hcached] at hholds
        cases hholds
      · rw [hstate, all_some, hpage] at hfiled
        cases hfiled

theorem Stage.safe_first
    (hroom : stage.session.pinnedPages.card + 1 < stage.session.cachePages) (layer : UInt32) (position : Position)
    (record : R) (input : Attention R) (group : Bool) : stage.Safe (.decode layer 0 position record input group) := by
  have hcard : ∀ layer, (stage.session.pinnedPages ∪ rangePages layer 0 1).card < stage.session.cachePages := by
    intro layer
    calc (stage.session.pinnedPages ∪ rangePages layer 0 1).card
        ≤ stage.session.pinnedPages.card + (rangePages layer 0 1).card := Finset.card_union_le _ _
      _ = stage.session.pinnedPages.card + 1 := by rw [rangePages_one, Finset.card_singleton]
      _ < stage.session.cachePages := hroom
  intro index _ _
  exact ⟨⟨fun hinside => absurd rfl hinside, Nat.le_of_lt (hcard _)⟩, .inl (hcard _)⟩

/-- With three pages no record is lost. -/
theorem eviction_endures_one_token : ∃ s : Session Nat, ownedSession 3 = .ok s ∧
    (Stage.mk s fun _ => []).Endures oneToken := by
  have hspare : (ownedSession 3).toOption.any (fun s => decide (s.pinnedPages.card + 1 < s.cachePages) &&
      ((Stage.mk s fun _ => []).perform (.decode 3 0 (0, 0, 0) 10 .idle false)).all fun (_, next) =>
        decide (next.session.pinnedPages.card + 1 < next.session.cachePages)) = true := by
    decide +kernel
  cases hopen : ownedSession 3 with
  | error error =>
    rw [hopen] at hspare
    cases hspare
  | ok s =>
    rw [hopen, Except.toOption, any_some, Bool.and_eq_true, decide_eq_true_eq] at hspare
    obtain ⟨hfirst, hnext⟩ := hspare
    refine ⟨s, rfl, eviction_endures hopen (by decide) oneToken (oneToken_served _) ?_⟩
    refine ⟨Stage.safe_first hfirst _ _ _ _ _, fun shown next hperform => ⟨?_, fun _ _ _ => trivial⟩⟩
    rw [hperform, all_some, decide_eq_true_eq] at hnext
    exact Stage.safe_first hnext _ _ _ _ _

end FlashGordon.QsaSession
