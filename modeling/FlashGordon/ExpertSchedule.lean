import FlashGordon.RoutePartition

/-! The tile schedule of a prefill batch on one expert rank (`expert.c`). The routes of a work are checked and given
their local expert; the tiles of an expert come one after the other, in the order of the local experts, and the pairs
fill them as they arrive. The schedule keeps every index at which it was written, so that the writes can be compared
with the words that were allocated. -/

namespace FlashGordon.Prefill

open Function List

/-- What `create_scratch` makes sure of. -/
structure ExpertExecutor where
  rank : Nat
  maxTokens : Nat
  positive : 0 < maxTokens
  bounded : maxTokens ≤ prefillMaxTokens

def ExpertExecutor.maxPairs (executor : ExpertExecutor) : Nat := executor.maxTokens * topK

/-- `FG_Q38_PREFILL_TILE_WORDS` and `FG_Q38_DECODE_TILE_WORDS`. -/
def prefillTileWords : Nat := 5

def decodeTileWords : Nat := 9

/-- The words of `schedule`. -/
def ExpertExecutor.capacity (executor : ExpertExecutor) : Nat := executor.maxPairs * prefillTileWords

/-- `FG_HIDDEN_SIZE`. -/
def outputWidth : Nat := 2560

/-- `fg_expert_local_count`. -/
def expertLocalCount (manifest : Manifest) (layer rank : Nat) : Nat :=
  if layerCount ≤ layer ∨ rankCount ≤ rank then 0
  else (List.range expertCount).countP fun expert => manifest.expertRank layer expert = rank

/-- `fg_expert_local_index`, without `UINT32_MAX`. -/
def expertLocalIndex (manifest : Manifest) (layer rank expert : Nat) : Option Nat :=
  if layerCount ≤ layer ∨ rankCount ≤ rank ∨ expertCount ≤ expert ∨ manifest.expertRank layer expert ≠ rank then none
  else some ((List.range expert).countP fun e => manifest.expertRank layer e = rank)

def prefillPairId (pair : PrefillPair) : Nat := pair.tokenSlot * topK + pair.routingSlot

/-- The array `local_ids`, without `UINT16_MAX`. -/
def localIds (ranks : Nat → Nat) (rank : Nat) : Nat → List Nat → List (Option Nat)
  | _, [] => []
  | next, expert :: rest =>
    if ranks expert = rank then some next :: localIds ranks rank (next + 1) rest
    else none :: localIds ranks rank next rest

/-- The loop over the pairs, which fills `locals`. -/
def checkExpertPairs (ids : List (Option Nat)) (localCount tokenCount : Nat) :
    Nat → List (Nat × Nat) → List PrefillPair → Except Error (List Nat)
  | _, _, [] => .ok []
  | i, seen, pair :: rest =>
    match (ids[pair.expertId]?).join with
    | none => .error ⟨.mismatch, s!"invalid expert prefill route {i}"⟩
    | some index =>
      if tokenCount ≤ pair.tokenSlot ∨ topK ≤ pair.routingSlot ∨ expertCount ≤ pair.expertId ∨
          (pair.tokenSlot, pair.routingSlot) ∈ seen ∨ localCount ≤ index ∨ pair.gate.isFinite = false then
        .error ⟨.mismatch, s!"invalid expert prefill route {i}"⟩
      else
        (checkExpertPairs ids localCount tokenCount (i + 1) ((pair.tokenSlot, pair.routingSlot) :: seen) rest).map
          (index :: ·)

/-- The checks of `fg_expert_prefill_enqueue` on its work. -/
def expertPrefillLocals (manifest : Manifest) (executor : ExpertExecutor) (work : PrefillWork)
    (pairCapacity outputCapacity : Nat) : Except Error (List Nat) :=
  let localCount := expertLocalCount manifest work.layer executor.rank
  if layerCount ≤ work.layer ∨ work.destinationRank ≠ executor.rank ∨
      (work.sourceRank ≠ 0 ∧ work.sourceRank ≠ manifest.layerOwner work.layer) ∨
      work.tokenCount = 0 ∨ executor.maxTokens < work.tokenCount ∨
      work.pairs.length = 0 ∨ executor.maxPairs < work.pairs.length ∨
      pairCapacity < work.pairs.length ∨ outputCapacity < work.tokenCount * outputWidth ∨ localCount = 0 then
    .error ⟨.mismatch, "expert prefill work does not match rank, owner, or configured microbatch"⟩
  else
    checkExpertPairs (localIds (manifest.expertRank work.layer) executor.rank 0 (List.range expertCount)) localCount
      work.tokenCount 0 [] work.pairs

inductive TileLayout where
  | grouped
  | singlePair
  | eightPairs
  deriving DecidableEq

def TileLayout.width : TileLayout → Nat
  | .grouped => 4
  | .singlePair => 1
  | .eightPairs => 8

def TileLayout.words : TileLayout → Nat
  | .grouped => prefillTileWords
  | .singlePair | .eightPairs => decodeTileWords

/-- The entry `starts[local]`: the tiles of the experts before it. -/
def tileStart (width : Nat) (counts : Nat → Nat) : Nat → Nat
  | 0 => 0
  | index + 1 => tileStart width counts index + (counts index + width - 1) / width

structure TileSchedule where
  word : Nat → UInt32
  used : Nat → Nat
  written : List Nat

def unused : UInt32 := 0xffffffff

def placePair (layout : TileLayout) (starts : Nat → Nat) (schedule : TileSchedule) (entry : Nat × PrefillPair) :
    TileSchedule :=
  let index := schedule.used entry.1
  let tile := starts entry.1 + index / layout.width
  let head := tile * layout.words
  let cell := tile * layout.words + 1 + index % layout.width
  { word := Function.update (Function.update schedule.word head (.ofNat entry.1)) cell (.ofNat (prefillPairId entry.2))
    used := Function.update schedule.used entry.1 (index + 1)
    written := schedule.written ++ [head, cell] }

/-- The tiles of a batch, and its schedule over what was in the memory before. -/
def tileCount (layout : TileLayout) (localCount : Nat) (locals : List Nat) : Nat :=
  tileStart layout.width (fun index => locals.count index) localCount

def expertSchedule (layout : TileLayout) (localCount : Nat) (memory : Nat → UInt32) (locals : List Nat)
    (pairs : List PrefillPair) : TileSchedule :=
  let cleared := tileCount layout localCount locals * layout.words
  (locals.zip pairs).foldl (placePair layout (tileStart layout.width fun index => locals.count index))
    { word := fun i => if i < cleared then unused else memory i, used := fun _ => 0, written := List.range cleared }

variable {manifest : Manifest} {executor : ExpertExecutor} {work : PrefillWork} {layer rank expert : Nat}

theorem getElem?_localIds (ranks : Nat → Nat) (next first n k : Nat) :
    (localIds ranks rank next (List.range' first n))[k]?.join =
      if k < n ∧ ranks (first + k) = rank then
        some (next + (List.range' first k).countP fun e => ranks e = rank)
      else none := by
  induction n generalizing next first k with
  | zero => simp [localIds]
  | succ n ih =>
    rw [List.range'_succ, localIds]
    cases k with
    | zero => split <;> simp_all
    | succ k =>
      rw [List.range'_succ, countP_cons, show first + (k + 1) = first + 1 + k by omega]
      split
      next hfirst =>
        rw [List.getElem?_cons_succ, ih]
        simp only [hfirst, decide_true, if_true, Nat.add_lt_add_iff_right]
        split
        · congr 1
          omega
        · rfl
      next hfirst =>
        rw [List.getElem?_cons_succ, ih]
        simp only [hfirst, decide_false, Bool.false_eq_true, if_false, Nat.add_lt_add_iff_right, Nat.add_zero]

theorem localIds_join (hlayer : layer < layerCount) (hrank : rank < rankCount) (expert : Nat) :
    (localIds (manifest.expertRank layer) rank 0 (List.range expertCount))[expert]?.join =
      expertLocalIndex manifest layer rank expert := by
  rw [range_eq_range', getElem?_localIds, expertLocalIndex, range_eq_range', Nat.zero_add, Nat.zero_add]
  have hboth : ¬(layerCount ≤ layer ∨ rankCount ≤ rank ∨ expertCount ≤ expert ∨
      manifest.expertRank layer expert ≠ rank) ↔ expert < expertCount ∧ manifest.expertRank layer expert = rank := by
    rw [not_or, not_or, not_or, not_le, not_le, not_le, not_not]
    exact ⟨fun h => h.2.2, fun h => ⟨hlayer, hrank, h⟩⟩
  by_cases h : expert < expertCount ∧ manifest.expertRank layer expert = rank
  · rw [if_pos h, if_neg (hboth.mpr h)]
  · rw [if_neg h, if_pos (not_not.mp fun hne => h (hboth.mp hne))]

/-- What the loop over the pairs makes sure of. -/
structure Accepted (manifest : Manifest) (layer rank tokenCount : Nat) (locals : List Nat) (pairs : List PrefillPair) :
    Prop where
  length : locals.length = pairs.length
  index : ∀ entry ∈ locals.zip pairs, expertLocalIndex manifest layer rank entry.2.expertId = some entry.1
  slots : ∀ pair ∈ pairs, pair.tokenSlot < tokenCount ∧ pair.routingSlot < topK
  nodup : (pairs.map fun pair => (pair.tokenSlot, pair.routingSlot)).Nodup

theorem checkExpertPairs_ok {ids : List (Option Nat)}
    (hids : ∀ expert, ids[expert]?.join = expertLocalIndex manifest layer rank expert) {localCount tokenCount i : Nat}
    {seen : List (Nat × Nat)} {locals : List Nat} {pairs : List PrefillPair}
    (h : checkExpertPairs ids localCount tokenCount i seen pairs = .ok locals) :
    Accepted manifest layer rank tokenCount locals pairs ∧
      (∀ pair ∈ pairs, (pair.tokenSlot, pair.routingSlot) ∉ seen) ∧ ∀ index ∈ locals, index < localCount := by
  induction pairs generalizing i seen locals with
  | nil =>
    obtain rfl : [] = locals := by simpa [checkExpertPairs] using h
    exact ⟨⟨rfl, by simp, by simp, nodup_nil⟩, by simp, by simp⟩
  | cons pair rest ih =>
    rw [checkExpertPairs, hids] at h
    split at h
    · cases h
    next index hindex =>
      split at h
      · cases h
      next hpair =>
        rw [not_or, not_or, not_or, not_or, not_or, not_le, not_le, not_le] at hpair
        obtain ⟨htoken, hslot, -, hseen, hlocal, -⟩ := hpair
        cases hrest : checkExpertPairs ids localCount tokenCount (i + 1) ((pair.tokenSlot, pair.routingSlot) :: seen)
            rest with
        | error err =>
          rw [hrest] at h
          cases h
        | ok others =>
          rw [hrest] at h
          cases h
          obtain ⟨haccepted, hnew, hlt⟩ := ih hrest
          refine ⟨⟨?_, ?_, ?_, ?_⟩, ?_, ?_⟩
          · exact congrArg Nat.succ haccepted.length
          · exact forall_mem_cons.mpr ⟨hindex, haccepted.index⟩
          · exact forall_mem_cons.mpr ⟨⟨htoken, hslot⟩, haccepted.slots⟩
          · refine nodup_cons.mpr ⟨fun hmem => ?_, haccepted.nodup⟩
            obtain ⟨other, hother, heq⟩ := mem_map.mp hmem
            exact hnew other hother (heq ▸ mem_cons_self)
          · exact forall_mem_cons.mpr
              ⟨hseen, fun other hother hmem => hnew other hother (mem_cons_of_mem _ hmem)⟩
          · exact forall_mem_cons.mpr ⟨Nat.not_le.mp hlocal, hlt⟩

section Tiles

variable {layout : TileLayout} {counts : Nat → Nat} {width : Nat}

theorem TileLayout.width_pos (layout : TileLayout) : 0 < layout.width := by cases layout <;> decide

theorem TileLayout.width_lt (layout : TileLayout) : layout.width < layout.words := by cases layout <;> decide

theorem tileStart_mono (width : Nat) (counts : Nat → Nat) : Monotone (tileStart width counts) :=
  monotone_nat_of_le_succ fun _ => Nat.le_add_right _ _

theorem tile_lt (hwidth : 0 < width) {index i : Nat} (h : i < counts index) :
    tileStart width counts index + i / width < tileStart width counts (index + 1) := by
  rw [tileStart]
  have hstep : (i + width) / width ≤ (counts index + width - 1) / width := Nat.div_le_div_right (by omega)
  rw [Nat.add_div_right _ hwidth] at hstep
  omega

theorem tile_unique {tile a b : Nat}
    (ha : tileStart width counts a ≤ tile ∧ tile < tileStart width counts (a + 1))
    (hb : tileStart width counts b ≤ tile ∧ tile < tileStart width counts (b + 1)) : a = b := by
  have hmono := tileStart_mono width counts
  rcases Nat.lt_trichotomy a b with hlt | heq | hgt
  · have := hmono (Nat.succ_le_of_lt hlt)
    rw [Nat.succ_eq_add_one] at this
    omega
  · exact heq
  · have := hmono (Nat.succ_le_of_lt hgt)
    rw [Nat.succ_eq_add_one] at this
    omega

/-- The place of the `n`-th cell, when the cells of all tiles are counted on. -/
def cellOf (layout : TileLayout) (n : Nat) : Nat := n / layout.width * layout.words + 1 + n % layout.width

theorem cellOf_lt (layout : TileLayout) (n : Nat) :
    n / layout.width * layout.words < cellOf layout n ∧ cellOf layout n < (n / layout.width + 1) * layout.words := by
  have hmod := Nat.mod_lt n layout.width_pos
  have hwords := layout.width_lt
  rw [cellOf, Nat.succ_mul]
  omega

theorem cellOf_div (layout : TileLayout) (n : Nat) : cellOf layout n / layout.words = n / layout.width := by
  obtain ⟨hlow, hhigh⟩ := cellOf_lt layout n
  exact Nat.div_eq_of_lt_le hlow.le hhigh

theorem cellOf_mod (layout : TileLayout) (n : Nat) : cellOf layout n % layout.words = 1 + n % layout.width := by
  have hmod := Nat.mod_lt n layout.width_pos
  have hwords := layout.width_lt
  rw [cellOf, Nat.add_assoc, Nat.mul_add_mod', Nat.mod_eq_of_lt (by omega)]

theorem cellOf_inj {n m : Nat} (h : cellOf layout n = cellOf layout m) : n = m := by
  have hdiv := (cellOf_div layout n).symm.trans ((congrArg (· / layout.words) h).trans (cellOf_div layout m))
  have hmod := (cellOf_mod layout n).symm.trans ((congrArg (· % layout.words) h).trans (cellOf_mod layout m))
  rw [← Nat.div_add_mod n layout.width, ← Nat.div_add_mod m layout.width, hdiv, Nat.add_left_cancel hmod]

theorem word_cases {at_ : Nat} (h : at_ % layout.words ≠ 0) :
    layout.width < at_ % layout.words ∨ ∃ n, at_ = cellOf layout n := by
  by_cases hbehind : layout.width < at_ % layout.words
  · exact .inl hbehind
  · refine .inr ⟨at_ / layout.words * layout.width + (at_ % layout.words - 1), ?_⟩
    have hwidth := layout.width_pos
    have hlt : at_ % layout.words - 1 < layout.width := by omega
    rw [cellOf, Nat.mul_comm (at_ / layout.words) layout.width, Nat.mul_add_div hwidth, Nat.div_eq_of_lt hlt,
      Nat.mul_add_mod, Nat.mod_eq_of_lt hlt]
    have hsplit := Nat.div_add_mod' at_ layout.words
    simp only [Nat.add_zero]
    omega

end Tiles

/-! ## The schedule as buckets of cells -/

section Filling

variable {layout : TileLayout} {localCount : Nat} {memory : Nat → UInt32} {locals : List Nat} {pairs : List PrefillPair}

def cellBase (layout : TileLayout) (locals : List Nat) (index : Nat) : Nat :=
  tileStart layout.width (fun index => locals.count index) index * layout.width

def entryKey : Option (Nat × PrefillPair) → Nat
  | some entry => entry.1
  | none => 0

def cells (layout : TileLayout) (locals : List Nat) (entries : List (Nat × PrefillPair)) :
    Buckets.State Nat (Option (Nat × PrefillPair)) :=
  Buckets.run entryKey (cellBase layout locals) (fun _ => none) (entries.map some)

def cellWord : Option (Nat × PrefillPair) → UInt32
  | some entry => .ofNat (prefillPairId entry.2)
  | none => unused

structure Fills (layout : TileLayout) (localCount : Nat) (locals : List Nat) (schedule : TileSchedule)
    (filled : Buckets.State Nat (Option (Nat × PrefillPair))) : Prop where
  used : schedule.used = filled.written
  cell : ∀ n, cellOf layout n < tileCount layout localCount locals * layout.words →
    schedule.word (cellOf layout n) = cellWord (filled.storage n)
  head : ∀ n entry, filled.storage n = some entry →
    schedule.word (n / layout.width * layout.words) = .ofNat entry.1
  tile : ∀ n entry, filled.storage n = some entry →
    tileStart layout.width (fun index => locals.count index) entry.1 ≤ n / layout.width ∧
      n / layout.width < tileStart layout.width (fun index => locals.count index) (entry.1 + 1)
  behind : ∀ at_ < tileCount layout localCount locals * layout.words, layout.width < at_ % layout.words →
    schedule.word at_ = unused
  within : ∀ at_ ∈ schedule.written, at_ < tileCount layout localCount locals * layout.words

theorem Fills.place {schedule : TileSchedule} {filled : Buckets.State Nat (Option (Nat × PrefillPair))}
    (h : Fills layout localCount locals schedule filled) {entry : Nat × PrefillPair} (hlocal : entry.1 < localCount)
    (hroom : filled.written entry.1 < locals.count entry.1) :
    Fills layout localCount locals
      (placePair layout (tileStart layout.width fun index => locals.count index) schedule entry)
      (Buckets.put entryKey (cellBase layout locals) filled (some entry)) := by
  obtain ⟨index, pair⟩ := entry
  set start := tileStart layout.width fun index => locals.count index with hstart
  set i := filled.written index with hi
  set n := start index * layout.width + i with hn
  have hdiv : n / layout.width = start index + i / layout.width := by
    rw [hn, Nat.mul_comm, Nat.mul_add_div layout.width_pos]
  have hmod : n % layout.width = i % layout.width := by rw [hn, Nat.mul_add_mod']
  have hrange : start index ≤ n / layout.width ∧ n / layout.width < start (index + 1) := by
    rw [hdiv]
    exact ⟨Nat.le_add_right _ _, tile_lt layout.width_pos hroom⟩
  have htiles : n / layout.width + 1 ≤ tileCount layout localCount locals :=
    Nat.succ_le_of_lt (hrange.2.trans_le (tileStart_mono _ _ (Nat.succ_le_of_lt hlocal)))
  have hcleared := Nat.mul_le_mul_right layout.words htiles
  have hcell := cellOf_lt layout n
  have hused : schedule.used index = i := by rw [h.used]
  have hword : (placePair layout start schedule (index, pair)).word =
      update (update schedule.word (n / layout.width * layout.words) (.ofNat index)) (cellOf layout n)
        (.ofNat (prefillPairId pair)) := by
    simp only [placePair, hused, cellOf, hdiv, hmod]
  have hstorage : (Buckets.put entryKey (cellBase layout locals) filled (some (index, pair))).storage =
      update filled.storage n (some (index, pair)) := rfl
  refine ⟨?_, ?_, ?_, ?_, ?_, ?_⟩
  · simp only [placePair, hused]
    rw [h.used]
    rfl
  · intro m hm
    rw [hword, hstorage]
    by_cases hmn : m = n
    · rw [hmn, update_self, update_self]
      rfl
    · have hne : cellOf layout m ≠ n / layout.width * layout.words := fun heq => by
        have hzero := cellOf_mod layout m
        rw [heq, Nat.mul_mod_left] at hzero
        omega
      rw [update_of_ne fun heq => hmn (cellOf_inj heq), update_of_ne hne, update_of_ne hmn]
      exact h.cell m hm
  · intro m other hother
    rw [hword]
    rw [hstorage] at hother
    have hne (k : Nat) : k * layout.words ≠ cellOf layout n := fun heq => by
      have hzero := cellOf_mod layout n
      rw [← heq, Nat.mul_mod_left] at hzero
      omega
    rw [update_of_ne (hne _)]
    by_cases hmn : m = n
    · rw [hmn, update_self] at hother
      obtain rfl := Option.some.inj hother
      rw [hmn, update_self]
    · rw [update_of_ne hmn] at hother
      by_cases htile : m / layout.width = n / layout.width
      · have hsame := tile_unique (h.tile m other hother) (htile ▸ hrange)
        rw [htile, update_self, hsame]
      · rw [update_of_ne fun heq => htile (Nat.eq_of_mul_eq_mul_right (Nat.zero_lt_of_lt layout.width_lt) heq)]
        exact h.head m other hother
  · intro m other hother
    rw [hstorage] at hother
    by_cases hmn : m = n
    · rw [hmn, update_self] at hother
      obtain rfl := Option.some.inj hother
      exact hmn ▸ hrange
    · rw [update_of_ne hmn] at hother
      exact h.tile m other hother
  · intro at_ hat hbehind
    have hmodlt := Nat.mod_lt n layout.width_pos
    rw [hword, update_of_ne, update_of_ne]
    · exact h.behind at_ hat hbehind
    · rintro rfl
      rw [Nat.mul_mod_left] at hbehind
      exact absurd hbehind (Nat.not_lt_zero _)
    · rintro rfl
      rw [cellOf_mod] at hbehind
      omega
  · have hwritten : (placePair layout start schedule (index, pair)).written =
        schedule.written ++ [n / layout.width * layout.words, cellOf layout n] := by
      simp only [placePair, hused, cellOf, hdiv, hmod]
    intro at_ hat
    rw [hwritten, mem_append] at hat
    rcases hat with hold | hnew
    · exact h.within at_ hold
    · simp only [mem_cons, not_mem_nil, or_false] at hnew
      omega

theorem length_ofKey (hlength : locals.length = pairs.length) (index : Nat) :
    (Buckets.ofKey entryKey ((locals.zip pairs).map some) index).length = locals.count index := by
  conv_rhs => rw [← map_fst_zip hlength.le, List.count, countP_map]
  rw [Buckets.ofKey, ← countP_eq_length_filter, countP_map]
  rfl

theorem cellBase_div (index i : Nat) : (cellBase layout locals index + i) / layout.width =
    tileStart layout.width (fun index => locals.count index) index + i / layout.width := by
  rw [cellBase, Nat.mul_comm, Nat.mul_add_div layout.width_pos]

theorem cellBase_apart : Buckets.Apart (cellBase layout locals) fun index => locals.count index := by
  intro a b hne i hi j hj heq
  have hdiv := congrArg (· / layout.width) heq
  simp only [cellBase_div] at hdiv
  refine hne (@tile_unique (fun index => locals.count index) layout.width _ _ _
    ⟨Nat.le_add_right _ _, tile_lt layout.width_pos hi⟩ ?_)
  rw [hdiv]
  exact ⟨Nat.le_add_right _ _, tile_lt layout.width_pos hj⟩

theorem fills_expertSchedule (hlength : locals.length = pairs.length) (hlocals : ∀ index ∈ locals, index < localCount) :
    Fills layout localCount locals (expertSchedule layout localCount memory locals pairs)
      (cells layout locals (locals.zip pairs)) := by
  have hall : ∀ entries : List (Nat × PrefillPair), entries <+: locals.zip pairs →
      Fills layout localCount locals
        (entries.foldl (placePair layout (tileStart layout.width fun index => locals.count index))
          { word := fun i => if i < tileCount layout localCount locals * layout.words then unused else memory i
            used := fun _ => 0
            written := List.range (tileCount layout localCount locals * layout.words) })
        (cells layout locals entries) := by
    intro entries
    induction entries using List.reverseRecOn with
    | nil =>
      intro
      exact ⟨rfl, fun n hn => if_pos hn, fun n _ h => (nomatch h), fun n _ h => (nomatch h),
        fun at_ hat _ => if_pos hat, fun at_ hat => mem_range.mp hat⟩
    | append_singleton entries entry ih =>
      intro hinitial
      have hbefore := ih ((prefix_append _ _).trans hinitial)
      rw [foldl_append, cells, map_append, map_singleton, Buckets.run_append_singleton]
      have hmem : entry ∈ locals.zip pairs :=
        hinitial.subset (mem_append_right _ (mem_singleton_self entry))
      refine hbefore.place (hlocals _ (of_mem_zip hmem).1) ?_
      have hkept := ((hinitial.map some).filter fun item => decide (entryKey item = entry.1)).length_le
      rw [map_append, map_singleton] at hkept
      change (Buckets.ofKey entryKey (entries.map some ++ [some entry]) entry.1).length ≤
        (Buckets.ofKey entryKey ((locals.zip pairs).map some) entry.1).length at hkept
      rw [length_ofKey hlength, Buckets.ofKey_append_singleton, if_pos (show entryKey (some entry) = entry.1 from rfl),
        length_append, length_singleton] at hkept
      rw [cells, Buckets.run_written]
      exact hkept
  exact hall _ (prefix_refl _)

theorem mem_written {at_ : Nat} (h : at_ < tileCount layout localCount locals * layout.words) :
    at_ ∈ (expertSchedule layout localCount memory locals pairs).written := by
  have hgrows : ∀ (entries : List (Nat × PrefillPair)) (schedule : TileSchedule),
      schedule.written ⊆ (entries.foldl (placePair layout (tileStart layout.width fun index => locals.count index))
        schedule).written := by
    intro entries
    induction entries with
    | nil => exact fun schedule => List.Subset.refl _
    | cons entry rest ih => exact fun schedule at_ hat => ih _ (mem_append_left _ hat)
  exact hgrows _ _ (mem_range.mpr h)

theorem storage_cells (hlength : locals.length = pairs.length) {n : Nat} {entry : Nat × PrefillPair} :
    (cells layout locals (locals.zip pairs)).storage n = some entry ↔
      ∃ i, (Buckets.ofKey entryKey ((locals.zip pairs).map some) entry.1)[i]? = some (some entry) ∧
        n = cellBase layout locals entry.1 + i := by
  have hroom (index : Nat) : (Buckets.ofKey entryKey ((locals.zip pairs).map some) index).length ≤ locals.count index :=
    (length_ofKey hlength index).le
  constructor
  · intro h
    by_contra hnone
    have hframe := @Buckets.run_frame Nat _ _ entryKey (cellBase layout locals) (fun _ => none)
      ((locals.zip pairs).map some) n fun index i hi heq => ?_
    · exact absurd (h.symm.trans hframe) (Option.some_ne_none entry)
    · have hget := List.getElem?_eq_getElem hi
      have hread : (cells layout locals (locals.zip pairs)).storage (cellBase layout locals index + i) = _ :=
        Buckets.run_get cellBase_apart hroom hget
      rw [← heq] at hread
      have hitem := h.symm.trans hread
      have hkey : entryKey (some entry) = index := by
        rw [hitem]
        exact of_decide_eq_true (mem_filter.mp (getElem_mem hi)).2
      subst hkey
      exact hnone ⟨i, hitem ▸ hget, heq⟩
  · rintro ⟨i, hget, rfl⟩
    exact Buckets.run_get cellBase_apart hroom hget

end Filling

/-! ## The schedule of an accepted work -/

def Lists (layout : TileLayout) (tiles : Nat) (schedule : TileSchedule) (at_ : Nat) (pair : PrefillPair) : Prop :=
  at_ < tiles * layout.words ∧ at_ % layout.words ≠ 0 ∧ schedule.word at_ = .ofNat (prefillPairId pair)

/-- Every pair is listed once, behind the local index of its expert; a tile has the pairs of one expert, the rest of
its words is unused, and no word is written outside the memory. -/
structure Scheduled (manifest : Manifest) (executor : ExpertExecutor) (work : PrefillWork) (layout : TileLayout)
    (tiles : Nat) (schedule : TileSchedule) : Prop where
  listed : ∀ pair ∈ work.pairs, ∃! at_, Lists layout tiles schedule at_ pair
  headed : ∀ pair ∈ work.pairs, ∀ at_, Lists layout tiles schedule at_ pair →
    expertLocalIndex manifest work.layer executor.rank pair.expertId =
      some (schedule.word (at_ / layout.words * layout.words)).toNat
  unmixed : ∀ pair ∈ work.pairs, ∀ other ∈ work.pairs, ∀ at_ at_', Lists layout tiles schedule at_ pair →
    Lists layout tiles schedule at_' other → at_ / layout.words = at_' / layout.words → pair.expertId = other.expertId
  blank : ∀ at_ < tiles * layout.words, at_ % layout.words ≠ 0 →
    (∃ pair ∈ work.pairs, Lists layout tiles schedule at_ pair) ∨ schedule.word at_ = unused
  bounded : ∀ at_ ∈ schedule.written, at_ < executor.capacity

def workTiles (width : Nat) (work : PrefillWork) : Nat :=
  ((List.range expertCount).map fun expert =>
    (work.pairs.countP (fun pair => pair.expertId = expert) + width - 1) / width).sum

section Accepted

variable {locals : List Nat} {pairCapacity outputCapacity : Nat} {layout : TileLayout} {memory : Nat → UInt32}

theorem expertLocalIndex_some {index : Nat} (h : expertLocalIndex manifest layer rank expert = some index) :
    expert < expertCount ∧ manifest.expertRank layer expert = rank ∧ index = localExpert manifest layer expert := by
  unfold expertLocalIndex at h
  split at h
  · cases h
  next hpart =>
    rw [not_or, not_or, not_or, not_not] at hpart
    obtain ⟨-, -, hexpert, hrank⟩ := hpart
    refine ⟨Nat.not_le.mp hexpert, hrank, (Option.some.inj h).symm.trans ?_⟩
    rw [localExpert, hrank]

theorem expertLocalIndex_inj {other index : Nat} (h : expertLocalIndex manifest layer rank expert = some index)
    (hother : expertLocalIndex manifest layer rank other = some index) : expert = other := by
  obtain ⟨-, hrank, heq⟩ := expertLocalIndex_some h
  obtain ⟨-, hrank', heq'⟩ := expertLocalIndex_some hother
  exact localExpert_injective (hrank.trans hrank'.symm) (heq.symm.trans heq')

theorem expertPrefillLocals_ok (h : expertPrefillLocals manifest executor work pairCapacity outputCapacity = .ok locals) :
    Accepted manifest work.layer executor.rank work.tokenCount locals work.pairs ∧
      (∀ index ∈ locals, index < expertLocalCount manifest work.layer executor.rank) ∧
      work.tokenCount ≤ executor.maxTokens ∧ work.pairs.length ≤ executor.maxPairs ∧
      work.layer < layerCount ∧ executor.rank < rankCount := by
  unfold expertPrefillLocals at h
  dsimp only at h
  split at h
  · cases h
  next hheader =>
    simp only [not_or, not_le, not_lt] at hheader
    obtain ⟨hlayer, -, -, -, htokens, -, hpairs, -, -, hlocal⟩ := hheader
    have hrank : executor.rank < rankCount := by
      by_contra hrank
      exact hlocal (if_pos (.inr (Nat.not_lt.mp hrank)))
    obtain ⟨haccepted, -, hlt⟩ := checkExpertPairs_ok (localIds_join hlayer hrank) h
    exact ⟨haccepted, hlt, htokens, hpairs, hlayer, hrank⟩

theorem prefillPairId_inj {pair other : PrefillPair} (hpair : pair.routingSlot < topK) (hother : other.routingSlot < topK)
    (h : prefillPairId pair = prefillPairId other) :
    (pair.tokenSlot, pair.routingSlot) = (other.tokenSlot, other.routingSlot) := by
  unfold prefillPairId topK at *
  exact Prod.ext (by dsimp only; omega) (by dsimp only; omega)

theorem prefillPairId_lt {pair : PrefillPair} (htoken : pair.tokenSlot < executor.maxTokens)
    (hslot : pair.routingSlot < topK) : prefillPairId pair < 2 ^ 32 - 1 := by
  have hbound := executor.bounded
  unfold prefillPairId topK prefillMaxTokens at *
  omega

theorem ofNat_inj {a b : Nat} (ha : a < 2 ^ 32) (hb : b < 2 ^ 32) (h : UInt32.ofNat a = UInt32.ofNat b) : a = b := by
  have hnat := congrArg UInt32.toNat h
  rwa [UInt32.toNat_ofNat_of_lt' ha, UInt32.toNat_ofNat_of_lt' hb] at hnat

theorem Accepted.count_eq {pairs : List PrefillPair} {tokenCount index : Nat}
    (h : Accepted manifest layer rank tokenCount locals pairs)
    (hindex : expertLocalIndex manifest layer rank expert = some index) :
    locals.count index = pairs.countP fun pair => pair.expertId = expert := by
  conv_lhs => rw [← map_fst_zip h.length.le]
  conv_rhs => rw [← map_snd_zip h.length.ge]
  rw [List.count, countP_map, countP_map]
  refine countP_congr fun entry hentry => ?_
  have hentry := h.index entry hentry
  simp only [comp_apply, beq_iff_eq, decide_eq_true_eq]
  constructor
  · rintro rfl
    exact expertLocalIndex_inj hentry hindex
  · rintro rfl
    exact Option.some.inj (hentry.symm.trans hindex)

theorem Accepted.tileStart_eq {pairs : List PrefillPair} {tokenCount width : Nat} (hwidth : 0 < width)
    (hlayer : layer < layerCount) (hrank : rank < rankCount)
    (h : Accepted manifest layer rank tokenCount locals pairs) {n : Nat} (hn : n ≤ expertCount) :
    tileStart width (fun index => locals.count index)
        ((List.range n).countP fun expert => manifest.expertRank layer expert = rank) =
      ((List.range n).map fun expert =>
        (pairs.countP (fun pair => pair.expertId = expert) + width - 1) / width).sum := by
  induction n with
  | zero => rfl
  | succ n ih =>
    rw [range_succ, countP_append, countP_singleton, map_append, sum_append, ← ih (by omega)]
    by_cases howner : manifest.expertRank layer n = rank
    · have hindex : expertLocalIndex manifest layer rank n =
          some ((List.range n).countP fun expert => manifest.expertRank layer expert = rank) := by
        rw [expertLocalIndex, if_neg]
        rw [not_or, not_or, not_or, not_le, not_le, not_le, not_not]
        exact ⟨hlayer, hrank, hn, howner⟩
      rw [if_pos (decide_eq_true howner), tileStart, h.count_eq hindex]
      simp
    · have hnone : (pairs.countP fun pair => pair.expertId = n) = 0 := by
        rw [← map_snd_zip h.length.ge, countP_map, countP_eq_zero]
        intro entry hentry heq
        have hexpert : entry.2.expertId = n := of_decide_eq_true heq
        exact howner (hexpert ▸ (expertLocalIndex_some (h.index entry hentry)).2.1)
      rw [if_neg (by simpa using howner), map_singleton, sum_singleton, hnone, Nat.zero_add,
        Nat.div_eq_of_lt (by omega : width - 1 < width)]
      rfl

theorem tileCount_eq (h : expertPrefillLocals manifest executor work pairCapacity outputCapacity = .ok locals) :
    tileCount layout (expertLocalCount manifest work.layer executor.rank) locals = workTiles layout.width work := by
  obtain ⟨haccepted, -, -, -, hlayer, hrank⟩ := expertPrefillLocals_ok h
  rw [tileCount, expertLocalCount, if_neg (by omega),
    haccepted.tileStart_eq layout.width_pos hlayer hrank (Nat.le_refl expertCount), workTiles]

end Accepted

section Expert

variable {locals : List Nat} {pairCapacity outputCapacity : Nat} {layout : TileLayout} {memory : Nat → UInt32}

theorem lists_iff (h : expertPrefillLocals manifest executor work pairCapacity outputCapacity = .ok locals)
    {entry : Nat × PrefillPair} (hentry : entry ∈ locals.zip work.pairs) {at_ : Nat} :
    Lists layout (tileCount layout (expertLocalCount manifest work.layer executor.rank) locals)
        (expertSchedule layout (expertLocalCount manifest work.layer executor.rank) memory locals work.pairs) at_ entry.2 ↔
      ∃ n, at_ = cellOf layout n ∧ (cells layout locals (locals.zip work.pairs)).storage n = some entry := by
  obtain ⟨haccepted, hlocals, htokens, -⟩ := expertPrefillLocals_ok h
  have hfills := @fills_expertSchedule layout _ memory locals work.pairs haccepted.length hlocals
  have hid {pair : PrefillPair} (hpair : pair ∈ work.pairs) : prefillPairId pair < 2 ^ 32 - 1 :=
    prefillPairId_lt ((haccepted.slots pair hpair).1.trans_le htokens) (haccepted.slots pair hpair).2
  have hpair := (of_mem_zip hentry).2
  have hused : UInt32.ofNat (prefillPairId entry.2) ≠ unused := fun heq => by
    have hlt := hid hpair
    have hnat := ofNat_inj (by omega) (by decide) (heq.trans (show unused = UInt32.ofNat 4294967295 from rfl))
    omega
  constructor
  · rintro ⟨hlt, hhead, hword⟩
    rcases word_cases hhead with hbehind | ⟨n, rfl⟩
    · exact absurd (hword.symm.trans (hfills.behind at_ hlt hbehind)) hused
    · rw [hfills.cell n hlt] at hword
      cases hstorage : (cells layout locals (locals.zip work.pairs)).storage n with
      | none =>
        rw [hstorage] at hword
        exact absurd hword.symm hused
      | some other =>
        rw [hstorage] at hword
        obtain ⟨i, hget, -⟩ := (storage_cells haccepted.length).mp hstorage
        have hother : other ∈ locals.zip work.pairs := by
          have hmem := (mem_filter.mp (mem_of_getElem? hget)).1
          obtain ⟨same, hsame, heq⟩ := mem_map.mp hmem
          exact Option.some.inj heq ▸ hsame
        have hopair := (of_mem_zip hother).2
        have hsame : other.2 = entry.2 := by
          have hkey := prefillPairId_inj (haccepted.slots _ hopair).2 (haccepted.slots _ hpair).2
            (ofNat_inj (by have := hid hopair; omega) (by have := hid hpair; omega) hword)
          exact inj_on_of_nodup_map haccepted.nodup hopair hpair hkey
        have hindex := haccepted.index other hother
        rw [hsame, haccepted.index entry hentry] at hindex
        exact ⟨n, rfl, hstorage.trans (congrArg some (Prod.ext (Option.some.inj hindex).symm hsame))⟩
  · rintro ⟨n, rfl, hstorage⟩
    have htile := hfills.tile n entry hstorage
    have htiles : n / layout.width + 1 ≤ tileCount layout (expertLocalCount manifest work.layer executor.rank) locals :=
      Nat.succ_le_of_lt (htile.2.trans_le
        (tileStart_mono _ _ (Nat.succ_le_of_lt (hlocals _ (of_mem_zip hentry).1))))
    have hlt := (cellOf_lt layout n).2.trans_le (Nat.mul_le_mul_right layout.words htiles)
    refine ⟨hlt, ?_, ?_⟩
    · rw [cellOf_mod]
      omega
    · rw [hfills.cell n hlt, hstorage]
      rfl

theorem exists_entry (hlength : locals.length = work.pairs.length) {pair : PrefillPair} (hpair : pair ∈ work.pairs) :
    ∃ index, (index, pair) ∈ locals.zip work.pairs := by
  rw [← map_snd_zip hlength.ge] at hpair
  obtain ⟨entry, hentry, rfl⟩ := mem_map.mp hpair
  exact ⟨entry.1, hentry⟩

theorem zip_nodup {α β : Type} {as : List α} {bs : List β} (h : bs.Nodup) : (as.zip bs).Nodup := by
  induction as generalizing bs with
  | nil => simp
  | cons a as ih =>
    cases bs with
    | nil => simp
    | cons b bs =>
      obtain ⟨hnew, hrest⟩ := nodup_cons.mp h
      exact nodup_cons.mpr ⟨fun hmem => hnew (of_mem_zip hmem).2, ih hrest⟩

theorem head_of_lists (h : expertPrefillLocals manifest executor work pairCapacity outputCapacity = .ok locals)
    {pair : PrefillPair} (hpair : pair ∈ work.pairs) {at_ : Nat}
    (hlists : Lists layout (tileCount layout (expertLocalCount manifest work.layer executor.rank) locals)
      (expertSchedule layout (expertLocalCount manifest work.layer executor.rank) memory locals work.pairs) at_ pair) :
    expertLocalIndex manifest work.layer executor.rank pair.expertId =
      some ((expertSchedule layout (expertLocalCount manifest work.layer executor.rank) memory locals work.pairs).word
        (at_ / layout.words * layout.words)).toNat := by
  obtain ⟨haccepted, hlocals, -, hpairs, -, hrank⟩ := expertPrefillLocals_ok h
  have hfills := @fills_expertSchedule layout _ memory locals work.pairs haccepted.length hlocals
  obtain ⟨index, hentry⟩ := exists_entry haccepted.length hpair
  obtain ⟨n, rfl, hstorage⟩ := (lists_iff h hentry).mp hlists
  have hindex := haccepted.index _ hentry
  have hsmall : index < 2 ^ 32 := by
    have hlt := hlocals index (of_mem_zip hentry).1
    unfold expertLocalCount at hlt
    split at hlt
    · exact absurd hlt (Nat.not_lt_zero _)
    · have hle := hlt.trans_le countP_le_length
      rw [length_range] at hle
      unfold expertCount at hle
      omega
  rw [cellOf_div, hfills.head n _ hstorage, UInt32.toNat_ofNat_of_lt' hsmall]
  exact hindex

/-- The schedule of an accepted work lists its pairs in the tiles of their experts; its writes stay inside the memory if
and only if the tiles fit there. -/
theorem expertSchedule_iff (h : expertPrefillLocals manifest executor work pairCapacity outputCapacity = .ok locals)
    (layout : TileLayout) (memory : Nat → UInt32) :
    Scheduled manifest executor work layout
        (tileCount layout (expertLocalCount manifest work.layer executor.rank) locals)
        (expertSchedule layout (expertLocalCount manifest work.layer executor.rank) memory locals work.pairs) ↔
      workTiles layout.width work * layout.words ≤ executor.capacity := by
  obtain ⟨haccepted, hlocals, -, -, -, -⟩ := expertPrefillLocals_ok h
  have hfills := @fills_expertSchedule layout _ memory locals work.pairs haccepted.length hlocals
  rw [← tileCount_eq h]
  constructor
  · intro hscheduled
    by_contra hover
    exact absurd (hscheduled.bounded _ (mem_written (Nat.not_le.mp hover))) (Nat.lt_irrefl _)
  · intro hfits
    refine ⟨fun pair hpair => ?_, fun pair hpair at_ hlists => head_of_lists h hpair hlists, ?_, ?_,
      fun at_ hat => (hfills.within at_ hat).trans_le hfits⟩
    · obtain ⟨index, hentry⟩ := exists_entry haccepted.length hpair
      have hitem : some (index, pair) ∈ Buckets.ofKey entryKey ((locals.zip work.pairs).map some) index :=
        mem_filter.mpr ⟨mem_map_of_mem hentry, decide_eq_true rfl⟩
      obtain ⟨i, hget⟩ := mem_iff_getElem?.mp hitem
      have hstorage : (cells layout locals (locals.zip work.pairs)).storage (cellBase layout locals index + i) =
          some (index, pair) := (storage_cells haccepted.length).mpr ⟨i, hget, rfl⟩
      refine ⟨_, (lists_iff h hentry).mpr ⟨_, rfl, hstorage⟩, fun other hother => ?_⟩
      obtain ⟨n, rfl, hn⟩ := (lists_iff h hentry).mp hother
      obtain ⟨j, hjget, rfl⟩ := (storage_cells haccepted.length).mp hn
      have hnodup : (Buckets.ofKey entryKey ((locals.zip work.pairs).map some) index).Nodup :=
        ((zip_nodup (List.Nodup.of_map _ haccepted.nodup)).map (Option.some_injective _)).filter _
      have hlt := (List.getElem?_eq_some_iff.mp hjget).choose
      rw [(List.getElem?_inj hlt hnodup).mp (hjget.trans hget.symm)]
    · intro pair hpair other hother at_ at_' hlists hlists' htile
      have hindex := head_of_lists h hpair hlists
      have hindex' := head_of_lists h hother hlists'
      rw [← htile] at hindex'
      exact expertLocalIndex_inj hindex hindex'
    · intro at_ hlt hhead
      rcases word_cases hhead with hbehind | ⟨n, rfl⟩
      · exact .inr (hfills.behind at_ hlt hbehind)
      · cases hstorage : (cells layout locals (locals.zip work.pairs)).storage n with
        | none => exact .inr ((hfills.cell n hlt).trans (congrArg cellWord hstorage))
        | some entry =>
          obtain ⟨i, hget, -⟩ := (storage_cells haccepted.length).mp hstorage
          obtain ⟨same, hsame, heq⟩ := mem_map.mp (mem_filter.mp (mem_of_getElem? hget)).1
          obtain rfl := Option.some.inj heq
          exact .inl ⟨same.2, (of_mem_zip hsame).2, (lists_iff h hsame).mpr ⟨n, rfl, hstorage⟩⟩

theorem sum_countP (pairs : List PrefillPair) (n : Nat) :
    ((List.range n).map fun expert => pairs.countP fun pair => pair.expertId = expert).sum =
      pairs.countP fun pair => pair.expertId < n := by
  induction n with
  | zero => simp
  | succ n ih =>
    rw [range_succ, map_append, sum_append, ih, map_singleton, sum_singleton]
    clear ih
    induction pairs with
    | nil => rfl
    | cons pair rest ih =>
      simp only [countP_cons, decide_eq_true_eq]
      rw [← ih]
      split_ifs <;> omega

theorem workTiles_grouped_le
    (h : expertPrefillLocals manifest executor work pairCapacity outputCapacity = .ok locals) :
    workTiles TileLayout.grouped.width work * TileLayout.grouped.words ≤ executor.capacity := by
  obtain ⟨-, -, -, hpairs, -, -⟩ := expertPrefillLocals_ok h
  refine Nat.mul_le_mul_right prefillTileWords (le_trans ?_ hpairs)
  calc workTiles TileLayout.grouped.width work
    _ ≤ ((List.range expertCount).map fun expert => work.pairs.countP fun pair => pair.expertId = expert).sum :=
        sum_le_sum fun expert _ => by
          rw [TileLayout.width]
          omega
    _ = work.pairs.countP fun pair => pair.expertId < expertCount := sum_countP work.pairs expertCount
    _ ≤ work.pairs.length := countP_le_length

end Expert

/-! ## A work whose experts all lie on one rank -/

def quarteredManifest : Manifest where
  layerOwner _ := 0
  layerGroups _ i := i
  expertRank _ expert := expert / 128

def gatheringExecutor : ExpertExecutor := ⟨1, 128, by decide, by decide⟩

/-- The pair of seventy-two tokens with ten experts each. -/
def gatheredPair (i : Nat) : PrefillPair := ⟨i / 10, 128 + i % 10, i % 10, ⟨0x3f800000⟩⟩

def gatheredWork : PrefillWork where
  layer := 0
  sourceRank := 0
  destinationRank := 1
  firstPosition := 0
  tokenCount := 72
  pairs := (List.range 720).map gatheredPair

def gatheredLocals : List Nat := (List.range 720).map (· % 10)

theorem checkExpertPairs_gathered {ids : List (Option Nat)} (hids : ∀ k < 10, (ids[128 + k]?).join = some k)
    {i n : Nat} (hn : i + n ≤ 720) {seen : List (Nat × Nat)} (hseen : ∀ slots ∈ seen, slots.1 * 10 + slots.2 < i) :
    checkExpertPairs ids 128 72 i seen ((List.range' i n).map gatheredPair) = .ok ((List.range' i n).map (· % 10)) := by
  induction n generalizing i seen with
  | zero => rfl
  | succ n ih =>
    have hmod := Nat.mod_lt i (show 0 < 10 by decide)
    rw [List.range'_succ, map_cons, checkExpertPairs,
      show (ids[(gatheredPair i).expertId]?).join = some (i % 10) from hids _ hmod]
    dsimp only
    rw [if_neg, ih (by omega)]
    · rfl
    · refine forall_mem_cons.mpr ⟨?_, fun slots hslots => (hseen slots hslots).trans (Nat.lt_succ_self i)⟩
      dsimp only [gatheredPair]
      omega
    · simp only [gatheredPair, topK, expertCount, not_or, not_le]
      refine ⟨by omega, hmod, by omega, fun hmem => ?_, by omega, by decide⟩
      have := hseen _ hmem
      omega

theorem gathered_ok : expertPrefillLocals quarteredManifest gatheringExecutor gatheredWork 1280 184320 =
    .ok gatheredLocals := by
  have hcount : expertLocalCount quarteredManifest 0 1 = 128 := by decide +kernel
  have hindex : ∀ k < 10, expertLocalIndex quarteredManifest 0 1 (128 + k) = some k := by decide +kernel
  have hpairs : gatheredWork.pairs.length = 720 := by rw [gatheredWork, length_map, length_range]
  have hlocal : expertLocalCount quarteredManifest gatheredWork.layer gatheringExecutor.rank = 128 := hcount
  rw [expertPrefillLocals, hlocal, hpairs, if_neg (by decide +kernel)]
  rw [gatheredWork, gatheredLocals, range_eq_range']
  exact checkExpertPairs_gathered (fun k hk => (localIds_join (by decide) (by decide) _).trans (hindex k hk))
    (Nat.le_refl _) (by simp)

/-- With four pairs a tile its 180 tiles fit. -/
theorem expertSchedule_iff_gathered :
    Scheduled quarteredManifest gatheringExecutor gatheredWork .grouped
        (tileCount .grouped (expertLocalCount quarteredManifest 0 1) gatheredLocals)
        (expertSchedule .grouped (expertLocalCount quarteredManifest 0 1) (fun _ => 0) gatheredLocals
          gatheredWork.pairs) :=
  (expertSchedule_iff gathered_ok .grouped _).mpr (workTiles_grouped_le gathered_ok)

/-- With one pair a tile it writes nine words for each of the 720 pairs, and 6400 words are allocated. -/
theorem not_scheduled : ∃ manifest executor work pairCapacity outputCapacity locals,
    expertPrefillLocals manifest executor work pairCapacity outputCapacity = .ok locals ∧
      ∃ layout memory, ¬ Scheduled manifest executor work layout
        (tileCount layout (expertLocalCount manifest work.layer executor.rank) locals)
        (expertSchedule layout (expertLocalCount manifest work.layer executor.rank) memory locals work.pairs) := by
  refine ⟨_, _, _, _, _, _, gathered_ok, .singlePair, fun _ => 0, fun hscheduled => ?_⟩
  have hlocal : expertLocalCount quarteredManifest gatheredWork.layer gatheringExecutor.rank = 128 := by decide +kernel
  have hten : tileStart 1 (fun index => gatheredLocals.count index) 10 = 720 := by decide +kernel
  have htiles : 720 ≤ tileCount .singlePair
      (expertLocalCount quarteredManifest gatheredWork.layer gatheringExecutor.rank) gatheredLocals := by
    have hmono := tileStart_mono 1 (fun index => gatheredLocals.count index) (show 10 ≤ 128 by decide)
    rw [hten] at hmono
    rw [hlocal]
    exact hmono
  have hwritten : 6400 < tileCount .singlePair
      (expertLocalCount quarteredManifest gatheredWork.layer gatheringExecutor.rank) gatheredLocals *
        TileLayout.singlePair.words :=
    lt_of_lt_of_le (by decide +kernel) (Nat.mul_le_mul_right _ htiles)
  exact absurd (hscheduled.bounded 6400 (mem_written hwritten)) (by decide +kernel)

end FlashGordon.Prefill
