import FlashGordon.QsaGroup
import FlashGordon.QsaPrefill

/-! What `persist_prefill_state` writes to the state file. Its run is a list of calls that reach the file, each
for a part of a page or for whole pages from the staging buffer, and each starting where the one before it ended. -/

namespace FlashGordon.QsaSession

open QsaCache (Key)
open PinnedLru Function List Option

variable {R : Type} {s after : Session R} {capacity : Nat} {map map' : Map Key capacity} {state : State R}
variable {index first count depth : Nat}

namespace Session

/-- The loop that flushes what was decoded before the range. -/
def flushEach (call : Session R → Nat → Nat → Option (Except Error Unit × Session R)) (s : Session R) :
    List (Nat × Nat) → Option (Except Error Unit × Session R)
  | [] => some (.ok (), s)
  | (first, count) :: rest => do
    let (flushed, stored) ← call s first count
    match flushed with
    | .error error => return (.error error, stored)
    | .ok () => flushEach call stored rest

/-- `persist_prefill_state` as it calls itself, to some depth. -/
def persistCall : Nat → Session R → Nat → Nat → Nat → Option (Except Error Unit × Session R)
  | 0, _, _, _, _ => none
  | depth + 1, s, index, firstToken, tokenCount =>
    match s.state with
    | none => some (.ok (), s)
    | some state =>
      let persisted := state.layerTokens index
      if firstToken < persisted then
        some (.error ⟨.mismatch, "QSA state frontier is ahead of the prefill range"⟩, s)
      else do
        let (flushed, stored) ← flushEach (fun s first count => persistCall depth s index first count) s
          (flushSteps persisted firstToken)
        match flushed with
        | .error error => return (.error error, stored)
        | .ok () => stored.persistRange index firstToken tokenCount

end Session

/-! ## The calls that reach the file -/

/-- A part of a page, or whole pages through the staging buffer. -/
inductive PersistCall where
  | part (block committed : Nat) (lost : String)
  | batch (block count : Nat)

/-- The pages it writes, with the tokens they then have. -/
def PersistCall.writes : PersistCall → List (Nat × Nat)
  | .part block committed _ => [(block, committed)]
  | .batch block count => (List.range' block count).map (·, compressRatio)

def PersistCall.last : PersistCall → Nat
  | .part block committed _ => block * compressRatio + committed
  | .batch block count => (block + count) * compressRatio

/-- It goes on at a frontier, within the staging buffer. -/
def PersistCall.Starts (first : Nat) : PersistCall → Prop
  | .part block committed _ =>
    block = first / compressRatio ∧ committed ≤ compressRatio ∧ first < block * compressRatio + committed
  | .batch block count => first = block * compressRatio ∧ 0 < count ∧ count ≤ maxSelectedBlocks

def Chain : Nat → List PersistCall → Nat → Prop
  | first, [], last => first = last
  | first, call :: rest, last => call.Starts first ∧ Chain call.last rest last

namespace Session

def runCall (s : Session R) (index : Nat) : PersistCall → Option (Except Error Unit × Session R)
  | .part block committed lost => s.persistPartial index block committed lost
  | .batch block count => s.persistComplete index block count

def runCalls (s : Session R) (index : Nat) : List PersistCall → Option (Except Error Unit × Session R)
  | [] => some (.ok (), s)
  | call :: rest => do
    let (written, stored) ← s.runCall index call
    match written with
    | .error error => return (.error error, stored)
    | .ok () => stored.runCalls index rest

end Session

def alignedCalls (block last : Nat) : List PersistCall :=
  let complete := last / compressRatio
  (if block < complete then [.batch block (complete - block)] else []) ++
    if last % compressRatio = 0 then []
    else [.part (max block complete) (last % compressRatio) "QSA persist lost the trailing cache page"]

def rangeCalls (first count : Nat) : List PersistCall :=
  let block := first / compressRatio
  let committed := min (first + count - block * compressRatio) compressRatio
  if first % compressRatio = 0 then alignedCalls block (first + count)
  else .part block committed "QSA persist lost the leading cache page" ::
    if committed < compressRatio then [] else alignedCalls (block + 1) (first + count)

def persistCalls (persisted first count : Nat) : List PersistCall :=
  (Session.flushSteps persisted first ++ [(first, count)]).flatMap fun range => rangeCalls range.1 range.2

theorem runCalls_append (calls more : List PersistCall) : s.runCalls index (calls ++ more) =
    (s.runCalls index calls).bind fun reply =>
      match reply.1 with
      | .error error => some (.error error, reply.2)
      | .ok () => reply.2.runCalls index more := by
  induction calls generalizing s with
  | nil => rfl
  | cons call rest ih =>
    rw [cons_append, Session.runCalls, Session.runCalls]
    cases s.runCall index call with
    | none => rfl
    | some reply =>
      obtain ⟨written, stored⟩ := reply
      cases written with
      | error error => rfl
      | ok => exact ih

theorem persistAligned_eq (block last : Nat) :
    s.persistAligned index block last = s.runCalls index (alignedCalls block last) := by
  unfold Session.persistAligned Session.persistWhole alignedCalls
  dsimp only
  split
  · rw [singleton_append, Session.runCalls, Session.runCall]
    split
    · rfl
    · congr
      funext reply
      obtain ⟨written, stored⟩ := reply
      cases written with
      | error error => rfl
      | ok =>
        show _ = stored.runCalls index [_]
        rw [Session.runCalls, Session.runCall]
        cases stored.persistPartial index _ _ _ with
        | none => rfl
        | some reply =>
          obtain ⟨written, published⟩ := reply
          cases written <;> rfl
  · rw [nil_append]
    split
    · rfl
    · rw [Session.runCalls, Session.runCall]
      show s.persistPartial index _ _ _ = _
      cases s.persistPartial index _ _ _ with
      | none => rfl
      | some reply =>
        obtain ⟨written, published⟩ := reply
        cases written <;> rfl

theorem persistRange_eq : s.persistRange index first count = s.runCalls index (rangeCalls first count) := by
  unfold Session.persistRange rangeCalls
  dsimp only
  split
  · exact persistAligned_eq _ _
  · rw [Session.runCalls, Session.runCall]
    congr
    funext reply
    obtain ⟨written, stored⟩ := reply
    cases written with
    | error error => rfl
    | ok =>
      dsimp only
      split
      · rfl
      · exact persistAligned_eq _ _

theorem persistEach_eq (ranges : List (Nat × Nat)) :
    s.persistEach index ranges = s.runCalls index (ranges.flatMap fun range => rangeCalls range.1 range.2) := by
  induction ranges generalizing s with
  | nil => rfl
  | cons range rest ih =>
    rw [flatMap_cons, runCalls_append, ← persistRange_eq, Session.persistEach]
    cases s.persistRange index range.1 range.2 with
    | none => rfl
    | some reply =>
      obtain ⟨written, stored⟩ := reply
      cases written with
      | error error => rfl
      | ok => exact ih

theorem Chain.append {first middle last : Nat} {calls more : List PersistCall} (h : Chain first calls middle)
    (hmore : Chain middle more last) : Chain first (calls ++ more) last := by
  induction calls generalizing first with
  | nil =>
    obtain rfl : first = middle := h
    exact hmore
  | cons call rest ih => exact ⟨h.1, ih h.2⟩

theorem Chain.split {first last : Nat} {calls more : List PersistCall} (h : Chain first (calls ++ more) last) :
    ∃ middle, Chain first calls middle ∧ Chain middle more last := by
  induction calls generalizing first with
  | nil => exact ⟨first, rfl, h⟩
  | cons call rest ih =>
    obtain ⟨middle, hrest, hmore⟩ := ih h.2
    exact ⟨middle, ⟨h.1, hrest⟩, hmore⟩

theorem chain_alignedCalls {block last : Nat} (hle : block * compressRatio ≤ last)
    (hsmall : last / compressRatio ≤ block + maxSelectedBlocks) :
    Chain (block * compressRatio) (alignedCalls block last) last := by
  have hcomplete : block ≤ last / compressRatio := (Nat.le_div_iff_mul_le (by decide)).mpr hle
  have htail : Chain (last / compressRatio * compressRatio) (if last % compressRatio = 0 then [] else
      [.part (max block (last / compressRatio)) (last % compressRatio) "QSA persist lost the trailing cache page"])
      last := by
    rw [max_eq_right hcomplete]
    have hparts := Nat.div_add_mod' last compressRatio
    have hmod : last % compressRatio < compressRatio := Nat.mod_lt _ (by decide)
    split
    next hzero =>
      rw [hzero] at hparts
      exact hparts
    next hinside =>
      refine ⟨⟨(Nat.mul_div_cancel _ (by decide)).symm, hmod.le, ?_⟩, hparts⟩
      exact Nat.lt_add_of_pos_right (Nat.pos_of_ne_zero hinside)
  unfold alignedCalls
  dsimp only
  split
  next hlt =>
    refine ⟨⟨rfl, Nat.sub_pos_of_lt hlt, by omega⟩, ?_⟩
    show Chain ((block + (last / compressRatio - block)) * compressRatio) _ last
    rw [Nat.add_sub_of_le hcomplete]
    exact htail
  next hnot =>
    obtain rfl : block = last / compressRatio := by omega
    exact htail

theorem chain_rangeCalls (hpositive : 0 < count) (hsmall : count ≤ maxSelectedBlocks * compressRatio) :
    Chain first (rangeCalls first count) (first + count) := by
  have hcapacity : (first + count) / compressRatio ≤ first / compressRatio + maxSelectedBlocks := by
    simp only [compressRatio] at hsmall ⊢
    omega
  unfold rangeCalls
  split
  next haligned =>
    have hfirst : first / compressRatio * compressRatio = first :=
      Nat.div_mul_cancel (Nat.dvd_of_mod_eq_zero haligned)
    have hchain := @chain_alignedCalls (first / compressRatio) (first + count) (by omega) hcapacity
    rwa [hfirst] at hchain
  next hinside =>
    refine ⟨⟨rfl, Nat.min_le_right _ _, ?_⟩, ?_⟩
    · simp only [compressRatio] at hinside ⊢
      omega
    · show Chain (first / compressRatio * compressRatio + _) _ _
      split
      next hend =>
        show _ = _
        simp only [compressRatio] at hend ⊢
        omega
      next hfull =>
        have hnext : first / compressRatio * compressRatio +
            min (first + count - first / compressRatio * compressRatio) compressRatio =
            (first / compressRatio + 1) * compressRatio := by
          simp only [compressRatio] at hfull ⊢
          omega
        rw [hnext]
        apply chain_alignedCalls
        · simp only [compressRatio] at hfull ⊢
          omega
        · omega

/-- The ranges follow on one another, each of a size that can be staged. -/
def Consecutive : Nat → List (Nat × Nat) → Nat → Prop
  | first, [], last => first = last
  | first, range :: rest, last =>
    range.1 = first ∧ 0 < range.2 ∧ range.2 ≤ maxSelectedBlocks * compressRatio ∧
      Consecutive (first + range.2) rest last

variable {ranges : List (Nat × Nat)}

theorem Consecutive.le {first last : Nat} (h : Consecutive first ranges last) : first ≤ last := by
  induction ranges generalizing first with
  | nil => exact Nat.le_of_eq h
  | cons range rest ih => exact (Nat.le_add_right _ _).trans (ih h.2.2.2)

theorem Consecutive.append {first middle last : Nat} {range : Nat × Nat}
    (h : Consecutive first ranges middle) (hfirst : range.1 = middle) (hpositive : 0 < range.2)
    (hsmall : range.2 ≤ maxSelectedBlocks * compressRatio) (hlast : middle + range.2 = last) :
    Consecutive first (ranges ++ [range]) last := by
  induction ranges generalizing first with
  | nil =>
    obtain rfl : first = middle := h
    exact ⟨hfirst, hpositive, hsmall, hlast⟩
  | cons head rest ih => exact ⟨h.1, h.2.1, h.2.2.1, ih h.2.2.2⟩

theorem consecutive_flushSteps {persisted first : Nat} (hle : persisted ≤ first) :
    Consecutive persisted (Session.flushSteps persisted first) first := by
  have hsteps : ∀ count start, start + count = (first - persisted + maxSelectedBlocks * compressRatio - 1) /
      (maxSelectedBlocks * compressRatio) →
      Consecutive (min (persisted + start * (maxSelectedBlocks * compressRatio)) first)
        ((List.range' start count).map fun i => (persisted + i * (maxSelectedBlocks * compressRatio),
          min (first - (persisted + i * (maxSelectedBlocks * compressRatio))) (maxSelectedBlocks * compressRatio)))
        first := by
    simp only [maxSelectedBlocks, compressRatio]
    intro count
    induction count with
    | zero =>
      intro start hstart
      show min _ _ = first
      omega
    | succ count ih =>
      intro start hstart
      rw [List.range'_succ, map_cons]
      refine ⟨?_, ?_, ?_, ?_⟩
      · omega
      · omega
      · simp only [maxSelectedBlocks, compressRatio]
        omega
      · have hrest := ih (start + 1) (by omega)
        have hnext : min (persisted + (start + 1) * (512 * 4)) first =
            min (persisted + start * (512 * 4)) first + min (first - (persisted + start * (512 * 4))) (512 * 4) := by
          omega
        rw [hnext] at hrest
        exact hrest
  have hall := hsteps _ 0 (Nat.zero_add _)
  rw [Nat.zero_mul, Nat.add_zero, Nat.min_eq_left hle, ← range_eq_range'] at hall
  exact hall

theorem Consecutive.chain {first last : Nat} (h : Consecutive first ranges last) :
    Chain first (ranges.flatMap fun range => rangeCalls range.1 range.2) last := by
  induction ranges generalizing first with
  | nil => exact h
  | cons range rest ih =>
    obtain ⟨rfl, hpositive, hsmall, hrest⟩ := h
    rw [flatMap_cons]
    exact (chain_rangeCalls hpositive hsmall).append (ih hrest)

theorem chain_persistCalls {persisted : Nat} (hle : persisted ≤ first) (hpositive : 0 < count)
    (hsmall : count ≤ maxSelectedBlocks * compressRatio) :
    Chain persisted (persistCalls persisted first count) (first + count) :=
  ((consecutive_flushSteps hle).append rfl hpositive hsmall rfl).chain

def Before (write later : Nat × Nat) : Prop :=
  write.1 ≤ later.1 ∧ write.1 * compressRatio + write.2 < later.1 * compressRatio + later.2

/-- Tokens of a block between two frontiers, and all of the block's tokens before them. -/
structure Between (first last : Nat) (write : Nat × Nat) : Prop where
  from_first : first / compressRatio ≤ write.1
  grows : first < write.1 * compressRatio + write.2
  within : write.1 * compressRatio + write.2 ≤ last
  positive : 0 < write.2
  fits : write.2 ≤ compressRatio

variable {call : PersistCall}

section

variable (h : call.Starts first)
include h

theorem PersistCall.Starts.lt_last : first < call.last := by
  cases call with
  | part block committed lost => exact h.2.2
  | batch block count =>
    obtain ⟨rfl, hpositive, -⟩ := h
    exact Nat.mul_lt_mul_of_pos_right (Nat.lt_add_of_pos_right hpositive) (by decide)

theorem PersistCall.Starts.between {write : Nat × Nat} (hwrite : write ∈ call.writes) :
    Between first call.last write := by
  cases call with
  | part block committed lost =>
    obtain rfl := mem_singleton.mp hwrite
    obtain ⟨rfl, hfits, hgrows⟩ := h
    refine ⟨Nat.le_refl _, hgrows, Nat.le_refl _, ?_, hfits⟩
    simp only [compressRatio] at hgrows
    omega
  | batch block count =>
    obtain ⟨rfl, hpositive, -⟩ := h
    obtain ⟨other, hother, rfl⟩ := mem_map.mp hwrite
    obtain ⟨hfrom, hto⟩ := mem_range'_1.mp hother
    constructor <;> simp only [compressRatio, PersistCall.last] <;> omega

theorem PersistCall.Starts.pairwise : call.writes.Pairwise Before := by
  cases call with
  | part block committed lost => exact pairwise_singleton _ _
  | batch block count =>
    rw [PersistCall.writes, pairwise_map]
    have hincreasing : List.Pairwise (· < ·) (List.range' block count) := pairwise_lt_range' 1
    apply hincreasing.imp
    intro own later hlt
    exact ⟨hlt.le, Nat.add_lt_add_right (Nat.mul_lt_mul_of_pos_right hlt (by decide)) _⟩

theorem PersistCall.Starts.covers {block : Nat} (hfrom : first / compressRatio ≤ block)
    (hto : block * compressRatio < call.last) :
    (block, min compressRatio (call.last - block * compressRatio)) ∈ call.writes := by
  cases call with
  | part own committed lost =>
    obtain ⟨rfl, hfits, -⟩ := h
    obtain rfl : block = first / compressRatio := by
      simp only [PersistCall.last, compressRatio] at hto hfits hfrom ⊢
      omega
    rw [PersistCall.last, Nat.add_sub_cancel_left, min_eq_right hfits]
    exact mem_singleton.mpr rfl
  | batch own count =>
    obtain ⟨rfl, -, -⟩ := h
    have hlt : block < own + count := Nat.lt_of_mul_lt_mul_right hto
    rw [Nat.mul_div_cancel _ (by decide)] at hfrom
    refine mem_map.mpr ⟨block, mem_range'_1.mpr ⟨hfrom, hlt⟩, Prod.ext rfl ?_⟩
    simp only [PersistCall.last, compressRatio]
    omega

end

def writes (calls : List PersistCall) : List (Nat × Nat) := calls.flatMap PersistCall.writes

variable {calls : List PersistCall} {last : Nat}

section

variable (h : Chain first calls last)
include h

theorem Chain.le : first ≤ last := by
  induction calls generalizing first with
  | nil => exact Nat.le_of_eq h
  | cons call rest ih => exact h.1.lt_last.le.trans (ih h.2)

theorem Chain.between {write : Nat × Nat} (hwrite : write ∈ writes calls) :
    Between first last write := by
  induction calls generalizing first with
  | nil => cases hwrite
  | cons call rest ih =>
    obtain ⟨hstarts, hrest⟩ := h
    rw [writes, flatMap_cons, mem_append] at hwrite
    rcases hwrite with hown | hlater
    · have hbetween := hstarts.between hown
      exact { hbetween with within := hbetween.within.trans hrest.le }
    · have hbetween := ih hrest hlater
      have hlt := hstarts.lt_last
      exact { hbetween with
        from_first := (Nat.div_le_div_right hlt.le).trans hbetween.from_first
        grows := hlt.trans hbetween.grows }

theorem Chain.pairwise : (writes calls).Pairwise Before := by
  induction calls generalizing first with
  | nil => exact .nil
  | cons call rest ih =>
    obtain ⟨hstarts, hrest⟩ := h
    rw [writes, flatMap_cons, pairwise_append]
    refine ⟨hstarts.pairwise, ih hrest, fun write hwrite later hlater => ?_⟩
    have hown := hstarts.between hwrite
    have hnext := hrest.between hlater
    refine ⟨?_, hown.within.trans_lt hnext.grows⟩
    have hwithin := hown.within
    have hfrom := hnext.from_first
    simp only [compressRatio] at hwithin hfrom
    omega

theorem Chain.covers (hlt : first < last) {block : Nat}
    (hfrom : first / compressRatio ≤ block) (hto : block * compressRatio < last) :
    (block, min compressRatio (last - block * compressRatio)) ∈ writes calls := by
  induction calls generalizing first with
  | nil => exact absurd h hlt.ne
  | cons call rest ih =>
    obtain ⟨hstarts, hrest⟩ := h
    rw [writes, flatMap_cons, mem_append]
    rcases hrest.le.eq_or_lt with rfl | hmore
    · exact .inl (hstarts.covers hfrom hto)
    · by_cases hafter : call.last / compressRatio ≤ block
      · exact .inr (ih hrest hmore hafter)
      · have hinside : block * compressRatio < call.last := by
          simp only [compressRatio] at hafter ⊢
          omega
        have hwhole := hstarts.covers hfrom hinside
        have hmin : min compressRatio (last - block * compressRatio) =
            min compressRatio (call.last - block * compressRatio) := by
          simp only [compressRatio] at hafter ⊢
          omega
        rw [hmin]
        exact .inl hwhole

end

/-- The file after a call, when the blocks have these records. -/
def State.put (index : Nat) (records : Nat → Page R) (state : State R) (call : PersistCall) : State R where
  layerTokens := Function.update state.layerTokens index call.last
  pages := Function.update state.pages index
    (match call with
    | .part block committed _ => Function.update (state.pages index) block (some ⟨committed, records block⟩)
    | .batch block count => storePages (state.pages index) block ((List.range' block count).map records))

theorem State.put_layerTokens (records : Nat → Page R) : (state.put index records call).layerTokens =
    update state.layerTokens index call.last := rfl

theorem State.put_frontier (records : Nat → Page R) : (state.put index records call).layerTokens index = call.last := by
  rw [State.put_layerTokens, update_self]

theorem State.writeBlock_ok {context index block committed : Nat} (records : Page R)
    (hblock : block = state.layerTokens index / compressRatio) (hpositive : 0 < committed)
    (hsmall : committed ≤ compressRatio) (hlast : state.layerTokens index ≤ block * compressRatio + committed)
    (hle : block * compressRatio + committed ≤ context) :
    ∃ state', state.writeBlock context index block records committed = .ok state' ∧
      state'.layerTokens = update state.layerTokens index (block * compressRatio + committed) ∧
      state'.pages = update state.pages index
        (update (state.pages index) block (some ⟨committed, records⟩)) := by
  have hinside : block < blocksPerLayer context := by
    simp only [compressRatio] at hle
    rw [blocksPerLayer]
    omega
  have hwrite : state.writeBlock context index block records committed = .ok
      { layerTokens := update state.layerTokens index (block * compressRatio + committed)
        pages := update state.pages index
          (update (state.pages index) block (some ⟨committed, records⟩)) } := by
    rw [State.writeBlock, if_neg (by omega)]
    rw [if_neg (by omega)]
  exact ⟨_, hwrite, rfl, rfl⟩

theorem State.writeBlocks_ok {context index block : Nat} {records : List (Page R)}
    (hblock : state.layerTokens index = block * compressRatio) (hpositive : 0 < records.length)
    (hsmall : records.length ≤ maxSelectedBlocks) (hle : (block + records.length) * compressRatio ≤ context) :
    ∃ state', state.writeBlocks context index block records = .ok state' ∧
      state'.layerTokens = update state.layerTokens index ((block + records.length) * compressRatio) ∧
      state'.pages = update state.pages index (storePages (state.pages index) block records) := by
  have hfirst : state.layerTokens index / compressRatio = block := by
    rw [hblock]
    exact Nat.mul_div_cancel block (by decide)
  have hinside : block + records.length ≤ blocksPerLayer context := by
    simp only [compressRatio] at hle
    rw [blocksPerLayer]
    omega
  have hsome : records ≠ [] := ne_nil_of_length_pos hpositive
  have hwrite : state.writeBlocks context index block records = .ok
      { layerTokens := update state.layerTokens index
          (state.layerTokens index + records.length * compressRatio)
        pages := update state.pages index (storePages (state.pages index) block records) } := by
    rw [State.writeBlocks, if_neg fun hbad => hbad.elim hsome (Nat.not_lt.mpr hsmall)]
    rw [hfirst, if_neg, if_neg (not_not.mpr rfl)]
    rw [hblock, Nat.mul_mod_left]
    omega
  refine ⟨_, hwrite, ?_, rfl⟩
  rw [hblock, Nat.add_mul]

/-- The session has gone on with the same pages in the same slots, and the pins of other layers are kept. -/
structure Goes (layer : UInt32) (s : Session R) (map : Map Key capacity) (after : Session R)
    (map' : Map Key capacity) : Prop where
  mirrors : Mirrors after map'
  same : SameSession s after
  records : after.cacheRecords = s.cacheRecords
  frames : ∀ key, map'.frame? key = map.frame? key
  pins : ∀ key ∈ map.pinned, key.1 ≠ layer → key ∈ map'.pinned

variable {layer : UInt32}

theorem Stays.goes (h : Stays s map after map') : Goes layer s map after map' :=
  ⟨h.mirrors, h.same, h.records, h.frames, fun _ hkey _ => h.pins ▸ hkey⟩

theorem Goes.trans {third : Session R} {map'' : Map Key capacity} (h : Goes layer s map after map')
    (h' : Goes layer after map' third map'') : Goes layer s map third map'' :=
  ⟨h'.mirrors, h.same.trans h'.same, h'.records.trans h.records, fun key => (h'.frames key).trans (h.frames key),
    fun key hkey hne => h'.pins key (h.pins key hkey hne) hne⟩

section

variable (h : Mirrors s map)
include h

theorem Mirrors.goes_state (layer : UInt32) (state : State R) :
    Goes layer s map { s with state := some state } map :=
  ⟨h.congr ⟨rfl, rfl, rfl, rfl⟩ rfl rfl rfl, ⟨⟨rfl, rfl, rfl, rfl⟩, rfl, rfl, rfl⟩, rfl, fun _ => rfl,
    fun _ hkey _ => hkey⟩

theorem Mirrors.pagePublished_goes (layer block : UInt32) :
    ∃ after map', s.pagePublished layer block = some after ∧
      Goes layer s map after map' ∧ after.state = s.state := by
  obtain ⟨after, hpublish, ⟨cache, rfl⟩, hmirrors⟩ := h.pagePublished layer block
  refine ⟨_, _, hpublish, ⟨hmirrors, ⟨⟨rfl, rfl, rfl, rfl⟩, rfl, rfl, rfl⟩, rfl, fun _ => Map.frame?_setPin, ?_⟩, rfl⟩
  intro key hkey hne
  rw [Map.pinned_setPin_false, Finset.mem_erase]
  exact ⟨fun heq => hne (heq ▸ rfl), hkey⟩

theorem Mirrors.publishEach (layer : UInt32) (blocks : List Nat) :
    ∃ after map', s.publishEach layer blocks = some after ∧
      Goes layer s map after map' ∧ after.state = s.state := by
  induction blocks generalizing s map with
  | nil => exact ⟨s, map, rfl, h.stays_self.goes, rfl⟩
  | cons block rest ih =>
    obtain ⟨published, map₁, hpublish, hpublished, hstate⟩ := h.pagePublished_goes layer (UInt32.ofNat block)
    obtain ⟨after, map₂, hrest, hafter, hkeeps⟩ := ih hpublished.mirrors
    refine ⟨after, map₂, ?_, hpublished.trans hafter, hkeeps.trans hstate⟩
    rw [Session.publishEach, hpublish, bind_eq_bind, bind_some]
    exact hrest

theorem Mirrors.stagePages (layer : UInt32) {blocks : List Nat} {slot : Nat → Nat}
    (hcached : ∀ block ∈ blocks, map.frame? (layer, UInt32.ofNat block) = some (slot block)) :
    ∃ after map',
      s.stagePages layer blocks = some (.ok (blocks.map fun block => s.cacheRecords (slot block)), after) ∧
      Stays s map after map' := by
  induction blocks generalizing s map with
  | nil => exact ⟨s, map, rfl, h.stays_self⟩
  | cons block rest ih =>
    obtain ⟨looked, map₁, hlookup, hlooked⟩ := h.lookup_stays layer (UInt32.ofNat block)
    obtain ⟨after, map₂, hrest, hafter⟩ := ih hlooked.mirrors fun other hother =>
      (hlooked.frames _).trans (hcached other (mem_cons_of_mem _ hother))
    refine ⟨after, map₂, ?_, hlooked.trans hafter⟩
    rw [Session.stagePages, hlookup, bind_eq_bind, bind_some, hcached block mem_cons_self]
    dsimp only
    rw [hrest, hlooked.records]
    rfl

end

variable {slot : Nat → Nat}

/-- The blocks of a layer below `last` tokens, from a frontier on, are in the cache at these slots. -/
def Cached (map : Map Key capacity) (layer : UInt32) (first last : Nat) (slot : Nat → Nat) : Prop :=
  ∀ block, first / compressRatio ≤ block → block * compressRatio < last →
    map.frame? (layer, UInt32.ofNat block) = some (slot block)

theorem Cached.goes {first' last' : Nat} (h : Cached map layer first last slot)
    (hgoes : Goes layer s map after map') (hfirst : first ≤ first') (hlast : last' ≤ last) :
    Cached map' layer first' last' slot := fun block hfrom hto =>
  (hgoes.frames _).trans (h block ((Nat.div_le_div_right hfirst).trans hfrom) (hto.trans_le hlast))

section

variable (h : Mirrors s map)
include h

theorem Mirrors.persistPartial (hstate : s.state = some state) {block committed : Nat}
    {lost : String} (hstarts : (PersistCall.part block committed lost).Starts (state.layerTokens index))
    (hcontext : block * compressRatio + committed ≤ s.maxContext)
    (hframe : map.frame? (s.layerAt index, UInt32.ofNat block) = some (slot block)) :
    ∃ after map',
      s.persistPartial index block committed lost = some (.ok (), after) ∧ Goes (s.layerAt index) s map after map' ∧
      after.state = some (state.put index (fun block => s.cacheRecords (slot block)) (.part block committed lost)) := by
  obtain ⟨hblock, hfits, hgrows⟩ := hstarts
  obtain ⟨looked, map₁, hlookup, hlooked⟩ := h.lookup_stays (s.layerAt index) (UInt32.ofNat block)
  have hpositive : 0 < committed := by
    simp only [compressRatio] at hblock hgrows
    omega
  have hwrite : state.writeBlock looked.maxContext index block (looked.cacheRecords (slot block)) committed =
      .ok (state.put index (fun block => looked.cacheRecords (slot block)) (.part block committed lost)) := by
    obtain ⟨⟨tokens, pages⟩, hwritten, rfl, rfl⟩ := State.writeBlock_ok (looked.cacheRecords (slot block)) hblock
      hpositive hfits hgrows.le (hlooked.same.shape.maxContext ▸ hcontext)
    exact hwritten
  have hstored := hlooked.mirrors.goes_state (s.layerAt index)
    (state.put index (fun block => looked.cacheRecords (slot block)) (.part block committed lost))
  obtain ⟨after, map₂, hpublish, hafter, hafterState⟩ :=
    hstored.mirrors.pagePublished_goes (s.layerAt index) (UInt32.ofNat block)
  refine ⟨after, map₂, ?_, (hlooked.goes.trans hstored).trans hafter, ?_⟩
  · rw [Session.persistPartial]
    rw [hlookup, bind_eq_bind, bind_some, hframe]
    dsimp only
    rw [Session.writeBlock, hlooked.state, hstate]
    dsimp only
    rw [hwrite]
    rw [hpublish]
    rfl
  · rw [hafterState, hlooked.records]

theorem Mirrors.persistComplete (hstate : s.state = some state) {block : Nat}
    (hstarts : (PersistCall.batch block count).Starts (state.layerTokens index))
    (hcontext : (block + count) * compressRatio ≤ s.maxContext)
    (hframes : ∀ other ∈ List.range' block count,
      map.frame? (s.layerAt index, UInt32.ofNat other) = some (slot other)) :
    ∃ after map',
      s.persistComplete index block count = some (.ok (), after) ∧ Goes (s.layerAt index) s map after map' ∧
      after.state = some (state.put index (fun block => s.cacheRecords (slot block)) (.batch block count)) := by
  obtain ⟨hblock, hpositive, hsmall⟩ := hstarts
  obtain ⟨looked, map₁, hstage, hlooked⟩ := h.stagePages (s.layerAt index) hframes
  have hlength : ((List.range' block count).map fun block => s.cacheRecords (slot block)).length = count := by
    rw [length_map, length_range']
  have hwrite : state.writeBlocks looked.maxContext index block
      ((List.range' block count).map fun block => s.cacheRecords (slot block)) =
      .ok (state.put index (fun block => s.cacheRecords (slot block)) (.batch block count)) := by
    rw [← hlooked.same.shape.maxContext, ← hlength] at hcontext
    obtain ⟨⟨tokens, pages⟩, hwritten, rfl, rfl⟩ :=
      State.writeBlocks_ok hblock (hlength.symm ▸ hpositive) (hlength.symm ▸ hsmall) hcontext
    rw [hwritten, hlength]
    rfl
  have hstored := hlooked.mirrors.goes_state (s.layerAt index)
    (state.put index (fun block => s.cacheRecords (slot block)) (.batch block count))
  obtain ⟨after, map₂, hpublish, hafter, hafterState⟩ :=
    hstored.mirrors.publishEach (s.layerAt index) (List.range' block count)
  refine ⟨after, map₂, ?_, (hlooked.goes.trans hstored).trans hafter, hafterState⟩
  rw [Session.persistComplete]
  rw [if_neg (Nat.not_lt.mpr hsmall), hstage, bind_eq_bind, bind_some]
  dsimp only
  rw [Session.writeBlocks, hlooked.state, hstate]
  dsimp only
  rw [hwrite]
  rw [hpublish]
  rfl

theorem Mirrors.runCall (hstate : s.state = some state)
    (hstarts : call.Starts (state.layerTokens index)) (hcontext : call.last ≤ s.maxContext)
    (hcached : Cached map (s.layerAt index) (state.layerTokens index) call.last slot) :
    ∃ after map',
      s.runCall index call = some (.ok (), after) ∧ Goes (s.layerAt index) s map after map' ∧
      after.state = some (state.put index (fun block => s.cacheRecords (slot block)) call) := by
  have hwritten : ∀ write ∈ call.writes, map.frame? (s.layerAt index, UInt32.ofNat write.1) = some (slot write.1) := by
    intro write hwrite
    have hbetween := hstarts.between hwrite
    have hpositive := hbetween.positive
    have hwithin := hbetween.within
    exact hcached write.1 hbetween.from_first (by omega)
  cases call with
  | part block committed lost => exact h.persistPartial hstate hstarts hcontext (hwritten _ (mem_singleton.mpr rfl))
  | batch block count =>
    exact h.persistComplete hstate hstarts hcontext fun other hother =>
      hwritten (other, compressRatio) (mem_map.mpr ⟨other, hother, rfl⟩)

theorem Mirrors.runCalls (hstate : s.state = some state)
    (hchain : Chain (state.layerTokens index) calls last) (hcontext : last ≤ s.maxContext)
    (hcached : Cached map (s.layerAt index) (state.layerTokens index) last slot) :
    ∃ after map',
      s.runCalls index calls = some (.ok (), after) ∧ Goes (s.layerAt index) s map after map' ∧
      after.state = some (calls.foldl (State.put index fun block => s.cacheRecords (slot block)) state) := by
  induction calls generalizing s map state with
  | nil => exact ⟨s, map, rfl, h.stays_self.goes, hstate⟩
  | cons call rest ih =>
    obtain ⟨hstarts, hrest⟩ := hchain
    have hself : Goes (s.layerAt index) s map s map := h.stays_self.goes
    obtain ⟨stored, map₁, hcall, hstored, hput⟩ := h.runCall hstate hstarts (hrest.le.trans hcontext)
      (hcached.goes hself (Nat.le_refl _) hrest.le)
    have hfrontier := @State.put_frontier R state index call fun block => s.cacheRecords (slot block)
    rw [← hfrontier] at hrest
    obtain ⟨after, map₂, hmore, hafter, hlast⟩ := ih hstored.mirrors hput hrest
      (hstored.same.shape.maxContext ▸ hcontext) (by
        rw [hstored.same.shape.layerAt, hfrontier]
        exact hcached.goes hstored hstarts.lt_last.le (Nat.le_refl _))
    rw [hstored.same.shape.layerAt] at hafter
    refine ⟨after, map₂, ?_, hstored.trans hafter, ?_⟩
    · rw [Session.runCalls, hcall, bind_eq_bind, bind_some]
      exact hmore
    · rw [hlast, hstored.records, foldl_cons]

end

variable {records : Nat → Page R}

theorem Chain.put_tokens (h : Chain (state.layerTokens index) calls last) :
    (calls.foldl (State.put index records) state).layerTokens = update state.layerTokens index last := by
  induction calls generalizing state with
  | nil =>
    obtain rfl : state.layerTokens index = last := h
    exact (update_eq_self ..).symm
  | cons call rest ih =>
    have hrest := h.2
    rw [← @State.put_frontier R state index call records] at hrest
    rw [foldl_cons, ih hrest, State.put_layerTokens, update_idem]

theorem storePages_apply (block count : Nat) (pages : Nat → Option (StatePage R)) (other : Nat) :
    storePages pages block ((List.range' block count).map records) other =
      if block ≤ other ∧ other < block + count then some ⟨compressRatio, records other⟩ else pages other := by
  induction count generalizing block pages with
  | zero => rw [if_neg (by omega)]; rfl
  | succ count ih =>
    rw [List.range'_succ, map_cons, storePages, ih]
    by_cases heq : other = block
    · rw [heq, if_neg (by omega), if_pos (by omega), update_self]
    · rw [update_of_ne heq]
      congr 1
      apply propext
      omega

/-- Each block with a token between the frontiers has its page, and no other page has changed. -/
def Stored (first last : Nat) (records : Nat → Page R) (before pages : Nat → Option (StatePage R)) : Prop :=
  ∀ block, pages block = if first / compressRatio ≤ block ∧ block * compressRatio < last then
    some ⟨min compressRatio (last - block * compressRatio), records block⟩ else before block

theorem PersistCall.Starts.stored (h : call.Starts (state.layerTokens index)) :
    Stored (state.layerTokens index) call.last records (state.pages index) ((state.put index records call).pages index) := by
  intro other
  cases call with
  | part block committed lost =>
    obtain ⟨hblock, hfits, hgrows⟩ := h
    have hpages : (state.put index records (.part block committed lost)).pages index =
        update (state.pages index) block (some ⟨committed, records block⟩) := update_self ..
    rw [hpages]
    by_cases heq : other = block
    · subst heq
      have hto : other * compressRatio < (PersistCall.part other committed lost).last := by
        simp only [PersistCall.last, compressRatio] at hblock hgrows ⊢
        omega
      rw [update_self, if_pos ⟨hblock.ge, hto⟩, PersistCall.last, Nat.add_sub_cancel_left, min_eq_right hfits]
    · rw [update_of_ne heq, if_neg]
      simp only [PersistCall.last, compressRatio] at hblock hfits ⊢
      omega
  | batch block count =>
    obtain ⟨hblock, -, -⟩ := h
    have hpages : (state.put index records (.batch block count)).pages index =
        storePages (state.pages index) block ((List.range' block count).map records) := update_self ..
    rw [hpages, storePages_apply, hblock, Nat.mul_div_cancel _ (by decide)]
    by_cases hinside : block ≤ other ∧ other < block + count
    · have hto : other * compressRatio < (PersistCall.batch block count).last :=
        Nat.mul_lt_mul_of_pos_right hinside.2 (by decide)
      have hmin : min compressRatio ((PersistCall.batch block count).last - other * compressRatio) = compressRatio := by
        simp only [PersistCall.last, compressRatio]
        omega
      rw [if_pos hinside, if_pos ⟨hinside.1, hto⟩, hmin]
    · rw [if_neg hinside, if_neg]
      simp only [PersistCall.last, compressRatio]
      omega

theorem Chain.stored (h : Chain (state.layerTokens index) calls last) (hlt : state.layerTokens index < last) :
    Stored (state.layerTokens index) last records (state.pages index)
      ((calls.foldl (State.put index records) state).pages index) := by
  induction calls generalizing state with
  | nil => exact absurd h hlt.ne
  | cons call rest ih =>
    obtain ⟨hstarts, hrest⟩ := h
    have hfrontier := @State.put_frontier R state index call records
    have hown := @PersistCall.Starts.stored R state index call records hstarts
    have hgrows := hstarts.lt_last
    rcases hrest.le.eq_or_lt with rfl | hmore
    · cases rest with
      | nil => exact hown
      | cons other rest => exact absurd (hrest.1.lt_last.trans_le hrest.2.le) (lt_irrefl _)
    · have hlater := ih (hfrontier.symm ▸ hrest) (hfrontier.symm ▸ hmore)
      intro block
      rw [foldl_cons, hlater block, hown block, hfrontier]
      by_cases hafter : call.last / compressRatio ≤ block ∧ block * compressRatio < last
      · rw [if_pos hafter, if_pos ⟨(Nat.div_le_div_right hgrows.le).trans hafter.1, hafter.2⟩]
      · rw [if_neg hafter]
        by_cases hbefore : state.layerTokens index / compressRatio ≤ block ∧ block * compressRatio < call.last
        · have hmin : min compressRatio (last - block * compressRatio) =
              min compressRatio (call.last - block * compressRatio) := by
            simp only [compressRatio] at hafter hbefore ⊢
            omega
          rw [if_pos hbefore, if_pos ⟨hbefore.1, hbefore.2.trans hmore⟩, hmin]
        · rw [if_neg hbefore, if_neg]
          simp only [compressRatio] at hafter hbefore ⊢
          omega

theorem put_others {other : Nat} (h : other ≠ index) :
    (calls.foldl (State.put index records) state).pages other = state.pages other := by
  induction calls generalizing state with
  | nil => rfl
  | cons call rest ih =>
    rw [foldl_cons, ih]
    exact update_of_ne h _ _

theorem flushSteps_self (persisted : Nat) : Session.flushSteps persisted persisted = [] := by
  simp [Session.flushSteps, maxSelectedBlocks, compressRatio]

theorem persistCall_at_frontier (hstate : s.state = some state) (depth : Nat) :
    s.persistCall (depth + 1) index (state.layerTokens index) count =
      s.runCalls index (rangeCalls (state.layerTokens index) count) := by
  rw [Session.persistCall, hstate]
  dsimp only
  rw [if_neg (lt_irrefl _), flushSteps_self]
  exact persistRange_eq

theorem Mirrors.flushEach (h : Mirrors s map) (hstate : s.state = some state)
    (hranges : Consecutive (state.layerTokens index) ranges last) (hcontext : last ≤ s.maxContext)
    (hcached : Cached map (s.layerAt index) (state.layerTokens index) last slot) (depth : Nat) :
    Session.flushEach (fun s first count => s.persistCall (depth + 1) index first count) s ranges =
      s.runCalls index (ranges.flatMap fun range => rangeCalls range.1 range.2) := by
  induction ranges generalizing s map state with
  | nil => rfl
  | cons range rest ih =>
    obtain ⟨start, count⟩ := range
    obtain ⟨hstart, hpositive, hsmall, hrest⟩ := hranges
    obtain rfl : start = state.layerTokens index := hstart
    have hchain := @chain_rangeCalls (state.layerTokens index) count hpositive hsmall
    have hself : Goes (s.layerAt index) s map s map := h.stays_self.goes
    obtain ⟨stored, map₁, hrun, hstored, hput⟩ := h.runCalls hstate hchain (hrest.le.trans hcontext)
      (hcached.goes hself (Nat.le_refl _) hrest.le)
    have hfrontier := congrFun
      (@Chain.put_tokens R state index _ _ (fun block => s.cacheRecords (slot block)) hchain) index
    rw [update_self] at hfrontier
    rw [Session.flushEach, flatMap_cons, runCalls_append, persistCall_at_frontier hstate, hrun]
    apply ih hstored.mirrors hput (hfrontier.symm ▸ hrest) (hstored.same.shape.maxContext ▸ hcontext)
    rw [hstored.same.shape.layerAt, hfrontier]
    exact hcached.goes hstored (Nat.le_add_right _ _) (Nat.le_refl _)

theorem Mirrors.persistCall_eq (h : Mirrors s map) (hstate : s.state = some state)
    (hle : state.layerTokens index ≤ first) (hcontext : first + count ≤ s.maxContext)
    (hcached : Cached map (s.layerAt index) (state.layerTokens index) (first + count) slot) (depth : Nat) :
    s.persistCall (depth + 2) index first count =
      s.runCalls index (persistCalls (state.layerTokens index) first count) := by
  have hself : Goes (s.layerAt index) s map s map := h.stays_self.goes
  rw [Session.persistCall, hstate]
  dsimp only
  rw [if_neg (Nat.not_lt.mpr hle), h.flushEach hstate (consecutive_flushSteps hle)
    ((Nat.le_add_right _ _).trans hcontext) (hcached.goes hself (Nat.le_refl _) (Nat.le_add_right _ _)),
    persistCalls, flatMap_append, runCalls_append, flatMap_singleton]
  congr
  funext reply
  obtain ⟨flushed, stored⟩ := reply
  cases flushed with
  | error error => rfl
  | ok => exact persistRange_eq

theorem persistPrefillState_eq (hstate : s.state = some state) (hle : state.layerTokens index ≤ first) :
    s.persistPrefillState index first count =
      s.runCalls index (persistCalls (state.layerTokens index) first count) := by
  rw [Session.persistPrefillState, hstate]
  dsimp only
  rw [if_neg (Nat.not_lt.mpr hle), persistEach_eq, persistCalls]

/-- What has been written when the range is persisted from the file's frontier on, by which calls: `steps` says
what the file has after each of them. -/
structure Persisted (s : Session R) (state : State R) (index first count : Nat) (slot : Nat → Nat)
    (calls : List PersistCall) (after : Session R) : Prop where
  ran : s.runCalls index calls = some (.ok (), after)
  steps : ∀ done more, calls = done ++ more → ∃ mid, s.runCalls index done = some (.ok (), mid) ∧
    mid.state = some (done.foldl (State.put index fun block => s.cacheRecords (slot block)) state)
  order : (writes calls).Pairwise Before
  between : ∀ write ∈ writes calls, Between (state.layerTokens index) (first + count) write
  covers : ∀ block, state.layerTokens index / compressRatio ≤ block → block * compressRatio < first + count →
    (block, min compressRatio (first + count - block * compressRatio)) ∈ writes calls
  staged : ∀ block pages, .batch block pages ∈ calls → pages ≤ maxSelectedBlocks
  file : ∃ stored, after.state = some stored ∧
    stored.layerTokens = Function.update state.layerTokens index (first + count) ∧
    Stored (state.layerTokens index) (first + count) (fun block => s.cacheRecords (slot block)) (state.pages index)
      (stored.pages index) ∧
    ∀ other ≠ index, stored.pages other = state.pages other

theorem Chain.staged (h : Chain first calls last) {block pages : Nat} (hbatch : .batch block pages ∈ calls) :
    pages ≤ maxSelectedBlocks := by
  induction calls generalizing first with
  | nil => cases hbatch
  | cons call rest ih =>
    rcases mem_cons.mp hbatch with rfl | hlater
    · exact h.1.2.2
    · exact ih h.2 hlater

theorem Mirrors.persists (h : Mirrors s map) (hstate : s.state = some state) (hle : state.layerTokens index ≤ first)
    (hpositive : 0 < count) (hsmall : count ≤ maxSelectedBlocks * compressRatio) (hcontext : first + count ≤ s.maxContext)
    (hcached : Cached map (s.layerAt index) (state.layerTokens index) (first + count) slot) :
    ∃ after map', Goes (s.layerAt index) s map after map' ∧
      Persisted s state index first count slot (persistCalls (state.layerTokens index) first count) after := by
  have hchain := chain_persistCalls hle hpositive hsmall
  have hlt : state.layerTokens index < first + count := by omega
  have hself : Goes (s.layerAt index) s map s map := h.stays_self.goes
  obtain ⟨after, map', hrun, hafter, hput⟩ := h.runCalls hstate hchain hcontext hcached
  refine ⟨after, map', hafter, hrun, ?steps, hchain.pairwise, fun write => hchain.between,
    fun block => hchain.covers hlt, fun block pages => hchain.staged,
    _, hput, hchain.put_tokens, hchain.stored hlt, fun other => put_others⟩
  case steps =>
    intro done more hsplit
    rw [hsplit] at hchain
    obtain ⟨middle, hdone, hmore⟩ := hchain.split
    obtain ⟨mid, map₁, hmid, -, hfile⟩ := h.runCalls hstate hdone (hmore.le.trans hcontext)
      (hcached.goes hself (Nat.le_refl _) hmore.le)
    exact ⟨mid, hmid, hfile⟩

/-- `persist_prefill_state`, called at a depth that its calls of itself never use up: behind the frontier it
refuses and writes nothing, and otherwise it writes each block that the range and what is missing before it
overlap, in order, from the cache. -/
theorem persistCall_writes (h : Mirrors s map) (hstate : s.state = some state) (hpositive : 0 < count)
    (hsmall : count ≤ maxSelectedBlocks * compressRatio) (hcontext : first + count ≤ s.maxContext) (depth : Nat) :
    (first < state.layerTokens index → s.persistCall (depth + 2) index first count =
      some (.error ⟨.mismatch, "QSA state frontier is ahead of the prefill range"⟩, s)) ∧
    (state.layerTokens index ≤ first →
      Cached map (s.layerAt index) (state.layerTokens index) (first + count) slot →
      ∃ calls after, s.persistCall (depth + 2) index first count = some (.ok (), after) ∧
        Persisted s state index first count slot calls after) := by
  constructor
  · intro hahead
    rw [Session.persistCall, hstate]
    exact if_pos hahead
  · intro hle hcached
    obtain ⟨after, map', -, hpersisted⟩ := h.persists hstate hle hpositive hsmall hcontext hcached
    exact ⟨_, after, (h.persistCall_eq hstate hle hcontext hcached depth).trans hpersisted.ran, hpersisted⟩

/-- Six tokens of layer 3 in two blocks, the first two of them decoded and not in the file: block 0 is written
with two tokens and then whole, and block 1 with two. -/
theorem persistCall_writes_six :
    ∃ (opened s after : Session Nat) (state : State Nat) (calls : List PersistCall),
      openDecodeConfig 0 true (fun layer => if layer = 3 then 0 else 1) 16 4 8 false false
        (some ⟨fun _ => 0, fun _ _ => none⟩) (fun _ _ => 0) id id = .ok opened ∧
      opened.exec [.acquire false 3 0, .acquire false 3 1] = some s ∧ s.state = some state ∧
      s.persistCall 2 0 2 4 = some (.ok (), after) ∧ Persisted s state 0 2 4 id calls after ∧
      writes (persistCalls 0 2 4) = [(0, 2), (0, 4), (1, 2)] := by
  obtain ⟨opened, hopen⟩ : ∃ opened : Session Nat,
      openDecodeConfig 0 true (fun layer => if layer = 3 then 0 else 1) 16 4 8 false false
        (some ⟨fun _ => 0, fun _ _ => none⟩) (fun _ _ => 0) id id = .ok opened := ⟨_, rfl⟩
  obtain ⟨s, map, hexec, hmirrors, -⟩ :=
    (openDecodeConfig_mirrors hopen).1.exec [.acquire false 3 0, .acquire false 3 1]
  have hrun : ((openDecodeConfig 0 true (fun layer => if layer = 3 then 0 else 1) 16 4 8 false false
      (some ⟨fun _ => 0, fun _ _ => none⟩) (fun _ _ => 0) id id).toOption.bind fun opened : Session Nat =>
        (opened.exec [.acquire false 3 0, .acquire false 3 1]).bind fun s => s.state.map fun state =>
          [s.maxContext, s.maxBlocks, s.layerCount, s.slotTable 0, s.slotTable 1, state.layerTokens 0]) =
      some [16, 4, 1, 0, 1, 0] := by
    decide +kernel
  rw [hopen] at hrun
  change (opened.exec _).bind _ = _ at hrun
  rw [hexec, bind_some, map_eq_some_iff] at hrun
  obtain ⟨state, hstate, heq⟩ := hrun
  simp only [List.cons.injEq, and_true] at heq
  obtain ⟨hcontext, hblocks, hcount, hzero, hone, htokens⟩ := heq
  have hcached : Cached map (s.layerAt 0) (state.layerTokens 0) (2 + 4) id := by
    intro block hfrom hto
    have hlt : block < 2 := by
      simp only [compressRatio] at hto
      omega
    obtain rfl | rfl : block = 0 ∨ block = 1 := by omega
    · apply (hmirrors.table_iff (by omega) (by rw [hblocks]; decide) _).mp
      rw [hblocks]
      exact ⟨by decide, hzero⟩
    · apply (hmirrors.table_iff (by omega) (by rw [hblocks]; decide) _).mp
      rw [hblocks]
      exact ⟨by decide, hone⟩
  obtain ⟨calls, after, hpersist, hpersisted⟩ := (persistCall_writes hmirrors hstate (by decide) (by decide)
    (by omega) 0).2 (by omega) hcached
  exact ⟨opened, s, after, state, calls, hopen, hexec, hstate, hpersist, hpersisted, by decide⟩

end FlashGordon.QsaSession
