import FlashGordon.DecodeBatchWire

/-! How the coordinator fills a decode batch (`coordinator_decode_batch_step` in `runtime.c`): it begins a
step, and for every slot of the scheduled batch it embeds the last token of a history and looks up that
history's n-gram. The histories come as an array in the order of the owner state slots, and the loop reads
them by the slot's place in the batch, which is the order of readiness. -/

namespace FlashGordon.DecodeBatch

open Runs Scatter

/-- A token history as a caller passes it; a null pointer is `none`. -/
abbrev History := Option (List Int32)

/-- What the coordinator works with: the owner of the first layer, its own checks, the input storage of a
state slot, the embedding row a token leaves in it, the n-gram store, and the owner transactions. -/
structure Coordinator where
  layerOwner : Fin 8
  penaltiesActive : Bool
  hasEmbedding : Bool
  slotInput : UInt32 → Bool
  embedding : UInt32 → UInt32 → Except Error (Vector Binary32 hyperWidth)
  ngramLookup : List Int32 → UInt32 → Except Error (Option (Vector Binary32 ngramEmbedValues))
  prepare : Hook
  commit : Hook
  restore : Hook

def Coordinator.ops (coordinator : Coordinator) : Ops :=
  ⟨some coordinator.prepare, some coordinator.commit, some coordinator.restore⟩

def lastToken (history : List Int32) : Option UInt32 :=
  match history.getLast? with
  | none => none
  | some token => if vocabSize ≤ token.toUInt32.toNat then none else some token.toUInt32

/-- One turn of the loop over the batch: the work of slot number `slot`, from the history of that number. -/
def buildSlot (coordinator : Coordinator) (table : Table) (histories : Nat → History) (slot : Nat)
    (entry : Slot) : Except Error SlotWork :=
  match histories slot with
  | none => .error ⟨.argument, s!"decode batch slot {slot} has no valid token history"⟩
  | some history =>
    match lastToken history with
    | none => .error ⟨.argument, s!"decode batch slot {slot} has no valid token history"⟩
    | some token =>
      if !coordinator.slotInput entry.stateSlot then
        .error ⟨.unavailable, s!"decode batch slot {slot} has no session input storage"⟩
      else match coordinator.embedding entry.stateSlot token with
        | .error err => .error err
        | .ok hyper =>
          match firstNonFinite hyper with
          | some i =>
            .error ⟨.format, s!"decode batch slot {slot} embedding produced non-finite hidden at {i}"⟩
          | none =>
            match coordinator.ngramLookup history (table.sequences entry.sequence).tokenIndex with
            | .error err => .error err
            | .ok ngram =>
              .ok
                { tokenIndex := entry.tokenIndex
                  stateSlot := entry.stateSlot
                  position := entry.position
                  hyper := some hyper
                  ngramEmbedding := ngram }

/-- The loop from slot number `slot` on: the work built up to its end or its first failure. -/
def buildSlots (coordinator : Coordinator) (table : Table) (histories : Nat → History) :
    Nat → List Slot → List SlotWork × Except Error Unit
  | _, [] => ([], .ok ())
  | slot, entry :: rest =>
    match buildSlot coordinator table histories slot entry with
    | .error err => ([], .error err)
    | .ok work =>
      let tail := buildSlots coordinator table histories (slot + 1) rest
      (work :: tail.1, tail.2)

/-- What the coordinator has before it sends: the step begun, the slots of work built so far, and the message
or the error. -/
structure Built where
  reply : Reply
  slots : List SlotWork
  message : Except Error BatchWork

/-- The message around the slots: the n-gram flag needs every slot to have a row, and a batch in which only
some have one is refused. -/
def batchMessage (owner : Fin 8) (slots : List SlotWork) : Except Error BatchWork :=
  let ngramAny := slots.any fun work => work.ngramEmbedding.isSome
  let ngramAll := slots.all fun work => work.ngramEmbedding.isSome
  if ngramAny ≠ ngramAll then
    .error ⟨.mismatch, "decode batch slots disagree on n-gram embedding availability"⟩
  else
    let work : BatchWork :=
      { layer := 0
        sourceRank := 0
        destinationRank := UInt8.ofNat owner.val
        flags := if ngramAll then layerWorkHasNgram else 0
        positionMode := .text
        slots := slots }
    (validateDecodeBatchWork work).map fun _ => work

/-- `coordinator_decode_batch_step` up to the message it sends; undefined when it calls a null hook. -/
def decodeBatchStepBuild (coordinator : Coordinator) (table : Table) (step : Step) (calls : List HookCall)
    (policy : Option Policy) (histories : Nat → History) : Option Built :=
  let refuse (err : Error) : Option Built := some ⟨⟨table, step, calls, .error err⟩, [], .error err⟩
  if coordinator.layerOwner.val = 0 then
    refuse ⟨.mismatch, "batched ring decode requires a remote first block"⟩
  else if table.depth < 2 then
    refuse ⟨.argument, "batched ring decode requires table depth >= 2"⟩
  else if coordinator.penaltiesActive then
    refuse ⟨.unavailable, "depth-B batch decode is restricted to penalty-free sampler configs"⟩
  else if !coordinator.hasEmbedding then
    refuse ⟨.mismatch, "coordinator is missing token_embd.weight"⟩
  else
    (stepBegin table step calls policy (some coordinator.ops)).map fun reply =>
      match reply.status with
      | .error err => ⟨reply, [], .error err⟩
      | .ok () =>
        match buildSlots coordinator reply.table histories 0 (reply.step.entries.map Entry.slot) with
        | (slots, .error err) => ⟨reply, slots, .error err⟩
        | (slots, .ok ()) => ⟨reply, slots, batchMessage coordinator.layerOwner slots⟩

/-! ## Whose history a slot takes -/

/-- The work's embedding is that of the history's last token, and its n-gram is looked up in the history. -/
structure TakesFrom (coordinator : Coordinator) (history : History) (slot : Slot) (work : SlotWork) : Prop where
  embedding : ∃ tokens token hyper, history = some tokens ∧ lastToken tokens = some token ∧
    coordinator.embedding slot.stateSlot token = .ok hyper ∧ work.hyper = some hyper
  ngram : ∃ tokens, history = some tokens ∧
    coordinator.ngramLookup tokens slot.tokenIndex = .ok work.ngramEmbedding

def InStateSlotOrder (table : Table) (own : Index → History) (histories : Nat → History) : Prop :=
  ∀ i : Index, i.val < table.count → histories (table.sequences i).stateSlot.toNat = own i

/-- Every slot of work the step builds takes its data from the history of the sequence scheduled in that
slot. -/
def BuildsFromOwn (table : Table) (policy : Option Policy) : Prop :=
  ∀ (coordinator : Coordinator) (step : Step) (calls : List HookCall) (own : Index → History)
    (histories : Nat → History) (built : Built),
    InStateSlotOrder table own histories →
    decodeBatchStepBuild coordinator table step calls policy histories = some built →
    ∀ (k : Nat) (entry : Entry) (work : SlotWork), built.reply.step.entries[k]? = some entry →
      built.slots[k]? = some work → TakesFrom coordinator (own entry.slot.sequence) entry.slot work

/-- The sequence ready for the longest time, ties by table position. -/
structure Table.Oldest (table : Table) (i : Index) : Prop where
  live : i.val < table.count
  candidate : (table.sequences i).Candidate
  first : ∀ j : Index, j.val < table.count → (table.sequences j).Candidate →
    (table.sequences i).readySince < (table.sequences j).readySince ∨
      (table.sequences i).readySince = (table.sequences j).readySince ∧ i ≤ j

section TakesFrom

variable {coordinator : Coordinator} {table : Table} {histories : Nat → History} {work : SlotWork}

theorem buildSlot_takesFrom {slot : Nat} {entry : Slot}
    (htoken : (table.sequences entry.sequence).tokenIndex = entry.tokenIndex)
    (h : buildSlot coordinator table histories slot entry = .ok work) :
    TakesFrom coordinator (histories slot) entry work := by
  unfold buildSlot at h
  split at h
  · cases h
  next tokens hhistory =>
    split at h
    · cases h
    next token hlast =>
      split at h
      · cases h
      · split at h
        · cases h
        next hyper hembedding =>
          split at h
          · cases h
          · split at h
            · cases h
            next ngram hngram =>
              obtain rfl := Except.ok.inj h
              rw [htoken] at hngram
              exact ⟨⟨tokens, token, hyper, hhistory, hlast, hembedding, rfl⟩, tokens, hhistory, hngram⟩

theorem buildSlots_takesFrom {first k : Nat} {entries : List Slot} {entry : Slot}
    (htoken : ∀ entry ∈ entries, (table.sequences entry.sequence).tokenIndex = entry.tokenIndex)
    (hentry : entries[k]? = some entry)
    (hwork : (buildSlots coordinator table histories first entries).1[k]? = some work) :
    TakesFrom coordinator (histories (first + k)) entry work := by
  induction entries generalizing first k with
  | nil => cases hentry
  | cons head rest ih =>
    rw [buildSlots] at hwork
    split at hwork
    · cases hwork
    next built hbuilt =>
      cases k with
      | zero =>
        obtain rfl := Option.some.inj hentry
        obtain rfl := Option.some.inj hwork
        exact buildSlot_takesFrom (htoken _ List.mem_cons_self) hbuilt
      | succ k =>
        have hrest := @ih (first + 1) k (List.forall_mem_cons.mp htoken).2 hentry hwork
        rwa [Nat.add_right_comm, Nat.add_assoc] at hrest

variable {step : Step} {calls : List HookCall} {policy : Option Policy} {built : Built}

theorem decodeBatchStepBuild_opened
    (h : decodeBatchStepBuild coordinator table step calls policy histories = some built)
    (hslots : built.slots ≠ []) :
    (∃ slots, Opened table policy (some coordinator.ops) built.reply slots) ∧
      built.slots = (buildSlots coordinator built.reply.table histories 0
        (built.reply.step.entries.map Entry.slot)).1 := by
  unfold decodeBatchStepBuild at h
  split_ifs at h
  all_goals try
    cases h
    exact absurd rfl hslots
  obtain ⟨reply, hbegin, hbuilt⟩ := Option.map_eq_some_iff.mp h
  split at hbuilt
  · cases hbuilt
    exact absurd rfl hslots
  next hstatus =>
    have hopened : ∃ slots, Opened table policy (some coordinator.ops) reply slots := by
      rcases stepBegin_cases hbegin with hrefused | ⟨-, hopened⟩
      · exact absurd hstatus hrefused.status_ne
      · exact hopened
    split at hbuilt
    next slots err hbuild =>
      cases hbuilt
      exact ⟨hopened, by rw [hbuild]⟩
    next slots hbuild =>
      cases hbuilt
      exact ⟨hopened, by rw [hbuild]⟩

theorem Opened.map_slot {ops : Option Ops} {reply : Reply} {slots : List Slot}
    (h : Opened table policy ops reply slots) : reply.step.entries.map Entry.slot = slots := by
  rw [h.entries_eq, List.map_map]
  exact List.map_id _

theorem decodeBatchStepBuild_takesFrom
    (h : decodeBatchStepBuild coordinator table step calls policy histories = some built) {k : Nat}
    {entry : Entry} (hentry : built.reply.step.entries[k]? = some entry) (hwork : built.slots[k]? = some work) :
    TakesFrom coordinator (histories k) entry.slot work := by
  have hslots : built.slots ≠ [] := by
    intro hnil
    rw [hnil] at hwork
    cases hwork
  obtain ⟨⟨slots, hopened⟩, hbuilt⟩ := decodeBatchStepBuild_opened h hslots
  rw [hbuilt] at hwork
  have htakes := buildSlots_takesFrom (fun other hother => ?_)
    (by rw [List.getElem?_map, hentry, Option.map_some]) hwork
  · rwa [Nat.zero_add] at htakes
  · rw [hopened.map_slot] at hother
    have hassembled := hopened.assembled
    rw [hassembled.keeps Sequence.tokenIndex (fun _ => rfl), hassembled.copied other hother]
    rfl

end TakesFrom

section Oldest

variable {table : Table}

def Table.Before (table : Table) (i j : Index) : Prop :=
  (table.sequences i).readySince < (table.sequences j).readySince ∨
    (table.sequences i).readySince = (table.sequences j).readySince ∧ i ≤ j

theorem Table.Before.refl (i : Index) : table.Before i i := .inr ⟨rfl, Nat.le_refl _⟩

theorem Table.Before.trans {i j k : Index} (h : table.Before i j) (h' : table.Before j k) :
    table.Before i k := by
  unfold Table.Before at h h' ⊢
  simp only [UInt64.lt_iff_toNat_lt, ← UInt64.toNat_inj, Fin.le_def] at h h' ⊢
  omega

theorem Table.Before.antisymm {i j : Index} (h : table.Before i j) (h' : table.Before j i) : i = j := by
  unfold Table.Before at h h'
  simp only [UInt64.lt_iff_toNat_lt, ← UInt64.toNat_inj, Fin.le_def] at h h'
  apply Fin.ext
  omega

theorem older_before {best : Option Index} {i b : Index} (h : older table best i = some b) :
    table.Before b i ∧ ∀ before, best = some before → table.Before b before := by
  cases best with
  | none =>
    obtain rfl := Option.some.inj h
    exact ⟨.refl _, fun before hbefore => absurd hbefore (Option.some_ne_none before).symm⟩
  | some before =>
    simp only [older] at h
    split at h
    next hlt =>
      obtain rfl := Option.some.inj h
      refine ⟨.refl _, ?_⟩
      rintro other ⟨⟩
      exact hlt.imp_right fun heq => ⟨heq.1, Nat.le_of_lt heq.2⟩
    next hle =>
      obtain rfl := Option.some.inj h
      refine ⟨?_, ?_⟩
      · unfold Table.Before
        simp only [UInt64.lt_iff_toNat_lt, ← UInt64.toNat_inj, Fin.le_def, Fin.lt_def] at hle ⊢
        omega
      · rintro other ⟨⟩
        exact .refl _

theorem foldl_older_before {cells : List Index} {best : Option Index} {b : Index}
    (h : cells.foldl (older table) best = some b) :
    (∀ i ∈ cells, table.Before b i) ∧ ∀ before, best = some before → table.Before b before := by
  induction cells generalizing best with
  | nil =>
    obtain rfl : best = some b := h
    refine ⟨fun i hi => absurd hi List.not_mem_nil, ?_⟩
    rintro before ⟨⟩
    exact .refl _
  | cons cell rest ih =>
    obtain ⟨hrest, hbest⟩ := ih h
    cases hnext : older table best cell with
    | none =>
      exfalso
      unfold older at hnext
      split at hnext
      · cases hnext
      · split at hnext <;> cases hnext
    | some next =>
      obtain ⟨hcell, hbefore⟩ := older_before hnext
      have hb := hbest next hnext
      refine ⟨fun i hi => ?_, fun before heq => hb.trans (hbefore before heq)⟩
      rcases List.mem_cons.mp hi with rfl | hi
      · exact hb.trans hcell
      · exact hrest i hi

theorem pickBest_oldest {i : Index} (h : pickBest table = some i) : table.Oldest i := by
  obtain ⟨hlive, hcandidate⟩ := Table.mem_candidates.mp (pickBest_mem h)
  refine ⟨hlive, hcandidate, fun j hj hready => ?_⟩
  exact (foldl_older_before h).1 j (Table.mem_candidates.mpr ⟨hj, hready⟩)

theorem Table.Oldest.unique {i j : Index} (h : table.Oldest i) (h' : table.Oldest j) : i = j :=
  Table.Before.antisymm (h.first j h'.live h'.candidate) (h'.first i h.live h.candidate)

theorem foldl_older_isSome (cells : List Index) {best : Index} :
    ∃ b, cells.foldl (older table) (some best) = some b := by
  induction cells generalizing best with
  | nil => exact ⟨best, rfl⟩
  | cons cell rest ih =>
    rw [List.foldl_cons]
    unfold older
    dsimp only
    split
    · exact ih
    · exact ih

theorem Table.Oldest.pickBest {i : Index} (h : table.Oldest i) : DecodeBatch.pickBest table = some i := by
  obtain ⟨b, hb⟩ : ∃ b, DecodeBatch.pickBest table = some b := by
    have hmem := Table.mem_candidates.mpr ⟨h.live, h.candidate⟩
    unfold DecodeBatch.pickBest
    cases hcandidates : table.candidates with
    | nil =>
      rw [hcandidates] at hmem
      cases hmem
    | cons cell rest => exact foldl_older_isSome rest
  rw [hb, h.unique (pickBest_oldest hb)]

theorem schedule_head {after : Table} {policy : Option Policy} {slots : List Slot}
    (h : schedule table policy = .ok (after, slots)) :
    ∃ i rest, table.Oldest i ∧ slots = slotOf table i :: rest := by
  unfold schedule at h
  dsimp only at h
  split_ifs at h with hdepth hnone hempty
  cases h
  cases hlimit : min (chooseBatch policy (worstContext table) table.depth) table.candidates.length with
  | zero =>
    rw [hlimit] at hempty
    exact absurd rfl hempty
  | succ limit =>
    rw [hlimit, assemble] at hempty
    rw [assemble]
    split at hempty
    · exact absurd rfl hempty
    next i hpick => exact ⟨i, _, pickBest_oldest hpick, rfl⟩

theorem largestWithin_pos (budget scan : UInt64) (cap : Nat) : 0 < largestWithin budget scan cap := by
  induction cap using largestWithin.induct budget scan with
  | case1 => exact Nat.one_pos
  | case2 => exact Nat.one_pos
  | case3 n hfits =>
    rw [largestWithin, if_pos hfits]
    omega
  | case4 n hexceeds ih =>
    rw [largestWithin, if_neg hexceeds]
    exact ih

theorem Table.Oldest.schedule {i : Index} (h : table.Oldest i) (hdepth : table.depth ≠ 0)
    (policy : Option Policy) : ∃ after slots, DecodeBatch.schedule table policy = .ok (after, slots) := by
  have hcandidates : 0 < table.candidates.length :=
    List.length_pos_of_mem (Table.mem_candidates.mpr ⟨h.live, h.candidate⟩)
  have hchoose : 0 < chooseBatch policy (worstContext table) table.depth := largestWithin_pos _ _ _
  obtain ⟨limit, hlimit⟩ : ∃ limit,
      min (chooseBatch policy (worstContext table) table.depth) table.candidates.length = limit + 1 :=
    ⟨min (chooseBatch policy (worstContext table) table.depth) table.candidates.length - 1, by omega⟩
  unfold DecodeBatch.schedule
  dsimp only
  rw [if_neg hdepth, if_neg (Nat.ne_of_gt hcandidates), hlimit, assemble, h.pickBest]
  rw [if_neg (List.cons_ne_nil _ _)]
  exact ⟨_, _, rfl⟩

end Oldest

/-! ## State slots along a run -/

/-- Live sequences sit in different state slots below the depth. -/
structure Table.Seated (table : Table) : Prop where
  depth_le : table.depth.toNat ≤ batchMax
  stateSlot_lt : ∀ i : Index, i.val < table.count → (table.sequences i).stateSlot < table.depth
  distinct : table.DistinctBy Sequence.stateSlot

section Seated

variable {table after : Table}

section

variable (h : table.Seated)
include h

theorem Table.Seated.congr (hdepth : after.depth = table.depth)
    (hcount : after.count = table.count)
    (hslot : ∀ i, (after.sequences i).stateSlot = (table.sequences i).stateSlot) : after.Seated := by
  refine ⟨hdepth ▸ h.depth_le, fun i hi => ?_, h.distinct.congr hcount hslot⟩
  rw [hslot, hdepth]
  exact h.stateSlot_lt i (hcount ▸ hi)

theorem Table.Seated.enter {sequenceId : UInt64} {stateSlot : UInt32}
    (henter : sequenceEnter table sequenceId stateSlot = .ok after) : after.Seated := by
  obtain ⟨_, hslot, _, hused, _, _, _, hdepth⟩ := sequenceEnter_ok henter
  refine ⟨hdepth ▸ h.depth_le, fun i hi => ?_, h.distinct.enter henter hused⟩
  rw [hdepth]
  rcases sequenceEnter_cell henter i with ⟨_, hnew⟩ | ⟨hsame, hlive⟩
  · rw [hnew]
    exact hslot
  · rw [hsame]
    exact h.stateSlot_lt i (hlive hi)

theorem Table.Seated.leave {i : Index} (hi : i.val < table.count) : (table.compact i).Seated := by
  refine ⟨h.depth_le, fun k hk => ?_, h.distinct.compact hi⟩
  obtain ⟨l, hl, hsame, _⟩ := compact_cell hi k hk
  rw [hsame]
  exact h.stateSlot_lt l hl

theorem Table.Seated.modify {i : Index} {f : Sequence → Sequence}
    (hf : ∀ sequence, (f sequence).stateSlot = sequence.stateSlot) : (table.modify i f).Seated :=
  h.congr rfl rfl (Table.modify_keeps f hf)

theorem Table.Seated.closed {step : Step} {f : Entry → Sequence → Sequence} {reply : Reply}
    (hclosed : Closed table step f reply)
    (hslot : ∀ entry sequence, (f entry sequence).stateSlot = sequence.stateSlot) : reply.table.Seated := by
  refine h.congr hclosed.depth_eq hclosed.count_eq fun i => ?_
  rw [hclosed.sequences_eq]
  exact @scatter_forall _ _ _ _ Entry.index f _ _
    (fun i sequence => sequence.stateSlot = (table.sequences i).stateSlot) (fun _ => rfl)
    (fun entry _ sequence heq => (hslot entry sequence).trans heq) i

theorem Table.Seated.restore (step : Step) (calls : List HookCall) :
    (stepRestore table step calls).table.Seated := by
  by_cases hactive : step.active = true
  · exact h.closed (stepRestore_closed table calls hactive) fun _ _ => rfl
  · rw [stepRestore_inactive (Bool.eq_false_of_not_eq_true hactive)]
    exact h

theorem Table.Seated.commit (step : Step) (calls : List HookCall) :
    (stepCommit table step calls).table.Seated := by
  rcases stepCommit_cases table step calls with ⟨err, heq⟩ | ⟨_, _, made, htable, _⟩ | ⟨_, _, hclosed⟩
  · rw [heq]
    exact h
  · rw [htable]
    exact h.restore step made
  · exact h.closed hclosed fun _ _ => rfl

end

theorem System.take_seated {s next : System} {op : Op} (h : s.table.Seated) (htake : s.take op = some next) :
    next.table.Seated := by
  cases op with
  | enter sequenceId stateSlot =>
    cases htake
    cases hok : sequenceEnter s.table sequenceId stateSlot with
    | error err => exact h
    | ok table => exact h.enter hok
  | leave sequenceId =>
    cases htake
    cases hok : sequenceLeave s.table sequenceId with
    | error err => exact h
    | ok table =>
      obtain ⟨i, hfind, _, rfl⟩ := sequenceLeave_ok hok
      exact h.leave (tableFind_eq_some hfind).2.1
  | ready sequenceId now =>
    cases htake
    cases hok : sequenceReady s.table sequenceId now with
    | error err => exact h
    | ok table =>
      obtain ⟨i, _, _, rfl⟩ := sequenceReady_ok hok
      dsimp only [System.withTable]
      exact h.modify fun _ => rfl
  | frontier sequenceId committedTokens tokenIndex position =>
    cases htake
    cases hok : sequenceFrontier s.table sequenceId committedTokens tokenIndex position with
    | error err => exact h
    | ok table =>
      obtain ⟨i, _, _, _, _, rfl⟩ := sequenceFrontier_ok hok
      dsimp only [System.withTable]
      exact h.modify fun _ => rfl
  | stepBegin j policy ops =>
    obtain ⟨reply, hreply, rfl⟩ := Option.map_eq_some_iff.mp htake
    rcases stepBegin_cases hreply with hrefused | ⟨_, slots, hopened⟩
    · exact h.congr hrefused.depth_eq hrefused.count_eq fun i => by
        rw [show (s.withReply j reply).table.sequences i = s.table.sequences i from
          congrFun hrefused.sequences_eq i]
    · exact h.congr hopened.assembled.depth_eq hopened.assembled.count_eq
        (hopened.assembled.keeps Sequence.stateSlot fun _ => rfl)
  | stepAdvance j slot outcome =>
    cases htake
    split <;> exact h
  | stepCommit j =>
    cases htake
    exact h.commit (s.steps j) s.calls
  | stepRestore j =>
    cases htake
    exact h.restore (s.steps j) s.calls

theorem System.Reached.seated {depth : UInt32} {ops : List Op} {s : System} (h : System.Reached depth ops s) :
    s.table.Seated := by
  obtain ⟨table, hinit, hrun⟩ := h
  refine exec_invariant_always (fun _ _ _ => System.take_seated) ?_ hrun
  obtain ⟨_, hdepth, rfl⟩ := tableInit_ok hinit
  exact ⟨hdepth, fun i hi => absurd hi (Nat.not_lt_zero _), fun i j hi => absurd hi (Nat.not_lt_zero _)⟩

theorem Table.Seated.depth_eq (h : table.Seated) (hcount : 2 ≤ table.count) : table.depth = 2 := by
  have hone := UInt32.lt_iff_toNat_lt.mp (h.stateSlot_lt 0 (show 0 < table.count by omega))
  have htwo := UInt32.lt_iff_toNat_lt.mp (h.stateSlot_lt 1 (show 1 < table.count by omega))
  have hne : (table.sequences 0).stateSlot.toNat ≠ (table.sequences 1).stateSlot.toNat := by
    intro heq
    have hsame := h.distinct 0 1 (show 0 < table.count by omega) (show 1 < table.count by omega)
      (UInt32.toNat_inj.mp heq)
    exact absurd hsame (by decide)
  have hle := h.depth_le
  apply UInt32.toNat_inj.mp
  show table.depth.toNat = 2
  unfold batchMax at hle
  omega

theorem Table.Seated.stateSlot_eq (h : table.Seated)
    (holdest : ∀ i, table.Oldest i → (table.sequences i).stateSlot = 0) {policy : Option Policy}
    {slots : List Slot} (hschedule : schedule table policy = .ok (after, slots)) {k : Nat} {slot : Slot}
    (hslot : slots[k]? = some slot) : slot.stateSlot.toNat = k := by
  obtain ⟨hassembled, -, hle⟩ := schedule_ok hschedule
  obtain ⟨i, rest, hi, rfl⟩ := schedule_head hschedule
  have hzero : (slotOf table i).stateSlot = 0 := holdest i hi
  match k, hslot with
  | 0, hslot =>
    obtain rfl := Option.some.inj hslot
    rw [hzero]
    rfl
  | 1, hslot =>
    have hmem : slot ∈ rest := List.mem_of_getElem? (show rest[0]? = some slot from hslot)
    have hin : slot ∈ slotOf table i :: rest := List.mem_cons_of_mem _ hmem
    have hlive := hassembled.live slot hin
    have hstate : slot.stateSlot = (table.sequences slot.sequence).stateSlot :=
      congrArg Slot.stateSlot (hassembled.copied slot hin)
    have hlt := UInt32.lt_iff_toNat_lt.mp (h.stateSlot_lt slot.sequence hlive)
    have hne : slot.stateSlot.toNat ≠ 0 := by
      intro heq
      have hsame : slot.sequence = i := by
        apply h.distinct slot.sequence i hlive hi.live
        rw [← hstate, holdest i hi]
        exact UInt32.toNat_inj.mp heq
      have hnodup := hassembled.nodup
      rw [List.map_cons, List.nodup_cons] at hnodup
      apply hnodup.1
      show i ∈ rest.map Slot.sequence
      rw [← hsame]
      exact List.mem_map_of_mem hmem
    have hdepth := h.depth_le
    unfold batchMax at hdepth
    rw [hstate] at hne ⊢
    omega
  | k + 2, hslot =>
    have hlt := (List.getElem?_eq_some_iff.mp hslot).1
    unfold batchMax at hle
    omega

end Seated

/-! ## When the histories go to their own sequences -/

section Own

variable {table : Table} {policy : Option Policy}

theorem buildsFromOwn_of_oldest (h : table.Seated)
    (holdest : ∀ i, table.Oldest i → (table.sequences i).stateSlot = 0) : BuildsFromOwn table policy := by
  intro coordinator step calls own histories built hown hbuilt k entry work hentry hwork
  have hslots : built.slots ≠ [] := by
    intro hnil
    rw [hnil] at hwork
    cases hwork
  obtain ⟨⟨slots, hopened⟩, -⟩ := decodeBatchStepBuild_opened hbuilt hslots
  have hslot : slots[k]? = some entry.slot := by
    rw [← hopened.map_slot, List.getElem?_map, hentry, Option.map_some]
  have hmem : entry.slot ∈ slots := List.mem_of_getElem? hslot
  have hstate := h.stateSlot_eq holdest hopened.schedule_eq hslot
  have hhistory : histories k = own entry.slot.sequence := by
    rw [← hown _ (hopened.assembled.live _ hmem), ← hstate, hopened.assembled.copied _ hmem]
    rfl
  rw [← hhistory]
  exact decodeBatchStepBuild_takesFrom hbuilt hentry hwork

/-- A coordinator whose embedding of a token shows the token, and whose transactions succeed. -/
def plainCoordinator : Coordinator where
  layerOwner := 1
  penaltiesActive := false
  hasEmbedding := true
  slotInput := fun _ => true
  embedding := fun _ token => .ok (Vector.replicate hyperWidth ⟨token⟩)
  ngramLookup := fun _ _ => .ok none
  prepare := fun _ _ _ => .ok ()
  commit := fun _ _ _ => .ok ()
  restore := fun _ _ _ => .ok ()

def numberedHistory (stateSlot : Nat) : History := some [if stateSlot = 0 then 0 else 1]

theorem prepareLoop_plain (table : Table) (entries : List Entry) (calls : List HookCall) :
    ∃ done made, prepareLoop (fun _ _ _ => .ok ()) table entries calls = (done, made, .ok ()) := by
  induction entries generalizing calls with
  | nil => exact ⟨[], calls, rfl⟩
  | cons entry rest ih =>
    obtain ⟨done, made, hrest⟩ := ih (calls ++ [hookCall .prepare table entry])
    exact ⟨entry :: done, made, by simp only [prepareLoop, hrest]⟩

theorem stepBegin_plain {after : Table} {slots : List Slot}
    (hschedule : schedule table policy = .ok (after, slots)) :
    ∃ reply, stepBegin table {} [] policy (some plainCoordinator.ops) = some reply ∧ reply.status = .ok () ∧
      reply.step.entries = slots.map (snapshotEntry after) := by
  obtain ⟨done, made, hprepare⟩ := prepareLoop_plain after (slots.map (snapshotEntry after)) []
  have hhook : (some plainCoordinator.ops).bind Ops.prepare = some fun _ _ _ => .ok () := rfl
  simp only [stepBegin, hschedule, hhook, hprepare]
  exact ⟨_, rfl, rfl, rfl⟩

theorem buildSlot_plain (table : Table) (slot : Nat) (entry : Slot) :
    ∃ work, buildSlot plainCoordinator table numberedHistory slot entry = .ok work ∧
      work.hyper = some (Vector.replicate hyperWidth ⟨if slot = 0 then 0 else 1⟩) := by
  have hfinite : ∀ bits, bits = 0 ∨ bits = 1 →
      firstNonFinite (Vector.replicate hyperWidth (⟨bits⟩ : Binary32)) = none := by
    intro bits hbits
    apply firstNonFinite_eq_none
    intro value hvalue
    rw [Vector.toList_replicate, List.mem_replicate] at hvalue
    rw [hvalue.2]
    rcases hbits with rfl | rfl <;> rfl
  have hlast : lastToken [if slot = 0 then 0 else 1] = some (if slot = 0 then 0 else 1) := by
    split <;> rfl
  have hrow := hfinite (if slot = 0 then 0 else 1) (by split <;> simp)
  simp only [buildSlot, numberedHistory, hlast, plainCoordinator, hrow]
  exact ⟨_, rfl, rfl⟩

theorem buildSlots_head {coordinator : Coordinator} {histories : Nat → History} {slot : Nat} {entry : Slot}
    {work : SlotWork} (h : buildSlot coordinator table histories slot entry = .ok work) (rest : List Slot) :
    (buildSlots coordinator table histories slot (entry :: rest)).1[0]? = some work := by
  rw [buildSlots, h]
  rfl

theorem replicate_inj {α : Type} {n : Nat} {a b : α} (hn : 0 < n)
    (h : Vector.replicate n a = Vector.replicate n b) : a = b := by
  have hfirst := congrArg (fun row => row[0]) h
  simpa using hfirst

theorem not_buildsFromOwn {i : Index} (h : table.Seated) (hcount : 2 ≤ table.count) (hi : table.Oldest i)
    (hslot : (table.sequences i).stateSlot ≠ 0) : ¬BuildsFromOwn table policy := by
  intro hown
  have hdepth := h.depth_eq hcount
  obtain ⟨after, slots, hschedule⟩ := hi.schedule (by rw [hdepth]; decide) policy
  obtain ⟨j, rest, hj, rfl⟩ := schedule_head hschedule
  obtain rfl := hi.unique hj
  obtain ⟨reply, hbegin, hstatus, hentries⟩ := stepBegin_plain hschedule
  obtain ⟨work, hwork, hhyper⟩ := buildSlot_plain reply.table 0 (slotOf table i)
  obtain ⟨built, hbuilt, hreply, hslots⟩ : ∃ built,
      decodeBatchStepBuild plainCoordinator table {} [] policy numberedHistory = some built ∧
      built.reply = reply ∧ built.slots[0]? = some work := by
    have hbuild : (buildSlots plainCoordinator reply.table numberedHistory 0
        (reply.step.entries.map Entry.slot)).1[0]? = some work := by
      rw [hentries, List.map_cons, List.map_cons]
      exact buildSlots_head hwork _
    unfold decodeBatchStepBuild
    rw [if_neg (by decide), if_neg (by rw [hdepth]; decide), if_neg (by decide), if_neg (by decide), hbegin,
      Option.map_some, hstatus]
    dsimp only
    split
    next slots err heq =>
      rw [heq] at hbuild
      exact ⟨_, rfl, rfl, hbuild⟩
    next slots heq =>
      rw [heq] at hbuild
      exact ⟨_, rfl, rfl, hbuild⟩
  have horder : InStateSlotOrder table (fun i => numberedHistory (table.sequences i).stateSlot.toNat)
      numberedHistory := fun _ _ => rfl
  have htakes := hown plainCoordinator {} [] _ numberedHistory built horder hbuilt 0
    (snapshotEntry after (slotOf table i)) work (by rw [hreply, hentries]; rfl) hslots
  obtain ⟨tokens, token, hyper, htokens, hlast, hembedding, hown⟩ := htakes.embedding
  have hnonzero : (table.sequences i).stateSlot.toNat ≠ 0 := fun heq => hslot (UInt32.toNat_inj.mp heq)
  have htoken : token = 1 := by
    have hhistory : numberedHistory (table.sequences i).stateSlot.toNat = some [1] := by
      rw [numberedHistory, if_neg hnonzero]
    obtain rfl := Option.some.inj (hhistory.symm.trans htokens)
    exact (Option.some.inj hlast).symm
  subst htoken
  obtain rfl := Except.ok.inj hembedding
  have hbits := replicate_inj (by decide) (Option.some.inj (hhyper.symm.trans hown))
  exact absurd hbits (by decide)

/-- In every reached state with two sequences or more, the batch step builds every slot from its own
sequence's history exactly when the oldest ready sequence, if there is one, sits in state slot 0. -/
theorem builds_from_own_iff {depth : UInt32} {ops : List Op} {s : System} (hrun : System.Reached depth ops s)
    (hcount : 2 ≤ s.table.count) (policy : Option Policy) :
    BuildsFromOwn s.table policy ↔ ∀ i, s.table.Oldest i → (s.table.sequences i).stateSlot = 0 := by
  constructor
  · intro hown i hi
    by_contra hslot
    exact not_buildsFromOwn hrun.seated hcount hi hslot hown
  · exact buildsFromOwn_of_oldest hrun.seated

theorem twoReadyRun_builds_from_own : ∃ s, System.Reached 2 twoReadyRun s ∧ 2 ≤ s.table.count ∧
    s.table.Oldest 0 ∧ BuildsFromOwn s.table none := by
  obtain ⟨s, hrun, hcount, holdest, hslot⟩ : ∃ s, System.Reached 2 twoReadyRun s ∧ 2 ≤ s.table.count ∧
      s.table.Oldest 0 ∧ (s.table.sequences 0).stateSlot = 0 := by
    refine ⟨_, ⟨_, rfl, rfl⟩, Nat.le_refl 2, ⟨by decide, by decide, by decide⟩, rfl⟩
  refine ⟨s, hrun, hcount, holdest, (builds_from_own_iff hrun hcount none).mpr fun i hi => ?_⟩
  rw [hi.unique holdest]
  exact hslot

/-- The sequence of state slot 1 becomes ready before the one of state slot 0. -/
def crossedReadyRun : List Op := [.enter 1 0, .enter 2 1, .ready 2 1, .ready 1 2]

/-- Then both are scheduled, the later one first, and the first slot is given the other sequence's history. -/
theorem crossedReadyRun_not_own : ∃ s, System.Reached 2 crossedReadyRun s ∧ 2 ≤ s.table.count ∧
    (∃ after, schedule s.table none = .ok (after, [slotOf s.table 1, slotOf s.table 0])) ∧
    (slotOf s.table 1).stateSlot = 1 ∧ ¬BuildsFromOwn s.table none := by
  obtain ⟨s, hrun, hcount, holdest, hslot, hschedule⟩ : ∃ s, System.Reached 2 crossedReadyRun s ∧
      2 ≤ s.table.count ∧ s.table.Oldest 1 ∧ (s.table.sequences 1).stateSlot = 1 ∧
      ∃ after, schedule s.table none = .ok (after, [slotOf s.table 1, slotOf s.table 0]) := by
    refine ⟨_, ⟨_, rfl, rfl⟩, Nat.le_refl 2, ⟨by decide, by decide, by decide⟩, rfl, _, rfl⟩
  refine ⟨s, hrun, hcount, hschedule, hslot, ?_⟩
  apply not_buildsFromOwn hrun.seated hcount holdest
  rw [hslot]
  decide

end Own

end FlashGordon.DecodeBatch
