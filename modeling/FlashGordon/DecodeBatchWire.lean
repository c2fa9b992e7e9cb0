import FlashGordon.Binary32
import FlashGordon.DecodeBatchRun

/-! From the scheduler to the wire. The coordinator turns a scheduled batch into a decode batch work
message for the owner of the first layer (`coordinator_decode_batch_step` in `runtime.c`), and the
encoder validates it (`validate_decode_batch_work` in `protocol.c`). -/

namespace FlashGordon.DecodeBatch

open Runs Scatter

def hyperWidth : Nat := 10240

def ngramEmbedValues : Nat := 2560

def layerWorkHasNgram : UInt8 := 1

def layerWorkFlagOutput4wayGreedy : UInt8 := 2

inductive PositionMode where
  | text
  | fourAxis
  deriving DecidableEq

structure SlotWork where
  tokenIndex : UInt32
  stateSlot : UInt32
  position : Positions
  hyper : Option (Vector Binary32 hyperWidth)
  ngramEmbedding : Option (Vector Binary32 ngramEmbedValues)

structure BatchWork where
  layer : UInt8
  sourceRank : UInt8
  destinationRank : UInt8
  flags : UInt8
  positionMode : PositionMode
  slots : List SlotWork

def firstNonFinite {n : Nat} (row : Vector Binary32 n) : Option Nat :=
  row.toList.findIdx? fun value => !value.isFinite

/-- The header test; a position mode outside its enumeration cannot be built here. -/
def BatchWork.HeaderInvalid (work : BatchWork) : Prop :=
  layerCount ≤ work.layer.toNat ∨ rankCount ≤ work.sourceRank.toNat ∨
    rankCount ≤ work.destinationRank.toNat ∨
    work.flags &&& ~~~(layerWorkHasNgram ||| layerWorkFlagOutput4wayGreedy) ≠ 0 ∨
    (work.flags &&& layerWorkHasNgram ≠ 0 ∧ 1 < work.layer) ∨
    work.slots.length = 0 ∨ batchMax < work.slots.length

instance (work : BatchWork) : Decidable work.HeaderInvalid := by
  unfold BatchWork.HeaderInvalid
  infer_instance

def validateSlot (work : BatchWork) (before : List SlotWork) (slot : Nat) (entry : SlotWork) :
    Except Error Unit :=
  match entry.hyper with
  | none => .error ⟨.format, s!"invalid decode batch work slot {slot}"⟩
  | some hyper =>
    if batchMax ≤ entry.stateSlot.toNat ∨ maxContext ≤ entry.tokenIndex.toNat ∨
        (work.positionMode = .text ∧ entry.position.get 3 ≠ 0) then
      .error ⟨.format, s!"invalid decode batch work slot {slot}"⟩
    else match before.findIdx? fun other => other.stateSlot = entry.stateSlot with
      | some other =>
        let stateSlot := entry.stateSlot
        .error ⟨.format, s!"decode batch slots {other} and {slot} share owner state slot {stateSlot}"⟩
      | none =>
        match firstNonFinite hyper with
        | some i => .error ⟨.format, s!"non-finite decode batch work slot {slot} hidden at {i}"⟩
        | none =>
          if work.flags &&& layerWorkHasNgram = 0 then .ok ()
          else match entry.ngramEmbedding with
            | none => .error ⟨.format, s!"decode batch work slot {slot} has no n-gram storage"⟩
            | some ngram =>
              match firstNonFinite ngram with
              | some i => .error ⟨.format, s!"non-finite decode batch work slot {slot} n-gram at {i}"⟩
              | none => .ok ()

def validateSlots (work : BatchWork) : List SlotWork → List SlotWork → Except Error Unit
  | _, [] => .ok ()
  | before, entry :: rest =>
    match validateSlot work before before.length entry with
    | .error err => .error err
    | .ok () => validateSlots work (before ++ [entry]) rest

def validateDecodeBatchWork (work : BatchWork) : Except Error Unit :=
  if work.HeaderInvalid then .error ⟨.format, "invalid decode batch work header"⟩
  else validateSlots work [] work.slots

/-- The float rows of one slot: its hidden row and, when the store has one, its n-gram row. Both are
finite. -/
structure Rows where
  hyper : Vector Binary32 hyperWidth
  ngram : Option (Vector Binary32 ngramEmbedValues)
  hyper_finite : ∀ value ∈ hyper.toList, value.isFinite = true
  ngram_finite : ∀ row, ngram = some row → ∀ value ∈ row.toList, value.isFinite = true

def slotWork (slot : Slot) (rows : Rows) : SlotWork where
  tokenIndex := slot.tokenIndex
  stateSlot := slot.stateSlot
  position := slot.position
  hyper := some rows.hyper
  ngramEmbedding := rows.ngram

/-- The message of `coordinator_decode_batch_step`: first layer, from rank 0 to its owner, text
positions, the n-gram flag when every slot has an n-gram row. -/
def batchWork (owner : Fin 8) (slots : List (Slot × Rows)) : BatchWork where
  layer := 0
  sourceRank := 0
  destinationRank := UInt8.ofNat owner.val
  flags := if slots.all fun slot => slot.2.ngram.isSome then layerWorkHasNgram else 0
  positionMode := .text
  slots := slots.map fun slot => slotWork slot.1 slot.2

/-- What a batch owes the wire: distinct owner state slots below the depth, and token indices inside
the context. -/
structure WireReady (depth : UInt32) (slots : List Slot) : Prop where
  slots_ne : slots ≠ []
  length_le : slots.length ≤ batchMax
  distinct : (slots.map Slot.stateSlot).Nodup
  stateSlot_lt : ∀ slot ∈ slots, slot.stateSlot < depth
  tokenIndex_lt : ∀ slot ∈ slots, slot.tokenIndex.toNat < maxContext

section Validate

theorem firstNonFinite_eq_none {n : Nat} {row : Vector Binary32 n}
    (h : ∀ value ∈ row.toList, value.isFinite = true) : firstNonFinite row = none := by
  rw [firstNonFinite, List.findIdx?_eq_none_iff]
  intro value hvalue
  rw [h value hvalue]
  rfl

theorem validateSlot_slotWork {work : BatchWork} {before : List SlotWork} {n : Nat} {slot : Slot}
    {rows : Rows} (hstate : slot.stateSlot.toNat < batchMax) (htoken : slot.tokenIndex.toNat < maxContext)
    (haxis : slot.position.get 3 = 0) (hfree : ∀ other ∈ before, other.stateSlot ≠ slot.stateSlot)
    (hngram : work.flags &&& layerWorkHasNgram ≠ 0 → rows.ngram.isSome = true) :
    validateSlot work before n (slotWork slot rows) = .ok () := by
  have hhyper : (slotWork slot rows).hyper = some rows.hyper := rfl
  have hngramEq : (slotWork slot rows).ngramEmbedding = rows.ngram := rfl
  have hpasses : ¬ (batchMax ≤ (slotWork slot rows).stateSlot.toNat ∨
      maxContext ≤ (slotWork slot rows).tokenIndex.toNat ∨
      (work.positionMode = .text ∧ (slotWork slot rows).position.get 3 ≠ 0)) := by
    rw [not_or, not_or]
    exact ⟨Nat.not_le.mpr hstate, Nat.not_le.mpr htoken, fun h => h.2 haxis⟩
  have hnone : (before.findIdx? fun other => other.stateSlot = (slotWork slot rows).stateSlot) = none := by
    rw [List.findIdx?_eq_none_iff]
    intro other hother
    exact decide_eq_false (hfree other hother)
  simp only [validateSlot, hhyper, if_neg hpasses, hnone, firstNonFinite_eq_none rows.hyper_finite, hngramEq]
  split_ifs with hflag
  · rfl
  · obtain ⟨row, hrow⟩ := Option.isSome_iff_exists.mp (hngram hflag)
    simp only [hrow, firstNonFinite_eq_none (rows.ngram_finite row hrow)]

theorem batchWork_flags (owner : Fin 8) (slots : List (Slot × Rows)) :
    (batchWork owner slots).flags = 1 ∧ (∀ slot ∈ slots, slot.2.ngram.isSome = true) ∨
      (batchWork owner slots).flags = 0 := by
  unfold batchWork
  split_ifs with hall
  · exact .inl ⟨rfl, by simpa using hall⟩
  · exact .inr rfl

theorem validateSlots_batch (work : BatchWork) (before rest : List (Slot × Rows))
    (hdistinct : ((before ++ rest).map fun slot => slot.1.stateSlot).Nodup)
    (hstate : ∀ slot ∈ rest, slot.1.stateSlot.toNat < batchMax)
    (htoken : ∀ slot ∈ rest, slot.1.tokenIndex.toNat < maxContext)
    (haxis : ∀ slot ∈ rest, slot.1.position.get 3 = 0)
    (hngram : work.flags &&& layerWorkHasNgram ≠ 0 → ∀ slot ∈ rest, slot.2.ngram.isSome = true) :
    validateSlots work (before.map fun slot => slotWork slot.1 slot.2)
      (rest.map fun slot => slotWork slot.1 slot.2) = .ok () := by
  induction rest generalizing before with
  | nil => rfl
  | cons slot rest ih =>
    have hfree : ∀ other ∈ before.map fun slot => slotWork slot.1 slot.2, other.stateSlot ≠ slot.1.stateSlot := by
      intro other hother heq
      obtain ⟨earlier, hearlier, rfl⟩ := List.mem_map.mp hother
      rw [List.map_append, List.nodup_append] at hdistinct
      exact hdistinct.2.2 _ (List.mem_map_of_mem hearlier) _ (by simp) heq
    rw [List.map_cons, validateSlots, validateSlot_slotWork (hstate slot List.mem_cons_self)
      (htoken slot List.mem_cons_self) (haxis slot List.mem_cons_self) hfree
      fun hflag => hngram hflag slot List.mem_cons_self]
    have htail := ih (before ++ [slot]) (by simpa using hdistinct) (List.forall_mem_cons.mp hstate).2
      (List.forall_mem_cons.mp htoken).2
      (List.forall_mem_cons.mp haxis).2
      fun hflag other hother => hngram hflag other (List.mem_cons_of_mem _ hother)
    rwa [List.map_append] at htail

theorem validateDecodeBatchWork_tokenIndex {work : BatchWork} (h : validateDecodeBatchWork work = .ok ()) :
    ∀ entry ∈ work.slots, entry.tokenIndex.toNat < maxContext := by
  have hslot : ∀ before n entry, validateSlot work before n entry = .ok () → entry.tokenIndex.toNat < maxContext := by
    intro before n entry hok
    unfold validateSlot at hok
    split at hok
    · cases hok
    · refine Nat.lt_of_not_le fun hge => ?_
      rw [if_pos (.inr (.inl hge))] at hok
      cases hok
  have hslots : ∀ rest before, validateSlots work before rest = .ok () →
      ∀ entry ∈ rest, entry.tokenIndex.toNat < maxContext := by
    intro rest
    induction rest with
    | nil => exact fun _ _ entry hentry => absurd hentry List.not_mem_nil
    | cons head rest ih =>
      intro before hok entry hentry
      unfold validateSlots at hok
      split at hok
      · cases hok
      next hhead =>
        rcases List.mem_cons.mp hentry with rfl | hrest
        · exact hslot _ _ _ hhead
        · exact ih _ hok entry hrest
  unfold validateDecodeBatchWork at h
  split_ifs at h
  exact hslots work.slots [] h

theorem WireReady.validate {depth : UInt32} {slots : List Slot} (h : WireReady depth slots)
    (hdepth : depth.toNat ≤ batchMax) (haxis : ∀ slot ∈ slots, slot.position.get 3 = 0) (owner : Fin 8)
    (paired : List (Slot × Rows)) (hpaired : paired.map Prod.fst = slots) :
    validateDecodeBatchWork (batchWork owner paired) = .ok () := by
  have hmem : ∀ slot ∈ paired, slot.1 ∈ slots := fun slot hslot =>
    hpaired ▸ List.mem_map_of_mem hslot
  have hlength : paired.length = slots.length := by rw [← hpaired, List.length_map]
  have hpos := List.length_pos_iff.mpr h.slots_ne
  have hheader : ¬ (batchWork owner paired).HeaderInvalid := by
    have howner : (batchWork owner paired).destinationRank.toNat < rankCount := by
      simp only [batchWork, rankCount, UInt8.toNat_ofNat']
      omega
    have hslots : (batchWork owner paired).slots.length = paired.length := by simp [batchWork]
    have hle := h.length_le
    rintro (hbad | hbad | hbad | hbad | hbad | hbad | hbad)
    · exact absurd (show layerCount ≤ (0 : UInt8).toNat from hbad) (by decide)
    · exact absurd (show rankCount ≤ (0 : UInt8).toNat from hbad) (by decide)
    · omega
    · rcases batchWork_flags owner paired with ⟨hflags, _⟩ | hflags <;>
        · rw [hflags] at hbad
          exact absurd hbad (by decide)
    · exact absurd (show (1 : UInt8) < 0 from hbad.2) (by decide)
    · omega
    · omega
  unfold validateDecodeBatchWork
  rw [if_neg hheader]
  refine validateSlots_batch (batchWork owner paired) [] paired ?_ ?_ ?_ ?_ ?_
  · have hdistinct := h.distinct
    rw [← hpaired, List.map_map] at hdistinct
    exact hdistinct
  · intro slot hslot
    have hlt := UInt32.lt_iff_toNat_lt.mp (h.stateSlot_lt slot.1 (hmem slot hslot))
    omega
  · exact fun slot hslot => h.tokenIndex_lt slot.1 (hmem slot hslot)
  · exact fun slot hslot => haxis slot.1 (hmem slot hslot)
  · intro hflag
    rcases batchWork_flags owner paired with ⟨_, hall⟩ | hflags
    · exact hall
    · rw [hflags] at hflag
      exact absurd hflag (by decide)

end Validate

/-- A commit that is accepted advances only sequences whose next token index is inside the context. -/
def CommitsInContext (s : System) : Op → Prop
  | .stepCommit j => (stepCommit s.table (s.steps j) s.calls).status = .ok () →
      ∀ i ∈ (s.steps j).cells, (s.table.sequences i).tokenIndex.toNat + 1 < maxContext
  | _ => True

/-- The invariant of the scheduler's side of the wire. The token bound covers every cell and every
snapshot of an open step, since a step may write any cell it was begun on. -/
structure Fits (s : System) : Prop where
  depth_le : s.table.depth.toNat ≤ batchMax
  stateSlot_lt : ∀ i : Index, i.val < s.table.count → (s.table.sequences i).stateSlot < s.table.depth
  distinct : s.table.DistinctBy Sequence.stateSlot
  tokenIndex_lt : ∀ i, (s.table.sequences i).tokenIndex.toNat < maxContext
  snapshot_lt : ∀ j, (s.steps j).active = true → ∀ entry ∈ (s.steps j).entries,
    entry.snapshot.tokenIndex.toNat < maxContext
  nodup : ∀ j, (s.steps j).active = true → (s.steps j).cells.Nodup

theorem zero_lt_maxContext : (0 : UInt32).toNat < maxContext := by decide

section Fits

variable {s : System} {j : Nat} {reply : Reply}

variable {after : Table}

theorem Fits.wireReady {policy : Option Policy} {slots : List Slot} (h : Fits s)
    (hschedule : schedule s.table policy = .ok (after, slots)) : WireReady s.table.depth slots := by
  obtain ⟨hassembled, hne, hle⟩ := schedule_ok hschedule
  have hcopied : slots.map Slot.stateSlot = (slots.map Slot.sequence).map fun i => (s.table.sequences i).stateSlot := by
    rw [List.map_map]
    refine List.map_congr_left fun slot hslot => ?_
    rw [hassembled.copied slot hslot]
    rfl
  refine ⟨hne, hle, ?_, fun slot hslot => ?_, fun slot hslot => ?_⟩
  · rw [hcopied]
    refine List.Nodup.map_on (fun i hi k hk heq => ?_) hassembled.nodup
    obtain ⟨slot, hslot, rfl⟩ := List.mem_map.mp hi
    obtain ⟨other, hother, rfl⟩ := List.mem_map.mp hk
    exact h.distinct _ _ (hassembled.live slot hslot) (hassembled.live other hother) heq
  · rw [hassembled.copied slot hslot]
    exact h.stateSlot_lt _ (hassembled.live slot hslot)
  · rw [hassembled.copied slot hslot]
    exact h.tokenIndex_lt slot.sequence

theorem Fits.setTable (h : Fits s) (hdepth : after.depth = s.table.depth)
    (hlt : ∀ i : Index, i.val < after.count → (after.sequences i).stateSlot < s.table.depth)
    (hdistinct : after.DistinctBy Sequence.stateSlot)
    (htoken : ∀ i, (after.sequences i).tokenIndex.toNat < maxContext) :
    Fits { s with table := after } where
  depth_le := hdepth ▸ h.depth_le
  stateSlot_lt := hdepth ▸ hlt
  distinct := hdistinct
  tokenIndex_lt := htoken
  snapshot_lt := h.snapshot_lt
  nodup := h.nodup

theorem Fits.rewrite (h : Fits s) (hdepth : after.depth = s.table.depth) (hcount : after.count = s.table.count)
    (hslot : ∀ i, (after.sequences i).stateSlot = (s.table.sequences i).stateSlot)
    (htoken : ∀ i, (after.sequences i).tokenIndex.toNat < maxContext) :
    Fits { s with table := after } := by
  refine h.setTable hdepth (fun i hi => ?_) (h.distinct.congr hcount hslot) htoken
  rw [hslot]
  exact h.stateSlot_lt i (hcount ▸ hi)

variable {ids : Nat → List UInt64}

section

variable (h : Fits s)
include h

theorem Fits.setStep {step : Step} {calls : List HookCall} (hself : step.active = true →
      (∀ entry ∈ step.entries, entry.snapshot.tokenIndex.toNat < maxContext) ∧ step.cells.Nodup) :
    Fits ⟨s.table, Function.update s.steps j step, calls, ids⟩ := by
  refine ⟨h.depth_le, h.stateSlot_lt, h.distinct, h.tokenIndex_lt, fun k hk => ?_, fun k hk => ?_⟩
  all_goals
    dsimp only at hk ⊢
    by_cases hkj : k = j
  · subst hkj
    rw [Function.update_self] at hk ⊢
    exact (hself hk).1
  · rw [Function.update_of_ne hkj] at hk ⊢
    exact h.snapshot_lt k hk
  · subst hkj
    rw [Function.update_self] at hk ⊢
    exact (hself hk).2
  · rw [Function.update_of_ne hkj] at hk ⊢
    exact h.nodup k hk

theorem Fits.enter {sequenceId : UInt64} {stateSlot : UInt32} (henter : sequenceEnter s.table sequenceId stateSlot = .ok after) : Fits { s with table := after } := by
  obtain ⟨_, hslot, _, hused, _, _, _, hdepth⟩ := sequenceEnter_ok henter
  refine h.setTable hdepth (fun i hi => ?_) (h.distinct.enter henter hused) fun i => ?_
  · rcases sequenceEnter_cell henter i with ⟨_, hnew⟩ | ⟨hsame, hlive⟩
    · rwa [hnew]
    · rw [hsame]
      exact h.stateSlot_lt i (hlive hi)
  · rcases sequenceEnter_cell henter i with ⟨_, hnew⟩ | ⟨hsame, _⟩
    · rw [hnew]
      exact zero_lt_maxContext
    · rw [hsame]
      exact h.tokenIndex_lt i

theorem Fits.leave {i : Index} (hi : i.val < s.table.count) :
    Fits { s with table := s.table.compact i } := by
  refine h.setTable rfl (fun k hk => ?_) (h.distinct.compact hi) fun k => ?_
  · obtain ⟨l, hl, hsame, _⟩ := compact_cell hi k hk
    rw [hsame]
    exact h.stateSlot_lt l hl
  · unfold Table.compact
    dsimp only
    split_ifs
    · by_cases hki : k = i
      · subst hki
        rw [Function.update_self]
        exact h.tokenIndex_lt _
      · rw [Function.update_of_ne hki]
        exact h.tokenIndex_lt k
    · exact h.tokenIndex_lt k

theorem Fits.modify {i : Index} {f : Sequence → Sequence} (hslot : ∀ sequence, (f sequence).stateSlot = sequence.stateSlot)
    (htoken : (f (s.table.sequences i)).tokenIndex.toNat < maxContext) :
    Fits { s with table := s.table.modify i f } := by
  refine h.rewrite rfl rfl (Table.modify_keeps f hslot) fun k => ?_
  by_cases hk : k = i
  · subst hk
    rwa [Table.modify_sequences_self]
  · rw [Table.modify_sequences_of_ne hk]
    exact h.tokenIndex_lt k

theorem Fits.refused (hrefused : Refused s.table (s.steps j) reply)
    : Fits { s.withReply j reply with scheduled := ids } := by
  have hsame : ∀ i, reply.table.sequences i = s.table.sequences i := fun i =>
    congrFun hrefused.sequences_eq i
  have htable := h.rewrite hrefused.depth_eq hrefused.count_eq (fun i => by rw [hsame])
    (fun i => hsame i ▸ h.tokenIndex_lt i)
  refine htable.setStep fun hactive => ?_
  rcases hrefused.step_eq with hstep | hidle
  · rw [hstep] at hactive ⊢
    exact ⟨h.snapshot_lt j hactive, h.nodup j hactive⟩
  · rw [hidle] at hactive
    cases hactive

theorem Fits.opened {policy : Option Policy} {ops : Option Ops} {slots : List Slot} (hopened : Opened s.table policy ops reply slots) :
    Fits { s.withReply j reply with scheduled := ids } := by
  have hassembled := hopened.assembled
  have htoken : ∀ i, (reply.table.sequences i).tokenIndex.toNat < maxContext := fun i => by
    rw [hassembled.keeps Sequence.tokenIndex (fun _ => rfl) i]
    exact h.tokenIndex_lt i
  have htable := h.rewrite hassembled.depth_eq hassembled.count_eq
    (hassembled.keeps Sequence.stateSlot fun _ => rfl) htoken
  refine htable.setStep fun _ => ⟨fun entry hentry => ?_, ?_⟩
  · rw [hopened.entries_eq] at hentry
    obtain ⟨slot, _, rfl⟩ := List.mem_map.mp hentry
    exact htoken slot.sequence
  · rw [hopened.cells_eq]
    exact hassembled.nodup

theorem Fits.closed {f : Entry → Sequence → Sequence} (hactive : (s.steps j).active = true)
    (hclosed : Closed s.table (s.steps j) f reply)
    (hslot : ∀ entry sequence, (f entry sequence).stateSlot = sequence.stateSlot)
    (htoken : ∀ entry ∈ (s.steps j).entries,
      (f entry (s.table.sequences entry.index)).tokenIndex.toNat < maxContext) :
    Fits (s.withReply j reply) := by
  have hslots : ∀ i, (reply.table.sequences i).stateSlot = (s.table.sequences i).stateSlot := by
    intro i
    rw [hclosed.sequences_eq]
    exact scatter_forall (P := fun i sequence => sequence.stateSlot = (s.table.sequences i).stateSlot)
      (fun _ => rfl) (fun entry _ sequence heq => (hslot entry sequence).trans heq) i
  have htokens : ∀ i, (reply.table.sequences i).tokenIndex.toNat < maxContext := by
    intro i
    rw [hclosed.sequences_eq]
    by_cases hi : ∃ entry ∈ (s.steps j).entries, entry.index = i
    · obtain ⟨entry, hentry, rfl⟩ := hi
      rw [scatter_of_mem (h.nodup j hactive) hentry]
      exact htoken entry hentry
    · rw [scatter_of_not_mem fun entry hentry heq => hi ⟨entry, hentry, heq⟩]
      exact h.tokenIndex_lt i
  refine (h.rewrite hclosed.depth_eq hclosed.count_eq hslots htokens).setStep fun hself => ?_
  rw [hclosed.idle] at hself
  cases hself

theorem Fits.unchanged {calls : List HookCall} {status : Except Error Unit} :
    Fits (s.withReply j ⟨s.table, s.steps j, calls, status⟩) :=
  h.setStep fun hactive => ⟨h.snapshot_lt j hactive, h.nodup j hactive⟩

theorem Fits.afterRestore (calls : List HookCall) :
    Fits (s.withReply j (stepRestore s.table (s.steps j) calls)) := by
  by_cases hactive : (s.steps j).active = true
  · exact h.closed hactive (stepRestore_closed _ _ hactive) (fun _ _ => rfl)
      fun entry hentry => h.snapshot_lt j hactive entry hentry
  · rw [stepRestore_inactive (by simpa using hactive)]
    exact h.unchanged

theorem Fits.afterCommit (hcommits : CommitsInContext s (.stepCommit j)) :
    Fits (s.withReply j (stepCommit s.table (s.steps j) s.calls)) := by
  rcases stepCommit_cases s.table (s.steps j) s.calls with
    ⟨err, heq⟩ | ⟨_, _, made, htable, hstep, hcalls⟩ | ⟨hactive, hok, hclosed⟩
  · rw [heq]
    exact h.unchanged
  · have hrestored := h.afterRestore (j := j) made
    rw [System.withReply] at hrestored ⊢
    rwa [htable, hstep, hcalls]
  · refine h.closed hactive hclosed (fun _ _ => rfl) fun entry hentry => ?_
    have hnext := hcommits hok entry.index (List.mem_map_of_mem hentry)
    exact lt_of_le_of_lt (Nat.mod_le _ _) hnext

theorem Fits.take {op : Op} {after : System} (hcommits : CommitsInContext s op)
    (htake : s.take op = some after) : Fits after := by
  cases op with
  | enter sequenceId stateSlot =>
    cases htake
    cases hok : sequenceEnter s.table sequenceId stateSlot with
    | error err => exact h
    | ok table => exact h.enter hok
  | leave sequenceId =>
    cases htake
    cases hok : sequenceLeave s.table sequenceId with
    | error err => exact h
    | ok table =>
      obtain ⟨i, hfind, _, rfl⟩ := sequenceLeave_ok hok
      exact h.leave (tableFind_eq_some hfind).2.1
  | ready sequenceId now =>
    cases htake
    cases hok : sequenceReady s.table sequenceId now with
    | error err => exact h
    | ok table =>
      obtain ⟨i, _, _, rfl⟩ := sequenceReady_ok hok
      exact h.modify (fun _ => rfl) (h.tokenIndex_lt i)
  | frontier sequenceId committedTokens tokenIndex position =>
    cases htake
    cases hok : sequenceFrontier s.table sequenceId committedTokens tokenIndex position with
    | error err => exact h
    | ok table =>
      obtain ⟨i, _, _, _, htoken, rfl⟩ := sequenceFrontier_ok hok
      exact h.modify (fun _ => rfl) htoken
  | stepBegin j policy ops =>
    obtain ⟨reply, hreply, rfl⟩ := Option.map_eq_some_iff.mp htake
    rcases stepBegin_cases hreply with hrefused | ⟨_, slots, hopened⟩
    · exact h.refused hrefused
    · exact h.opened hopened
  | stepAdvance j slot outcome =>
    cases htake
    split
    next step hok =>
      obtain ⟨hactive, recorded, _, rfl⟩ := stepAdvance_ok hok
      refine h.setStep fun _ => ⟨fun entry hentry => ?_, ?_⟩
      · have hmem := List.mem_map_of_mem (f := Entry.snapshot) hentry
        rw [map_modify_eq (g := Entry.snapshot) (by intro entry; rfl)] at hmem
        obtain ⟨before, hbefore, heq⟩ := List.mem_map.mp hmem
        exact heq ▸ h.snapshot_lt j hactive before hbefore
      · rw [Step.cells, map_modify_eq (g := Entry.index) (by intro entry; rfl)]
        exact h.nodup j hactive
    · exact h
  | stepCommit j =>
    cases htake
    exact h.afterCommit hcommits
  | stepRestore j =>
    cases htake
    exact h.afterRestore s.calls

end

theorem fits_init {depth : UInt32} {table : Table} (h : tableInit depth = .ok table) : Fits { table := table } := by
  obtain ⟨_, hdepth, rfl⟩ := tableInit_ok h
  refine ⟨hdepth, fun i hi => absurd hi (Nat.not_lt_zero _), fun i j hi => absurd hi (Nat.not_lt_zero _),
    fun i => zero_lt_maxContext, ?_, ?_⟩
  · intro j hactive
    cases hactive
  · intro j hactive
    cases hactive

end Fits

/-- Along every run whose accepted commits stay inside the context, every scheduled batch has distinct
state slots below the depth and token indices inside the context, and the message built from it with
finite rows and text positions is accepted. -/
theorem schedule_fits_wire (depth : UInt32) (table : Table) (ops : List Op) (s : System)
    (policy : Option Policy) (after : Table) (slots : List Slot) (hinit : tableInit depth = .ok table)
    (hcommits : Along System.take CommitsInContext { table := table } ops)
    (hrun : exec System.take { table := table } ops = some s)
    (hschedule : schedule s.table policy = .ok (after, slots)) :
    WireReady s.table.depth slots ∧
      ∀ (owner : Fin 8) (paired : List (Slot × Rows)), paired.map Prod.fst = slots →
        (∀ slot ∈ slots, slot.position.get 3 = 0) →
        validateDecodeBatchWork (batchWork owner paired) = .ok () := by
  have hfits : Fits s := exec_invariant (fun _ _ _ hfits hop htake => hfits.take hop htake)
    (fits_init hinit) hcommits hrun
  have hready := hfits.wireReady hschedule
  exact ⟨hready, fun owner paired hpaired haxis =>
    hready.validate hfits.depth_le haxis owner paired hpaired⟩

theorem twoReadyRun_fits_wire : ∃ s after slots, exec System.take { table := { depth := 2 } } twoReadyRun = some s ∧
    schedule s.table none = .ok (after, slots) ∧ slots.length = 2 ∧ WireReady s.table.depth slots := by
  have hpair : ∃ s after slots, exec System.take { table := { depth := 2 } } twoReadyRun = some s ∧
      schedule s.table none = .ok (after, slots) ∧ slots.length = 2 := by
    refine ⟨_, _, _, rfl, rfl, ?_⟩
    rfl
  obtain ⟨s, after, slots, hrun, hschedule, hlength⟩ := hpair
  have hcommits : ∀ op ∈ twoReadyRun, ∀ s, CommitsInContext s op := by
    simp [twoReadyRun, CommitsInContext]
  exact ⟨s, after, slots, hrun, hschedule, hlength, (schedule_fits_wire 2 { depth := 2 } twoReadyRun s none
    after slots rfl (Along.of_forall hcommits _) hrun hschedule).1⟩

/-- A sequence at the last token index of the context is committed once more and made ready again. -/
def contextEndRun : List Op :=
  [.enter 1 0, .frontier 1 1048575 1048575 (some (Vector.replicate 4 0)), .ready 1 0,
    .stepBegin 0 none none, .stepAdvance 0 0 (some {}), .stepCommit 0, .ready 1 1]

def contextEndSlot : Slot where
  sequence := 0
  stateSlot := 0
  tokenIndex := 1048576
  position := Vector.replicate 4 0

theorem contextEndRun_rejected : ∃ s after, exec System.take { table := { depth := 2 } } contextEndRun = some s ∧
      schedule s.table none = .ok (after, [contextEndSlot]) ∧ contextEndSlot.position.get 3 = 0 ∧
      ¬ contextEndSlot.tokenIndex.toNat < maxContext ∧
      ∀ (owner : Fin 8) (rows : Rows),
        validateDecodeBatchWork (batchWork owner [(contextEndSlot, rows)]) ≠ .ok () := by
  refine ⟨_, _, rfl, rfl, rfl, by decide, fun owner rows hok => ?_⟩
  have hlt := validateDecodeBatchWork_tokenIndex hok (slotWork contextEndSlot rows) List.mem_cons_self
  exact absurd hlt (show ¬ contextEndSlot.tokenIndex.toNat < maxContext by decide)

end FlashGordon.DecodeBatch
