import FlashGordon.QsaGroup
import FlashGordon.QsaPrefill

/-! The records a session has committed, against what its cache and its state file have of them. A log lists
the records of each layer. The cache is coherent when every page in it has the records the log has for its
block, and every block with a record that is not in the file yet is pinned; below the file's frontier the
file has the records. -/

namespace FlashGordon.QsaSession

open QsaCache (Key Represents uint32Max)
open PinnedLru

variable {R : Type}

/-- The records committed for each of a session's layers. -/
abbrev Log (R : Type) : Type := Nat → List R

def Log.extend (log : Log R) (index : Nat) (records : List R) : Log R :=
  Function.update log index (log index ++ records)

def Holds (log : List R) (block : Nat) (page : Page R) : Prop :=
  ∀ k < compressRatio, ∀ record, log[block * compressRatio + k]? = some record → page k = record

variable {log : List R}

theorem holds_beyond {block : Nat} (h : log.length ≤ block * compressRatio) (page : Page R) :
    Holds log block page := by
  intro k _ record hrecord
  rw [List.getElem?_eq_none (by omega)] at hrecord
  cases hrecord

variable {page : Page R}

theorem Holds.of_append {log more : List R} {block : Nat} (h : Holds (log ++ more) block page) :
    Holds log block page := by
  intro k hk record hrecord
  apply h k hk
  rw [List.getElem?_append_left]
  · exact hrecord
  · exact (List.getElem?_eq_some_iff.mp hrecord).1

theorem Holds.push {block : Nat} {record : R} (h : Holds log block page)
    (hblock : log.length / compressRatio ≠ block) : Holds (log ++ [record]) block page := by
  intro k hk found hfound
  apply h k hk
  rw [List.getElem?_append_left] at hfound
  · exact hfound
  · have hlt := (List.getElem?_eq_some_iff.mp hfound).1
    rw [List.length_append, List.length_singleton] at hlt
    simp only [compressRatio] at hblock hk hlt ⊢
    omega

theorem Holds.write (h : Holds log (log.length / compressRatio) page) (record : R) :
    Holds (log ++ [record]) (log.length / compressRatio)
      (Function.update page (log.length % compressRatio) record) := by
  intro k hk found hfound
  have hplace : log.length / compressRatio * compressRatio + log.length % compressRatio = log.length := by
    simp only [compressRatio]
    omega
  by_cases heq : k = log.length % compressRatio
  · subst heq
    rw [hplace, List.getElem?_concat_length] at hfound
    rw [Function.update_self]
    exact Option.some.inj hfound
  · rw [Function.update_of_ne heq]
    apply h k hk
    rw [List.getElem?_append_left] at hfound
    · exact hfound
    · have hlt := (List.getElem?_eq_some_iff.mp hfound).1
      rw [List.length_append, List.length_singleton] at hlt
      omega

/-- A layer's part of the state file, up to its frontier: each block has a page with as many records as the
frontier leaves it. What stands after the frontier may be anything. -/
structure Filed (log : List R) (frontier : Nat) (pages : Nat → Option (StatePage R)) : Prop where
  le : frontier ≤ log.length
  page : ∀ block, block * compressRatio < frontier → ∃ page, pages block = some page ∧
    page.committed = min (frontier - block * compressRatio) compressRatio ∧
    ∀ k < page.committed, ∀ record, log[block * compressRatio + k]? = some record → page.records k = record

theorem filed_zero (log : List R) (pages : Nat → Option (StatePage R)) : Filed log 0 pages :=
  ⟨Nat.zero_le _, fun _ h => absurd h (Nat.not_lt_zero _)⟩

variable {pages : Nat → Option (StatePage R)}

theorem Filed.complete {frontier block : Nat}
    {page : StatePage R} (h : Filed log frontier pages) (hbelow : block * compressRatio < frontier)
    (hpage : pages block = some page) (hcomplete : page.committed = compressRatio) : Holds log block page.records := by
  obtain ⟨found, hfound, -, hrecords⟩ := h.page block hbelow
  obtain rfl := Option.some.inj (hpage.symm.trans hfound)
  rw [hcomplete] at hrecords
  exact hrecords

theorem Filed.append {frontier : Nat}
    (h : Filed log frontier pages) (records : List R) : Filed (log ++ records) frontier pages := by
  refine ⟨?_, fun block hblock => ?_⟩
  · rw [List.length_append]
    exact Nat.le_add_right_of_le h.le
  · obtain ⟨page, hpage, hcommitted, hrecords⟩ := h.page block hblock
    refine ⟨page, hpage, hcommitted, fun k hk record hrecord => hrecords k hk record ?_⟩
    rw [List.getElem?_append_left] at hrecord
    · exact hrecord
    · have hle := h.le
      omega

theorem Filed.of_append {log records : List R} {frontier : Nat}
    (h : Filed (log ++ records) frontier pages) (hle : frontier ≤ log.length) : Filed log frontier pages := by
  refine ⟨hle, fun block hblock => ?_⟩
  obtain ⟨page, hpage, hcommitted, hrecords⟩ := h.page block hblock
  refine ⟨page, hpage, hcommitted, fun k hk record hrecord => hrecords k hk record ?_⟩
  rw [List.getElem?_append_left]
  · exact hrecord
  · exact (List.getElem?_eq_some_iff.mp hrecord).1

def Right (s : Session R) (log : Log R) (key : Key) (page : Page R) : Prop :=
  ∀ index, s.layerSlot key.1 = some index → Holds (log index) key.2.toNat page

/-- Some record of the block is committed and not in the file. -/
def Dirty (s : Session R) (log : Log R) (state : State R) (key : Key) : Prop :=
  ∃ index, s.layerSlot key.1 = some index ∧ ∃ token, state.layerTokens index ≤ token ∧
    token < (log index).length ∧ token / compressRatio = key.2.toNat

variable {s : Session R} {capacity : Nat} {map : Map Key capacity} {log : Log R} {state : State R}

structure Kept (s : Session R) (map : Map Key capacity) (log : Log R) (state : State R) : Prop where
  mirrors : Mirrors s map
  backed : s.state = some state
  narrow : s.maxContext ≤ indexMaxSegments * indexSegmentTokenCapacity
  bounded : ∀ index < s.layerCount, (log index).length ≤ s.maxContext
  filed : ∀ index < s.layerCount, Filed (log index) (state.layerTokens index) (state.pages index)
  coherent : map.Coherent s.cacheRecords (Right s log) (Dirty s log state)

/-- The session has gone on: nothing was committed, nothing was persisted, and the pins are the same. -/
structure Rests (s : Session R) (map : Map Key capacity) (after : Session R) (map' : Map Key capacity)
    (log : Log R) (state : State R) : Prop where
  kept : Kept after map' log state
  same : SameSession s after
  pins : map'.pinned = map.pinned

theorem Kept.rests_self (h : Kept s map log state) : Rests s map s map log state :=
  ⟨h, .refl s, rfl⟩

theorem Rests.trans {second third : Session R} {map' map'' : Map Key capacity}
    (h : Rests s map second map' log state) (h' : Rests second map' third map'' log state) :
    Rests s map third map'' log state :=
  ⟨h'.kept, h.same.trans h'.same, h'.pins.trans h.pins⟩

variable {after : Session R}

theorem SameShape.right (h : SameShape s after) : Right after log = Right s log := by
  funext key page
  simp only [Right, h.layerSlot]

theorem SameShape.dirty (h : SameShape s after) : Dirty after log state = Dirty s log state := by
  funext key
  simp only [Dirty, h.layerSlot]

theorem Kept.of_coherent (h : Kept s map log state) {map' : Map Key capacity}
    (hmirrors : Mirrors after map') (hshape : SameShape s after) (hstate : after.state = s.state)
    (hcoherent : map'.Coherent after.cacheRecords (Right s log) (Dirty s log state)) : Kept after map' log state := by
  refine ⟨hmirrors, hstate.trans h.backed, hshape.maxContext ▸ h.narrow, ?_, ?_, ?_⟩
  · rw [hshape.layerCount, hshape.maxContext]
    exact h.bounded
  · rw [hshape.layerCount]
    exact h.filed
  · rw [hshape.right, hshape.dirty]
    exact hcoherent

theorem Mirrors.writePage (h : Mirrors s map) (slot : Nat) (page : Page R) : Mirrors (s.writePage slot page) map :=
  h.congr ⟨rfl, rfl, rfl, rfl⟩ rfl rfl rfl

theorem Kept.rests (h : Kept s map log state) {map' : Map Key capacity}
    (hstays : Stays s map after map') : Rests s map after map' log state :=
  ⟨h.of_coherent hstays.mirrors hstays.same.shape hstays.state
    (hstays.records ▸ h.coherent.still hstays.frames hstays.pins), hstays.same, hstays.pins⟩

theorem Kept.insert (h : Kept s map log state) {soft : Bool} {layer block : UInt32} {index : Nat}
    (hlayer : s.layerSlot layer = some index) (hspares : map.Spares soft (layer, block))
    (hpage : Holds (log index) block.toNat page) :
    ∃ slot hit after map',
      s.qsaCacheAcquire soft layer block = some (slot, hit, after) ∧
      (slot = uint32Max → soft = true ∧ Rests s map after map' log state) ∧
      (slot ≠ uint32Max → Rests s map (after.writePage slot page) map' log state) := by
  obtain ⟨slot, after, hacquire, hslot, hafter⟩ := h.mirrors.acquire soft hlayer block
  obtain ⟨cache, table, lengths, rfl⟩ := qsaCacheAcquire_eq hacquire
  have hright : Right s log (layer, block) page := by
    intro other hother
    obtain rfl := Option.some.inj (hlayer.symm.trans hother)
    exact hpage
  have hpins := Map.pinned_acquire hspares
  refine ⟨slot, _, _, (map.acquire soft (layer, block)).2, hacquire, fun hnull => ?_, fun hnonnull => ?_⟩
  · have hnone : (map.acquire soft (layer, block)).1.frame = none := by
      rw [← hslot, QsaCache.slotReply, if_pos hnull]
    constructor
    · by_contra hhard
      rw [Bool.not_eq_true] at hhard
      subst hhard
      have hserved : (map.acquire false (layer, block)).1.frame.isSome :=
        Map.acquire_hard_isSome h.mirrors.represents.positive
      rw [hnone] at hserved
      cases hserved
    · have hcoherent := h.coherent.refused hspares hnone
      exact ⟨h.of_coherent hafter ⟨rfl, rfl, rfl, rfl⟩ rfl hcoherent, ⟨⟨rfl, rfl, rfl, rfl⟩, rfl, rfl, rfl⟩, hpins⟩
  · have hframe : (map.acquire soft (layer, block)).2.frame? (layer, block) = some slot := by
      rw [Map.frame?_acquire, if_neg fun hevicted => Map.acquire_evicted_ne hevicted rfl, if_pos rfl, ← hslot,
        QsaCache.slotReply, if_neg hnonnull]
    have hcoherent := h.coherent.insert hspares hframe hright
    exact ⟨h.of_coherent (hafter.writePage slot page) ⟨rfl, rfl, rfl, rfl⟩ rfl hcoherent,
      ⟨⟨rfl, rfl, rfl, rfl⟩, rfl, rfl, rfl⟩, hpins⟩

end FlashGordon.QsaSession
