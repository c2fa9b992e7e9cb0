import FlashGordon.PackSteps
import FlashGordon.AlignedLog
import FlashGordon.RoutePartition

/-!
Where a pack puts things. As long as 64-bit offsets are enough, every output is an aligned log of its pieces: the
storage check accepts the manifest of the pack, and an expert is in the output of its rank where the partition of
a route says.
-/

namespace FlashGordon.Pack

open SealedManifest Checks List

/-! ## The pieces of an output -/

def shelf (m : Manifest) (place : Option (Fin rankCount)) : List TensorRecord :=
  (records m).filter fun r => r.rank = rankWord place

/-- What the pieces of an output take when each is rounded up. -/
def taken (m : Manifest) (place : Option (Fin rankCount)) : Nat :=
  ((shelf m place).map fun r => roundUp r.bytes.toNat).sum

/-- Offsets of 64 bits are enough for all outputs. -/
def Fits (m : Manifest) : Prop := ∀ place, taken m place < 2 ^ 64

theorem rankWord_some (rank : Fin rankCount) : (rankWord (some rank)).toNat = rank := by
  revert rank
  decide

theorem rankWord_injective : Function.Injective rankWord := by
  have hnone (rank : Fin rankCount) : rankWord (some rank) ≠ rankWord none := by
    revert rank
    decide
  intro a b h
  cases a with
  | none =>
    cases b with
    | none => rfl
    | some rank => exact absurd h.symm (hnone rank)
  | some rank =>
    cases b with
    | none => exact absurd h (hnone rank)
    | some other =>
      have heq := congrArg UInt16.toNat h
      rw [rankWord_some, rankWord_some] at heq
      exact congrArg some (Fin.ext heq)

variable {t : GgufTensor} {sha256 : Digest}

theorem shelf_added {m m' : Manifest} {s : Segment}
    (h : Recorded m (s.record t sha256) s m') (place : Option (Fin rankCount)) :
    shelf m' place = shelf m place ++ if place = s.place then [s.record t sha256] else [] := by
  rw [shelf, h.added, filter_append, shelf]
  refine congrArg _ ?_
  by_cases hplace : place = s.place
  · subst hplace
    rw [if_pos rfl]
    exact filter_cons_of_pos (decide_eq_true rfl)
  · rw [if_neg hplace]
    exact filter_cons_of_neg fun heq => hplace (rankWord_injective (of_decide_eq_true heq)).symm

variable {st st' : State}

theorem Grows.shelf (h : Grows st st') (place : Option (Fin rankCount)) :
    shelf st.manifest place <+: shelf st'.manifest place :=
  h.records.filter _

theorem Fits.of_grows (h : Fits st'.manifest) (hgrows : Grows st st') : Fits st.manifest := by
  intro place
  obtain ⟨rest, hrest⟩ := hgrows.shelf place
  have hplace := h place
  rw [taken, ← hrest, map_append, sum_append] at hplace
  exact Nat.lt_of_le_of_lt (Nat.le_add_right _ _) hplace

theorem padTo_spec {out : Output} (hfit : roundUp out.offset.toNat < 2 ^ 64) :
    (alignUp out.offset alignment).toNat = roundUp out.offset.toNat ∧
      (padTo out (alignUp out.offset alignment)).offset = alignUp out.offset alignment ∧
        ∀ content, out.file = some content → content.length = out.offset.toNat →
          ∃ zeros, (padTo out (alignUp out.offset alignment)).file = some (content ++ zeros) ∧
            (content ++ zeros).length = roundUp out.offset.toNat := by
  have hle := le_roundUp out.offset.toNat
  have hup : (alignUp out.offset alignment).toNat = roundUp out.offset.toNat :=
    toNat_alignUp (k := 12) (by decide) (by rw [roundUp] at hfit; omega)
  refine ⟨hup, ?_, fun content hfile hlength => ?_⟩
  · rw [padTo]
    split
    · rfl
    next hnlt =>
      refine UInt64.toNat_inj.mp (Nat.le_antisymm (hup ▸ hle) ?_)
      exact UInt64.le_iff_toNat_le.mp (UInt64.not_lt.mp hnlt)
  · rw [padTo]
    split
    next hlt =>
      refine ⟨List.replicate (alignUp out.offset alignment - out.offset).toNat 0, ?_, ?_⟩
      · rw [Output.write, hfile]
        rfl
      · rw [length_append, length_replicate, hlength, UInt64.toNat_sub_of_le _ _ (UInt64.le_of_lt hlt), hup]
        omega
    next hnlt =>
      refine ⟨[], by rw [hfile, append_nil], ?_⟩
      have hge := UInt64.le_iff_toNat_le.mp (UInt64.not_lt.mp hnlt)
      rw [append_nil]
      omega

theorem after_spec {out : Output} {s : Segment} {data : List UInt8} (hstart : s.start = alignUp out.offset alignment)
    (hfit : roundUp out.offset.toNat + roundUp s.bytes.toNat < 2 ^ 64) :
    s.start.toNat = roundUp out.offset.toNat ∧
      (out.after s data).offset.toNat = roundUp out.offset.toNat + s.bytes.toNat ∧
        ∀ content, out.file = some content → content.length = out.offset.toNat →
          ∃ before, (out.after s data).file = some (before ++ data) ∧ before.length = s.start.toNat := by
  obtain ⟨hup, hpad, hfile⟩ := @padTo_spec out (Nat.lt_of_le_of_lt (Nat.le_add_right _ _) hfit)
  rw [← hstart] at hup hpad hfile
  refine ⟨hup, ?_, fun content hcontent hlength => ?_⟩
  · have hsmall := le_roundUp s.bytes.toNat
    rw [Output.after, Output.append, hpad, UInt64.toNat_add, hup]
    exact Nat.mod_eq_of_lt (by omega)
  · obtain ⟨zeros, hzeros, hbefore⟩ := hfile content hcontent hlength
    refine ⟨content ++ zeros, ?_, hbefore.trans hup.symm⟩
    rw [Output.after, Output.append, Output.write, hzeros]
    rfl

/-- What a pack keeps of an output: it is the log of its pieces, each of which has the bytes its record calls for. -/
structure Kept (st : State) (place : Option (Fin rankCount)) : Prop where
  laid : AlignedLog.Laid 4096 TensorRecord.first (fun r => r.bytes.toNat) (shelf st.manifest place)
    (st.outputs place).offset.toNat
  bytes : ∀ r ∈ shelf st.manifest place, expectedBytes r = .ok r.bytes
  external : ∀ r ∈ shelf st.manifest place, place = none ↔ r.kind = tensorNgram
  stored : ∀ r ∈ shelf st.manifest place, r.kind ≠ tensorHostCache ∧ r.kind ≠ tensorTokenizer
  file : ∀ content, (st.outputs place).file = some content → content.length = (st.outputs place).offset.toNat
  ledger : ∀ rank, place = some rank →
    (st.manifest.ranks rank).tensorCount = .ofNat (shelf st.manifest place).length

structure Ordered (st : State) : Prop where
  room : st.manifest.tensorCount.toNat ≤ maxTensors
  placed : ∀ r ∈ records st.manifest, ∃ place, r.rank = rankWord place
  kept : ∀ place, Kept st place

theorem forall_mem_snoc {α : Type} {p : α → Prop} {l : List α} {a : α} (hl : ∀ x ∈ l, p x) (ha : p a) :
    ∀ x ∈ l ++ [a], p x := by
  intro x hx
  rcases mem_append.mp hx with hold | hnew
  · exact hl x hold
  · exact mem_singleton.mp hnew ▸ ha

theorem Lands.output {s : Segment} {data : List UInt8}
    (hlands : Lands st t s sha256 data st') (h : Kept st s.place) (hfits : Fits st'.manifest) :
    s.start.toNat = roundUp (st.outputs s.place).offset.toNat ∧
      (st'.outputs s.place).offset.toNat = roundUp (st.outputs s.place).offset.toNat + s.bytes.toNat ∧
        ∀ content, (st'.outputs s.place).file = some content →
          ∃ before, content = before ++ data ∧ before.length = s.start.toNat ∧ data.length = s.bytes.toNat := by
  have hfit : roundUp (st.outputs s.place).offset.toNat + roundUp s.bytes.toNat < 2 ^ 64 := by
    have htotal := hfits s.place
    have hold : ((shelf st.manifest s.place).map fun r => roundUp r.bytes.toNat).sum =
        roundUp (st.outputs s.place).offset.toNat := h.laid.total (by decide)
    rw [taken, shelf_added hlands.recorded, if_pos rfl, map_append, sum_append, hold, map_singleton,
      sum_singleton] at htotal
    exact htotal
  obtain ⟨hstart, hoffset, hfile⟩ := @after_spec (st.outputs s.place) s data hlands.start hfit
  have houtput : st'.outputs s.place = (st.outputs s.place).after s data := by
    rw [hlands.outputs, Function.update_self]
  refine ⟨hstart, houtput ▸ hoffset, fun content hcontent => ?_⟩
  rw [houtput] at hcontent
  cases hopen : (st.outputs s.place).file with
  | none =>
    obtain ⟨rest, hrest⟩ := after_file (st.outputs s.place) s data
    rw [hrest, hopen] at hcontent
    cases hcontent
  | some old =>
    obtain ⟨before, hafter, hbefore⟩ := hfile old hopen (h.file old hopen)
    refine ⟨before, Option.some.inj (hcontent.symm.trans hafter), hbefore, hlands.data ?_⟩
    rw [hopen]
    exact nofun

theorem Kept.land {s : Segment} {data : List UInt8}
    (h : Kept st s.place) (hlands : Lands st t s sha256 data st') (hfits : Fits st'.manifest) : Kept st' s.place := by
  have hshelf : shelf st'.manifest s.place = shelf st.manifest s.place ++ [s.record t sha256] := by
    rw [shelf_added hlands.recorded, if_pos rfl]
  obtain ⟨hstart, hoffset, hfile⟩ := hlands.output h hfits
  constructor
  case laid =>
    rw [hshelf, hoffset]
    exact .snoc h.laid hstart
  case bytes =>
    rw [hshelf]
    exact forall_mem_snoc h.bytes hlands.bytes
  case external =>
    rw [hshelf]
    exact forall_mem_snoc h.external hlands.external
  case stored =>
    rw [hshelf]
    exact forall_mem_snoc h.stored hlands.stored
  case file =>
    intro content hcontent
    obtain ⟨before, rfl, hbefore, hdata⟩ := hfile content hcontent
    rw [length_append, hbefore, hdata, hstart, hoffset]
  case ledger =>
    intro rank hrank
    rw [hlands.recorded.ledger, if_pos ⟨hrank, hlands.stored.1⟩, h.ledger rank hrank, hshelf, length_append,
      UInt32.ofNat_add]
    rfl

theorem Kept.frame {s : Segment} {data : List UInt8}
    {place : Option (Fin rankCount)} (h : Kept st place) (hlands : Lands st t s sha256 data st')
    (hplace : place ≠ s.place) : Kept st' place := by
  have hshelf : shelf st'.manifest place = shelf st.manifest place := by
    rw [shelf_added hlands.recorded, if_neg hplace, append_nil]
  have houtput : st'.outputs place = st.outputs place := by
    rw [hlands.outputs, Function.update_of_ne hplace]
  refine ⟨?_, ?_, ?_, ?_, ?_, fun rank hrank => ?_⟩
  · rw [hshelf, houtput]
    exact h.laid
  · rw [hshelf]
    exact h.bytes
  · rw [hshelf]
    exact h.external
  · rw [hshelf]
    exact h.stored
  · rw [houtput]
    exact h.file
  · have hother : ¬(s.place = some rank ∧ s.kind ≠ tensorHostCache) := fun hno => hplace (hrank.trans hno.1.symm)
    rw [hlands.recorded.ledger, if_neg hother, hshelf, h.ledger rank hrank]
    exact UInt32.add_zero _

theorem Ordered.step (h : Ordered st) (hstep : Step st st') (hfits : Fits st'.manifest) : Ordered st' := by
  obtain ⟨t, s, sha256, data, hlands⟩ := hstep
  refine ⟨?_, ?_, fun place => ?_⟩
  · rw [hlands.recorded.counted, UInt32.toNat_add]
    exact (Nat.mod_le _ _).trans hlands.recorded.room
  · rw [hlands.recorded.added]
    exact forall_mem_snoc h.placed ⟨s.place, rfl⟩
  · by_cases hplace : place = s.place
    · exact hplace ▸ (hplace ▸ h.kept place : Kept st s.place).land hlands hfits
    · exact (h.kept place).frame hlands hplace

theorem Ordered.steps (h : Ordered st) (hsteps : Steps st st') (hfits : Fits st'.manifest) : Ordered st' := by
  induction hsteps with
  | refl => exact h
  | tail _ hstep ih => exact (ih (hfits.of_grows hstep.grows)).step hstep hfits

section Closed

variable {st : State} (h : Ordered st) (hfits : Fits st.manifest)
include h hfits

theorem Ordered.fits (place : Option (Fin rankCount)) : roundUp (st.outputs place).offset.toNat < 2 ^ 64 := by
  have htotal : taken st.manifest place = roundUp (st.outputs place).offset.toNat :=
    (h.kept place).laid.total (by decide)
  rw [← htotal]
  exact hfits place

variable {r : TensorRecord}

theorem Ordered.stop_le {place : Option (Fin rankCount)} (hr : r ∈ shelf st.manifest place) :
    r.stop ≤ (st.outputs place).offset.toNat ∧ roundUp r.stop < 2 ^ 64 := by
  have hle : r.stop ≤ (st.outputs place).offset.toNat := (h.kept place).laid.within (by decide) r hr
  exact ⟨hle, Nat.lt_of_le_of_lt (roundUp_mono hle) (h.fits hfits place)⟩

theorem Ordered.sound {rank : Fin rankCount} (hr : r ∈ shelf st.manifest (some rank)) : r.Sound rank := by
  have hrank : r.rank = rankWord (some rank) := of_decide_eq_true (mem_filter.mp hr).2
  have hkept := h.kept (some rank)
  obtain ⟨hhost, htokenizer⟩ := hkept.stored r hr
  refine ⟨hkept.bytes r hr, (h.stop_le hfits hr).2, ⟨?_, hhost, fun hngram => ?_, htokenizer⟩, hkept.laid.aligned r hr⟩
  · rw [hrank, rankWord_some]
  · exact absurd ((hkept.external r hr).mpr hngram) nofun

theorem Ordered.outside (hr : r ∈ shelf st.manifest none) : storageOf r = .ok none := by
  have hrank : r.rank = noRank := of_decide_eq_true (mem_filter.mp hr).2
  have hkept := h.kept none
  have hngram := (hkept.external r hr).mp rfl
  obtain ⟨hstop, hfit⟩ := h.stop_le hfits hr
  have hle := le_roundUp r.stop
  have hsum : r.offset.toNat + r.bytes.toNat = r.stop := rfl
  have hmax : u64Max.toNat = 2 ^ 64 - 1 := by decide
  have hbytes : r.bytes ≤ u64Max := UInt64.le_iff_toNat_le.mpr (by omega)
  have hoffset : ¬ r.offset > u64Max - r.bytes := by
    rw [gt_iff_lt, UInt64.lt_iff_toNat_lt, UInt64.toNat_sub_of_le _ _ hbytes, hmax]
    omega
  have hranks : ¬ r.rank.toNat < rankCount := by
    rw [hrank]
    decide
  rw [storageOf, hkept.bytes r hr, ok_bind, if_neg (not_not.mpr rfl), if_neg hoffset, if_neg (hkept.stored r hr).1,
    dif_neg hranks, if_neg (not_or.mpr ⟨not_not.mpr hrank, not_not.mpr (.inl hngram)⟩)]

theorem Ordered.good : ∀ r ∈ records st.manifest, r.Good := by
  intro r hr
  obtain ⟨place, hplace⟩ := h.placed r hr
  have hshelf : r ∈ shelf st.manifest place := mem_filter.mpr ⟨hr, decide_eq_true hplace⟩
  cases place with
  | none => exact ⟨none, h.outside hfits hshelf, fun hne => absurd rfl hne⟩
  | some rank => exact (sound_iff.mp (h.sound hfits hshelf)).1

theorem Ordered.map_inRank (rank : Fin rankCount) :
    ((closeOutputs st).manifest.inRank rank).map (closeOutputs st).manifest.tensors = shelf st.manifest (some rank) := by
  have hsame : (closeOutputs st).manifest.inRank rank =
      st.manifest.tensorIndexes.filter fun i => (st.manifest.tensors i).InRank rank := rfl
  rw [hsame, shelf, records, filter_map]
  refine congrArg _ (filter_congr fun i hi => decide_eq_decide.mpr ⟨fun hin => ?_, fun hrank => ?_⟩)
  · refine UInt16.toNat_inj.mp (hin.1.trans (rankWord_some rank).symm)
  · have hmem : st.manifest.tensors i ∈ shelf st.manifest (some rank) :=
      mem_filter.mpr ⟨mem_map_of_mem hi, decide_eq_true hrank⟩
    exact (h.sound hfits hmem).inRank

theorem Ordered.closed (place : Option (Fin rankCount)) :
    ((closeOutputs st).outputs place).offset.toNat = roundUp (st.outputs place).offset.toNat ∧
      ∀ content, ((closeOutputs st).outputs place).file = some content →
        content.length = ((closeOutputs st).outputs place).offset.toNat := by
  obtain ⟨hup, hpad, hfile⟩ := @padTo_spec (st.outputs place) (h.fits hfits place)
  have hoffset : ((closeOutputs st).outputs place).offset = alignUp (st.outputs place).offset alignment := hpad
  rw [hoffset]
  refine ⟨hup, fun content hcontent => ?_⟩
  cases hopen : (st.outputs place).file with
  | none =>
    obtain ⟨zeros, hzeros⟩ := padTo_file (st.outputs place) (alignUp (st.outputs place).offset alignment)
    have hnone := hzeros.symm.trans hcontent
    rw [hopen] at hnone
    cases hnone
  | some old =>
    obtain ⟨zeros, hzeros, hlength⟩ := hfile old hopen ((h.kept place).file old hopen)
    obtain rfl := Option.some.inj (hzeros.symm.trans hcontent)
    rw [hlength, hup]

theorem Ordered.closed_stored (rank : Fin rankCount) : (closeOutputs st).manifest.Stored rank := by
  have hkept := h.kept (some rank)
  have hmap := h.map_inRank hfits rank
  have hmem {i : Fin maxTensors} (hi : i ∈ (closeOutputs st).manifest.inRank rank) :
      (closeOutputs st).manifest.tensors i ∈ shelf st.manifest (some rank) :=
    hmap ▸ mem_map_of_mem hi
  have htop : ((closeOutputs st).manifest.ranks rank).persistentBytes.toNat =
      roundUp (st.outputs (some rank)).offset.toNat := (h.closed hfits (some rank)).1
  have hlast : (closeOutputs st).manifest.lastEnd rank = (st.outputs (some rank)).offset.toNat := by
    have hends : ((closeOutputs st).manifest.inRank rank).map (fun i => ((closeOutputs st).manifest.tensors i).stop) =
        (shelf st.manifest (some rank)).map TensorRecord.stop := by
      rw [← hmap, map_map]
      rfl
    rw [Manifest.lastEnd, hends]
    exact hkept.laid.top_eq (by decide)
  constructor
  case apart =>
    have horder := hkept.laid.inOrder (by decide)
    rw [← hmap, pairwise_map] at horder
    have happart : ((closeOutputs st).manifest.inRank rank).Pairwise (closeOutputs st).manifest.Apart :=
      horder.imp fun hij => .inl hij
    have hsymm : Std.Symm (closeOutputs st).manifest.Apart := ⟨fun i j hij => hij.symm⟩
    exact fun i hi j hj hne => happart.forall hi hj hne
  case aligned => exact fun i hi => hkept.laid.aligned _ (hmem hi)
  case within =>
    intro i hi
    rw [htop]
    exact (h.stop_le hfits (hmem hi)).1.trans (le_roundUp _)
  case count =>
    have hlength : ((closeOutputs st).manifest.inRank rank).length = (shelf st.manifest (some rank)).length := by
      rw [← hmap, length_map]
    have hle : ((closeOutputs st).manifest.inRank rank).length ≤ maxTensors :=
      (length_filter_le ..).trans (length_tensorIndexes _)
    have hledger : ((closeOutputs st).manifest.ranks rank).tensorCount = (st.manifest.ranks rank).tensorCount := rfl
    rw [hledger, hkept.ledger rank rfl, ← hlength]
    exact UInt32.toNat_ofNat_of_lt' (Nat.lt_of_le_of_lt hle (by decide))
  case top => rw [htop, hlast]

theorem Ordered.closed_accepted : validateTensorStorage (closeOutputs st).manifest = .ok () :=
  validateTensorStorage_iff.mpr ⟨h.room, fun _ hi => h.good hfits _ (mem_map_of_mem hi), h.closed_stored hfits⟩

end Closed

end FlashGordon.Pack
