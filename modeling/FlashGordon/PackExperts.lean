import FlashGordon.PackPlacement

/-!
Where the experts of a pack are. A rank's piece of a routed tensor holds its experts one after another, in the order
of their numbers, and the partition of a route counts the same experts: it points to the bytes that were packed.
-/

namespace FlashGordon.Pack

open SealedManifest Checks List

/-! ## Pieces of routed tensors -/

def PieceAt (st : State) (t : GgufTensor) (src : List UInt8) (layer : Fin layerCount) (rank : Fin rankCount) : Prop :=
  ∃ start sha256, (expertSegment st.manifest t layer rank start).record t sha256 ∈ records st.manifest ∧
    ∀ content, (st.outputs (some rank)).file = some content →
      (∀ expert ∈ expertsOf st.manifest layer rank, (expertData src t expert).isSome) ∧
        ∃ before behind, content = before ++ expertsData src t (expertsOf st.manifest layer rank) ++ behind ∧
          before.length = start.toNat

theorem expertsOf_grows {st st' : State} (h : Grows st st') (layer : Fin layerCount) (rank : Fin rankCount) :
    expertsOf st'.manifest layer rank = expertsOf st.manifest layer rank := by
  rw [expertsOf, expertsOf, h.experts]

variable {t : GgufTensor} {src : List UInt8} {layer : Fin layerCount} {rank : Fin rankCount}

theorem PieceAt.grows {st st' : State}
    (h : PieceAt st t src layer rank) (hgrows : Grows st st') : PieceAt st' t src layer rank := by
  obtain ⟨start, sha256, hrecord, hcontent⟩ := h
  have hexperts := expertsOf_grows hgrows layer rank
  have hsegment : expertSegment st'.manifest t layer rank start = expertSegment st.manifest t layer rank start := by
    rw [expertSegment, expertSegment, hexperts]
  have hmem := hgrows.records.subset hrecord
  rw [← hsegment] at hmem
  refine ⟨start, sha256, hmem, fun content hfile => ?_⟩
  obtain ⟨rest, hrest⟩ := hgrows.files (some rank)
  rw [hrest] at hfile
  obtain ⟨old, hold, rfl⟩ := Option.map_eq_some_iff.mp hfile
  obtain ⟨hsome, before, behind, heq, hbefore⟩ := hcontent old hold
  rw [hexperts, heq]
  exact ⟨hsome, before, behind ++ rest, append_assoc .., hbefore⟩

section Writers

variable {sha : List UInt8 → Digest} {embedRank : Option (Fin rankCount)} {st st' : State} {t : GgufTensor}
  {src : List UInt8} {layer : Fin layerCount}

theorem packPiece_pieceAt {rank : Fin rankCount} (h : packPiece sha st t src layer rank = .ok st')
    (hrouted : t.Routed) (hserved : Served st.manifest layer)
    (hrank : ∃ slot, (st.manifest.layerGroups layer slot).toNat = rank) :
    Step st st' ∧ (Ordered st → Fits st'.manifest → PieceAt st' t src layer rank) := by
  obtain ⟨sha256, data, hlands, hdata⟩ := packPiece_lands h hrouted hserved hrank
  have hstep : Step st st' := ⟨t, _, sha256, data, hlands⟩
  refine ⟨hstep, fun hordered hfits => ?_⟩
  have hexperts := expertsOf_grows hstep.grows layer rank
  have hrecord : (expertSegment st'.manifest t layer rank (alignUp (st.outputs (some rank)).offset alignment)).record
      t sha256 ∈ records st'.manifest := by
    rw [expertSegment, hexperts, hlands.recorded.added]
    exact mem_append_right _ mem_cons_self
  refine ⟨_, sha256, hrecord, fun content hfile => ?_⟩
  obtain ⟨-, -, hwritten⟩ := hlands.output (hordered.kept (some rank)) hfits
  obtain ⟨before, rfl, hbefore, -⟩ := hwritten content hfile
  have hopen : (st.outputs (some rank)).file ≠ none := by
    intro hnone
    obtain ⟨rest, hrest⟩ := hstep.grows.files (some rank)
    rw [hfile, hnone] at hrest
    cases hrest
  obtain ⟨heq, hsome⟩ := hdata hopen
  rw [hexperts, heq]
  exact ⟨hsome, before, [], (append_nil _).symm, hbefore⟩

seal packPiece in
theorem packGroup_cons (slot : Fin groupSize) (rest : List (Fin groupSize)) (processed : List Nat) :
    packGroup sha t src layer (slot :: rest) processed st =
      if (st.manifest.layerGroups layer slot).toNat ∈ processed then packGroup sha t src layer rest processed st
      else if h : (st.manifest.layerGroups layer slot).toNat < rankCount then
        match packPiece sha st t src layer ⟨(st.manifest.layerGroups layer slot).toNat, h⟩ with
        | .error err => .error (.error err)
        | .ok next => packGroup sha t src layer rest (processed ++ [(st.manifest.layerGroups layer slot).toNat]) next
      else .error .overrun := rfl

theorem packGroup_run {slots : List (Fin groupSize)} {processed : List Nat}
    (h : packGroup sha t src layer slots processed st = .ok st') (hrouted : t.Routed)
    (hserved : Served st.manifest layer) :
    Steps st st' ∧ (Ordered st → Fits st'.manifest → ∀ slot ∈ slots,
      (st.manifest.layerGroups layer slot).toNat ∈ processed ∨
        ∀ rank : Fin rankCount, (st.manifest.layerGroups layer slot).toNat = rank → PieceAt st' t src layer rank) := by
  induction slots generalizing processed st with
  | nil =>
    obtain rfl := Except.ok.inj h
    exact ⟨.refl, fun _ _ slot hslot => absurd hslot not_mem_nil⟩
  | cons slot rest ih =>
    rw [packGroup_cons] at h
    split at h
    next hdone =>
      obtain ⟨hsteps, hpieces⟩ := ih h hserved
      exact ⟨hsteps, fun hordered hfits => forall_mem_cons.mpr ⟨.inl hdone, hpieces hordered hfits⟩⟩
    · split at h
      next hlt =>
        split at h
        · cases h
        next mid hpiece =>
          obtain ⟨hstep, hhere⟩ := packPiece_pieceAt hpiece hrouted hserved ⟨slot, rfl⟩
          obtain ⟨hsteps, hpieces⟩ := ih h (hserved.grows hstep.grows)
          refine ⟨.head hstep hsteps, fun hordered hfits => ?_⟩
          have hmid := hfits.of_grows hsteps.grows
          have hpiece := (hhere hordered hmid).grows hsteps.grows
          refine forall_mem_cons.mpr ⟨.inr fun rank hrank => ?_, fun other hother => ?_⟩
          · obtain rfl : ⟨_, hlt⟩ = rank := Fin.ext hrank
            exact hpiece
          · have hrest := hpieces (hordered.step hstep hmid) hfits other hother
            rw [hstep.grows.groups] at hrest
            rcases hrest with hmem | hnew
            · rcases mem_append.mp hmem with hold | hsame
              · exact .inl hold
              · refine .inr fun rank hrank => ?_
                obtain rfl : ⟨_, hlt⟩ = rank := Fin.ext ((mem_singleton.mp hsame).symm.trans hrank)
                exact hpiece
            · exact .inr hnew
      · cases h

def Spread (st : State) (t : GgufTensor) (src : List UInt8) : Prop :=
  ∃ layer, tensorLayer t.name = some layer ∧ t.Routed ∧ ∀ rank : Fin rankCount,
    (∃ slot, (st.manifest.layerGroups layer slot).toNat = rank) → PieceAt st t src layer rank

theorem Spread.grows (h : Spread st t src) (hgrows : Grows st st') : Spread st' t src := by
  obtain ⟨layer, hlayer, hrouted, hpieces⟩ := h
  refine ⟨layer, hlayer, hrouted, fun rank hrank => (hpieces rank ?_).grows hgrows⟩
  rwa [hgrows.groups] at hrank

theorem packTensor_run (h : packTensor sha embedRank st t src = .ok st') (hserved : ∀ layer, Served st.manifest layer) :
    Steps st st' ∧ (Ordered st → Fits st'.manifest → tensorKind t.name = tensorRoutedExpert → Spread st' t src) := by
  rw [packTensor] at h
  split at h
  · cases h
  · split at h
    · rw [packExpertTensor] at h
      split at h
      · cases h
      next layer hlayer =>
        split at h
        · cases h
        next hgood =>
          have hrouted : t.Routed := ⟨not_not.mp (not_or.mp hgood).1, not_not.mp (not_or.mp hgood).2⟩
          obtain ⟨hsteps, hpieces⟩ := packGroup_run h hrouted (hserved layer)
          refine ⟨hsteps, fun hordered hfits _ => ⟨layer, hlayer, hrouted, fun rank hrank => ?_⟩⟩
          rw [hsteps.grows.groups] at hrank
          obtain ⟨slot, hslot⟩ := hrank
          exact (hpieces hordered hfits slot (mem_finRange slot)).resolve_left not_mem_nil rank hslot
    next hkind =>
      exact ⟨.single (packCommon_step h), fun _ _ hrouted => absurd hrouted hkind⟩

theorem packTensors_run {tensors : List (GgufTensor × List UInt8)} (h : packTensors sha embedRank tensors st = .ok st')
    (hserved : ∀ layer, Served st.manifest layer) :
    Steps st st' ∧ (Ordered st → Fits st'.manifest → ∀ t src, (t, src) ∈ tensors →
      tensorKind t.name = tensorRoutedExpert → Spread st' t src) := by
  induction tensors generalizing st with
  | nil =>
    obtain rfl := Except.ok.inj h
    exact ⟨.refl, fun _ _ t src hmem => absurd hmem not_mem_nil⟩
  | cons head rest ih =>
    obtain ⟨t, src⟩ := head
    obtain ⟨mid, hone, h⟩ := bind_eq_ok.mp h
    obtain ⟨hsteps, hspread⟩ := packTensor_run hone hserved
    obtain ⟨hsteps', hspreads⟩ := ih h fun layer => (hserved layer).grows hsteps.grows
    refine ⟨hsteps.trans hsteps', fun hordered hfits t' src' hmem hkind => ?_⟩
    have hmid := hfits.of_grows hsteps'.grows
    rcases mem_cons.mp hmem with heq | hrest
    · obtain ⟨rfl, rfl⟩ := Prod.mk.inj heq
      exact (hspread hordered hmid hkind).grows hsteps'.grows
    · exact hspreads (hordered.steps hsteps hmid) hfits t' src' hrest hkind

end Writers

def topologyOf (m : Manifest) : Prefill.Manifest where
  layerOwner layer := if h : layer < layerCount then (m.layerOwner ⟨layer, h⟩).toNat else 0
  layerGroups layer slot := if h : layer < layerCount then (m.layerGroups ⟨layer, h⟩ slot).toNat else 0
  expertRank layer expert :=
    if h : layer < layerCount ∧ expert < expertCount then (m.expertRank ⟨layer, h.1⟩ ⟨expert, h.2⟩).toNat else 0

theorem expertRank_topologyOf (m : Manifest) (layer : Fin layerCount) (expert : Fin expertCount) :
    (topologyOf m).expertRank layer expert = (m.expertRank layer expert).toNat :=
  dif_pos ⟨layer.isLt, expert.isLt⟩

theorem localExpert_eq (m : Manifest) (layer : Fin layerCount) (expert : Fin expertCount) :
    Prefill.localExpert (topologyOf m) layer expert = (((List.finRange expertCount).take expert).filter fun e =>
      (m.expertRank layer e).toNat = (m.expertRank layer expert).toNat).length := by
  have hrange : List.range expert = ((List.finRange expertCount).take expert).map Fin.val := by
    rw [map_take, map_coe_finRange_eq_range, take_range, Nat.min_eq_left expert.isLt.le]
  rw [Prefill.localExpert, hrange, countP_map, ← countP_eq_length_filter]
  refine countP_congr fun e _ => ?_
  simp only [Function.comp_apply, expertRank_topologyOf]

variable {expert : Fin expertCount}

theorem expertsOf_split (m : Manifest) (layer : Fin layerCount)
    (h : (m.expertRank layer expert).toNat = rank) : ∃ below above,
      expertsOf m layer rank = below ++ expert :: above ∧
        below.length = Prefill.localExpert (topologyOf m) layer expert := by
  have hlt : expert.val < (List.finRange expertCount).length := by
    rw [length_finRange]
    exact expert.isLt
  have hsplit : List.finRange expertCount =
      (List.finRange expertCount).take expert ++ expert :: (List.finRange expertCount).drop (expert + 1) := by
    have hget : (List.finRange expertCount)[expert.val] = expert := by
      rw [getElem_finRange]
      rfl
    calc List.finRange expertCount
        = (List.finRange expertCount).take expert ++ (List.finRange expertCount).drop expert :=
          (take_append_drop _ _).symm
      _ = _ := by rw [drop_eq_getElem_cons hlt, hget]
  refine ⟨_, ((List.finRange expertCount).drop (expert + 1)).filter fun e => (m.expertRank layer e).toNat =
    (m.expertRank layer expert).toNat, ?_, (localExpert_eq m layer expert).symm⟩
  rw [expertsOf, ← h]
  conv_lhs => rw [hsplit]
  rw [filter_append, filter_cons, if_pos (decide_eq_true rfl)]

theorem mem_expertsOf {m : Manifest} : expert ∈ expertsOf m layer rank ↔ (m.expertRank layer expert).toNat = rank := by
  rw [expertsOf, mem_filter, decide_eq_true_eq]
  exact and_iff_right (mem_finRange expert)

def expertImage (src : List UInt8) (t : GgufTensor) (expert : Fin expertCount) : Option (List UInt8) :=
  (readAt src (t.offset.toNat + expert * t.expertBytes.toNat) t.expertBytes.toNat).bind fun packed =>
    if expertLayout t = SealedManifest.layoutGgml then some packed
    else cookExpert t (expertLayout t) t.expertBytes packed

theorem expertData_eq_image (h : ∀ expert, (expertData src t expert).isSome)
    (expert : Fin expertCount) : expertData src t expert = expertImage src t expert := by
  have hsmall : t.expertBytes.toNat < 2 ^ 55 := by
    have hlt := t.bytes.toNat_lt
    have hdiv : t.expertBytes.toNat = t.bytes.toNat / 512 := UInt64.toNat_div ..
    omega
  have hreach (e : Fin expertCount) : (t.offset + .ofNat e * t.expertBytes).toNat < 2 ^ 63 := by
    obtain ⟨data, hdata⟩ := Option.isSome_iff_exists.mp (h e)
    obtain ⟨packed, hread, -⟩ := Option.bind_eq_some_iff.mp hdata
    rw [readAt] at hread
    split at hread
    next hfit =>
      exact hfit.1
    · cases hread
  have hplace (n : Nat) (hn : n < expertCount) :
      (t.offset + .ofNat n * t.expertBytes).toNat = t.offset.toNat + n * t.expertBytes.toNat := by
    induction n with
    | zero => simp
    | succ n ih =>
      have hprev := ih (Nat.lt_of_succ_lt hn)
      have hbelow : (t.offset + UInt64.ofNat n * t.expertBytes).toNat < 2 ^ 63 := hreach ⟨n, Nat.lt_of_succ_lt hn⟩
      have hnext : t.offset + UInt64.ofNat (n + 1) * t.expertBytes =
          t.offset + UInt64.ofNat n * t.expertBytes + t.expertBytes := by
        rw [UInt64.ofNat_add, UInt64.add_mul, UInt64.add_assoc]
        exact congrArg (fun x => t.offset + (UInt64.ofNat n * t.expertBytes + x)) (UInt64.one_mul _)
      rw [hnext, UInt64.toNat_add, Nat.mod_eq_of_lt (by omega), hprev, Nat.succ_mul, Nat.add_assoc]
  rw [expertData, expertImage, hplace expert expert.isLt]

/-- An expert of a routed tensor in the output of a rank: it is the one behind `k` others in the range of the record
of the rank's piece. -/
def ExpertAt (st : State) (t : GgufTensor) (src : List UInt8) (layer : Fin layerCount) (expert : Fin expertCount)
    (rank k : Nat) : Prop :=
  ∃ (place : Fin rankCount) (i : Fin maxTensors), place.val = rank ∧ i ∈ st.manifest.inRank place ∧
    (st.manifest.tensors i).name = nameField (expertName t place) ∧ (st.manifest.tensors i).layer.toNat = layer ∧
      (st.manifest.tensors i).kind = tensorRoutedExpert ∧
        (k + 1) * t.expertBytes.toNat ≤ (st.manifest.tensors i).bytes.toNat ∧
          ∀ content, (st.outputs (some place)).file = some content → expertImage src t expert =
            some ((content.drop ((st.manifest.tensors i).first + k * t.expertBytes.toNat)).take t.expertBytes.toNat)

/-- What a pack has before its first tensor: no records, and outputs that are all files or all none. -/
structure Blank (st : State) : Prop where
  count : st.manifest.tensorCount = 0
  ledger : ∀ rank, (st.manifest.ranks rank).tensorCount = 0
  offset : ∀ place, (st.outputs place).offset = 0
  file : (∀ place, (st.outputs place).file = some []) ∨ ∀ place, (st.outputs place).file = none

theorem Blank.ordered {st : State} (h : Blank st) : Ordered st := by
  have hindexes : st.manifest.tensorIndexes = [] := by
    rw [Manifest.tensorIndexes, h.count]
    rfl
  have hrecords : records st.manifest = [] := by
    rw [records, hindexes]
    rfl
  have hshelf (place : Option (Fin rankCount)) : shelf st.manifest place = [] := by
    rw [shelf, hrecords]
    rfl
  refine ⟨?_, ?_, fun place => ⟨?_, ?_, ?_, ?_, fun content hfile => ?_, fun rank _ => ?_⟩⟩
  · rw [h.count]
    exact Nat.zero_le _
  · rw [hrecords]
    exact fun r hr => absurd hr not_mem_nil
  · rw [hshelf, h.offset]
    exact .empty
  · rw [hshelf]
    exact fun r hr => absurd hr not_mem_nil
  · rw [hshelf]
    exact fun r hr => absurd hr not_mem_nil
  · rw [hshelf]
    exact fun r hr => absurd hr not_mem_nil
  · rw [h.offset]
    rcases h.file with hopen | hdry
    · rw [hopen] at hfile
      exact Option.some.inj hfile ▸ rfl
    · rw [hdry] at hfile
      cases hfile
  · rw [hshelf, h.ledger]
    rfl

theorem PieceAt.expertAt {st : State}
    (h : PieceAt st t src layer rank) (hordered : Ordered st) (hfits : Fits st.manifest)
    (hrouted : t.Routed) (hshare : Share (expertsOf st.manifest layer rank).length)
    (hexpert : (st.manifest.expertRank layer expert).toNat = rank)
    (himage : (st.outputs (some rank)).file ≠ none → expertData src t expert = expertImage src t expert) :
    ExpertAt (closeOutputs st) t src layer expert rank (Prefill.localExpert (topologyOf st.manifest) layer expert) := by
  obtain ⟨start, sha256, hrecord, hcontent⟩ := h
  obtain ⟨below, above, hsplit, hbelow⟩ := expertsOf_split st.manifest layer hexpert
  have hmem : (expertSegment st.manifest t layer rank start).record t sha256 ∈ shelf st.manifest (some rank) :=
    mem_filter.mpr ⟨hrecord, decide_eq_true rfl⟩
  rw [← hordered.map_inRank hfits rank] at hmem
  obtain ⟨i, hi, hrecordAt⟩ := mem_map.mp hmem
  have hlayer : (UInt16.ofNat layer).toNat = layer := by
    have hlt : layer.val < 2 ^ 16 := layer.isLt.trans (by decide)
    exact UInt16.toNat_ofNat_of_lt' hlt
  have hbytes : (t.expertBytes * .ofNat (expertsOf st.manifest layer rank).length).toNat =
      t.expertBytes.toNat * (expertsOf st.manifest layer rank).length := by
    rw [UInt64.toNat_mul, (share_word hshare).1]
    exact Nat.mod_eq_of_lt (hrouted.share_lt hshare)
  refine ⟨rank, i, rfl, hi, ?_, ?_, ?_, ?_, fun content hfile => ?_⟩
  · rw [hrecordAt]
    rfl
  · rw [hrecordAt]
    exact hlayer
  · rw [hrecordAt]
    rfl
  · rw [hrecordAt]
    refine le_of_le_of_eq ?_ hbytes.symm
    rw [Nat.mul_comm, hsplit, length_append, hbelow, length_cons]
    exact Nat.mul_le_mul_left _ (by omega)
  · obtain ⟨zeros, hzeros⟩ := padTo_file (st.outputs (some rank)) (alignUp (st.outputs (some rank)).offset alignment)
    have hclosed := hzeros.symm.trans hfile
    obtain ⟨old, hold, hgrown⟩ := Option.map_eq_some_iff.mp hclosed
    obtain ⟨hsome, before, behind, heq, hbefore⟩ := hcontent old hold
    obtain ⟨data, hdata⟩ := Option.isSome_iff_exists.mp (hsome expert (mem_expertsOf.mpr hexpert))
    have hbelowLength : (expertsData src t below).length =
        Prefill.localExpert (topologyOf st.manifest) layer expert * t.expertBytes.toNat := by
      rw [expertsData_length fun e he => hsome e (hsplit ▸ mem_append_left _ he), hbelow]
    have hwhole : content = (before ++ expertsData src t below) ++ (data ++ (expertsData src t above ++ behind ++ zeros)) := by
      have happend : expertsData src t (expertsOf st.manifest layer rank) =
          expertsData src t below ++ (data ++ expertsData src t above) := by
        rw [hsplit, expertsData, flatMap_append, flatMap_cons, hdata]
        rfl
      rw [← hgrown, heq, happend]
      simp only [append_assoc]
    have hfirst : ((closeOutputs st).manifest.tensors i).first = start.toNat := by
      rw [hrecordAt]
      rfl
    have hskip : ((closeOutputs st).manifest.tensors i).first +
        Prefill.localExpert (topologyOf st.manifest) layer expert * t.expertBytes.toNat =
          (before ++ expertsData src t below).length := by
      rw [length_append, hbefore, hbelowLength, hfirst]
    rw [← himage (by rw [hold]; exact nofun), hdata, hskip, hwhole, drop_left, ← expertData_length hdata, take_left]

/-- What is right about a pack: the storage check accepts its manifest, the ranges of every rank are aligned, apart and
inside of its output, and every expert is where the partition of a route looks for it. -/
structure Placed (tensors : List (GgufTensor × List UInt8)) (st : State) : Prop where
  accepted : validateTensorStorage st.manifest = .ok ()
  stored : ∀ rank, st.manifest.Stored rank
  inside : ∀ rank, (st.manifest.ranks rank).persistentBytes = (st.outputs (some rank)).offset ∧
    ∀ content, (st.outputs (some rank)).file = some content → content.length = (st.outputs (some rank)).offset.toNat
  experts : ∀ t src, (t, src) ∈ tensors → tensorKind t.name = tensorRoutedExpert → ∃ layer,
    tensorLayer t.name = some layer ∧
      (∀ expert, ExpertAt st t src layer expert (st.manifest.expertRank layer expert).toNat
        (Prefill.localExpert (topologyOf st.manifest) layer expert)) ∧
      ∀ ids gates routes, Prefill.partitionRoute (topologyOf st.manifest) layer ids gates = .ok routes →
        ∀ route ∈ routes, ∀ entry ∈ route.selected, ∃ expert : Fin expertCount, entry.globalExpert = expert ∧
          ExpertAt st t src layer expert route.destinationRank entry.localExpert

/-- Pack placement, as long as the rounded sizes of the pieces of every output total less than 2^64 bytes. -/
theorem pack_placed {sha : List UInt8 → Digest} {embedRank : Option (Fin rankCount)}
    {tensors : List (GgufTensor × List UInt8)} {st packed : State} (htopology : topologyValidate sha st.manifest = .ok ())
    (hblank : Blank st) (hrun : packTensors sha embedRank tensors st = .ok packed) (hfits : Fits packed.manifest) :
    Placed tensors (closeOutputs packed) := by
  have hserved := served_of_topology htopology
  obtain ⟨hsteps, hspreads⟩ := packTensors_run hrun hserved
  have hordered := hblank.ordered.steps hsteps hfits
  have hmode (hopen : ∃ place, (packed.outputs place).file ≠ none) (place : Option (Fin rankCount)) :
      (packed.outputs place).file ≠ none := by
    obtain ⟨open', hne⟩ := hopen
    rcases hblank.file with hfiles | hdry
    · obtain ⟨rest, hrest⟩ := hsteps.grows.files place
      rw [hrest, hfiles]
      exact nofun
    · obtain ⟨rest, hrest⟩ := hsteps.grows.files open'
      rw [hrest, hdry] at hne
      exact absurd rfl hne
  have hexperts (t : GgufTensor) (src : List UInt8) (hmem : (t, src) ∈ tensors)
      (hkind : tensorKind t.name = tensorRoutedExpert) : ∃ layer, tensorLayer t.name = some layer ∧ ∀ expert,
        ExpertAt (closeOutputs packed) t src layer expert (packed.manifest.expertRank layer expert).toNat
          (Prefill.localExpert (topologyOf packed.manifest) layer expert) := by
    obtain ⟨layer, hlayer, hrouted, hpieces⟩ := hspreads hblank.ordered hfits t src hmem hkind
    have hpacked := (hserved layer).grows hsteps.grows
    have hpiece (expert : Fin expertCount) : ∃ rank : Fin rankCount,
        (packed.manifest.expertRank layer expert).toNat = rank ∧
          ∃ slot, (packed.manifest.layerGroups layer slot).toNat = rank := by
      obtain ⟨slot, hslot⟩ := hpacked.expert expert
      exact ⟨⟨_, hpacked.group slot⟩, hslot.symm, slot, rfl⟩
    refine ⟨layer, hlayer, fun expert => ?_⟩
    obtain ⟨rank, hrank, hslot⟩ := hpiece expert
    rw [hrank]
    refine (hpieces rank hslot).expertAt hordered hfits hrouted (expertsOf_length hpacked hslot) hrank fun hne => ?_
    refine expertData_eq_image (fun other => ?_) expert
    obtain ⟨rank', hrank', hslot'⟩ := hpiece other
    obtain ⟨content, hcontent⟩ := Option.ne_none_iff_exists'.mp (hmode ⟨_, hne⟩ (some rank'))
    obtain ⟨start, sha256, -, hread⟩ := hpieces rank' hslot'
    exact (hread content hcontent).1 other (mem_expertsOf.mpr hrank')
  constructor
  case accepted => exact hordered.closed_accepted hfits
  case stored => exact hordered.closed_stored hfits
  case inside => exact fun rank => ⟨rfl, (hordered.closed hfits (some rank)).2⟩
  case experts =>
    intro t src hmem hkind
    obtain ⟨layer, hlayer, hall⟩ := hexperts t src hmem hkind
    refine ⟨layer, hlayer, hall, fun ids gates routes hroutes route hroute entry hentry => ?_⟩
    obtain ⟨hexpert, hrank, hlocal⟩ := Prefill.partitionRoute_entries hroutes route hroute entry hentry
    have hat := hall ⟨entry.globalExpert, hexpert⟩
    have hsame := expertRank_topologyOf packed.manifest layer ⟨entry.globalExpert, hexpert⟩
    rw [← hsame] at hat
    refine ⟨⟨entry.globalExpert, hexpert⟩, rfl, ?_⟩
    rw [← hrank, hlocal]
    exact hat

instance (m : Manifest) : Decidable (Fits m) :=
  decidable_of_iff (taken m none < 2 ^ 64 ∧ ∀ rank, taken m (some rank) < 2 ^ 64)
    ⟨fun h place => place.casesOn h.1 h.2, fun h => ⟨h none, fun rank => h (some rank)⟩⟩

def byteTensor (name : List UInt8) : GgufTensor where
  name := name
  type := 24
  dims := 1
  shape := fun _ => 512
  offset := 0
  bytes := 512
  sized := by decide +kernel

/-- A tensor that names 2^63 bytes; a dry run reads none of them. -/
def wideTensor : GgufTensor where
  name := ascii "a"
  type := 24
  dims := 1
  shape := fun _ => 2 ^ 63
  offset := 0
  bytes := 2 ^ 63
  sized := by decide +kernel

def blankManifest : Manifest := { fullManifest with ranks := fun rank => { fullRank rank with persistentBytes := 0 } }

theorem blankManifest_valid : topologyValidate onesSha blankManifest = .ok () :=
  fullTopology_valid rfl rfl rfl rfl ⟨rfl, rfl⟩ (fun _ => rfl) (fun _ => rfl) rfl rfl

/-- The start of a pack, with empty files or in a dry run. -/
def blankState (file : Option (List UInt8)) : State := ⟨blankManifest, fun _ => ⟨file, 0⟩⟩

def byteTensors : List (GgufTensor × List UInt8) :=
  [(byteTensor (ascii "a"), (List.range 512).map .ofNat), (byteTensor (ascii "blk.0.ffn_exps"), (List.range 512).map .ofNat)]

theorem exists_ok {α : Type} {p : α → Bool} {result : Except Halt α} (h : result.toOption.any p = true) :
    ∃ a, result = .ok a ∧ p a = true := by
  cases result with
  | error halt => cases h
  | ok a => exact ⟨a, rfl, h⟩

theorem pack_placed_experts : ∃ packed, packTensors onesSha none byteTensors (blankState (some [])) = .ok packed ∧
    Placed byteTensors (closeOutputs packed) := by
  have hrun : (packTensors onesSha none byteTensors (blankState (some []))).toOption.any
      (fun packed => decide (Fits packed.manifest)) = true := by decide +kernel
  obtain ⟨packed, hok, hfits⟩ := exists_ok hrun
  have hblank : Blank (blankState (some [])) := ⟨rfl, fun _ => rfl, fun _ => rfl, .inl fun _ => rfl⟩
  exact ⟨packed, hok, @pack_placed onesSha none byteTensors (blankState (some [])) packed blankManifest_valid hblank hok
    (of_decide_eq_true hfits)⟩

/-- Nothing bounds the sizes in a dry run: behind 2^63 bytes a second such tensor ends where offsets wrap, and the check
refuses the manifest. -/
theorem widePack_refused : ∃ packed, topologyValidate onesSha (blankState none).manifest = .ok () ∧
    Blank (blankState none) ∧
    packTensors onesSha none [(wideTensor, []), (wideTensor, [])] (blankState none) = .ok packed ∧
    validateTensorStorage (closeOutputs packed).manifest ≠ .ok () := by
  have hrun : (packTensors onesSha none [(wideTensor, []), (wideTensor, [])] (blankState none)).toOption.any
      (fun packed => !(validateTensorStorage (closeOutputs packed).manifest).isOk) = true := by decide +kernel
  obtain ⟨packed, hok, hrefused⟩ := exists_ok hrun
  refine ⟨packed, blankManifest_valid, ⟨rfl, fun _ => rfl, fun _ => rfl, .inr fun _ => rfl⟩, hok, fun haccepted => ?_⟩
  rw [haccepted] at hrefused
  cases hrefused

end FlashGordon.Pack
