import FlashGordon.PackRecord

/-!
What a step of a pack can do: one piece lands at the next aligned place of its output and is recorded. Both
writers are runs of such steps, and whatever is in the outputs and in the manifest stays there.
-/

namespace FlashGordon.Pack

open SealedManifest Checks Cooked List

/-! ## Bytes that are written -/

def Output.append (out : Output) (data : List UInt8) (bytes : UInt64) : Output :=
  { out.write data with offset := out.offset + bytes }

theorem Output.append_append (out : Output) (data data' : List UInt8) (bytes bytes' : UInt64) :
    (out.append data bytes).append data' bytes' = out.append (data ++ data') (bytes + bytes') := by
  simp only [Output.append, Output.write, Option.map_map, UInt64.add_assoc]
  congr 2
  funext content
  exact append_assoc ..

theorem Output.append_nil (out : Output) : out.append [] 0 = out := by
  cases out with
  | mk file offset => cases file <;> simp [Output.append, Output.write]

theorem readAt_length {src data : List UInt8} {offset bytes : Nat} (h : readAt src offset bytes = some data) :
    data.length = bytes := by
  rw [readAt] at h
  split at h
  · rw [← Option.some.inj h, length_take, length_drop]
    omega
  · cases h

theorem buffer_length (mem : Nat → UInt8) (bytes : Nat) : (buffer mem bytes).length = bytes := by
  rw [buffer, length_map, length_range]

variable {src hash hash' : List UInt8} {out out' : Output}

theorem written_nowhere {bytes : UInt64} {data : List UInt8} {P : List UInt8 → Prop} (hfile : out.file = none)
    (h : (.ok (⟨none, out.offset + bytes⟩, data) : Except Error _) = .ok (out', hash')) :
    ∃ data, out' = out.append data bytes ∧ (@none (List UInt8) ≠ none → P data) := by
  obtain ⟨rfl, -⟩ := Prod.mk.inj (Except.ok.inj h)
  refine ⟨[], ?_, fun hne => absurd rfl hne⟩
  rw [Output.append, Output.write, hfile]
  rfl

theorem copyRange_spec {offset bytes : UInt64} (h : copyRange src offset bytes out hash = .ok (out', hash')) :
    ∃ data, out' = out.append data bytes ∧ (out.file ≠ none → readAt src offset.toNat bytes.toNat = some data) := by
  rw [copyRange] at h
  cases hfile : out.file with
  | none =>
    rw [hfile] at h
    exact written_nowhere hfile h
  | some content =>
    rw [hfile] at h
    simp only at h
    cases hread : readAt src offset.toNat bytes.toNat with
    | none => rw [hread] at h; cases h
    | some data =>
      rw [hread] at h
      obtain ⟨rfl, -⟩ := Prod.mk.inj (Except.ok.inj h)
      exact ⟨data, rfl, fun _ => rfl⟩

variable {t : GgufTensor}

theorem cookTiles_length {src : List UInt8} {sourceRow tileBytes : UInt64} {n first : Nat}
    {data : List UInt8} (h : cookTiles src t sourceRow tileBytes n first = .ok data) :
    data.length = n * tileBytes.toNat := by
  induction n generalizing first data with
  | zero =>
    rw [← Except.ok.inj h, Nat.zero_mul]
    rfl
  | succ n ih =>
    rw [cookTiles] at h
    split at h
    · cases h
    · split at h
      · cases h
      · obtain ⟨rest, hrest, h⟩ := bind_eq_ok.mp h
        rw [← Except.ok.inj h, length_append, buffer_length, ih hrest, Nat.succ_mul, Nat.add_comm]

theorem q8Cooked_toNat (h : useCookedQ8 t = true) :
    (q8CookedMatrixBytes (t.shape 0) (t.shape 1)).toNat =
      ((t.shape 1).toNat + 15) / 16 * (q8CookedTileBytes (t.shape 0)).toNat := by
  rw [useCookedQ8] at h
  split at h
  · cases h
  next hgood =>
    obtain ⟨hne, -⟩ := of_decide_eq_true h
    obtain ⟨-, -, -, hrows, -⟩ : _ ∧ _ ∧ _ ∧ _ ∧ _ := by
      simpa only [not_or, ne_eq, not_not, gt_iff_lt, UInt64.not_lt] using hgood
    rw [q8CookedMatrixBytes] at hne ⊢
    split at hne
    · exact absurd rfl hne
    next hmatrix =>
      obtain ⟨-, -, hfit⟩ : _ ∧ _ ∧ _ := by simpa only [not_or, UInt64.not_lt] using hmatrix
      have hlt : (t.shape 1).toNat < 2 ^ 32 := Nat.lt_of_le_of_lt (UInt64.le_iff_toNat_le.mp hrows) (by decide)
      have hsum : (t.shape 1 + 16 - 1).toNat = (t.shape 1).toNat + 15 := by
        have hword : t.shape 1 + 16 - 1 = t.shape 1 + 15 := by
          rw [UInt64.sub_eq_add_neg, UInt64.add_assoc]
          rfl
        rw [hword, UInt64.toNat_add]
        exact Nat.mod_eq_of_lt (Nat.lt_trans (Nat.add_lt_add_right hlt 15) (by decide))
      have htiles : ((t.shape 1 + 16 - 1) / 16).toNat = ((t.shape 1).toNat + 15) / 16 := by
        rw [UInt64.toNat_div, hsum]
        rfl
      rw [if_neg hmatrix, toNat_mul_of_le ?_, htiles]
      exact hfit

/-- The bytes and the layout `pack_common` gives a tensor. -/
def commonBytes (t : GgufTensor) : UInt64 :=
  if useCookedQ8 t then q8CookedMatrixBytes (t.shape 0) (t.shape 1) else t.bytes

def commonLayout (t : GgufTensor) : UInt8 := if useCookedQ8 t then layoutQ8Cooked else layoutGgml

theorem writeCommon_spec {src hash : List UInt8}
    (h : writeCommon t src out (commonLayout t) (commonBytes t) = .ok (out', hash)) :
    ∃ data, out' = out.append data (commonBytes t) ∧ (out.file ≠ none → data.length = (commonBytes t).toNat) := by
  rw [writeCommon] at h
  by_cases hcooked : useCookedQ8 t
  · have hlayout : commonLayout t = layoutQ8Cooked := if_pos hcooked
    have hbytes : commonBytes t = q8CookedMatrixBytes (t.shape 0) (t.shape 1) := if_pos hcooked
    rw [if_pos hlayout] at h
    cases hfile : out.file with
    | none =>
      rw [hfile] at h
      exact written_nowhere hfile h
    | some content =>
      rw [hfile] at h
      obtain ⟨data, hdata, h⟩ := bind_eq_ok.mp h
      obtain ⟨rfl, -⟩ := Prod.mk.inj (Except.ok.inj h)
      refine ⟨data, rfl, fun _ => ?_⟩
      rw [processCookedQ8] at hdata
      split at hdata
      · cases hdata
      · rw [cookTiles_length hdata, hbytes, q8Cooked_toNat hcooked]
  · have hlayout : commonLayout t ≠ layoutQ8Cooked := by
      rw [commonLayout, if_neg hcooked]
      decide
    have hbytes : commonBytes t = t.bytes := if_neg hcooked
    rw [if_neg hlayout, ← hbytes] at h
    obtain ⟨data, hout, hread⟩ := copyRange_spec h
    exact ⟨data, hout, fun hne => readAt_length (hread hne)⟩

def expertData (src : List UInt8) (t : GgufTensor) (expert : Fin expertCount) : Option (List UInt8) :=
  (readAt src (t.offset + .ofNat expert * t.expertBytes).toNat t.expertBytes.toNat).bind fun packed =>
    if expertLayout t = layoutGgml then some packed else cookExpert t (expertLayout t) t.expertBytes packed

theorem cookExpert_length {layout : UInt8} {bytes : UInt64} {packed cooked : List UInt8}
    (h : cookExpert t layout bytes packed = some cooked) : cooked.length = bytes.toNat := by
  obtain ⟨mem, -, rfl⟩ := Option.map_eq_some_iff.mp h
  exact buffer_length _ _

theorem expertData_length {src data : List UInt8} {expert : Fin expertCount}
    (h : expertData src t expert = some data) : data.length = t.expertBytes.toNat := by
  obtain ⟨packed, hread, h⟩ := Option.bind_eq_some_iff.mp h
  split at h
  · rw [← Option.some.inj h, readAt_length hread]
  · exact cookExpert_length h

theorem writeExpert_spec {expert : Fin expertCount}
    (h : writeExpert src t t.expertBytes (expertLayout t) expert out hash = .ok (out', hash')) :
    ∃ data, out' = out.append data t.expertBytes ∧ (out.file ≠ none → expertData src t expert = some data) := by
  rw [writeExpert] at h
  split at h
  next hplain =>
    obtain ⟨data, hout, hread⟩ := copyRange_spec h
    refine ⟨data, hout, fun hne => ?_⟩
    rw [expertData, hread hne, Option.bind_some, if_pos hplain]
  next hplain =>
    rw [processCookedExpert] at h
    cases hfile : out.file with
    | none =>
      rw [hfile] at h
      exact written_nowhere hfile h
    | some content =>
      rw [hfile] at h
      simp only at h
      split at h
      · cases h
      next packed hread =>
        split at h
        · cases h
        next cooked hcooked =>
          obtain ⟨rfl, -⟩ := Prod.mk.inj (Except.ok.inj h)
          refine ⟨cooked, rfl, fun _ => ?_⟩
          rw [expertData, hread, Option.bind_some, if_neg hplain, hcooked]

/-- The stored bytes of some experts one after another. -/
def expertsData (src : List UInt8) (t : GgufTensor) (experts : List (Fin expertCount)) : List UInt8 :=
  experts.flatMap fun expert => (expertData src t expert).getD []

theorem expertsData_cons (src : List UInt8) (t : GgufTensor) (expert : Fin expertCount) (rest : List (Fin expertCount)) :
    expertsData src t (expert :: rest) = (expertData src t expert).getD [] ++ expertsData src t rest := rfl

theorem writeExperts_spec {experts : List (Fin expertCount)}
    (h : writeExperts src t t.expertBytes (expertLayout t) experts out hash = .ok (out', hash')) :
    ∃ data, out' = out.append data (t.expertBytes * .ofNat experts.length) ∧
      (out.file ≠ none → data = expertsData src t experts ∧ ∀ expert ∈ experts, (expertData src t expert).isSome) := by
  induction experts generalizing out hash with
  | nil =>
    obtain ⟨rfl, -⟩ := Prod.mk.inj (Except.ok.inj h)
    refine ⟨[], ?_, fun _ => ⟨rfl, fun expert hexpert => absurd hexpert not_mem_nil⟩⟩
    exact (Output.append_nil out).symm.trans (congrArg (out.append []) (UInt64.mul_zero).symm)
  | cons expert rest ih =>
    obtain ⟨⟨next, mid⟩, hone, h⟩ := bind_eq_ok.mp h
    obtain ⟨data, rfl, hdata⟩ := writeExpert_spec hone
    obtain ⟨data', rfl, hrest⟩ := ih h
    refine ⟨data ++ data', ?_, fun hne => ?_⟩
    · have hbytes : t.expertBytes + t.expertBytes * .ofNat rest.length =
          t.expertBytes * .ofNat (expert :: rest).length := by
        rw [length_cons, UInt64.ofNat_add, UInt64.mul_add, UInt64.add_comm]
        exact congrArg _ (UInt64.mul_one _).symm
      rw [Output.append_append, hbytes]
    · have hfile : (out.append data t.expertBytes).file ≠ none := by
        rw [Output.append, Output.write]
        simpa using hne
      obtain ⟨rfl, hsome⟩ := hrest hfile
      refine ⟨?_, forall_mem_cons.mpr ⟨by rw [hdata hne]; rfl, hsome⟩⟩
      rw [expertsData_cons, hdata hne]
      rfl

theorem expertsData_length {src : List UInt8} {experts : List (Fin expertCount)}
    (h : ∀ expert ∈ experts, (expertData src t expert).isSome) :
    (expertsData src t experts).length = experts.length * t.expertBytes.toNat := by
  induction experts with
  | nil => rw [length_nil, Nat.zero_mul]; rfl
  | cons expert rest ih =>
    obtain ⟨hone, hrest⟩ := forall_mem_cons.mp h
    obtain ⟨data, hdata⟩ := Option.isSome_iff_exists.mp hone
    rw [expertsData_cons, length_append, ih hrest, hdata, Option.getD_some, expertData_length hdata,
      length_cons, Nat.succ_mul, Nat.add_comm]

/-! ## Records that are added -/

def records (m : Manifest) : List TensorRecord := m.tensorIndexes.map m.tensors

theorem mem_tensorIndexes {m : Manifest} {i : Fin maxTensors} : i ∈ m.tensorIndexes ↔ i.val < m.tensorCount.toNat := by
  rw [Manifest.tensorIndexes, mem_take_iff_getElem]
  simp only [getElem_finRange, length_finRange]
  constructor
  · rintro ⟨j, hj, rfl⟩
    exact (Nat.lt_min.mp hj).1
  · intro hi
    exact ⟨i, Nat.lt_min.mpr ⟨hi, i.isLt⟩, rfl⟩

/-- What `record_segment` does to a manifest it has room in. -/
structure Recorded (m : Manifest) (r : TensorRecord) (s : Segment) (m' : Manifest) : Prop where
  room : m.tensorCount.toNat < maxTensors
  counted : m'.tensorCount = m.tensorCount + 1
  added : records m' = records m ++ [r]
  owner : m'.layerOwner = m.layerOwner
  groups : m'.layerGroups = m.layerGroups
  experts : m'.expertRank = m.expertRank
  ledger : ∀ rank, (m'.ranks rank).tensorCount = (m.ranks rank).tensorCount +
    if s.place = some rank ∧ s.kind ≠ tensorHostCache then 1 else 0

theorem addTensor_records {m m' : Manifest} {r : TensorRecord} (h : addTensor m r = .ok m') :
    m.tensorCount.toNat < maxTensors ∧ m'.tensorCount = m.tensorCount + 1 ∧ records m' = records m ++ [r] ∧
      m' = { m with tensors := m'.tensors, tensorCount := m'.tensorCount } := by
  rw [addTensor] at h
  split at h
  next hroom =>
    obtain rfl := Except.ok.inj h
    refine ⟨hroom, rfl, ?_, rfl⟩
    have hcount : (m.tensorCount + 1).toNat = m.tensorCount.toNat + 1 := by
      rw [UInt32.toNat_add]
      exact Nat.mod_eq_of_lt (Nat.lt_of_le_of_lt hroom (by decide))
    have hlast : (List.finRange maxTensors)[m.tensorCount.toNat]? = some ⟨m.tensorCount.toNat, hroom⟩ := by
      rw [List.getElem?_eq_getElem (by rwa [length_finRange]), getElem_finRange]
      rfl
    simp only [records, Manifest.tensorIndexes]
    rw [hcount, take_add_one, hlast, Option.toList_some, map_append, map_singleton, Function.update_self]
    refine congrArg (· ++ [r]) (map_congr_left fun i hi => ?_)
    have hlt : i.val < m.tensorCount.toNat := mem_tensorIndexes.mp hi
    have hne : i ≠ ⟨m.tensorCount.toNat, hroom⟩ := fun heq => absurd (congrArg Fin.val heq) hlt.ne
    rw [Function.update_of_ne hne]
  · cases h

theorem recordSegment_spec {m m' : Manifest} {s : Segment} {sha256 : Digest}
    (h : recordSegment m t s sha256 = .ok m') : Recorded m (s.record t sha256) s m' := by
  obtain ⟨next, hadd, h⟩ := bind_eq_ok.mp h
  obtain ⟨hroom, hcounted, hadded, hrest⟩ := addTensor_records hadd
  have hranks : next.ranks = m.ranks := by rw [hrest]
  have howner : next.layerOwner = m.layerOwner := by rw [hrest]
  have hgroups : next.layerGroups = m.layerGroups := by rw [hrest]
  have hexperts : next.expertRank = m.expertRank := by rw [hrest]
  cases hplace : s.place with
  | none =>
    rw [hplace] at h
    obtain rfl := Except.ok.inj h
    refine ⟨hroom, hcounted, hadded, howner, hgroups, hexperts, fun rank => ?_⟩
    rw [hplace, if_neg (fun hno => absurd hno.1 nofun)]
    exact (congrArg _ (congrFun hranks rank)).trans (UInt32.add_zero _).symm
  | some owner =>
    rw [hplace] at h
    simp only at h
    split at h
    next hhost =>
      obtain rfl := Except.ok.inj h
      refine ⟨hroom, hcounted, hadded, howner, hgroups, hexperts, fun rank => ?_⟩
      rw [if_neg (fun hno => hno.2 hhost)]
      exact (congrArg _ (congrFun hranks rank)).trans (UInt32.add_zero _).symm
    next hhost =>
      obtain rfl := Except.ok.inj h
      refine ⟨hroom, hcounted, hadded, howner, hgroups, hexperts, fun rank => ?_⟩
      simp only [hranks, hplace, Option.some.injEq]
      by_cases hrank : owner = rank
      · subst hrank
        rw [Function.update_self, if_pos ⟨rfl, hhost⟩]
      · rw [Function.update_of_ne (Ne.symm hrank), if_neg (fun hno => hrank hno.1)]
        exact (UInt32.add_zero _).symm

def Output.after (out : Output) (s : Segment) (data : List UInt8) : Output := (padTo out s.start).append data s.bytes

structure Lands (st : State) (t : GgufTensor) (s : Segment) (sha256 : Digest) (data : List UInt8) (st' : State) :
    Prop where
  start : s.start = alignUp (st.outputs s.place).offset alignment
  bytes : expectedBytes (s.record t sha256) = .ok s.bytes
  external : s.place = none ↔ s.kind = tensorNgram
  stored : s.kind ≠ tensorHostCache ∧ s.kind ≠ tensorTokenizer
  recorded : Recorded st.manifest (s.record t sha256) s st'.manifest
  outputs : st'.outputs = Function.update st.outputs s.place ((st.outputs s.place).after s data)
  data : (st.outputs s.place).file ≠ none → data.length = s.bytes.toNat

def Step (st st' : State) : Prop := ∃ t s sha256 data, Lands st t s sha256 data st'

theorem padTo_file (out : Output) (target : UInt64) : ∃ zeros, (padTo out target).file = out.file.map (· ++ zeros) := by
  rw [padTo]
  split
  · exact ⟨_, rfl⟩
  · exact ⟨[], by cases out.file <;> simp⟩

theorem after_file (out : Output) (s : Segment) (data : List UInt8) :
    ∃ rest, (out.after s data).file = out.file.map (· ++ rest) := by
  obtain ⟨zeros, hzeros⟩ := padTo_file out s.start
  refine ⟨zeros ++ data, ?_⟩
  rw [Output.after, Output.append, Output.write]
  simp only [hzeros, Option.map_map]
  congr 1
  funext content
  exact append_assoc ..

section Writers

variable {sha : List UInt8 → Digest} {embedRank : Option (Fin rankCount)} {st st' : State} {t : GgufTensor}
  {src : List UInt8}

theorem packAt_step {kind : UInt8} {layer : Option (Fin layerCount)} {place : Option (Fin rankCount)}
    (h : packAt sha st t src kind layer place = .ok st') (hplace : place = none ↔ kind = tensorNgram)
    (hstored : kind ≠ tensorHostCache ∧ kind ≠ tensorTokenizer) : Step st st' := by
  simp only [packAt, bind_eq_ok, exists_unit, refuse_eq_ok] at h
  obtain ⟨-, ⟨out, hash⟩, hwrite, manifest, hrecord, h⟩ := h
  obtain rfl := Except.ok.inj h
  obtain ⟨data, rfl, hdata⟩ := writeCommon_spec hwrite
  refine ⟨t, _, sha hash, data, rfl, ?_, hplace, hstored, recordSegment_spec hrecord, rfl, fun hne => hdata ?_⟩
  · by_cases hcooked : useCookedQ8 t
    · exact expectedBytes_cooked hcooked (if_pos hcooked) (if_pos hcooked) rfl
    · exact expectedBytes_plain (if_neg hcooked) (if_neg hcooked) rfl
  · obtain ⟨zeros, hzeros⟩ := padTo_file (st.outputs place) (alignUp (st.outputs place).offset alignment)
    rw [hzeros]
    simpa using hne

theorem tensorKind_stored (name : List UInt8) :
    tensorKind name ≠ tensorHostCache ∧ tensorKind name ≠ tensorTokenizer := by
  unfold tensorKind
  split_ifs <;> decide

theorem packCommon_step (h : packCommon sha embedRank st t src = .ok st') : Step st st' := by
  rw [packCommon] at h
  have hok {result : Except Error State} (h : result.mapError Halt.error = .ok st') : result = .ok st' := by
    cases result with
    | error err => cases h
    | ok st => exact congrArg _ (Except.ok.inj h)
  split at h
  next hkind =>
    exact packAt_step (hok h) ⟨fun _ => hkind, fun _ => rfl⟩ (tensorKind_stored t.name)
  next hkind =>
    split at h
    · exact packAt_step (hok h) ⟨nofun, fun hngram => absurd hngram hkind⟩ (tensorKind_stored t.name)
    · cases h

/-- What a rank's piece of a routed tensor is recorded with. -/
def expertSegment (m : Manifest) (t : GgufTensor) (layer : Fin layerCount) (rank : Fin rankCount) (start : UInt64) :
    Segment where
  name := expertName t rank
  start := start
  bytes := t.expertBytes * .ofNat (expertsOf m layer rank).length
  place := some rank
  layer := some layer
  kind := tensorRoutedExpert
  layout := expertLayout t
  localExperts := .ofNat (expertsOf m layer rank).length

theorem expertsOf_length {m : Manifest} {layer : Fin layerCount} (h : Served m layer) {rank : Fin rankCount}
    (hrank : ∃ slot, (m.layerGroups layer slot).toNat = rank) : Share (expertsOf m layer rank).length := by
  obtain ⟨slot, hslot⟩ := hrank
  rw [expertsOf, ← countP_eq_length_filter, ← hslot]
  exact h.share slot

theorem packPiece_lands {layer : Fin layerCount} {rank : Fin rankCount}
    (h : packPiece sha st t src layer rank = .ok st') (hrouted : t.Routed) (hserved : Served st.manifest layer)
    (hrank : ∃ slot, (st.manifest.layerGroups layer slot).toNat = rank) :
    ∃ sha256 data, Lands st t (expertSegment st.manifest t layer rank
        (alignUp (st.outputs (some rank)).offset alignment)) sha256 data st' ∧
      ((st.outputs (some rank)).file ≠ none → data = expertsData src t (expertsOf st.manifest layer rank) ∧
        ∀ expert ∈ expertsOf st.manifest layer rank, (expertData src t expert).isSome) := by
  have hshare := expertsOf_length hserved hrank
  simp only [packPiece, bind_eq_ok, exists_unit, refuse_eq_ok, ne_eq, not_not] at h
  obtain ⟨⟨out, hash⟩, hwrite, hexpected, manifest, hrecord, h⟩ := h
  obtain rfl := Except.ok.inj h
  rw [← hexpected] at hrecord
  obtain ⟨data, rfl, hdata⟩ := writeExperts_spec hwrite
  have hopen (hne : (st.outputs (some rank)).file ≠ none) :
      data = expertsData src t (expertsOf st.manifest layer rank) ∧
        ∀ expert ∈ expertsOf st.manifest layer rank, (expertData src t expert).isSome := by
    refine hdata ?_
    obtain ⟨zeros, hzeros⟩ := padTo_file (st.outputs (some rank)) (alignUp (st.outputs (some rank)).offset alignment)
    rw [hzeros]
    simpa using hne
  have hstored : tensorRoutedExpert ≠ tensorHostCache ∧ tensorRoutedExpert ≠ tensorTokenizer := by decide
  refine ⟨sha hash, data, ⟨rfl, expectedBytes_expert hrouted hshare rfl rfl rfl rfl, ⟨fun h => (by cases h), fun h => (by cases h)⟩, hstored,
    recordSegment_spec hrecord, rfl, fun hne => ?_⟩, hopen⟩
  obtain ⟨heq, hsome⟩ := hopen hne
  have hbytes : (t.expertBytes * .ofNat (expertsOf st.manifest layer rank).length).toNat =
      t.expertBytes.toNat * (expertsOf st.manifest layer rank).length := by
    rw [UInt64.toNat_mul, (share_word hshare).1]
    exact Nat.mod_eq_of_lt (hrouted.share_lt hshare)
  rw [heq, expertsData_length hsome, Nat.mul_comm]
  exact hbytes.symm

end Writers

/-- What a pack keeps of where it has been: the topology, the records and the bytes of the outputs. -/
structure Grows (st st' : State) : Prop where
  owner : st'.manifest.layerOwner = st.manifest.layerOwner
  groups : st'.manifest.layerGroups = st.manifest.layerGroups
  experts : st'.manifest.expertRank = st.manifest.expertRank
  records : records st.manifest <+: records st'.manifest
  files : ∀ place, ∃ rest, (st'.outputs place).file = (st.outputs place).file.map (· ++ rest)

theorem Grows.refl (st : State) : Grows st st :=
  ⟨rfl, rfl, rfl, prefix_rfl, fun place => ⟨[], by cases (st.outputs place).file <;> simp⟩⟩

theorem Grows.trans {st mid st' : State} (h : Grows st mid) (h' : Grows mid st') : Grows st st' := by
  refine ⟨h'.owner.trans h.owner, h'.groups.trans h.groups, h'.experts.trans h.experts, h.records.trans h'.records,
    fun place => ?_⟩
  obtain ⟨rest, hrest⟩ := h.files place
  obtain ⟨rest', hrest'⟩ := h'.files place
  refine ⟨rest ++ rest', ?_⟩
  rw [hrest', hrest, Option.map_map]
  congr 1
  funext content
  exact append_assoc ..

variable {st st' : State}

theorem Step.grows (h : Step st st') : Grows st st' := by
  obtain ⟨t, s, sha256, data, h⟩ := h
  refine ⟨h.recorded.owner, h.recorded.groups, h.recorded.experts, ⟨_, h.recorded.added.symm⟩, fun place => ?_⟩
  rw [h.outputs]
  by_cases hplace : place = s.place
  · subst hplace
    rw [Function.update_self]
    exact after_file _ _ _
  · rw [Function.update_of_ne hplace]
    exact (Grows.refl st).files place

abbrev Steps : State → State → Prop := Relation.ReflTransGen Step

theorem Steps.grows (h : Steps st st') : Grows st st' := by
  induction h with
  | refl => exact Grows.refl st
  | tail _ hstep ih => exact ih.trans hstep.grows

theorem Served.grows {layer : Fin layerCount} (h : Served st.manifest layer) (hgrows : Grows st st') :
    Served st'.manifest layer := by
  obtain ⟨howner, hgroup, hexpert, hshare⟩ := h
  rw [← hgrows.owner] at howner
  rw [← hgrows.groups] at hgroup hexpert hshare
  rw [← hgrows.experts] at hexpert hshare
  exact ⟨howner, hgroup, hexpert, hshare⟩

end FlashGordon.Pack
