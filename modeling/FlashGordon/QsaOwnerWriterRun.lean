import FlashGordon.QsaOwnerWriter

/-! Every interleaving of the message thread with the page writer: what has been written is what was
accepted, layer by layer and in order. -/

namespace FlashGordon.QsaOwner

open List

variable {Records : Type}

def layerPages (layer : UInt8) (pages : List (Page Records)) : List (Page Records) :=
  pages.filter fun page => page.layer = layer

def regroup (layers : List UInt8) (pages : List (Page Records)) : List (Page Records) :=
  layers.flatMap fun layer => layerPages layer pages

@[simp] theorem layerPages_append (layer : UInt8) (pages more : List (Page Records)) :
    layerPages layer (pages ++ more) = layerPages layer pages ++ layerPages layer more :=
  filter_append ..

theorem layerPages_layerPages (layer other : UInt8) (pages : List (Page Records)) :
    layerPages layer (layerPages other pages) = if layer = other then layerPages layer pages else [] := by
  rw [layerPages, layerPages, filter_filter]
  split
  next heq =>
    subst heq
    simp [layerPages]
  next hne =>
    apply filter_eq_nil_iff.mpr
    intro page _
    simp only [decide_eq_true_eq, Bool.and_eq_true, not_and]
    rintro rfl
    exact hne

variable {layers : List UInt8}

theorem layerPages_regroup (hnodup : layers.Nodup) (layer : UInt8) (pages : List (Page Records)) :
    layerPages layer (regroup layers pages) = if layer ∈ layers then layerPages layer pages else [] := by
  induction layers with
  | nil => rfl
  | cons other rest ih =>
    obtain ⟨hother, hrest⟩ := nodup_cons.mp hnodup
    rw [regroup, flatMap_cons, layerPages_append, layerPages_layerPages]
    by_cases heq : layer = other
    · subst heq
      have htail := ih hrest
      rw [if_neg hother] at htail
      rw [if_pos rfl, if_pos mem_cons_self]
      exact (congrArg (_ ++ ·) htail).trans (append_nil _)
    · rw [if_neg heq, nil_append]
      simp only [mem_cons, heq, false_or]
      exact ih hrest

/-- A batch the writer can write: its layers are the runtime's, and none has too many pages. -/
structure Routed (layers : List UInt8) (pages : List (Page Records)) : Prop where
  owned : ∀ page ∈ pages, page.layer ∈ layers
  capped : ∀ layer, (layerPages layer pages).length ≤ appendLayerMaxPages

theorem Routed.layerPages_regroup {pages : List (Page Records)}
    (h : Routed layers pages) (hnodup : layers.Nodup) (layer : UInt8) :
    layerPages layer (regroup layers pages) = layerPages layer pages := by
  rw [QsaOwner.layerPages_regroup hnodup]
  split
  · rfl
  next hmem =>
    symm
    apply filter_eq_nil_iff.mpr
    intro page hpage heq
    exact hmem (of_decide_eq_true heq ▸ h.owned page hpage)

theorem layerPages_flatMap_regroup (hnodup : layers.Nodup)
    {batches : List (List (Page Records))} (h : ∀ batch ∈ batches, Routed layers batch) (layer : UInt8) :
    layerPages layer (batches.flatMap (regroup layers)) = layerPages layer batches.flatten := by
  induction batches with
  | nil => rfl
  | cons batch rest ih =>
    rw [flatMap_cons, flatten_cons, layerPages_append, layerPages_append,
      (h batch mem_cons_self).layerPages_regroup hnodup,
      ih fun other hother => h other (mem_cons_of_mem batch hother)]

theorem ownedQsaLayers_nodup (manifest : Manifest) (rank : UInt8) : (ownedQsaLayers manifest rank).Nodup := by
  have hall : (qsaLayers.map UInt8.ofNat).Nodup := by decide
  exact hall.sublist (filter_sublist.map _)

variable {manifest : Manifest}

theorem mem_ownedQsaLayers {rank layer : UInt8}
    (h : ownedQsaLayer manifest rank layer.toNat = true) : layer ∈ ownedQsaLayers manifest rank := by
  simp only [ownedQsaLayer, Bool.and_eq_true, decide_eq_true_eq, beq_iff_eq] at h
  obtain ⟨⟨⟨-, hlt⟩, hmod⟩, howner⟩ := h
  apply mem_map.mpr
  refine ⟨layer.toNat, mem_filter.mpr ⟨?_, by simpa using howner⟩, UInt8.ofNat_toNat⟩
  apply mem_map.mpr
  exact ⟨layer.toNat / 4, mem_range.mpr (by omega), by omega⟩

theorem Extends.routed {guard : Guard} {frontier frontier' : Nat → UInt32}
    {pages : List (Page Records)} (h : Extends guard manifest frontier frontier' (fun _ => 0) pages) :
    Routed (ownedQsaLayers manifest guard.rank) pages where
  owned page hpage := mem_ownedQsaLayers (h.owned page hpage)
  capped layer := by
    have hlength : (layerPages layer pages).length = (layerBlocks pages layer.toNat).length := by
      simp only [layerPages, layerBlocks, length_map, UInt8.toNat_inj]
    rw [hlength]
    by_cases hnil : layerBlocks pages layer.toNat = []
    · rw [hnil]
      exact Nat.zero_le _
    · have := h.capped layer.toNat hnil
      omega

/-! ## What the message thread can do to the queue -/

def Runtime.queue (runtime : Runtime Records) : List (List (Page Records)) :=
  Ring.contents writeDepth runtime.writeHead runtime.writeCount runtime.writeQueue

/-- Nothing the writer reads has changed. -/
structure SameQueue (runtime after : Runtime Records) : Prop where
  rank : after.guard.rank = runtime.guard.rank
  layers : after.layers = runtime.layers
  writeQueue : after.writeQueue = runtime.writeQueue
  writeHead : after.writeHead = runtime.writeHead
  writeCount : after.writeCount = runtime.writeCount
  writerStatus : after.writerStatus = runtime.writerStatus

theorem SameQueue.refl (runtime : Runtime Records) : SameQueue runtime runtime :=
  ⟨rfl, rfl, rfl, rfl, rfl, rfl⟩

def Runtime.enqueued (runtime : Runtime Records) (pages : List (Page Records)) (next : Guard) :
    Runtime Records :=
  { runtime with
    writeQueue := Function.update runtime.writeQueue
      (Ring.slot writeDepth runtime.writeHead runtime.writeCount) pages
    writeCount := runtime.writeCount + 1
    guard := next }

theorem writerEnqueue_cases (runtime : Runtime Records) (batch : PageBatch Records) :
    (∃ err, writerEnqueue runtime batch = (.error err, runtime)) ∨
    (runtime.writerStatus = .ok () ∧ runtime.writeCount ≠ writeDepth ∧
      writerEnqueue runtime batch = (.ok (), runtime.enqueued batch.pages runtime.guard)) := by
  unfold writerEnqueue
  split
  · exact .inl ⟨_, rfl⟩
  next hok =>
    split
    · exact .inl ⟨_, rfl⟩
    next hroom => exact .inr ⟨hok, hroom, rfl⟩

theorem handleQsaPageAppend_cases (manifest : Manifest) (runtime : Runtime Records) (frame : PageFrame Records) :
    (∃ err, handleQsaPageAppend manifest runtime frame = (.error err, runtime)) ∨
    ∃ next, runtime.enabled = true ∧ runtime.writerStatus = .ok () ∧ runtime.writeCount ≠ writeDepth ∧
      next.rank = runtime.guard.rank ∧ Routed (ownedQsaLayers manifest runtime.guard.rank) frame.batch.pages ∧
      handleQsaPageAppend manifest runtime frame = (.ok (), runtime.enqueued frame.batch.pages next) := by
  unfold handleQsaPageAppend
  split
  · exact .inl ⟨_, rfl⟩
  next hopen =>
  simp only [not_or, Bool.not_eq_true', Bool.not_eq_false] at hopen
  split
  · exact .inl ⟨_, rfl⟩
  · exact .inl ⟨_, rfl⟩
  split
  · exact .inl ⟨_, rfl⟩
  rcases guardAcceptAppend_cases runtime.guard manifest frame.requestId frame.batch with
    ⟨err, hguard⟩ | ⟨-, -, frontier, hext, hguard⟩
  · rw [hguard]
    exact .inl ⟨err, rfl⟩
  · rw [hguard]
    rcases writerEnqueue_cases runtime frame.batch with ⟨err, heq⟩ | ⟨hok, hroom, heq⟩
    · rw [heq]
      exact .inl ⟨err, rfl⟩
    · rw [heq]
      refine .inr ⟨{ runtime.guard with nextToken := frontier, nextAppendBatch := _ }, hopen.1, hok, hroom,
        rfl, hext.routed, rfl⟩

variable {runtime : Runtime Records}

variable {answer : Except Error Unit × Runtime Records}

theorem handleQsaPageBarrier_sameQueue {peer : Nat} {requestId : UInt64}
    {sequence : UInt32} {barrier : PageBarrier}
    (h : handleQsaPageBarrier runtime peer requestId sequence barrier = some answer) :
    SameQueue runtime answer.2 := by
  unfold handleQsaPageBarrier at h
  split at h
  · exact Option.some.inj h ▸ .refl runtime
  split at h
  · exact Option.some.inj h ▸ .refl runtime
  split at h
  · exact Option.some.inj h ▸ .refl runtime
  · obtain ⟨_, -, rfl⟩ := Option.map_eq_some_iff.mp h
    exact .refl runtime

variable {frame : PageFrame Records}

theorem handleQsaPageFetch_sameQueue
    (h : handleQsaPageFetch manifest runtime frame = some answer) : SameQueue runtime answer.2 := by
  unfold handleQsaPageFetch at h
  split at h
  · exact Option.some.inj h ▸ .refl runtime
  split at h
  · exact Option.some.inj h ▸ .refl runtime
  split at h
  · exact Option.some.inj h ▸ .refl runtime
  rcases guardAcceptFetch_cases runtime.guard manifest frame.requestId frame.batch with
    ⟨err, hguard⟩ | ⟨-, -, -, hguard⟩
  · rw [hguard] at h
    exact Option.some.inj h ▸ .refl runtime
  · rw [hguard] at h
    obtain ⟨_, -, rfl⟩ := Option.map_eq_some_iff.mp h
    exact ⟨rfl, rfl, rfl, rfl, rfl, rfl⟩

theorem publishQsaPages_sameQueue (runtime : Runtime Records) (firstToken : UInt32) (tokenCount : UInt16)
    (stateSlot : UInt32) : SameQueue runtime (publishQsaPages runtime firstToken tokenCount stateSlot) := by
  unfold publishQsaPages
  split
  · exact .refl runtime
  · exact ⟨rfl, rfl, rfl, rfl, rfl, rfl⟩

theorem reopenState_sameQueue (manifest : Manifest) (runtime : Runtime Records) (request : SessionRequest)
    (path : String) : SameQueue runtime (reopenState manifest runtime request path).2 := by
  unfold reopenState
  split
  · split <;> exact .refl runtime
  · split <;> exact ⟨rfl, rfl, rfl, rfl, rfl, rfl⟩

theorem writerDrain_ok (henabled : runtime.enabled = true)
    {answer : Except Error Unit} (h : writerDrain runtime = some answer) :
    runtime.writeCount = 0 ∧ runtime.writerStatus = answer := by
  unfold writerDrain at h
  rw [henabled, Bool.not_true, if_neg Bool.false_ne_true] at h
  split at h
  · cases h
  next hcount => exact ⟨not_not.mp hcount, Option.some.inj h⟩

theorem openSession_sameQueue {request : SessionRequest}
    (h : openSession manifest runtime request = some answer) : SameQueue runtime answer.2 := by
  unfold openSession at h
  split at h
  · exact Option.some.inj h ▸ .refl runtime
  next henabled =>
    rw [Bool.not_eq_true', Bool.not_eq_false] at henabled
    rcases guardBegin_cases runtime.guard manifest request.identitySha256 request.requestId request.control with
      ⟨err, hguard⟩ | ⟨-, hguard⟩
    · rw [hguard] at h
      exact Option.some.inj h ▸ .refl runtime
    · rw [hguard] at h
      obtain ⟨drained, hdrain, rfl⟩ := Option.map_eq_some_iff.mp h
      obtain ⟨-, hstatus⟩ := writerDrain_ok henabled hdrain
      split
      · exact .refl runtime
      · dsimp only
        split
        · exact .refl runtime
        · have hsame := reopenState_sameQueue manifest runtime request (statePath request.directory
            runtime.guard.rank ((request.control.map Control.stateSlot).getD 0))
          split
          next heq => exact heq ▸ hsame
          next heq =>
            rw [heq] at hsame
            exact ⟨rfl, hsame.layers, hsame.writeQueue, hsame.writeHead, hsame.writeCount, hstatus.symm⟩

/-! ## Runs of the two threads -/

/-- What has been written: the batches that left the queue, and of the one at its head the first `slot`
layers. -/
def System.Progress (system : System Records) (slot : Nat) : Prop :=
  ∃ finished, system.accepted = finished ++ system.runtime.queue ∧
    system.written = finished.flatMap (regroup system.runtime.layers) ++
      regroup (system.runtime.layers.take slot) (system.runtime.writeQueue system.runtime.writeHead)

/-- The pages of the head slot that belong to layer number `slot` among the first `i`. -/
def Runtime.gathered (runtime : Runtime Records) (slot i : Nat) : List (Page Records) :=
  ((runtime.writeQueue runtime.writeHead).take i).filter fun page => runtime.layers[slot]? = some page.layer

/-- The writer at page `i` of the head slot for layer number `slot`, with all it should have copied. -/
def Runtime.place (runtime : Runtime Records) (slot i : Nat) : Writer Records :=
  .gathering runtime.writeHead (runtime.writeQueue runtime.writeHead).length slot i (runtime.gathered slot i)

inductive System.At (system : System Records) : Prop where
  | idle (hwriter : system.writer = .idle) (hprogress : system.Progress 0)
  | gathering {slot i : Nat}
      (hwriter : system.writer = system.runtime.place slot i)
      (hcount : 0 < system.runtime.writeCount) (hslot : slot ≤ system.runtime.layers.length)
      (hprogress : system.Progress slot)
  | failed {err : Error} {slot : Nat} (hwriter : system.writer = .failed err)
      (hcount : 0 < system.runtime.writeCount) (hprogress : system.Progress slot)

/-- Each layer's pages reach the file in the order they were accepted. -/
def System.InOrder (system : System Records) : Prop :=
  ∀ layer, layerPages layer system.written <+: layerPages layer system.accepted.flatten

structure Sound (manifest : Manifest) (system : System Records) : Prop where
  layers : system.runtime.layers = ownedQsaLayers manifest system.runtime.guard.rank
  routed : ∀ batch ∈ system.accepted, Routed system.runtime.layers batch
  head_lt : system.runtime.writeHead < writeDepth
  room : system.runtime.writeCount ≤ writeDepth
  disabled : system.runtime.enabled = false → system.runtime.writeCount = 0
  running : system.runtime.writerStatus = .ok () → system.At
  stopped : ∀ err, system.runtime.writerStatus = .error err → system.writer = .idle ∧
    system.runtime.writeCount = 0 ∧ system.InOrder ∧ system.runtime.enabled = true

theorem Runtime.queue_eq_cons (hhead : runtime.writeHead < writeDepth) (hcount : 0 < runtime.writeCount) :
    runtime.queue = runtime.writeQueue runtime.writeHead :: (retireSlot runtime (.ok ())).queue := by
  obtain ⟨count, hcount⟩ := Nat.exists_eq_add_one.mpr hcount
  rw [Runtime.queue, hcount]
  show _ = _ :: Ring.contents _ _ (runtime.writeCount - 1) _
  rw [hcount, Ring.contents_succ hhead]
  rfl

theorem Runtime.queue_enqueued (hroom : runtime.writeCount < writeDepth)
    (pages : List (Page Records)) (next : Guard) :
    (runtime.enqueued pages next).queue = runtime.queue ++ [pages] :=
  Ring.contents_push hroom runtime.writeQueue pages

theorem Runtime.head_enqueued (hhead : runtime.writeHead < writeDepth)
    (hcount : 0 < runtime.writeCount) (hroom : runtime.writeCount < writeDepth)
    (pages : List (Page Records)) (next : Guard) :
    (runtime.enqueued pages next).writeQueue runtime.writeHead = runtime.writeQueue runtime.writeHead := by
  have hne := @Ring.slot_ne_of_free writeDepth runtime.writeHead runtime.writeCount 0 runtime.writeCount
    hcount (Nat.le_refl _) hroom
  rw [Ring.slot_zero hhead] at hne
  exact Function.update_of_ne hne _ _

theorem Runtime.place_enqueued (hhead : runtime.writeHead < writeDepth)
    (hcount : 0 < runtime.writeCount) (hroom : runtime.writeCount < writeDepth)
    (pages : List (Page Records)) (next : Guard) (slot i : Nat) :
    (runtime.enqueued pages next).place slot i = runtime.place slot i := by
  have hbatch := Runtime.head_enqueued hhead hcount hroom pages next
  have hindex : (runtime.enqueued pages next).writeHead = runtime.writeHead := rfl
  have hlayers : (runtime.enqueued pages next).layers = runtime.layers := rfl
  simp only [Runtime.place, Runtime.gathered, hindex, hlayers, hbatch]

variable {system : System Records}

theorem System.Progress.inOrder {slot : Nat} (h : system.Progress slot) (hnodup : system.runtime.layers.Nodup)
    (hrouted : ∀ batch ∈ system.accepted, Routed system.runtime.layers batch)
    (hhead : system.runtime.writeHead < writeDepth) (hcount : 0 < system.runtime.writeCount ∨ slot = 0) :
    system.InOrder := by
  obtain ⟨finished, haccepted, hwritten⟩ := h
  intro layer
  have hfinished : layerPages layer (finished.flatMap (regroup system.runtime.layers)) =
      layerPages layer finished.flatten := by
    apply layerPages_flatMap_regroup hnodup
    intro batch hbatch
    apply hrouted
    rw [haccepted]
    exact mem_append_left _ hbatch
  rw [hwritten, haccepted, flatten_append, layerPages_append, layerPages_append, hfinished,
    prefix_append_right_inj, layerPages_regroup (hnodup.sublist (take_sublist ..))]
  split
  next hmem =>
    rcases hcount with hcount | rfl
    · rw [Runtime.queue_eq_cons hhead hcount, flatten_cons, layerPages_append]
      exact prefix_append _ _
    · simp at hmem
  · exact nil_prefix

theorem System.At.inOrder (hat : system.At) (h : Sound manifest system) : system.InOrder := by
  have hnodup : system.runtime.layers.Nodup := h.layers ▸ ownedQsaLayers_nodup _ _
  cases hat with
  | idle _ hprogress => exact hprogress.inOrder hnodup h.routed h.head_lt (.inr rfl)
  | gathering _ hcount _ hprogress => exact hprogress.inOrder hnodup h.routed h.head_lt (.inl hcount)
  | failed _ hcount hprogress => exact hprogress.inOrder hnodup h.routed h.head_lt (.inl hcount)

theorem Sound.inOrder (h : Sound manifest system) : system.InOrder := by
  cases hstatus : system.runtime.writerStatus with
  | ok _ => exact (h.running hstatus).inOrder h
  | error err => exact (h.stopped err hstatus).2.2.1

theorem Sound.status_ok (h : Sound manifest system)
    (hbusy : system.writer ≠ .idle) : system.runtime.writerStatus = .ok () := by
  cases hstatus : system.runtime.writerStatus with
  | ok _ => rfl
  | error err => exact absurd (h.stopped err hstatus).1 hbusy

theorem runtimeCreate_sound {rank : UInt32}
    (h : runtimeCreate manifest rank = .ok runtime) : Sound manifest ⟨runtime, .idle, [], []⟩ := by
  unfold runtimeCreate at h
  simp only at h
  split at h
  · cases h
  · obtain rfl := Except.ok.inj h
    refine ⟨rfl, by simp, show 0 < 8 by decide, Nat.zero_le 8, fun _ => rfl,
      fun _ => .idle rfl ⟨[], rfl, rfl⟩, fun err herr => ?_⟩
    cases herr

theorem Sound.sameQueue (h : Sound manifest system)
    {after : Runtime Records} (hsame : SameQueue system.runtime after) :
    Sound manifest { system with runtime := after } := by
  obtain ⟨guard, layers, stateOpen, statePath, writeQueue, writeHead, writeCount, writerStatus⟩ := after
  obtain ⟨hrank, hlayers, hqueue, hhead, hcount, hstatus⟩ := hsame
  subst hlayers hqueue hhead hcount hstatus
  refine ⟨hrank ▸ h.layers, h.routed, h.head_lt, h.room, h.disabled, fun hok => ?_, h.stopped⟩
  cases h.running hok with
  | idle hwriter hprogress => exact .idle hwriter hprogress
  | gathering hwriter hcount hslot hprogress => exact .gathering hwriter hcount hslot hprogress
  | failed hwriter hcount hprogress => exact .failed hwriter hcount hprogress

theorem System.Progress.enqueue {slot : Nat} (h : system.Progress slot)
    (hhead : system.runtime.writeHead < writeDepth) (hroom : system.runtime.writeCount < writeDepth)
    (hcount : 0 < system.runtime.writeCount ∨ slot = 0) (pages : List (Page Records)) (next : Guard) :
    System.Progress { system with
      runtime := system.runtime.enqueued pages next
      accepted := system.accepted ++ [pages] } slot := by
  obtain ⟨finished, haccepted, hwritten⟩ := h
  refine ⟨finished, ?_, ?_⟩
  · rw [Runtime.queue_enqueued hroom, haccepted, append_assoc]
  · show system.written = _
    rw [hwritten]
    rcases hcount with hcount | rfl
    · exact congrArg (fun batch => _ ++ regroup _ batch)
        (Runtime.head_enqueued hhead hcount hroom pages next).symm
    · rfl

variable {system after : System Records}

theorem Sound.append (h : Sound manifest system) (hstep : step manifest system (.append frame) = some after) :
    Sound manifest after := by
  simp only [step] at hstep
  rcases handleQsaPageAppend_cases manifest system.runtime frame with
    ⟨err, heq⟩ | ⟨next, henabled, hok, hfull, hrank, hrouted, heq⟩
  · rw [heq] at hstep
    exact Option.some.inj hstep ▸ h
  · rw [heq] at hstep
    obtain rfl := Option.some.inj hstep
    have hroom := Nat.lt_of_le_of_ne h.room hfull
    rw [← h.layers] at hrouted
    refine ⟨hrank ▸ h.layers, ?_, h.head_lt, hroom, fun hnot => ?_, fun _ => ?_, fun err herr => ?_⟩
    · intro batch hbatch
      rcases mem_append.mp hbatch with hold | hnew
      · exact h.routed batch hold
      · exact mem_singleton.mp hnew ▸ hrouted
    · cases henabled.symm.trans hnot
    · cases h.running hok with
      | idle hwriter hprogress =>
        exact .idle hwriter (hprogress.enqueue h.head_lt hroom (.inr rfl) _ _)
      | gathering hwriter hcount hslot hprogress =>
        -- the writer is reading the head slot, which the enqueue has spared
        have hplace := Runtime.place_enqueued h.head_lt hcount hroom frame.batch.pages next
        exact .gathering (hwriter.trans (hplace _ _).symm) (Nat.succ_pos _) hslot
          (hprogress.enqueue h.head_lt hroom (.inl hcount) _ _)
      | failed hwriter hcount hprogress =>
        exact .failed hwriter (Nat.succ_pos _) (hprogress.enqueue h.head_lt hroom (.inl hcount) _ _)
    · cases hok.symm.trans herr

theorem Sound.take (h : Sound manifest system)
    (hstep : step manifest system .take = some after) : Sound manifest after := by
  simp only [step] at hstep
  split at hstep
  next hidle =>
    simp only [Option.ite_none_right_eq_some, Option.some.injEq] at hstep
    obtain ⟨⟨-, hcount⟩, rfl⟩ := hstep
    refine ⟨h.layers, h.routed, h.head_lt, h.room, h.disabled, fun hok => ?_, fun err herr => ?_⟩
    · cases h.running hok with
      | idle _ hprogress => exact .gathering rfl (Nat.pos_of_ne_zero hcount) (Nat.zero_le _) hprogress
      | gathering hwriter => cases hidle.symm.trans hwriter
      | failed hwriter => cases hidle.symm.trans hwriter
    · exact absurd (h.stopped err herr).2.1 hcount
  · cases hstep

variable {slot i : Nat}

theorem Runtime.gathered_succ {page : Page Records} (hpage : (runtime.writeQueue runtime.writeHead)[i]? = some page) :
    runtime.gathered slot (i + 1) =
      if runtime.layers[slot]? = some page.layer then runtime.gathered slot i ++ [page]
      else runtime.gathered slot i := by
  rw [Runtime.gathered, take_add_one, hpage, filter_append]
  split
  next hlayer => simp [Runtime.gathered, hlayer]
  next hlayer => simp [Runtime.gathered, hlayer]

theorem Runtime.gathered_lt {page : Page Records}
    (hrouted : Routed runtime.layers (runtime.writeQueue runtime.writeHead))
    (hpage : (runtime.writeQueue runtime.writeHead)[i]? = some page)
    (hlayer : runtime.layers[slot]? = some page.layer) :
    (runtime.gathered slot i).length < appendLayerMaxPages := by
  have hnext := @Runtime.gathered_succ _ _ slot _ _ hpage
  rw [if_pos hlayer] at hnext
  have hsub : (runtime.gathered slot (i + 1)).Sublist
      (layerPages page.layer (runtime.writeQueue runtime.writeHead)) := by
    have hfilter : (fun other : Page Records => decide (runtime.layers[slot]? = some other.layer)) =
        fun other => decide (other.layer = page.layer) := by
      funext other
      rw [hlayer]
      simp [eq_comm]
    rw [Runtime.gathered, hfilter]
    exact (take_sublist _ _).filter _
  have hle := Nat.le_trans hsub.length_le (hrouted.capped page.layer)
  rw [hnext, length_append, length_singleton] at hle
  exact hle

theorem Sound.head_routed (h : Sound manifest system)
    {slot : Nat} (hprogress : system.Progress slot) (hcount : 0 < system.runtime.writeCount) :
    Routed system.runtime.layers (system.runtime.writeQueue system.runtime.writeHead) := by
  obtain ⟨finished, haccepted, -⟩ := hprogress
  apply h.routed
  rw [haccepted, Runtime.queue_eq_cons h.head_lt hcount]
  exact mem_append_right _ mem_cons_self

theorem gatherPage_eq_place (hrouted : Routed runtime.layers (runtime.writeQueue runtime.writeHead))
    (hi : i < (runtime.writeQueue runtime.writeHead).length) :
    gatherPage runtime runtime.writeHead (runtime.writeQueue runtime.writeHead).length slot i
      (runtime.gathered slot i) = runtime.place slot (i + 1) := by
  have hpage := List.getElem?_eq_getElem hi
  simp only [gatherPage, hpage, Runtime.place]
  split
  next hlayer =>
    have hlt := Runtime.gathered_lt hrouted hpage hlayer
    rw [if_neg (Nat.not_le.mpr hlt), Runtime.gathered_succ hpage, if_pos hlayer]
  next hlayer => rw [Runtime.gathered_succ hpage, if_neg hlayer]

theorem Sound.gather (h : Sound manifest system)
    (hstep : step manifest system .gather = some after) : Sound manifest after := by
  simp only [step] at hstep
  split at hstep
  next index pageCount slot i gathered hgathering =>
    simp only [Option.ite_none_right_eq_some, Option.some.injEq] at hstep
    obtain ⟨⟨hslot, hi⟩, rfl⟩ := hstep
    have hok := h.status_ok (by simp [hgathering])
    refine ⟨h.layers, h.routed, h.head_lt, h.room, h.disabled, fun _ => ?_, fun err herr => ?_⟩
    · cases h.running hok with
      | idle hwriter => cases hgathering.symm.trans hwriter
      | failed hwriter => cases hgathering.symm.trans hwriter
      | gathering hwriter hcount hle hprogress =>
        cases hgathering.symm.trans hwriter
        exact .gathering (gatherPage_eq_place (h.head_routed hprogress hcount) hi) hcount hle hprogress
    · cases hok.symm.trans herr
  · cases hstep

theorem Runtime.gathered_all
    (hslot : slot < runtime.layers.length) (hi : (runtime.writeQueue runtime.writeHead).length ≤ i) :
    runtime.gathered slot i = layerPages runtime.layers[slot] (runtime.writeQueue runtime.writeHead) := by
  rw [Runtime.gathered, take_of_length_le hi, List.getElem?_eq_getElem hslot]
  simp only [layerPages, Option.some.injEq, eq_comm]

theorem System.Progress.write (h : system.Progress slot) (hslot : slot < system.runtime.layers.length)
    (hi : (system.runtime.writeQueue system.runtime.writeHead).length ≤ i) {writer : Writer Records} :
    System.Progress { system with
      writer := writer
      written := system.written ++ system.runtime.gathered slot i } (slot + 1) := by
  obtain ⟨finished, haccepted, hwritten⟩ := h
  refine ⟨finished, haccepted, ?_⟩
  show system.written ++ _ = _
  rw [hwritten, Runtime.gathered_all hslot hi, append_assoc]
  congr 1
  rw [regroup, regroup, take_succ_eq_append_getElem hslot, flatMap_append]
  simp

theorem Sound.write (h : Sound manifest system)
    {outcome : Except Error Unit} (hstep : step manifest system (.write outcome) = some after) :
    Sound manifest after := by
  simp only [step] at hstep
  split at hstep
  next index pageCount slot i gathered hgathering =>
    rw [Option.ite_none_right_eq_some] at hstep
    obtain ⟨⟨hslot, hi⟩, hstep⟩ := hstep
    have hok := h.status_ok (by simp [hgathering])
    cases h.running hok with
    | idle hwriter => cases hgathering.symm.trans hwriter
    | failed hwriter => cases hgathering.symm.trans hwriter
    | gathering hwriter hcount hle hprogress =>
      cases hgathering.symm.trans hwriter
      have hwrite := fun writer => @System.Progress.write _ _ _ _ hprogress hslot hi writer
      split at hstep
      next hempty =>
        -- no page of this layer: nothing to write
        obtain rfl := Option.some.inj hstep
        rw [List.isEmpty_iff] at hempty
        rw [hempty, append_nil] at hwrite
        refine ⟨h.layers, h.routed, h.head_lt, h.room, h.disabled, fun _ => ?_, fun err herr => ?_⟩
        · exact .gathering rfl hcount hslot (hwrite _)
        · cases hok.symm.trans herr
      · cases outcome with
        | error err =>
          obtain rfl := Option.some.inj hstep
          refine ⟨h.layers, h.routed, h.head_lt, h.room, h.disabled, fun _ => ?_, fun err herr => ?_⟩
          · exact .failed rfl hcount hprogress
          · cases hok.symm.trans herr
        | ok _ =>
          obtain rfl := Option.some.inj hstep
          refine ⟨h.layers, h.routed, h.head_lt, h.room, h.disabled, fun _ => ?_, fun err herr => ?_⟩
          · exact .gathering rfl hcount hslot (hwrite _)
          · cases hok.symm.trans herr
  · cases hstep

theorem Sound.retire (h : Sound manifest system)
    (hstep : step manifest system .retire = some after) : Sound manifest after := by
  simp only [step] at hstep
  split at hstep
  next index pageCount slot i gathered hgathering =>
    rw [Option.ite_none_right_eq_some] at hstep
    obtain ⟨hdone, hstep⟩ := hstep
    obtain rfl := Option.some.inj hstep
    have hok := h.status_ok (by simp [hgathering])
    have hroom := h.room
    refine ⟨h.layers, h.routed, Nat.mod_lt _ (by decide), ?_, fun hnot => ?_, fun _ => ?_, fun err herr => ?_⟩
    · show system.runtime.writeCount - 1 ≤ writeDepth
      omega
    · have hzero : system.runtime.writeCount = 0 := h.disabled hnot
      show system.runtime.writeCount - 1 = 0
      omega
    · cases h.running hok with
      | idle hwriter => cases hgathering.symm.trans hwriter
      | failed hwriter => cases hgathering.symm.trans hwriter
      | gathering hwriter hcount hle hprogress =>
        cases hgathering.symm.trans hwriter
        obtain ⟨finished, haccepted, hwritten⟩ := hprogress
        refine .idle rfl ⟨finished ++ [system.runtime.writeQueue system.runtime.writeHead], ?_, ?_⟩
        · rw [append_assoc, singleton_append]
          exact haccepted.trans (congrArg _ (Runtime.queue_eq_cons h.head_lt hcount))
        · rw [take_of_length_le hdone] at hwritten
          refine hwritten.trans ?_
          rw [flatMap_append, append_assoc]
          simp [regroup, retireSlot]
    · cases hok.symm.trans herr
  next err hfailed =>
    obtain rfl := Option.some.inj hstep
    have hok := h.status_ok (by simp [hfailed])
    have horder := h.inOrder
    refine ⟨h.layers, h.routed, h.head_lt, Nat.zero_le _, fun _ => rfl, fun hfalse => ?_,
      fun _ _ => ⟨rfl, rfl, horder, ?_⟩⟩
    · simp [retireSlot, hok] at hfalse
    · -- a slot was being written, so there is a layer to write it to
      by_contra hnot
      have hzero := h.disabled (Bool.not_eq_true _ ▸ hnot)
      cases h.running hok with
      | idle hwriter => cases hfailed.symm.trans hwriter
      | gathering _ hcount => omega
      | failed _ hcount => omega
  · cases hstep

variable {action : Action Records}

theorem step_sound
    (h : Sound manifest system) (hstep : step manifest system action = some after) : Sound manifest after := by
  cases action with
  | append frame => exact h.append hstep
  | barrier peer requestId sequence barrier =>
    obtain ⟨answer, hanswer, rfl⟩ := Option.map_eq_some_iff.mp hstep
    exact h.sameQueue (handleQsaPageBarrier_sameQueue hanswer)
  | fetch frame =>
    obtain ⟨answer, hanswer, rfl⟩ := Option.map_eq_some_iff.mp hstep
    exact h.sameQueue (handleQsaPageFetch_sameQueue hanswer)
  | openSession request =>
    obtain ⟨answer, hanswer, rfl⟩ := Option.map_eq_some_iff.mp hstep
    exact h.sameQueue (openSession_sameQueue hanswer)
  | publish firstToken tokenCount stateSlot =>
    obtain rfl := Option.some.inj hstep
    exact h.sameQueue (publishQsaPages_sameQueue ..)
  | take => exact h.take hstep
  | gather => exact h.gather hstep
  | write outcome => exact h.write hstep
  | retire => exact h.retire hstep

/-- A write has failed: the writer is on its way to say so, or has said it. -/
def System.Broken (system : System Records) : Prop :=
  (∃ err, system.runtime.writerStatus = .error err) ∨ ∃ err, system.writer = .failed err

theorem step_message
    (hstep : step manifest system action = some after) (htake : action ≠ .take) (hgather : action ≠ .gather)
    (hwrite : ∀ outcome, action ≠ .write outcome) (hretire : action ≠ .retire) :
    after.writer = system.writer ∧ after.written = system.written ∧
      after.runtime.writerStatus = system.runtime.writerStatus := by
  cases action with
  | append frame =>
    simp only [step] at hstep
    rcases handleQsaPageAppend_cases manifest system.runtime frame with ⟨_, heq⟩ | ⟨_, _, _, _, _, _, heq⟩ <;>
      rw [heq] at hstep <;> obtain rfl := Option.some.inj hstep <;> exact ⟨rfl, rfl, rfl⟩
  | barrier peer requestId sequence barrier =>
    obtain ⟨answer, hanswer, rfl⟩ := Option.map_eq_some_iff.mp hstep
    exact ⟨rfl, rfl, (handleQsaPageBarrier_sameQueue hanswer).writerStatus⟩
  | fetch frame =>
    obtain ⟨answer, hanswer, rfl⟩ := Option.map_eq_some_iff.mp hstep
    exact ⟨rfl, rfl, (handleQsaPageFetch_sameQueue hanswer).writerStatus⟩
  | openSession request =>
    obtain ⟨answer, hanswer, rfl⟩ := Option.map_eq_some_iff.mp hstep
    exact ⟨rfl, rfl, (openSession_sameQueue hanswer).writerStatus⟩
  | publish firstToken tokenCount stateSlot =>
    obtain rfl := Option.some.inj hstep
    exact ⟨rfl, rfl, (publishQsaPages_sameQueue ..).writerStatus⟩
  | take => exact absurd rfl htake
  | gather => exact absurd rfl hgather
  | write outcome => exact absurd rfl (hwrite outcome)
  | retire => exact absurd rfl hretire

theorem step_status_error {err : Error} (h : Sound manifest system) (herr : system.runtime.writerStatus = .error err)
    (hstep : step manifest system action = some after) :
    after.runtime.writerStatus = .error err ∧ after.written = system.written := by
  obtain ⟨hidle, hcount, -⟩ := h.stopped err herr
  obtain ⟨-, hwritten, hstatus⟩ := step_message hstep (by rintro rfl; simp [step, hidle, hcount] at hstep)
    (by rintro rfl; simp [step, hidle] at hstep) (by rintro outcome rfl; simp [step, hidle] at hstep)
    (by rintro rfl; simp [step, hidle] at hstep)
  exact ⟨hstatus.trans herr, hwritten⟩

theorem step_broken
    (h : Sound manifest system) (hbroken : system.Broken) (hstep : step manifest system action = some after) :
    after.Broken ∧ after.written = system.written := by
  rcases hbroken with ⟨err, herr⟩ | ⟨err, hfailed⟩
  · obtain ⟨hstatus, hwritten⟩ := step_status_error h herr hstep
    exact ⟨.inl ⟨err, hstatus⟩, hwritten⟩
  · by_cases hretire : action = .retire
    · subst hretire
      have hok := h.status_ok (by simp [hfailed])
      simp only [step, hfailed, Option.some.injEq] at hstep
      subst hstep
      exact ⟨.inl ⟨err, by simp [retireSlot, hok]⟩, rfl⟩
    · obtain ⟨hwriter, hwritten, -⟩ := step_message hstep (by rintro rfl; simp [step, hfailed] at hstep)
        (by rintro rfl; simp [step, hfailed] at hstep)
        (by rintro outcome rfl; simp [step, hfailed] at hstep) hretire
      exact ⟨.inr ⟨err, hwriter.trans hfailed⟩, hwritten⟩

variable {actions : List (Action Records)}

section

variable (h : Sound manifest system)
include h

theorem exec_sound (hrun : Runs.exec (step manifest) system actions = some after) :
    Sound manifest after :=
  Runs.exec_invariant_always (fun _ _ _ hs hstep => step_sound hs hstep) h hrun

theorem exec_broken (hbroken : system.Broken)
    (hrun : Runs.exec (step manifest) system actions = some after) : after.written = system.written :=
  (Runs.exec_frozen (fun _ _ _ => step_sound) (fun _ _ _ => step_broken) h hbroken hrun).2.2

theorem exec_status_error {err : Error} (herr : system.runtime.writerStatus = .error err)
    (hrun : Runs.exec (step manifest) system actions = some after) :
    Sound manifest after ∧ after.runtime.writerStatus = .error err := by
  obtain ⟨hsound, hstatus, -⟩ := Runs.exec_frozen (fun _ _ _ => step_sound) (fun _ _ _ => step_status_error) h herr hrun
  exact ⟨hsound, hstatus⟩

/-! ## The writer alone empties the queue -/

theorem Sound.drained (hok : system.runtime.writerStatus = .ok ()) (hcount : system.runtime.writeCount = 0) (layer : UInt8) :
    layerPages layer system.written = layerPages layer system.accepted.flatten := by
  cases h.running hok with
  | idle hwriter hprogress =>
    obtain ⟨finished, haccepted, hwritten⟩ := hprogress
    have hqueue : system.runtime.queue = [] := by rw [Runtime.queue, hcount]; rfl
    rw [hqueue, append_nil] at haccepted
    rw [hwritten, take_zero, regroup, flatMap_nil, append_nil, haccepted]
    apply layerPages_flatMap_regroup (h.layers ▸ ownedQsaLayers_nodup _ _)
    intro batch hbatch
    exact h.routed batch (haccepted ▸ hbatch)
  | gathering _ hpos => omega
  | failed _ hpos => omega

end

/-- The steps of a writer whose writes succeed. -/
def Action.Delivers : Action Records → Prop
  | .take => True
  | .gather => True
  | .write outcome => outcome = .ok ()
  | .retire => True
  | _ => False

/-- A run of such steps after which every accepted page has been written. -/
def System.Empties (manifest : Manifest) (system : System Records) : Prop :=
  ∃ more after, (∀ action ∈ more, Action.Delivers action) ∧
    Runs.exec (step manifest) system more = some after ∧
    ∀ layer, layerPages layer after.written = layerPages layer system.accepted.flatten

theorem System.Empties.step {system next : System Records}
    (hnext : next.Empties manifest) (hstep : step manifest system action = some next)
    (hdelivers : action.Delivers) (haccepted : next.accepted = system.accepted) :
    system.Empties manifest := by
  obtain ⟨more, after, hmore, hrun, hwritten⟩ := hnext
  refine ⟨action :: more, after, ?_, Runs.exec_cons_eq_some.mpr ⟨next, hstep, hrun⟩, haccepted ▸ hwritten⟩
  rintro other (_ | ⟨_, hother⟩)
  · exact hdelivers
  · exact hmore other hother

section Place

variable {manifest : Manifest} {count : Nat}
  (hnext : ∀ system : System Records, Sound manifest system → system.runtime.writerStatus = .ok () →
    system.writer = .idle → system.runtime.writeCount = count → system.Empties manifest)

include hnext

theorem Sound.empties_place {system : System Records} (h : Sound manifest system)
    (hwriter : system.writer = system.runtime.place slot i)
    (hcount : system.runtime.writeCount = count + 1) : system.Empties manifest := by
  have hok := h.status_ok (by simp [hwriter, Runtime.place])
  induction hlayers : system.runtime.layers.length - slot generalizing system slot i with
  | zero =>
    have hstep : QsaOwner.step manifest system .retire = some { system with
        runtime := retireSlot system.runtime (.ok ())
        writer := .idle } := by
      simp only [QsaOwner.step, hwriter, Runtime.place]
      rw [if_pos (by omega)]
    refine (hnext _ (h.retire hstep) hok rfl ?_).step hstep trivial rfl
    show system.runtime.writeCount - 1 = count
    omega
  | succ left ihlayer =>
    have hslot : slot < system.runtime.layers.length := by omega
    induction hpages : (system.runtime.writeQueue system.runtime.writeHead).length - i
      generalizing system i with
    | zero =>
      have hi : (system.runtime.writeQueue system.runtime.writeHead).length ≤ i := by omega
      have hstep : ∃ written, QsaOwner.step manifest system (.write (.ok ())) = some { system with
          writer := system.runtime.place (slot + 1) 0
          written := written } := by
        simp only [QsaOwner.step, hwriter, Runtime.place, hslot, hi, and_self, if_true]
        split
        · exact ⟨_, rfl⟩
        · exact ⟨_, rfl⟩
      obtain ⟨written, hstep⟩ := hstep
      refine (ihlayer (h.write hstep) rfl hcount hok ?_).step hstep rfl rfl
      show system.runtime.layers.length - (slot + 1) = left
      omega
    | succ rest ihpage =>
      have hi : i < (system.runtime.writeQueue system.runtime.writeHead).length := by omega
      have hrouted : Routed system.runtime.layers (system.runtime.writeQueue system.runtime.writeHead) := by
        cases h.running hok with
        | idle hidle => cases hidle.symm.trans hwriter
        | failed hfailed => cases hfailed.symm.trans hwriter
        | gathering _ hpos _ hprogress => exact h.head_routed hprogress hpos
      have hstep : QsaOwner.step manifest system .gather = some { system with
          writer := system.runtime.place slot (i + 1) } := by
        simp only [QsaOwner.step, hwriter, Runtime.place, hslot, hi, and_self, if_true]
        rw [gatherPage_eq_place hrouted hi]
        rfl
      refine (ihpage (h.gather hstep) rfl hcount hok hlayers hslot ?_).step hstep trivial rfl
      show (system.runtime.writeQueue system.runtime.writeHead).length - (i + 1) = rest
      omega

end Place

theorem Sound.empties (h : Sound manifest system)
    (hok : system.runtime.writerStatus = .ok ()) (hfailed : ∀ err, system.writer ≠ .failed err) :
    system.Empties manifest := by
  induction hcount : system.runtime.writeCount generalizing system with
  | zero => exact ⟨[], system, by simp, rfl, h.drained hok hcount⟩
  | succ count ih =>
    have hnext : ∀ next : System Records, Sound manifest next → next.runtime.writerStatus = .ok () →
        next.writer = .idle → next.runtime.writeCount = count → next.Empties manifest := by
      intro next hs hs' hidle hc
      exact ih hs hs' (fun err => by simp [hidle]) hc
    cases h.running hok with
    | idle hidle =>
      have henabled : system.runtime.enabled = true := by
        by_contra hnot
        have := h.disabled (Bool.not_eq_true _ ▸ hnot)
        omega
      have hstep : QsaOwner.step manifest system .take = some { system with
          writer := system.runtime.place 0 0 } := by
        simp only [QsaOwner.step, hidle, henabled, hcount, true_and, ne_eq, Nat.add_eq_zero_iff,
          one_ne_zero, and_false, not_false_eq_true, if_true]
        rfl
      exact (Sound.empties_place hnext (h.take hstep) rfl hcount).step hstep trivial rfl
    | gathering hwriter => exact Sound.empties_place hnext h hwriter hcount
    | failed hwriter => exact absurd hwriter (hfailed _)

/-! ## What the writer promises -/

theorem writerDrain_good (h : Sound manifest system)
    (hdrain : writerDrain system.runtime = some (.ok ())) (layer : UInt8) :
    layerPages layer system.written = layerPages layer system.accepted.flatten := by
  by_cases henabled : system.runtime.enabled = true
  · obtain ⟨hcount, hok⟩ := writerDrain_ok henabled hdrain
    exact h.drained hok hcount layer
  · -- without a layer no page was ever accepted
    have hlayers : system.runtime.layers = [] := by simpa [Runtime.enabled] using henabled
    have hnone : layerPages layer system.accepted.flatten = [] := by
      apply filter_eq_nil_iff.mpr
      intro page hpage
      obtain ⟨batch, hbatch, hmem⟩ := mem_flatten.mp hpage
      have := (h.routed batch hbatch).owned page hmem
      rw [hlayers] at this
      cases this
    have horder := h.inOrder layer
    rw [hnone] at horder ⊢
    exact prefix_nil.mp horder

structure Runtime.Refuses (runtime : Runtime Records) (err : Error) : Prop where
  enqueue : ∀ batch, (writerEnqueue runtime batch).1 = .error err
  drain : writerDrain runtime = some (.error err)

theorem Sound.refuses (h : Sound manifest system)
    {err : Error} (herr : system.runtime.writerStatus = .error err) : system.runtime.Refuses err := by
  obtain ⟨-, hcount, -, henabled⟩ := h.stopped err herr
  refine ⟨fun batch => ?_, ?_⟩
  · unfold writerEnqueue
    rw [herr]
  · unfold writerDrain
    rw [henabled, hcount, herr]
    rfl

theorem Sound.append_spares (h : Sound manifest system)
    {index pageCount slot i : Nat} {gathered : List (Page Records)}
    (hwriter : system.writer = .gathering index pageCount slot i gathered)
    (hstep : step manifest system (.append frame) = some after) :
    after.runtime.writeQueue index = system.runtime.writeQueue index := by
  simp only [step] at hstep
  rcases handleQsaPageAppend_cases manifest system.runtime frame with
    ⟨err, heq⟩ | ⟨next, -, hok, hfull, -, -, heq⟩
  · rw [heq] at hstep
    obtain rfl := Option.some.inj hstep
    rfl
  · rw [heq] at hstep
    obtain rfl := Option.some.inj hstep
    cases h.running hok with
    | idle hidle => cases hidle.symm.trans hwriter
    | failed hfailed => cases hfailed.symm.trans hwriter
    | gathering hplace hcount =>
      cases hplace.symm.trans hwriter
      exact Runtime.head_enqueued h.head_lt hcount (Nat.lt_of_le_of_ne h.room hfull) _ _

/-- For every interleaving of the message thread and the writer. Each layer's written pages are the first
of its accepted pages, in accept order and each once; the writer's own steps write the rest, and a drain
that answers `FG_OK` has seen them all written. The slot being read is not overwritten and at most
`writeDepth` batches are held. A failed write is the last one: its error is the one recorded, and from then
on nothing is written and every enqueue and drain answers with it. -/
theorem writer_exact {manifest : Manifest} {rank : UInt32} {runtime : Runtime Records}
    (hcreate : runtimeCreate manifest rank = .ok runtime) {actions : List (Action Records)}
    {system : System Records}
    (hrun : Runs.exec (step manifest) ⟨runtime, .idle, [], []⟩ actions = some system) :
    (∀ layer, layerPages layer system.written <+: layerPages layer system.accepted.flatten) ∧
    (¬ system.Broken → system.Empties manifest) ∧
    (∀ index pageCount slot i gathered, system.writer = .gathering index pageCount slot i gathered →
      ∀ frame after, step manifest system (.append frame) = some after →
        after.runtime.writeQueue index = system.runtime.writeQueue index) ∧
    system.runtime.writeCount ≤ writeDepth ∧
    (writerDrain system.runtime = some (.ok ()) →
      ∀ layer, layerPages layer system.written = layerPages layer system.accepted.flatten) ∧
    (∀ err, system.writer = .failed err → ∀ after, step manifest system .retire = some after →
      after.runtime.writerStatus = .error err) ∧
    (system.Broken → ∀ more after, Runs.exec (step manifest) system more = some after →
      after.written = system.written) ∧
    ∀ err, system.runtime.writerStatus = .error err → ∀ more after,
      Runs.exec (step manifest) system more = some after → after.runtime.Refuses err := by
  have h := exec_sound (runtimeCreate_sound hcreate) hrun
  refine ⟨h.inOrder, fun hwhole => ?_, fun _ _ _ _ _ hwriter _ _ hstep => h.append_spares hwriter hstep,
    h.room, writerDrain_good h, fun err hfailed after hstep => ?_,
    fun hbroken more after hmore => exec_broken h hbroken hmore, fun err herr more after hmore => ?_⟩
  · have hok : system.runtime.writerStatus = .ok () := by
      cases hstatus : system.runtime.writerStatus with
      | ok _ => rfl
      | error err => exact absurd (.inl ⟨err, hstatus⟩) hwhole
    exact h.empties hok fun err hfailed => hwhole (.inr ⟨err, hfailed⟩)
  · have hok := h.status_ok (by simp [hfailed])
    simp only [step, hfailed, Option.some.injEq] at hstep
    rw [← hstep]
    simp [retireSlot, hok]
  · obtain ⟨hsound, hstatus⟩ := exec_status_error h herr hmore
    exact hsound.refuses hstatus

/-- Rank 1 owns layers 3 and 7; the minimum protocol version needs no control record. -/
def sampleManifest : Manifest where
  layerOwner layer := if layer = 3 ∨ layer = 7 then 1 else 0
  protocolVersion := 5
  nativeContext := 8192
  positionMode := 0
  logicalContextTokens := 8192
  rankStateFormatSha256 _ := Vector.replicate 32 0

def sampleSession : SessionRequest where
  directory := "state"
  identitySha256 := Vector.replicate 32 0
  requestId := 9
  control := none
  reuse := false
  resetAnswer := .ok ()
  removeAnswer := .ok ()
  openAnswer := .ok ()

/-- A session, one batch over both layers, and a second one put in while the first is written. -/
def sampleActions : List (Action Nat) :=
  [.openSession sampleSession,
    .append ⟨0, 9, 0, ⟨0, 1, 0, [⟨7, 0, some 70⟩, ⟨3, 0, some 30⟩, ⟨7, 1, some 71⟩]⟩⟩,
    .take, .gather, .gather, .append ⟨0, 9, 1, ⟨0, 1, 1, [⟨3, 1, some 31⟩]⟩⟩, .gather, .write (.ok ()),
    .gather, .gather, .gather, .write (.ok ()), .retire, .take, .gather, .write (.ok ()), .gather,
    .write (.ok ()), .retire]

theorem writer_exact_sample : ∃ runtime system, runtimeCreate sampleManifest 1 = .ok runtime ∧
    Runs.exec (step sampleManifest) ⟨runtime, .idle, [], []⟩ sampleActions = some system ∧
    writerDrain system.runtime = some (.ok ()) ∧
    ∀ layer, layerPages layer system.written = layerPages layer system.accepted.flatten := by
  refine ⟨_, _, rfl, rfl, rfl, ?_⟩
  exact (@writer_exact Nat sampleManifest 1 _ rfl sampleActions _ rfl).2.2.2.2.1 rfl

end FlashGordon.QsaOwner
