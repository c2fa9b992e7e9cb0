import FlashGordon.QsaPrefetch
import Mathlib.Data.List.Nodup

/-! Who owns a page of the read-ahead pool. While no submission has failed, every read that the kernel holds goes to
the page of a slot that waits for it, and a slot is ready only when its own read came back whole. After a failed
submission the pool is left alone until the store is closed. -/

namespace FlashGordon.QsaPrefetch

open Function List

variable {Page Records : Type} {decode : Page → Nat → Nat → Option Records} {store : Store}

structure Awaits (store : Store) (slot : Slot) (read : Read) : Prop where
  state : slot.state = .inFlight
  tag : slot.tag = read.tag
  offset : read.offset = store.pageOffset slot.layerSlot slot.block

def FromRead (decode : Page → Nat → Nat → Option Records) (store : Store) (done : List (Read × Outcome Page))
    (r : Returned Records) : Prop :=
  ∃ completion ∈ done, completion.1.tag = r.tag ∧ completion.1.offset = store.pageOffset r.layerSlot r.block ∧
    completion.2.result = pageBytes ∧ decode completion.2.bytes r.layerSlot r.block = some r.records

structure Sound (decode : Page → Nat → Nat → Option Records) (store : Store) (returned : List (Returned Records))
    (s : State Page) : Prop where
  fresh : (s.done.map (fun completion => completion.1.tag) ++
    (s.ring.inFlight ++ s.ring.queued).map Read.tag).Nodup
  bound : ∀ tag ∈ s.done.map (fun completion => completion.1.tag) ++
    (s.ring.inFlight ++ s.ring.queued).map Read.tag, tag ≤ s.tag
  valid : ∀ r ∈ returned, FromRead decode store s.done r
  once : (returned.map Returned.tag).Nodup
  returnedBound : ∀ r ∈ returned, r.tag ≤ s.tag

/-- The slots while no submission has failed; the reads of `todo` have come back and their slots do not know yet. -/
structure Live (store : Store) (todo : List (Read × Outcome Page)) (returned : List (Returned Records))
    (s : State Page) : Prop where
  awaited : ∀ read ∈ todo.map Prod.fst ++ s.ring.held, read.page < prefetchPages ∧ Awaits store (s.slots read.page) read
  distinct : ((todo.map Prod.fst ++ s.ring.held).map Read.tag).Nodup
  answered : ∀ completion ∈ todo ++ s.ring.completed, completion ∈ s.done ∧ s.pool completion.1.page = completion.2.bytes
  slotTags : ∀ i j, (s.slots i).state ≠ .free → (s.slots j).state ≠ .free → (s.slots i).tag = (s.slots j).tag → i = j
  slotBound : ∀ i, (s.slots i).state ≠ .free → (s.slots i).tag ≤ s.tag
  ready : ∀ i, (s.slots i).state = .ready → ∃ completion ∈ s.done, completion.1.tag = (s.slots i).tag ∧
    completion.1.offset = store.pageOffset (s.slots i).layerSlot (s.slots i).block ∧
    completion.2.result = pageBytes ∧ completion.2.bytes = s.pool i
  apart : ∀ r ∈ returned, ∀ i, (s.slots i).state ≠ .free → (s.slots i).tag ≠ r.tag
  counted : s.pending = s.ring.queued.length

variable {returned : List (Returned Records)} {s : State Page} {todo : List (Read × Outcome Page)}

theorem Live.page_ne
    (h : Live store todo returned s) {read other : Read} (hread : read ∈ todo.map Prod.fst ++ s.ring.held)
    (hother : other ∈ todo.map Prod.fst ++ s.ring.held) (hne : read.tag ≠ other.tag) : read.page ≠ other.page := by
  intro hpage
  apply hne
  rw [← (h.awaited read hread).2.tag, hpage, (h.awaited other hother).2.tag]

/-! The kernel completes a read. -/

theorem State.post_eq {i : Nat} {read : Read} (h : s.ring.inFlight[i]? = some read) (outcome : Outcome Page) :
    s.post i outcome = { s with
      ring := { s.ring with
        inFlight := s.ring.inFlight.eraseIdx i
        completed := s.ring.completed ++ [(read, outcome)] }
      done := s.done ++ [(read, outcome)]
      pool := update s.pool read.page outcome.bytes } := by
  rw [State.post, h, IoQueues.post, h]

theorem Sound.post (h : Sound decode store returned s) (i : Nat)
    (outcome : Outcome Page) : Sound decode store returned (s.post i outcome) := by
  cases hread : s.ring.inFlight[i]? with
  | none =>
    rw [State.post, hread]
    exact h
  | some read =>
    rw [State.post_eq hread]
    obtain ⟨hi, hget⟩ := List.getElem?_eq_some_iff.mp hread
    have hperm : ((s.done ++ [(read, outcome)]).map (fun completion => completion.1.tag) ++
        (s.ring.inFlight.eraseIdx i ++ s.ring.queued).map Read.tag).Perm
        (s.done.map (fun completion => completion.1.tag) ++ (s.ring.inFlight ++ s.ring.queued).map Read.tag) := by
      rw [map_append, append_assoc]
      apply List.Perm.append_left
      have herase := ((getElem_cons_eraseIdx_perm hi).append_right s.ring.queued).map Read.tag
      rw [hget] at herase
      exact herase
    refine ⟨hperm.nodup_iff.mpr h.fresh, fun tag htag => h.bound tag (hperm.mem_iff.mp htag), ?_, h.once,
      h.returnedBound⟩
    intro r hr
    obtain ⟨completion, hmem, hfrom⟩ := h.valid r hr
    exact ⟨completion, mem_append_left _ hmem, hfrom⟩

theorem Live.post (hsound : Sound decode store returned s)
    (h : Live store [] returned s) (i : Nat) (outcome : Outcome Page) : Live store [] returned (s.post i outcome) := by
  cases hread : s.ring.inFlight[i]? with
  | none =>
    rw [State.post, hread]
    exact h
  | some read =>
    have hheld := s.ring.held_post i outcome
    rw [IoQueues.post, hread] at hheld
    rw [State.post_eq hread]
    have hmem : read ∈ s.ring.inFlight := mem_of_getElem? hread
    have hin : read ∈ s.ring.held :=
      IoQueues.mem_held_of_inFlight hmem
    have hawaits := (h.awaited read hin).2
    refine ⟨?_, ?_, ?_, h.slotTags, h.slotBound, ?_, h.apart, h.counted⟩
    · intro other hother
      exact h.awaited other (hheld.mem_iff.mp hother)
    · exact (hheld.map Read.tag).nodup_iff.mpr h.distinct
    · intro completion hcompletion
      have hlist : completion ∈ s.ring.completed ++ [(read, outcome)] := hcompletion
      rcases mem_append.mp hlist with hold | hnew
      · obtain ⟨hdone, hpool⟩ := h.answered completion hold
        have htag : completion.1.tag ≠ read.tag :=
          (nodup_append.mp hsound.fresh).2.2 _ (mem_map_of_mem hdone) _
            (mem_map_of_mem (mem_append_left _ hmem))
        have hpage : completion.1.page ≠ read.page :=
          h.page_ne (IoQueues.mem_held_of_completed hold) hin htag
        refine ⟨mem_append_left _ hdone, ?_⟩
        show update s.pool read.page outcome.bytes completion.1.page = completion.2.bytes
        rw [update_of_ne hpage, hpool]
      · rw [mem_singleton.mp hnew]
        exact ⟨mem_append_right _ mem_cons_self, update_self ..⟩
    · intro j hj
      obtain ⟨completion, hdone, htag, hoffset, hresult, hbytes⟩ := h.ready j hj
      refine ⟨completion, mem_append_left _ hdone, htag, hoffset, hresult, ?_⟩
      have hne : j ≠ read.page := by
        rintro rfl
        rw [hawaits.state] at hj
        cases hj
      show completion.2.bytes = update s.pool read.page outcome.bytes j
      rw [update_of_ne hne, hbytes]

/-! The program reads a completion. -/

theorem update_keeps (slots : Nat → Slot) (i : Nat) (slot : Slot) (htag : slot.tag = (slots i).tag)
    (hlayer : slot.layerSlot = (slots i).layerSlot) (hblock : slot.block = (slots i).block)
    (hstate : slot.state ≠ .free → (slots i).state ≠ .free) (j : Nat) :
    (update slots i slot j).tag = (slots j).tag ∧
      (update slots i slot j).layerSlot = (slots j).layerSlot ∧
      (update slots i slot j).block = (slots j).block ∧
      ((update slots i slot j).state ≠ .free → (slots j).state ≠ .free) := by
  by_cases hj : j = i
  · subst hj
    rw [update_self]
    exact ⟨htag, hlayer, hblock, hstate⟩
  · rw [update_of_ne hj]
    exact ⟨rfl, rfl, rfl, id⟩

theorem Live.slotOf_eq {completion : Read × Outcome Page} (h : Live store (completion :: todo) returned s) :
    s.slotOf completion.1.tag = some completion.1.page := by
  obtain ⟨hpage, hawaits⟩ := h.awaited completion.1 mem_cons_self
  cases hfind : s.slotOf completion.1.tag with
  | none =>
    have hnone := List.find?_eq_none.mp hfind completion.1.page (mem_range.mpr hpage)
    exact absurd (decide_eq_true (show _ ∧ _ from ⟨hawaits.state, hawaits.tag⟩)) hnone
  | some i =>
    have hdecide := List.find?_some hfind
    have hi := of_decide_eq_true hdecide
    refine congrArg some (h.slotTags i _ ?_ ?_ ?_)
    · rw [hi.1]
      exact SlotState.noConfusion
    · rw [hawaits.state]
      exact SlotState.noConfusion
    · rw [hi.2, hawaits.tag]

theorem Live.complete {completion : Read × Outcome Page} (h : Live store (completion :: todo) returned s) :
    Live store todo returned (s.complete completion.1.tag completion.2.result) := by
  obtain ⟨hpage, hawaits⟩ := h.awaited completion.1 mem_cons_self
  obtain ⟨hdone, hpool⟩ := h.answered completion mem_cons_self
  rw [State.complete, h.slotOf_eq]
  dsimp only
  generalize hslot : ({ s.slots completion.1.page with
    result := completion.2.result
    state := if completion.2.result = (pageBytes : Int) then SlotState.ready else SlotState.failed } : Slot) = slot
  have hat := update_keeps s.slots completion.1.page slot (by rw [← hslot])
    (by rw [← hslot]) (by rw [← hslot]) (fun _ => by rw [hawaits.state]; exact SlotState.noConfusion)
  have hdistinct := h.distinct
  rw [map_cons, cons_append, map_cons, nodup_cons] at hdistinct
  refine ⟨?_, hdistinct.2, ?_, ?_, ?_, ?_, ?_, h.counted⟩
  · intro other hother
    obtain ⟨hlt, hother'⟩ := h.awaited other (mem_cons_of_mem _ hother)
    refine ⟨hlt, ?_⟩
    have hne : other.page ≠ completion.1.page := by
      apply h.page_ne (mem_cons_of_mem _ hother) mem_cons_self
      rintro htag
      exact hdistinct.1 (htag ▸ mem_map_of_mem hother)
    show Awaits store (update s.slots completion.1.page _ other.page) other
    rw [update_of_ne hne]
    exact hother'
  · intro other hother
    exact h.answered other (mem_cons_of_mem _ hother)
  · intro i j hi hj htag
    rw [(hat i).1, (hat j).1] at htag
    exact h.slotTags i j ((hat i).2.2.2 hi) ((hat j).2.2.2 hj) htag
  · intro i hi
    rw [(hat i).1]
    exact h.slotBound i ((hat i).2.2.2 hi)
  · intro i hi
    rw [(hat i).1, (hat i).2.1, (hat i).2.2.1]
    by_cases hj : i = completion.1.page
    · subst hj
      have hresult : completion.2.result = (pageBytes : Int) := by
        by_contra hne
        have hready : (update s.slots completion.1.page slot completion.1.page).state = .ready := hi
        rw [update_self, ← hslot] at hready
        rw [if_neg hne] at hready
        cases hready
      exact ⟨completion, hdone, hawaits.tag.symm, hawaits.offset, hresult, hpool.symm⟩
    · apply h.ready i
      have hready : (update s.slots completion.1.page slot i).state = .ready := hi
      rwa [update_of_ne hj] at hready
  · intro r hr i hi
    rw [(hat i).1]
    exact h.apart r hr i ((hat i).2.2.2 hi)

theorem Live.completeAll (h : Live store todo returned s) :
    Live store [] returned (todo.foldl (fun s completion => s.complete completion.1.tag completion.2.result) s) := by
  induction todo generalizing s with
  | nil => exact h
  | cons completion rest ih => exact ih h.complete

/-- What only a failed submission, an abandoned wait and a close change. -/
def State.flags (s : State Page) : Bool × Bool × Bool × Bool := (s.disabled, s.abandoned, s.poolFreed, s.closed)

theorem State.complete_frame (s : State Page) (tag : Nat) (result : Int) :
    (s.complete tag result).ring = s.ring ∧ (s.complete tag result).done = s.done ∧
      (s.complete tag result).tag = s.tag ∧ (s.complete tag result).pending = s.pending ∧
      (s.complete tag result).flags = s.flags := by
  rw [State.complete]
  split <;> exact ⟨rfl, rfl, rfl, rfl, rfl⟩

theorem State.completeAll_frame (todo : List (Read × Outcome Page)) (s : State Page) :
    (todo.foldl (fun s completion => s.complete completion.1.tag completion.2.result) s).ring = s.ring ∧
      (todo.foldl (fun s completion => s.complete completion.1.tag completion.2.result) s).done = s.done ∧
      (todo.foldl (fun s completion => s.complete completion.1.tag completion.2.result) s).tag = s.tag ∧
      (todo.foldl (fun s completion => s.complete completion.1.tag completion.2.result) s).pending = s.pending ∧
      (todo.foldl (fun s completion => s.complete completion.1.tag completion.2.result) s).flags = s.flags := by
  induction todo generalizing s with
  | nil => exact ⟨rfl, rfl, rfl, rfl, rfl⟩
  | cons completion rest ih =>
    obtain ⟨hring, hdone, htag, hpending, hflags⟩ := s.complete_frame completion.1.tag completion.2.result
    obtain ⟨hring', hdone', htag', hpending', hflags'⟩ := ih (s.complete completion.1.tag completion.2.result)
    exact ⟨hring'.trans hring, hdone'.trans hdone, htag'.trans htag, hpending'.trans hpending, hflags'.trans hflags⟩

theorem Live.drain (h : Live store [] returned s) : Live store [] returned s.drain := by
  apply Live.completeAll
  have hheld := s.ring.held_read prefetchPages
  refine ⟨?_, ?_, ?_, h.slotTags, h.slotBound, h.ready, h.apart, h.counted⟩
  · intro read hread
    apply h.awaited read
    rw [map_nil, nil_append, ← hheld]
    exact hread
  · have hdistinct := h.distinct
    rw [map_nil, nil_append, ← hheld] at hdistinct
    exact hdistinct
  · intro completion hcompletion
    apply h.answered completion
    have hall : completion ∈ s.ring.completed.take prefetchPages ++ s.ring.completed.drop prefetchPages := hcompletion
    rwa [take_append_drop] at hall

theorem Sound.of_eq {s t : State Page} (h : Sound decode store returned s)
    (hdone : t.done = s.done) (hheld : t.ring.inFlight ++ t.ring.queued = s.ring.inFlight ++ s.ring.queued)
    (htag : t.tag = s.tag) : Sound decode store returned t := by
  refine ⟨?_, ?_, ?_, h.once, ?_⟩
  · rw [hdone, hheld]
    exact h.fresh
  · rw [hdone, hheld, htag]
    exact h.bound
  · rw [hdone]
    exact h.valid
  · rw [htag]
    exact h.returnedBound

theorem Sound.drain (h : Sound decode store returned s) : Sound decode store returned s.drain := by
  obtain ⟨hring, hdone, htag, _, _⟩ := State.completeAll_frame (s.ring.completed.take prefetchPages)
    { s with ring := s.ring.read prefetchPages }
  refine h.of_eq hdone ?_ htag
  rw [State.drain, hring]
  rfl

theorem State.drain_flags (s : State Page) : s.drain.flags = s.flags :=
  (State.completeAll_frame _ _).2.2.2.2

theorem State.post_flags (s : State Page) (i : Nat) (outcome : Outcome Page) : (s.post i outcome).flags = s.flags := by
  rw [State.post]
  split <;> rfl

theorem State.drain_pending (s : State Page) : s.drain.pending = s.pending :=
  (State.completeAll_frame _ _).2.2.2.1

theorem State.post_pending (s : State Page) (i : Nat) (outcome : Outcome Page) :
    (s.post i outcome).pending = s.pending := by
  rw [State.post]
  split <;> rfl

/-- Both parts, in a store whose submissions have not failed. -/
structure Working (decode : Page → Nat → Nat → Option Records) (store : Store) (returned : List (Returned Records))
    (s : State Page) : Prop where
  sound : Sound decode store returned s
  live : Live store [] returned s

section

variable (h : Working decode store returned s)
include h

theorem Working.post (i : Nat) (outcome : Outcome Page) : Working decode store returned (s.post i outcome) :=
  ⟨h.sound.post i outcome, h.live.post h.sound i outcome⟩

theorem Working.postAll (posts : List (Nat × Outcome Page)) :
    Working decode store returned (s.postAll posts) ∧ (s.postAll posts).flags = s.flags ∧
      (s.postAll posts).pending = s.pending := by
  induction posts generalizing s with
  | nil => exact ⟨h, rfl, rfl⟩
  | cons posted rest ih =>
    obtain ⟨hworking, hflags, hpending⟩ := ih (h.post posted.1 posted.2)
    exact ⟨hworking, hflags.trans (s.post_flags _ _), hpending.trans (s.post_pending _ _)⟩

theorem Working.drain : Working decode store returned s.drain :=
  ⟨h.sound.drain, h.live.drain⟩

theorem Working.spin (fuel : Nat) (script : List (List (Nat × Outcome Page))) :
    Working decode store returned (spin fuel script s) ∧ (spin fuel script s).flags = s.flags ∧
      (spin fuel script s).pending = s.pending := by
  induction fuel generalizing s script with
  | zero => exact ⟨h, rfl, rfl⟩
  | succ fuel ih =>
    rw [QsaPrefetch.spin]
    split
    · obtain ⟨hposted, hflags, hpending⟩ := h.postAll (script.headD [])
      obtain ⟨hworking, hspin, hwaited⟩ := ih hposted.drain script.tail
      exact ⟨hworking, hspin.trans ((State.drain_flags _).trans hflags),
        hwaited.trans ((State.drain_pending _).trans hpending)⟩
    · exact ⟨h, rfl, rfl⟩

end

theorem Live.held_eq_nil (h : Live store [] returned s) (hbusy : s.busy = false) : s.ring.held = [] := by
  apply eq_nil_iff_forall_not_mem.mpr
  intro read hread
  obtain ⟨hpage, hawaits⟩ := h.awaited read hread
  have hany : s.busy = true :=
    any_eq_true.mpr ⟨read.page, mem_range.mpr hpage, decide_eq_true hawaits.state⟩
  rw [hbusy] at hany
  cases hany

theorem Live.clear (hheld : s.ring.held = []) :
    Live store [] returned { s with pending := 0, slots := fun _ => .clear } := by
  have hparts : s.ring.completed = [] ∧ s.ring.queued = [] := by
    rw [IoQueues.held, append_eq_nil_iff, map_eq_nil_iff, append_eq_nil_iff] at hheld
    exact ⟨hheld.1, hheld.2.2⟩
  refine ⟨?_, ?_, ?_, fun i j hi => absurd rfl hi, fun i hi => absurd rfl hi, fun i hi => (by cases hi),
    fun r _ i hi => absurd rfl hi, ?_⟩
  · intro read hread
    rw [map_nil, nil_append, hheld] at hread
    exact absurd hread not_mem_nil
  · rw [map_nil, nil_append, hheld]
    exact nodup_nil
  · intro completion hcompletion
    rw [nil_append, hparts.1] at hcompletion
    exact absurd hcompletion not_mem_nil
  · show 0 = s.ring.queued.length
    rw [hparts.2]
    rfl

theorem Live.release (h : Live store [] returned s) {i : Nat}
    (hstate : (s.slots i).state ≠ .inFlight) : Live store [] returned (s.release i) := by
  have hat := update_keeps s.slots i { s.slots i with state := .free } rfl rfl rfl fun hfree => absurd rfl hfree
  refine ⟨?_, h.distinct, h.answered, ?_, ?_, ?_, ?_, h.counted⟩
  · intro read hread
    obtain ⟨hpage, hawaits⟩ := h.awaited read hread
    refine ⟨hpage, ?_⟩
    have hne : read.page ≠ i := by
      rintro rfl
      exact hstate hawaits.state
    show Awaits store (update s.slots i _ read.page) read
    rw [update_of_ne hne]
    exact hawaits
  · intro j k hj hk htag
    have hsame : (s.slots j).tag = (s.slots k).tag := by
      rw [← (hat j).1, ← (hat k).1]
      exact htag
    exact h.slotTags j k ((hat j).2.2.2 hj) ((hat k).2.2.2 hk) hsame
  · intro j hj
    show (update s.slots i _ j).tag ≤ s.tag
    rw [(hat j).1]
    exact h.slotBound j ((hat j).2.2.2 hj)
  · intro j hj
    have hne : j ≠ i := by
      rintro rfl
      have hfree : (update s.slots j { s.slots j with state := .free } j).state = .ready := hj
      rw [update_self] at hfree
      cases hfree
    have hready : (update s.slots i { s.slots i with state := .free } j).state = .ready := hj
    rw [update_of_ne hne] at hready
    show ∃ completion ∈ s.done, completion.1.tag = (update s.slots i _ j).tag ∧ completion.1.offset =
      store.pageOffset (update s.slots i _ j).layerSlot (update s.slots i _ j).block ∧ _
    rw [update_of_ne hne]
    exact h.ready j hready
  · intro r hr j hj
    show (update s.slots i _ j).tag ≠ r.tag
    rw [(hat j).1]
    exact h.apart r hr j ((hat j).2.2.2 hj)

theorem State.release_free (s : State Page) (i : Nat) : ((s.release i).slots i).state = .free := by
  show (update s.slots i _ i).state = .free
  rw [update_self]

theorem Working.give (h : Working decode store returned s) {i : Nat}
    (hready : (s.slots i).state = .ready) {records : Records}
    (hdecode : decode (s.pool i) (s.slots i).layerSlot (s.slots i).block = some records) :
    Working decode store (returned ++ [⟨(s.slots i).layerSlot, (s.slots i).block, records, (s.slots i).tag⟩])
      (s.release i) := by
  have hbusy : (s.slots i).state ≠ .free := by
    rw [hready]
    exact SlotState.noConfusion
  have hlive := h.live.release (i := i) (by rw [hready]; exact SlotState.noConfusion)
  obtain ⟨completion, hdone, htag, hoffset, hresult, hbytes⟩ := h.live.ready i hready
  refine ⟨⟨h.sound.fresh, h.sound.bound, ?_, ?_, ?_⟩, { hlive with apart := ?_ }⟩
  · intro r hr
    rcases mem_append.mp hr with hold | hnew
    · exact h.sound.valid r hold
    · rw [mem_singleton.mp hnew]
      refine ⟨completion, hdone, htag, hoffset, hresult, ?_⟩
      rw [hbytes]
      exact hdecode
  · rw [map_append, nodup_append]
    refine ⟨h.sound.once, nodup_singleton _, ?_⟩
    intro tag htag' other hother
    obtain ⟨r, hr, rfl⟩ := mem_map.mp htag'
    rw [mem_singleton.mp hother]
    exact (h.live.apart r hr i hbusy).symm
  · intro r hr
    rcases mem_append.mp hr with hold | hnew
    · exact h.sound.returnedBound r hold
    · rw [mem_singleton.mp hnew]
      exact h.live.slotBound i hbusy
  · intro r hr j hj
    rcases mem_append.mp hr with hold | hnew
    · exact hlive.apart r hold j hj
    · rw [mem_singleton.mp hnew]
      have hne : j ≠ i := by
        rintro rfl
        exact hj (s.release_free j)
      have hslot : (s.release i).slots j = s.slots j := update_of_ne hne _ _
      rw [hslot] at hj ⊢
      intro hsame
      exact hne (h.live.slotTags j i hj hbusy hsame)

theorem reapSlot_working (layerSlot capacity i : Nat)
    {out : List (Returned Records)} (h : Working decode store (returned ++ out) s) :
    let next := reapSlot decode layerSlot capacity (s, out) i
    Working decode store (returned ++ next.2) next.1 ∧ next.1.flags = s.flags ∧ next.1.ring = s.ring ∧
      next.1.pending = s.pending := by
  have hdrop (hne : (s.slots i).state ≠ .inFlight) : Working decode store (returned ++ out) (s.release i) :=
    ⟨⟨h.sound.fresh, h.sound.bound, h.sound.valid, h.sound.once, h.sound.returnedBound⟩, h.live.release hne⟩
  rw [reapSlot]
  split
  · exact ⟨h, rfl, rfl, rfl⟩
  split
  · exact ⟨h, rfl, rfl, rfl⟩
  split
  next hfailed =>
    exact ⟨hdrop (by rw [hfailed]; exact SlotState.noConfusion), rfl, rfl, rfl⟩
  split
  · exact ⟨h, rfl, rfl, rfl⟩
  next hskip =>
    rw [not_or, not_not, not_not] at hskip
    obtain ⟨hready, rfl⟩ := hskip
    split
    · exact ⟨hdrop (by rw [hready]; exact SlotState.noConfusion), rfl, rfl, rfl⟩
    next records hdecode =>
      refine ⟨?_, rfl, rfl, rfl⟩
      rw [← append_assoc]
      exact h.give hready hdecode

theorem reapSlots_working (layerSlot capacity : Nat) (order : List Nat)
    {out : List (Returned Records)} (h : Working decode store (returned ++ out) s) :
    let next := order.foldl (reapSlot decode layerSlot capacity) (s, out)
    Working decode store (returned ++ next.2) next.1 ∧ next.1.flags = s.flags ∧ next.1.ring = s.ring ∧
      next.1.pending = s.pending := by
  induction order generalizing s out with
  | nil => exact ⟨h, rfl, rfl, rfl⟩
  | cons i rest ih =>
    obtain ⟨hworking, hflags, hring, hpending⟩ := reapSlot_working layerSlot capacity i h
    obtain ⟨hworking', hflags', hring', hpending'⟩ := ih hworking
    exact ⟨hworking', hflags'.trans hflags, hring'.trans hring, hpending'.trans hpending⟩

theorem Sound.skipTag (h : Sound decode store returned s) : Sound decode store returned { s with tag := s.tag + 1 } :=
  ⟨h.fresh, fun tag htag => (h.bound tag htag).trans (Nat.le_succ _), h.valid, h.once,
    fun r hr => (h.returnedBound r hr).trans (Nat.le_succ _)⟩

theorem Sound.stage (h : Sound decode store returned s)
    (layerSlot block i : Nat) : Sound decode store returned (s.stage store layerSlot block i) := by
  have htags : (s.stage store layerSlot block i).done.map (fun completion => completion.1.tag) ++
      ((s.stage store layerSlot block i).ring.inFlight ++ (s.stage store layerSlot block i).ring.queued).map Read.tag =
      s.done.map (fun completion => completion.1.tag) ++ (s.ring.inFlight ++ s.ring.queued).map Read.tag ++
        [s.tag + 1] := by
    rw [append_assoc, map_append, map_append, append_assoc]
    congr 2
    exact map_append
  refine ⟨?_, ?_, h.valid, h.once, fun r hr => (h.returnedBound r hr).trans (Nat.le_succ _)⟩
  · rw [htags, nodup_append]
    refine ⟨h.fresh, nodup_singleton _, ?_⟩
    intro tag htag other hother
    rw [mem_singleton.mp hother]
    exact Nat.ne_of_lt (Nat.lt_succ_of_le (h.bound tag htag))
  · rw [htags]
    intro tag htag
    rcases mem_append.mp htag with hold | hnew
    · exact (h.bound tag hold).trans (Nat.le_succ _)
    · exact (mem_singleton.mp hnew).le

theorem Live.stage (hsound : Sound decode store returned s)
    (h : Live store [] returned s) {i : Nat} (hpage : i < prefetchPages) (hfree : (s.slots i).state = .free)
    (layerSlot block : Nat) : Live store [] returned (s.stage store layerSlot block i) := by
  have hheld := s.ring.held_push [⟨i, store.pageOffset layerSlot block, s.tag + 1⟩]
  have hself : (s.stage store layerSlot block i).slots i = ⟨layerSlot, block, s.tag + 1, 0, .inFlight⟩ :=
    update_self ..
  have hother (j : Nat) (hj : j ≠ i) : (s.stage store layerSlot block i).slots j = s.slots j :=
    update_of_ne hj _ _
  have hnew (j : Nat) (hj : (s.slots j).state ≠ .free) : (s.slots j).tag ≠ s.tag + 1 :=
    Nat.ne_of_lt (Nat.lt_succ_of_le (h.slotBound j hj))
  refine ⟨?_, ?_, h.answered, ?_, ?_, ?_, ?_, ?_⟩
  · intro read hread
    have hall : read ∈ s.ring.held ++ [⟨i, store.pageOffset layerSlot block, s.tag + 1⟩] := hheld ▸ hread
    rcases mem_append.mp hall with hold | hnew
    · obtain ⟨hlt, hawaits⟩ := h.awaited read hold
      have hne : read.page ≠ i := by
        rintro rfl
        rw [hawaits.state] at hfree
        cases hfree
      rw [hother _ hne]
      exact ⟨hlt, hawaits⟩
    · rw [mem_singleton.mp hnew, hself]
      exact ⟨hpage, rfl, rfl, rfl⟩
  · show (([] : List Read) ++ (s.ring.push _).held).map Read.tag |>.Nodup
    rw [nil_append, hheld, map_append, nodup_append]
    refine ⟨h.distinct, nodup_singleton _, ?_⟩
    intro tag htag other hother'
    obtain ⟨read, hread, rfl⟩ := mem_map.mp htag
    obtain ⟨_, hawaits⟩ := h.awaited read hread
    rw [mem_singleton.mp hother', ← hawaits.tag]
    apply hnew
    rw [hawaits.state]
    exact SlotState.noConfusion
  · intro j k hj hk htag
    by_cases hji : j = i
    · by_cases hki : k = i
      · rw [hji, hki]
      · rw [hji, hself, hother k hki] at htag
        rw [hother k hki] at hk
        exact absurd htag.symm (hnew k hk)
    · by_cases hki : k = i
      · rw [hki, hself, hother j hji] at htag
        rw [hother j hji] at hj
        exact absurd htag (hnew j hj)
      · rw [hother j hji] at hj htag
        rw [hother k hki] at hk htag
        exact h.slotTags j k hj hk htag
  · intro j hj
    by_cases hji : j = i
    · rw [hji, hself]
      exact Nat.le_refl _
    · rw [hother j hji] at hj ⊢
      exact (h.slotBound j hj).trans (Nat.le_succ _)
  · intro j hj
    by_cases hji : j = i
    · rw [hji, hself] at hj
      cases hj
    · rw [hother j hji] at hj ⊢
      exact h.ready j hj
  · intro r hr j hj
    by_cases hji : j = i
    · rw [hji, hself]
      exact Nat.ne_of_gt (Nat.lt_succ_of_le (hsound.returnedBound r hr))
    · rw [hother j hji] at hj ⊢
      exact h.apart r hr j hj
  · show s.pending + 1 = (s.ring.queued ++ [_]).length
    rw [length_append, h.counted]
    rfl

theorem State.chosen_spec {i : Nat} (h : s.chosen = some i) : i < prefetchPages ∧ (s.slots i).state = .free := by
  have hfree := List.find?_some h
  obtain ⟨offset, _, rfl⟩ := mem_map.mp (mem_of_find?_eq_some h)
  exact ⟨Nat.mod_lt _ (by decide), of_decide_eq_true hfree⟩

theorem stageAll_working (layerSlot : Nat) (blocks : List Nat) (h : Working decode store returned s) :
    Working decode store returned (stageAll store layerSlot blocks s) ∧
      (stageAll store layerSlot blocks s).flags = s.flags := by
  induction blocks generalizing s with
  | nil => exact ⟨h, rfl⟩
  | cons block rest ih =>
    rw [stageAll]
    split
    · exact ih h
    split
    · exact ih h
    split
    · exact ⟨h, rfl⟩
    next i hchosen =>
      obtain ⟨hpage, hfree⟩ := State.chosen_spec hchosen
      split
      · refine ⟨⟨h.sound.skipTag, { h.live with slotBound := ?_ }⟩, rfl⟩
        intro j hj
        exact (h.live.slotBound j hj).trans (Nat.le_succ _)
      · obtain ⟨hworking, hflags⟩ := ih ⟨h.sound.stage layerSlot block i,
          h.live.stage h.sound hpage hfree layerSlot block⟩
        exact ⟨hworking, hflags⟩

/-- A store whose submission failed: no slot is in use, and none will be. -/
structure Lost (s : State Page) : Prop where
  disabled : s.disabled = true
  kept : s.abandoned = false
  slots : ∀ i, (s.slots i).state = .free
  pending : s.pending = 0

theorem Working.flush (h : Working decode store returned s) (hkept : s.abandoned = false) (flush : Flush) :
    Sound decode store returned (s.flush flush) ∧ (s.flush flush).poolFreed = s.poolFreed ∧
      (s.flush flush).closed = s.closed ∧
      (Lost (s.flush flush) ∨ Live store [] returned (s.flush flush) ∧ (s.flush flush).pending = 0 ∧
        (s.flush flush).flags = s.flags) := by
  have htaken (n : Nat) : s.ring.inFlight ++ s.ring.queued.take n ++ s.ring.queued.drop n =
      s.ring.inFlight ++ s.ring.queued := by
    rw [append_assoc, take_append_drop]
  rw [State.flush]
  split
  · exact ⟨h.sound.of_eq rfl (htaken _) rfl, rfl, rfl, .inl ⟨rfl, hkept, fun _ => rfl, rfl⟩⟩
  next hall =>
    rw [not_or, not_not] at hall
    refine ⟨h.sound.of_eq rfl (htaken _) rfl, rfl, rfl, .inr ⟨?_, rfl, rfl⟩⟩
    have hheld := s.ring.held_take (min flush.taken (min s.pending s.ring.queued.length))
    refine ⟨?_, ?_, h.live.answered, h.live.slotTags, h.live.slotBound, h.live.ready, h.live.apart, ?_⟩
    · intro read hread
      exact h.live.awaited read (hheld ▸ hread)
    · have hdistinct := h.live.distinct
      rwa [← hheld] at hdistinct
    · show 0 = (s.ring.queued.drop (min flush.taken (min s.pending s.ring.queued.length))).length
      rw [length_drop, hall.2, h.live.counted, Nat.sub_self]

/-- The state between calls. -/
structure Inv (decode : Page → Nat → Nat → Option Records) (store : Store) (returned : List (Returned Records))
    (s : State Page) : Prop where
  sound : Sound decode store returned s
  noRing : store.hasRing = false → s.ring.held = []
  freed : s.poolFreed = true → s.ring.inFlight = []
  unclosed : s.closed = false → s.poolFreed = false
  phase : Lost s ∨ Live store [] returned s ∧ s.pending = 0 ∧
    (s.disabled = true → s.abandoned = true ∨ store.hasRing = false) ∧ (s.abandoned = true → s.disabled = true)

/-- The memory of the pool: a page that the kernel may still write is there, and it is the page of the slot that waits
for the read or of none. -/
def Safe (store : Store) (s : State Page) : Prop :=
  ∀ read ∈ s.ring.inFlight, s.poolFreed = false ∧
    ((s.slots read.page).state ≠ .free → Awaits store (s.slots read.page) read)

/-- A store whose submission failed is closed when the kernel has completed what it took. -/
def Good (store : Store) (s : System Page Records) : Action Page → Prop
  | .close _ => store.hasRing = true → s.state.disabled = true → s.state.abandoned = false → s.state.ring.inFlight = []
  | _ => True

theorem Inv.safe (h : Inv decode store returned s) :
    Safe store s := by
  intro read hread
  refine ⟨?_, ?_⟩
  · cases hfreed : s.poolFreed with
    | false => rfl
    | true =>
      rw [h.freed hfreed] at hread
      exact absurd hread not_mem_nil
  · intro hbusy
    rcases h.phase with hlost | ⟨hlive, _⟩
    · exact absurd (hlost.slots _) hbusy
    · exact (hlive.awaited read (IoQueues.mem_held_of_inFlight hread)).2

theorem Lost.post (h : Lost s) (i : Nat) (outcome : Outcome Page) : Lost (s.post i outcome) := by
  rw [State.post]
  split
  · exact h
  · exact ⟨h.disabled, h.kept, h.slots, h.pending⟩

section

variable (h : Inv decode store returned s)
include h

theorem Inv.post (i : Nat)
    (outcome : Outcome Page) : Inv decode store returned (s.post i outcome) := by
  cases hread : s.ring.inFlight[i]? with
  | none =>
    rw [State.post, hread]
    exact h
  | some read =>
    have hmem : read ∈ s.ring.inFlight := mem_of_getElem? hread
    have hflags := s.post_flags i outcome
    simp only [State.flags, Prod.mk.injEq] at hflags
    refine ⟨h.sound.post i outcome, ?_, ?_, ?_, ?_⟩
    · intro hnone
      have hheld := h.noRing hnone
      rw [eq_nil_iff_forall_not_mem] at hheld
      exact absurd (IoQueues.mem_held_of_inFlight hmem) (hheld read)
    · intro hfreed
      rw [hflags.2.2.1] at hfreed
      rw [h.freed hfreed] at hmem
      exact absurd hmem not_mem_nil
    · rw [hflags.2.2.1, hflags.2.2.2]
      exact h.unclosed
    · rcases h.phase with hlost | ⟨hlive, hpending, hdisabled, habandoned⟩
      · exact .inl (hlost.post i outcome)
      · refine .inr ⟨hlive.post h.sound i outcome, ?_, ?_, ?_⟩
        · rw [State.post_eq hread]
          exact hpending
        · rw [hflags.1, hflags.2.1]
          exact hdisabled
        · rw [hflags.1, hflags.2.1]
          exact habandoned

theorem prefetch_inv (hclosed : s.closed = false) (layerSlot : Nat) (blocks : List Nat) (flush : Flush) :
    Inv decode store returned (prefetch store s layerSlot blocks flush).2 := by
  rw [prefetch]
  split
  · exact h
  split
  · exact h
  rename_i hable
  rw [not_or, not_not, Bool.not_eq_true] at hable
  rcases h.phase with hlost | ⟨hlive, _, _, habandoned⟩
  · rw [hlost.disabled] at hable
    exact absurd hable.1 Bool.noConfusion
  have hkept : s.abandoned = false := by
    cases hs : s.abandoned with
    | false => rfl
    | true => exact absurd ((habandoned hs).symm.trans hable.1) Bool.noConfusion
  have hopen := h.unclosed hclosed
  obtain ⟨hworking, hflags⟩ := stageAll_working layerSlot blocks ⟨h.sound, hlive⟩
  simp only [State.flags, Prod.mk.injEq] at hflags
  have hring (hnone : store.hasRing = false) : False := by
    rw [hnone] at hable
    exact absurd hable.2 Bool.noConfusion
  dsimp only
  split
  next hpending =>
    refine ⟨hworking.sound, fun hnone => (hring hnone).elim, ?_, fun _ => hflags.2.2.1.trans hopen,
      .inr ⟨hworking.live, hpending, ?_, ?_⟩⟩
    · rw [hflags.2.2.1, hopen]
      exact fun hfreed => nomatch hfreed
    · rw [hflags.1, hable.1]
      exact fun hdisabled => nomatch hdisabled
    · rw [hflags.2.1, hkept]
      exact fun hbroken => nomatch hbroken
  · obtain ⟨hsound, hfreed, _, hphase⟩ := hworking.flush (hflags.2.1.trans hkept) flush
    refine ⟨hsound, fun hnone => (hring hnone).elim, ?_, fun _ => hfreed.trans (hflags.2.2.1.trans hopen), ?_⟩
    · rw [hfreed, hflags.2.2.1, hopen]
      exact fun hbroken => nomatch hbroken
    · rcases hphase with hlost | ⟨hlive', hpending, hsame⟩
      · exact .inl hlost
      · simp only [State.flags, Prod.mk.injEq] at hsame
        refine .inr ⟨hlive', hpending, ?_, ?_⟩
        · rw [hsame.1, hflags.1, hable.1]
          exact fun hdisabled => nomatch hdisabled
        · rw [hsame.2.1, hflags.2.1, hkept]
          exact fun hbroken => nomatch hbroken

theorem reap_inv (hclosed : s.closed = false) {layerSlot capacity : Nat} {answer : Except Error (List (Returned Records))}
    {t : State Page} (hreap : reap decode store s layerSlot capacity = (answer, t)) :
    Inv decode store (returned ++ match answer with | .ok out => out | .error _ => []) t := by
  rw [reap] at hreap
  split at hreap
  · cases hreap
    rw [append_nil]
    exact h
  split at hreap
  · cases hreap
    rw [append_nil]
    exact h
  rename_i hable
  rw [not_or, not_not, Bool.not_eq_true] at hable
  rcases h.phase with hlost | ⟨hlive, hpending, hdisabled, habandoned⟩
  · rw [hlost.disabled] at hable
    exact absurd hable.1 Bool.noConfusion
  have hdrained : Working decode store (returned ++ []) s.drain := by
    rw [append_nil]
    exact Working.drain ⟨h.sound, hlive⟩
  obtain ⟨hworking, hflags, _, hsame⟩ := reapSlots_working layerSlot capacity (List.range prefetchPages) hdrained
  rw [State.drain_flags] at hflags
  simp only [State.flags, Prod.mk.injEq] at hflags
  generalize List.foldl (reapSlot decode layerSlot capacity) (s.drain, []) (List.range prefetchPages) = next at *
  cases hreap
  refine ⟨hworking.sound, ?_, ?_, ?_, .inr ⟨hworking.live, ?_, ?_, ?_⟩⟩
  · intro hnone
    rw [hnone] at hable
    exact absurd hable.2 Bool.noConfusion
  · rw [hflags.2.2.1, h.unclosed hclosed]
    exact fun hfreed => nomatch hfreed
  · rw [hflags.2.2.1]
    exact fun _ => h.unclosed hclosed
  · exact hsame.trans (s.drain_pending.trans hpending)
  · rw [hflags.1, hflags.2.1]
    exact hdisabled
  · rw [hflags.1, hflags.2.1]
    exact habandoned

end

theorem Lost.busy (h : Lost s) : s.busy = false := by
  rw [State.busy, any_eq_false]
  intro i _
  rw [h.slots i]
  decide

theorem Lost.cancel (h : Lost s) (store : Store) (script : List (List (Nat × Outcome Page))) :
    (cancel store script s).ring = s.ring ∧ (cancel store script s).done = s.done ∧
      (cancel store script s).tag = s.tag ∧ (cancel store script s).flags = s.flags ∧ Lost (cancel store script s) := by
  rw [QsaPrefetch.cancel]
  split
  · have hspin : spin 250 script s = s := by
      rw [spin, if_neg (by rw [h.busy]; exact Bool.false_ne_true)]
    simp only [hspin, h.busy]
    exact ⟨rfl, rfl, rfl, rfl, h.disabled, h.kept, fun _ => rfl, rfl⟩
  · exact ⟨rfl, rfl, rfl, rfl, h⟩

theorem cancel_inv (h : Inv decode store returned s)
    (hclosed : s.closed = false) (script : List (List (Nat × Outcome Page))) :
    Inv decode store returned (cancel store script s) ∧ (cancel store script s).closed = false ∧
      ((cancel store script s).abandoned = false → (cancel store script s).ring.held = [] ∨
        store.hasRing = true ∧ Lost s ∧ (cancel store script s).ring = s.ring) := by
  have hopen := h.unclosed hclosed
  cases hring : store.hasRing with
  | false =>
    have hsame : cancel store script s = s := by
      rw [cancel, if_neg (by rw [hring]; exact Bool.false_ne_true)]
    rw [hsame]
    exact ⟨h, hclosed, fun _ => .inl (h.noRing hring)⟩
  | true =>
    rcases h.phase with hlost | ⟨hlive, hpending, hdisabled, habandoned⟩
    · obtain ⟨hqueues, hdone, htag, hflags, hlost'⟩ := hlost.cancel store script
      simp only [State.flags, Prod.mk.injEq] at hflags
      refine ⟨⟨h.sound.of_eq hdone (by rw [hqueues]) htag, ?_, ?_, ?_, .inl hlost'⟩,
        hflags.2.2.2.trans hclosed, fun _ => .inr ⟨rfl, hlost, hqueues⟩⟩
      · intro hnone
        rw [hring] at hnone
        cases hnone
      · rw [hflags.2.2.1, hopen]
        exact fun hfreed => nomatch hfreed
      · exact fun _ => hflags.2.2.1.trans hopen
    · obtain ⟨hworking, hflags, hwaited⟩ := Working.spin ⟨h.sound, hlive⟩ 250 script
      simp only [State.flags, Prod.mk.injEq] at hflags
      rw [cancel, if_pos hring]
      dsimp only
      split
      · refine ⟨⟨?_, ?_, ?_, fun _ => hflags.2.2.1.trans hopen, .inr ⟨?_, ?_, fun _ => .inl rfl, fun _ => rfl⟩⟩,
          hflags.2.2.2.trans hclosed, fun hkept => nomatch hkept⟩
        · exact hworking.sound.of_eq rfl rfl rfl
        · intro hnone
          rw [hring] at hnone
          cases hnone
        · intro hfreed
          exact absurd (hfreed.symm.trans (hflags.2.2.1.trans hopen)) Bool.noConfusion
        · exact ⟨hworking.live.awaited, hworking.live.distinct, hworking.live.answered, hworking.live.slotTags,
            hworking.live.slotBound, hworking.live.ready, hworking.live.apart, hworking.live.counted⟩
        · exact hwaited.trans hpending
      next hbusy =>
        have hheld := hworking.live.held_eq_nil (Bool.eq_false_iff.mpr hbusy)
        refine ⟨⟨?_, ?_, ?_, fun _ => hflags.2.2.1.trans hopen, .inr ⟨Live.clear hheld, rfl, ?_, ?_⟩⟩,
          hflags.2.2.2.trans hclosed, fun _ => .inl hheld⟩
        · exact hworking.sound.of_eq rfl rfl rfl
        · intro hnone
          rw [hring] at hnone
          cases hnone
        · intro hfreed
          exact absurd (hfreed.symm.trans (hflags.2.2.1.trans hopen)) Bool.noConfusion
        · rw [hflags.1, hflags.2.1]
          exact hdisabled
        · rw [hflags.1, hflags.2.1]
          exact habandoned

theorem openState_inv (decode : Page → Nat → Nat → Option Records) (store : Store) (pool : Nat → Page) :
    Inv decode store [] (openState store pool) := by
  refine ⟨⟨nodup_nil, ?_, ?_, nodup_nil, ?_⟩, fun _ => rfl, fun _ => rfl, fun _ => rfl,
    .inr ⟨Live.clear (s := openState store pool) rfl, rfl, ?_, ?_⟩⟩
  · intro tag htag
    exact absurd htag not_mem_nil
  · intro r hr
    exact absurd hr not_mem_nil
  · intro r hr
    exact absurd hr not_mem_nil
  · intro hoff
    exact .inr ((Bool.not_eq_true' _).mp hoff)
  · exact fun hbroken => nomatch hbroken

theorem close_inv (h : Inv decode store returned s)
    (hclosed : s.closed = false) (script : List (List (Nat × Outcome Page)))
    (hgood : store.hasRing = true → s.disabled = true → s.abandoned = false → s.ring.inFlight = []) :
    Inv decode store returned (close store script s) := by
  obtain ⟨hinv, _, hleft⟩ := cancel_inv h hclosed script
  rw [close]
  refine ⟨hinv.sound.of_eq rfl rfl rfl, hinv.noRing, ?_, fun hopen => (nomatch hopen), ?_⟩
  · intro hfreed
    rcases hleft ((Bool.not_eq_true' _).mp hfreed) with hheld | ⟨hring, hlost, hsame⟩
    · rw [IoQueues.held, append_eq_nil_iff, append_eq_nil_iff] at hheld
      exact hheld.2.1
    · rw [hsame]
      exact hgood hring hlost.disabled hlost.kept
  · rcases hinv.phase with hlost | ⟨hlive, hrest⟩
    · exact .inl ⟨hlost.disabled, hlost.kept, hlost.slots, hlost.pending⟩
    · exact .inr ⟨⟨hlive.awaited, hlive.distinct, hlive.answered, hlive.slotTags, hlive.slotBound, hlive.ready,
        hlive.apart, hlive.counted⟩, hrest⟩

theorem Lost.close (h : Lost s) (store : Store) (script : List (List (Nat × Outcome Page))) :
    (close store script s).poolFreed = true ∧ (close store script s).ring = s.ring := by
  obtain ⟨hring, _, _, hflags, _⟩ := h.cancel store script
  simp only [State.flags, Prod.mk.injEq] at hflags
  refine ⟨?_, hring⟩
  show (!(QsaPrefetch.cancel store script s).abandoned) = true
  rw [hflags.2.1, h.kept]
  rfl

theorem step_inv {s t : System Page Records} {action : Action Page} (h : Inv decode store s.returned s.state)
    (hgood : Good store s action) (hstep : step decode store s action = some t) :
    Inv decode store t.returned t.state := by
  cases action with
  | kernel i outcome =>
    cases hstep
    exact h.post i outcome
  | prefetch layerSlot blocks flush =>
    rw [step] at hstep
    split at hstep
    · cases hstep
    next hclosed =>
      cases hstep
      exact prefetch_inv h (Bool.eq_false_iff.mpr hclosed) layerSlot blocks flush
  | reap layerSlot capacity =>
    rw [step] at hstep
    split at hstep
    · cases hstep
    next hclosed =>
      split at hstep
      next out state hreap =>
        cases hstep
        exact reap_inv h (Bool.eq_false_iff.mpr hclosed) hreap
      next e state hreap =>
        cases hstep
        have hinv := reap_inv h (Bool.eq_false_iff.mpr hclosed) hreap
        rwa [append_nil] at hinv
  | cancel script =>
    rw [step] at hstep
    split at hstep
    · cases hstep
    next hclosed =>
      cases hstep
      exact (cancel_inv h (Bool.eq_false_iff.mpr hclosed) script).1
  | reset script =>
    rw [step] at hstep
    split at hstep
    · cases hstep
    next hclosed =>
      cases hstep
      exact (cancel_inv h (Bool.eq_false_iff.mpr hclosed) script).1
  | close script =>
    rw [step] at hstep
    split at hstep
    · cases hstep
    next hclosed =>
      cases hstep
      exact close_inv h (Bool.eq_false_iff.mpr hclosed) script hgood

theorem good_of_safe {s t : System Page Records} {action : Action Page} (h : Inv decode store s.returned s.state)
    (hstep : step decode store s action = some t) (hsafe : Safe store t.state) : Good store s action := by
  cases action with
  | close script =>
    intro hring hdisabled hkept
    rw [step] at hstep
    split at hstep
    · cases hstep
    · cases hstep
      rcases h.phase with hlost | ⟨_, _, hbroken, _⟩
      · obtain ⟨hfreed, hsame⟩ := hlost.close store script
        apply eq_nil_iff_forall_not_mem.mpr
        intro read hread
        have hmem : read ∈ (close store script s.state).ring.inFlight := by
          rw [hsame]
          exact hread
        exact absurd (hfreed.symm.trans (hsafe read hmem).1) Bool.noConfusion
      · rcases hbroken hdisabled with habandoned | hnone
        · exact absurd (habandoned.symm.trans hkept) Bool.noConfusion
        · exact absurd (hring.symm.trans hnone) Bool.noConfusion
  | _ => trivial

/-- In every run that closes no store while reads of or before a failed submission are with the kernel, a page that the
kernel may write is neither freed nor another block's, every page that a reap returned came whole from a read of its
block, and no read is returned twice. Such a close is the only step that breaks the first. -/
theorem exec_owned {pool : Nat → Page} {actions : List (Action Page)} {s : System Page Records}
    (hrun : Runs.exec (step decode store) (init store pool) actions = some s)
    (halong : Runs.Along (step decode store) (Good store) (init store pool) actions) :
    Safe store s.state ∧ (∀ r ∈ s.returned, FromRead decode store s.state.done r) ∧
      (s.returned.map Returned.tag).Nodup ∧ (s.state.done.map fun completion => completion.1.tag).Nodup ∧
      ∀ action t, step decode store s action = some t → (Safe store t.state ↔ Good store s action) := by
  have hkeep (s : System Page Records) (action : Action Page) (t : System Page Records)
      (hinv : Inv decode store s.returned s.state) (hgood : Good store s action)
      (hstep : step decode store s action = some t) : Inv decode store t.returned t.state :=
    step_inv hinv hgood hstep
  have hinit : Inv decode store (init store pool : System Page Records).returned (init store pool : System Page Records).state :=
    openState_inv decode store pool
  have h : Inv decode store s.returned s.state := Runs.exec_invariant hkeep hinit halong hrun
  refine ⟨h.safe, h.sound.valid, h.sound.once, (nodup_append.mp h.sound.fresh).1, ?_⟩
  intro action t hstep
  exact ⟨good_of_safe h hstep, fun hgood => (step_inv h hgood hstep).safe⟩

/-- Two pages that come back in the other order. -/
theorem exec_owned_pair :
    let actions : List (Action Nat) := [.prefetch 0 [3, 5] ⟨2, false⟩, .kernel 1 ⟨8192, 5⟩, .reap 0 8, .kernel 0 ⟨8192, 3⟩,
      .reap 0 8, .cancel []]
    ∃ s, Runs.exec (step (fun bytes _ block => if bytes = block then some bytes else none) ⟨1, 8, true, 256⟩)
        (init ⟨1, 8, true, 256⟩ fun _ => 0) actions = some s ∧
      s.returned.map (fun r => (r.block, r.records)) = [(5, 5), (3, 3)] ∧ Safe ⟨1, 8, true, 256⟩ s.state := by
  intro actions
  have hreturned : (Runs.exec (step (fun bytes _ block => if bytes = block then some bytes else none) ⟨1, 8, true, 256⟩)
      (init ⟨1, 8, true, 256⟩ fun _ => 0) actions).map (fun s =>
        s.returned.map fun r => (r.block, r.records)) = some [(5, 5), (3, 3)] := by decide +kernel
  obtain ⟨s, hrun, hs⟩ := Option.map_eq_some_iff.mp hreturned
  refine ⟨s, hrun, hs, (exec_owned hrun (Runs.Along.of_forall ?_ _)).1⟩
  intro action haction s
  simp only [actions, mem_cons, not_mem_nil, or_false] at haction
  rcases haction with rfl | rfl | rfl | rfl | rfl | rfl <;> trivial

/-- The kernel takes one of two reads; the prefetch forgets both, and the close frees the page under the read. -/
theorem exec_frees_early :
    let actions : List (Action Nat) := [.prefetch 0 [3, 5] ⟨1, false⟩, .close []]
    ∃ s, Runs.exec (step (fun bytes _ _ => some bytes) ⟨1, 8, true, 256⟩) (init ⟨1, 8, true, 256⟩ fun _ => 0) actions =
        some s ∧
      s.state.poolFreed = true ∧ s.state.ring.inFlight.map Read.page = [0] ∧ ¬Safe ⟨1, 8, true, 256⟩ s.state := by
  intro actions
  have hfreed : (Runs.exec (step (fun bytes _ _ => some bytes) ⟨1, 8, true, 256⟩)
      (init ⟨1, 8, true, 256⟩ fun _ => 0) actions).map (fun s =>
        (s.state.poolFreed, s.state.ring.inFlight.map Read.page)) = some (true, [0]) := by decide +kernel
  obtain ⟨s, hrun, hs⟩ := Option.map_eq_some_iff.mp hfreed
  obtain ⟨hpool, hpages⟩ := Prod.mk.inj hs
  refine ⟨s, hrun, hpool, hpages, ?_⟩
  intro hsafe
  have hmem : 0 ∈ s.state.ring.inFlight.map Read.page := by
    rw [hpages]
    exact mem_cons_self
  obtain ⟨read, hread, _⟩ := mem_map.mp hmem
  exact absurd (hpool.symm.trans (hsafe read hread).1) Bool.noConfusion

end FlashGordon.QsaPrefetch
