import FlashGordon.Pipeline

/-! Isolation of the two sessions in every run of the pipeline. Each slot's part of the log is a dialogue
of receives: asked, settled for a cause, returned with that cause's outcome. The causes that consume a
frame take the positions of its channel one after another. -/

namespace FlashGordon.Pipeline

open Function List

variable {Content : Type}

/-- A receive of `slot`, asked for at `now`, may end for this cause. -/
def Cause.Grants (slot : Nat) (request : Request) (asked : Nat) : Cause Content → Prop
  | .satisfied peer _ frame =>
    frame.slot = slot ∧ (request.wantedPeer = none ∨ request.wantedPeer = some peer)
  | .discarded peer _ frame _ =>
    frame.slot = slot ∧ (request.wantedPeer = none ∨ request.wantedPeer = some peer)
  | .timedOut now => ∃ timeout, request.timeout = some timeout ∧ asked + timeout ≤ now
  | .failed _ => True
  | .aborted _ => True

inductive Dialogue (Content : Type) where
  | idle
  | asked (request : Request) (now : Nat)
  | settled (request : Request) (cause : Cause Content)

def Event.slot? : Event Content → Option Nat
  | .asked slot _ _ => some slot
  | .settled slot _ _ => some slot
  | .returned slot _ _ => some slot
  | .aborted _ => none

/-- The log, as far as it concerns the slot, is a sequence of receives, the last perhaps unfinished. -/
inductive Speaks (slot : Nat) : List (Event Content) → Dialogue Content → Prop where
  | silent : Speaks slot [] .idle
  | other {log : List (Event Content)} {dialogue : Dialogue Content} {event : Event Content} :
      Speaks slot log dialogue → event.slot? ≠ some slot → Speaks slot (log ++ [event]) dialogue
  | asked {log : List (Event Content)} (request : Request) (now : Nat) :
      Speaks slot log .idle → Speaks slot (log ++ [.asked slot request now]) (.asked request now)
  | settled {log : List (Event Content)} {request : Request} {now : Nat} {cause : Cause Content} :
      Speaks slot log (.asked request now) → cause.Grants slot request now →
        Speaks slot (log ++ [.settled slot request cause]) (.settled request cause)
  | returned {log : List (Event Content)} {request : Request} {cause : Cause Content} :
      Speaks slot log (.settled request cause) →
        Speaks slot (log ++ [.returned slot request cause.outcome]) .idle

def Event.consumes (peer : Nat) (cls : FabricClass) : Event Content → Option Nat
  | .settled _ request cause =>
    match cause.consumed with
    | some (p, position) => if p = peer ∧ request.cls = cls then some position else none
    | none => none
  | _ => none

def consumed (peer : Nat) (cls : FabricClass) (log : List (Event Content)) : List Nat :=
  log.filterMap (Event.consumes peer cls)

def QuietAfterAbort (log : List (Event Content)) : Prop :=
  ∀ before err after, log = before ++ Event.aborted err :: after →
    ∀ slot request cause, Event.settled slot request cause ∈ after → cause = .aborted err

/-- What the pipeline promises its sessions. -/
structure Isolated (state : State Content) : Prop where
  /-- Every slot's receives are asked, settled and returned in turn; none is left open by an abort. -/
  dialogues : ∀ slot, ∃ dialogue, Speaks slot state.log dialogue ∧
    (state.failure ≠ none → ∀ request now, dialogue ≠ .asked request now)
  /-- Each channel is consumed in order, no position twice. -/
  in_order : ∀ peer cls,
    consumed peer cls state.log = List.range (state.fabric.channel peer cls).queue.taken
  /-- A delivered frame is the one that was sent at its position. -/
  delivered : ∀ slot request peer position frame,
    Event.settled slot request (.satisfied peer position frame) ∈ state.log →
      (state.fabric.channel peer request.cls).queue.sent[position]? = some frame
  quiet : QuietAfterAbort state.log
  /-- After an abort every coroutine can be resumed. -/
  resumable : state.failure ≠ none → ∀ index moment, index < sessions →
    (state.slots index).active = true → (pipelineReady moment state index).1 = true

/-- What a slot holds while its dialogue stands where it stands. -/
def Slot.Stands (slot : Slot Content) (running : Prop) : Dialogue Content → Prop
  | .idle => slot.waiting = false ∧ (slot.active = true → slot.context = .receive → running)
  | .asked request now => slot.active = true ∧ slot.waiting = true ∧ slot.context = .receive ∧ ¬ running ∧
      slot.request = request ∧ slot.deadline = request.deadline now
  | .settled request cause => slot.active = true ∧ slot.waiting = false ∧ slot.context = .receive ∧
      ¬ running ∧ slot.request = request ∧ slot.result = cause.outcome

def State.RunningAt (state : State Content) (index : Nat) : Prop :=
  state.running = true ∧ state.current = index

/-- Every slot stands where its dialogue in the log stands. -/
def SlotsInv (state : State Content) : Prop :=
  ∀ index, ∃ dialogue, Speaks index state.log dialogue ∧
    (state.slots index).Stands (state.RunningAt index) dialogue

structure ChannelsInv (fabric : Fabric Content) (log : List (Event Content)) : Prop where
  in_order : ∀ peer cls, consumed peer cls log = List.range (fabric.channel peer cls).queue.taken
  delivered : ∀ slot request peer position frame,
    Event.settled slot request (.satisfied peer position frame) ∈ log →
      (fabric.channel peer request.cls).queue.sent[position]? = some frame

/-- Only the abort's error ends a receive here. -/
def OnlyAborted (err : Error) (events : List (Event Content)) : Prop :=
  (∀ other, Event.aborted other ∉ events) ∧
    ∀ slot request cause, Event.settled slot request cause ∈ events → cause = .aborted err

/-- Without a failure the log has no abort; with one it has that abort only, and nothing waits. -/
def FailureInv (state : State Content) : Prop :=
  match state.failure with
  | none => ∀ err, Event.aborted err ∉ state.log
  | some err => (∀ index, (state.slots index).waiting = false) ∧ ∃ before after,
      state.log = before ++ Event.aborted err :: after ∧ (∀ other, Event.aborted other ∉ before) ∧
        OnlyAborted err after

structure Inv (state : State Content) : Prop where
  slots : SlotsInv state
  channels : ChannelsInv state.fabric state.log
  failure : FailureInv state
  bounded : ∀ index, (state.slots index).active = true → index < sessions
  running_active : state.running = true → (state.slots state.current).active = true

section Log

variable {slot : Nat} {log events : List (Event Content)} {dialogue : Dialogue Content}

theorem Speaks.append_other (h : Speaks slot log dialogue)
    (hevents : ∀ event ∈ events, Event.slot? event ≠ some slot) : Speaks slot (log ++ events) dialogue := by
  induction events generalizing log with
  | nil => exact (append_nil log).symm ▸ h
  | cons event rest ih =>
    rw [append_cons]
    exact ih (h.other (hevents event mem_cons_self))
      (forall_mem_cons.mp hevents).2

theorem SlotsInv.move {state state' : State Content} (h : SlotsInv state) (index : Nat)
    (hslots : ∀ j, j ≠ index → state'.slots j = state.slots j)
    (hrunning : ∀ j, j ≠ index → (state'.RunningAt j ↔ state.RunningAt j))
    (hlog : state'.log = state.log ++ events) (hevents : ∀ event ∈ events, event.slot? = some index)
    (hown : ∃ dialogue, Speaks index state'.log dialogue ∧
      (state'.slots index).Stands (state'.RunningAt index) dialogue) : SlotsInv state' := by
  intro j
  by_cases hj : j = index
  · exact hj ▸ hown
  · obtain ⟨dialogue, hspeaks, hstands⟩ := h j
    refine ⟨dialogue, ?_, ?_⟩
    · rw [hlog]
      refine hspeaks.append_other fun event hevent heq => hj ?_
      rw [hevents event hevent] at heq
      exact (Option.some.inj heq).symm
    · rwa [hslots j hj, propext (hrunning j hj)]

def Silent (events : List (Event Content)) : Prop :=
  ∀ event ∈ events, ∀ peer cls, Event.consumes peer cls event = none

theorem ChannelsInv.append_silent {fabric : Fabric Content} (h : ChannelsInv fabric log)
    (hevents : Silent events) : ChannelsInv fabric (log ++ events) := by
  constructor
  · intro peer cls
    have hnone : consumed peer cls events = [] :=
      filterMap_eq_nil_iff.mpr fun event hevent => hevents event hevent peer cls
    unfold consumed at hnone ⊢
    rw [filterMap_append, hnone, append_nil]
    exact h.in_order peer cls
  · intro slot request peer position frame hmem
    rcases mem_append.mp hmem with hold | hnew
    · exact h.delivered slot request peer position frame hold
    · have hconsumes := hevents _ hnew peer request.cls
      simp [Event.consumes, Cause.consumed] at hconsumes

theorem OnlyAborted.append {err : Error} {more : List (Event Content)} (h : OnlyAborted err events)
    (hmore : OnlyAborted err more) : OnlyAborted err (events ++ more) := by
  refine ⟨fun other hmem => ?_, fun slot request cause hmem => ?_⟩
  · rcases mem_append.mp hmem with hold | hnew
    · exact h.1 other hold
    · exact hmore.1 other hnew
  · rcases mem_append.mp hmem with hold | hnew
    · exact h.2 slot request cause hold
    · exact hmore.2 slot request cause hnew

end Log

section Channels

variable {fabric : Fabric Content} {log : List (Event Content)}

theorem ChannelsInv.arrive (h : ChannelsInv fabric log) (arrival : Arrival Content) :
    ChannelsInv (fabric.arrive arrival) log := by
  constructor
  · intro peer cls
    rw [h.in_order peer cls]
    cases arrival with
    | frame p c frame =>
      simp only [Fabric.arrive, Fabric.update]
      split_ifs
      · rfl
      · rfl
    | link p c link =>
      simp only [Fabric.arrive, Fabric.update]
      split_ifs
      · rfl
      · rfl
  · intro slot request peer position frame hmem
    have hsent := h.delivered slot request peer position frame hmem
    cases arrival with
    | frame p c frame =>
      simp only [Fabric.arrive, Fabric.update]
      split_ifs
      · exact Fifo.push_getElem? hsent
      · exact hsent
    | link p c link =>
      simp only [Fabric.arrive, Fabric.update]
      split_ifs
      · exact hsent
      · exact hsent

theorem ChannelsInv.arrivals (h : ChannelsInv fabric log) (arrivals : List (Arrival Content)) :
    ChannelsInv (arrivals.foldl Fabric.arrive fabric) log := by
  induction arrivals generalizing fabric with
  | nil => exact h
  | cons arrival rest ih => exact ih (h.arrive arrival)

theorem ChannelsInv.consume {slot peer : Nat} {request : Request} {frame : WireFrame Content}
    {cause : Cause Content} (h : ChannelsInv fabric log)
    (hhead : (fabric.channel peer request.cls).queue.head? = some frame)
    (hconsumed : cause.consumed = some (peer, (fabric.channel peer request.cls).queue.taken))
    (hframe : ∀ p position other, cause = .satisfied p position other → other = frame) :
    ChannelsInv (fabric.consume peer request.cls) (log ++ [.settled slot request cause]) := by
  constructor
  · intro p c
    unfold consumed
    rw [filterMap_append]
    change consumed p c log ++ _ = _
    rw [h.in_order p c]
    simp only [Fabric.consume, Fabric.update, filterMap_cons, filterMap_nil, Event.consumes, hconsumed]
    by_cases hsame : p = peer ∧ c = request.cls
    · obtain ⟨rfl, rfl⟩ := hsame
      simp only [and_self, if_true, Fifo.pop_taken hhead, range_succ]
    · have hother : ¬ (peer = p ∧ request.cls = c) := fun heq => hsame ⟨heq.1.symm, heq.2.symm⟩
      simp only [if_neg hsame, if_neg hother, append_nil]
  · intro s r p position other hmem
    have hkeep : ((fabric.consume peer request.cls).channel p r.cls).queue.sent =
        (fabric.channel p r.cls).queue.sent := by
      simp only [Fabric.consume, Fabric.update]
      split_ifs
      · rfl
      · rfl
    rw [hkeep]
    rcases mem_append.mp hmem with hold | hnew
    · exact h.delivered s r p position other hold
    · rw [mem_singleton] at hnew
      cases hnew
      cases hconsumed
      rw [hframe _ _ _ rfl]
      exact hhead

end Channels

/-- What a poll for `slot` can answer. -/
inductive Polled (slot : Nat) (request : Request) (fabric : Fabric Content) :
    Option (Cause Content) → Fabric Content → Prop where
  | nothing : Polled slot request fabric none fabric
  | failed (err : Error) : Polled slot request fabric (some (.failed err)) fabric
  | consumed {peer : Nat} {frame : WireFrame Content} {cause : Cause Content} :
      (fabric.channel peer request.cls).queue.head? = some frame → (∀ asked, cause.Grants slot request asked) →
      cause.consumed = some (peer, (fabric.channel peer request.cls).queue.taken) →
      (∀ p position other, cause = .satisfied p position other → other = frame) →
      Polled slot request fabric (some cause) (fabric.consume peer request.cls)

theorem Channel.peek_header {channel : Channel Content} {interrupted : Bool} {frame : WireFrame Content}
    (h : channel.peek interrupted = .header frame) : channel.queue.head? = some frame := by
  unfold Channel.peek at h
  split_ifs at h
  split at h
  next hhead =>
    cases h
    exact hhead
  · cases h
  · cases h

section Polling

variable {slot : Nat} {request : Request} {fabric : Fabric Content}

theorem pollRanks_polled (interrupted : Nat → Bool) (ranks : List Nat) :
    Polled slot request fabric (pollRanks interrupted slot request fabric ranks).1
      (pollRanks interrupted slot request fabric ranks).2 := by
  induction ranks with
  | nil => exact .nothing
  | cons rank rest ih =>
    unfold pollRanks
    split_ifs with hskip
    · exact ih
    · have hwanted : request.wantedPeer = none ∨ request.wantedPeer = some rank := by
        by_cases hnone : request.wantedPeer = none
        · exact .inl hnone
        · exact .inr (by_contra fun hne => hskip (.inr ⟨hnone, hne⟩))
      split
      · exact ih
      · exact .failed _
      next frame hpeek =>
        have hhead := Channel.peek_header hpeek
        split_ifs with hslot hother hsize
        · exact .failed _
        · exact ih
        · exact .failed _
        · have hmine : frame.slot = slot := not_not.mp hother
          split
          · refine .consumed hhead (fun _ => ⟨hmine, hwanted⟩) rfl fun p position other heq => ?_
            cases heq
            rfl
          · refine .consumed hhead (fun _ => ⟨hmine, hwanted⟩) rfl fun p position other heq => ?_
            cases heq

theorem pollSlot_polled (slot : Nat) (request : Request) (fabric : Fabric Content)
    (interrupted : Nat → Bool) :
    Polled slot request fabric (pollSlot interrupted slot request fabric).1
      (pollSlot interrupted slot request fabric).2 := by
  unfold pollSlot
  dsimp only
  split_ifs
  · exact .failed _
  · exact pollRanks_polled interrupted _

end Polling

section Steps

variable {state : State Content}

@[simp] theorem State.arrive_slots (arrivals : List (Arrival Content)) :
    (state.arrive arrivals).slots = state.slots := rfl

theorem Inv.arrive (h : Inv state) (arrivals : List (Arrival Content)) : Inv (state.arrive arrivals) :=
  ⟨h.slots, h.channels.arrivals arrivals, h.failure, h.bounded, h.running_active⟩

theorem SlotsInv.settle (h : SlotsInv state) {index : Nat} (hwaiting : (state.slots index).waiting = true)
    {cause : Cause Content}
    (hgrants : ∀ now, (state.slots index).deadline = (state.slots index).request.deadline now →
      cause.Grants index (state.slots index).request now) : SlotsInv (state.settle index cause) := by
  refine h.move index (fun j hj => update_of_ne hj _ _) (fun j _ => Iff.rfl) rfl (by simp [Event.slot?]) ?_
  obtain ⟨dialogue, hspeaks, hstands⟩ := h index
  cases dialogue with
  | idle =>
    rw [hstands.1] at hwaiting
    cases hwaiting
  | asked request now =>
    obtain ⟨hactive, -, hcontext, hrunning, rfl, hdeadline⟩ := hstands
    refine ⟨.settled _ cause, hspeaks.settled (hgrants now hdeadline), ?_⟩
    simp only [State.settle, update_self]
    exact ⟨hactive, rfl, hcontext, hrunning, rfl, rfl⟩
  | settled request cause' =>
    rw [hstands.2.1] at hwaiting
    cases hwaiting

theorem State.settle_active (index : Nat) (cause : Cause Content) (j : Nat) :
    ((state.settle index cause).slots j).active = (state.slots j).active := by
  by_cases hj : j = index
  · subst hj
    simp only [State.settle, update_self]
  · simp only [State.settle, update_of_ne hj]

theorem FailureInv.settle (h : FailureInv state) {index : Nat}
    (hwaiting : (state.slots index).waiting = true) (cause : Cause Content) (fabric : Fabric Content) :
    FailureInv ({ state with fabric := fabric }.settle index cause) := by
  unfold FailureInv at h ⊢
  cases hfailure : state.failure with
  | none =>
    rw [hfailure] at h
    intro err hmem
    rcases mem_append.mp hmem with hold | hnew
    · exact h err hold
    · simp at hnew
  | some err =>
    rw [hfailure] at h
    rw [h.1 index] at hwaiting
    cases hwaiting

theorem pipelineReady_cases (moment : Moment Content) (state : State Content) (index : Nat) :
    ((pipelineReady moment state index).2 = state.arrive moment.arrivals ∧
        ((pipelineReady moment state index).1 = true →
          index < sessions ∧ (state.slots index).active = true ∧ (state.slots index).waiting = false)) ∨
      (index < sessions ∧ (state.slots index).active = true ∧ (state.slots index).waiting = true ∧
        ∃ cause fabric, Polled index (state.slots index).request (state.arrive moment.arrivals).fabric
            (some cause) fabric ∧
          (pipelineReady moment state index).2 =
            { state.arrive moment.arrivals with fabric := fabric }.settle index cause) ∨
      (index < sessions ∧ (state.slots index).active = true ∧ (state.slots index).waiting = true ∧
        (state.slots index).deadline ≠ 0 ∧ (state.slots index).deadline ≤ moment.now ∧
        (pipelineReady moment state index).2 =
          (state.arrive moment.arrivals).settle index (.timedOut moment.now)) := by
  unfold pipelineReady
  by_cases hindex : sessions ≤ index
  · rw [if_pos hindex]
    exact .inl ⟨rfl, Bool.false_ne_true.elim⟩
  rw [if_neg hindex]
  by_cases hactive : (state.slots index).active = false
  · rw [if_pos hactive]
    exact .inl ⟨rfl, Bool.false_ne_true.elim⟩
  rw [if_neg hactive]
  have hlt : index < sessions := by omega
  rw [Bool.not_eq_false] at hactive
  by_cases hwaiting : (state.slots index).waiting = false
  · rw [if_pos hwaiting]
    exact .inl ⟨rfl, fun _ => ⟨hlt, hactive, hwaiting⟩⟩
  rw [if_neg hwaiting]
  rw [Bool.not_eq_false] at hwaiting
  have hpolled := pollSlot_polled index (state.slots index).request (state.arrive moment.arrivals).fabric
    moment.interrupted
  split
  next cause fabric hpoll =>
    rw [hpoll] at hpolled
    exact .inr (.inl ⟨hlt, hactive, hwaiting, cause, fabric, hpolled, rfl⟩)
  · by_cases hdeadline : (state.slots index).deadline = 0 ∨ moment.now < (state.slots index).deadline
    · rw [if_pos hdeadline]
      exact .inl ⟨rfl, Bool.false_ne_true.elim⟩
    · rw [if_neg hdeadline]
      rw [not_or, Nat.not_lt] at hdeadline
      exact .inr (.inr ⟨hlt, hactive, hwaiting, hdeadline.1, hdeadline.2, rfl⟩)

theorem pipelineReady_inv (h : Inv state) (moment : Moment Content) (index : Nat) :
    Inv (pipelineReady moment state index).2 := by
  have harrived := h.arrive moment.arrivals
  rcases pipelineReady_cases moment state index with
    ⟨heq, -⟩ | ⟨-, -, hwaiting, cause, fabric, hpolled, heq⟩ | ⟨-, -, hwaiting, hset, hpast, heq⟩
  · exact heq ▸ harrived
  · rw [heq]
    refine ⟨?_, ?_, harrived.failure.settle hwaiting cause fabric, fun j hj => ?_, fun hrun => ?_⟩
    · have hslots : SlotsInv { state.arrive moment.arrivals with fabric := fabric } := harrived.slots
      refine hslots.settle hwaiting fun now _ => ?_
      cases hpolled with
      | failed err => trivial
      | consumed hhead hgrants hconsumed hframe => exact hgrants now
    · cases hpolled with
      | failed err =>
        exact harrived.channels.append_silent (by simp [Silent, Event.consumes, Cause.consumed])
      | consumed hhead hgrants hconsumed hframe =>
        exact harrived.channels.consume hhead hconsumed hframe
    · rw [State.settle_active] at hj
      exact h.bounded j hj
    · rw [State.settle_active]
      exact h.running_active hrun
  · rw [heq]
    refine ⟨?_, ?_, harrived.failure.settle hwaiting _ _, fun j hj => ?_, fun hrun => ?_⟩
    · refine SlotsInv.settle harrived.slots hwaiting fun now hdeadline => ?_
      rw [State.arrive_slots] at hdeadline ⊢
      rw [hdeadline] at hset hpast
      unfold Request.deadline at hset hpast
      cases htimeout : (state.slots index).request.timeout with
      | none =>
        rw [htimeout] at hset
        exact absurd rfl hset
      | some timeout =>
        rw [htimeout] at hpast
        exact ⟨timeout, htimeout, hpast⟩
    · exact harrived.channels.append_silent (by simp [Silent, Event.consumes, Cause.consumed])
    · rw [State.settle_active] at hj
      exact h.bounded j hj
    · rw [State.settle_active]
      exact h.running_active hrun

theorem pipelineReady_ready (moment : Moment Content) (index : Nat)
    (h : (pipelineReady moment state index).1 = true) :
    ((pipelineReady moment state index).2.slots index).active = true ∧
      ((pipelineReady moment state index).2.slots index).waiting = false := by
  rcases pipelineReady_cases moment state index with
    ⟨heq, hready⟩ | ⟨-, hactive, -, cause, fabric, -, heq⟩ | ⟨-, hactive, -, -, -, heq⟩
  · rw [heq]
    exact (hready h).2
  · rw [heq]
    simp only [State.settle, update_self]
    exact ⟨hactive, trivial⟩
  · rw [heq]
    simp only [State.settle, update_self]
    exact ⟨hactive, trivial⟩

theorem pipelineReady_running (moment : Moment Content) (state : State Content) (index : Nat) :
    (pipelineReady moment state index).2.running = state.running := by
  rcases pipelineReady_cases moment state index with ⟨heq, -⟩ | ⟨-, -, -, _, _, -, heq⟩ | ⟨-, -, -, -, -, heq⟩
  · rw [heq]
    rfl
  · rw [heq]
    rfl
  · rw [heq]
    rfl

theorem pickAmong_inv (moments : Nat → Moment Content) (polls : Nat) (indices : List Nat) (h : Inv state) :
    Inv (pickAmong moments polls indices state).2 := by
  induction indices generalizing polls state with
  | nil => exact h
  | cons index rest ih =>
    have hready := pipelineReady_inv h (moments polls) index
    unfold pickAmong
    split
    next heq =>
      rwa [heq] at hready
    next heq =>
      rw [heq] at hready
      exact ih (polls + 1) hready

theorem FailureInv.append {state' : State Content} {events : List (Event Content)} (h : FailureInv state)
    (hfailure : state'.failure = state.failure) (hlog : state'.log = state.log ++ events)
    (hquiet : ∀ err, state.failure = some err → OnlyAborted err events)
    (hnone : ∀ err, Event.aborted err ∉ events)
    (hwaiting : state.failure ≠ none → (∀ index, (state.slots index).waiting = false) →
      ∀ index, (state'.slots index).waiting = false) : FailureInv state' := by
  unfold FailureInv at h ⊢
  rw [hfailure, hlog]
  cases hstate : state.failure with
  | none =>
    rw [hstate] at h
    intro err hmem
    rcases mem_append.mp hmem with hold | hnew
    · exact h err hold
    · exact hnone err hnew
  | some err =>
    rw [hstate] at h
    obtain ⟨hidle, before, after, heq, hbefore, hafter⟩ := h
    refine ⟨hwaiting (by simp [hstate]) hidle, before, after ++ events, ?_, hbefore, hafter.append (hquiet err hstate)⟩
    rw [heq, append_assoc, cons_append]

section

variable (h : Inv state)
include h

theorem State.resume_inv (hstopped : state.running = false) {index : Nat}
    (hactive : (state.slots index).active = true) (hwaiting : (state.slots index).waiting = false) :
    Inv (state.resume index) := by
  have hother : ∀ j, j ≠ index → ((state.resume index).RunningAt j ↔ state.RunningAt j) := by
    intro j hj
    simp only [State.RunningAt, State.resume, hstopped]
    exact ⟨fun hrun => absurd hrun.2.symm hj, fun hrun => absurd hrun.1 Bool.false_ne_true⟩
  have hidle : ((state.resume index).slots index).Stands ((state.resume index).RunningAt index)
      (Dialogue.idle : Dialogue Content) := ⟨hwaiting, fun _ _ => ⟨rfl, rfl⟩⟩
  obtain ⟨dialogue, hspeaks, hstands⟩ := h.slots index
  by_cases hcontext : (state.slots index).context = .receive
  · have hlog : (state.resume index).log =
        state.log ++ [.returned index (state.slots index).request (state.slots index).result] := by
      simp only [State.resume, hcontext]
    cases dialogue with
    | idle => exact absurd (hstands.2 hactive hcontext).1 (by simp [hstopped])
    | asked request now =>
      rw [hstands.2.1] at hwaiting
      cases hwaiting
    | settled request cause =>
      obtain ⟨-, -, -, -, hrequest, hresult⟩ := hstands
      refine ⟨?_, ?_, ?_, h.bounded, fun _ => hactive⟩
      · refine h.slots.move index (fun _ _ => rfl) hother hlog (by simp [Event.slot?]) ⟨.idle, ?_, hidle⟩
        rw [hlog, hrequest, hresult]
        exact hspeaks.returned
      · rw [hlog]
        exact h.channels.append_silent (by simp [Silent, Event.consumes])
      · exact h.failure.append rfl hlog (fun err _ => by simp [OnlyAborted]) (by simp) fun _ hw => hw
  · have hlog : (state.resume index).log = state.log := by
      unfold State.resume
      dsimp only
      split
      · exact absurd ‹_› hcontext
      · rfl
    refine ⟨?_, ?_, ?_, h.bounded, fun _ => hactive⟩
    · refine h.slots.move index (fun _ _ => rfl) hother (hlog.trans (append_nil _).symm) (by simp)
        ⟨.idle, ?_, hidle⟩
      rw [hlog]
      cases dialogue with
      | idle => exact hspeaks
      | asked request now => exact absurd hstands.2.2.1 hcontext
      | settled request cause => exact absurd hstands.2.2.1 hcontext
    · rw [hlog]
      exact h.channels
    · exact h.failure.append rfl (hlog.trans (append_nil _).symm) (fun err _ => by simp [OnlyAborted])
        (by simp) fun _ hw => hw

theorem pipelineTurn_inv (hstopped : state.running = false) (moment : Moment Content)
    (index : Nat) : Inv (pipelineTurn moment state index) := by
  have hready := pipelineReady_inv h moment index
  have hrunning := pipelineReady_running moment state index
  unfold pipelineTurn
  split
  next heq =>
    rwa [heq] at hready
  next heq =>
    obtain ⟨hactive, hwaiting⟩ := pipelineReady_ready moment index (by rw [heq])
    rw [heq] at hready hrunning hactive hwaiting
    exact State.resume_inv hready (hrunning.trans hstopped) hactive hwaiting

section

variable (hrunning : state.running = true)
include hrunning

theorem State.yield_inv {slot : Slot Content}
    (hwaiting : slot.waiting = false) (hcontext : slot.active = true → slot.context ≠ .receive) :
    Inv (state.yield slot) := by
  have hother : ∀ j, j ≠ state.current → ((state.yield slot).RunningAt j ↔ state.RunningAt j) := by
    intro j hj
    exact ⟨fun hrun => absurd hrun.1 Bool.false_ne_true, fun hrun => absurd hrun.2.symm hj⟩
  obtain ⟨dialogue, hspeaks, hstands⟩ := h.slots state.current
  have hown : (state.yield slot).slots state.current = slot := update_self _ _ _
  refine ⟨?_, h.channels, ?_, fun j hj => ?_, Bool.false_ne_true.elim⟩
  · refine h.slots.move state.current (fun j hj => update_of_ne hj _ _) hother
      (append_nil _).symm (by simp) ⟨.idle, ?_, ?_⟩
    · cases dialogue with
      | idle => exact hspeaks
      | asked request now => exact absurd ⟨hrunning, rfl⟩ hstands.2.2.2.1
      | settled request cause => exact absurd ⟨hrunning, rfl⟩ hstands.2.2.2.1
    · rw [hown]
      exact ⟨hwaiting, fun hon hreceive => absurd hreceive (hcontext hon)⟩
  · refine h.failure.append rfl (append_nil _).symm (fun err _ => by simp [OnlyAborted]) (by simp)
      fun _ hidle j => ?_
    by_cases hj : j = state.current
    · rw [hj, hown]
      exact hwaiting
    · exact (congrArg Slot.waiting (update_of_ne hj _ _)).trans (hidle j)
  · by_cases hcurrent : j = state.current
    · rw [hcurrent] at hj ⊢
      exact h.bounded _ (h.running_active hrunning)
    · exact h.bounded j ((congrArg Slot.active (update_of_ne hcurrent _ _)).symm.trans hj)

theorem Inv.running_idle :
    Speaks state.current state.log (Dialogue.idle : Dialogue Content) ∧
      (state.slots state.current).waiting = false := by
  obtain ⟨dialogue, hspeaks, hstands⟩ := h.slots state.current
  cases dialogue with
  | idle => exact ⟨hspeaks, hstands.1⟩
  | asked request now => exact absurd ⟨hrunning, rfl⟩ hstands.2.2.2.1
  | settled request cause => exact absurd ⟨hrunning, rfl⟩ hstands.2.2.2.1

theorem pipelineReceive_inv (request : Request)
    (now : Nat) : Inv (pipelineReceive state request now) := by
  obtain ⟨hspeaks, hidle⟩ := h.running_idle hrunning
  have hactive := h.running_active hrunning
  unfold pipelineReceive
  cases hfailure : state.failure with
  | some failure =>
    have hgrants : (Cause.aborted failure : Cause Content).Grants state.current request now := trivial
    refine ⟨?_, ?_, ?_, h.bounded, h.running_active⟩
    · refine h.slots.move state.current (fun _ _ => rfl) (fun _ _ => Iff.rfl)
        ((append_assoc _ _ _).trans (append_assoc _ _ _)) (by simp [Event.slot?]) ⟨.idle, ?_, ?_⟩
      · exact ((hspeaks.asked request now).settled hgrants).returned
      · exact ⟨hidle, fun _ _ => ⟨hrunning, rfl⟩⟩
    · dsimp only
      rw [append_assoc, append_assoc]
      exact h.channels.append_silent (by simp [Silent, Event.consumes, Cause.consumed])
    · refine h.failure.append hfailure.symm ((append_assoc _ _ _).trans (append_assoc _ _ _))
        (fun err herr => ?_) (by simp) fun _ hw => hw
      rw [hfailure] at herr
      cases herr
      simp [OnlyAborted]
  | none =>
    refine ⟨?_, ?_, ?_, fun j hj => ?_, Bool.false_ne_true.elim⟩
    · refine h.slots.move state.current (fun j hj => update_of_ne hj _ _) (fun j hj => ?_) rfl
        (by simp [Event.slot?]) ⟨.asked request now, hspeaks.asked request now, ?_⟩
      · exact ⟨fun hrun => absurd hrun.1 Bool.false_ne_true, fun hrun => absurd hrun.2.symm hj⟩
      · simp only [State.yield, update_self]
        exact ⟨hactive, rfl, rfl, fun hrun => absurd hrun.1 Bool.false_ne_true, rfl, rfl⟩
    · exact h.channels.append_silent (by simp [Silent, Event.consumes])
    · refine h.failure.append hfailure.symm rfl (fun err herr => ?_) (by simp) fun hfailed _ => ?_
      · rw [hfailure] at herr
        cases herr
      · exact absurd hfailure hfailed
    · by_cases hcurrent : j = state.current
      · exact hcurrent ▸ h.bounded _ hactive
      · exact h.bounded j ((congrArg Slot.active (update_of_ne hcurrent _ _)).symm.trans hj)

end

theorem Inv.update_slot (index : Nat) {slot : Slot Content}
    (hwaiting : slot.waiting = false)
    (hspeaks : Speaks index state.log (Dialogue.idle : Dialogue Content))
    (hcontext : slot.active = true → slot.context = .receive → state.RunningAt index)
    (hbounded : slot.active = true → index < sessions)
    (hactive : (state.slots index).active = true → slot.active = true) :
    Inv { state with slots := update state.slots index slot } := by
  refine ⟨?_, h.channels, ?_, fun j hj => ?_, fun hrun => ?_⟩
  · refine h.slots.move index (fun j hj => update_of_ne hj _ _) (fun _ _ => Iff.rfl)
      (append_nil _).symm (by simp) ⟨.idle, hspeaks, ?_⟩
    simp only [update_self]
    exact ⟨hwaiting, hcontext⟩
  · refine h.failure.append rfl (append_nil _).symm (fun err _ => by simp [OnlyAborted]) (by simp)
      fun _ hidle j => ?_
    by_cases hj : j = index
    · subst hj
      simp only [update_self]
      exact hwaiting
    · simp only [update_of_ne hj]
      exact hidle j
  · by_cases hindex : j = index
    · subst hindex
      simp only [update_self] at hj
      exact hbounded hj
    · simp only [update_of_ne hindex] at hj
      exact h.bounded j hj
  · have hcurrent := h.running_active hrun
    by_cases hindex : state.current = index
    · rw [hindex] at hcurrent ⊢
      simp only [update_self]
      exact hactive hcurrent
    · simp only [update_of_ne hindex]
      exact hcurrent

theorem pipelineStart_inv (index : Nat) : Inv (pipelineStart state index) := by
  unfold pipelineStart
  split_ifs with hrefused
  · exact h
  · rw [not_or] at hrefused
    obtain ⟨dialogue, hspeaks, hstands⟩ := h.slots index
    refine h.update_slot index rfl ?_ (fun _ hcontext => Context.noConfusion hcontext)
      (fun _ => by omega) fun _ => rfl
    cases dialogue with
    | idle => exact hspeaks
    | asked request now => exact absurd hstands.1 hrefused.2
    | settled request cause => exact absurd hstands.1 hrefused.2

end

theorem abortSlots_spec (failure : Error) (indices : List Nat) (hslots : SlotsInv state)
    (hchannels : ChannelsInv state.fabric state.log) :
    SlotsInv (abortSlots failure indices state) ∧
      ChannelsInv (abortSlots failure indices state).fabric (abortSlots failure indices state).log ∧
      (∃ events, (abortSlots failure indices state).log = state.log ++ events ∧ OnlyAborted failure events) ∧
      (∀ j, ((abortSlots failure indices state).slots j).active = (state.slots j).active) ∧
      (∀ j, ((abortSlots failure indices state).slots j).waiting = true →
        (state.slots j).waiting = true ∧ (j ∈ indices → (state.slots j).active = false)) ∧
      (abortSlots failure indices state).failure = state.failure ∧
      (abortSlots failure indices state).running = state.running := by
  induction indices generalizing state with
  | nil =>
    exact ⟨hslots, hchannels, ⟨[], (append_nil _).symm, by simp [OnlyAborted]⟩, fun _ => rfl,
      fun j hj => ⟨hj, fun hmem => absurd hmem not_mem_nil⟩, rfl, rfl⟩
  | cons index rest ih =>
    unfold abortSlots
    split_ifs with hskip
    · obtain ⟨h1, h2, h3, h4, h5, h6, h7⟩ := ih hslots hchannels
      refine ⟨h1, h2, h3, h4, fun j hj => ⟨(h5 j hj).1, fun hmem => ?_⟩, h6, h7⟩
      rcases mem_cons.mp hmem with rfl | hrest
      · rcases hskip with hinactive | hidle
        · exact hinactive
        · exact absurd (h5 j hj).1 (by simp [hidle])
      · exact (h5 j hj).2 hrest
    · rw [not_or, Bool.not_eq_false, Bool.not_eq_false] at hskip
      have hsettled : SlotsInv (state.settle index (.aborted failure)) :=
        hslots.settle hskip.2 fun _ _ => trivial
      have hsilent : ChannelsInv (state.settle index (.aborted failure)).fabric
          (state.settle index (.aborted failure)).log :=
        hchannels.append_silent (by simp [Silent, Event.consumes, Cause.consumed])
      obtain ⟨h1, h2, ⟨events, hlog, hevents⟩, h4, h5, h6, h7⟩ := ih hsettled hsilent
      refine ⟨h1, h2, ⟨.settled index (state.slots index).request (.aborted failure) :: events, ?_, ?_⟩,
        fun j => (h4 j).trans (State.settle_active index _ j), fun j hj => ?_, h6, h7⟩
      · rw [hlog]
        exact append_assoc _ _ _
      · have hfirst : OnlyAborted failure
            [(.settled index (state.slots index).request (.aborted failure) : Event Content)] := by
          simp [OnlyAborted]
        exact hfirst.append hevents
      · obtain ⟨hwaiting, hrest⟩ := h5 j hj
        by_cases hindex : j = index
        · subst hindex
          simp only [State.settle, update_self] at hwaiting
          cases hwaiting
        · simp only [State.settle, update_of_ne hindex] at hwaiting hrest
          exact ⟨hwaiting, fun hmem => hrest ((mem_cons.mp hmem).resolve_left hindex)⟩

theorem SlotsInv.waiting_active (h : SlotsInv state) {index : Nat}
    (hwaiting : (state.slots index).waiting = true) : (state.slots index).active = true := by
  obtain ⟨dialogue, -, hstands⟩ := h index
  cases dialogue with
  | idle =>
    rw [hstands.1] at hwaiting
    cases hwaiting
  | asked request now => exact hstands.1
  | settled request cause => exact hstands.1

theorem pipelineAbort_inv (h : Inv state) (hstopped : state.running = false) (error : Option Error) :
    Inv (pipelineAbort state error) := by
  unfold pipelineAbort
  cases hfailure : state.failure with
  | some failure => exact h
  | none =>
    generalize error.getD ⟨.unavailable, "ring recovery in progress"⟩ = failure
    have hslots : SlotsInv { state with failure := some failure, log := state.log ++ [Event.aborted failure] } := by
      intro j
      obtain ⟨dialogue, hspeaks, hstands⟩ := h.slots j
      exact ⟨dialogue, hspeaks.other (by simp [Event.slot?]), hstands⟩
    have hchannels : ChannelsInv state.fabric (state.log ++ [Event.aborted failure]) :=
      h.channels.append_silent (by simp [Silent, Event.consumes])
    obtain ⟨h1, h2, ⟨events, hlog, hevents⟩, h4, h5, h6, h7⟩ :=
      abortSlots_spec failure (List.range sessions) hslots hchannels
    have hnone : ∀ err, Event.aborted err ∉ state.log := by
      have hinv := h.failure
      unfold FailureInv at hinv
      rwa [hfailure] at hinv
    refine ⟨h1, h2, ?_, fun j hj => h.bounded j ((h4 j).symm.trans hj), fun hrun => ?_⟩
    · unfold FailureInv
      rw [h6]
      refine ⟨fun j => ?_, state.log, events, ?_, hnone, hevents⟩
      · by_contra hwaiting
        rw [Bool.not_eq_false] at hwaiting
        obtain ⟨hbefore, hlisted⟩ := h5 j hwaiting
        have hactive := h.slots.waiting_active hbefore
        have hoff := hlisted (mem_range.mpr (h.bounded j hactive))
        exact absurd (hactive.symm.trans hoff) (by simp)
      · rw [hlog]
        exact append_assoc _ _ _
    · rw [h7] at hrun
      exact absurd (hrun.symm.trans hstopped) (by simp)

theorem step_inv {state' : State Content} {action : Action Content} (h : Inv state)
    (hstep : step state action = some state') : Inv state' := by
  unfold step at hstep
  cases action with
  | arrive arrival =>
    cases hstep
    exact h.arrive [arrival]
  | start index =>
    split_ifs at hstep with hrunning
    cases hstep
    exact pipelineStart_inv h index
  | pick moments =>
    split_ifs at hstep with hrunning
    cases hstep
    exact pickAmong_inv moments 0 _ h
  | turn index moment =>
    split_ifs at hstep with hrunning
    cases hstep
    exact pipelineTurn_inv h (by simpa using hrunning) moment index
  | abort error =>
    split_ifs at hstep with hrunning
    cases hstep
    exact pipelineAbort_inv h (by simpa using hrunning) error
  | receive request now =>
    split_ifs at hstep with hrunning
    cases hstep
    exact pipelineReceive_inv h hrunning request now
  | checkpoint =>
    split_ifs at hstep with hrunning
    cases hstep
    exact State.yield_inv h hrunning (h.running_idle hrunning).2 fun _ => Context.noConfusion
  | finish =>
    split_ifs at hstep with hrunning
    cases hstep
    exact State.yield_inv h hrunning (h.running_idle hrunning).2 Bool.false_ne_true.elim
  | setPhase phase =>
    split_ifs at hstep with hrunning
    cases hstep
    obtain ⟨hspeaks, hidle⟩ := h.running_idle hrunning
    exact h.update_slot state.current hidle hspeaks (fun _ _ => ⟨hrunning, rfl⟩)
      (fun _ => h.bounded _ (h.running_active hrunning)) fun hon => hon
  | setStreaming streaming =>
    split_ifs at hstep with hrunning
    cases hstep
    obtain ⟨hspeaks, hidle⟩ := h.running_idle hrunning
    exact h.update_slot state.current hidle hspeaks (fun _ _ => ⟨hrunning, rfl⟩)
      (fun _ => h.bounded _ (h.running_active hrunning)) fun hon => hon

end Steps

theorem init_inv (self : Nat) (decodePriority : Bool) : Inv (init self decodePriority : State Content) := by
  refine ⟨fun index => ⟨.idle, .silent, rfl, fun h => absurd h Bool.false_ne_true⟩, ⟨fun _ _ => rfl, ?_⟩,
    fun err h => absurd h not_mem_nil, fun _ h => absurd h Bool.false_ne_true,
    Bool.false_ne_true.elim⟩
  exact fun _ _ _ _ _ h => absurd h not_mem_nil

theorem QuietAfterAbort.of_single {before after : List (Event Content)} {err : Error}
    (hbefore : ∀ other, Event.aborted other ∉ before) (hafter : OnlyAborted err after) :
    QuietAfterAbort (before ++ Event.aborted err :: after) := by
  intro b e a heq
  have hsplit : before = b ∧ Event.aborted err :: after = Event.aborted e :: a := by
    rcases append_eq_append_iff.mp heq with ⟨more, hb, hrest⟩ | ⟨more, hb, hrest⟩
    · cases more with
      | nil => exact ⟨by simpa using hb.symm, by simpa using hrest⟩
      | cons event rest =>
        rw [cons_append, List.cons.injEq] at hrest
        refine absurd ?_ (hafter.1 e)
        rw [hrest.2]
        exact mem_append_right _ mem_cons_self
    · cases more with
      | nil => exact ⟨by simpa using hb, by simpa using hrest.symm⟩
      | cons event rest =>
        rw [cons_append, List.cons.injEq] at hrest
        refine absurd ?_ (hbefore e)
        rw [hb, ← hrest.1]
        exact mem_append_right _ mem_cons_self
  obtain ⟨-, htail⟩ := hsplit
  obtain ⟨rfl, rfl⟩ := htail
  exact hafter.2

theorem Inv.isolated {state : State Content} (h : Inv state) : Isolated state := by
  have hfailure := h.failure
  unfold FailureInv at hfailure
  refine ⟨fun slot => ?_, h.channels.in_order, h.channels.delivered, ?_, ?_⟩
  · obtain ⟨dialogue, hspeaks, hstands⟩ := h.slots slot
    refine ⟨dialogue, hspeaks, fun hfailed request now heq => ?_⟩
    subst heq
    cases hstate : state.failure with
    | none => exact hfailed hstate
    | some err =>
      rw [hstate] at hfailure
      exact absurd ((hfailure.1 slot).symm.trans hstands.2.1) Bool.false_ne_true
  · cases hstate : state.failure with
    | none =>
      rw [hstate] at hfailure
      intro before err after heq
      refine absurd ?_ (hfailure err)
      rw [heq]
      exact mem_append_right _ mem_cons_self
    | some err =>
      rw [hstate] at hfailure
      obtain ⟨-, before, after, heq, hbefore, hafter⟩ := hfailure
      rw [heq]
      exact .of_single hbefore hafter
  · intro hfailed index moment hindex hactive
    cases hstate : state.failure with
    | none => exact absurd hstate hfailed
    | some err =>
      rw [hstate] at hfailure
      unfold pipelineReady
      rw [if_neg (by omega), if_neg (by simp [hactive]), if_pos (hfailure.1 index)]

/-- Isolation holds after every run: any interleaving of peers, scheduler and coroutines. -/
theorem exec_isolated (self : Nat) (decodePriority : Bool) (actions : List (Action Content))
    (state : State Content) (hrun : Runs.exec step (init self decodePriority) actions = some state) :
    Isolated state :=
  (Runs.exec_invariant_always (fun _ _ _ hinv hstep => step_inv hinv hstep)
    (init_inv self decodePriority) hrun).isolated

/-- Both sessions wait for rank 1; the first frame is for slot 1, the second for slot 0; then slot 1 asks
again and the pipeline is aborted. -/
def crossedRun : List (Action Nat) :=
  let request : Request := ⟨none, .control, none, 64, true⟩
  let quietly : Moment Nat := ⟨[], 5, fun _ => false⟩
  [.start 0, .start 1, .turn 0 quietly, .receive request 0, .turn 1 quietly, .receive request 0,
    .arrive (.frame 1 .control ⟨1, 8, .ok (), 100⟩), .arrive (.frame 1 .control ⟨0, 8, .ok (), 200⟩),
    .pick fun _ => quietly, .turn 1 quietly, .receive request 6, .turn 0 quietly, .finish, .abort none,
    .turn 1 quietly]

theorem crossedRun_isolated : ∃ state, Runs.exec step (init 0 true) crossedRun = some state ∧
    Isolated state ∧ consumed 1 .control state.log = [0, 1] ∧ state.failure ≠ none := by
  refine ⟨_, rfl, exec_isolated 0 true crossedRun _ rfl, ?_, ?_⟩
  · rfl
  · exact Option.some_ne_none _

end FlashGordon.Pipeline
