import FlashGordon.Ledger
import FlashGordon.Status

/-! The transport state machine of the runtime and the exchanges that drive it (`runtime.c`): the decode
expert exchange `fire_experts` followed by `collect_experts`, and `resident_ngram_lookup`. What the
fabric does is a parameter of each exchange: whether an encode or a send succeeds, and what the n-th
receive returns, which may be any frame of any peer or a failure. Each exchange also returns the frames
it consumed and the peers it sent to. -/

namespace FlashGordon

/-- The message types of `fg_protocol.h` that the modelled exchanges send or compare with; a frame may
carry any other type code. -/
inductive MessageType where
  | prefillWork
  | expertResult
  | prefillResult
  | ngramResult
  | other (code : UInt16)
  deriving DecidableEq

structure Frame (Payload : Type) where
  peer : Nat
  type : MessageType
  requestId : UInt64
  sequence : UInt32
  payload : Payload

namespace Transport

open Ledger

inductive State where
  | ready
  | pending
  | poisoned
  deriving DecidableEq

/-- Compare-and-exchange from `READY` to `PENDING`. -/
def transportPending : State → State
  | .ready => .pending
  | state => state

/-- Compare-and-exchange from `PENDING` to `READY`. -/
def transportComplete : State → State
  | .pending => .ready
  | state => state

def transportPoison (_ : State) : State := .poisoned

/-- An error is recorded only while the status is still good. -/
def firstError (status : Except Error Unit) (err : Error) : Except Error Unit :=
  match status with
  | .ok () => .error err
  | .error first => .error first

variable {Payload Result : Type}

def Frame.Answers (type : MessageType) (requestId : UInt64) (sequence : UInt32) (frame : Frame Payload) :
    Prop :=
  frame.type = type ∧ frame.requestId = requestId ∧ frame.sequence = sequence

instance (type : MessageType) (requestId : UInt64) (sequence : UInt32) (frame : Frame Payload) :
    Decidable (Frame.Answers type requestId sequence frame) :=
  inferInstanceAs (Decidable (_ ∧ _ ∧ _))

structure SendAttempt where
  destination : Nat
  encode : Except Error Unit
  send : Except Error Unit

/-- `async_expert_context`, as far as the exchange reads it. `sent` lists the peers of the
`remote_count` accepted sends. -/
structure ExpertContext where
  self : Nat
  requestId : UInt64
  sequence : UInt32
  transport : State
  sendFailed : Bool := false
  discardResults : Bool := false
  expectedPeers : Finset Nat := ∅
  sent : List Nat := []

/-- The send loop of `fire_experts`, up to its first failure. -/
def fireRoutes (context : ExpertContext) : List SendAttempt → ExpertContext × Except Error Unit
  | [] => (context, .ok ())
  | route :: rest =>
    if route.destination = context.self then fireRoutes context rest
    else match route.encode with
      | .error err => (context, .error err)
      | .ok () =>
        match route.send with
        | .error err =>
          ({ context with
              sendFailed := true
              transport := transportPoison context.transport }, .error err)
        | .ok () =>
          fireRoutes
            { context with
              sent := context.sent ++ [route.destination]
              expectedPeers := insert route.destination context.expectedPeers
              transport := transportPending context.transport } rest

/-- `fire_experts`, given the outcome of `fg_partition_route`. -/
def fireExperts (context : ExpertContext) (partition : Except Error (List SendAttempt)) :
    ExpertContext × Except Error Unit :=
  let context :=
    { context with
      sendFailed := false
      discardResults := false
      expectedPeers := ∅
      sent := [] }
  match partition with
  | .error err => ({ context with discardResults := true }, .error err)
  | .ok routes =>
    match fireRoutes context routes with
    | (fired, .ok ()) => (fired, .ok ())
    | (fired, .error err) => ({ fired with discardResults := true }, .error err)

structure Collecting (Payload Result : Type) where
  status : Except Error Unit
  book : Book Nat (Frame Payload)
  results : List Result

/-- A frame of `collect_experts` is the reply of its peer. -/
def ExpertReply (context : ExpertContext) (frame : Frame Payload) : Prop :=
  frame.peer < rankCount ∧ frame.peer ∈ context.expectedPeers ∧
    Frame.Answers .expertResult context.requestId context.sequence frame

instance (context : ExpertContext) (frame : Frame Payload) : Decidable (ExpertReply context frame) :=
  inferInstanceAs (Decidable (_ ∧ _ ∧ _))

def collectFrame (decode : Payload → Except Error Result) (context : ExpertContext)
    (collecting : Collecting Payload Result) (frame : Frame Payload) : Collecting Payload Result :=
  let book := collecting.book
  let peer := frame.peer
  let matched := ExpertReply context frame ∧ frame.peer ∉ book.seen
  let status :=
    if matched then collecting.status
    else firstError collecting.status ⟨.mismatch, s!"stale split expert result from peer {peer}"⟩
  let seen := if matched then insert frame.peer book.seen else book.seen
  let failed := if matched then book.failed else true
  match status with
  | .error err => ⟨.error err, ⟨seen, failed, book.consumed ++ [frame]⟩, collecting.results⟩
  | .ok () =>
    match decode frame.payload with
    | .error err => ⟨.error err, ⟨seen, true, book.consumed ++ [frame]⟩, collecting.results⟩
    | .ok result => ⟨.ok (), ⟨seen, failed, book.consumed ++ [frame]⟩, collecting.results ++ [result]⟩

/-- The receive loop, at most `remaining` more times; a failed receive breaks it. -/
def collectRemote (decode : Payload → Except Error Result) (context : ExpertContext)
    (arrive : Nat → Except Error (Frame Payload)) :
    Nat → Collecting Payload Result → Collecting Payload Result
  | 0, collecting => collecting
  | remaining + 1, collecting =>
    match arrive collecting.book.consumed.length with
    | .error err =>
      { collecting with
        status := firstError collecting.status err
        book := { collecting.book with failed := true } }
    | .ok frame => collectRemote decode context arrive remaining (collectFrame decode context collecting frame)

/-- What an exchange leaves behind. -/
structure Outcome (Payload : Type) where
  transport : State
  status : Except Error Unit
  consumed : List (Frame Payload)

def localStatus (context : ExpertContext) (compute : Except Error Unit) : Except Error Unit :=
  if context.discardResults then .ok () else compute

/-- The last decision of `collect_experts`. -/
def closeExperts (context : ExpertContext) (book : Book Nat (Frame Payload)) : State :=
  if book.consumed.length = context.sent.length ∧ book.failed = false ∧
      book.seen = context.expectedPeers then transportComplete context.transport
  else if book.failed = true ∨ book.seen ≠ context.expectedPeers then transportPoison context.transport
  else context.transport

/-- `collect_experts`; `compute` is the outcome of the local experts. -/
def collectExperts (decode : Payload → Except Error Result) (context : ExpertContext)
    (compute : Except Error Unit) (arrive : Nat → Except Error (Frame Payload)) : Outcome Payload :=
  let done := collectRemote decode context arrive context.sent.length
    ⟨localStatus context compute, ⟨∅, context.sendFailed, []⟩, []⟩
  { transport := closeExperts context done.book
    status := done.status
    consumed := done.book.consumed }

/-- The decoded reply of an n-gram shard; `item_count` is the number of heads. -/
structure NgramResult where
  sourceRank : Nat
  destinationRank : Nat
  tokenIndex : UInt32
  heads : List Nat

/-- The plan of `resident_ngram_lookup`: the heads each rank is asked for, and what the encoder and the
fabric answer for each rank. -/
structure NgramPlan where
  heads : Nat → List Nat
  encode : Nat → Except Error Unit
  send : Nat → Except Error Unit

structure NgramSending where
  transport : State
  status : Except Error Unit
  failed : Bool
  sent : List Nat

def ngramSends (plan : NgramPlan) : List Nat → NgramSending → NgramSending
  | [], sending => sending
  | rank :: rest, sending =>
    if plan.heads rank = [] then ngramSends plan rest sending
    else match plan.encode rank with
      | .error err => { sending with status := .error err }
      | .ok () =>
        match plan.send rank with
        | .error err =>
          { sending with
            status := .error err
            failed := true
            transport := transportPoison sending.transport }
        | .ok () =>
          ngramSends plan rest
            { sending with
              sent := sending.sent ++ [rank]
              transport := transportPending sending.transport }

structure NgramCollecting (Payload : Type) where
  status : Except Error Unit
  book : Book Nat (Frame Payload)
  seenHeads : Finset Nat

def NgramReply (sent : List Nat) (sessionId : UInt64) (tokenIndex : UInt32) (frame : Frame Payload) : Prop :=
  0 < frame.peer ∧ frame.peer < rankCount ∧ frame.peer ∈ sent ∧
    Frame.Answers .ngramResult sessionId tokenIndex frame

instance (sent : List Nat) (sessionId : UInt64) (tokenIndex : UInt32) (frame : Frame Payload) :
    Decidable (NgramReply sent sessionId tokenIndex frame) :=
  inferInstanceAs (Decidable (_ ∧ _ ∧ _ ∧ _))

/-- The loop over the heads of one reply: each was asked of this rank and was not seen before. -/
def acceptHeads (peer : Nat) (asked : List Nat) : List Nat → Finset Nat → Except Error (Finset Nat)
  | [], seen => .ok seen
  | head :: rest, seen =>
    if head ∉ asked ∨ head ∈ seen then
      .error ⟨.mismatch, s!"unexpected resident n-gram head {head} from rank {peer}"⟩
    else acceptHeads peer asked rest (insert head seen)

/-- The checks of a matching reply's contents. -/
def acceptNgram (decode : Payload → Except Error NgramResult) (plan : NgramPlan) (tokenIndex : UInt32)
    (frame : Frame Payload) (seen : Finset Nat) : Except Error (Finset Nat) :=
  let peer := frame.peer
  match decode frame.payload with
  | .error err => .error err
  | .ok result =>
    if result.sourceRank ≠ frame.peer ∨ result.destinationRank ≠ 0 ∨ result.tokenIndex ≠ tokenIndex ∨
        result.heads.length ≠ (plan.heads frame.peer).length then
      .error ⟨.mismatch, s!"misrouted resident n-gram result from rank {peer}"⟩
    else acceptHeads frame.peer (plan.heads frame.peer) result.heads seen

/-- One turn of the receive loop after a successful receive. -/
def ngramFrame (decode : Payload → Except Error NgramResult) (plan : NgramPlan) (sent : List Nat)
    (sessionId : UInt64) (tokenIndex : UInt32) (collecting : NgramCollecting Payload)
    (frame : Frame Payload) : NgramCollecting Payload :=
  let book := collecting.book
  let peer := frame.peer
  if NgramReply sent sessionId tokenIndex frame ∧ frame.peer ∉ book.seen then
    let seen := insert frame.peer book.seen
    let consumed := book.consumed ++ [frame]
    match collecting.status with
    | .error err => ⟨.error err, ⟨seen, book.failed, consumed⟩, collecting.seenHeads⟩
    | .ok () =>
      match acceptNgram decode plan tokenIndex frame collecting.seenHeads with
      | .error err => ⟨.error err, ⟨seen, true, consumed⟩, collecting.seenHeads⟩
      | .ok heads => ⟨.ok (), ⟨seen, book.failed, consumed⟩, heads⟩
  else
    { collecting with
      status := firstError collecting.status
        ⟨.mismatch, s!"stale or duplicate resident n-gram result from rank {peer}"⟩
      book := ⟨book.seen, true, book.consumed ++ [frame]⟩ }

def ngramReceives (decode : Payload → Except Error NgramResult) (plan : NgramPlan) (sent : List Nat)
    (sessionId : UInt64) (tokenIndex : UInt32) (arrive : Nat → Except Error (Frame Payload)) :
    Nat → NgramCollecting Payload → NgramCollecting Payload
  | 0, collecting => collecting
  | remaining + 1, collecting =>
    match arrive collecting.book.consumed.length with
    | .error err =>
      { collecting with
        status := firstError collecting.status err
        book := { collecting.book with failed := true } }
    | .ok frame =>
      ngramReceives decode plan sent sessionId tokenIndex arrive remaining
        (ngramFrame decode plan sent sessionId tokenIndex collecting frame)

/-- The ranks that hold n-gram shards. -/
def ngramRanks : List Nat := [1, 2, 3, 4, 5, 6, 7]

/-- The last decision of `resident_ngram_lookup`. -/
def closeNgram (sending : NgramSending) (book : Book Nat (Frame Payload)) : State :=
  let allReceived := ngramRanks.all fun rank =>
    decide (rank ∈ sending.sent) == decide (rank ∈ book.seen)
  if book.consumed.length = sending.sent.length ∧ allReceived = true ∧ book.failed = false then
    transportComplete sending.transport
  else transportPoison sending.transport

/-- `resident_ngram_lookup` with a transport state, up to the upload of the gathered rows. Planning sends
nothing; when it fails its error is the status. -/
def residentNgramLookup (decode : Payload → Except Error NgramResult) (plan : Except Error NgramPlan)
    (sessionId : UInt64) (tokenIndex : UInt32) (transport : State)
    (arrive : Nat → Except Error (Frame Payload)) : Outcome Payload × NgramSending :=
  match plan with
  | .error err =>
    -- nothing was sent, so the completion finds nothing missing
    ({ transport := transportComplete transport, status := .error err, consumed := [] },
      ⟨transport, .error err, false, []⟩)
  | .ok plan =>
    let sending := ngramSends plan ngramRanks ⟨transport, .ok (), false, []⟩
    let done := ngramReceives decode plan sending.sent sessionId tokenIndex arrive sending.sent.length
      ⟨sending.status, ⟨∅, sending.failed, []⟩, ∅⟩
    ({ transport := closeNgram sending done.book, status := done.status, consumed := done.book.consumed },
      sending)

/-- One matching reply of every peer in `sent` was consumed, and nothing else. -/
def RepliesOf (Reply : Frame Payload → Prop) (sent : List Nat) (consumed : List (Frame Payload)) : Prop :=
  (consumed.map Frame.peer).Perm sent ∧ ∀ frame ∈ consumed, Reply frame

/-- What the transport owes an exchange that started in `start`; `Answered` says of the consumed frames
that they are the replies to everything the exchange sent. -/
structure Disciplined (Answered : List (Frame Payload) → Prop) (sendFailed : Bool) (start : State)
    (outcome : Outcome Payload) : Prop where
  ready_only : start = .ready → outcome.transport = .ready → Answered outcome.consumed
  otherwise : start = .ready → ¬ Answered outcome.consumed →
    outcome.transport = .pending ∨ outcome.transport = .poisoned
  /-- A failed send poisons. -/
  send_failed : sendFailed = true → outcome.transport = .poisoned
  poisoned_stays : start = .poisoned → outcome.transport = .poisoned

theorem State.pending_or_poisoned {state : State} (h : state ≠ .ready) : state = .pending ∨ state = .poisoned := by
  cases state with
  | ready => exact absurd rfl h
  | pending => exact .inl rfl
  | poisoned => exact .inr rfl

theorem Disciplined.of_ready_only {Answered : List (Frame Payload) → Prop} {sendFailed : Bool}
    {start : State} {outcome : Outcome Payload}
    (hready : start = .ready → outcome.transport = .ready → Answered outcome.consumed)
    (hfailed : sendFailed = true → outcome.transport = .poisoned)
    (hpoisoned : start = .poisoned → outcome.transport = .poisoned) :
    Disciplined Answered sendFailed start outcome where
  ready_only := hready
  otherwise hstart hunanswered :=
    State.pending_or_poisoned fun hend => hunanswered (hready hstart hend)
  send_failed := hfailed
  poisoned_stays := hpoisoned

section Experts

variable {decode : Payload → Except Error Result} {context : ExpertContext}

/-- What the send loops leave: the transport is poisoned by a failed send, pending after an accepted one
and untouched otherwise. -/
structure Sent (start : State) (sent : List Nat) (failed : Bool) (transport : State) : Prop where
  failed_poisoned : failed = true → transport = .poisoned
  none_sent : failed = false → sent = [] → transport = start
  some_sent : failed = false → sent ≠ [] → transport = transportPending start

theorem Sent.accepted {start transport : State} {sent : List Nat} {rank : Nat}
    (h : Sent start sent false transport) :
    Sent start (sent ++ [rank]) false (transportPending transport) := by
  refine ⟨by simp, by simp, fun _ _ => ?_⟩
  by_cases hsent : sent = []
  · rw [h.none_sent rfl hsent]
  · rw [h.some_sent rfl hsent]
    cases start <;> rfl

theorem Sent.ne_ready {start transport : State} {sent : List Nat} {failed : Bool}
    (h : Sent start sent failed transport) (hsent : sent ≠ []) (hready : transport = .ready) : False := by
  cases failed with
  | true => exact State.noConfusion (hready.symm.trans (h.failed_poisoned rfl))
  | false =>
    have hpending := hready.symm.trans (h.some_sent rfl hsent)
    cases start <;> cases hpending

theorem Sent.poisoned {transport : State} {sent : List Nat} {failed : Bool}
    (h : Sent .poisoned sent failed transport) : transport = .poisoned := by
  cases failed with
  | true => exact h.failed_poisoned rfl
  | false =>
    by_cases hsent : sent = []
    · exact h.none_sent rfl hsent
    · exact h.some_sent rfl hsent

theorem fireRoutes_sent {start : State} (routes : List SendAttempt) (context : ExpertContext)
    (hidle : context.sendFailed = false) (hmask : context.expectedPeers = context.sent.toFinset)
    (hsent : Sent start context.sent false context.transport) :
    Sent start (fireRoutes context routes).1.sent (fireRoutes context routes).1.sendFailed
        (fireRoutes context routes).1.transport ∧
      (fireRoutes context routes).1.expectedPeers = (fireRoutes context routes).1.sent.toFinset := by
  induction routes generalizing context with
  | nil => exact ⟨hidle ▸ hsent, hmask⟩
  | cons route rest ih =>
    unfold fireRoutes
    split_ifs with hself
    · exact ih context hidle hmask hsent
    · split
      · exact ⟨hidle ▸ hsent, hmask⟩
      · split
        · exact ⟨⟨fun _ => rfl, by simp, by simp⟩, hmask⟩
        · refine ih _ hidle ?_ hsent.accepted
          rw [hmask, List.toFinset_append]
          ext p
          simp

theorem fireExperts_sent (context : ExpertContext) (partition : Except Error (List SendAttempt)) :
    Sent context.transport (fireExperts context partition).1.sent
        (fireExperts context partition).1.sendFailed (fireExperts context partition).1.transport ∧
      (fireExperts context partition).1.expectedPeers =
        (fireExperts context partition).1.sent.toFinset := by
  have hnone : Sent context.transport [] false context.transport := ⟨by simp, fun _ _ => rfl, by simp⟩
  unfold fireExperts
  cases partition with
  | error err => exact ⟨hnone, rfl⟩
  | ok routes =>
    have hroutes := fireRoutes_sent routes
      { context with sendFailed := false, discardResults := false, expectedPeers := ∅, sent := [] }
      rfl rfl hnone
    dsimp only at hroutes ⊢
    split
    next fired heq =>
      rwa [heq] at hroutes
    next fired err heq =>
      rwa [heq] at hroutes

def ExpertConsumed (decode : Payload → Except Error Result) (context : ExpertContext)
    (before : Except Error Unit) (frame : Frame Payload) : Prop :=
  ExpertReply context frame ∧ (before = .ok () → ∃ result, decode frame.payload = .ok result)

theorem collectFrame_sound {before : Except Error Unit} {collecting : Collecting Payload Result}
    (hsound : Sound Frame.peer (ExpertConsumed decode context before) collecting.book)
    (hstatus : collecting.book.failed = false → collecting.status = before) (frame : Frame Payload) :
    Sound Frame.peer (ExpertConsumed decode context before)
        (collectFrame decode context collecting frame).book ∧
      ((collectFrame decode context collecting frame).book.failed = false →
        (collectFrame decode context collecting frame).status = before) := by
  unfold collectFrame
  by_cases hmatched : ExpertReply context frame ∧ frame.peer ∉ collecting.book.seen
  · simp only [if_pos hmatched]
    cases hnow : collecting.status with
    | error err =>
      dsimp only
      refine ⟨?_, fun hok => hnow ▸ hstatus hok⟩
      cases hfailed : collecting.book.failed with
      | true => exact sound_failed
      | false =>
        refine hfailed ▸ hsound.accept ⟨hmatched.1, fun hok => ?_⟩ hmatched.2
        exact absurd (hnow.symm.trans ((hstatus hfailed).trans hok)) (by simp)
    | ok u =>
      dsimp only
      cases hdecode : decode frame.payload with
      | error err => exact ⟨sound_failed, by simp⟩
      | ok result =>
        exact ⟨hsound.accept ⟨hmatched.1, fun _ => ⟨result, hdecode⟩⟩ hmatched.2, fun hok => hnow ▸ hstatus hok⟩
  · simp only [if_neg hmatched]
    split
    · exact ⟨sound_failed, by simp⟩
    · split
      · exact ⟨sound_failed, by simp⟩
      · exact ⟨sound_failed, by simp⟩

theorem collectRemote_sound {before : Except Error Unit} (arrive : Nat → Except Error (Frame Payload))
    (remaining : Nat) (collecting : Collecting Payload Result)
    (hsound : Sound Frame.peer (ExpertConsumed decode context before) collecting.book)
    (hstatus : collecting.book.failed = false → collecting.status = before) :
    Sound Frame.peer (ExpertConsumed decode context before)
      (collectRemote decode context arrive remaining collecting).book := by
  induction remaining generalizing collecting with
  | zero => exact hsound
  | succ remaining ih =>
    unfold collectRemote
    split
    · exact sound_failed
    next frame _ =>
      obtain ⟨hnext, hkeeps⟩ := collectFrame_sound hsound hstatus frame
      exact ih _ hnext hkeeps

theorem closeExperts_poisoned {book : Book Nat (Frame Payload)} (h : context.transport = .poisoned) :
    closeExperts context book = .poisoned := by
  unfold closeExperts
  split_ifs
  · rw [h]
    rfl
  · rfl
  · exact h

theorem experts_disciplined (decode : Payload → Except Error Result) (context : ExpertContext)
    (partition : Except Error (List SendAttempt)) (compute : Except Error Unit)
    (arrive : Nat → Except Error (Frame Payload)) :
    Disciplined
      (RepliesOf
        (ExpertConsumed decode (fireExperts context partition).1
          (localStatus (fireExperts context partition).1 compute))
        (fireExperts context partition).1.sent)
      (fireExperts context partition).1.sendFailed context.transport
      (collectExperts decode (fireExperts context partition).1 compute arrive) := by
  obtain ⟨hsent, hmask⟩ := fireExperts_sent context partition
  generalize (fireExperts context partition).1 = fired at hsent hmask ⊢
  have hstart : Sound Frame.peer (ExpertConsumed decode fired (localStatus fired compute))
      ⟨∅, fired.sendFailed, []⟩ := by
    cases fired.sendFailed with
    | false => exact sound_empty
    | true => exact sound_failed
  have hsound := collectRemote_sound arrive fired.sent.length
    ⟨localStatus fired compute, ⟨∅, fired.sendFailed, []⟩, []⟩ hstart fun _ => rfl
  apply Disciplined.of_ready_only
  · intro _ hready
    unfold collectExperts at hready ⊢
    dsimp only at hready ⊢
    unfold closeExperts at hready
    split_ifs at hready with hcomplete hfailed
    · obtain ⟨hlength, hok, hseen⟩ := hcomplete
      exact ⟨hsound.perm hok (hseen.trans hmask) hlength, hsound.matched hok⟩
    · cases hready
    · rw [not_or] at hfailed
      refine absurd ⟨?_, by simpa using hfailed.1, by simpa using hfailed.2⟩ hcomplete
      have hnone : fired.sent = [] := by_contra fun hne => hsent.ne_ready hne hready
      rw [hnone]
      rfl
  · exact fun hfailed => closeExperts_poisoned (hsent.failed_poisoned hfailed)
  · intro hpoisoned
    rw [hpoisoned] at hsent
    exact closeExperts_poisoned hsent.poisoned

end Experts

section Ngram

variable {decode : Payload → Except Error NgramResult} {plan : NgramPlan} {sessionId : UInt64}
  {tokenIndex : UInt32}

theorem ngramSends_sent (plan : NgramPlan) (start : State) (ranks : List Nat) (sending : NgramSending)
    (hranks : ∀ rank ∈ ranks, rank ∈ ngramRanks) (hbefore : ∀ rank ∈ sending.sent, rank ∈ ngramRanks)
    (hidle : sending.failed = false) (hsent : Sent start sending.sent false sending.transport) :
    Sent start (ngramSends plan ranks sending).sent (ngramSends plan ranks sending).failed
        (ngramSends plan ranks sending).transport ∧
      ∀ rank ∈ (ngramSends plan ranks sending).sent, rank ∈ ngramRanks := by
  induction ranks generalizing sending with
  | nil => exact ⟨hidle ▸ hsent, hbefore⟩
  | cons rank rest ih =>
    have hrest : ∀ other ∈ rest, other ∈ ngramRanks := (List.forall_mem_cons.mp hranks).2
    unfold ngramSends
    split_ifs with hnone
    · exact ih sending hrest hbefore hidle hsent
    · split
      · exact ⟨hidle ▸ hsent, hbefore⟩
      · split
        · exact ⟨⟨fun _ => rfl, by simp, by simp⟩, hbefore⟩
        · refine ih _ hrest (fun other hother => ?_) hidle hsent.accepted
          rcases List.mem_append.mp hother with hold | hnew
          · exact hbefore other hold
          · rw [List.mem_singleton.mp hnew]
            exact hranks rank List.mem_cons_self

/-- A consumed shard reply, accepted with its contents unless an earlier failure left them unread. -/
def NgramConsumed (decode : Payload → Except Error NgramResult) (plan : NgramPlan) (sent : List Nat)
    (sessionId : UInt64) (tokenIndex : UInt32) (before : Except Error Unit) (frame : Frame Payload) : Prop :=
  NgramReply sent sessionId tokenIndex frame ∧
    (before = .ok () → ∃ seen heads, acceptNgram decode plan tokenIndex frame seen = .ok heads)

variable {sent : List Nat} {before : Except Error Unit}

theorem ngramFrame_sound {collecting : NgramCollecting Payload}
    (hsound : Sound Frame.peer (NgramConsumed decode plan sent sessionId tokenIndex before) collecting.book)
    (hstatus : collecting.book.failed = false → collecting.status = before) (frame : Frame Payload) :
    Sound Frame.peer (NgramConsumed decode plan sent sessionId tokenIndex before)
        (ngramFrame decode plan sent sessionId tokenIndex collecting frame).book ∧
      ((ngramFrame decode plan sent sessionId tokenIndex collecting frame).book.failed = false →
        (ngramFrame decode plan sent sessionId tokenIndex collecting frame).status = before) := by
  unfold ngramFrame
  dsimp only
  split_ifs with hmatched
  · cases hnow : collecting.status with
    | error err =>
      dsimp only
      refine ⟨?_, fun hok => hnow ▸ hstatus hok⟩
      cases hfailed : collecting.book.failed with
      | true => exact sound_failed
      | false =>
        refine hfailed ▸ hsound.accept ⟨hmatched.1, fun hok => ?_⟩ hmatched.2
        exact absurd (hnow.symm.trans ((hstatus hfailed).trans hok)) (by simp)
    | ok u =>
      dsimp only
      cases haccept : acceptNgram decode plan tokenIndex frame collecting.seenHeads with
      | error err => exact ⟨sound_failed, by simp⟩
      | ok heads =>
        exact ⟨hsound.accept ⟨hmatched.1, fun _ => ⟨_, heads, haccept⟩⟩ hmatched.2, fun hok => hnow ▸ hstatus hok⟩
  · exact ⟨sound_failed, by simp⟩

theorem ngramReceives_sound (arrive : Nat → Except Error (Frame Payload)) (remaining : Nat)
    (collecting : NgramCollecting Payload)
    (hsound : Sound Frame.peer (NgramConsumed decode plan sent sessionId tokenIndex before) collecting.book)
    (hstatus : collecting.book.failed = false → collecting.status = before) :
    Sound Frame.peer (NgramConsumed decode plan sent sessionId tokenIndex before)
      (ngramReceives decode plan sent sessionId tokenIndex arrive remaining collecting).book := by
  induction remaining generalizing collecting with
  | zero => exact hsound
  | succ remaining ih =>
    unfold ngramReceives
    split
    · exact sound_failed
    next frame _ =>
      obtain ⟨hnext, hkeeps⟩ := ngramFrame_sound hsound hstatus frame
      exact ih _ hnext hkeeps

theorem closeNgram_poisoned {sending : NgramSending} {book : Book Nat (Frame Payload)}
    (h : sending.transport = .poisoned) : closeNgram sending book = .poisoned := by
  unfold closeNgram
  dsimp only
  split_ifs
  · rw [h]
    rfl
  · rfl

theorem seen_eq_of_allReceived {sending : NgramSending} {book : Book Nat (Frame Payload)}
    (hsent : ∀ rank ∈ sending.sent, rank ∈ ngramRanks) (hseen : ∀ rank ∈ book.seen, rank ∈ ngramRanks)
    (h : (ngramRanks.all fun rank => decide (rank ∈ sending.sent) == decide (rank ∈ book.seen)) = true) :
    book.seen = sending.sent.toFinset := by
  rw [List.all_eq_true] at h
  ext rank
  rw [List.mem_toFinset]
  constructor
  · intro hmem
    have hboth := h rank (hseen rank hmem)
    simpa [hmem] using hboth
  · intro hmem
    have hboth := h rank (hsent rank hmem)
    simpa [hmem] using hboth

theorem ngram_disciplined (decode : Payload → Except Error NgramResult) (plan : Except Error NgramPlan)
    (sessionId : UInt64) (tokenIndex : UInt32) (transport : State)
    (arrive : Nat → Except Error (Frame Payload)) :
    Disciplined
      (RepliesOf
        (fun frame => ∃ planned, plan = .ok planned ∧ NgramConsumed decode planned
          (residentNgramLookup decode plan sessionId tokenIndex transport arrive).2.sent sessionId tokenIndex
          (residentNgramLookup decode plan sessionId tokenIndex transport arrive).2.status frame)
        (residentNgramLookup decode plan sessionId tokenIndex transport arrive).2.sent)
      (residentNgramLookup decode plan sessionId tokenIndex transport arrive).2.failed transport
      (residentNgramLookup decode plan sessionId tokenIndex transport arrive).1 := by
  cases plan with
  | error err =>
    refine Disciplined.of_ready_only
      (fun _ _ => ⟨List.Perm.refl _, fun frame hframe => absurd hframe List.not_mem_nil⟩)
      Bool.false_ne_true.elim fun hstart => ?_
    rw [hstart]
    rfl
  | ok plan =>
    unfold residentNgramLookup
    dsimp only
    obtain ⟨hsent, hranks⟩ := ngramSends_sent plan transport ngramRanks
      ⟨transport, .ok (), false, []⟩ (fun _ h => h) (by simp) rfl
      ⟨by simp, fun _ _ => rfl, by simp⟩
    generalize ngramSends plan ngramRanks ⟨transport, .ok (), false, []⟩ = sending at hsent hranks ⊢
    have hstart : Sound Frame.peer
        (NgramConsumed decode plan sending.sent sessionId tokenIndex sending.status)
        ⟨∅, sending.failed, []⟩ := by
      cases sending.failed with
      | false => exact sound_empty
      | true => exact sound_failed
    have hsound := ngramReceives_sound arrive sending.sent.length
      ⟨sending.status, ⟨∅, sending.failed, []⟩, ∅⟩ hstart fun _ => rfl
    apply Disciplined.of_ready_only
    · intro _ hready
      unfold closeNgram at hready
      dsimp only at hready
      split_ifs at hready with hcomplete
      · obtain ⟨hlength, hall, hok⟩ := hcomplete
        have hseen : ∀ rank ∈ (ngramReceives decode plan sending.sent sessionId tokenIndex arrive
            sending.sent.length ⟨sending.status, ⟨∅, sending.failed, []⟩, ∅⟩).book.seen,
            rank ∈ ngramRanks := by
          intro rank hrank
          rw [hsound.seen_eq hok, List.mem_toFinset] at hrank
          obtain ⟨frame, hframe, rfl⟩ := List.mem_map.mp hrank
          exact hranks _ (hsound.matched hok frame hframe).1.2.2.1
        refine ⟨hsound.perm hok (seen_eq_of_allReceived hranks hseen hall) hlength, ?_⟩
        exact fun frame hframe => ⟨plan, rfl, hsound.matched hok frame hframe⟩
      · cases hready
    · exact fun hfailed => closeNgram_poisoned (hsent.failed_poisoned hfailed)
    · intro hpoisoned
      rw [hpoisoned] at hsent
      exact closeNgram_poisoned hsent.poisoned

end Ngram

end Transport

end FlashGordon
