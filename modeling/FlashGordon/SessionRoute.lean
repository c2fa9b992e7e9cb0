import FlashGordon.ChatRender
import Mathlib.Data.Fin.VecNotation
import Mathlib.Data.List.DropRight

/-! Session routing (`api.c`): two resident slots, and for each waiting request the slot that is to run it, or none
yet. A slot at rest is scored by the transcript that it keeps, a busy one by the request that it runs. -/

namespace FlashGordon.Route

open Chat Occurs

/-- `fg_chat_tool_call`. -/
structure RequestCall where
  id : Text
  name : Text
  argumentsJson : Text
  deriving DecidableEq

/-- `fg_chat_message`, as far as transcripts are compared; a null text is an empty one. -/
structure RequestMessage where
  role : Text
  content : Text
  toolCallId : Text
  toolCalls : List RequestCall

/-- `api_media_identity`. -/
structure MediaIdentity where
  kind : Nat
  digest : List UInt8
  deriving DecidableEq

/-- `api_chat_request`, as far as requests are routed. -/
structure ChatRequest where
  messages : List RequestMessage
  media : List MediaIdentity

/-- `api_public_session`: the media are those of the committed transcript. -/
structure PublicSession where
  transcript : ChatRequest
  media : List MediaIdentity
  valid : Bool

/-- The loop of `api_content_equal` reads a carriage return, alone or before a line feed, as a line feed. -/
def lineFeeds : Text → Text
  | [] => []
  | 13 :: 10 :: rest => 10 :: lineFeeds rest
  | 13 :: rest => 10 :: lineFeeds rest
  | c :: rest => c :: lineFeeds rest

def trimmed (text : Text) : Text := (text.dropWhile isSpace).rdropWhile isSpace

/-- `api_content_equal`. -/
def contentEqual (left right : Text) : Bool := lineFeeds (trimmed left) = lineFeeds (trimmed right)

/-- `api_message_equal`; the reasoning is not compared. -/
def messageEqual (left right : RequestMessage) : Bool :=
  left.role = right.role && contentEqual left.content right.content && left.toolCallId = right.toolCallId &&
    left.toolCalls = right.toolCalls

/-- `api_vision_marker_count`: the marker does not overlap itself. -/
def visionMarkerCount (content : Text) : Nat := count (ascii "<|vision_start|>") content

/-- `fg_chat_leading_system_count`. -/
def leadingSystemCount (messages : List RequestMessage) : Nat :=
  (messages.takeWhile fun message => roleIsSystem message.role).length

/-- `api_transcript_bytes`. -/
def transcriptBytes (messages : List RequestMessage) : Nat :=
  (messages.map fun message =>
    message.content.length + (message.toolCalls.map fun call => call.argumentsJson.length).sum).sum

def mediaFrom (stored echoed : List MediaIdentity) : Nat → Nat → Option Nat
  | 0, index => some index
  | markers + 1, index =>
    if index < stored.length ∧ index < echoed.length ∧ stored[index]? = echoed[index]? then
      mediaFrom stored echoed markers (index + 1)
    else none

/-- The message loop of `api_public_session_prefix`, from a media index to the one behind the last message. -/
def prefixFrom (stored echoed : List MediaIdentity) : List (RequestMessage × RequestMessage) → Nat → Option Nat
  | [], index => some index
  | (old, current) :: rest, index =>
    if messageEqual old current then
      (mediaFrom stored echoed (visionMarkerCount old.content) index).bind (prefixFrom stored echoed rest)
    else none

/-- `api_public_session_prefix`, without the text that says where the two differ. -/
def publicSessionPrefix (session : PublicSession) (request : ChatRequest) : Bool :=
  let stored := session.transcript.messages
  let previousSystem := leadingSystemCount stored
  let currentSystem := leadingSystemCount request.messages
  session.valid &&
    stored.length ≤ request.messages.length &&
    stored.length - previousSystem ≤ request.messages.length - currentSystem &&
    (stored.take previousSystem).all (fun message => visionMarkerCount message.content = 0) &&
    (request.messages.take currentSystem).all (fun message => visionMarkerCount message.content = 0) &&
    prefixFrom session.media request.media
      ((stored.drop previousSystem).zip (request.messages.drop currentSystem)) 0 = some session.media.length

/-- The loop of `api_session_match_bytes`: how many messages are equal, one by one. -/
def agreeing : List RequestMessage → List RequestMessage → Nat
  | old :: olds, current :: currents => if messageEqual old current then agreeing olds currents + 1 else 0
  | _, _ => 0

/-- `api_session_match_bytes`: where media are in play the whole transcript counts or nothing does. -/
def matchBytes (session : PublicSession) : Option ChatRequest → Nat
  | none => 0
  | some request =>
    let olds := session.transcript.messages.drop (leadingSystemCount session.transcript.messages)
    let matched := agreeing olds (request.messages.drop (leadingSystemCount request.messages))
    if session.valid = false then 0
    else if session.media ≠ [] ∨ request.media ≠ [] then
      if publicSessionPrefix session request then transcriptBytes session.transcript.messages + 1 else 0
    else if matched = 0 then 0
    else transcriptBytes (olds.take matched) + matched

/-- What `api_session_select` is told of a slot. -/
structure Slot where
  session : PublicSession
  active : Bool
  used : Nat

section Select

variable (request : Option ChatRequest) (slots : Fin 2 → Slot)

def matched (i : Fin 2) : Nat := matchBytes (slots i).session request

/-- `sizes`. -/
def size (i : Fin 2) : Nat :=
  if (slots i).session.valid then transcriptBytes (slots i).session.transcript.messages else 0

/-- One turn of the first loop of `api_session_select`, with `longest` the match of the best slot. -/
def matchTurn (best : Option (Fin 2)) (i : Fin 2) : Option (Fin 2) :=
  if matched request slots i = 0 then best
  else
    match best with
    | none => some i
    | some b =>
      if matched request slots b < matched request slots i ∨
          matched request slots i = matched request slots b ∧
            (size slots i < size slots b ∨ size slots i = size slots b ∧ (slots b).active ∧ ¬(slots i).active) then some i
      else some b

def unused (i : Fin 2) : Bool := !(slots i).active && !(slots i).session.valid

/-- One turn of the last loop: the slot least recently used, but no long transcript goes for a short request when
the other slot keeps a shorter one. -/
def evictTurn (best : Option (Fin 2)) (i : Fin 2) : Option (Fin 2) :=
  if (slots i).active then best
  else if (request.elim 0 fun request => transcriptBytes request.messages) < size slots i ∧
      (slots (1 - i)).session.valid ∧ size slots (1 - i) < size slots i then best
  else
    match best with
    | none => some i
    | some b => if (slots i).used < (slots b).used then some i else some b

/-- `api_session_select`; none is the answer to wait. -/
def sessionSelect : Option (Fin 2) :=
  match [0, 1].foldl (matchTurn request slots) none with
  | some best => if (slots best).active then none else some best
  | none =>
    match [0, 1].find? (unused slots) with
    | some i => some i
    | none => [0, 1].foldl (evictTurn request slots) none

end Select

/-- `api_pipeline_job`, as far as requests are routed: what the slot keeps, and the request that it runs. -/
structure Job where
  publicSession : PublicSession
  routing : Option ChatRequest
  active : Bool
  used : Nat

/-- `api_session_routing_view`. -/
def routingView (job : Job) : PublicSession :=
  match job.active, job.routing with
  | true, some request => ⟨request, [], true⟩
  | _, _ => job.publicSession

def slotOf (job : Job) : Slot := ⟨routingView job, job.active, job.used⟩

/-- The slot that `api_pipeline_engine` starts a waiting request in. -/
def pipelineSelect (request : Option ChatRequest) (jobs : Fin 2 → Job) : Option (Fin 2) :=
  sessionSelect request fun i => slotOf (jobs i)

/-! What the first loop finds. -/

def Continues (session : PublicSession) (request : ChatRequest) : Prop :=
  publicSessionPrefix session request ∧
    leadingSystemCount session.transcript.messages < session.transcript.messages.length

section Closer

variable (request : Option ChatRequest) (slots : Fin 2 → Slot)

/-- The order of slots: the longer match, then the smaller transcript, then the slot at rest, then the first. -/
def Closer (i j : Fin 2) : Prop :=
  matched request slots j < matched request slots i ∨
    matched request slots i = matched request slots j ∧
      (size slots i < size slots j ∨
        size slots i = size slots j ∧
          ((slots j).active ∧ ¬(slots i).active ∨ ((slots i).active = (slots j).active ∧ i < j)))

instance (i j : Fin 2) : Decidable (Closer request slots i j) := by
  unfold Closer
  infer_instance

end Closer

variable {request : Option ChatRequest} {slots : Fin 2 → Slot} {i j : Fin 2}

theorem not_closer_iff (hne : i ≠ j) : ¬Closer request slots j i ↔ Closer request slots i j := by
  unfold Closer
  cases (slots i).active <;> cases (slots j).active <;> simp <;> omega

theorem closer_or (request : Option ChatRequest) (slots : Fin 2 → Slot) (i : Fin 2) :
    Closer request slots i (1 - i) ∨ Closer request slots (1 - i) i := by
  by_cases h : Closer request slots i (1 - i)
  · exact .inl h
  · exact .inr ((not_closer_iff (by omega)).mp h)

theorem matchTurn_one (h1 : matched request slots 1 ≠ 0) :
    matchTurn request slots (some 0) 1 = if Closer request slots 1 0 then some 1 else some 0 := by
  have horder : Closer request slots 1 0 ↔ matched request slots 0 < matched request slots 1 ∨
      matched request slots 1 = matched request slots 0 ∧ (size slots 1 < size slots 0 ∨
        size slots 1 = size slots 0 ∧ (slots 0).active ∧ ¬(slots 1).active) := by
    unfold Closer
    simp
  rw [matchTurn, if_neg h1]
  simp only [horder]

theorem best_eq_some_iff : [0, 1].foldl (matchTurn request slots) none = some i ↔
    0 < matched request slots i ∧ Closer request slots i (1 - i) := by
  have hfirst : matchTurn request slots none 0 = if matched request slots 0 = 0 then none else some 0 := rfl
  have hswap : ¬Closer request slots 1 0 ↔ Closer request slots 0 1 := not_closer_iff (by decide)
  have hlonger : ∀ i j : Fin 2, matched request slots j < matched request slots i → Closer request slots i j :=
    fun i j h => .inl h
  rw [List.foldl_cons, List.foldl_cons, List.foldl_nil, hfirst]
  by_cases h0 : matched request slots 0 = 0
  · by_cases h1 : matched request slots 1 = 0
    · have hi : matched request slots i = 0 := by
        obtain rfl | rfl : i = 0 ∨ i = 1 := by omega
        · exact h0
        · exact h1
      rw [if_pos h0, matchTurn, if_pos h1, hi]
      simp
    · have hbest : matchTurn request slots none 1 = some 1 := if_neg h1
      rw [if_pos h0, hbest]
      obtain rfl | rfl : i = 0 ∨ i = 1 := by omega
      · simp [h0]
      · exact ⟨fun _ => ⟨by omega, hlonger 1 0 (by omega)⟩, fun _ => rfl⟩
  · by_cases h1 : matched request slots 1 = 0
    · rw [if_neg h0, matchTurn, if_pos h1]
      obtain rfl | rfl : i = 0 ∨ i = 1 := by omega
      · exact ⟨fun _ => ⟨by omega, hlonger 0 1 (by omega)⟩, fun _ => rfl⟩
      · simp [h1]
    · rw [if_neg h0, matchTurn_one h1]
      obtain rfl | rfl : i = 0 ∨ i = 1 := by omega
      · split_ifs with hcloser
        · exact ⟨by simp, fun h => absurd hcloser (hswap.mpr h.2)⟩
        · exact ⟨fun _ => ⟨by omega, hswap.mp hcloser⟩, fun _ => rfl⟩
      · split_ifs with hcloser
        · exact ⟨fun _ => ⟨by omega, hcloser⟩, fun _ => rfl⟩
        · exact ⟨by simp, fun h => absurd h.2 hcloser⟩

theorem best_eq_none_iff : [0, 1].foldl (matchTurn request slots) none = none ↔ ∀ i, matched request slots i = 0 := by
  constructor
  · intro h i
    by_contra hne
    have hnot : ∀ i, ¬(0 < matched request slots i ∧ Closer request slots i (1 - i)) := fun i hi => by
      rw [best_eq_some_iff.mpr hi] at h
      cases h
    have hother : Closer request slots (1 - i) i :=
      (not_closer_iff (by omega)).mp fun hcloser => hnot i ⟨by omega, hcloser⟩
    refine hnot (1 - i) ⟨?_, ?_⟩
    · unfold Closer at hother
      omega
    · have hback : 1 - (1 - i) = i := by omega
      rwa [hback]
  · intro h
    simp [matchTurn, h]

theorem sessionSelect_of_closer (hpos : 0 < matched request slots i) (hcloser : Closer request slots i (1 - i)) :
    sessionSelect request slots = if (slots i).active then none else some i := by
  rw [sessionSelect, best_eq_some_iff.mpr ⟨hpos, hcloser⟩]

theorem sessionSelect_of_unmatched (h : ∀ i, matched request slots i = 0) :
    sessionSelect request slots =
      (([0, 1].find? (unused slots)).or ([0, 1].foldl (evictTurn request slots) none)) := by
  rw [sessionSelect, best_eq_none_iff.mpr h]
  cases [0, 1].find? (unused slots) <;> rfl

theorem evictTurn_idle {best : Option (Fin 2)} (hbest : ∀ b, best = some b → (slots b).active = false)
    (h : evictTurn request slots best i = some j) : (slots j).active = false := by
  unfold evictTurn at h
  split_ifs at h with hactive
  · exact hbest j h
  · exact hbest j h
  · cases best with
    | none => cases h; simpa using hactive
    | some b =>
      dsimp only at h
      split_ifs at h
      · cases h; simpa using hactive
      · exact hbest j h

theorem evictTurn_some (b : Fin 2) : (evictTurn request slots (some b) i).isSome := by
  unfold evictTurn
  dsimp only
  split_ifs <;> rfl

theorem evict_isSome (h0 : (slots 0).active = false) (h1 : (slots 1).active = false) :
    ([0, 1].foldl (evictTurn request slots) none).isSome := by
  have hother : (1 : Fin 2) - 0 = 1 ∧ (1 : Fin 2) - 1 = 0 := by decide
  rw [List.foldl_cons, List.foldl_cons, List.foldl_nil]
  by_cases hlong : size slots 0 < size slots 1
  · have hfirst : evictTurn request slots none 0 = some 0 := by
      unfold evictTurn
      rw [if_neg (by simp [h0]), if_neg (by rw [hother.1]; omega)]
    rw [hfirst]
    exact evictTurn_some 0
  · have hsecond : ∀ best, (evictTurn request slots best 1).isSome := fun best => by
      cases best with
      | none =>
        unfold evictTurn
        rw [if_neg (by simp [h1]), if_neg (by rw [hother.2]; omega)]
        rfl
      | some b => exact evictTurn_some b
    exact hsecond _

theorem agreeing_of_prefixFrom {stored echoed : List MediaIdentity} {olds currents : List RequestMessage}
    {index last : Nat} (h : prefixFrom stored echoed (olds.zip currents) index = some last)
    (hlength : olds.length ≤ currents.length) : agreeing olds currents = olds.length := by
  induction olds generalizing currents index with
  | nil => cases currents <;> rfl
  | cons old olds ih =>
    cases currents with
    | nil => simp at hlength
    | cons current currents =>
      rw [List.zip_cons_cons, prefixFrom] at h
      split_ifs at h with hequal
      obtain ⟨next, -, hrest⟩ := Option.bind_eq_some_iff.mp h
      rw [agreeing, if_pos hequal, ih hrest (by simpa using hlength), List.length_cons]

theorem matchBytes_pos {session : PublicSession} {current : ChatRequest} (h : Continues session current) :
    0 < matchBytes session (some current) := by
  obtain ⟨hfront, hbehind⟩ := h
  have hfields := hfront
  simp only [publicSessionPrefix, Bool.and_eq_true, decide_eq_true_eq] at hfields
  obtain ⟨⟨⟨⟨⟨hvalid, -⟩, hlength⟩, -⟩, -⟩, hmessages⟩ := hfields
  have hagree := agreeing_of_prefixFrom hmessages (by rwa [List.length_drop, List.length_drop])
  rw [List.length_drop] at hagree
  simp only [matchBytes, hvalid, hfront, hagree, if_true, Bool.true_eq_false, if_false]
  split_ifs <;> omega

/-- The transcript that a slot holds: of the request that it runs, or what it keeps. -/
def held (job : Job) : PublicSession :=
  match job.active, job.routing with
  | true, some running => ⟨running, running.media, true⟩
  | _, _ => job.publicSession

structure Routed (request : Option ChatRequest) (jobs : Fin 2 → Job) (answer : Option (Fin 2)) : Prop where
  idle : ∀ i, answer = some i → (jobs i).active = false
  answered : (∀ i, (jobs i).active = false) → ∃ i, answer = some i
  /-- A slot at rest whose transcript the request goes on from, unless the other slot is closer to it. -/
  continued : ∀ i current, request = some current → (jobs i).active = false → Continues (held (jobs i)) current →
    Closer request (fun i => slotOf (jobs i)) i (1 - i) → answer = some i
  /-- An unused slot before a transcript that nothing in the request agrees with. -/
  spared : (∀ i, matched request (fun i => slotOf (jobs i)) i = 0) →
    ∀ i, (jobs i).active = false → (jobs i).publicSession.valid = false →
      ∃ j, answer = some j ∧ (jobs j).active = false ∧ (jobs j).publicSession.valid = false
  /-- The end of a running request without media, unless a slot at rest is closer to the one that waits. -/
  awaited : ∀ i current, request = some current → (jobs i).active = true →
    (∀ running, (jobs i).routing = some running → running.media = []) → Continues (held (jobs i)) current →
      (jobs (1 - i)).active = true ∨ Closer request (fun i => slotOf (jobs i)) i (1 - i) → answer = none

theorem routingView_of_held {job : Job}
    (h : job.active = true → ∀ running, job.routing = some running → running.media = []) :
    routingView job = held job := by
  unfold routingView held
  cases hactive : job.active with
  | false => rfl
  | true =>
    cases hrouting : job.routing with
    | none => rfl
    | some running => simp only [h hactive running hrouting]

theorem matched_pos_of_held {jobs : Fin 2 → Job} {current : ChatRequest}
    (h : (jobs i).active = true → ∀ running, (jobs i).routing = some running → running.media = [])
    (hcontinues : Continues (held (jobs i)) current) : 0 < matched (some current) (fun i => slotOf (jobs i)) i := by
  rw [← routingView_of_held h] at hcontinues
  exact matchBytes_pos hcontinues

theorem unused_slotOf {job : Job} : (!(slotOf job).active && !(slotOf job).session.valid) = true ↔
    job.active = false ∧ job.publicSession.valid = false := by
  cases hactive : job.active <;> simp [slotOf, routingView, hactive]

theorem sessionSelect_idle (h : sessionSelect request slots = some i) : (slots i).active = false := by
  unfold sessionSelect at h
  split at h
  · split_ifs at h with hactive
    cases h
    simpa using hactive
  · split at h
    next first hfound =>
      cases h
      have hunused := List.find?_some hfound
      simp only [unused, Bool.and_eq_true, Bool.not_eq_true'] at hunused
      exact hunused.1
    · have hnone : ∀ b, (none : Option (Fin 2)) = some b → (slots b).active = false := by simp
      exact evictTurn_idle (fun b hb => evictTurn_idle hnone hb) h

theorem sessionSelect_answered (h : ∀ i, (slots i).active = false) : ∃ i, sessionSelect request slots = some i := by
  by_cases hmatched : ∀ i, matched request slots i = 0
  · rw [sessionSelect_of_unmatched hmatched]
    cases [0, 1].find? (unused slots) with
    | some i => exact ⟨i, rfl⟩
    | none => exact Option.isSome_iff_exists.mp (evict_isSome (h 0) (h 1))
  · obtain ⟨best, hbest⟩ := Option.ne_none_iff_exists'.mp fun hnone => hmatched (best_eq_none_iff.mp hnone)
    obtain ⟨hpos, hcloser⟩ := best_eq_some_iff.mp hbest
    refine ⟨best, ?_⟩
    rw [sessionSelect_of_closer hpos hcloser, if_neg (by simp [h best])]

theorem pipelineSelect_routed (request : Option ChatRequest) (jobs : Fin 2 → Job) :
    Routed request jobs (pipelineSelect request jobs) where
  idle _ h := sessionSelect_idle h
  answered h := sessionSelect_answered h
  continued i current hrequest hidle hcontinues hcloser := by
    subst hrequest
    have hpos := matched_pos_of_held (by simp [hidle]) hcontinues
    have hslot : (slotOf (jobs i)).active = false := hidle
    rw [pipelineSelect, sessionSelect_of_closer hpos hcloser, if_neg (by simp [hslot])]
  spared h i hidle hvalid := by
    have hunused : unused (fun i => slotOf (jobs i)) i = true := unused_slotOf.mpr ⟨hidle, hvalid⟩
    rw [pipelineSelect, sessionSelect_of_unmatched h]
    cases hfound : [0, 1].find? (unused fun i => slotOf (jobs i)) with
    | some j =>
      have hj : unused (fun i => slotOf (jobs i)) j = true := List.find?_some hfound
      exact ⟨j, rfl, unused_slotOf.mp hj⟩
    | none =>
      refine absurd hunused (List.find?_eq_none.mp hfound i ?_)
      obtain rfl | rfl : i = 0 ∨ i = 1 := by omega
      · decide
      · decide
  awaited i current hrequest hactive hmedia hcontinues hother := by
    subst hrequest
    have hpos := matched_pos_of_held (fun _ => hmedia) hcontinues
    have hback : 1 - (1 - i) = i := by omega
    rw [pipelineSelect]
    rcases closer_or (some current) (fun i => slotOf (jobs i)) i with hcloser | hcloser
    · have hslot : (slotOf (jobs i)).active = true := hactive
      rw [sessionSelect_of_closer hpos hcloser, if_pos hslot]
    · have hslot : (slotOf (jobs (1 - i))).active = true :=
        hother.resolve_right ((not_closer_iff (by omega)).mpr hcloser)
      have hlonger : matched (some current) (fun i => slotOf (jobs i)) i ≤
          matched (some current) (fun i => slotOf (jobs i)) (1 - i) := by
        rcases hcloser with hlt | ⟨heq, -⟩
        · exact hlt.le
        · exact heq.ge
      rw [sessionSelect_of_closer (lt_of_lt_of_le hpos hlonger) (by rwa [hback]), if_pos hslot]

/-! The longest match, not the transcript that is kept whole. -/

def user (content : String) : RequestMessage := ⟨ascii "user", ascii content, [], []⟩

def assistant (content : String) : RequestMessage := ⟨ascii "assistant", ascii content, [], []⟩

def keeping (messages : List RequestMessage) : Job := ⟨⟨⟨messages, []⟩, [], true⟩, none, false, 0⟩

def serving (messages : List RequestMessage) : Job := ⟨⟨⟨[], []⟩, [], false⟩, some ⟨messages, []⟩, true, 0⟩

/-- A whole transcript loses to one that parts from the request later; an unused slot, to one that parts from it
anywhere behind its first message; and the slot that runs the first turn of a conversation, to one that keeps two. -/
theorem pipelineSelect_longest :
    (let request : ChatRequest := ⟨[user "a", assistant "b", user "c", assistant "d", user "e"], []⟩
      let jobs := ![keeping [user "a", assistant "b"], keeping [user "a", assistant "b", user "c", assistant "x"]]
      publicSessionPrefix (jobs 0).publicSession request = true ∧
        publicSessionPrefix (jobs 1).publicSession request = false ∧ pipelineSelect (some request) jobs = some 1) ∧
    (let request : ChatRequest := ⟨[user "a", user "c"], []⟩
      let jobs := ![keeping [user "a", assistant "b"], ⟨⟨⟨[], []⟩, [], false⟩, none, false, 0⟩]
      (∀ i, publicSessionPrefix (jobs i).publicSession request = false) ∧
        pipelineSelect (some request) jobs = some 0) ∧
    (let request : ChatRequest := ⟨[user "a", assistant "b", user "c"], []⟩
      let jobs := ![serving [user "a"], keeping [user "a", assistant "b"]]
      publicSessionPrefix (held (jobs 0)) request = true ∧ pipelineSelect (some request) jobs = some 1) := by
  decide +kernel

end FlashGordon.Route
