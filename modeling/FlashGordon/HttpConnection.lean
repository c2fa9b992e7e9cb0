import FlashGordon.HttpParse

/-! The read loop of a connection (`api.c`): what the client sends arrives in pieces of any length, what has arrived is
received as far as the buffer holds it, and a request is taken off the buffer when the answer to the last one is
written. The client keeps its side open, and reads do not fail. -/

namespace FlashGordon.Http

open Chat Occurs Incremental List

inductive Phase where
  | idle
  | answering
  | closed
  deriving DecidableEq

/-- `api_connection`, with what the client has yet to send, what is yet to be received, and what was dispatched. A
connection is answering while `generating` or `response_complete` is set. -/
structure Connection where
  unsent : Text
  socket : Text
  input : Text
  phase : Phase
  keepAlive : Bool
  requests : List HttpRequest
  failure : Option Failure

def arrive (conn : Connection) (n : Nat) : Connection :=
  { conn with unsent := conn.unsent.drop n, socket := conn.socket ++ conn.unsent.take n }

/-- The first loop of `api_frontend_read_available`. -/
def receive (conn : Connection) : Connection :=
  let room := maxRequestBytes - conn.input.length
  { conn with socket := conn.socket.drop room, input := conn.input ++ conn.socket.take room }

/-- The second loop: every dispatch leaves an answer to be written, and so does a refusal. -/
def tryInput (conn : Connection) : Connection :=
  match parserTry conn.input with
  | .incomplete => conn
  | .failed failure => { conn with phase := .answering, failure := some failure }
  | .complete request consumed =>
    { conn with
      input := conn.input.drop consumed
      phase := .answering
      keepAlive := request.keepAlive
      requests := conn.requests ++ [request] }

/-- `api_frontend_read_available`. -/
def readAvailable (conn : Connection) : Connection :=
  match conn.phase with
  | .idle => tryInput (receive conn)
  | .answering => receive conn
  | .closed => conn

/-- `api_frontend_reap`, when the answer is flushed. -/
def reap (conn : Connection) : Connection :=
  if conn.phase = .answering then
    { conn with phase := if conn.failure = none ∧ conn.keepAlive = true then .idle else .closed }
  else conn

inductive Event where
  | arrive (n : Nat)
  | readAvailable
  | reap

def step (conn : Connection) : Event → Connection
  | .arrive n => arrive conn n
  | .readAvailable => readAvailable conn
  | .reap => reap conn

/-- `api_frontend_connection_create`, for a client that will send this stream. -/
def opened (stream : Text) : Connection := ⟨stream, [], [], .idle, false, [], none⟩

def run (stream : Text) (events : List Event) : Connection := events.foldl step (opened stream)

def atOnce (stream : Text) : List Event :=
  .arrive stream.length :: (List.replicate (stream.length + 1) [Event.readAvailable, .reap]).flatten

/-- Nothing more comes of this connection. -/
def Settled (conn : Connection) : Prop := ∀ event, step conn event = conn

/-- What is not yet taken off. -/
def remainder (conn : Connection) : Text := conn.input ++ (conn.socket ++ conn.unsent)

def outcome (conn : Connection) : List HttpRequest × Option Failure × Text :=
  (conn.requests, conn.failure, remainder conn)

def goesOn (request : HttpRequest) : Prop := request.keepAlive = true

structure Inv (stream : Text) (conn : Connection) : Prop where
  cuts : Cuts parserTry maxRequestBytes goesOn stream conn.requests (remainder conn)
  bounded : conn.input.length ≤ maxRequestBytes
  idle : conn.phase = .idle → conn.failure = none ∧ ∀ request ∈ conn.requests, goesOn request
  /-- An answer is followed by another request, or is the last. -/
  answering : conn.phase = .answering →
    (conn.failure = none ∧ conn.keepAlive = true ∧ ∀ request ∈ conn.requests, goesOn request) ∨
      ¬(conn.failure = none ∧ conn.keepAlive = true) ∧
        Ends parserTry maxRequestBytes goesOn stream conn.requests conn.failure (remainder conn)
  closed : conn.phase = .closed →
    Ends parserTry maxRequestBytes goesOn stream conn.requests conn.failure (remainder conn)

variable {stream rest : Text} {conn : Connection}

theorem opened_inv (stream : Text) : Inv stream (opened stream) where
  cuts := .start
  bounded := Nat.zero_le _
  idle _ := ⟨rfl, by simp [opened]⟩
  answering h := by cases h
  closed h := by cases h

@[simp] theorem remainder_arrive (n : Nat) : remainder (arrive conn n) = remainder conn := by
  rw [remainder, arrive, remainder, append_assoc conn.socket, take_append_drop]

@[simp] theorem remainder_receive : remainder (receive conn) = remainder conn := by
  rw [remainder, receive, remainder]
  rw [append_assoc, ← append_assoc (conn.socket.take _), take_append_drop]

theorem receive_bounded (h : conn.input.length ≤ maxRequestBytes) : (receive conn).input.length ≤ maxRequestBytes := by
  rw [receive, length_append, length_take]
  omega

section

variable (h : Inv stream conn)
include h

theorem receive_inv : Inv stream (receive conn) where
  cuts := by rw [remainder_receive]; exact h.cuts
  bounded := receive_bounded h.bounded
  idle := h.idle
  answering hphase := by rw [remainder_receive]; exact h.answering hphase
  closed hphase := by rw [remainder_receive]; exact h.closed hphase

theorem arrive_inv (n : Nat) : Inv stream (arrive conn n) where
  cuts := by rw [remainder_arrive]; exact h.cuts
  bounded := h.bounded
  idle := h.idle
  answering hphase := by rw [remainder_arrive]; exact h.answering hphase
  closed hphase := by rw [remainder_arrive]; exact h.closed hphase

theorem reap_inv : Inv stream (reap conn) := by
  unfold reap
  split_ifs with hphase hgo
  · rcases h.answering hphase with ⟨hnone, -, hall⟩ | ⟨hlast, -⟩
    · exact ⟨h.cuts, h.bounded, fun _ => ⟨hnone, hall⟩, fun h => by simp at h, fun h => by simp at h⟩
    · exact absurd hgo hlast
  · rcases h.answering hphase with ⟨hnone, hkeep, -⟩ | ⟨-, hend⟩
    · exact absurd ⟨hnone, hkeep⟩ hgo
    · exact ⟨h.cuts, h.bounded, fun h => by simp at h, fun h => by simp at h, fun _ => hend⟩
  · exact h

theorem tryInput_inv (hidle : conn.phase = .idle)
    (hverdict : parserTry conn.input = .incomplete ∨
      parserTry conn.input = parserTry ((remainder conn).take maxRequestBytes)) : Inv stream (tryInput conn) := by
  obtain ⟨hnone, hall⟩ := h.idle hidle
  unfold tryInput
  cases htry : parserTry conn.input with
  | incomplete => exact h
  | failed failure =>
    rw [htry] at hverdict
    have hfull := (hverdict.resolve_left (by simp)).symm
    have hend : Ends parserTry maxRequestBytes goesOn stream conn.requests (some failure) (remainder conn) :=
      ⟨h.cuts, hall, hfull⟩
    exact ⟨h.cuts, h.bounded, fun h => by simp at h, fun _ => .inr ⟨by simp, hend⟩, fun h => by simp at h⟩
  | complete request consumed =>
    rw [htry] at hverdict
    have hfull := (hverdict.resolve_left (by simp)).symm
    obtain ⟨-, hle, -⟩ := parserTry_take htry
    have hrest : remainder { conn with
        input := conn.input.drop consumed
        phase := .answering
        keepAlive := request.keepAlive
        requests := conn.requests ++ [request] } = (remainder conn).drop consumed := by
      rw [remainder, remainder, drop_append_of_le_length hle]
    have hcuts := Cuts.more h.cuts hall hfull
    rw [← hrest] at hcuts
    refine ⟨hcuts, ?_, fun h => by simp at h, fun _ => ?_, fun h => by simp at h⟩
    · rw [length_drop]
      have hbounded := h.bounded
      omega
    · by_cases hkeep : request.keepAlive = true
      · refine .inl ⟨hnone, hkeep, fun other hother => ?_⟩
        rcases mem_append.mp hother with hbefore | hlast
        · exact hall other hbefore
        · rw [mem_singleton.mp hlast]
          exact hkeep
      · refine .inr ⟨fun hboth => hkeep hboth.2, hcuts, ?_⟩
        rw [hnone]
        exact .inl ⟨request, by simp, hkeep⟩

end

theorem receive_input (conn : Connection) :
    ∃ n, (receive conn).input = (remainder conn).take n ∧ n = (receive conn).input.length := by
  refine ⟨(receive conn).input.length, ?_, rfl⟩
  rw [← remainder_receive, remainder, take_left]

section

variable (hsteady : ∀ requests rest, Cuts parserTry maxRequestBytes goesOn stream requests rest → (∀ request ∈ requests, goesOn request) → Steady parserTry maxRequestBytes rest)
include hsteady

theorem step_inv (h : Inv stream conn) (event : Event) : Inv stream (step conn event) := by
  cases event with
  | arrive n => exact arrive_inv h n
  | reap => exact reap_inv h
  | readAvailable =>
    show Inv stream (readAvailable conn)
    unfold readAvailable
    have hreceive := receive_inv h
    cases hphase : conn.phase with
    | closed => exact h
    | answering => exact hreceive
    | idle =>
      refine tryInput_inv hreceive hphase ?_
      obtain ⟨n, hinput, hn⟩ := receive_input conn
      have hrest := hsteady _ _ h.cuts (h.idle hphase).2
      rw [remainder_receive, hinput]
      exact hrest n (by rw [hn]; exact hreceive.bounded)

theorem run_inv (events : List Event) : Inv stream (run stream events) := by
  have hfold : ∀ conn, Inv stream conn → Inv stream (events.foldl step conn) := by
    induction events with
    | nil => exact fun conn h => h
    | cons event events ih => exact fun conn h => ih _ (step_inv hsteady h event)
  exact hfold _ (opened_inv stream)

end

/-! Where a run comes to rest. -/

theorem receive_fixed (h : conn.socket = [] ∨ maxRequestBytes ≤ conn.input.length) : receive conn = conn := by
  have hnothing : conn.socket.take (maxRequestBytes - conn.input.length) = [] := by
    rcases h with hsocket | hfull
    · rw [hsocket, take_nil]
    · rw [Nat.sub_eq_zero_of_le hfull, take_zero]
  have hall : conn.socket.drop (maxRequestBytes - conn.input.length) = conn.socket := by
    have hsplit := take_append_drop (maxRequestBytes - conn.input.length) conn.socket
    rwa [hnothing, nil_append] at hsplit
  rw [receive, hnothing, hall, append_nil]

theorem receive_receive (conn : Connection) : receive (receive conn) = receive conn := by
  apply receive_fixed
  rcases Nat.lt_or_ge conn.socket.length (maxRequestBytes - conn.input.length) with hlt | hge
  · exact .inl (drop_eq_nil_of_le hlt.le)
  · right
    rw [receive, length_append, length_take, Nat.min_eq_left hge]
    omega

theorem receive_input_of_unsent (hbounded : conn.input.length ≤ maxRequestBytes) (hunsent : conn.unsent = []) :
    (receive conn).input = (remainder conn).take maxRequestBytes := by
  rw [receive, remainder, hunsent, append_nil, take_append, take_of_length_le hbounded]

theorem settled_ends (h : Inv stream conn) (hsettled : Settled conn) :
    Ends parserTry maxRequestBytes goesOn stream conn.requests conn.failure (remainder conn) := by
  have hunsent : conn.unsent = [] := by
    have harrive := congrArg Connection.unsent (hsettled (.arrive conn.unsent.length))
    rw [step, arrive, drop_length] at harrive
    exact harrive.symm
  cases hphase : conn.phase with
  | closed => exact h.closed hphase
  | answering =>
    have hreap := congrArg Connection.phase (hsettled .reap)
    rw [step, reap, if_pos hphase, hphase] at hreap
    split_ifs at hreap
  | idle =>
    obtain ⟨hnone, -⟩ := h.idle hphase
    have hread := hsettled .readAvailable
    rw [step, readAvailable, hphase] at hread
    rw [hnone]
    refine ⟨h.cuts, .inr ?_⟩
    rw [← receive_input_of_unsent h.bounded hunsent]
    cases htry : parserTry (receive conn).input with
    | incomplete => rfl
    | failed failure =>
      have hchanged := congrArg Connection.phase hread
      rw [tryInput, htry, hphase] at hchanged
      cases hchanged
    | complete request consumed =>
      have hchanged := congrArg Connection.requests hread
      rw [tryInput, htry] at hchanged
      have hlength := congrArg List.length hchanged
      simp [receive] at hlength

theorem settled_of_closed (hphase : conn.phase = .closed) (hunsent : conn.unsent = []) : Settled conn := by
  obtain ⟨unsent, socket, input, phase, keepAlive, requests, failure⟩ := conn
  cases hphase
  cases hunsent
  intro event
  cases event with
  | arrive n => simp [step, arrive]
  | readAvailable => rfl
  | reap => rfl

theorem settled_of_incomplete (hphase : conn.phase = .idle) (hunsent : conn.unsent = [])
    (hreceive : receive conn = conn) (htry : parserTry conn.input = .incomplete) : Settled conn := by
  intro event
  cases event with
  | arrive n =>
    rw [step, arrive, hunsent, drop_nil, take_nil, append_nil, ← hunsent]
  | readAvailable =>
    rw [step, readAvailable, hphase]
    rw [hreceive, tryInput, htry]
  | reap => rw [step, reap, if_neg (by rw [hphase]; simp)]

theorem round_inv (h : Inv stream conn) (hphase : conn.phase = .idle) (hunsent : conn.unsent = []) :
    Inv stream (reap (readAvailable conn)) ∧ (reap (readAvailable conn)).unsent = [] ∧
      (Settled (reap (readAvailable conn)) ∨ (reap (readAvailable conn)).phase = .idle ∧
        (remainder (reap (readAvailable conn))).length < (remainder conn).length) := by
  have hreceive := receive_inv h
  have hread : readAvailable conn = tryInput (receive conn) := by rw [readAvailable, hphase]
  have hinput := receive_input_of_unsent h.bounded hunsent
  have hinv := reap_inv (tryInput_inv hreceive hphase (.inr (by rw [remainder_receive, hinput])))
  rw [hread]
  refine ⟨hinv, ?_⟩
  cases htry : parserTry (receive conn).input with
  | incomplete =>
    have hidle : reap (tryInput (receive conn)) = receive conn := by
      rw [tryInput, htry]
      exact if_neg (by rw [receive, hphase]; simp)
    rw [hidle]
    exact ⟨hunsent, .inl (settled_of_incomplete hphase hunsent (receive_receive conn) htry)⟩
  | failed failure =>
    have hclosed : (reap (tryInput (receive conn))).phase = .closed := by
      rw [tryInput, htry]
      simp [reap]
    have hsame : (reap (tryInput (receive conn))).unsent = [] := by
      rw [tryInput, htry, reap]
      exact hunsent
    exact ⟨hsame, .inl (settled_of_closed hclosed hsame)⟩
  | complete request consumed =>
    have hnone : (receive conn).failure = none := (h.idle hphase).1
    obtain ⟨hpos, hle, -⟩ := parserTry_take htry
    have htaken : reap (tryInput (receive conn)) =
        { receive conn with
          input := (receive conn).input.drop consumed
          phase := if request.keepAlive = true then .idle else .closed
          keepAlive := request.keepAlive
          requests := (receive conn).requests ++ [request] } := by
      rw [tryInput, htry, reap]
      simp [hnone]
    have hsame : (reap (tryInput (receive conn))).unsent = [] := by
      rw [htaken]
      exact hunsent
    refine ⟨hsame, ?_⟩
    by_cases hkeep : request.keepAlive = true
    · refine .inr ⟨by rw [htaken]; exact if_pos hkeep, ?_⟩
      have hwhole : (remainder conn).length = (remainder (receive conn)).length := by rw [remainder_receive]
      rw [hwhole, htaken, remainder, remainder]
      simp only [length_append, length_drop]
      omega
    · exact .inl (settled_of_closed (by rw [htaken]; exact if_neg hkeep) hsame)

theorem rounds_settle (rounds : Nat) (conn : Connection) (h : Inv stream conn) (hunsent : conn.unsent = [])
    (hleft : Settled conn ∨ conn.phase = .idle ∧ (remainder conn).length < rounds) :
    Inv stream ((List.replicate rounds [Event.readAvailable, .reap]).flatten.foldl step conn) ∧
      Settled ((List.replicate rounds [Event.readAvailable, .reap]).flatten.foldl step conn) := by
  induction rounds generalizing conn with
  | zero => exact ⟨h, hleft.resolve_right fun hidle => Nat.not_lt_zero _ hidle.2⟩
  | succ rounds ih =>
    rw [replicate_succ, flatten_cons, foldl_append]
    have hround : [Event.readAvailable, .reap].foldl step conn = reap (readAvailable conn) := rfl
    rw [hround]
    rcases hleft with hsettled | ⟨hphase, hlength⟩
    · have hread : readAvailable conn = conn := hsettled .readAvailable
      have hreap : reap conn = conn := hsettled .reap
      rw [hread, hreap]
      exact ih conn h hunsent (.inl hsettled)
    · obtain ⟨hinv, hunsent', hnext⟩ := round_inv h hphase hunsent
      refine ih _ hinv hunsent' (hnext.imp id fun hidle => ⟨hidle.1, ?_⟩)
      exact lt_of_lt_of_le hidle.2 (Nat.le_of_lt_succ hlength)

theorem atOnce_ends (stream : Text) : Settled (run stream (atOnce stream)) ∧
    Ends parserTry maxRequestBytes goesOn stream (run stream (atOnce stream)).requests
      (run stream (atOnce stream)).failure (remainder (run stream (atOnce stream))) := by
  have hinv := arrive_inv (opened_inv stream) stream.length
  have hlength : (remainder (arrive (opened stream) stream.length)).length < stream.length + 1 := by
    rw [remainder_arrive]
    exact Nat.lt_succ_self _
  obtain ⟨hend, hsettled⟩ :=
    rounds_settle (stream.length + 1) _ hinv (drop_length (l := stream)) (.inr ⟨rfl, hlength⟩)
  exact ⟨hsettled, settled_ends hend hsettled⟩

/-! The limit on a header block. -/

/-- A header block ends within its limit, or no end of it is in sight and less than a full buffer is left. -/
def HeaderFits (rest : Text) : Prop :=
  match find headerEnd (rest.take maxRequestBytes) with
  | some i => i + 4 ≤ maxHeaderBytes
  | none => rest.length < maxRequestBytes

/-- A request begins here: whole requests without limits on their header blocks stand in front, and each of them
leaves the connection open. -/
def Begins (stream rest : Text) : Prop :=
  ∃ requests, Cuts frame maxRequestBytes goesOn stream requests rest ∧ ∀ request ∈ requests, goesOn request

theorem parserTry_complete_iff {input : Text} {request : HttpRequest} {consumed : Nat} :
    parserTry input = .complete request consumed ↔ frame input = .complete request consumed := by
  cases hfind : find headerEnd input with
  | some i => rw [parserTry_of_find hfind]
  | none =>
    constructor
    · intro h
      rw [parserTry_of_none hfind] at h
      split_ifs at h
    · intro h
      obtain ⟨head, n, m, hhead, -, -⟩ := andThen_complete h
      obtain ⟨i, hi, -⟩ := upTo_complete hhead
      rw [hfind] at hi
      cases hi

theorem begins_iff : Begins stream rest ↔
    ∃ requests, Cuts parserTry maxRequestBytes goesOn stream requests rest ∧ ∀ request ∈ requests, goesOn request := by
  constructor
  · rintro ⟨requests, hcuts, hall⟩
    exact ⟨requests, hcuts.imp fun _ _ _ => parserTry_complete_iff.mpr, hall⟩
  · rintro ⟨requests, hcuts, hall⟩
    exact ⟨requests, hcuts.imp fun _ _ _ => parserTry_complete_iff.mp, hall⟩

theorem maxHeaderBytes_lt : maxHeaderBytes < maxRequestBytes := by decide

theorem find_headerEnd_take {n : Nat} (hn : n ≤ maxRequestBytes)
    (h : ∀ i, find headerEnd (rest.take maxRequestBytes) = some i → n < i + 4) :
    find headerEnd (rest.take n) = none := by
  have htake : rest.take n = (rest.take maxRequestBytes).take n := by rw [take_take, Nat.min_eq_left hn]
  rw [htake]
  cases hfind : find headerEnd ((rest.take maxRequestBytes).take n) with
  | none => rfl
  | some i =>
    obtain ⟨hwhole, hle⟩ := find_of_take (by decide) hfind
    have hlength : headerEnd.length = 4 := rfl
    have hlt := h i hwhole
    omega

theorem steady_of_fits (h : HeaderFits rest) : Steady parserTry maxRequestBytes rest := by
  intro n hn
  have htake : rest.take n = (rest.take maxRequestBytes).take n := by rw [take_take, Nat.min_eq_left hn]
  unfold HeaderFits at h
  cases hfind : find headerEnd (rest.take maxRequestBytes) with
  | some i =>
    rw [hfind] at h
    rcases Nat.lt_or_ge n (i + 4) with hlt | hge
    · left
      have hnone := find_headerEnd_take hn fun j hj => by
        rw [hfind, Option.some.injEq] at hj
        omega
      have hlength : (rest.take n).length ≤ n := length_take_le n rest
      have hlimits := maxHeaderBytes_lt
      rw [parserTry_of_none hnone, if_neg (by omega), if_neg (by omega)]
    · have hshown := find_take hfind (n := n) hge
      rw [← htake] at hshown
      rw [parserTry_of_find hshown, parserTry_of_find hfind]
      by_cases hincomplete : frame (rest.take n) = .incomplete
      · exact .inl hincomplete
      · right
        have hmore := (frame_firm (rest.take n)).append hincomplete ((rest.take maxRequestBytes).drop n)
        rw [htake, take_append_drop] at hmore
        rw [htake, hmore]
  | none =>
    rw [hfind] at h
    have hnone := find_headerEnd_take hn fun j hj => by
      rw [hfind] at hj
      cases hj
    have hwhole : rest.take maxRequestBytes = rest := take_of_length_le h.le
    rw [hwhole] at hfind ⊢
    have hlength : (rest.take n).length = min n rest.length := length_take
    have hshown : parserTry (rest.take n) =
        if maxHeaderBytes ≤ (rest.take n).length then .failed headersExceed else .incomplete := by
      rw [parserTry_of_none hnone, if_neg (by omega)]
    have hall : parserTry rest = if maxHeaderBytes ≤ rest.length then .failed headersExceed else .incomplete := by
      rw [parserTry_of_none hfind, if_neg (by omega)]
    rw [hshown, hall]
    by_cases hover : maxHeaderBytes ≤ (rest.take n).length
    · right
      rw [if_pos hover, if_pos (by omega)]
    · left
      rw [if_neg hover]

theorem parserTry_limit (h : ¬HeaderFits rest) :
    maxHeaderBytes ≤ rest.length ∧ parserTry (rest.take maxHeaderBytes) = .failed headersExceed ∧
      parserTry (rest.take maxRequestBytes) ≠ .failed headersExceed := by
  have hlimits := maxHeaderBytes_lt
  have hrefused : maxHeaderBytes ≤ rest.length → find headerEnd (rest.take maxHeaderBytes) = none →
      parserTry (rest.take maxHeaderBytes) = .failed headersExceed := fun hlong hnone => by
    have hlength : (rest.take maxHeaderBytes).length = maxHeaderBytes := by
      rw [length_take, Nat.min_eq_left hlong]
    rw [parserTry_of_none hnone, if_neg (by omega), if_pos hlength.ge]
  unfold HeaderFits at h
  cases hfind : find headerEnd (rest.take maxRequestBytes) with
  | some i =>
    rw [hfind] at h
    have hle : i + 4 ≤ (rest.take maxRequestBytes).length := find_le (by decide) hfind
    rw [length_take] at hle
    have hlong : maxHeaderBytes ≤ rest.length := by omega
    have hnone := find_headerEnd_take hlimits.le fun j hj => by
      rw [hfind, Option.some.injEq] at hj
      omega
    refine ⟨hlong, hrefused hlong hnone, fun hfailed => ?_⟩
    rw [parserTry_of_find hfind] at hfailed
    exact frame_ne hfailed rfl
  | none =>
    rw [hfind] at h
    have hlong : maxRequestBytes ≤ rest.length := Nat.le_of_not_lt h
    have hnone := find_headerEnd_take hlimits.le fun j hj => by
      rw [hfind] at hj
      cases hj
    have hlength : (rest.take maxRequestBytes).length = maxRequestBytes := by
      rw [length_take, Nat.min_eq_left hlong]
    refine ⟨hlimits.le.trans hlong, hrefused (hlimits.le.trans hlong) hnone, ?_⟩
    rw [parserTry_of_none hfind, if_pos hlength.ge]
    simp [headersExceed]

def awaiting (rest : Text) (keepAlive : Bool) (requests : List HttpRequest) : Connection :=
  ⟨rest, [], [], .idle, keepAlive, requests, none⟩

theorem receive_arrive_awaiting {keepAlive : Bool} {requests : List HttpRequest} {n : Nat} (hn : n ≤ maxRequestBytes) :
    receive (arrive (awaiting rest keepAlive requests) n) =
      { awaiting (rest.drop n) keepAlive requests with input := rest.take n } := by
  have hlength : (rest.take n).length ≤ maxRequestBytes := (length_take_le n rest).trans hn
  simp [receive, arrive, awaiting, take_of_length_le hlength, drop_eq_nil_of_le hlength]

theorem reach {requests : List HttpRequest} (h : Cuts parserTry maxRequestBytes goesOn stream requests rest)
    (hall : ∀ request ∈ requests, goesOn request) :
    ∃ events keepAlive, run stream events = awaiting rest keepAlive requests := by
  induction h with
  | start => exact ⟨[], false, rfl⟩
  | @more requests rest request consumed hcuts hgo hverdict ih =>
    obtain ⟨events, keepAlive, hrun⟩ := ih hgo
    obtain ⟨-, hle, htake⟩ := parserTry_take hverdict
    have hbound : consumed ≤ maxRequestBytes := hle.trans (length_take_le _ rest)
    rw [take_take, Nat.min_eq_left hbound] at htake
    have hlength : (rest.take consumed).length ≤ consumed := length_take_le consumed rest
    have hkeep : request.keepAlive = true := hall request (by simp)
    refine ⟨events ++ [.arrive consumed, .readAvailable, .reap], true, ?_⟩
    have hread : readAvailable (arrive (awaiting rest keepAlive requests) consumed) =
        tryInput (receive (arrive (awaiting rest keepAlive requests) consumed)) := rfl
    have hfold : run stream (events ++ [.arrive consumed, .readAvailable, .reap]) =
        reap (readAvailable (arrive (run stream events) consumed)) := by
      rw [run, foldl_append]
      rfl
    rw [hfold, hrun, hread, receive_arrive_awaiting hbound, tryInput]
    rw [htake]
    simp [reap, awaiting, hkeep, drop_eq_nil_of_le hlength]

theorem disagree (hbegins : Begins stream rest) (h : ¬HeaderFits rest) :
    ∃ events, Settled (run stream events) ∧ outcome (run stream events) ≠ outcome (run stream (atOnce stream)) := by
  obtain ⟨requests, hcuts, hall⟩ := begins_iff.mp hbegins
  obtain ⟨events, keepAlive, hrun⟩ := reach hcuts hall
  obtain ⟨hlong, hcut, hwhole⟩ := parserTry_limit h
  have hrefused : run stream (events ++ [.arrive maxHeaderBytes, .readAvailable, .reap, .arrive rest.length]) =
      { awaiting [] keepAlive requests with
        socket := rest.drop maxHeaderBytes
        input := rest.take maxHeaderBytes
        phase := .closed
        failure := some headersExceed } := by
    have hfold : run stream (events ++ [.arrive maxHeaderBytes, .readAvailable, .reap, .arrive rest.length]) =
        arrive (reap (tryInput (receive (arrive (awaiting rest keepAlive requests) maxHeaderBytes)))) rest.length := by
      rw [run, foldl_append]
      show arrive (reap (readAvailable (arrive (run stream events) maxHeaderBytes))) rest.length = _
      rw [hrun]
      rfl
    rw [hfold, receive_arrive_awaiting maxHeaderBytes_lt.le, tryInput]
    rw [hcut]
    simp [reap, arrive, awaiting]
  refine ⟨events ++ [.arrive maxHeaderBytes, .readAvailable, .reap, .arrive rest.length], ?_, ?_⟩
  · rw [hrefused]
    exact settled_of_closed rfl rfl
  · obtain ⟨-, hends⟩ := atOnce_ends stream
    rw [hrefused]
    intro hsame
    simp only [outcome, awaiting, Prod.mk.injEq] at hsame
    obtain ⟨hrequests, hfailure, -⟩ := hsame
    rw [← hrequests, ← hfailure] at hends
    obtain ⟨-, hrest⟩ := hends.1.unique hcuts rfl
    obtain ⟨-, -, hfailed⟩ := hends
    rw [hrest] at hfailed
    exact hwhole hfailed

/-- A whole request is whole in every longer text. However a stream is cut, the connection comes to the requests, the
error and the remainder that it comes to when the stream arrives at once, if and only if no request in it has a header
block over the limit. -/
theorem segmentation_iff (stream : Text) :
    (∀ input request consumed more, parserTry input = .complete request consumed →
      parserTry (input ++ more) = .complete request consumed) ∧
    Settled (run stream (atOnce stream)) ∧
    ((∀ events, Settled (run stream events) → outcome (run stream events) = outcome (run stream (atOnce stream))) ↔
      ∀ rest, Begins stream rest → HeaderFits rest) := by
  obtain ⟨hsettled, hends⟩ := atOnce_ends stream
  refine ⟨fun input request consumed more h => parserTry_append h more, hsettled, fun h rest hbegins => ?_, ?_⟩
  · by_contra hlong
    obtain ⟨events, hevents, hne⟩ := disagree hbegins hlong
    exact hne (h events hevents)
  · intro hfits events hevents
    have hsteady : ∀ requests rest, Cuts parserTry maxRequestBytes goesOn stream requests rest →
        (∀ request ∈ requests, goesOn request) → Steady parserTry maxRequestBytes rest :=
      fun requests rest hcuts hall => steady_of_fits (hfits rest (begins_iff.mpr ⟨requests, hcuts, hall⟩))
    obtain ⟨hrequests, hfailure, hrest⟩ := (settled_ends (run_inv hsteady events) hevents).unique hends
    rw [outcome, outcome, hrequests, hfailure, hrest]

/-! A request with one header, as long as one likes. -/

def longFront : Text := ascii "GET / HTTP/1.1\r\nA:"

def longBlock (n : Nat) : Text := longFront ++ List.replicate n 97

def longRequest (n : Nat) : Text := longBlock n ++ headerEnd

theorem longBlock_length (n : Nat) : (longBlock n).length = 18 + n := by
  rw [longBlock, length_append, length_replicate]
  rfl

theorem longBlock_get {n j : Nat} (hj : j < (longBlock n).length) : (longBlock n)[j]? = some 13 → j = 14 := by
  have hfront : ∀ j < 18, longFront[j]? = some 13 → j = 14 := by decide
  have hlength : longFront.length = 18 := rfl
  rw [longBlock_length] at hj
  rw [longBlock]
  intro hreturn
  rcases Nat.lt_or_ge j 18 with hlt | hge
  · rw [List.getElem?_append_left (by omega)] at hreturn
    exact hfront j hlt hreturn
  · rw [List.getElem?_append_right (by omega), List.getElem?_replicate, if_pos (by omega)] at hreturn
    cases hreturn

theorem longRequest_find (n : Nat) : find headerEnd (longRequest n) = some (longBlock n).length := by
  have hlength := longBlock_length n
  rw [find_eq_some]
  refine ⟨by rw [longRequest, drop_left], fun j hj hword => ?_⟩
  have hat : ∀ k < 4, (longRequest n)[j + k]? = headerEnd[k]? := fun k hk => by
    obtain ⟨rest, hrest⟩ := hword
    have hget : (headerEnd ++ rest)[k]? = ((longRequest n).drop j)[k]? := by rw [hrest]
    rw [List.getElem?_append_left hk, List.getElem?_drop] at hget
    exact hget.symm
  have hfirst := hat 0 (by decide)
  rw [longRequest, List.getElem?_append_left (by omega)] at hfirst
  obtain rfl := longBlock_get hj hfirst
  have hsecond := hat 2 (by decide)
  rw [longRequest, List.getElem?_append_left (by omega)] at hsecond
  have hwrong := longBlock_get (by omega) hsecond
  cases hwrong

theorem cString_of_notMem {text : Text} (h : (0 : UInt8) ∉ text) : cString text = text := by
  rw [cString, takeWhile_eq_self_iff]
  intro c hc
  simp only [ne_eq, decide_not, Bool.not_eq_eq_eq_not, Bool.not_true, decide_eq_false_iff_not]
  rintro rfl
  exact h hc

theorem headerLines_long (n : Nat) (fields : HeaderFields) :
    headerLines fields (65 :: 58 :: (List.replicate n 97 ++ headerEnd)) (n + 2) = .ok fields := by
  let line : Text := 65 :: 58 :: List.replicate n 97
  have hlength : line.length = n + 2 := by simp [line]
  have hletters : ∀ c ∈ line, c ≠ 0 ∧ c ≠ 13 := by
    intro c hc
    simp only [line, mem_cons, mem_replicate] at hc
    rcases hc with rfl | rfl | ⟨-, rfl⟩ <;> decide
  have hstring : cString (line ++ headerEnd) = line ++ headerEnd := by
    apply cString_of_notMem
    rw [mem_append, not_or]
    exact ⟨fun h => (hletters 0 h).1 rfl, by decide⟩
  have hfind : find crlf (line ++ headerEnd) = some (n + 2) := by
    rw [find_shift, show find crlf headerEnd = some 0 by decide, Option.map_some, hlength]
    intro i hi hword
    obtain ⟨rest, hrest⟩ := hword
    have hget : (crlf ++ rest)[0]? = ((line ++ headerEnd).drop i)[0]? := by rw [hrest]
    rw [List.getElem?_append_left (show 0 < crlf.length by decide), List.getElem?_drop, Nat.add_zero,
      List.getElem?_append_left hi] at hget
    exact (hletters 13 (mem_of_getElem? hget.symm)).2 rfl
  have hheader : headerLine fields (line ++ headerEnd) (n + 2) = .ok fields := by
    have htake : (line ++ headerEnd).take (n + 2) = line := take_left' hlength
    have hcolon : line.idxOf? 58 = some 1 := by simp [line, List.idxOf?, List.findIdx?_cons]
    have hname : (line ++ headerEnd).take 1 = [65] := rfl
    rw [headerLine, htake, hcolon]
    dsimp only
    rw [hname]
    rfl
  have hline : 65 :: 58 :: (List.replicate n 97 ++ headerEnd) = line ++ headerEnd := rfl
  rw [hline, headerLines, dif_neg (by omega), hstring, hfind]
  dsimp only
  rw [if_neg (by omega), hheader]
  dsimp only
  rw [Nat.sub_eq_zero_of_le (by omega), headerLines, dif_pos rfl]

theorem longRequest_head (n : Nat) : parseHead (longBlock n) = .ok ⟨ascii "GET", ascii "/", true, 0, false⟩ := by
  have hsplit : longBlock n ++ headerEnd = longFront ++ (List.replicate n 97 ++ headerEnd) := by
    rw [longBlock, append_assoc]
  have hnotMem : (0 : UInt8) ∉ longBlock n ++ headerEnd := by
    have hfront : (0 : UInt8) ∉ longFront ∧ (0 : UInt8) ∉ headerEnd := by decide
    rw [hsplit, mem_append, mem_append, mem_replicate, not_or, not_or]
    exact ⟨hfront.1, by simp, hfront.2⟩
  have hfind : find crlf (longBlock n ++ headerEnd) = some 14 := by
    rw [hsplit]
    exact find_append (by decide) (by decide)
  have hline : (longBlock n ++ headerEnd).take 14 = longFront.take 14 := by
    rw [hsplit, take_append_of_le_length (by decide)]
  have hrest : (longBlock n ++ headerEnd).drop 16 = 65 :: 58 :: (List.replicate n 97 ++ headerEnd) := by
    rw [hsplit, drop_append_of_le_length (by decide)]
    rfl
  have hscan : scanRequestLine (longFront.take 14) = some (ascii "GET", ascii "/") := by decide +kernel
  rw [parseHead]
  rw [cString_of_notMem hnotMem, hfind]
  dsimp only
  rw [hline, hscan]
  rw [hrest, longBlock_length, show 18 + n - (14 + 2) = n + 2 by omega, headerLines_long]
  rfl

theorem longRequest_parse {n : Nat} (hn : 22 + n ≤ maxRequestBytes) : parserTry (longRequest n) =
    .complete ⟨ascii "GET", ascii "/", [], true⟩ (longRequest n).length := by
  have hlength : (longRequest n).length = (longBlock n).length + 4 := by
    rw [longRequest, length_append]
    rfl
  rw [parserTry, longRequest_find]
  dsimp only
  rw [longRequest, take_left, longRequest_head]
  dsimp only
  have hsmall : ¬maxRequestBytes < (longBlock n).length + 4 + 0 := by
    rw [longBlock_length]
    omega
  rw [drop_eq_nil_of_le (by rw [← longRequest, hlength]), readBody, if_neg (by simp), if_neg hsmall,
    if_neg (by simp), ← longRequest, hlength]
  rfl

theorem longRequest_over {n : Nat} (hn : 22 + n ≤ maxRequestBytes) (hover : maxHeaderBytes < 22 + n) :
    ¬HeaderFits (longRequest n) := by
  have hlength : (longRequest n).length = 22 + n := by
    rw [longRequest, length_append, longBlock_length, Nat.add_right_comm]
    rfl
  rw [HeaderFits, take_of_length_le (hlength.le.trans hn), longRequest_find, longBlock_length]
  omega

/-- It is a request where it arrives at once; cut at the limit, it is refused. -/
theorem longRequest_disagree :
    parserTry (longRequest maxHeaderBytes) =
        .complete ⟨ascii "GET", ascii "/", [], true⟩ (longRequest maxHeaderBytes).length ∧
      parserTry ((longRequest maxHeaderBytes).take maxHeaderBytes) = .failed headersExceed ∧
      ∃ events, Settled (run (longRequest maxHeaderBytes) events) ∧
        outcome (run (longRequest maxHeaderBytes) events) ≠
          outcome (run (longRequest maxHeaderBytes) (atOnce (longRequest maxHeaderBytes))) := by
  have hsmall : 22 + maxHeaderBytes ≤ maxRequestBytes := by decide
  have hover := longRequest_over hsmall (Nat.lt_add_of_pos_left (by decide))
  exact ⟨longRequest_parse hsmall, (parserTry_limit hover).2.1, disagree ⟨[], .start, by simp⟩ hover⟩

end FlashGordon.Http
