import FlashGordon.HttpParse
import Mathlib.Data.Nat.Digits.Defs

/-!
The output side of a connection (`api.c`). Writes of a chunked response are framed when they are queued, the front
end sends what is queued and puts comments of its own between the writes, and at its end a response gets its last
chunk. What has been produced decodes to what has been written.
-/

namespace FlashGordon.Http

open Chat Occurs Incremental List

/-- `FG_API_CONNECTION_OUTPUT_LIMIT`. -/
def outputLimit : Nat := 8 * 1024 * 1024

def hexDigit (d : Nat) : UInt8 := if d < 10 then .ofNat (48 + d) else .ofNat (87 + d)

/-- `%zx`. -/
def hexText (n : Nat) : Text := if n = 0 then [48] else ((Nat.digits 16 n).map hexDigit).reverse

/-- A chunk as `api_connection_append` frames it. -/
def chunk (data : Text) : Text := hexText data.length ++ crlf ++ data ++ crlf

def lastChunk : Text := ascii "0\r\n\r\n"

/-! ## The output of a connection -/

/-- The output side of `api_connection`, with the bytes the socket has taken. -/
structure Outgoing where
  sent : Text
  out : Text
  generating : Bool
  chunked : Bool
  responseComplete : Bool
  closeAfterFlush : Bool
  clientFailed : Bool
  clientGone : Bool

/-- `api_connection_append`. -/
def Outgoing.append (conn : Outgoing) (data : Text) (chunked : Bool) : Outgoing × Except Error Unit :=
  if data = [] then (conn, .ok ())
  else if conn.clientFailed then (conn, .error ⟨.io, "HTTP client is not draining the response"⟩)
  else if outputLimit < conn.out.length + data.length then
    ({ conn with clientFailed := true }, .error ⟨.io, "HTTP client is not draining the response"⟩)
  else
    ({ conn with
        out := if chunked then conn.out ++ hexText data.length ++ crlf ++ data ++ crlf else conn.out ++ data }, .ok ())

/-- `api_sink_write` to a connection. -/
def Outgoing.write (conn : Outgoing) (data : Text) : Outgoing × Except Error Unit :=
  if data = [] then (conn, .ok ()) else conn.append data conn.chunked

/-- `api_connection_complete_response`. -/
def Outgoing.completeResponse (conn : Outgoing) (closeAfter : Bool) : Outgoing :=
  let conn :=
    if conn.chunked && !conn.clientFailed && !conn.clientGone then { conn with out := conn.out ++ lastChunk } else conn
  { conn with
    closeAfterFlush := conn.closeAfterFlush || (closeAfter || conn.clientFailed || conn.clientGone)
    responseComplete := true }

/-- What `send` answers: it has taken some bytes, or it was interrupted, or it would block, or it failed. -/
inductive SendAnswer
  | taken (n : Nat)
  | interrupted
  | wouldBlock
  | failed

/-- `api_connection_flush`, with the answers of `send` in their order. -/
def Outgoing.flush (conn : Outgoing) : List SendAnswer → Outgoing
  | [] => conn
  | answer :: rest =>
    if conn.out = [] then conn
    else
      match answer with
      | .taken (n + 1) =>
        flush { conn with sent := conn.sent ++ conn.out.take (n + 1), out := conn.out.drop (n + 1) } rest
      | .interrupted => flush conn rest
      | .wouldBlock => conn
      | .taken 0 | .failed => { conn with out := [], clientGone := true, closeAfterFlush := true }

def keepAliveComment : Text := ascii ": keep-alive\n\n"

/-- Whether a comment is due; `idle` says that the time since the last activity has passed. -/
def Outgoing.commentDue (conn : Outgoing) (idle : Bool) : Bool :=
  conn.generating && !conn.clientGone && conn.chunked && !conn.clientFailed && !conn.responseComplete &&
    conn.out.isEmpty && idle

/-- `api_connection_maybe_heartbeat`. -/
def Outgoing.maybeHeartbeat (conn : Outgoing) (idle : Bool) : Outgoing :=
  if conn.commentDue idle then
    { conn with out := conn.out ++ hexText keepAliveComment.length ++ crlf ++ keepAliveComment ++ crlf }
  else conn

/-- What happens to the output of a connection while a response is made. -/
inductive OutEvent
  | write (data : Text)
  | flush (answers : List SendAnswer)
  | heartbeat (idle : Bool)
  | clientGone

def Outgoing.step (conn : Outgoing) : OutEvent → Outgoing
  | .write data => (conn.write data).1
  | .flush answers => conn.flush answers
  | .heartbeat idle => conn.maybeHeartbeat idle
  | .clientGone => { conn with clientGone := true }

def Outgoing.run (conn : Outgoing) (events : List OutEvent) : Outgoing := events.foldl Outgoing.step conn

def Outgoing.written (conn : Outgoing) : OutEvent → List Text
  | .write [] => []
  | .write data => [data]
  | .heartbeat idle => if conn.commentDue idle then [keepAliveComment] else []
  | _ => []

def Outgoing.writes (conn : Outgoing) : List OutEvent → List Text
  | [] => []
  | event :: rest => conn.written event ++ (conn.step event).writes rest

/-- The response can go on: no write was refused, and the client is there. -/
def Outgoing.Live (conn : Outgoing) : Prop := conn.clientFailed = false ∧ conn.clientGone = false

theorem hexDigit_spec : ∀ d < 16, isHex (hexDigit d) = true ∧ jsonHex (hexDigit d) = d := by decide

theorem hexText_spec (n : Nat) : hexText n ≠ [] ∧ (∀ c ∈ hexText n, isHex c = true) ∧
    (hexText n).foldl (fun size c => size * 16 + jsonHex c) 0 = n := by
  rw [hexText]
  split
  next hzero =>
    obtain ⟨hhex, hvalue⟩ := hexDigit_spec 0 (by decide)
    refine ⟨cons_ne_nil _ _, fun c hc => ?_, ?_⟩
    · obtain rfl := mem_singleton.mp hc
      exact hhex
    · rw [foldl_cons, foldl_nil, Nat.zero_mul, Nat.zero_add]
      exact hvalue.trans hzero.symm
  next hpos =>
    have hlt (d : Nat) (hd : d ∈ Nat.digits 16 n) : d < 16 := Nat.digits_lt_base (by decide) hd
    refine ⟨?_, fun c hc => ?_, ?_⟩
    · rw [Ne, reverse_eq_nil_iff, map_eq_nil_iff, Nat.digits_eq_nil_iff_eq_zero]
      exact hpos
    · obtain ⟨d, hd, rfl⟩ := mem_map.mp (mem_reverse.mp hc)
      exact (hexDigit_spec d (hlt d hd)).1
    · have hvalue (digits : List Nat) (hsmall : ∀ d ∈ digits, d < 16) :
          (digits.map hexDigit).foldr (fun c size => size * 16 + jsonHex c) 0 = Nat.ofDigits 16 digits := by
        induction digits with
        | nil => rfl
        | cons d rest ih =>
          obtain ⟨hd, hrest⟩ := forall_mem_cons.mp hsmall
          rw [map_cons, foldr_cons, ih hrest, (hexDigit_spec d hd).2, Nat.ofDigits_cons]
          exact Nat.add_comm .. |>.trans (congrArg (d + ·) (Nat.mul_comm ..))
      rw [foldl_reverse, hvalue _ hlt, Nat.ofDigits_digits]

theorem chunkSize_hexText {n : Nat} (h : n ≤ maxRequestBytes) : chunkSize (hexText n) = .ok n := by
  obtain ⟨hne, hhex, hvalue⟩ := hexText_spec n
  have htake : (hexText n).takeWhile isHex = hexText n := takeWhile_eq_self_iff.mpr hhex
  rw [chunkSize, htake, if_neg hne, hvalue, if_neg (Nat.not_lt.mpr h)]

theorem find_crlf_hexText (n : Nat) (behind : Text) :
    find crlf (hexText n ++ (crlf ++ behind)) = some (hexText n).length := by
  have hcr : (13 : UInt8) ∉ hexText n := fun h => absurd ((hexText_spec n).2.1 13 h) (by decide)
  refine find_eq_some.mpr ⟨?_, fun j hj hprefix => hcr ?_⟩
  · rw [drop_left]
    exact prefix_append _ _
  · rw [drop_append_of_le_length hj.le] at hprefix
    obtain ⟨tail, htail⟩ := hprefix
    have hhead : (hexText n).drop j = (hexText n)[j] :: (hexText n).drop (j + 1) := drop_eq_getElem_cons hj
    rw [hhead] at htail
    rw [(List.cons.inj htail).1]
    exact getElem_mem hj

theorem chunkedDecode_lastChunk (behind : Text) :
    chunkedDecode (lastChunk ++ behind) = .complete [] lastChunk.length := by
  have hlast : lastChunk ++ behind = hexText 0 ++ (crlf ++ (crlf ++ behind)) := rfl
  have hdrop : (hexText 0 ++ (crlf ++ (crlf ++ behind))).drop ((hexText 0).length + 2) = crlf ++ behind := rfl
  rw [chunkedDecode, hlast, find_crlf_hexText]
  simp only [take_left, chunkSize_hexText (Nat.zero_le _), if_true, hdrop]
  rw [trailersEnd, if_pos (prefix_append _ _)]
  rfl

theorem chunkedDecode_chunk {data behind decoded : Text} {n : Nat} (hne : data ≠ [])
    (hfit : data.length ≤ maxRequestBytes) (h : chunkedDecode behind = .complete decoded n) :
    chunkedDecode (chunk data ++ behind) = .complete (data ++ decoded) ((chunk data).length + n) := by
  have hpos : data.length ≠ 0 := fun hzero => hne (length_eq_zero_iff.mp hzero)
  have hchunk : chunk data ++ behind = hexText data.length ++ (crlf ++ (data ++ (crlf ++ behind))) := by
    simp only [chunk, append_assoc]
  have hdrop : (hexText data.length ++ (crlf ++ (data ++ (crlf ++ behind)))).drop ((hexText data.length).length + 2) =
      data ++ (crlf ++ behind) := by
    rw [drop_append, drop_eq_nil_of_le (Nat.le_add_right _ _), nil_append, Nat.add_sub_cancel_left]
    rfl
  have hskip : (data ++ (crlf ++ behind)).drop (data.length + 2) = behind := by
    rw [← drop_drop, drop_left]
    rfl
  have hlong : ¬(data ++ (crlf ++ behind)).length < data.length + 2 := by
    rw [length_append, length_append]
    have : crlf.length = 2 := rfl
    omega
  rw [chunkedDecode, hchunk, find_crlf_hexText]
  simp only [take_left, chunkSize_hexText hfit, if_neg hpos, hdrop, dif_neg hlong, drop_left, hskip, h]
  have hcrlf : (crlf ++ behind).take 2 = crlf := rfl
  rw [hcrlf, if_neg (not_not.mpr rfl)]
  congr 1
  simp only [chunk, length_append]
  have : crlf.length = 2 := rfl
  omega

theorem chunkedDecode_chunks {writes : List Text} (h : ∀ data ∈ writes, data ≠ [] ∧ data.length ≤ maxRequestBytes)
    (behind : Text) : chunkedDecode (writes.flatMap chunk ++ lastChunk ++ behind) =
      .complete writes.flatten (writes.flatMap chunk ++ lastChunk).length := by
  induction writes with
  | nil => exact chunkedDecode_lastChunk behind
  | cons data rest ih =>
    obtain ⟨⟨hne, hfit⟩, hrest⟩ := forall_mem_cons.mp h
    have hnext := chunkedDecode_chunk hne hfit (ih hrest)
    rw [flatMap_cons, flatten_cons]
    simp only [append_assoc, length_append] at hnext ⊢
    rw [hnext]

variable {conn : Outgoing}

/-- What an event does to a response that can still go on behind it: it could before, and what the event writes is
produced in chunks. -/
structure Produces (conn next : Outgoing) (written : List Text) : Prop where
  live : conn.Live
  bytes : next.sent ++ next.out = conn.sent ++ conn.out ++ written.flatMap chunk
  sized : ∀ data ∈ written, data ≠ [] ∧ data.length ≤ maxRequestBytes

theorem produces_refl (h : conn.Live) : Produces conn conn [] :=
  ⟨h, (append_nil _).symm, fun _ hdata => absurd hdata not_mem_nil⟩

theorem write_produces {data : Text} (hchunked : conn.chunked = true) (h : (conn.write data).1.Live) :
    Produces conn (conn.write data).1 (conn.written (.write data)) := by
  rw [Outgoing.write] at h ⊢
  by_cases hnil : data = []
  · subst hnil
    exact produces_refl h
  · have hwritten : conn.written (.write data) = [data] := by
      cases data with
      | nil => exact absurd rfl hnil
      | cons c rest => rfl
    rw [if_neg hnil, Outgoing.append, if_neg hnil] at h ⊢
    by_cases hfailed : conn.clientFailed = true
    · rw [if_pos hfailed] at h
      exact absurd (h.1.symm.trans hfailed) nofun
    · rw [if_neg hfailed] at h ⊢
      by_cases hlimit : outputLimit < conn.out.length + data.length
      · rw [if_pos hlimit] at h
        exact absurd h.1 nofun
      · rw [if_neg hlimit] at h ⊢
        have hsmall : data.length ≤ maxRequestBytes := by
          have : outputLimit ≤ maxRequestBytes := by decide
          omega
        refine ⟨h, ?_, ?_⟩
        · rw [hwritten, flatMap_singleton]
          simp only [hchunked, if_true, chunk, append_assoc]
        · rw [hwritten]
          exact fun other hother => mem_singleton.mp hother ▸ ⟨hnil, hsmall⟩

theorem flush_cons (answer : SendAnswer) (rest : List SendAnswer) : conn.flush (answer :: rest) =
    if conn.out = [] then conn
    else
      match answer with
      | .taken (n + 1) =>
        Outgoing.flush { conn with sent := conn.sent ++ conn.out.take (n + 1), out := conn.out.drop (n + 1) } rest
      | .interrupted => conn.flush rest
      | .wouldBlock => conn
      | .taken 0 | .failed => { conn with out := [], clientGone := true, closeAfterFlush := true } := by
  match answer with
  | .taken 0 | .taken (n + 1) | .interrupted | .wouldBlock | .failed => rfl

theorem flush_produces {answers : List SendAnswer} (h : (conn.flush answers).Live) :
    Produces conn (conn.flush answers) [] := by
  induction answers generalizing conn with
  | nil => exact produces_refl h
  | cons answer rest ih =>
    rw [flush_cons] at h ⊢
    by_cases hout : conn.out = []
    · rw [if_pos hout] at h ⊢
      exact produces_refl h
    · rw [if_neg hout] at h ⊢
      match answer with
      | .taken (n + 1) =>
        obtain ⟨hlive, hbytes, hsized⟩ := ih h
        refine ⟨hlive, hbytes.trans ?_, hsized⟩
        simp only [append_assoc, take_append_drop]
      | .interrupted => exact ih h
      | .wouldBlock => exact produces_refl h
      | .taken 0 => exact absurd h.2 nofun
      | .failed => exact absurd h.2 nofun

theorem flush_chunked (answers : List SendAnswer) : (conn.flush answers).chunked = conn.chunked := by
  induction answers generalizing conn with
  | nil => rfl
  | cons answer rest ih =>
    rw [flush_cons]
    by_cases hout : conn.out = []
    · rw [if_pos hout]
    · rw [if_neg hout]
      match answer with
      | .taken (n + 1) => exact ih
      | .interrupted => exact ih
      | .taken 0 | .wouldBlock | .failed => rfl

theorem heartbeat_produces {idle : Bool} (h : (conn.maybeHeartbeat idle).Live) :
    Produces conn (conn.maybeHeartbeat idle) (conn.written (.heartbeat idle)) := by
  rw [Outgoing.maybeHeartbeat, Outgoing.written] at *
  by_cases hdue : conn.commentDue idle = true
  · rw [if_pos hdue] at h ⊢
    rw [if_pos hdue]
    have hcomment : keepAliveComment ≠ [] ∧ keepAliveComment.length ≤ maxRequestBytes := by decide
    refine ⟨h, ?_, fun data hdata => mem_singleton.mp hdata ▸ hcomment⟩
    rw [flatMap_singleton]
    simp only [chunk, append_assoc]
  · rw [if_neg hdue] at h ⊢
    rw [if_neg hdue]
    exact produces_refl h

theorem step_produces {event : OutEvent} (hchunked : conn.chunked = true) (h : (conn.step event).Live) :
    Produces conn (conn.step event) (conn.written event) := by
  cases event with
  | write data => exact write_produces hchunked h
  | flush answers => exact flush_produces h
  | heartbeat idle => exact heartbeat_produces h
  | clientGone => exact absurd h.2 nofun

theorem step_chunked (conn : Outgoing) (event : OutEvent) : (conn.step event).chunked = conn.chunked := by
  cases event with
  | write data =>
    simp only [Outgoing.step, Outgoing.write, Outgoing.append]
    split_ifs <;> rfl
  | flush answers => exact flush_chunked answers
  | heartbeat idle =>
    simp only [Outgoing.step, Outgoing.maybeHeartbeat]
    split_ifs <;> rfl
  | clientGone => rfl

theorem run_chunked (conn : Outgoing) (events : List OutEvent) : (conn.run events).chunked = conn.chunked := by
  induction events generalizing conn with
  | nil => rfl
  | cons event rest ih => exact (ih _).trans (step_chunked conn event)

theorem run_produces {events : List OutEvent} (hchunked : conn.chunked = true) (h : (conn.run events).Live) :
    Produces conn (conn.run events) (conn.writes events) := by
  induction events generalizing conn with
  | nil => exact produces_refl h
  | cons event rest ih =>
    have hrest := ih ((step_chunked conn event).trans hchunked) h
    have hstep := step_produces hchunked hrest.live
    refine ⟨hstep.live, hrest.bytes.trans ?_, fun data hdata => ?_⟩
    · rw [hstep.bytes, Outgoing.writes, flatMap_append, append_assoc]
    · exact (mem_append.mp hdata).elim (hstep.sized data) (hrest.sized data)

def writeData : List OutEvent → List Text
  | [] => []
  | .write data :: rest => data :: writeData rest
  | _ :: rest => writeData rest

theorem writes_flatten {events : List OutEvent} (h : ∀ idle, .heartbeat idle ∉ events) :
    (conn.writes events).flatten = (writeData events).flatten := by
  induction events generalizing conn with
  | nil => rfl
  | cons event rest ih =>
    have hrest := @ih (conn.step event) fun idle hmem => h idle (mem_cons_of_mem _ hmem)
    rw [Outgoing.writes, flatten_append, hrest]
    match event with
    | .write [] => rfl
    | .write (c :: data) =>
      rw [writeData, flatten_cons]
      exact congrArg (· ++ _) (append_nil _)
    | .flush answers => rfl
    | .clientGone => rfl
    | .heartbeat idle => exact absurd mem_cons_self (h idle)

/-- Chunked framing round trip. From any connection whose response is chunked, whatever has been queued before and
whatever the socket takes: the bytes a run and the end of the response produce decode, with any bytes behind them, to
what has been written, and to the concatenation of the writes if the front end wrote no comment. -/
theorem chunked_round_trip (conn : Outgoing) (hchunked : conn.chunked = true) (events : List OutEvent)
    (hlive : (conn.run events).Live) (closeAfter : Bool) :
    ∃ produced, ((conn.run events).completeResponse closeAfter).sent ++
        ((conn.run events).completeResponse closeAfter).out = conn.sent ++ conn.out ++ produced ∧
      (∀ behind, chunkedDecode (produced ++ behind) = .complete (conn.writes events).flatten produced.length) ∧
      ((∀ idle, .heartbeat idle ∉ events) → (conn.writes events).flatten = (writeData events).flatten) := by
  obtain ⟨-, hbytes, hsized⟩ := run_produces hchunked hlive
  have hends : ((conn.run events).chunked && !(conn.run events).clientFailed && !(conn.run events).clientGone) = true := by
    rw [run_chunked, hchunked, hlive.1, hlive.2]
    rfl
  refine ⟨(conn.writes events).flatMap chunk ++ lastChunk, ?_, chunkedDecode_chunks hsized, writes_flatten⟩
  rw [Outgoing.completeResponse, if_pos hends]
  simp only
  rw [← append_assoc, hbytes, append_assoc (conn.sent ++ conn.out)]

def freshStream : Outgoing := ⟨[], [], true, true, false, false, false, false⟩

/-- Data that look like the end of a response, and a flush and a comment in between. -/
def streamEvents : List OutEvent :=
  [.write (ascii "0\r\n\r\n"), .flush [.taken 4, .interrupted, .taken 100], .heartbeat true, .write (ascii "a")]

theorem chunked_round_trip_stream : ∃ produced,
    ((freshStream.run streamEvents).completeResponse false).sent ++
      ((freshStream.run streamEvents).completeResponse false).out = produced ∧
    chunkedDecode (produced ++ ascii "1\r\n") =
      .complete (ascii "0\r\n\r\n: keep-alive\n\na") produced.length := by
  obtain ⟨produced, hbytes, hdecode, -⟩ := chunked_round_trip freshStream rfl streamEvents ⟨by decide, by decide⟩ false
  exact ⟨produced, hbytes, hdecode (ascii "1\r\n")⟩

end FlashGordon.Http
