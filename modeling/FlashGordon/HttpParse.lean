import FlashGordon.ChatText
import FlashGordon.Incremental
import FlashGordon.Status
import Mathlib.Data.List.DropRight

/-! The incremental parser of HTTP requests (`api.c`). Every attempt starts at the front of what has been received: a
header block up to the first blank line, and behind it a body of the announced length or in chunks. The limits on the
length of the block are looked at only while its end is not there. -/

namespace FlashGordon.Http

open Chat Occurs Incremental

/-- `FG_API_MAX_REQUEST_BYTES`. -/
def maxRequestBytes : Nat := 32 * 1024 * 1024

/-- `FG_API_MAX_HEADER_BYTES`. -/
def maxHeaderBytes : Nat := 256 * 1024

def crlf : Text := [13, 10]

def headerEnd : Text := [13, 10, 13, 10]

structure Failure where
  httpStatus : Nat
  error : Error
  deriving DecidableEq

def headersExceed : Failure := ⟨413, .limit, "HTTP request headers exceed 256 KiB"⟩

/-- `http_request`, and the `keep_alive` that is returned beside it. -/
structure HttpRequest where
  method : Text
  path : Text
  body : Text
  keepAlive : Bool

/-- `api_parse_state`, with what is returned in each state. -/
abbrev ParseState := Verdict HttpRequest Failure

/-- `tolower` in the C locale. -/
def toLower (c : UInt8) : UInt8 := if 65 ≤ c && c ≤ 90 then c + 32 else c

def headerNameEqual (name : Text) (wanted : String) : Bool := name.map toLower = (ascii wanted).map toLower

def headerValueEqual (value : Text) (wanted : String) : Bool :=
  (value.rdropWhile isSpace).map toLower = (ascii wanted).map toLower

/-- A `%s` of `sscanf` with this width: the word, and what is behind it. -/
def scanWord (width : Nat) (text : Text) : Option (Text × Text) :=
  let behind := text.dropWhile isSpace
  let word := (behind.takeWhile fun c => !isSpace c).take width
  if word = [] then none else some (word, behind.drop word.length)

def scanRequestLine (line : Text) : Option (Text × Text) :=
  (scanWord 7 line).bind fun (method, line) =>
    (scanWord 255 line).bind fun (path, line) =>
      (scanWord 15 line).bind fun (version, _) => if version = ascii "HTTP/1.1" then some (method, path) else none

/-- What `strtoull` in base ten makes of a string: the number, how far it has read, and whether it is out of range. -/
def strtoull (text : Text) : Nat × Nat × Bool :=
  let behind := text.dropWhile isSpace
  let signed := behind.head? = some 43 || behind.head? = some 45
  let digits := (if signed then behind.tail else behind).takeWhile isDigit
  let value := digits.foldl (fun value c => value * 10 + (c.toNat - 48)) 0
  if digits = [] then (0, 0, false)
  else
    let read := text.length - behind.length + (if signed then 1 else 0) + digits.length
    if 2 ^ 64 ≤ value then (2 ^ 64 - 1, read, true)
    else (if behind.head? = some 45 then (2 ^ 64 - value) % 2 ^ 64 else value, read, false)

/-- What the header loop keeps. -/
structure HeaderFields where
  contentLength : Nat
  haveLength : Bool
  chunked : Bool
  jsonContent : Bool
  closeRequested : Bool

/-- One header, of the line in front of `next`; a number is read as a string, and may run on behind the line. -/
def headerLine (fields : HeaderFields) (text : Text) (next : Nat) : Except Failure HeaderFields :=
  match (text.take next).idxOf? 58 with
  | none => .error ⟨400, .format, "invalid HTTP header"⟩
  | some colon =>
    let name := text.take colon
    let value := ((text.take next).drop (colon + 1)).dropWhile isSpace
    if headerNameEqual name "Content-Length" then
      let (parsed, read, erange) := strtoull (cString (text.drop (next - value.length)))
      if erange ∨ ¬(read ≤ value.length ∧ (value.drop read).all isSpace) ∨ maxRequestBytes < parsed then
        .error ⟨if maxRequestBytes < parsed then 413 else 400, .limit, "invalid or excessive Content-Length"⟩
      else .ok { fields with contentLength := parsed, haveLength := true }
    else if headerNameEqual name "Transfer-Encoding" then
      if headerValueEqual value "chunked" then .ok { fields with chunked := true }
      else .error ⟨400, .argument, "unsupported Transfer-Encoding; only chunked is accepted"⟩
    else if headerNameEqual name "Content-Type" then
      .ok { fields with jsonContent := (value.take 16).map toLower = ascii "application/json" }
    else if headerNameEqual name "Connection" then
      .ok { fields with closeRequested := fields.closeRequested || headerValueEqual value "close" }
    else .ok fields

/-- The header loop, with `limit` bytes from `line` to the blank line; a byte zero hides what is behind it. -/
def headerLines (fields : HeaderFields) (line : Text) (limit : Nat) : Except Failure HeaderFields :=
  if _h : limit = 0 then .ok fields
  else
    match find crlf (cString line) with
    | none => .ok fields
    | some next =>
      if limit < next then .ok fields
      else
        match headerLine fields line next with
        | .error failure => .error failure
        | .ok fields => headerLines fields (line.drop (next + 2)) (limit - (next + 2))
termination_by limit

/-- What is known of a request when its header block has been read. -/
structure Head where
  method : Text
  path : Text
  keepAlive : Bool
  contentLength : Nat
  chunked : Bool

/-- `api_http_parser_try` from the copy of the header block, given without its blank line, to the body. -/
def parseHead (block : Text) : Except Failure Head :=
  let header := block ++ headerEnd
  match find crlf (cString header) with
  | none => .error ⟨400, .format, "invalid HTTP request line"⟩
  | some lineEnd =>
    match scanRequestLine (header.take lineEnd) with
    | none => .error ⟨400, .format, "expected an HTTP/1.1 request line"⟩
    | some (method, path) =>
      let fields : HeaderFields := ⟨0, false, false, false, false⟩
      match headerLines fields (header.drop (lineEnd + 2)) (block.length - (lineEnd + 2)) with
      | .error failure => .error failure
      | .ok fields =>
        let bodyRequired := method = ascii "POST"
        if fields.chunked ∧ fields.haveLength then
          .error ⟨400, .argument, "Content-Length and Transfer-Encoding are mutually exclusive"⟩
        else if bodyRequired ∧ ¬fields.haveLength ∧ ¬fields.chunked then
          .error ⟨411, .argument, "POST requires Content-Length"⟩
        else if bodyRequired ∧ ¬fields.jsonContent then
          .error ⟨415, .argument, "POST requires application/json"⟩
        else .ok ⟨method, path, !fields.closeRequested, fields.contentLength, fields.chunked⟩

def jsonHex (c : UInt8) : Nat :=
  if isDigit c then c.toNat - 48 else if 97 ≤ c then c.toNat - 97 + 10 else c.toNat - 65 + 10

def chunkSize (line : Text) : Except Failure Nat :=
  let digits := line.takeWhile isHex
  if digits = [] then .error ⟨400, .format, "invalid chunk size"⟩
  else
    let size := digits.foldl (fun size c => size * 16 + jsonHex c) 0
    if maxRequestBytes < size then .error ⟨413, .limit, "chunked HTTP request exceeds 32 MiB"⟩ else .ok size

/-- How far the trailers behind the last chunk go. -/
def trailersEnd (text : Text) : Option Nat :=
  if crlf <+: text then some 2 else (find headerEnd text).map (· + 4)

/-- `api_chunked_decode`: the decoded body, and how much of the text the chunks and the trailers take. -/
def chunkedDecode (text : Text) : Verdict Text Failure :=
  match find crlf text with
  | none => .incomplete
  | some lineEnd =>
    match chunkSize (text.take lineEnd) with
    | .error failure => .failed failure
    | .ok size =>
      if size = 0 then
        match trailersEnd (text.drop (lineEnd + 2)) with
        | none => .incomplete
        | some n => .complete [] (lineEnd + 2 + n)
      else if _h : (text.drop (lineEnd + 2)).length < size + 2 then .incomplete
      else if ((text.drop (lineEnd + 2)).drop size).take 2 ≠ crlf then
        .failed ⟨400, .format, "malformed chunked HTTP body"⟩
      else
        match chunkedDecode ((text.drop (lineEnd + 2)).drop (size + 2)) with
        | .incomplete => .incomplete
        | .failed failure => .failed failure
        | .complete decoded n =>
          .complete ((text.drop (lineEnd + 2)).take size ++ decoded) (lineEnd + 2 + (size + 2 + n))
termination_by text.length
decreasing_by
  simp only [List.length_drop] at _h ⊢
  omega

/-- `api_http_parser_try` from the body on, with the length of the header block in front of it. -/
def readBody (head : Head) (headerBytes : Nat) (text : Text) : ParseState :=
  let request body : HttpRequest := ⟨head.method, head.path, body, head.keepAlive⟩
  if head.chunked then (chunkedDecode text).map request
  else if maxRequestBytes < headerBytes + head.contentLength then
    .failed ⟨413, .limit, "HTTP request exceeds 32 MiB"⟩
  else if text.length < head.contentLength then .incomplete
  else .complete (request (text.take head.contentLength)) head.contentLength

/-- `api_http_parser_try`, on `parser->input`. -/
def parserTry (input : Text) : ParseState :=
  match find headerEnd input with
  | none =>
    if maxRequestBytes ≤ input.length then .failed ⟨413, .limit, "HTTP request exceeds 32 MiB"⟩
    else if maxHeaderBytes ≤ input.length then .failed headersExceed
    else .incomplete
  | some i =>
    match parseHead (input.take i) with
    | .error failure => .failed failure
    | .ok head =>
      match readBody head (i + 4) (input.drop (i + 4)) with
      | .incomplete => .incomplete
      | .failed failure => .failed failure
      | .complete request n => .complete request (i + 4 + n)

/-! The parser is firm but for its limits. -/

def chunkRest (size : Nat) : Text → Verdict Text Failure :=
  if size = 0 then fun text =>
    match trailersEnd text with
    | none => .incomplete
    | some n => .complete [] n
  else
    andThen
      (exactly (size + 2) fun chunk =>
        if (chunk.drop size).take 2 ≠ crlf then .error ⟨400, .format, "malformed chunked HTTP body"⟩
        else .ok (chunk.take size))
      fun data text => (chunkedDecode text).map (data ++ ·)

theorem chunkedDecode_eq : chunkedDecode = andThen (upTo crlf chunkSize) chunkRest := by
  funext text
  rw [chunkedDecode, andThen, upTo]
  cases find crlf text with
  | none => rfl
  | some lineEnd =>
    dsimp only
    cases chunkSize (text.take lineEnd) with
    | error failure => rfl
    | ok size =>
      dsimp only [Verdict.ofExcept, chunkRest]
      have hlength : crlf.length = 2 := rfl
      rw [hlength]
      by_cases hzero : size = 0
      · rw [if_pos hzero, if_pos hzero]
        cases trailersEnd (text.drop (lineEnd + 2)) <;> rfl
      · rw [if_neg hzero, if_neg hzero]
        generalize text.drop (lineEnd + 2) = rest
        have hdata : (rest.take (size + 2)).take size = rest.take size := by
          rw [List.take_take, Nat.min_eq_left (Nat.le_add_right size 2)]
        have hbehind : ((rest.take (size + 2)).drop size).take 2 = (rest.drop size).take 2 := by
          rw [List.drop_take, Nat.add_sub_cancel_left, List.take_take, Nat.min_self]
        rw [andThen, exactly, hbehind, hdata]
        by_cases hshort : rest.length < size + 2
        · rw [dif_pos hshort, if_pos hshort]
        · rw [dif_neg hshort, if_neg hshort]
          by_cases hcrlf : (rest.drop size).take 2 = crlf
          · rw [if_neg (not_not.mpr hcrlf), if_neg (not_not.mpr hcrlf)]
            dsimp only [Verdict.ofExcept]
            cases chunkedDecode (rest.drop (size + 2)) <;> rfl
          · rw [if_pos hcrlf, if_pos hcrlf]
            rfl

variable {text : Text}

theorem crlf_take_append {n : Nat} (hn : 2 ≤ n) (hlength : n ≤ text.length) (more : Text) :
    crlf <+: text.take n ++ more ↔ crlf <+: text := by
  have htake : (text.take n ++ more).take 2 = text.take 2 := by
    rw [List.take_append_of_le_length (by rw [List.length_take]; omega), List.take_take, Nat.min_eq_left hn]
  have hfront : ∀ text : Text, crlf <+: text ↔ crlf = text.take 2 := fun text => List.prefix_iff_eq_take
  rw [hfront, hfront, htake]

theorem chunkRest_zero_firm (text : Text) : Firm (chunkRest 0) text := by
  have heq : ∀ text, chunkRest 0 text = match trailersEnd text with
      | none => .incomplete
      | some n => .complete [] n := fun text => rfl
  cases hend : trailersEnd text with
  | none => exact firm_of_incomplete (by rw [heq, hend])
  | some n =>
    by_cases hcrlf : crlf <+: text
    · obtain rfl : 2 = n := by simpa [trailersEnd, hcrlf] using hend
      have hle : 2 ≤ text.length := hcrlf.length_le
      refine firm_of_complete [] 2 hle fun more => ?_
      rw [heq, trailersEnd, if_pos ((crlf_take_append (Nat.le_refl 2) hle more).mpr hcrlf)]
    · rw [trailersEnd, if_neg hcrlf, Option.map_eq_some_iff] at hend
      obtain ⟨i, hfind, rfl⟩ := hend
      have hle : i + 4 ≤ text.length := find_le (by decide) hfind
      refine firm_of_complete [] (i + 4) hle fun more => ?_
      have hnot : ¬crlf <+: text.take (i + 4) ++ more := by rwa [crlf_take_append (by omega) hle]
      rw [heq, trailersEnd, if_neg hnot, find_append (by decide) (find_take hfind (Nat.le_refl (i + 4))),
        Option.map_some]

theorem chunkedDecode_firm (text : Text) : Firm chunkedDecode text := by
  induction hlength : text.length using Nat.strong_induction_on generalizing text with
  | _ length ih =>
    rw [chunkedDecode_eq]
    refine firm_andThen (firm_upTo (by decide) chunkSize text) fun size consumed hline => ?_
    by_cases hzero : size = 0
    · rw [hzero]
      exact chunkRest_zero_firm _
    · rw [chunkRest, if_neg hzero]
      refine firm_andThen (firm_exactly _ _ _) fun data read hchunk => firm_map _ (ih _ ?_ _ rfl)
      obtain ⟨rfl, hchunk⟩ := exactly_complete hchunk
      have hdrop : (text.drop consumed).length = text.length - consumed := List.length_drop
      rw [List.length_drop, hdrop]
      omega

/-- The parser without its limits: the header block and then the body. -/
def frame : Text → ParseState :=
  andThen (upTo headerEnd fun block => (parseHead block).map fun head => (head, block.length + 4))
    fun (head, headerBytes) => readBody head headerBytes

theorem readBody_firm (head : Head) (headerBytes : Nat) (text : Text) : Firm (readBody head headerBytes) text := by
  let request body : HttpRequest := ⟨head.method, head.path, body, head.keepAlive⟩
  by_cases hchunked : head.chunked = true
  · have hbody : readBody head headerBytes = fun text => (chunkedDecode text).map request := by
      funext text
      rw [readBody, if_pos hchunked]
    rw [hbody]
    exact firm_map request (chunkedDecode_firm text)
  · by_cases hlong : maxRequestBytes < headerBytes + head.contentLength
    · have hbody : ∀ text, readBody head headerBytes text = .failed ⟨413, .limit, "HTTP request exceeds 32 MiB"⟩ :=
        fun text => by rw [readBody, if_neg hchunked, if_pos hlong]
      exact firm_of_failed _ fun more => hbody _
    · have hbody : readBody head headerBytes = exactly head.contentLength fun body => .ok (request body) := by
        funext text
        rw [readBody, if_neg hchunked, if_neg hlong]
        rfl
      rw [hbody]
      exact firm_exactly _ _ text

theorem frame_firm (text : Text) : Firm frame text :=
  firm_andThen (firm_upTo (by decide) _ _) fun _ _ _ => readBody_firm _ _ _

variable {input : Text}

theorem parserTry_of_find {i : Nat} (h : find headerEnd input = some i) : parserTry input = frame input := by
  have hle : i + 4 ≤ input.length := find_le (by decide) h
  have hlength : headerEnd.length = 4 := rfl
  rw [parserTry, frame, andThen, upTo, h]
  dsimp only
  cases parseHead (input.take i) with
  | error failure => rfl
  | ok head =>
    dsimp only [Except.map, Verdict.ofExcept]
    rw [hlength, List.length_take, Nat.min_eq_left (by omega)]
    cases readBody head (i + 4) (input.drop (i + 4)) <;> rfl

theorem parserTry_of_none (h : find headerEnd input = none) : parserTry input =
      if maxRequestBytes ≤ input.length then .failed ⟨413, .limit, "HTTP request exceeds 32 MiB"⟩
      else if maxHeaderBytes ≤ input.length then .failed headersExceed
      else .incomplete := by
  rw [parserTry, h]

theorem parserTry_append {request : HttpRequest} {consumed : Nat}
    (h : parserTry input = .complete request consumed) (more : Text) :
    parserTry (input ++ more) = .complete request consumed := by
  cases hfind : find headerEnd input with
  | none =>
    rw [parserTry_of_none hfind] at h
    split_ifs at h
  | some i =>
    rw [parserTry_of_find hfind] at h
    have hne : frame input ≠ .incomplete := by rw [h]; simp
    rw [parserTry_of_find (find_append (by decide) hfind), (frame_firm input).append hne, h]

theorem parserTry_take {request : HttpRequest} {consumed : Nat} (h : parserTry input = .complete request consumed) :
    4 ≤ consumed ∧ consumed ≤ input.length ∧ parserTry (input.take consumed) = .complete request consumed := by
  cases hfind : find headerEnd input with
  | none =>
    rw [parserTry_of_none hfind] at h
    split_ifs at h
  | some i =>
    rw [parserTry_of_find hfind] at h
    obtain ⟨head, n, m, hhead, -, rfl⟩ := andThen_complete h
    obtain ⟨j, hj, -, hn⟩ := upTo_complete hhead
    rw [hfind, Option.some.injEq] at hj
    have hlength : headerEnd.length = 4 := rfl
    have htake := (frame_firm input).take_append h []
    rw [List.append_nil] at htake
    refine ⟨by omega, (frame_firm input).length_le h, ?_⟩
    rw [parserTry_of_find (find_take hfind (by omega)), htake]

/-! What only the limits refuse with. -/

variable {failure : Failure}

theorem headerLine_ne {fields : HeaderFields} {next : Nat}
    (h : headerLine fields text next = .error failure) : failure ≠ headersExceed := by
  unfold headerLine at h
  dsimp only at h
  split at h
  · cases h
    decide
  · split_ifs at h <;> cases h <;> decide

theorem headerLines_ne {fields : HeaderFields} {line : Text} {limit : Nat}
    (h : headerLines fields line limit = .error failure) : failure ≠ headersExceed := by
  fun_induction headerLines fields line limit with
  | case1 => cases h
  | case2 => cases h
  | case3 => cases h
  | case4 => cases h; exact headerLine_ne ‹_›
  | case5 => rename_i ih; exact ih h

theorem parseHead_ne {block : Text} (h : parseHead block = .error failure) : failure ≠ headersExceed := by
  unfold parseHead at h
  dsimp only at h
  split at h
  · cases h
    decide
  · split at h
    · cases h
      decide
    · split at h
      · cases h
        exact headerLines_ne ‹_›
      · split_ifs at h <;> cases h <;> decide

theorem chunkSize_ne {line : Text} (h : chunkSize line = .error failure) : failure ≠ headersExceed := by
  unfold chunkSize at h
  dsimp only at h
  split_ifs at h <;> cases h <;> decide

theorem chunkedDecode_ne (h : chunkedDecode text = .failed failure) : failure ≠ headersExceed := by
  fun_induction chunkedDecode text with
  | case1 => cases h
  | case2 => cases h; exact chunkSize_ne ‹_›
  | case3 => cases h
  | case4 => cases h
  | case5 => cases h
  | case6 => cases h; decide
  | case7 => cases h
  | case8 => rename_i ih; exact ih (by rw [← h]; assumption)
  | case9 => cases h

theorem readBody_ne {head : Head} {headerBytes : Nat}
    (h : readBody head headerBytes text = .failed failure) : failure ≠ headersExceed := by
  unfold readBody at h
  split_ifs at h
  · exact chunkedDecode_ne (map_failed h)
  · cases h
    decide

theorem frame_ne (h : frame input = .failed failure) : failure ≠ headersExceed := by
  rcases andThen_failed h with hhead | ⟨head, n, -, hbody⟩
  · obtain ⟨block, hblock⟩ := upTo_failed hhead
    cases hparse : parseHead block with
    | ok head => rw [hparse] at hblock; cases hblock
    | error failure => rw [hparse] at hblock; cases hblock; exact parseHead_ne hparse
  · exact readBody_ne hbody

end FlashGordon.Http
