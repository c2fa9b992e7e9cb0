import FlashGordon.ChatText
import FlashGordon.ByteCodec
import FlashGordon.Status

/-! The JSON readers of `chat.c`. A cursor is the rest of the text; a scan gives the cursor behind what it read.
Two scanners share one shape and differ in what they take for a scalar: the loose one that cuts tool arguments
apart and the strict one that decides whether a text is JSON at all. -/

namespace FlashGordon.Chat

open ByteCodec

def skipSpace (cursor : Text) : Text := cursor.dropWhile isSpace

/-- The letters that may follow a backslash, besides `u`. -/
def escapeLetters : Text := ascii "\"\\/bfnrt"

/-- `json_scan_string` behind the opening quote. -/
def scanStringBody : Text → Option Text
  | [] => none
  | 34 :: rest => some rest
  | 92 :: 117 :: a :: b :: c :: d :: rest => if isHex a && isHex b && isHex c && isHex d then scanStringBody rest else none
  | 92 :: c :: rest => if c ∈ escapeLetters then scanStringBody rest else none
  | c :: rest => if c < 0x20 || c == 92 then none else scanStringBody rest

def jsonScanString : Text → Option Text
  | 34 :: rest => scanStringBody rest
  | _ => none

/-- What stands before a value in a list of members: a name and a colon in an object, nothing in an array. -/
def scanLabel (object : Bool) (cursor : Text) : Option Text :=
  if object then
    (jsonScanString cursor).bind fun cursor =>
      match skipSpace cursor with
      | 58 :: rest => some rest
      | _ => none
  else some cursor

def closer (object : Bool) : UInt8 := if object then 125 else 93

/-- What stands behind an opening bracket: the closing one, or members. -/
def scanList (members : Text → Option Text) (object : Bool) (cursor : Text) : Option Text :=
  match skipSpace cursor with
  | c :: rest => if c = closer object then some rest else members (c :: rest)
  | [] => members []

section Scan

variable (scalar : Text → Option Text)

mutual

/-- A value, with as many nested steps as the first argument allows. -/
def scanValue : Nat → Text → Option Text
  | 0, _ => none
  | fuel + 1, cursor =>
    match skipSpace cursor with
    | 34 :: rest => scanStringBody rest
    | 123 :: rest => scanList (scanMembers fuel true) true rest
    | 91 :: rest => scanList (scanMembers fuel false) false rest
    | cursor => scalar cursor

def scanMembers : Nat → Bool → Text → Option Text
  | 0, _, _ => none
  | fuel + 1, object, cursor =>
    (scanLabel object cursor).bind fun cursor =>
      (scanValue fuel cursor).bind fun cursor =>
        match skipSpace cursor with
        | c :: rest =>
          if c = closer object then some rest
          else if c = 44 then scanMembers fuel object (skipSpace rest)
          else none
        | [] => none

end

/-- A value takes at most two steps for each byte. -/
def scanText (cursor : Text) : Option Text := scanValue scalar (2 * cursor.length + 1) cursor

end Scan

/-- Anything up to a blank or a separator. -/
def looseScalar (cursor : Text) : Option Text :=
  let rest := cursor.dropWhile fun c => !isSpace c && c ∉ ascii ",]\x7d"
  if rest.length < cursor.length then some rest else none

def jsonScanValue : Text → Option Text := scanText looseScalar

def scanDigits : Text → Option Text
  | [] => none
  | c :: rest => if isDigit c then some (rest.dropWhile isDigit) else none

def scanFraction : Text → Option Text
  | 46 :: rest => scanDigits rest
  | cursor => some cursor

def scanExponent : Text → Option Text
  | [] => some []
  | c :: rest =>
    if c = 101 || c = 69 then
      match rest with
      | 43 :: rest => scanDigits rest
      | 45 :: rest => scanDigits rest
      | _ => scanDigits rest
    else some (c :: rest)

def strictJsonNumber (cursor : Text) : Option Text := do
  let cursor := if cursor.head? = some 45 then cursor.tail else cursor
  let cursor ← if cursor.head? = some 48 then some cursor.tail else scanDigits cursor
  let cursor ← scanFraction cursor
  scanExponent cursor

def strictScalar (cursor : Text) : Option Text :=
  if (ascii "true").isPrefixOf cursor then some (cursor.drop 4)
  else if (ascii "false").isPrefixOf cursor then some (cursor.drop 5)
  else if (ascii "null").isPrefixOf cursor then some (cursor.drop 4)
  else strictJsonNumber cursor

def strictJsonValue : Text → Option Text := scanText strictScalar

def rawJsonComplete (text : Text) : Bool := (strictJsonValue text).any fun rest => skipSpace rest = []

/-! Decoding and shortening what was scanned. -/

def hexDigit (c : UInt8) : Option Nat :=
  if isDigit c then some (c.toNat - 48)
  else if 97 ≤ c && c ≤ 102 then some (c.toNat - 87)
  else if 65 ≤ c && c ≤ 70 then some (c.toNat - 55)
  else none

def hexWord (a b c d : UInt8) : Option Nat := do
  let a ← hexDigit a
  let b ← hexDigit b
  let c ← hexDigit c
  let d ← hexDigit d
  some (((a * 16 + b) * 16 + c) * 16 + d)

def appendUtf8 (value : Nat) : Text :=
  if value ≤ 0x7f then [.ofNat value]
  else if value ≤ 0x7ff then [.ofNat (0xc0 + value / 2 ^ 6), .ofNat (0x80 + value % 2 ^ 6)]
  else if value ≤ 0xffff then
    [.ofNat (0xe0 + value / 2 ^ 12), .ofNat (0x80 + value / 2 ^ 6 % 2 ^ 6), .ofNat (0x80 + value % 2 ^ 6)]
  else
    [.ofNat (0xf0 + value / 2 ^ 18), .ofNat (0x80 + value / 2 ^ 12 % 2 ^ 6), .ofNat (0x80 + value / 2 ^ 6 % 2 ^ 6),
      .ofNat (0x80 + value % 2 ^ 6)]

def escapedByte (c : UInt8) : Option UInt8 :=
  match c with
  | 34 => some 34
  | 92 => some 92
  | 47 => some 47
  | 98 => some 8
  | 102 => some 12
  | 110 => some 10
  | 114 => some 13
  | 116 => some 9
  | _ => none

def malformedArgument (message : String) : Error := ⟨.format, message⟩

def appendDecodedJsonString : Text → Except Error Text
  | [] => .ok []
  | [92] => .error (malformedArgument "invalid tool argument string escape")
  | 92 :: 117 :: a :: b :: c :: d :: rest =>
    match hexWord a b c d with
    | none => .error (malformedArgument "invalid Unicode tool argument escape")
    | some value =>
      if 0xd800 ≤ value && value ≤ 0xdbff then
        match rest with
        | 92 :: 117 :: e :: f :: g :: h :: rest =>
          match hexWord e f g h with
          | none => .error (malformedArgument "invalid Unicode tool argument surrogate")
          | some low =>
            if low < 0xdc00 || 0xdfff < low then
              .error (malformedArgument "unpaired Unicode tool argument surrogate")
            else do
              let more ← appendDecodedJsonString rest
              .ok (appendUtf8 (0x10000 + (value - 0xd800) * 2 ^ 10 + (low - 0xdc00)) ++ more)
        | _ => .error (malformedArgument "unpaired Unicode tool argument surrogate")
      else if 0xdc00 ≤ value && value ≤ 0xdfff then
        .error (malformedArgument "unpaired Unicode tool argument surrogate")
      else do
        let more ← appendDecodedJsonString rest
        .ok (appendUtf8 value ++ more)
  | 92 :: 117 :: _ => .error (malformedArgument "short Unicode tool argument escape")
  | 92 :: c :: rest =>
    match escapedByte c with
    | none => .error (malformedArgument "invalid tool argument string escape")
    | some decoded => do
      let more ← appendDecodedJsonString rest
      .ok (decoded :: more)
  | c :: rest => do
    let more ← appendDecodedJsonString rest
    .ok (c :: more)

/-- `append_minified_json`, with the state of its loop. -/
def minifiedFrom (string escaped : Bool) : Text → Text
  | [] => []
  | c :: rest =>
    if !string && isSpace c then minifiedFrom string escaped rest
    else if string then
      if escaped then c :: minifiedFrom true false rest
      else if c = 92 then c :: minifiedFrom true true rest
      else c :: minifiedFrom (c ≠ 34) false rest
    else c :: minifiedFrom (c = 34) escaped rest

def appendMinifiedJson (text : Text) : Text := minifiedFrom false false text

/-- What stands between two cursors of one text. -/
def between (start stop : Text) : Text := start.take (start.length - stop.length)

/-- The inside of a scanned string. -/
def unquoted (start stop : Text) : Text := (between start stop).tail.dropLast

/-- The loop of `json_object_member`: the cursors before and behind the value of this name. -/
def memberFrom (name : Text) : Nat → Text → Option (Text × Text)
  | 0, _ => none
  | fuel + 1, cursor =>
    if cursor = [] || cursor.head? = some 125 then none
    else do
      let label ← jsonScanString cursor
      let start ← (match skipSpace label with
        | 58 :: rest => some (skipSpace rest)
        | _ => none)
      let stop ← jsonScanValue start
      if unquoted cursor label = name then some (start, stop)
      else
        match skipSpace stop with
        | 44 :: rest => memberFrom name fuel (skipSpace rest)
        | 125 :: _ => none
        | _ => none

def jsonObjectMember (json name : Text) : Option (Text × Text) :=
  match skipSpace json with
  | 123 :: rest => memberFrom name (rest.length + 1) (skipSpace rest)
  | _ => none

end FlashGordon.Chat
