import FlashGordon.ChatGenerated

/-! The channels of a streamed chat response (`api.c`). A delta leaves through a channel that keeps back an unfinished
UTF-8 unit. -/

namespace FlashGordon.Api

open Occurs ByteCodec Chat

/-- What `utf8_unit` finds at the head of a text. -/
inductive Utf8Unit where
  | valid (bytes : Nat)
  | incomplete
  | invalid
  deriving DecidableEq

def utf8Need (first : UInt8) : Option (Nat × Nat) :=
  if 0xc2 ≤ first && first ≤ 0xdf then some (2, first.toNat % 0x20)
  else if 0xe0 ≤ first && first ≤ 0xef then some (3, first.toNat % 0x10)
  else if 0xf0 ≤ first && first ≤ 0xf4 then some (4, first.toNat % 0x08)
  else none

def utf8Code (bits : Nat) (rest : Text) : Nat := rest.foldl (fun code c => code * 2 ^ 6 + c.toNat % 2 ^ 6) bits

def isContinuation (c : UInt8) : Bool := 0x80 ≤ c && c ≤ 0xbf

/-- Neither too long for its code point, nor a surrogate, nor out of range. -/
def utf8Range (need code : Nat) : Bool :=
  !(need = 3 && code < 0x800 || need = 4 && code < 0x10000 || 0xd800 ≤ code && code ≤ 0xdfff || 0x10ffff < code)

def utf8Unit : Text → Utf8Unit
  | [] => .incomplete
  | first :: rest =>
    if first < 0x80 then .valid 1
    else
      match utf8Need first with
      | none => .invalid
      | some (need, bits) =>
        if rest.length + 1 < need then .incomplete
        else if (rest.take (need - 1)).all isContinuation && utf8Range need (utf8Code bits (rest.take (need - 1))) then
          .valid need
        else .invalid

def replacement : Text := [0xef, 0xbf, 0xbd]

/-- The loop of `send_utf8_delta_channel`: what it sends, and what it keeps. -/
def utf8From : Nat → Text → Text × Text
  | 0, text => ([], text)
  | _ + 1, [] => ([], [])
  | fuel + 1, c :: rest =>
    match utf8Unit (c :: rest) with
    | .valid bytes =>
      let (sent, kept) := utf8From fuel ((c :: rest).drop bytes)
      ((c :: rest).take bytes ++ sent, kept)
    | .incomplete => ([], c :: rest)
    | .invalid =>
      let (sent, kept) := utf8From fuel rest
      (replacement ++ sent, kept)

def utf8Text (text : Text) : Text × Text := utf8From text.length text

/-- All that went out through a channel, and the bytes it keeps. -/
structure Channel where
  sent : Text
  kept : Text
  deriving DecidableEq

def emptyChannel : Channel := ⟨[], []⟩

/-- The size of the buffer in `send_utf8_delta_channel`. -/
def combinedBytes : Nat := 4100

def overflow : Error := ⟨.limit, "streamed token exceeds UTF-8 buffer"⟩

def Channel.push (channel : Channel) (text : Text) : Channel :=
  ⟨channel.sent ++ (utf8Text (channel.kept ++ text)).1, (utf8Text (channel.kept ++ text)).2⟩

/-- `send_utf8_delta_channel`. -/
def Channel.send (channel : Channel) (text : Text) : Except Error Channel :=
  if combinedBytes < channel.kept.length + text.length then .error overflow else .ok (channel.push text)

/-- An unfinished unit at the end of the stream. -/
def Channel.close (channel : Channel) : Channel :=
  if channel.kept = [] then channel else ⟨channel.sent ++ replacement, []⟩

end FlashGordon.Api
