import FlashGordon.ChatRender
import Mathlib.Data.List.DropRight

/-! `fg_chat_parse_generated` (`chat.c`): what a model wrote, as reasoning, content and tool calls. -/

namespace FlashGordon.Chat

open Occurs ByteCodec

def toolStart : Text := ascii "<tool_call>"

def toolEnd : Text := ascii "</tool_call>"

def functionStart : Text := ascii "<function="

def functionEnd : Text := ascii "</function>"

def parameterStart : Text := ascii "<parameter="

def parameterEnd : Text := ascii "</parameter>"

def thinkStart : Text := ascii "<think>"

def thinkEnd : Text := ascii "</think>"

def trimEnd (text : Text) : Text := text.rdropWhile isSpace

def hexLetter (n : Nat) : UInt8 := if n < 10 then .ofNat (48 + n) else .ofNat (87 + n)

/-- A byte inside a JSON string. -/
def escapedBytes (c : UInt8) : Text :=
  match c with
  | 34 => [92, 34]
  | 92 => [92, 92]
  | 8 => [92, 98]
  | 12 => [92, 102]
  | 10 => [92, 110]
  | 13 => [92, 114]
  | 9 => [92, 116]
  | c => if c < 0x20 then [92, 117, 48, 48, hexLetter (c.toNat / 16), hexLetter (c.toNat % 16)] else [c]

def appendJsonEscaped (text : Text) : Text := [34] ++ text.flatMap escapedBytes ++ [34]

def dropHead (c : UInt8) (text : Text) : Text := if text.head? = some c then text.tail else text

def dropEnd (c : UInt8) (text : Text) : Text := if text.getLast? = some c then text.dropLast else text

def trimOneNewline (text : Text) : Text := dropEnd 13 (dropEnd 10 (dropHead 10 (dropHead 13 text)))

/-- The texts before and behind the first place of a word. -/
def cut (marker text : Text) : Option (Text × Text) :=
  (find marker text).map fun i => (text.take i, text.drop (i + marker.length))

def malformedCall : Error := ⟨.format, "malformed generated Qwen tool call"⟩

/-- A tag from behind its `=` to its `>`: the trimmed value, and what follows. -/
def tagValue (cursor : Text) (allowEmpty : Bool) : Except Error (Text × Text) :=
  match cut [62] cursor with
  | none => .error malformedCall
  | some (value, rest) =>
    if validQwenTagValue (trimEnd value) allowEmpty then .ok (trimEnd value, rest) else .error malformedCall

/-- The loop of `parse_native_tool_call` over the parameters: the members of the arguments object, and the cursor at
the end of the function. -/
def parametersFrom : Nat → Bool → Text → Except Error (Text × Text)
  | 0, _, _ => .error malformedCall
  | fuel + 1, wrote, cursor =>
    let cursor := skipSpace cursor
    if functionEnd.isPrefixOf cursor then .ok ([], cursor)
    else if parameterStart.isPrefixOf cursor then do
      let (key, rest) ← tagValue (cursor.drop parameterStart.length) true
      match cut parameterEnd rest with
      | none => .error malformedCall
      | some (value, rest) => do
        let raw := trimOneNewline value
        let member := (if wrote then [44] else []) ++ appendJsonEscaped key ++ [58] ++
          (if rawJsonComplete raw then appendMinifiedJson raw else appendJsonEscaped raw)
        let (more, rest) ← parametersFrom fuel true rest
        .ok (member ++ more, rest)
    else .error malformedCall

/-- `parse_native_tool_call`: the call, and the cursor behind it. -/
def parseNativeToolCall (cursor : Text) : Except Error (ToolCall × Text) := do
  failIf (toolStart.isPrefixOf cursor = false) ⟨.format, ""⟩
  let cursor := skipSpace (cursor.drop toolStart.length)
  failIf (functionStart.isPrefixOf cursor = false) malformedCall
  let (name, rest) ← tagValue (cursor.drop functionStart.length) false
  let (members, rest) ← parametersFrom (rest.length + 1) false rest
  let rest := skipSpace (rest.drop functionEnd.length)
  failIf (toolEnd.isPrefixOf rest = false) malformedCall
  .ok (⟨name, some ([123] ++ members ++ [125])⟩, rest.drop toolEnd.length)

/-- `range_has_qwen_tool_syntax`, for the first bytes of a text. -/
def rangeHasQwenToolSyntax (text : Text) (length : Nat) : Bool :=
  [ascii "<tool_call", ascii "</tool_call", ascii "<function=", ascii "</function", ascii "<parameter=",
    ascii "</parameter"].any fun marker => (find marker text).any (· < length)

/-- `fg_chat_generated`. -/
structure Generated where
  content : Text
  reasoning : Option Text
  toolCalls : List ToolCall

def findLast (m : Text) : Text → Option Nat
  | [] => none
  | x :: xs =>
    match findLast m xs with
    | some i => some (i + 1)
    | none => if m <+: x :: xs then some 0 else none

def textAfterCall : Error := ⟨.format, "generated text after a Qwen tool call is not supported"⟩

/-- The loop of `fg_chat_parse_generated` over the tool calls. -/
def callsFrom : Nat → Text → Except Error (List ToolCall)
  | 0, _ => .error malformedCall
  | fuel + 1, cursor => do
    let (call, rest) ← parseNativeToolCall cursor
    let rest := skipSpace rest
    if rest = [] then .ok [call]
    else if toolStart.isPrefixOf rest then do
      let calls ← callsFrom fuel rest
      .ok (call :: calls)
    else .error textAfterCall

/-- The text before the end marker, without blanks at its end. -/
def boundedText (text : Text) : Text :=
  trimEnd (match find imEnd text with
    | some i => text.take i
    | none => text)

def withoutThinkStart (text : Text) : Text := if thinkStart.isPrefixOf text then text.drop thinkStart.length else text

def malformedSyntax : Error := ⟨.format, "malformed generated Qwen tool syntax"⟩

def isLineBreak (c : UInt8) : Bool := c == 13 || c == 10

def parseVisible (reasoning : Option Text) (text : Text) : Except Error Generated :=
  let visible := text.dropWhile isLineBreak
  match find toolStart visible with
  | none =>
    if rangeHasQwenToolSyntax visible visible.length then .error malformedSyntax else .ok ⟨visible, reasoning, []⟩
  | some tool =>
    if rangeHasQwenToolSyntax visible tool then .error malformedSyntax
    else do
      let calls ← callsFrom (visible.length + 1) (visible.drop tool)
      .ok ⟨trimEnd (visible.take tool), reasoning, calls⟩

/-- Reasoning that was never closed, with no complete tool call behind it. -/
def parseUnclosed (bounded : Text) : Except Error Generated :=
  if rangeHasQwenToolSyntax bounded bounded.length then .error ⟨.format, "incomplete generated Qwen tool call"⟩
  else .ok ⟨[], some (withoutThinkStart bounded), []⟩

def fgChatParseGenerated (text : Text) (thinking : Bool) : Except Error Generated :=
  let bounded := boundedText text
  if thinking then
    match findLast thinkEnd bounded with
    | some close =>
      parseVisible (some (withoutThinkStart (bounded.take close))) (bounded.drop (close + thinkEnd.length))
    | none =>
      match find toolStart bounded with
      | none => parseUnclosed bounded
      | some tool =>
        if (find toolEnd (bounded.drop tool)).isSome then
          parseVisible (some (withoutThinkStart (bounded.take tool))) (bounded.drop tool)
        else parseUnclosed bounded
  else parseVisible none bounded

end FlashGordon.Chat
