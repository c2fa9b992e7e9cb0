import FlashGordon.ChatJson

/-! `fg_chat_render` (`chat.c`): a list of messages as one prompt. Most request text goes through `appendText`; tool
responses, and a leading system message that shares its turn with the tool declaration, are put in as they are. -/

namespace FlashGordon.Chat

open Occurs ByteCodec

structure ToolCall where
  name : Text
  argumentsJson : Option Text

/-- `fg_chat_message`, as far as it is rendered; a null text is an empty one. -/
structure Message where
  role : Text
  content : Text
  reasoning : Text
  toolCalls : List ToolCall

inductive ThinkMode where
  | default
  | off
  deriving DecidableEq

inductive ToolChoice where
  | auto
  | none
  | required
  | named
  deriving DecidableEq

/-- `fg_chat_render_options`; null options are the ones with nothing set. -/
structure RenderOptions where
  toolSchemas : List Text
  thinkMode : ThinkMode
  toolChoice : ToolChoice
  toolChoiceName : Text

def Holds (text marker : Text) : Prop := (find marker text).isSome

instance (text marker : Text) : Decidable (Holds text marker) := by
  unfold Holds
  infer_instance

def reserved (text : Text) : Prop := Holds text imStart ∨ Holds text imEnd

instance (text : Text) : Decidable (reserved text) := by
  unfold reserved
  infer_instance

def validateToolOptions (options : RenderOptions) : Except Error Unit := do
  failIf (options.toolChoice = .named ∧ options.toolChoiceName = [] ∨
      (options.toolChoice = .required ∨ options.toolChoice = .named) ∧ options.toolSchemas = [])
    ⟨.argument, "chat renderer received invalid arguments"⟩
  failIf (reserved options.toolChoiceName)
    ⟨.argument, "tool choice name cannot contain reserved ChatML control tokens"⟩
  failIf (∃ schema ∈ options.toolSchemas, reserved schema)
    ⟨.argument, "tool schemas cannot contain reserved ChatML control tokens"⟩

def roleIsSystem (role : Text) : Bool := role = ascii "system" || role = ascii "developer"

def roleIsTool (role : Text) : Bool := role = ascii "tool" || role = ascii "function"

structure ToolArgument where
  key : Text
  value : Text
  string : Bool
  used : Bool

def appendToolArgument (argument : ToolArgument) : Except Error Text := do
  failIf (validQwenTagValue argument.key true = false)
    ⟨.argument, "tool argument names cannot contain Qwen tag delimiters"⟩
  let value ← if argument.string then appendDecodedJsonString argument.value.tail.dropLast
    else .ok (appendMinifiedJson argument.value)
  .ok (ascii "<parameter=" ++ argument.key ++ ascii ">\n" ++ appendText (cString value) ++ ascii "\n</parameter>\n")

def schemaPropertiesForCall (callName : Text) : List Text → Option Text
  | [] => none
  | schema :: schemas =>
    match jsonObjectMember schema (ascii "name") with
    | some (start, stop) =>
      if start.head? ≠ some 34 then schemaPropertiesForCall callName schemas
      else
        match appendDecodedJsonString (unquoted start stop) with
        | .error _ => schemaPropertiesForCall callName schemas
        | .ok decoded =>
          if decoded ≠ [] ∧ cString decoded = callName then do
            let parameters ← (jsonObjectMember schema (ascii "parameters")).orElse fun _ =>
              jsonObjectMember schema (ascii "input_schema")
            let properties ← jsonObjectMember parameters.1 (ascii "properties")
            some properties.1
          else schemaPropertiesForCall callName schemas
    | none => schemaPropertiesForCall callName schemas

def appendNamedArgument (key : Text) (arguments : List ToolArgument) : Except Error (Text × List ToolArgument) :=
  match arguments.findIdx? fun argument => !argument.used && key ≠ [] && argument.key = cString key with
  | none => .ok ([], arguments)
  | some i => do
    let argument := arguments[i]?.getD ⟨[], [], false, false⟩
    let piece ← appendToolArgument argument
    .ok (piece, arguments.set i { argument with used := true })

/-- The loop of `append_schema_ordered_arguments`: what it appends, and the arguments with their marks. -/
def orderedFrom : Nat → Text → List ToolArgument → Except Error (Text × List ToolArgument)
  | 0, _, arguments => .ok ([], arguments)
  | fuel + 1, cursor, arguments =>
    if cursor = [] || cursor.head? = some 125 then .ok ([], arguments)
    else
      match jsonScanString cursor with
      | none => .ok ([], arguments)
      | some label => do
        let key ← appendDecodedJsonString (unquoted cursor label)
        match skipSpace label with
        | 58 :: rest =>
          match jsonScanValue (skipSpace rest) with
          | none => .ok ([], arguments)
          | some stop => do
            let (piece, arguments) ← appendNamedArgument key arguments
            match skipSpace stop with
            | 44 :: rest => do
              let (more, arguments) ← orderedFrom fuel (skipSpace rest) arguments
              .ok (piece ++ more, arguments)
            | _ => .ok (piece, arguments)
        | _ => .ok ([], arguments)

def appendSchemaOrderedArguments (properties : Option Text) (arguments : List ToolArgument) :
    Except Error (Text × List ToolArgument) :=
  match properties.map skipSpace with
  | some (123 :: rest) => orderedFrom (rest.length + 1) (skipSpace rest) arguments
  | _ => .ok ([], arguments)

/-- The loop of `append_tool_arguments` over the members of the object; gives the cursor it stops at. -/
def argumentsFrom : Nat → Text → Except Error (List ToolArgument × Text)
  | 0, cursor => .ok ([], cursor)
  | fuel + 1, cursor =>
    if cursor = [] || cursor.head? = some 125 then .ok ([], cursor)
    else
      match jsonScanString cursor with
      | none => .error (malformedArgument "invalid tool argument name")
      | some label =>
        match skipSpace label with
        | 58 :: rest =>
          let start := skipSpace rest
          match jsonScanValue start with
          | none => .error (malformedArgument "invalid tool argument value")
          | some stop => do
            let key ← appendDecodedJsonString (unquoted cursor label)
            let argument : ToolArgument := ⟨cString key, between start stop, start.head? = some 34, false⟩
            match skipSpace stop with
            | 44 :: rest => do
              let (more, last) ← argumentsFrom fuel (skipSpace rest)
              .ok (argument :: more, last)
            | 125 :: rest => .ok ([argument], 125 :: rest)
            | _ => .error (malformedArgument "invalid tool arguments object separator")
        | _ => .error (malformedArgument "tool argument is missing ':'")

def appendRemaining : List ToolArgument → Except Error Text
  | [] => .ok []
  | argument :: arguments =>
    if argument.used then appendRemaining arguments
    else do
      let piece ← appendToolArgument argument
      let more ← appendRemaining arguments
      .ok (piece ++ more)

def appendToolArguments (options : RenderOptions) (call : ToolCall) : Except Error Text := do
  let cursor := skipSpace (call.argumentsJson.getD (ascii "\x7b\x7d"))
  failIf (cursor.head? ≠ some 123 ∨ rawJsonComplete cursor = false)
    (malformedArgument "tool arguments must be a JSON object")
  let (arguments, last) ← argumentsFrom (cursor.length + 1) (skipSpace cursor.tail)
  failIf (last.head? ≠ some 125) (malformedArgument "unterminated tool arguments object")
  failIf (skipSpace last.tail ≠ []) (malformedArgument "trailing text after tool arguments")
  let (ordered, arguments) ←
    appendSchemaOrderedArguments (schemaPropertiesForCall call.name options.toolSchemas) arguments
  let remaining ← appendRemaining arguments
  .ok (ordered ++ remaining)

/-! The declaration of tools. -/

/-- `append_tools_declaration`. -/
def toolsDeclaration (options : RenderOptions) : Text :=
  ascii "# Tools\n\nYou have access to the following functions:\n\n<tools>\n" ++
    List.intercalate (ascii "\n") options.toolSchemas ++ ascii "\n</tools>\n\n"

/-- The lines of `append_tools_protocol`. -/
def toolsProtocolLines : List Text :=
  [ascii "If you choose to call a function ONLY reply in the following format with NO suffix:\n\n",
    ascii "<tool_call>\n", ascii "<function=example_function_name>\n",
    ascii "<parameter=example_parameter_1>\nvalue_1\n</parameter>\n",
    ascii "<parameter=example_parameter_2>\n",
    ascii "This is the value for the second parameter\nthat can span\nmultiple lines\n",
    ascii "</parameter>\n", ascii "</function>\n", ascii "</tool_call>\n\n", ascii "<IMPORTANT>\n", ascii "Reminder:\n",
    ascii "- You can use the <think></think> block to plan your next tool call OR to synthesize ",
    ascii "data and formulate your final response to the user.\n",
    ascii "- ALL explanation and reasoning MUST be placed strictly inside the <think></think> ", ascii "block.\n",
    ascii "- Function calls MUST follow the specified format: an inner <function=...></function> ",
    ascii "block must be nested within <tool_call></tool_call> XML tags.\n",
    ascii "- If you choose to call a tool, output the <tool_call> block immediately after ",
    ascii "thinking, with no conversational text before it.\n",
    ascii "- The <tool_call> and <function> tags must begin a new line with no indentation.\n",
    ascii "- To call multiple functions, output a separate, completely closed ",
    ascii "<tool_call></tool_call> block for each function.\n",
    ascii "- If you have all necessary data, provide your final answer directly to the user ",
    ascii "without any tool call.\n", ascii "</IMPORTANT>"]

def toolsProtocol : Text := toolsProtocolLines.flatten

/-- `append_tool_choice_constraint`. -/
def toolChoiceConstraint (options : RenderOptions) : Text :=
  match options.toolChoice with
  | .auto => []
  | .none => ascii "\n\nTool choice constraint: Do not call any function. Answer the user directly."
  | .required =>
    ascii "\n\nTool choice constraint: You must call one or more available functions. " ++
      ascii "Do not answer directly."
  | .named =>
    ascii "\n\nTool choice constraint: You must call only the function \"" ++ options.toolChoiceName ++
      ascii "\". Do not call any other function."

/-- `append_tools_prompt`. -/
def toolsPrompt (options : RenderOptions) : Text :=
  toolsDeclaration options ++ toolsProtocol ++ toolChoiceConstraint options

/-- The loop of `append_message` over the tool calls; `spaced` says that a blank line goes before the call. -/
def appendToolCalls (options : RenderOptions) : Bool → List ToolCall → Except Error Text
  | _, [] => .ok []
  | spaced, call :: calls => do
    let arguments ← appendToolArguments options call
    let more ← appendToolCalls options true calls
    .ok ((if spaced then ascii "\n\n" else []) ++ ascii "<tool_call>\n<function=" ++ call.name ++ ascii ">\n" ++
      arguments ++ ascii "</function>\n</tool_call>" ++ more)

def closeTurn : Text := ascii "<|im_end|>\n"

def appendMessage (options : RenderOptions) (message : Message) : Except Error Text :=
  if message.role = ascii "user" || roleIsSystem message.role then
    .ok (ascii "<|im_start|>" ++ (if roleIsSystem message.role then ascii "system\n" else ascii "user\n") ++
      appendText message.content ++ closeTurn)
  else if message.role = ascii "assistant" then do
    let calls ← appendToolCalls options (hasTrimmedContent message.content) message.toolCalls
    .ok (ascii "<|im_start|>assistant\n" ++
      (if message.reasoning = [] then [] else ascii "<think>\n" ++ appendText message.reasoning ++ ascii "\n</think>\n\n") ++
      appendText message.content ++ calls ++ closeTurn)
  else
    .ok (ascii "<|im_start|>user\n[" ++ appendText message.role ++ ascii "]: " ++ appendText message.content ++ closeTurn)

def toolResponse (content : Text) : Text :=
  ascii "\n<tool_response>\n" ++ content ++ ascii "\n</tool_response>"

/-- The loop of `chat_render` over the messages; `inTool` says that the turn of a run of tool messages is open. -/
def renderFrom (options : RenderOptions) : Bool → List Message → Except Error Text
  | inTool, [] => .ok (if inTool then closeTurn else [])
  | inTool, message :: messages =>
    if roleIsTool message.role then do
      let more ← renderFrom options true messages
      .ok ((if inTool then [] else ascii "<|im_start|>user") ++ toolResponse message.content ++ more)
    else do
      let turn ← appendMessage options message
      let more ← renderFrom options false messages
      .ok ((if inTool then closeTurn else []) ++ turn ++ more)

def systemHead (messages : List Message) : Bool :=
  match messages with
  | message :: _ => roleIsSystem message.role
  | [] => false

def contentHead (messages : List Message) : Bool :=
  match messages with
  | message :: _ => hasTrimmedContent message.content
  | [] => false

def joinedSystem : List Message → Text
  | [] => []
  | message :: _ =>
    if roleIsSystem message.role && hasTrimmedContent message.content then ascii "\n\n" ++ message.content else []

def toolsTurn (options : RenderOptions) (messages : List Message) : Text :=
  ascii "<|im_start|>system\n" ++ toolsPrompt options ++ joinedSystem messages ++ closeTurn

/-- What `chat_render` opens the assistant's turn with. -/
def openAssistant (options : RenderOptions) : Text :=
  ascii "<|im_start|>assistant\n" ++
    (match options.thinkMode with
      | .off => ascii "<think>\n\n</think>\n\n"
      | .default => ascii "<think>\n")

/-- The messages that `chat_render` goes over: the leading system message is left out when it stands in the turn
of the tools, or when it is blank. -/
def shownMessages (options : RenderOptions) (continuation : Bool) (messages : List Message) : List Message :=
  if !continuation && systemHead messages && (options.toolSchemas ≠ [] || !contentHead messages) then messages.tail
  else messages

def chatRender (options : RenderOptions) (continuation : Bool) (messages : List Message) : Except Error Text := do
  validateToolOptions options
  failIf (∃ message ∈ messages, ∃ call ∈ message.toolCalls, validQwenTagValue call.name false = false)
    ⟨.argument, "tool calls contain invalid Qwen tag text"⟩
  let turns ← renderFrom options false (shownMessages options continuation messages)
  .ok ((if options.toolSchemas ≠ [] && !continuation then toolsTurn options messages else []) ++ turns ++
    openAssistant options)

def fgChatRender (options : RenderOptions) (messages : List Message) : Except Error Text :=
  chatRender options false messages

def fgChatRenderContinuation (options : RenderOptions) (messages : List Message) : Except Error Text :=
  chatRender options true messages

end FlashGordon.Chat
