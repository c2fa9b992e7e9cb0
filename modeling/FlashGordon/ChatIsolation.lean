import FlashGordon.ChatRender

/-! How often a rendered prompt opens and closes a turn. Every seam between two pieces of a prompt is safe for the
markers of a turn: the piece before it ends in a byte that no marker goes on from, or the piece behind it begins
with a byte that stands in no marker but at its front. -/

namespace FlashGordon.Chat

open Occurs ByteCodec

theorem ascii_ofList (l : List Char) : ascii (String.ofList l) = l.map fun c => .ofNat c.toNat := by
  rw [ascii, String.toList_ofList]

/-- Last bytes that begin no marker of a turn. -/
def closedBytes : Text := ascii "\n> =\".["

/-- First bytes that no marker of a turn goes on with. -/
def freshBytes : Text := ascii "\n<]\""

structure Plain (text : Text) : Prop where
  bar : 124 ∉ text
  closed : ∃ c ∈ closedBytes, text.getLast? = some c

instance (text : Text) : Decidable (Plain text) :=
  decidable_of_iff (124 ∉ text ∧ ∃ c ∈ closedBytes, text.getLast? = some c)
    ⟨fun h => ⟨h.1, h.2⟩, fun h => ⟨h.bar, h.closed⟩⟩

theorem plain_ofList {l : List Char} (h : Plain (l.map fun c => .ofNat c.toNat)) : Plain (ascii (String.ofList l)) := by
  rwa [ascii_ofList]

theorem toolsProtocolLines_plain : ∀ line ∈ toolsProtocolLines, Plain line := by
  simp only [toolsProtocolLines, List.forall_mem_cons, List.not_mem_nil, false_implies, implies_true, and_true]
  and_intros <;> exact plain_ofList (by decide)

theorem turnMarkers_closed : ∀ m ∈ turnMarkers, ∀ c ∈ closedBytes, c ∉ m.dropLast := by decide +kernel

theorem turnMarkers_fresh : ∀ m ∈ turnMarkers, ∀ c ∈ freshBytes, c ∉ m.tail := by decide +kernel

theorem turnMarkers_bar : ∀ m ∈ turnMarkers, 124 ∈ m := by decide

theorem turnMarkers_head : ∀ m ∈ turnMarkers, m.head? = some 60 := by decide

theorem turnMarkers_ne : ∀ m ∈ turnMarkers, m ≠ [] := by decide

section Seams

variable {m : Text} (hm : m ∈ turnMarkers) {xs ys : Text}

include hm

theorem weighs_closed (h : ∃ c ∈ closedBytes, xs.getLast? = some c) : Weighs m (count m xs) xs := by
  obtain ⟨c, hc, hlast⟩ := h
  exact weighs_of_not_begun (not_begun_of_getLast hlast (turnMarkers_closed m hm c hc))

theorem weighs_plain (h : Plain xs) : Weighs m 0 xs := by
  have hzero : count m xs = 0 := count_eq_zero_of_notMem (turnMarkers_bar m hm) h.bar
  exact hzero ▸ weighs_closed hm h.closed

theorem weighs_text {l : List Char} (h : Plain (l.map fun c => .ofNat c.toNat)) :
    Weighs m 0 (ascii (String.ofList l)) := weighs_plain hm (plain_ofList h)

theorem weighs_before {n : Nat} (hfresh : ∃ c ∈ freshBytes, ys.head? = some c) (h : Weighs m n ys) :
    Weighs m (count m xs + n) (xs ++ ys) := by
  obtain ⟨c, hc, hhead⟩ := hfresh
  exact h.before hhead (turnMarkers_fresh m hm c hc)

theorem weighs_appendText {n : Nat} (hfresh : ∃ c ∈ freshBytes, ys.head? = some c) (h : Weighs m n ys) :
    Weighs m n (appendText xs ++ ys) := by
  have hbefore : Weighs m (count m (appendText xs) + n) (appendText xs ++ ys) := weighs_before hm hfresh h
  rwa [count_appendText hm, Nat.zero_add] at hbefore

theorem weighs_flatten_plain {lines : List Text} (h : ∀ line ∈ lines, Plain line) : Weighs m 0 lines.flatten := by
  induction lines with
  | nil => exact weighs_nil
  | cons line lines ih =>
    rw [List.forall_mem_cons] at h
    exact (weighs_plain hm h.1).append (ih h.2)

theorem weighs_name {allowEmpty : Bool} (h : validQwenTagValue xs allowEmpty = true) : Weighs m 0 xs := by
  have hnot : 60 ∉ xs := by
    intro hmem
    rw [validQwenTagValue, Bool.and_eq_true, List.all_eq_true] at h
    simpa using h.2 60 hmem
  have hzero : count m xs = 0 := by
    apply count_eq_zero_of_notMem (x := 60)
    · exact List.mem_of_head? (turnMarkers_head m hm)
    · exact hnot
  exact hzero ▸ weighs_of_not_begun (not_begun_of_notMem (turnMarkers_head m hm) hnot)

theorem count_of_reserved (h : ¬reserved xs) : count m xs = 0 := by
  rw [count_eq_zero_iff (turnMarkers_ne m hm)]
  rw [reserved, Holds, Holds, not_or, Option.not_isSome_iff_eq_none, Option.not_isSome_iff_eq_none] at h
  simp only [turnMarkers, List.mem_cons, List.not_mem_nil, or_false] at hm
  rcases hm with rfl | rfl
  · exact h.1
  · exact h.2

theorem count_intercalate {schemas : List Text} (h : ∀ schema ∈ schemas, count m schema = 0) :
    count m (List.intercalate (ascii "\n") schemas) = 0 := by
  induction schemas with
  | nil => rfl
  | cons schema schemas ih =>
    rw [List.forall_mem_cons] at h
    cases schemas with
    | nil => simpa [List.intercalate] using h.1
    | cons next schemas =>
      have hcons : List.intercalate (ascii "\n") (schema :: next :: schemas) =
          schema ++ ascii "\n" ++ List.intercalate (ascii "\n") (next :: schemas) := by
        simp [List.intercalate]
      have hline : Weighs m 0 (ascii "\n") := weighs_plain hm (by decide)
      rw [hcons, weighs_before hm ⟨10, by decide, rfl⟩ hline, h.1, ih h.2]

end Seams

/-! Tool declarations and tool calls. -/

section Tools

variable {m : Text} (hm : m ∈ turnMarkers) {options : RenderOptions}

include hm

theorem weighs_toolsDeclaration (h : ∀ schema ∈ options.toolSchemas, ¬reserved schema) :
    Weighs m 0 (toolsDeclaration options) := by
  have hschemas : count m (List.intercalate (ascii "\n") options.toolSchemas) = 0 :=
    count_intercalate hm fun schema hschema => count_of_reserved hm (h schema hschema)
  have hend : Weighs m 0 (ascii "\n</tools>\n\n") := weighs_text hm (by decide)
  rw [toolsDeclaration, List.append_assoc]
  refine (weighs_text hm (by decide)).append (k := 0) ?_
  exact hschemas ▸ weighs_before hm ⟨10, by decide, rfl⟩ hend

theorem weighs_toolChoiceConstraint (h : ¬reserved options.toolChoiceName) :
    Weighs m 0 (toolChoiceConstraint options) := by
  rw [toolChoiceConstraint]
  split
  · exact weighs_nil
  · exact weighs_text hm (by decide)
  · exact (weighs_text hm (by decide)).append (weighs_text hm (by decide))
  · have hend : Weighs m 0 (ascii "\". Do not call any other function.") := weighs_text hm (by decide)
    rw [List.append_assoc]
    refine (weighs_text hm (by decide)).append (k := 0) ?_
    exact count_of_reserved hm h ▸ weighs_before hm ⟨34, by decide, rfl⟩ hend

theorem weighs_toolsPrompt (h : validateToolOptions options = .ok ()) : Weighs m 0 (toolsPrompt options) := by
  simp only [validateToolOptions, except_bind_unit_ok, failIf_ok, not_exists, not_and] at h
  obtain ⟨-, hname, hschemas⟩ := h
  have hprotocol : Weighs m 0 toolsProtocol := weighs_flatten_plain hm toolsProtocolLines_plain
  exact ((weighs_toolsDeclaration hm hschemas).append hprotocol).append (weighs_toolChoiceConstraint hm hname)

variable {text : Text}

theorem weighs_appendToolArgument {argument : ToolArgument} (h : appendToolArgument argument = .ok text) :
    Weighs m 0 text := by
  simp only [appendToolArgument, except_bind_unit_ok, failIf_ok] at h
  obtain ⟨hkey, hvalue⟩ := h
  obtain ⟨value, rfl⟩ : ∃ value, text = ascii "<parameter=" ++ argument.key ++ ascii ">\n" ++ appendText value ++
      ascii "\n</parameter>\n" := by
    split at hvalue
    · rw [except_bind_ok] at hvalue
      obtain ⟨value, -, htext⟩ := hvalue
      exact ⟨cString value, (Except.ok.inj htext).symm⟩
    · exact ⟨cString (appendMinifiedJson argument.value), (Except.ok.inj hvalue).symm⟩
  have hend : Weighs m 0 (ascii "\n</parameter>\n") := weighs_text hm (by decide)
  have hname : Weighs m 0 argument.key := weighs_name hm (by simpa using hkey)
  rw [List.append_assoc]
  refine Weighs.append (k := 0) ?_ (weighs_appendText hm ⟨10, by decide, rfl⟩ hend)
  exact ((weighs_text hm (by decide)).append hname).append (weighs_text hm (by decide))

variable {arguments : List ToolArgument}

theorem weighs_appendNamedArgument {key : Text}
    {marked : List ToolArgument} (h : appendNamedArgument key arguments = .ok (text, marked)) : Weighs m 0 text := by
  rw [appendNamedArgument] at h
  split at h
  · cases h
    exact weighs_nil
  · simp only [except_bind_ok, Except.ok.injEq, Prod.mk.injEq] at h
    obtain ⟨piece, hpiece, rfl, -⟩ := h
    exact weighs_appendToolArgument hm hpiece

theorem weighs_orderedFrom {fuel : Nat} {cursor : Text}
    {marked : List ToolArgument} (h : orderedFrom fuel cursor arguments = .ok (text, marked)) : Weighs m 0 text := by
  induction fuel generalizing cursor arguments text marked with
  | zero =>
    cases h
    exact weighs_nil
  | succ fuel ih =>
    rw [orderedFrom] at h
    split at h
    · cases h
      exact weighs_nil
    split at h
    · cases h
      exact weighs_nil
    obtain ⟨key, -, h⟩ := except_bind_ok.mp h
    split at h
    · split at h
      · cases h
        exact weighs_nil
      obtain ⟨⟨piece, rest⟩, hpiece, h⟩ := except_bind_ok.mp h
      have hfirst := weighs_appendNamedArgument hm hpiece
      dsimp only at h
      split at h
      · obtain ⟨⟨more, last⟩, hmore, h⟩ := except_bind_ok.mp h
        cases h
        exact hfirst.append (ih hmore)
      · cases h
        exact hfirst
    · cases h
      exact weighs_nil

theorem weighs_appendRemaining (h : appendRemaining arguments = .ok text) : Weighs m 0 text := by
  induction arguments generalizing text with
  | nil =>
    cases h
    exact weighs_nil
  | cons argument arguments ih =>
    rw [appendRemaining] at h
    split at h
    · exact ih h
    · simp only [except_bind_ok, Except.ok.injEq] at h
      obtain ⟨piece, hpiece, more, hmore, rfl⟩ := h
      exact (weighs_appendToolArgument hm hpiece).append (ih hmore)

theorem weighs_appendToolArguments {call : ToolCall} (h : appendToolArguments options call = .ok text) :
    Weighs m 0 text := by
  simp only [appendToolArguments, except_bind_ok, Except.ok.injEq] at h
  obtain ⟨_, -, arguments, -, _, -, _, -, ⟨ordered, marked⟩, hordered, remaining, hremaining, rfl⟩ := h
  refine Weighs.append (k := 0) ?_ (weighs_appendRemaining hm hremaining)
  unfold appendSchemaOrderedArguments at hordered
  split at hordered
  · exact weighs_orderedFrom hm hordered
  · cases hordered
    exact weighs_nil

theorem weighs_appendToolCalls {spaced : Bool} {calls : List ToolCall}
    (hnames : ∀ call ∈ calls, validQwenTagValue call.name false = true)
    (h : appendToolCalls options spaced calls = .ok text) : Weighs m 0 text := by
  induction calls generalizing spaced text with
  | nil =>
    cases h
    exact weighs_nil
  | cons call calls ih =>
    rw [List.forall_mem_cons] at hnames
    simp only [appendToolCalls, except_bind_ok, Except.ok.injEq] at h
    obtain ⟨arguments, harguments, more, hmore, rfl⟩ := h
    have hspace : Weighs m 0 (if spaced then ascii "\n\n" else []) := by
      split
      · exact weighs_text hm (by decide)
      · exact weighs_nil
    have hopen : Weighs m 0 (ascii "<tool_call>\n<function=") := weighs_text hm (by decide)
    have hname : Weighs m 0 (ascii ">\n") := weighs_text hm (by decide)
    have hend : Weighs m 0 (ascii "</function>\n</tool_call>") := weighs_text hm (by decide)
    exact (((((hspace.append hopen).append (weighs_name hm hnames.1)).append hname).append
      (weighs_appendToolArguments hm harguments)).append hend).append (ih hnames.2 hmore)

end Tools

theorem appendToolCalls_fresh {options : RenderOptions} {spaced : Bool} {calls : List ToolCall} {text : Text}
    (h : appendToolCalls options spaced calls = .ok text) : ∃ c ∈ freshBytes, (text ++ closeTurn).head? = some c := by
  cases calls with
  | nil =>
    cases h
    exact ⟨60, by decide, rfl⟩
  | cons call calls =>
    simp only [appendToolCalls, except_bind_ok, Except.ok.injEq] at h
    obtain ⟨arguments, -, more, -, rfl⟩ := h
    cases spaced with
    | true => exact ⟨10, by decide, rfl⟩
    | false => exact ⟨60, by decide, rfl⟩

/-- How often the marker opens a turn, and how often it closes one. -/
def opens (m : Text) : Nat := if m = imStart then 1 else 0

def closes (m : Text) : Nat := if m = imEnd then 1 else 0

theorem opens_add_closes : ∀ m ∈ turnMarkers, opens m + closes m = 1 := by decide

def turnCount : Bool → List Text → Nat
  | _, [] => 0
  | inTool, role :: roles =>
    if roleIsTool role then (if inTool then 0 else 1) + turnCount true roles else 1 + turnCount false roles

def rawCount (m : Text) : List Message → Nat
  | [] => 0
  | message :: messages => (if roleIsTool message.role then count m message.content else 0) + rawCount m messages

/-- The markers that a leading system message brings into the turn of the tools. -/
def joinedCount (m : Text) : List Message → Nat
  | [] => 0
  | message :: _ => if roleIsSystem message.role && hasTrimmedContent message.content then count m message.content else 0

section Turns

variable {m : Text} (hm : m ∈ turnMarkers) {options : RenderOptions}

include hm

variable {text : Text}

theorem weighs_opening (h : (∀ m ∈ turnMarkers, count m text = opens m) ∧ ∃ c ∈ closedBytes, text.getLast? = some c) :
    Weighs m (opens m) text :=
  h.1 m hm ▸ weighs_closed hm h.2

theorem weighs_closeTurn : Weighs m (closes m) closeTurn := by
  have hcount : ∀ m ∈ turnMarkers, count m closeTurn = closes m := by decide
  exact hcount m hm ▸ weighs_closed hm ⟨10, by decide, by decide⟩

theorem weighs_appendText_closeTurn : Weighs m (closes m) (appendText text ++ closeTurn) :=
  weighs_appendText hm ⟨60, by decide, rfl⟩ (weighs_closeTurn hm)

theorem weighs_appendMessage {message : Message}
    (hnames : ∀ call ∈ message.toolCalls, validQwenTagValue call.name false = true)
    (h : appendMessage options message = .ok text) : Weighs m 1 text := by
  have hone := opens_add_closes m hm
  rw [appendMessage] at h
  split at h
  · cases h
    have hopen : Weighs m (opens m) (ascii "<|im_start|>") := weighs_opening hm (by decide)
    have hrole : Weighs m 0 (if roleIsSystem message.role then ascii "system\n" else ascii "user\n") := by
      split
      · exact weighs_text hm (by decide)
      · exact weighs_text hm (by decide)
    rw [List.append_assoc]
    exact hone ▸ (hopen.append hrole).append (weighs_appendText_closeTurn hm)
  split at h
  · simp only [except_bind_ok, Except.ok.injEq] at h
    obtain ⟨calls, hcalls, rfl⟩ := h
    have hopen : Weighs m (opens m) (ascii "<|im_start|>assistant\n") := weighs_opening hm (by decide)
    have hthink : Weighs m 0 (if message.reasoning = [] then []
        else ascii "<think>\n" ++ appendText message.reasoning ++ ascii "\n</think>\n\n") := by
      split
      · exact weighs_nil
      · have hend : Weighs m 0 (ascii "\n</think>\n\n") := weighs_text hm (by decide)
        rw [List.append_assoc]
        exact (weighs_text hm (by decide)).append (weighs_appendText hm ⟨10, by decide, rfl⟩ hend)
    have hrest : Weighs m (0 + closes m) (calls ++ closeTurn) :=
      (weighs_appendToolCalls hm hnames hcalls).append (weighs_closeTurn hm)
    rw [Nat.zero_add] at hrest
    rw [List.append_assoc, List.append_assoc]
    exact hone ▸ (hopen.append hthink).append (weighs_appendText hm (appendToolCalls_fresh hcalls) hrest)
  · cases h
    have hopen : Weighs m (opens m) (ascii "<|im_start|>user\n[") := weighs_opening hm (by decide)
    have hrest : Weighs m (0 + closes m) (ascii "]: " ++ (appendText message.content ++ closeTurn)) :=
      (weighs_text hm (by decide)).append (weighs_appendText_closeTurn hm)
    rw [Nat.zero_add] at hrest
    rw [List.append_assoc, List.append_assoc, List.append_assoc]
    exact hone ▸ hopen.append (weighs_appendText hm ⟨93, by decide, rfl⟩ hrest)

theorem weighs_toolResponse {content : Text} : Weighs m (count m content) (toolResponse content) := by
  have hend : Weighs m 0 (ascii "\n</tool_response>") := weighs_text hm (by decide)
  have hopen : Weighs m 0 (ascii "\n<tool_response>\n") := weighs_text hm (by decide)
  rw [toolResponse, List.append_assoc]
  have hcontent : Weighs m (count m content + 0) (content ++ ascii "\n</tool_response>") :=
    weighs_before hm ⟨10, by decide, rfl⟩ hend
  exact Nat.zero_add (count m content) ▸ hopen.append hcontent

variable {messages : List Message}

theorem weighs_renderFrom {inTool : Bool}
    (hnames : ∀ message ∈ messages, ∀ call ∈ message.toolCalls, validQwenTagValue call.name false = true)
    (h : renderFrom options inTool messages = .ok text) :
    Weighs m ((if inTool then closes m else 0) + turnCount inTool (messages.map Message.role) + rawCount m messages)
      text := by
  have hone := opens_add_closes m hm
  have hopen : ∀ m ∈ turnMarkers, count m (ascii "<|im_start|>user") = opens m := by decide
  induction messages generalizing inTool text with
  | nil =>
    cases h
    cases inTool with
    | true => exact weighs_closeTurn hm
    | false => exact weighs_nil
  | cons message messages ih =>
    rw [List.forall_mem_cons] at hnames
    rw [renderFrom] at h
    rw [List.map_cons, turnCount, rawCount]
    split at h
    next hrole =>
      simp only [except_bind_ok, Except.ok.injEq] at h
      obtain ⟨more, hmore, rfl⟩ := h
      have hresponses : Weighs m (count m message.content +
          (closes m + turnCount true (messages.map Message.role) + rawCount m messages))
          (toolResponse message.content ++ more) :=
        (weighs_toolResponse hm).append (ih hnames.2 hmore)
      cases inTool with
      | true =>
        refine hresponses.of_eq ?_
        simp only [hrole, if_true]
        omega
      | false =>
        rw [List.append_assoc]
        refine (weighs_before hm ⟨10, by decide, rfl⟩ hresponses).of_eq ?_
        rw [if_neg Bool.false_ne_true, hopen m hm]
        simp only [hrole, if_true, Bool.false_eq_true, if_false]
        omega
    next hrole =>
      simp only [except_bind_ok, Except.ok.injEq] at h
      obtain ⟨turn, hturn, more, hmore, rfl⟩ := h
      have hclose : Weighs m (if inTool then closes m else 0) (if inTool then closeTurn else []) := by
        cases inTool with
        | true => exact weighs_closeTurn hm
        | false => exact weighs_nil
      have hturns := (hclose.append (weighs_appendMessage hm hnames.1 hturn)).append (ih hnames.2 hmore)
      refine hturns.of_eq ?_
      simp only [hrole, Bool.false_eq_true, if_false]
      omega

theorem weighs_openAssistant : Weighs m (opens m) (openAssistant options) := by
  have hopen : Weighs m (opens m) (ascii "<|im_start|>assistant\n") := weighs_opening hm (by decide)
  rw [openAssistant]
  refine hopen.append (k := 0) ?_
  split
  · exact weighs_text hm (by decide)
  · exact weighs_text hm (by decide)

theorem weighs_toolsTurn (h : validateToolOptions options = .ok ()) :
    Weighs m (1 + joinedCount m messages) (toolsTurn options messages) := by
  have hone := opens_add_closes m hm
  have hopen : Weighs m (opens m) (ascii "<|im_start|>system\n") := weighs_opening hm (by decide)
  have hprompt := hopen.append (weighs_toolsPrompt hm h)
  have hclose := weighs_closeTurn hm
  rw [toolsTurn, List.append_assoc]
  refine (hprompt.append (k := joinedCount m messages + closes m) ?_).of_eq (by omega)
  cases messages with
  | nil => exact hclose.of_eq (Nat.zero_add (closes m)).symm
  | cons message messages =>
    rw [joinedCount, joinedSystem]
    split
    · have hcontent : Weighs m (count m message.content + closes m) (message.content ++ closeTurn) :=
        weighs_before hm ⟨60, by decide, rfl⟩ hclose
      rw [List.append_assoc]
      refine ((weighs_text hm (by decide)).append hcontent).of_eq ?_
      rw [Nat.zero_add]
    · exact hclose.of_eq (Nat.zero_add (closes m)).symm

theorem count_chatRender {continuation : Bool} (h : chatRender options continuation messages = .ok text) :
    count m text = (if options.toolSchemas ≠ [] && !continuation then 1 + joinedCount m messages else 0) +
      (turnCount false ((shownMessages options continuation messages).map Message.role) +
        rawCount m (shownMessages options continuation messages)) + opens m := by
  simp only [chatRender, except_bind_unit_ok, failIf_ok, not_exists, not_and, Bool.not_eq_false] at h
  obtain ⟨hoptions, hnames, h⟩ := h
  obtain ⟨turns, hturns, htext⟩ := except_bind_ok.mp h
  obtain rfl := Except.ok.inj htext
  have hshown : ∀ message ∈ shownMessages options continuation messages, message ∈ messages := by
    intro message hmessage
    rw [shownMessages] at hmessage
    split at hmessage
    · exact List.mem_of_mem_tail hmessage
    · exact hmessage
  have hmessages := weighs_renderFrom hm (fun message hmessage => hnames message (hshown message hmessage)) hturns
  have htools : Weighs m (if options.toolSchemas ≠ [] && !continuation then 1 + joinedCount m messages else 0)
      (if options.toolSchemas ≠ [] && !continuation then toolsTurn options messages else []) := by
    split
    · exact weighs_toolsTurn hm hoptions
    · exact weighs_nil
  refine ((htools.append (hmessages.of_eq ?_)).append (weighs_openAssistant hm)).count_eq
  rw [if_neg Bool.false_ne_true, Nat.zero_add]

end Turns

/-- The turns of a prompt, from the roles, whether tools are declared and whether the first message is blank: one
for the tools, then those of the messages, less a leading system message that is joined to the tools or blank. -/
def turns (tools blank : Bool) (roles : List Text) : Nat :=
  (if tools then 1 else 0) +
    turnCount false (if roles.head?.any roleIsSystem && (tools || blank) then roles.tail else roles)

/-- The texts of a request that go into a prompt as they are. -/
def rawTexts (options : RenderOptions) (messages : List Message) : List Text :=
  (if options.toolSchemas ≠ [] && systemHead messages then (messages.take 1).map Message.content else []) ++
    (messages.filter fun message => roleIsTool message.role).map Message.content

variable {messages : List Message}

theorem rawCount_eq_zero {m : Text}
    (h : ∀ message ∈ messages, roleIsTool message.role → count m message.content = 0) : rawCount m messages = 0 := by
  induction messages with
  | nil => rfl
  | cons message messages ih =>
    rw [List.forall_mem_cons] at h
    rw [rawCount, ih h.2, Nat.add_zero]
    split
    · exact h.1 ‹_›
    · rfl

theorem joinedCount_eq_zero {m : Text}
    (h : systemHead messages → ∀ message ∈ messages.take 1, count m message.content = 0) : joinedCount m messages = 0 := by
  cases messages with
  | nil => rfl
  | cons message messages =>
    rw [joinedCount]
    split
    next hjoined =>
      rw [Bool.and_eq_true] at hjoined
      exact h hjoined.1 message (by simp)
    · rfl

theorem systemHead_eq (messages : List Message) :
    (messages.map Message.role).head?.any roleIsSystem = systemHead messages := by
  cases messages with
  | nil => rfl
  | cons message messages => rfl

theorem map_shownMessages (options : RenderOptions) (messages : List Message) :
    (shownMessages options false messages).map Message.role =
      if (messages.map Message.role).head?.any roleIsSystem && (options.toolSchemas ≠ [] || !contentHead messages) then
        (messages.map Message.role).tail
      else messages.map Message.role := by
  rw [systemHead_eq, shownMessages, Bool.not_false, Bool.true_and]
  split
  · rw [List.map_tail]
  · rfl

theorem count_fgChatRender {m : Text} (hm : m ∈ turnMarkers) {options : RenderOptions}
    {text : Text} (h : fgChatRender options messages = .ok text)
    (hraw : ∀ raw ∈ rawTexts options messages, ¬reserved raw) :
    count m text = turns (options.toolSchemas ≠ []) (!contentHead messages) (messages.map Message.role) + opens m := by
  have hshown : rawCount m (shownMessages options false messages) = 0 := by
    apply rawCount_eq_zero
    intro message hmessage htool
    apply count_of_reserved hm
    apply hraw
    refine List.mem_append_right _ (List.mem_map_of_mem (List.mem_filter.mpr ⟨?_, htool⟩))
    rw [shownMessages] at hmessage
    split at hmessage
    · exact List.mem_of_mem_tail hmessage
    · exact hmessage
  rw [count_chatRender hm h, map_shownMessages, hshown, turns, Bool.not_false, Bool.and_true]
  split
  next htools =>
    have hjoined : joinedCount m messages = 0 := by
      apply joinedCount_eq_zero
      intro hsystem message hmessage
      apply count_of_reserved hm
      apply hraw
      rw [rawTexts, htools, hsystem]
      exact List.mem_append_left _ (List.mem_map_of_mem hmessage)
    rw [hjoined, Nat.add_zero, Nat.add_zero]
  · rfl

/-- A prompt opens and closes as many turns as its roles say, as long as no text that goes into it as it is holds
a marker of a turn: no other text of a request opens or closes one. -/
theorem fgChatRender_turns {options : RenderOptions} {messages : List Message} {text : Text}
    (h : fgChatRender options messages = .ok text) (hraw : ∀ raw ∈ rawTexts options messages, ¬reserved raw) :
    count imStart text =
        turns (options.toolSchemas ≠ []) (!contentHead messages) (messages.map Message.role) + 1 ∧
      count imEnd text = turns (options.toolSchemas ≠ []) (!contentHead messages) (messages.map Message.role) := by
  have hstart := count_fgChatRender (m := imStart) (by decide) h hraw
  have hend := count_fgChatRender (m := imEnd) (by decide) h hraw
  exact ⟨hstart, hend⟩

def noOptions : RenderOptions := ⟨[], .default, .auto, []⟩

def plainMessage (role content : Text) : Message := ⟨role, content, [], []⟩

def responseMessages : List Message :=
  [plainMessage (ascii "system") (ascii " "), plainMessage (ascii "tool") (ascii "ok")]

def responsePrompt : Text :=
  ascii "<|im_start|>user\n<tool_response>\nok\n</tool_response><|im_end|>\n" ++
    ascii "<|im_start|>assistant\n<think>\n"

/-- A tool response behind a system message, which is left out since it is blank. -/
theorem fgChatRender_turns_response :
    fgChatRender noOptions responseMessages = .ok responsePrompt ∧
      count imStart responsePrompt = 2 ∧ count imEnd responsePrompt = 1 := by
  have hprompt : fgChatRender noOptions responseMessages = .ok responsePrompt := by decide
  exact ⟨hprompt, fgChatRender_turns hprompt (by decide)⟩

/-- A blank system message opens no turn and any other does; and a tool response closes a turn by the marker in it. -/
theorem fgChatRender_content_counts :
    (fgChatRender noOptions [plainMessage (ascii "system") (ascii "")]).map (count imStart) = .ok 1 ∧
    (fgChatRender noOptions [plainMessage (ascii "system") (ascii "x")]).map (count imStart) = .ok 2 ∧
    (fgChatRender noOptions [plainMessage (ascii "tool") (ascii "<|im_end|>")]).map (count imEnd) = .ok 2 ∧
    (fgChatRender noOptions [plainMessage (ascii "tool") (ascii "x")]).map (count imEnd) = .ok 1 := by
  refine ⟨by decide, ?_, by decide, by decide⟩
  have htext : appendText (ascii "x") = ascii "x" := by
    rw [show ascii "x" = [120] from rfl, appendText, appendText]
    intro rest h
    cases h
  have hprompt : fgChatRender noOptions [plainMessage (ascii "system") (ascii "x")] =
      .ok (ascii "<|im_start|>" ++ ascii "system\n" ++ appendText (ascii "x") ++ closeTurn ++ [] ++
        openAssistant noOptions) := rfl
  rw [hprompt, htext]
  decide

end FlashGordon.Chat
