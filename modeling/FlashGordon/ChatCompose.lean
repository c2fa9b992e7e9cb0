import FlashGordon.ChatRender

/-! The seam of a continuation (`chat.c`). Messages that come later are rendered by themselves, behind what the
earlier ones were rendered to without the prompt for the next answer. The two fit together but for a run of tool
messages that the seam would cut in two, since a run shares one turn. -/

namespace FlashGordon.Chat

open Occurs ByteCodec

def toolLast (messages : List Message) : Bool := messages.getLast?.any fun message => roleIsTool message.role

def toolFirst (messages : List Message) : Bool := messages.head?.any fun message => roleIsTool message.role

def toolOpen (inTool : Bool) (messages : List Message) : Bool :=
  (messages.getLast?.map fun message => roleIsTool message.role).getD inTool

theorem toolOpen_cons (inTool : Bool) (message : Message) (messages : List Message) :
    toolOpen inTool (message :: messages) = toolOpen (roleIsTool message.role) messages := by
  rw [toolOpen, toolOpen, List.getLast?_cons]
  cases messages.getLast? with
  | none => rfl
  | some last => rfl

theorem toolOpen_false (messages : List Message) : toolOpen false messages = toolLast messages := by
  rw [toolOpen, toolLast]
  cases messages.getLast? with
  | none => rfl
  | some last => rfl

variable {options : RenderOptions}

theorem renderFrom_open {messages : List Message} (h : toolFirst messages = false) {text : Text} :
    renderFrom options true messages = .ok text ↔
      ∃ more, renderFrom options false messages = .ok more ∧ text = closeTurn ++ more := by
  cases messages with
  | nil =>
    simp only [renderFrom, Except.ok.injEq]
    constructor
    · rintro rfl
      exact ⟨[], rfl, (List.append_nil _).symm⟩
    · rintro ⟨more, rfl, rfl⟩
      exact (List.append_nil _).symm
  | cons message messages =>
    have hrole : ¬roleIsTool message.role = true := Bool.not_eq_true _ ▸ h
    simp only [renderFrom, if_neg hrole, except_bind_ok, Except.ok.injEq]
    constructor
    · rintro ⟨turn, hturn, more, hmore, rfl⟩
      exact ⟨_, ⟨turn, hturn, more, hmore, rfl⟩, by simp⟩
    · rintro ⟨_, ⟨turn, hturn, more, hmore, rfl⟩, rfl⟩
      exact ⟨turn, hturn, more, hmore, by simp⟩

theorem renderFrom_append {inTool : Bool} {first rest : List Message}
    (hseam : ¬(toolOpen inTool first = true ∧ toolFirst rest = true)) {text : Text} :
    renderFrom options inTool (first ++ rest) = .ok text ↔ ∃ before behind,
      renderFrom options inTool first = .ok before ∧ renderFrom options false rest = .ok behind ∧
      text = before ++ behind := by
  induction first generalizing inTool text with
  | nil =>
    rw [List.nil_append, renderFrom]
    cases inTool with
    | true =>
      rw [renderFrom_open (Bool.eq_false_iff.mpr fun hfirst => hseam ⟨rfl, hfirst⟩)]
      constructor
      · rintro ⟨more, hmore, rfl⟩
        exact ⟨closeTurn, more, rfl, hmore, rfl⟩
      · rintro ⟨before, behind, hbefore, hbehind, rfl⟩
        obtain rfl := Except.ok.inj hbefore
        exact ⟨behind, hbehind, rfl⟩
    | false =>
      constructor
      · intro h
        exact ⟨[], text, rfl, h, rfl⟩
      · rintro ⟨before, behind, hbefore, hbehind, rfl⟩
        obtain rfl := Except.ok.inj hbefore
        exact hbehind
  | cons message first ih =>
    rw [toolOpen_cons] at hseam
    rw [List.cons_append, renderFrom, renderFrom]
    cases hrole : roleIsTool message.role with
    | true =>
      rw [hrole] at hseam
      simp only [if_true, except_bind_ok, ih hseam, Except.ok.injEq]
      constructor
      · rintro ⟨_, ⟨before, behind, hbefore, hbehind, rfl⟩, rfl⟩
        exact ⟨_, behind, ⟨before, hbefore, rfl⟩, hbehind, by simp⟩
      · rintro ⟨_, behind, ⟨before, hbefore, rfl⟩, hbehind, rfl⟩
        exact ⟨_, ⟨before, behind, hbefore, hbehind, rfl⟩, by simp⟩
    | false =>
      rw [hrole] at hseam
      simp only [Bool.false_eq_true, if_false, except_bind_ok, ih hseam, Except.ok.injEq]
      constructor
      · rintro ⟨turn, hturn, _, ⟨before, behind, hbefore, hbehind, rfl⟩, rfl⟩
        exact ⟨_, behind, ⟨turn, hturn, before, hbefore, rfl⟩, hbehind, by simp⟩
      · rintro ⟨_, behind, ⟨turn, hturn, before, hbefore, rfl⟩, hbehind, rfl⟩
        exact ⟨turn, hturn, _, ⟨before, behind, hbefore, hbehind, rfl⟩, by simp⟩

/-! What a prompt consists of. -/

def declaration (options : RenderOptions) (continuation : Bool) (messages : List Message) : Text :=
  if options.toolSchemas ≠ [] && !continuation then toolsTurn options messages else []

def CallsNamed (messages : List Message) : Prop :=
  ∀ message ∈ messages, ∀ call ∈ message.toolCalls, validQwenTagValue call.name false = true

theorem callsNamed_append {first rest : List Message} :
    CallsNamed (first ++ rest) ↔ CallsNamed first ∧ CallsNamed rest := List.forall_mem_append

theorem chatRender_ok {continuation : Bool} {messages : List Message} {text : Text} :
    chatRender options continuation messages = .ok text ↔
      validateToolOptions options = .ok () ∧ CallsNamed messages ∧ ∃ turns,
        renderFrom options false (shownMessages options continuation messages) = .ok turns ∧
        text = declaration options continuation messages ++ turns ++ openAssistant options := by
  rw [chatRender, except_bind_unit_ok, except_bind_unit_ok, failIf_ok, except_bind_ok]
  simp only [not_exists, not_and, Bool.not_eq_false, Except.ok.injEq, CallsNamed, declaration, @eq_comm _ text]

theorem declaration_append {first : List Message} (hfirst : first ≠ [])
    (rest : List Message) : declaration options false (first ++ rest) = declaration options false first := by
  obtain ⟨message, messages, rfl⟩ := List.exists_cons_of_ne_nil hfirst
  rfl

theorem shownMessages_append {first : List Message} (hfirst : first ≠ []) (rest : List Message) :
    shownMessages options false (first ++ rest) = shownMessages options false first ++ rest := by
  obtain ⟨message, messages, rfl⟩ := List.exists_cons_of_ne_nil hfirst
  have hcase : ∀ behind, shownMessages options false (message :: behind) =
      if (roleIsSystem message.role && (options.toolSchemas ≠ [] || !hasTrimmedContent message.content)) = true
      then behind else message :: behind := fun _ => rfl
  rw [List.cons_append, hcase, hcase]
  split
  · rfl
  · rfl

theorem toolLast_shownMessages {continuation : Bool} {messages : List Message}
    (h : toolLast (shownMessages options continuation messages) = true) : toolLast messages = true := by
  rw [shownMessages] at h
  split at h
  · cases messages with
    | nil => exact h
    | cons message messages =>
      rw [List.tail_cons] at h
      rw [toolLast, List.getLast?_cons]
      rw [toolLast] at h
      cases hlast : messages.getLast? with
      | none =>
        rw [hlast] at h
        cases h
      | some last =>
        rw [hlast] at h
        exact h
  · exact h

/-- Rendering goes message by message: the prompt of two lists is the prompt of the first, without what it opens for
the next answer, and behind it the continuation by the second. -/
theorem fgChatRender_append {options : RenderOptions} {first rest : List Message} (hfirst : first ≠ [])
    (hseam : ¬(toolLast first = true ∧ toolFirst rest = true)) :
    (∀ text, fgChatRender options (first ++ rest) = .ok text → ∃ prompt continuation,
      fgChatRender options first = .ok prompt ∧ fgChatRenderContinuation options rest = .ok continuation) ∧
    ∀ prompt continuation, fgChatRender options first = .ok prompt →
      fgChatRenderContinuation options rest = .ok continuation →
      ∃ before, prompt = before ++ openAssistant options ∧
        fgChatRender options (first ++ rest) = .ok (before ++ continuation) := by
  have hshown : ¬(toolOpen false (shownMessages options false first) = true ∧ toolFirst rest = true) := by
    rintro ⟨hopen, hrest⟩
    rw [toolOpen_false] at hopen
    exact hseam ⟨toolLast_shownMessages hopen, hrest⟩
  simp only [fgChatRender, fgChatRenderContinuation, chatRender_ok, callsNamed_append, declaration_append hfirst,
    shownMessages_append hfirst, renderFrom_append hshown]
  constructor
  · rintro text ⟨hoptions, ⟨hnames, hmore⟩, turns, ⟨before, behind, hbefore, hbehind, -⟩, -⟩
    exact ⟨_, _, ⟨hoptions, hnames, before, hbefore, rfl⟩, ⟨hoptions, hmore, behind, hbehind, rfl⟩⟩
  · rintro prompt continuation ⟨hoptions, hnames, before, hbefore, rfl⟩ ⟨-, hmore, behind, hbehind, rfl⟩
    refine ⟨_, rfl, hoptions, ⟨hnames, hmore⟩, _, ⟨before, behind, hbefore, hbehind, rfl⟩, ?_⟩
    simp [declaration]

/-- A question behind a system message and an answer. -/
theorem fgChatRender_append_question :
    ∃ prompt continuation before,
      fgChatRender ⟨[], .off, .auto, []⟩
        [⟨ascii "system", ascii "", [], []⟩, ⟨ascii "assistant", ascii "", [], []⟩] = .ok prompt ∧
      fgChatRenderContinuation ⟨[], .off, .auto, []⟩ [⟨ascii "user", ascii "", [], []⟩] = .ok continuation ∧
      prompt = before ++ openAssistant ⟨[], .off, .auto, []⟩ ∧
      fgChatRender ⟨[], .off, .auto, []⟩
        ([⟨ascii "system", ascii "", [], []⟩, ⟨ascii "assistant", ascii "", [], []⟩] ++
          [⟨ascii "user", ascii "", [], []⟩]) = .ok (before ++ continuation) := by
  have hwhole := (@fgChatRender_append ⟨[], .off, .auto, []⟩
    [⟨ascii "system", ascii "", [], []⟩, ⟨ascii "assistant", ascii "", [], []⟩]
    [⟨ascii "user", ascii "", [], []⟩] (List.cons_ne_nil _ _) (by decide)).2 _ _ rfl rfl
  obtain ⟨before, hprompt, htext⟩ := hwhole
  exact ⟨_, _, before, rfl, rfl, hprompt, htext⟩

end FlashGordon.Chat
