import FlashGordon.ChatRender
import Mathlib.Data.List.Perm.Subperm

/-! `fg_chat_render_tool_update` (`chat.c`): what is said to the model when the tools of a session change between two
requests. Nothing is said when they are the same, or when there were and are none. -/

namespace FlashGordon.Chat

open Occurs ByteCodec

/-- `tool_schema_name`: a schema without a name, or with one that does not decode, has none. -/
def toolSchemaName (schema : Text) : Option Text :=
  match jsonObjectMember schema (ascii "name") with
  | none => none
  | some (start, stop) =>
    if start.head? ≠ some 34 then none
    else
      match appendDecodedJsonString (unquoted start stop) with
      | .error _ => none
      | .ok decoded => some (cString decoded)

def schemaListsEqual (left right : RenderOptions) : Bool :=
  left.toolSchemas.length = right.toolSchemas.length && left.toolSchemas.all fun schema => schema ∈ right.toolSchemas

def namedChoicesEqual (left right : RenderOptions) : Bool := left.toolChoiceName = right.toolChoiceName

def toolMetadataEqual (left right : RenderOptions) : Bool :=
  if left.toolChoice ≠ right.toolChoice then false
  else if left.toolChoice = .named ∧ namedChoicesEqual left right = false then false
  else schemaListsEqual left right

/-- The two loops over schemas: what is shown of a schema goes behind the opening the first time and behind the
separator from then on. Gives what was written, and whether anything was. -/
def listFrom (shown : Text → Option Text) (opening separator : Text) : Bool → List Text → Text × Bool
  | listed, [] => ([], listed)
  | listed, schema :: schemas =>
    match shown schema with
    | none => listFrom shown opening separator listed schemas
    | some item =>
      let more := listFrom shown opening separator true schemas
      ((if listed then separator else opening) ++ item ++ more.1, more.2)

/-- A current schema is listed when it is not among the previous ones. -/
def shownSchema (previous : RenderOptions) (schema : Text) : Option Text :=
  if schema ∈ previous.toolSchemas then none else some schema

def shownName (current : RenderOptions) (schema : Text) : Option Text :=
  match toolSchemaName schema with
  | none => none
  | some name => if current.toolSchemas.any fun other => toolSchemaName other = some name then none else some name

def listedOpening : Text :=
  ascii "\n\nThe following functions are now available or have updated definitions:\n\n<tools>\n"

def removedOpening : Text := ascii "\n\nThe following functions are no longer available: "

def statedChoice (current : RenderOptions) : Text :=
  if current.toolChoice = .auto then
    ascii "\n\nTool choice constraint: Tool calls are optional this turn. Call a function only if needed; " ++
      ascii "otherwise answer the user directly."
  else toolChoiceConstraint current

def choiceUpdate (previous current : RenderOptions) : Text :=
  if previous.toolChoice ≠ current.toolChoice ∨
      current.toolChoice = .named ∧ namedChoicesEqual previous current = false then statedChoice current
  else []

/-- The update when there were tools and there still are some. -/
def changedTools (previous current : RenderOptions) : Text :=
  let added := listFrom (shownSchema previous) listedOpening (ascii "\n") false current.toolSchemas
  let removed := listFrom (shownName current) removedOpening (ascii ", ") false previous.toolSchemas
  ascii "# Tools\n\nTool configuration updated for this turn." ++
    added.1 ++ (if added.2 then ascii "\n</tools>" else []) ++
    removed.1 ++ (if removed.2 then ascii "." else []) ++
    choiceUpdate previous current

def noFunctions : Text :=
  ascii "# Tools\n\nNo functions are available for this turn. Do not call any function; answer the user directly."

def fgChatRenderToolUpdate (previous current : RenderOptions) : Except Error (Option Text) := do
  validateToolOptions current
  validateToolOptions previous
  if toolMetadataEqual previous current then .ok none
  else if previous.toolSchemas = [] ∧ current.toolSchemas = [] then .ok none
  else
    .ok (some (ascii "<|im_start|>system\n" ++
      (if previous.toolSchemas = [] then toolsPrompt current
        else if current.toolSchemas = [] then noFunctions
        else changedTools previous current) ++ closeTurn))

def listing (opening separator closing : Text) (items : List Text) : Text :=
  if items = [] then [] else opening ++ List.intercalate separator items ++ closing

theorem listFrom_eq (shown : Text → Option Text) (opening separator : Text) (listed : Bool) (schemas : List Text) :
    listFrom shown opening separator listed schemas =
      (listing (if listed then separator else opening) separator [] (schemas.filterMap shown),
        listed || !(schemas.filterMap shown).isEmpty) := by
  induction schemas generalizing listed with
  | nil => simp [listFrom, listing]
  | cons schema schemas ih =>
    rw [listFrom]
    cases hshown : shown schema with
    | none => simp [ih, hshown]
    | some item =>
      cases hitems : schemas.filterMap shown with
      | nil => simp [ih, hshown, hitems, listing]
      | cons next items => simp [ih, hshown, hitems, listing, List.intercalate]

theorem listFrom_closed (shown : Text → Option Text) (opening separator closing : Text) (schemas : List Text) :
    (listFrom shown opening separator false schemas).1 ++
        (if (listFrom shown opening separator false schemas).2 then closing else []) =
      listing opening separator closing (schemas.filterMap shown) := by
  rw [listFrom_eq]
  cases schemas.filterMap shown with
  | nil => rfl
  | cons item items => simp [listing]

def addedSchemas (previous current : RenderOptions) : List Text :=
  current.toolSchemas.filter fun schema => schema ∉ previous.toolSchemas

def functionNames (options : RenderOptions) : List Text := options.toolSchemas.filterMap toolSchemaName

def removedNames (previous current : RenderOptions) : List Text :=
  (functionNames previous).filter fun name => name ∉ functionNames current

theorem filterMap_shownSchema (previous current : RenderOptions) :
    current.toolSchemas.filterMap (shownSchema previous) = addedSchemas previous current := by
  rw [addedSchemas, ← List.filterMap_eq_filter]
  refine congrFun (congrArg _ (funext fun schema => ?_)) _
  by_cases h : schema ∈ previous.toolSchemas
  · simp [shownSchema, Option.guard, h]
  · simp [shownSchema, Option.guard, h]

theorem any_toolSchemaName {options : RenderOptions} {name : Text} :
    (options.toolSchemas.any fun schema => toolSchemaName schema = some name) = true ↔
      name ∈ functionNames options := by
  simp [functionNames, List.mem_filterMap]

theorem filterMap_shownName (previous current : RenderOptions) :
    previous.toolSchemas.filterMap (shownName current) = removedNames previous current := by
  have hnames : functionNames previous = previous.toolSchemas.filterMap toolSchemaName := rfl
  rw [removedNames, hnames, List.filter_filterMap]
  refine congrFun (congrArg _ (funext fun schema => ?_)) _
  rw [shownName]
  cases toolSchemaName schema with
  | none => rfl
  | some name =>
    by_cases h : name ∈ functionNames current
    · simp [Option.filter, h, any_toolSchemaName.mpr h]
    · simp [Option.filter, h, Bool.eq_false_iff.mpr (mt any_toolSchemaName.mp h)]

theorem changedTools_eq (previous current : RenderOptions) :
    changedTools previous current =
      ascii "# Tools\n\nTool configuration updated for this turn." ++
        listing listedOpening (ascii "\n") (ascii "\n</tools>") (addedSchemas previous current) ++
        listing removedOpening (ascii ", ") (ascii ".") (removedNames previous current) ++
        choiceUpdate previous current := by
  simp only [changedTools, List.append_assoc]
  rw [← List.append_assoc (listFrom (shownSchema previous) _ _ _ _).1, listFrom_closed,
    ← List.append_assoc (listFrom (shownName current) _ _ _ _).1, listFrom_closed,
    filterMap_shownSchema, filterMap_shownName]

def SameChoice (previous current : RenderOptions) : Prop :=
  previous.toolChoice = current.toolChoice ∧
    (current.toolChoice = .named → previous.toolChoiceName = current.toolChoiceName)

variable {previous current : RenderOptions}

theorem schemaListsEqual_of_perm
    (h : previous.toolSchemas.Perm current.toolSchemas) : schemaListsEqual previous current = true := by
  simp only [schemaListsEqual, Bool.and_eq_true, decide_eq_true_eq, List.all_eq_true]
  exact ⟨h.length_eq, fun schema hschema => h.mem_iff.mp hschema⟩

theorem perm_of_schemaListsEqual (h : previous.toolSchemas.Nodup)
    (hequal : schemaListsEqual previous current = true) : previous.toolSchemas.Perm current.toolSchemas := by
  simp only [schemaListsEqual, Bool.and_eq_true, decide_eq_true_eq, List.all_eq_true] at hequal
  exact (List.subperm_of_subset h hequal.2).perm_of_length_le hequal.1.ge

theorem toolMetadataEqual_iff (previous current : RenderOptions) :
    toolMetadataEqual previous current = true ↔
      SameChoice previous current ∧ schemaListsEqual previous current = true := by
  rw [toolMetadataEqual, SameChoice]
  by_cases hchoice : previous.toolChoice = current.toolChoice
  · simp only [hchoice, ne_eq, not_true_eq_false, if_false, true_and, namedChoicesEqual]
    split <;> grind
  · simp [hchoice]

theorem choiceUpdate_same (h : SameChoice previous current) : choiceUpdate previous current = [] := by
  rw [choiceUpdate, if_neg]
  rintro (hchoice | ⟨hnamed, hname⟩)
  · exact hchoice h.1
  · exact absurd (h.2 hnamed) (of_decide_eq_false hname)

theorem choiceUpdate_changed (h : ¬SameChoice previous current) :
    choiceUpdate previous current = statedChoice current := by
  rw [choiceUpdate, if_pos]
  by_contra hnot
  push Not at hnot
  exact h ⟨hnot.1, fun hnamed => by simpa [namedChoicesEqual] using hnot.2 hnamed⟩

/-- There is nothing to say: the tools are the same but for their order, or there were and are none. -/
def Unchanged (previous current : RenderOptions) : Prop :=
  previous.toolSchemas.Perm current.toolSchemas ∧ SameChoice previous current ∨
    previous.toolSchemas = [] ∧ current.toolSchemas = []

structure Says (previous current : RenderOptions) (turn : Text) : Prop where
  first : previous.toolSchemas = [] → turn = toolsPrompt current
  last : previous.toolSchemas ≠ [] → current.toolSchemas = [] → turn = noFunctions
  between : previous.toolSchemas ≠ [] → current.toolSchemas ≠ [] → ∃ choice,
    turn = ascii "# Tools\n\nTool configuration updated for this turn." ++
      listing listedOpening (ascii "\n") (ascii "\n</tools>") (addedSchemas previous current) ++
      listing removedOpening (ascii ", ") (ascii ".") (removedNames previous current) ++ choice ∧
    (SameChoice previous current → choice = []) ∧ (¬SameChoice previous current → choice = statedChoice current)

theorem fgChatRenderToolUpdate_complete {previous current : RenderOptions}
    (hcurrent : validateToolOptions current = .ok ()) (hprevious : validateToolOptions previous = .ok ()) :
    ∃ update, fgChatRenderToolUpdate previous current = .ok update ∧
      (Unchanged previous current → update = none) ∧
      (previous.toolSchemas.Nodup → update = none → Unchanged previous current) ∧
      ∀ text, update = some text → ∃ turn,
        text = ascii "<|im_start|>system\n" ++ turn ++ ascii "<|im_end|>\n" ∧ Says previous current turn := by
  have hcase : fgChatRenderToolUpdate previous current =
      if toolMetadataEqual previous current then .ok none
      else if previous.toolSchemas = [] ∧ current.toolSchemas = [] then .ok none
      else .ok (some (ascii "<|im_start|>system\n" ++
        (if previous.toolSchemas = [] then toolsPrompt current
          else if current.toolSchemas = [] then noFunctions
          else changedTools previous current) ++ closeTurn)) := by
    rw [fgChatRenderToolUpdate, hcurrent, hprevious]
    rfl
  rw [hcase]
  by_cases hequal : toolMetadataEqual previous current = true
  · refine ⟨none, if_pos hequal, fun _ => rfl, fun hnodup _ => ?_, fun text h => nomatch h⟩
    obtain ⟨hchoice, hlists⟩ := (toolMetadataEqual_iff previous current).mp hequal
    exact .inl ⟨perm_of_schemaListsEqual hnodup hlists, hchoice⟩
  rw [if_neg hequal]
  by_cases hempty : previous.toolSchemas = [] ∧ current.toolSchemas = []
  · exact ⟨none, if_pos hempty, fun _ => rfl, fun _ _ => .inr hempty, fun text h => nomatch h⟩
  rw [if_neg hempty]
  refine ⟨_, rfl, fun h => ?_, (fun _ h => nomatch h), ?_⟩
  · obtain ⟨hperm, hchoice⟩ | hboth := h
    · exact absurd ((toolMetadataEqual_iff previous current).mpr ⟨hchoice, schemaListsEqual_of_perm hperm⟩) hequal
    · exact absurd hboth hempty
  · intro text htext
    refine ⟨_, (Option.some.inj htext).symm, fun hfirst => if_pos hfirst, fun hfirst hlast => ?_, fun hfirst hlast => ?_⟩
    · rw [if_neg hfirst, if_pos hlast]
    · rw [if_neg hfirst, if_neg hlast]
      exact ⟨choiceUpdate previous current, changedTools_eq previous current, choiceUpdate_same, choiceUpdate_changed⟩

def functionSchema (name : Text) : Text := ascii "\x7b\"name\":\"" ++ name ++ ascii "\"\x7d"

def toolOptions (toolSchemas : List Text) (toolChoice : ToolChoice) : RenderOptions :=
  ⟨toolSchemas, .default, toolChoice, []⟩

theorem fgChatRenderToolUpdate_complete_renamed :
    ∃ update, fgChatRenderToolUpdate (toolOptions [functionSchema (ascii "weather")] .auto)
        (toolOptions [functionSchema (ascii "clock")] .required) = .ok update ∧
      (Unchanged (toolOptions [functionSchema (ascii "weather")] .auto)
        (toolOptions [functionSchema (ascii "clock")] .required) → update = none) ∧
      ((toolOptions [functionSchema (ascii "weather")] .auto).toolSchemas.Nodup → update = none →
        Unchanged (toolOptions [functionSchema (ascii "weather")] .auto)
          (toolOptions [functionSchema (ascii "clock")] .required)) ∧
      ∀ text, update = some text → ∃ turn,
        text = ascii "<|im_start|>system\n" ++ turn ++ ascii "<|im_end|>\n" ∧
        Says (toolOptions [functionSchema (ascii "weather")] .auto)
          (toolOptions [functionSchema (ascii "clock")] .required) turn :=
  fgChatRenderToolUpdate_complete (by decide +kernel) (by decide +kernel)

/-- When no tools are left the update says so, and does not name them. -/
theorem fgChatRenderToolUpdate_unnamed :
    validateToolOptions (toolOptions [functionSchema (ascii "weather")] .auto) = .ok () ∧
    validateToolOptions (toolOptions [] .auto) = .ok () ∧
    toolSchemaName (functionSchema (ascii "weather")) = some (ascii "weather") ∧
    ∃ text, fgChatRenderToolUpdate (toolOptions [functionSchema (ascii "weather")] .auto) (toolOptions [] .auto) =
        .ok (some text) ∧
      ¬Holds text (ascii "weather") := by
  refine ⟨by decide +kernel, by decide +kernel, by decide +kernel, ?_⟩
  exact ⟨ascii "<|im_start|>system\n" ++ noFunctions ++ closeTurn, by decide +kernel, by decide +kernel⟩

end FlashGordon.Chat
