import FlashGordon.ChatGenerated

/-!
The language of what a model writes (`chat.c`), without reasoning: content, and tool calls behind it. The grammar
says what the texts look like; the reader takes exactly these apart, in the one way they can be.
-/

namespace FlashGordon.Chat

open Occurs ByteCodec List

def Blank (text : Text) : Prop := ∀ c ∈ text, isSpace c = true

inductive Parameter : Text → Text × Text → Prop where
  | mk {key body : Text} (hkey : (62 : UInt8) ∉ key) (hvalid : validQwenTagValue (trimEnd key) true = true)
      (hbody : ¬parameterEnd <:+: body) :
      Parameter (parameterStart ++ (key ++ ([62] ++ (body ++ parameterEnd)))) (trimEnd key, trimOneNewline body)

inductive Parameters : Text → List (Text × Text) → Prop where
  | nil : Parameters [] []
  | cons {blanks text rest : Text} {parameter : Text × Text} {parameters : List (Text × Text)} (hblanks : Blank blanks)
      (hparameter : Parameter text parameter) (hrest : Parameters rest parameters) :
      Parameters (blanks ++ (text ++ rest)) (parameter :: parameters)

structure WrittenCall where
  name : Text
  parameters : List (Text × Text)

inductive CallBlock : Text → WrittenCall → Prop where
  | mk {before name text between behind : Text} {parameters : List (Text × Text)} (hbefore : Blank before)
      (hname : (62 : UInt8) ∉ name) (hvalid : validQwenTagValue (trimEnd name) false = true)
      (hparameters : Parameters text parameters) (hbetween : Blank between) (hbehind : Blank behind) :
      CallBlock (toolStart ++ (before ++ (functionStart ++ (name ++ ([62] ++ (text ++ (between ++ (functionEnd ++
        (behind ++ toolEnd))))))))) ⟨trimEnd name, parameters⟩

inductive CallBlocks : Text → List WrittenCall → Prop where
  | last {text blanks : Text} {call : WrittenCall} (hcall : CallBlock text call) (hblanks : Blank blanks) :
      CallBlocks (text ++ blanks) [call]
  | more {text blanks rest : Text} {call : WrittenCall} {calls : List WrittenCall} (hcall : CallBlock text call)
      (hblanks : Blank blanks) (hrest : CallBlocks rest calls) : CallBlocks (text ++ (blanks ++ rest)) (call :: calls)

def syntaxMarkers : List Text :=
  [ascii "<tool_call", ascii "</tool_call", ascii "<function=", ascii "</function", ascii "<parameter=",
    ascii "</parameter"]

def SyntaxFree (text : Text) : Prop := ∀ marker ∈ syntaxMarkers, ¬marker <:+: text

inductive Reading : Text → Text → List WrittenCall → Prop where
  | plain {content : Text} (hfree : SyntaxFree content) : Reading content content []
  | calls {content rest : Text} {calls : List WrittenCall} (hfree : SyntaxFree content)
      (hcalls : CallBlocks rest calls) : Reading (content ++ rest) (trimEnd content) calls

/-! What a written call means: an object of its parameters. -/

def memberText (parameter : Text × Text) : Text :=
  appendJsonEscaped parameter.1 ++ [58] ++
    (if rawJsonComplete parameter.2 then appendMinifiedJson parameter.2 else appendJsonEscaped parameter.2)

/-- The members, with a comma in front of each but the first. -/
def membersText : Bool → List (Text × Text) → Text
  | _, [] => []
  | wrote, parameter :: parameters => (if wrote then [44] else []) ++ memberText parameter ++ membersText true parameters

def WrittenCall.toolCall (call : WrittenCall) : ToolCall :=
  ⟨call.name, some ([123] ++ membersText false call.parameters ++ [125])⟩

def tags : List Text :=
  [toolStart, toolEnd, functionStart, functionEnd, parameterStart, parameterEnd] ++ syntaxMarkers

theorem tags_bracket : ∀ m ∈ tags, m.head? = some 60 ∧ (60 : UInt8) ∉ m.tail := by
  decide +kernel

theorem lone_of_tag {m : Text} (h : m ∈ tags) : Lone m := by
  obtain ⟨hhead, htail⟩ := tags_bracket m h
  obtain ⟨rest, rfl⟩ := List.head?_eq_some_iff.mp hhead
  exact ⟨60, rest, rfl, htail⟩

theorem lone_parameterEnd : Lone parameterEnd := lone_of_tag (by simp [tags])

theorem lone_toolStart : Lone toolStart := lone_of_tag (by simp [tags])

variable {m text : Text}

theorem head_of_tag (h : m ∈ tags) (hbegins : m <+: text) : text.head? = some 60 := by
  obtain ⟨rest, rfl⟩ := hbegins
  rw [List.head?_append, (tags_bracket m h).1]
  rfl

variable {text : Text}

theorem not_blank_of_bracket (h : text.head? = some 60) : ∀ c ∈ text.head?, isSpace c = false := by
  intro c hc
  obtain rfl : 60 = c := Option.some.inj (h.symm.trans hc)
  rfl

theorem skipSpace_blanks {blanks text : Text} (hblanks : Blank blanks)
    (htext : ∀ c ∈ text.head?, isSpace c = false) : skipSpace (blanks ++ text) = text := by
  rw [skipSpace, dropWhile_append_of_pos hblanks]
  cases text with
  | nil => rfl
  | cons c text => exact dropWhile_cons_of_neg (Bool.eq_false_iff.mp (htext c rfl))

theorem skipSpace_spec (text : Text) : ∃ blanks, Blank blanks ∧ text = blanks ++ skipSpace text ∧
    ∀ c ∈ (skipSpace text).head?, isSpace c = false := by
  refine ⟨text.takeWhile isSpace, fun c hc => mem_takeWhile_imp hc, takeWhile_append_dropWhile.symm, ?_⟩
  intro c hc
  have hnot := List.head?_dropWhile_not isSpace text
  rw [skipSpace] at hc
  rw [Option.mem_def.mp hc] at hnot
  simpa using hnot

theorem cut_eq_some {m text before behind : Text} (h : Lone m) :
    cut m text = some (before, behind) ↔ text = before ++ (m ++ behind) ∧ find m before = none := by
  constructor
  · intro hcut
    obtain ⟨i, hi, heq⟩ := Option.map_eq_some_iff.mp hcut
    obtain ⟨rfl, rfl⟩ := Prod.mk.inj heq
    obtain ⟨rest, hrest⟩ := (find_eq_some.mp hi).1
    have htext : text = text.take i ++ (m ++ text.drop (i + m.length)) := by
      rw [← drop_drop, ← hrest, drop_left, hrest, take_append_drop]
    refine ⟨htext, ?_⟩
    have hlength : (text.take i).length = i :=
      length_take_of_le ((Nat.le_add_right i _).trans (find_le h.ne_nil hi))
    rw [← @Lone.find_word _ m (text.take i) (text.drop (i + m.length)) _ h, ← htext, hlength, hi]
  · rintro ⟨rfl, hnone⟩
    rw [cut, h.find_word.mpr hnone, Option.map_some, take_left, ← drop_drop, drop_left, drop_left]

theorem lone_close : Lone ([62] : Text) := ⟨62, [], rfl, not_mem_nil⟩

theorem find_close : find [62] text = none ↔ (62 : UInt8) ∉ text := by
  rw [find_none_iff_absent, singleton_infix_iff]

theorem tagValue_ok {cursor value rest : Text} {allowEmpty : Bool} :
    tagValue cursor allowEmpty = .ok (value, rest) ↔ ∃ written, cursor = written ++ ([62] ++ rest) ∧
      (62 : UInt8) ∉ written ∧ trimEnd written = value ∧ validQwenTagValue value allowEmpty = true := by
  rw [tagValue]
  constructor
  · intro h
    split at h
    · exact absurd h nofun
    next written behind hcut =>
      obtain ⟨htext, hnone⟩ := (cut_eq_some lone_close).mp hcut
      split at h
      next hvalid =>
        obtain ⟨rfl, rfl⟩ := Prod.mk.inj (Except.ok.inj h)
        exact ⟨written, htext, find_close.mp hnone, rfl, hvalid⟩
      · exact absurd h nofun
  · rintro ⟨written, rfl, hnot, rfl, hvalid⟩
    simp only [(cut_eq_some lone_close).mpr ⟨rfl, find_close.mpr hnot⟩, if_pos hvalid]

theorem isPrefixOf_iff : m.isPrefixOf text = true ↔ m <+: text := isPrefixOf_iff_prefix

theorem functionEnd_ne_parameterStart : ¬functionEnd <+: parameterStart ++ text := by
  intro h
  have hbegins := prefix_of_prefix_length_le h (prefix_append _ _) (by decide +kernel)
  exact absurd hbegins (by decide +kernel)

def ReadsParameters (cursor : Text) (wrote : Bool) (members rest : Text) : Prop :=
  ∃ text blanks parameters, Parameters text parameters ∧ Blank blanks ∧ cursor = text ++ (blanks ++ rest) ∧
    functionEnd <+: rest ∧ members = membersText wrote parameters

variable {fuel : Nat} {wrote : Bool}

theorem parametersFrom_stop {blanks rest : Text} (hblanks : Blank blanks)
    (hend : functionEnd <+: rest) : parametersFrom (fuel + 1) wrote (blanks ++ rest) = .ok ([], rest) := by
  have hskip := skipSpace_blanks hblanks (not_blank_of_bracket (head_of_tag (by simp [tags]) hend))
  rw [parametersFrom]
  simp only [hskip, isPrefixOf_iff.mpr hend, if_true]

theorem parametersFrom_step {blanks text rest : Text} {parameter : Text × Text}
    (hblanks : Blank blanks) (hparameter : Parameter text parameter) :
    parametersFrom (fuel + 1) wrote (blanks ++ (text ++ rest)) = (do
      let (more, rest) ← parametersFrom fuel true rest
      .ok ((if wrote then [44] else []) ++ memberText parameter ++ more, rest)) := by
  obtain ⟨hkey, hvalid, hbody⟩ := hparameter
  rename_i key body
  have htag : tagValue (key ++ ([62] ++ (body ++ (parameterEnd ++ rest)))) true =
      .ok (trimEnd key, body ++ (parameterEnd ++ rest)) := tagValue_ok.mpr ⟨key, rfl, hkey, rfl, hvalid⟩
  have hcut : cut parameterEnd (body ++ (parameterEnd ++ rest)) = some (body, rest) :=
    (cut_eq_some lone_parameterEnd).mpr ⟨rfl, find_none_iff_absent.mpr hbody⟩
  have hcursor : skipSpace (blanks ++ (parameterStart ++ (key ++ ([62] ++ (body ++ parameterEnd))) ++ rest)) =
      parameterStart ++ (key ++ ([62] ++ (body ++ (parameterEnd ++ rest)))) := by
    simp only [append_assoc]
    exact skipSpace_blanks hblanks (not_blank_of_bracket (head_of_tag (by simp [tags]) (prefix_append _ _)))
  rw [parametersFrom]
  simp only [hcursor, drop_left, isPrefixOf_iff, functionEnd_ne_parameterStart, if_false, prefix_append, if_true, htag]
  simp only [bind, Except.bind, hcut, memberText, append_assoc]

theorem parametersFrom_complete {parameters : List (Text × Text)} (h : Parameters text parameters)
    (hfuel : text.length < fuel) {blanks rest : Text} (hblanks : Blank blanks)
    (hend : functionEnd <+: rest) :
    parametersFrom fuel wrote (text ++ (blanks ++ rest)) = .ok (membersText wrote parameters, rest) := by
  induction h generalizing fuel wrote with
  | nil =>
    obtain ⟨fuel, rfl⟩ := Nat.exists_eq_add_one.mpr (Nat.zero_lt_of_lt hfuel)
    exact parametersFrom_stop hblanks hend
  | @cons front text more parameter parameters hfront hparameter hmore ih =>
    obtain ⟨fuel, rfl⟩ := Nat.exists_eq_add_one.mpr (Nat.zero_lt_of_lt hfuel)
    have hlength : more.length < fuel := by
      obtain ⟨-, -, -⟩ := hparameter
      simp only [length_append, show parameterStart.length = 11 from rfl] at hfuel
      omega
    rw [append_assoc, append_assoc, parametersFrom_step hfront hparameter, ih hlength]
    simp only [bind, Except.bind, membersText, append_assoc]

theorem parametersFrom_sound {cursor members rest : Text}
    (h : parametersFrom fuel wrote cursor = .ok (members, rest)) : ReadsParameters cursor wrote members rest := by
  induction fuel generalizing wrote cursor members rest with
  | zero => exact absurd h nofun
  | succ fuel ih =>
    obtain ⟨blanks, hblanks, hcursor, -⟩ := skipSpace_spec cursor
    rw [parametersFrom] at h
    simp only at h
    split at h
    next hend =>
      obtain ⟨rfl, rfl⟩ := Prod.mk.inj (Except.ok.inj h)
      exact ⟨[], blanks, [], .nil, hblanks, hcursor, isPrefixOf_iff.mp hend, rfl⟩
    · split at h
      next hstart =>
        obtain ⟨inner, hinner⟩ := isPrefixOf_iff.mp hstart
        rw [← hinner] at hcursor h
        obtain ⟨⟨key, after⟩, htag, hvalue⟩ := except_bind_ok.mp h
        obtain ⟨written, rfl, hkey, rfl, hvalid⟩ := tagValue_ok.mp htag
        simp only at hvalue
        cases hcut : cut parameterEnd after with
        | none =>
          rw [hcut] at hvalue
          exact absurd hvalue nofun
        | some pair =>
          rw [hcut] at hvalue
          obtain ⟨value, behind⟩ := pair
          obtain ⟨rfl, hbody⟩ := (cut_eq_some lone_parameterEnd).mp hcut
          obtain ⟨⟨more, stop⟩, hmore, hmembers⟩ := except_bind_ok.mp hvalue
          obtain ⟨rfl, rfl⟩ := Prod.mk.inj (Except.ok.inj hmembers)
          obtain ⟨text, last, parameters, htext, hlast, rfl, hend, rfl⟩ := ih hmore
          refine ⟨blanks ++ (parameterStart ++ (written ++ ([62] ++ (value ++ parameterEnd))) ++ text), last,
            (trimEnd written, trimOneNewline value) :: parameters,
            .cons hblanks (.mk hkey hvalid (find_none_iff_absent.mp hbody)) htext, hlast, ?_, hend, ?_⟩
          · rw [hcursor]
            simp only [append_assoc]
          · simp only [membersText, memberText, append_assoc]
      · exact absurd h nofun

theorem eq_append_drop (h : m <+: text) : text = m ++ text.drop m.length := by
  obtain ⟨rest, rfl⟩ := h
  rw [drop_left]

theorem parseNativeToolCall_steps {cursor : Text} {parsed : ToolCall × Text} :
    parseNativeToolCall cursor = .ok parsed ↔ toolStart <+: cursor ∧
      functionStart <+: skipSpace (cursor.drop toolStart.length) ∧ ∃ name inner, tagValue
        ((skipSpace (cursor.drop toolStart.length)).drop functionStart.length) false = .ok (name, inner) ∧
        ∃ members after, parametersFrom (inner.length + 1) false inner = .ok (members, after) ∧
          toolEnd <+: skipSpace (after.drop functionEnd.length) ∧
          (⟨name, some ([123] ++ members ++ [125])⟩, (skipSpace (after.drop functionEnd.length)).drop toolEnd.length) =
            parsed := by
  rw [parseNativeToolCall, except_bind_unit_ok, except_bind_unit_ok, failIf_ok, failIf_ok]
  simp only [except_bind_ok, Bool.not_eq_false, isPrefixOf_iff, Prod.exists]
  refine and_congr_right fun _ => and_congr_right fun _ => exists_congr fun name => exists_congr fun inner =>
    and_congr_right fun _ => exists_congr fun members => exists_congr fun after => and_congr_right fun _ => ?_
  constructor
  · rintro ⟨_, hend, heq⟩
    exact ⟨isPrefixOf_iff.mp (Bool.not_eq_false _ ▸ failIf_ok.mp hend), Except.ok.inj heq⟩
  · rintro ⟨hend, rfl⟩
    exact ⟨(), failIf_ok.mpr (Bool.not_eq_false _ ▸ isPrefixOf_iff.mpr hend), rfl⟩

theorem parseNativeToolCall_ok {cursor rest : Text} {call : ToolCall} :
    parseNativeToolCall cursor = .ok (call, rest) ↔
      ∃ text written, CallBlock text written ∧ cursor = text ++ rest ∧ call = written.toolCall := by
  rw [parseNativeToolCall_steps]
  constructor
  · rintro ⟨hstart, hfunction, name, inner, htag, members, after, hmembers, hend, heq⟩
    obtain ⟨rfl, rfl⟩ := Prod.mk.inj heq
    obtain ⟨before, hbefore, hskip, -⟩ := skipSpace_spec (cursor.drop toolStart.length)
    obtain ⟨written, hwritten, hname, rfl, hvalid⟩ := tagValue_ok.mp htag
    obtain ⟨text, between, parameters, hparameters, hbetween, rfl, hfunctionEnd, rfl⟩ := parametersFrom_sound hmembers
    obtain ⟨behind, hbehind, hclose, -⟩ := skipSpace_spec (after.drop functionEnd.length)
    refine ⟨_, _, .mk hbefore hname hvalid hparameters hbetween hbehind, ?_, rfl⟩
    have hcursor : cursor = toolStart ++ (before ++ (functionStart ++ (written ++ ([62] ++ (text ++ (between ++
        (functionEnd ++ (behind ++ (toolEnd ++ (skipSpace (after.drop functionEnd.length)).drop toolEnd.length))))))))) := by
      rw [← eq_append_drop hend, ← hclose, ← eq_append_drop hfunctionEnd, ← hwritten, ← eq_append_drop hfunction, ← hskip,
        ← eq_append_drop hstart]
    rw [hcursor]
    simp only [append_assoc]
  · rintro ⟨text, written, hblock, rfl, rfl⟩
    obtain ⟨hbefore, hname, hvalid, hparameters, hbetween, hbehind⟩ := hblock
    rename_i before name inner between behind parameters
    have hfunction : skipSpace (before ++ (functionStart ++ (name ++ ([62] ++ (inner ++ (between ++ (functionEnd ++
        (behind ++ (toolEnd ++ rest))))))))) = functionStart ++ (name ++ ([62] ++ (inner ++ (between ++ (functionEnd ++
        (behind ++ (toolEnd ++ rest))))))) :=
      skipSpace_blanks hbefore (not_blank_of_bracket (head_of_tag (by simp [tags]) (prefix_append _ _)))
    have hclose : skipSpace (behind ++ (toolEnd ++ rest)) = toolEnd ++ rest :=
      skipSpace_blanks hbehind (not_blank_of_bracket (head_of_tag (by simp [tags]) (prefix_append _ _)))
    simp only [append_assoc, drop_left, hfunction]
    refine ⟨prefix_append _ _, prefix_append _ _, trimEnd name, _,
      tagValue_ok.mpr ⟨name, rfl, hname, rfl, hvalid⟩, membersText false parameters, _, parametersFrom_complete hparameters ?_ hbetween (prefix_append _ _), ?_, ?_⟩
    · rw [length_append]
      omega
    · rw [drop_left, hclose]
      exact prefix_append _ _
    · rw [drop_left, hclose, drop_left, WrittenCall.toolCall, append_assoc]

theorem callBlock_start {call : WrittenCall} (h : CallBlock text call) : toolStart <+: text := by
  obtain ⟨-, -, -, -, -, -⟩ := h
  exact prefix_append _ _

variable {calls : List WrittenCall}

theorem callBlocks_start (h : CallBlocks text calls) : toolStart <+: text := by
  cases h with
  | last hcall => exact (callBlock_start hcall).trans (prefix_append _ _)
  | more hcall => exact (callBlock_start hcall).trans (prefix_append _ _)

theorem callsFrom_complete (h : CallBlocks text calls)
    (hfuel : text.length < fuel) : callsFrom fuel text = .ok (calls.map WrittenCall.toolCall) := by
  induction h generalizing fuel with
  | @last text blanks call hcall hblanks =>
    obtain ⟨fuel, rfl⟩ := Nat.exists_eq_add_one.mpr (Nat.zero_lt_of_lt hfuel)
    have hskip := @skipSpace_blanks blanks [] hblanks nofun
    rw [append_nil] at hskip
    rw [callsFrom, parseNativeToolCall_ok.mpr ⟨text, call, hcall, rfl, rfl⟩]
    simp only [bind, Except.bind, hskip, if_true, map_cons, map_nil]
  | @more text blanks rest call calls hcall hblanks hrest ih =>
    obtain ⟨fuel, rfl⟩ := Nat.exists_eq_add_one.mpr (Nat.zero_lt_of_lt hfuel)
    have hstart := callBlocks_start hrest
    have hskip := skipSpace_blanks hblanks (not_blank_of_bracket (head_of_tag (by simp [tags]) hstart))
    have hne : rest ≠ [] := fun hnil => by
      rw [hnil] at hstart
      exact absurd (prefix_nil.mp hstart) lone_toolStart.ne_nil
    have hlength : rest.length < fuel := by
      have hcallLength := (callBlock_start hcall).length_le
      rw [show toolStart.length = 11 from rfl] at hcallLength
      simp only [length_append] at hfuel
      omega
    rw [callsFrom, parseNativeToolCall_ok.mpr ⟨text, call, hcall, rfl, rfl⟩]
    simp only [bind, Except.bind, hskip, hne, if_false, isPrefixOf_iff.mpr hstart, if_true, ih hlength, map_cons]

theorem callsFrom_sound {cursor : Text} {calls : List ToolCall} (h : callsFrom fuel cursor = .ok calls) :
    ∃ written, CallBlocks cursor written ∧ calls = written.map WrittenCall.toolCall := by
  induction fuel generalizing cursor calls with
  | zero => exact absurd h nofun
  | succ fuel ih =>
    obtain ⟨⟨call, after⟩, hcall, hrest⟩ := except_bind_ok.mp h
    obtain ⟨text, written, hblock, rfl, rfl⟩ := parseNativeToolCall_ok.mp hcall
    obtain ⟨blanks, hblanks, hskip, -⟩ := skipSpace_spec after
    simp only at hrest
    split at hrest
    next hnil =>
      obtain rfl := Except.ok.inj hrest
      rw [hnil, append_nil] at hskip
      exact ⟨[written], hskip ▸ .last hblock hblanks, rfl⟩
    · split at hrest
      · obtain ⟨more, hmore, heq⟩ := except_bind_ok.mp hrest
        obtain rfl := Except.ok.inj heq
        obtain ⟨others, hothers, rfl⟩ := ih hmore
        refine ⟨written :: others, ?_, rfl⟩
        rw [hskip]
        exact .more hblock hblanks hothers
      · exact absurd hrest nofun

/-! ## One way to take a text apart -/

theorem blanks_unique {blanks blanks' text text' : Text} (hblanks : Blank blanks) (hblanks' : Blank blanks')
    (htext : text.head? = some 60) (htext' : text'.head? = some 60) (h : blanks ++ text = blanks' ++ text') :
    text = text' := by
  rw [← skipSpace_blanks hblanks (not_blank_of_bracket htext), h,
    skipSpace_blanks hblanks' (not_blank_of_bracket htext')]

theorem cut_unique {m before before' behind behind' : Text} (hm : Lone m) (hbefore : find m before = none)
    (hbefore' : find m before' = none) (h : before ++ (m ++ behind) = before' ++ (m ++ behind')) :
    before = before' ∧ behind = behind' := by
  have hcut : cut m (before ++ (m ++ behind)) = some (before, behind) := (cut_eq_some hm).mpr ⟨rfl, hbefore⟩
  have hcut' : cut m (before' ++ (m ++ behind')) = some (before', behind') := (cut_eq_some hm).mpr ⟨rfl, hbefore'⟩
  rw [h, hcut'] at hcut
  exact Prod.mk.inj (Option.some.inj hcut).symm

theorem parameter_unique {text text' rest rest' : Text} {parameter parameter' : Text × Text}
    (h : Parameter text parameter) (h' : Parameter text' parameter') (heq : text ++ rest = text' ++ rest') :
    parameter = parameter' ∧ rest = rest' := by
  obtain ⟨hkey, -, hbody⟩ := h
  obtain ⟨hkey', -, hbody'⟩ := h'
  simp only [append_assoc] at heq
  obtain ⟨rfl, hvalue⟩ := cut_unique lone_close (find_close.mpr hkey) (find_close.mpr hkey') (append_cancel_left heq)
  obtain ⟨rfl, hrest⟩ :=
    cut_unique lone_parameterEnd (find_none_iff_absent.mpr hbody) (find_none_iff_absent.mpr hbody') hvalue
  exact ⟨rfl, hrest⟩

theorem parameter_start {parameter : Text × Text} (h : Parameter text parameter) :
    ∃ rest, text = parameterStart ++ rest := by
  obtain ⟨-, -, -⟩ := h
  exact ⟨_, rfl⟩

theorem parameters_unique {text text' : Text} {parameters parameters' : List (Text × Text)}
    (h : Parameters text parameters) (h' : Parameters text' parameters') {blanks blanks' rest rest' : Text}
    (hblanks : Blank blanks) (hblanks' : Blank blanks') (hend : functionEnd <+: rest) (hend' : functionEnd <+: rest')
    (heq : text ++ (blanks ++ rest) = text' ++ (blanks' ++ rest')) : parameters = parameters' ∧ rest = rest' := by
  have hhead {text : Text} (hbegins : functionEnd <+: text) : text.head? = some 60 := head_of_tag (by simp [tags]) hbegins
  have hparameterHead (text : Text) : (parameterStart ++ text).head? = some 60 :=
    head_of_tag (by simp [tags]) (prefix_append _ _)
  induction h generalizing text' parameters' with
  | nil =>
    cases h' with
    | nil => exact ⟨rfl, blanks_unique hblanks hblanks' (hhead hend) (hhead hend') heq⟩
    | cons hfront hparameter =>
      obtain ⟨inner, rfl⟩ := parameter_start hparameter
      simp only [append_assoc, nil_append] at heq
      rw [blanks_unique hblanks hfront (hhead hend) (hparameterHead _) heq] at hend
      exact absurd hend functionEnd_ne_parameterStart
  | cons hfront hparameter hmore ih =>
    cases h' with
    | nil =>
      obtain ⟨inner, rfl⟩ := parameter_start hparameter
      simp only [append_assoc, nil_append] at heq
      rw [← blanks_unique hfront hblanks' (hparameterHead _) (hhead hend') heq] at hend'
      exact absurd hend' functionEnd_ne_parameterStart
    | cons hfront' hparameter' hmore' =>
      have htext {text : Text} {parameter : Text × Text} (h : Parameter text parameter) (more : Text) :
          (text ++ more).head? = some 60 := by
        obtain ⟨inner, rfl⟩ := parameter_start h
        rw [append_assoc]
        exact hparameterHead _
      simp only [append_assoc] at heq
      obtain ⟨rfl, hrest⟩ := parameter_unique hparameter hparameter'
        (blanks_unique hfront hfront' (htext hparameter _) (htext hparameter' _) heq)
      obtain ⟨rfl, hrest⟩ := ih hmore' hrest
      exact ⟨rfl, hrest⟩

theorem callBlock_unique {text text' rest rest' : Text} {call call' : WrittenCall} (h : CallBlock text call)
    (h' : CallBlock text' call') (heq : text ++ rest = text' ++ rest') : call = call' ∧ rest = rest' := by
  have hhead {m : Text} (hm : m ∈ tags) (text : Text) : (m ++ text).head? = some 60 := head_of_tag hm (prefix_append _ _)
  obtain ⟨hbefore, hname, -, hparameters, hbetween, hbehind⟩ := h
  obtain ⟨hbefore', hname', -, hparameters', hbetween', hbehind'⟩ := h'
  simp only [append_assoc] at heq
  have hfunction := blanks_unique hbefore hbefore' (hhead (by simp [tags]) _) (hhead (by simp [tags]) _) (append_cancel_left heq)
  obtain ⟨rfl, hinner⟩ := cut_unique lone_close (find_close.mpr hname) (find_close.mpr hname')
    (append_cancel_left hfunction)
  obtain ⟨rfl, hafter⟩ := parameters_unique hparameters hparameters' hbetween hbetween' (prefix_append _ _)
    (prefix_append _ _) hinner
  have hclose := blanks_unique hbehind hbehind' (hhead (by simp [tags]) _) (hhead (by simp [tags]) _) (append_cancel_left hafter)
  exact ⟨rfl, append_cancel_left hclose⟩

theorem callBlocks_unique {calls calls' : List WrittenCall} (h : CallBlocks text calls)
    (h' : CallBlocks text calls') : calls = calls' := by
  have hnot {blanks blanks' rest : Text} {calls : List WrittenCall} (hblanks : Blank blanks) (hrest : CallBlocks rest calls)
      (heq : blanks = blanks' ++ rest) : False := by
    have hstart := head_of_tag (by simp [tags]) (callBlocks_start hrest)
    obtain ⟨more, rfl⟩ := List.head?_eq_some_iff.mp hstart
    exact absurd (hblanks 60 (heq ▸ mem_append_right _ mem_cons_self)) (by decide)
  induction h generalizing calls' with
  | @last text blanks call hcall hblanks =>
    generalize hwhole : text ++ blanks = whole at h'
    cases h' with
    | last hcall' =>
      obtain ⟨rfl, -⟩ := callBlock_unique hcall hcall' hwhole
      rfl
    | more hcall' _ hrest' =>
      obtain ⟨-, hbehind⟩ := callBlock_unique hcall hcall' hwhole
      exact (hnot hblanks hrest' hbehind).elim
  | @more text blanks rest call calls hcall hblanks hrest ih =>
    generalize hwhole : text ++ (blanks ++ rest) = whole at h'
    cases h' with
    | last hcall' hblanks' =>
      obtain ⟨-, hbehind⟩ := callBlock_unique hcall hcall' hwhole
      exact (hnot hblanks' hrest hbehind.symm).elim
    | more hcall' hblanks' hrest' =>
      obtain ⟨rfl, hbehind⟩ := callBlock_unique hcall hcall' hwhole
      have hsame := blanks_unique hblanks hblanks' (head_of_tag (by simp [tags]) (callBlocks_start hrest))
        (head_of_tag (by simp [tags]) (callBlocks_start hrest')) hbehind
      rw [ih (hsame ▸ hrest')]

theorem find_toolStart {content rest : Text} (hfree : SyntaxFree content)
    (hcalls : CallBlocks rest calls) : find toolStart (content ++ rest) = some content.length := by
  obtain ⟨more, rfl⟩ := callBlocks_start hcalls
  refine lone_toolStart.find_word.mpr (find_none_iff_absent.mpr fun hwithin => ?_)
  have hopen : ascii "<tool_call" <:+: toolStart := (prefix_append (ascii "<tool_call") [62]).isInfix
  exact hfree (ascii "<tool_call") mem_cons_self (hopen.trans hwithin)

theorem find_toolStart_none {content : Text} (hfree : SyntaxFree content) : find toolStart content = none := by
  refine find_none_iff_absent.mpr fun hwithin => ?_
  have hopen : ascii "<tool_call" <:+: toolStart := (prefix_append (ascii "<tool_call") [62]).isInfix
  exact hfree (ascii "<tool_call") mem_cons_self (hopen.trans hwithin)

theorem reading_unique {text content content' : Text} {calls calls' : List WrittenCall} (h : Reading text content calls)
    (h' : Reading text content' calls') : content = content' ∧ calls = calls' := by
  obtain ⟨whole, hwhole⟩ : ∃ whole, whole = text := ⟨_, rfl⟩
  rw [← hwhole] at h'
  cases h with
  | plain hfree =>
    cases h' with
    | plain => exact ⟨hwhole.symm, rfl⟩
    | calls hfree' hcalls' =>
      have hfind := find_toolStart hfree' hcalls'
      rw [hwhole, find_toolStart_none hfree] at hfind
      exact absurd hfind nofun
  | calls hfree hcalls =>
    cases h' with
    | plain hfree' =>
      have hfind := find_toolStart hfree hcalls
      rw [← hwhole, find_toolStart_none hfree'] at hfind
      exact absurd hfind nofun
    | calls hfree' hcalls' =>
      have hlength := find_toolStart hfree' hcalls'
      rw [hwhole, find_toolStart hfree hcalls] at hlength
      obtain ⟨rfl, rfl⟩ := append_inj hwhole (Option.some.inj hlength).symm
      exact ⟨rfl, callBlocks_unique hcalls hcalls'⟩

/-! ## The text that is shown -/

theorem rangeHasQwenToolSyntax_iff {xs ys : Text} (hys : ys = [] ∨ ys.head? = some 60) :
    rangeHasQwenToolSyntax (xs ++ ys) xs.length = false ↔ SyntaxFree xs := by
  rw [rangeHasQwenToolSyntax, any_eq_false]
  refine forall_congr' fun marker => forall_congr' fun hmarker => ?_
  have hbracket := (tags_bracket marker (mem_append_right _ hmarker)).1
  have hfront {i : Nat} := @Lone.find_front _ marker xs ys _ (lone_of_tag (mem_append_right _ hmarker))
    (hbracket ▸ hys) i
  rw [← find_none_iff_absent, Bool.not_eq_true, Option.any_eq_false]
  constructor
  · intro hlate
    cases hfind : find marker xs with
    | none => rfl
    | some i =>
      obtain ⟨hsame, hi⟩ := hfront.mpr hfind
      exact absurd hi (by simpa using hlate i hsame)
  · intro hnone i hfind
    rw [decide_eq_false_iff_not]
    intro hi
    exact absurd (hnone ▸ hfront.mp ⟨hfind, hi⟩) nofun

theorem parseVisible_ok {generated : Generated} :
    parseVisible none text = .ok generated ↔ ∃ content calls, Reading (text.dropWhile isLineBreak) content calls ∧
      generated = ⟨content, none, calls.map WrittenCall.toolCall⟩ := by
  rw [parseVisible]
  generalize text.dropWhile isLineBreak = visible
  cases hfind : find toolStart visible with
  | none =>
    have hwhole := @rangeHasQwenToolSyntax_iff visible [] (.inl rfl)
    rw [append_nil] at hwhole
    simp only
    constructor
    · intro h
      split at h
      · exact absurd h nofun
      next hnone =>
        obtain rfl := Except.ok.inj h
        exact ⟨visible, [], .plain (hwhole.mp (Bool.not_eq_true _ ▸ hnone)), rfl⟩
    · rintro ⟨content, calls, hreading, rfl⟩
      cases hreading with
      | plain hfree =>
        rw [hwhole.mpr hfree]
        rfl
      | calls hfree hcalls => exact absurd (hfind ▸ find_toolStart hfree hcalls) nofun
  | some tool =>
    simp only
    have htool := (find_eq_some.mp hfind).1
    have hlength : (visible.take tool).length = tool :=
      length_take_of_le ((Nat.le_add_right tool _).trans (find_le lone_toolStart.ne_nil hfind))
    have hsplit := @rangeHasQwenToolSyntax_iff (visible.take tool) (visible.drop tool)
      (.inr (head_of_tag (by simp [tags]) htool))
    rw [take_append_drop, hlength] at hsplit
    constructor
    · intro h
      split at h
      · exact absurd h nofun
      next hnone =>
        obtain ⟨calls, hcalls, heq⟩ := except_bind_ok.mp h
        obtain rfl := Except.ok.inj heq
        obtain ⟨written, hblocks, rfl⟩ := callsFrom_sound hcalls
        have hreading : Reading (visible.take tool ++ visible.drop tool) (trimEnd (visible.take tool)) written :=
          .calls (hsplit.mp (Bool.not_eq_true _ ▸ hnone)) hblocks
        rw [take_append_drop] at hreading
        exact ⟨_, written, hreading, rfl⟩
    · rintro ⟨content, calls, hreading, rfl⟩
      cases hreading with
      | plain hfree => exact absurd (hfind.symm.trans (find_toolStart_none hfree)) nofun
      | @calls content rest _ hfree hcalls =>
        obtain rfl : content.length = tool := Option.some.inj ((find_toolStart hfree hcalls).symm.trans hfind)
        rw [take_left] at hsplit ⊢
        rw [drop_left, hsplit.mpr hfree, callsFrom_complete hcalls (by rw [length_append]; omega)]
        rfl

/-! ## The structure that is filled -/

/-- `fg_chat_generated` while it is filled; the empty one is what `memset` and `fg_chat_generated_free` leave. -/
structure Output where
  content : Option Text
  reasoning : Option Text
  toolCalls : List ToolCall

def Output.empty : Output := ⟨none, none, []⟩

/-- `generated_push_call`. -/
def Output.push (out : Output) (call : ToolCall) : Output := { out with toolCalls := out.toolCalls ++ [call] }

/-- The loop over the tool calls, which pushes each before it looks at what follows. -/
def pushCalls : Nat → Text → Output → Except Error Unit × Output
  | 0, _, out => (.error malformedCall, out)
  | fuel + 1, cursor, out =>
    match parseNativeToolCall cursor with
    | .error err => (.error err, out)
    | .ok (call, rest) =>
      let rest := skipSpace rest
      if rest = [] then (.ok (), out.push call)
      else if toolStart.isPrefixOf rest then pushCalls fuel rest (out.push call)
      else (.error textAfterCall, out.push call)

/-- Content and tool calls; every error frees the structure. -/
def fillVisible (text : Text) (out : Output) : Except Error Unit × Output :=
  let visible := text.dropWhile isLineBreak
  match find toolStart visible with
  | none =>
    if rangeHasQwenToolSyntax visible visible.length then (.error malformedSyntax, .empty)
    else (.ok (), { out with content := some visible })
  | some tool =>
    if rangeHasQwenToolSyntax visible tool then (.error malformedSyntax, .empty)
    else
      match pushCalls (visible.length + 1) (visible.drop tool)
        { out with content := some (trimEnd (visible.take tool)) } with
      | (.error err, _) => (.error err, .empty)
      | (.ok (), out) => (.ok (), out)

def fillUnclosed (bounded : Text) (out : Output) : Except Error Unit × Output :=
  if rangeHasQwenToolSyntax bounded bounded.length then
    (.error ⟨.format, "incomplete generated Qwen tool call"⟩, .empty)
  else (.ok (), { out with reasoning := some (withoutThinkStart bounded), content := some [] })

/-- `fg_chat_parse_generated` on a structure of the caller, which is cleared first. -/
def fgChatParseGeneratedInto (text : Text) (thinking : Bool) (_ : Output) : Except Error Unit × Output :=
  let bounded := boundedText text
  let out := Output.empty
  if thinking then
    match findLast thinkEnd bounded with
    | some close =>
      fillVisible (bounded.drop (close + thinkEnd.length))
        { out with reasoning := some (withoutThinkStart (bounded.take close)) }
    | none =>
      match find toolStart bounded with
      | none => fillUnclosed bounded out
      | some tool =>
        if (find toolEnd (bounded.drop tool)).isSome then
          fillVisible (bounded.drop tool) { out with reasoning := some (withoutThinkStart (bounded.take tool)) }
        else fillUnclosed bounded out
  else fillVisible bounded out

/-- What the structure holds behind a parse. -/
def filled : Except Error Generated → Except Error Unit × Output
  | .error err => (.error err, .empty)
  | .ok generated => (.ok (), ⟨some generated.content, generated.reasoning, generated.toolCalls⟩)

theorem pushCalls_eq (fuel : Nat) (cursor : Text) (out : Output) :
    (∃ calls, callsFrom fuel cursor = .ok calls ∧
      pushCalls fuel cursor out = (.ok (), { out with toolCalls := out.toolCalls ++ calls })) ∨
    ∃ err left, callsFrom fuel cursor = .error err ∧ pushCalls fuel cursor out = (.error err, left) := by
  induction fuel generalizing cursor out with
  | zero => exact .inr ⟨malformedCall, out, rfl, rfl⟩
  | succ fuel ih =>
    rw [callsFrom, pushCalls]
    cases parseNativeToolCall cursor with
    | error err => exact .inr ⟨err, out, rfl, rfl⟩
    | ok parsed =>
      simp only [bind, Except.bind]
      split
      · exact .inl ⟨_, rfl, rfl⟩
      · split
        · rcases ih (skipSpace parsed.2) (out.push parsed.1) with ⟨calls, hcalls, hout⟩ | ⟨err, left, hcalls, hout⟩
          · refine .inl ⟨parsed.1 :: calls, by rw [hcalls], ?_⟩
            rw [hout, Output.push, append_assoc]
            rfl
          · exact .inr ⟨err, left, by rw [hcalls], hout⟩
        · exact .inr ⟨textAfterCall, out.push parsed.1, rfl, rfl⟩

theorem fillVisible_eq (text : Text) (reasoning : Option Text) :
    fillVisible text ⟨none, reasoning, []⟩ = filled (parseVisible reasoning text) := by
  rw [fillVisible, parseVisible]
  generalize text.dropWhile isLineBreak = visible
  cases hfind : find toolStart visible with
  | none =>
    simp only
    split <;> rfl
  | some tool =>
    simp only
    split
    · rfl
    · rcases pushCalls_eq (visible.length + 1) (visible.drop tool)
        ⟨some (trimEnd (visible.take tool)), reasoning, []⟩ with ⟨calls, hcalls, hout⟩ | ⟨err, left, hcalls, hout⟩
      · rw [hcalls, hout]
        rfl
      · rw [hcalls, hout]
        rfl

theorem fgChatParseGeneratedInto_eq (text : Text) (thinking : Bool) (out : Output) :
    fgChatParseGeneratedInto text thinking out = filled (fgChatParseGenerated text thinking) := by
  have hunclosed (bounded : Text) : fillUnclosed bounded .empty = filled (parseUnclosed bounded) := by
    rw [fillUnclosed, parseUnclosed]
    split <;> rfl
  rw [fgChatParseGeneratedInto, fgChatParseGenerated]
  cases thinking with
  | false => exact fillVisible_eq _ none
  | true =>
    simp only [if_true]
    cases findLast thinkEnd (boundedText text) with
    | some close => exact fillVisible_eq _ _
    | none =>
      cases find toolStart (boundedText text) with
      | none => exact hunclosed _
      | some tool =>
        simp only
        split
        · exact fillVisible_eq _ _
        · exact hunclosed _

/-! ## The language of generated texts -/

/-- The text that is read: cut at the end marker, without blanks at its end and line breaks at its front. -/
def shownText (text : Text) : Text := (boundedText text).dropWhile isLineBreak

/-- With thinking off a text is accepted if and only if it can be read as content and tool calls; there is one such
reading, the structure holds it, and a text that is refused leaves the structure empty. -/
theorem fgChatParseGenerated_grammar (text : Text) (out : Output) :
    ((fgChatParseGeneratedInto text false out).1 = .ok () ↔ ∃ content calls, Reading (shownText text) content calls) ∧
    (∀ content calls, Reading (shownText text) content calls →
      fgChatParseGeneratedInto text false out = (.ok (), ⟨some content, none, calls.map WrittenCall.toolCall⟩) ∧
        ∀ content' calls', Reading (shownText text) content' calls' → content' = content ∧ calls' = calls) ∧
    ((fgChatParseGeneratedInto text false out).1 ≠ .ok () →
      (fgChatParseGeneratedInto text false out).2 = .empty) := by
  rw [fgChatParseGeneratedInto_eq]
  have hparse (generated : Generated) : fgChatParseGenerated text false = .ok generated ↔ _ :=
    @parseVisible_ok (boundedText text) generated
  refine ⟨⟨fun h => ?_, ?_⟩, fun content calls hreading => ⟨?_, fun content' calls' h' => reading_unique h' hreading⟩,
    fun h => ?_⟩
  · cases hresult : fgChatParseGenerated text false with
    | error err =>
      rw [hresult] at h
      exact absurd h nofun
    | ok generated =>
      obtain ⟨content, calls, hreading, -⟩ := (hparse generated).mp hresult
      exact ⟨content, calls, hreading⟩
  · rintro ⟨content, calls, hreading⟩
    rw [(hparse _).mpr ⟨content, calls, hreading, rfl⟩]
    rfl
  · rw [(hparse _).mpr ⟨content, calls, hreading, rfl⟩]
    rfl
  · cases hresult : fgChatParseGenerated text false with
    | error err => rfl
    | ok generated =>
      rw [hresult] at h
      exact absurd rfl h

theorem fgChatParseGenerated_grammar_sample :
    fgChatParseGeneratedInto (ascii "ok <tool_call>\n<function=f>\n</function>\n</tool_call><|im_end|>") false .empty =
      (.ok (), ⟨some (ascii "ok"), none, [⟨ascii "f", some [123, 125]⟩]⟩) := by
  have hblank : Blank (ascii "\n") := fun c hc => mem_singleton.mp hc ▸ rfl
  have hcall : CallBlock (toolStart ++ (ascii "\n" ++ (functionStart ++ (ascii "f" ++ ([62] ++ ([] ++ (ascii "\n" ++
      (functionEnd ++ (ascii "\n" ++ toolEnd))))))))) ⟨ascii "f", []⟩ :=
    .mk hblank (by decide) rfl .nil hblank hblank
  have hfree : SyntaxFree (ascii "ok ") := fun marker hmarker hwithin => by
    have hhead := (tags_bracket marker (mem_append_right _ hmarker)).1
    exact absurd (hwithin.subset (mem_of_mem_head? hhead)) (by decide)
  have hshown : shownText (ascii "ok <tool_call>\n<function=f>\n</function>\n</tool_call><|im_end|>") = ascii "ok " ++
      (toolStart ++ (ascii "\n" ++ (functionStart ++ (ascii "f" ++ ([62] ++ ([] ++ (ascii "\n" ++
        (functionEnd ++ (ascii "\n" ++ toolEnd))))))))) ++ [] := by decide +kernel
  have hreading : Reading (shownText (ascii "ok <tool_call>\n<function=f>\n</function>\n</tool_call><|im_end|>"))
      (trimEnd (ascii "ok ")) [⟨ascii "f", []⟩] := by
    rw [hshown, append_assoc]
    exact .calls hfree (.last hcall nofun)
  exact ((fgChatParseGenerated_grammar _ _).2.1 _ _ hreading).1

end FlashGordon.Chat
