import FlashGordon.Status

/-! Prompts of the resident runtime: the live-prefix planner of `prefix.c`, and the expansion of media
placeholders into position-carrying tokens (`fg_runtime_generate_vision` and its continuation in
`runtime.c`, `fg_video_positions` in `video.c`). Token lists come from the tokenizer and media from the
tower; both are inputs here. -/

namespace FlashGordon

inductive ResetReason where
  | none
  | coldStart
  | explicit
  | requestShorter
  | tokenMismatch
  | publicMismatch
  | frontierUnavailable
  | failure
  deriving DecidableEq, Repr

/-- `fg_prefix_plan`. -/
structure PrefixPlan where
  hit : Bool
  exactFrontier : Bool
  reusedTokens : Nat
  prefillOffset : Nat
  prefillTokens : Nat
  resetReason : ResetReason
  deriving DecidableEq, Repr

def PrefixPlan.cold (transcript : List Nat) (reason : ResetReason) : PrefixPlan :=
  ⟨false, false, 0, 0, transcript.length, reason⟩

def PrefixPlan.start (plan : PrefixPlan) : Nat := if plan.hit then plan.prefillOffset else 0

/-- `fg_prefix_plan_tokens`. -/
def prefixPlanTokens (history : List Nat) (nextTokenValid : Bool) (transcript : List Nat)
    (emptyReason : ResetReason) : PrefixPlan :=
  if history = [] then
    .cold transcript (if emptyReason = .none then .coldStart else emptyReason)
  else if transcript.length < history.length then .cold transcript .requestShorter
  else if transcript.take history.length ≠ history then .cold transcript .tokenMismatch
  else if transcript.length = history.length ∧ nextTokenValid = false then
    .cold transcript .frontierUnavailable
  else
    { hit := true
      exactFrontier := transcript.length = history.length
      reusedTokens := history.length
      prefillOffset := history.length
      prefillTokens := transcript.length - history.length
      resetReason := .none }

/-- `fg_prefix_build_continuation_tokens`. -/
def prefixBuildContinuationTokens (history : List Nat) (pendingToken : Nat) (continuation : List Nat) :
    Except Error (List Nat) :=
  if continuation.head? ≠ some pendingToken then
    .error ⟨.argument, "invalid authoritative continuation token boundary"⟩
  else .ok (history ++ continuation)

/-- The M-RoPE position of a token on its three axes. -/
structure Axes where
  time : Nat
  height : Nat
  width : Nat
  deriving DecidableEq, Repr

def Axes.text (position : Nat) : Axes := ⟨position, position, position⟩

inductive MediaKind where
  | image
  | video
  | videoFrames
  deriving DecidableEq, Repr

/-- A medium after the tower: `merged` embedding rows on a grid, in `groups` temporal groups. The tower
rejects an empty geometry. `content` stands for the pixels, hence for the embedding rows. -/
structure Medium where
  kind : MediaKind
  merged : Nat
  gridWidth : Nat
  gridHeight : Nat
  groups : Nat
  content : Nat
  merged_pos : 0 < merged
  gridWidth_pos : 0 < gridWidth
  gridHeight_pos : 0 < gridHeight
  groups_pos : 0 < groups
  deriving DecidableEq

structure MediaRow where
  medium : Medium
  row : Nat
  deriving DecidableEq

def visionStartToken : Nat := 248053

def visionEndToken : Nat := 248054

def visionImageToken : Nat := 248056

def visionVideoToken : Nat := 248057

/-- A token as the owners process it: where it stands, and the embedding row that replaces its own. -/
structure Entry where
  token : Nat
  position : Axes
  embedding : Option MediaRow
  deriving DecidableEq

inductive Item where
  | text (token : Nat)
  | media (medium : Medium)
  deriving DecidableEq

def Medium.token (medium : Medium) : Nat :=
  if medium.kind = .image then visionImageToken else visionVideoToken

/-- `grid_width > grid_height ? grid_width : grid_height`. -/
def Medium.step (medium : Medium) : Nat := max medium.gridWidth medium.gridHeight

def imagePosition (medium : Medium) (position row : Nat) : Axes :=
  ⟨position, position + row / medium.gridWidth, position + row % medium.gridWidth⟩

/-- `fg_video_positions`, one token. -/
def videoPosition (medium : Medium) (position row : Nat) : Axes :=
  let groupTokens := medium.gridWidth * medium.gridHeight
  let base := position + row / groupTokens * medium.step
  let inner := row % groupTokens
  ⟨base, base + inner / medium.gridWidth, base + inner % medium.gridWidth⟩

def Medium.entry (medium : Medium) (position row : Nat) : Entry :=
  { token := medium.token
    position :=
      if medium.kind = .image then imagePosition medium position row
      else videoPosition medium position row
    embedding := some ⟨medium, row⟩ }

def Item.entries (position : Nat) : Item → List Entry
  | .text token => [⟨token, .text position, none⟩]
  | .media medium => (List.range medium.merged).map (medium.entry position)

def Item.advance (position : Nat) : Item → Nat
  | .text _ => position + 1
  | .media medium =>
    if medium.kind = .image then position + medium.step
    else position + medium.step * medium.groups

def Item.placeholder : Item → Nat
  | .text token => token
  | .media medium => medium.token

/-- The counting pass over the transcript, which pairs each placeholder with the medium `seen` points
at. -/
def matchMedia : Nat → List Nat → List Medium → Except Error (List Item)
  | _, [], [] => .ok []
  | _, [], _ :: _ =>
    .error ⟨.format, "media placeholder count does not match the request media count"⟩
  | count, token :: rest, media =>
    if token ≠ visionImageToken ∧ token ≠ visionVideoToken then
      match matchMedia (count + 1) rest media with
      | .error err => .error err
      | .ok items => .ok (.text token :: items)
    else match media with
      | [] => .error ⟨.format, "media placeholder order does not match the request media order"⟩
      | medium :: others =>
        if medium.token ≠ token then
          .error ⟨.format, "media placeholder order does not match the request media order"⟩
        else if maxContext < count + medium.merged then
          .error ⟨.limit, "expanded vision prompt exceeds the context limit"⟩
        else match matchMedia (count + medium.merged) rest others with
          | .error err => .error err
          | .ok items => .ok (.media medium :: items)

/-- The placing pass: the entries of the items from the cursor on, and the cursor after them. `previous`
is the transcript token before the cursor. -/
def placeItems : Option Nat → Nat → List Item → Except Error (List Entry × Nat)
  | _, position, [] => .ok ([], position)
  | previous, position, item :: rest =>
    let missing := match item with
      | .text _ => none
      | .media medium =>
        if previous = some visionStartToken then none
        else if medium.kind = .image then some "image placeholder is missing a vision_start token"
        else some "video placeholder is missing a vision_start token"
    match missing with
    | some message => .error ⟨.format, message⟩
    | none =>
      match placeItems (some item.placeholder) (item.advance position) rest with
      | .error err => .error err
      | .ok (entries, last) => .ok (item.entries position ++ entries, last)

def layoutFrom : Nat → List Item → List Entry
  | _, [] => []
  | position, item :: rest => item.entries position ++ layoutFrom (item.advance position) rest

def cursorFrom : Nat → List Item → Nat
  | position, [] => position
  | position, item :: rest => cursorFrom (item.advance position) rest

theorem placeItems_ok {previous : Option Nat} {position last : Nat} {items : List Item}
    {entries : List Entry} (h : placeItems previous position items = .ok (entries, last)) :
    entries = layoutFrom position items ∧ last = cursorFrom position items := by
  induction items generalizing previous position last entries with
  | nil =>
    simp only [placeItems, Except.ok.injEq, Prod.mk.injEq] at h
    exact ⟨h.1.symm, h.2.symm⟩
  | cons item rest ih =>
    simp only [placeItems] at h
    split at h
    · cases h
    · cases htail : placeItems (some item.placeholder) (item.advance position) rest with
      | error err => simp [htail] at h
      | ok placed =>
        obtain ⟨htailEq, hlast⟩ := ih htail
        simp only [htail, Except.ok.injEq, Prod.mk.injEq] at h
        rw [← h.1, ← h.2, htailEq, hlast]
        exact ⟨rfl, rfl⟩

theorem layoutFrom_append (position : Nat) (first second : List Item) :
    layoutFrom position (first ++ second) =
      layoutFrom position first ++ layoutFrom (cursorFrom position first) second := by
  induction first generalizing position with
  | nil => rfl
  | cons item rest ih =>
    simp only [List.cons_append, layoutFrom, cursorFrom, ih, List.append_assoc]

theorem cursorFrom_append (position : Nat) (first second : List Item) :
    cursorFrom position (first ++ second) = cursorFrom (cursorFrom position first) second := by
  induction first generalizing position with
  | nil => rfl
  | cons item rest ih => simp only [List.cons_append, cursorFrom, ih]

theorem cursorFrom_text (position : Nat) (tokens : List Nat) :
    cursorFrom position (tokens.map .text) = position + tokens.length := by
  induction tokens generalizing position with
  | nil => rfl
  | cons token rest ih =>
    simp only [List.map_cons, cursorFrom, Item.advance, ih, List.length_cons]
    omega

end FlashGordon
