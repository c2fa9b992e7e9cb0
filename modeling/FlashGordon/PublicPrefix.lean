import FlashGordon.SessionRoute
import Mathlib.Algebra.BigOperators.Group.List.Basic

/-! A stored session that a request continues (`api.c`). The leading system messages of the two may differ, in number
too, and hold no media; from there on the stored messages are compared one by one with the request's, and each marker
of an image or a video stands for the next stored identity. -/

namespace FlashGordon.Route

open Chat Occurs

/-! The comparison of contents, with a cursor in each. -/

def lineStep : Text → Option (UInt8 × Text)
  | [] => none
  | 13 :: 10 :: rest => some (10, rest)
  | 13 :: rest => some (10, rest)
  | c :: rest => some (c, rest)

theorem lineStep_length {text rest : Text} {c : UInt8} (h : lineStep text = some (c, rest)) :
    rest.length < text.length := by
  unfold lineStep at h
  split at h <;> grind

/-- The loop of `api_content_equal`. -/
def contentLoop (left right : Text) : Bool :=
  match _hleft : lineStep left, lineStep right with
  | some (ca, a), some (cb, b) => if ca ≠ cb then false else contentLoop a b
  | none, none => true
  | _, _ => false
termination_by left.length
decreasing_by exact lineStep_length (by assumption)

/-- `api_content_equal`, as it goes through the two texts. -/
def apiContentEqual (left right : Text) : Bool := contentLoop (trimmed left) (trimmed right)

theorem lineFeeds_step (text : Text) :
    lineFeeds text = ((lineStep text).map fun step => step.1 :: lineFeeds step.2).getD [] := by
  fun_cases lineStep text <;> simp_all [lineFeeds]

theorem contentLoop_eq (left right : Text) : contentLoop left right = decide (lineFeeds left = lineFeeds right) := by
  fun_induction contentLoop left right with
  | case1 left right ca a cb b hright hleft hne =>
    rw [lineFeeds_step left, lineFeeds_step right, hleft, hright]
    simp [hne]
  | case2 left right ca a cb b hright hleft heq ih =>
    rw [lineFeeds_step left, lineFeeds_step right, hleft, hright, ih]
    simp [not_ne_iff.mp heq]
  | case3 left right hleft hright =>
    rw [lineFeeds_step left, lineFeeds_step right, hleft, hright]
    rfl
  | case4 left right hsome hnone =>
    rw [lineFeeds_step left, lineFeeds_step right]
    cases hleft : lineStep left with
    | none =>
      cases hright : lineStep right with
      | none => exact absurd hright (hnone hleft)
      | some step => rfl
    | some step =>
      cases hright : lineStep right with
      | none => rfl
      | some other => exact absurd hright (hsome _ _ _ _ hleft)

theorem apiContentEqual_eq (left right : Text) : apiContentEqual left right = contentEqual left right :=
  contentLoop_eq _ _

def SameContent (left right : Text) : Prop := lineFeeds (trimmed left) = lineFeeds (trimmed right)

theorem apiContentEqual_iff {left right : Text} : apiContentEqual left right = true ↔ SameContent left right := by
  rw [apiContentEqual_eq, contentEqual, decide_eq_true_iff]
  rfl

theorem sameContent_equivalence : Equivalence SameContent :=
  ⟨fun _ => rfl, fun h => h.symm, fun h hother => h.trans hother⟩

/-! Markers are left in place by the comparison. -/

def visionStart : Text := ascii "<|vision_start|>"

theorem visionStart_letters : ∀ c ∈ visionStart, isSpace c = false ∧ c ≠ 10 ∧ c ≠ 13 := by decide +kernel

theorem prefix_lineFeeds {m : Text} (h10 : 10 ∉ m) (h13 : 13 ∉ m) (text : Text) :
    m <+: lineFeeds text ↔ m <+: text := by
  induction m generalizing text with
  | nil => simp
  | cons y m ih =>
    have hy10 : y ≠ 10 := fun h => h10 (h ▸ List.mem_cons_self)
    have hy13 : y ≠ 13 := fun h => h13 (h ▸ List.mem_cons_self)
    have ih := ih (fun h => h10 (List.mem_cons_of_mem y h)) (fun h => h13 (List.mem_cons_of_mem y h))
    fun_cases lineFeeds text with
    | case1 => rfl
    | case2 rest => simp [List.cons_prefix_cons, hy10, hy13]
    | case3 rest => simp [List.cons_prefix_cons, hy10, hy13]
    | case4 c rest => simp [List.cons_prefix_cons, ih]

theorem count_lineFeeds {m : Text} (hm : m ≠ []) (h10 : 10 ∉ m) (h13 : 13 ∉ m) (text : Text) :
    count m (lineFeeds text) = count m text := by
  obtain ⟨y, m, rfl⟩ := List.exists_cons_of_ne_nil hm
  have hy10 : y ≠ 10 := fun h => h10 (h ▸ List.mem_cons_self)
  have hy13 : y ≠ 13 := fun h => h13 (h ▸ List.mem_cons_self)
  fun_induction lineFeeds text with
  | case1 => rfl
  | case2 rest ih => simp [count, List.cons_prefix_cons, hy10, hy13, ih]
  | case3 rest hother ih => simp [count, List.cons_prefix_cons, hy10, hy13, ih]
  | case4 c rest hother hcr ih =>
    have hline : lineFeeds (c :: rest) = c :: lineFeeds rest := by
      rw [lineFeeds]
      · exact hother
      · exact hcr
    have hprefix : y :: m <+: c :: lineFeeds rest ↔ y :: m <+: c :: rest := hline ▸ prefix_lineFeeds h10 h13 (c :: rest)
    simp only [count, ih, hprefix]

theorem count_trimmed {m : Text} {x : UInt8} (hx : m.head? = some x) (hspace : ∀ c ∈ m, isSpace c = false) (text : Text) :
    count m (trimmed text) = count m text := by
  have hmem : x ∈ m := List.mem_of_head? hx
  have hfront : count m text = count m (text.dropWhile isSpace) := by
    have hnone : x ∉ text.takeWhile isSpace := fun h => by
      simpa [hspace x hmem] using List.mem_takeWhile_imp h
    conv_lhs => rw [← List.takeWhile_append_dropWhile (p := isSpace) (l := text)]
    rw [count_append (not_begun_of_notMem hx hnone), count_eq_zero_of_notMem hmem hnone, Nat.zero_add]
  have hback : count m (text.dropWhile isSpace) = count m (trimmed text) := by
    have hblank : ∀ y ∈ (text.dropWhile isSpace).rtakeWhile isSpace, isSpace y = true := fun y hy =>
      List.mem_rtakeWhile_imp hy
    have hhead : ∀ y ∈ ((text.dropWhile isSpace).rtakeWhile isSpace).head?, y ∉ m.tail := fun y hy hmem => by
      simpa [hspace y (List.mem_of_mem_tail hmem)] using hblank y (List.mem_of_head? hy)
    have hnone : x ∉ (text.dropWhile isSpace).rtakeWhile isSpace := fun h => by
      simpa [hspace x hmem] using hblank x h
    calc
      count m (text.dropWhile isSpace) = count m (trimmed text ++ (text.dropWhile isSpace).rtakeWhile isSpace) := by
        rw [trimmed, List.rdropWhile_append_rtakeWhile]
      _ = count m (trimmed text) + count m ((text.dropWhile isSpace).rtakeWhile isSpace) := count_append_of_head hhead
      _ = count m (trimmed text) := by rw [count_eq_zero_of_notMem hmem hnone, Nat.add_zero]
  rw [hfront, hback]

theorem visionMarkerCount_same {left right : Text} (h : SameContent left right) :
    visionMarkerCount left = visionMarkerCount right := by
  have hkept (text : Text) : count visionStart (lineFeeds (trimmed text)) = count visionStart text := by
    rw [count_lineFeeds (by decide) (fun h => (visionStart_letters _ h).2.1 rfl)
      (fun h => (visionStart_letters _ h).2.2 rfl), count_trimmed (x := 60) (by decide) fun c h => (visionStart_letters c h).1]
  calc
    visionMarkerCount left = count visionStart (lineFeeds (trimmed left)) := (hkept left).symm
    _ = count visionStart (lineFeeds (trimmed right)) := by rw [h]
    _ = visionMarkerCount right := hkept right

/-! Messages that were found equal. -/

/-- What `api_message_equal` says of two messages. -/
structure SameMessage (left right : RequestMessage) : Prop where
  role : left.role = right.role
  content : SameContent left.content right.content
  toolCallId : left.toolCallId = right.toolCallId
  toolCalls : left.toolCalls = right.toolCalls

theorem messageEqual_iff {left right : RequestMessage} : messageEqual left right = true ↔ SameMessage left right := by
  simp only [messageEqual, contentEqual, Bool.and_eq_true, decide_eq_true_eq]
  constructor
  · rintro ⟨⟨⟨hrole, hcontent⟩, hid⟩, hcalls⟩
    exact ⟨hrole, hcontent, hid, hcalls⟩
  · rintro ⟨hrole, hcontent, hid, hcalls⟩
    exact ⟨⟨⟨hrole, hcontent⟩, hid⟩, hcalls⟩

def markers (messages : List RequestMessage) : Nat := (messages.map fun message => visionMarkerCount message.content).sum

theorem markers_same {left right : List RequestMessage} (h : List.Forall₂ SameMessage left right) :
    markers left = markers right := by
  induction h with
  | nil => rfl
  | cons hmessage _ ih =>
    simp only [markers, List.map_cons, List.sum_cons] at ih ⊢
    rw [ih, visionMarkerCount_same hmessage.content]

def Paired (stored echoed : List MediaIdentity) (j : Nat) : Prop :=
  j < stored.length ∧ j < echoed.length ∧ stored[j]? = echoed[j]?

theorem mediaFrom_some {stored echoed : List MediaIdentity} {n index last : Nat}
    (h : mediaFrom stored echoed n index = some last) :
    last = index + n ∧ ∀ j, index ≤ j → j < last → Paired stored echoed j := by
  induction n generalizing index with
  | zero =>
    obtain rfl := Option.some.inj h
    exact ⟨rfl, fun j hlow hhigh => absurd hhigh (by omega)⟩
  | succ n ih =>
    rw [mediaFrom] at h
    split at h
    · next hpaired =>
        obtain ⟨hlast, hrest⟩ := ih h
        refine ⟨by omega, fun j hlow hhigh => ?_⟩
        rcases Nat.eq_or_lt_of_le hlow with rfl | hlow
        · exact hpaired
        · exact hrest j hlow hhigh
    · cases h

theorem prefixFrom_some {stored echoed : List MediaIdentity} {pairs : List (RequestMessage × RequestMessage)}
    {index last : Nat} (h : prefixFrom stored echoed pairs index = some last) :
    (∀ pair ∈ pairs, SameMessage pair.1 pair.2) ∧ last = index + markers (pairs.map Prod.fst) ∧
      ∀ j, index ≤ j → j < last → Paired stored echoed j := by
  induction pairs generalizing index with
  | nil =>
    obtain rfl := Option.some.inj h
    exact ⟨(fun pair hpair => nomatch hpair), rfl, fun j hlow hhigh => absurd hhigh (by omega)⟩
  | cons pair pairs ih =>
    rw [prefixFrom] at h
    split at h
    · next hequal =>
        obtain ⟨next, hnext, hrest⟩ := Option.bind_eq_some_iff.mp h
        obtain ⟨hindex, hpaired⟩ := mediaFrom_some hnext
        obtain ⟨hsame, hlast, hbehind⟩ := ih hrest
        refine ⟨?_, ?_, fun j hlow hhigh => ?_⟩
        · exact List.forall_mem_cons.mpr ⟨messageEqual_iff.mp hequal, hsame⟩
        · simp only [markers, List.map_cons, List.sum_cons] at hlast ⊢
          omega
        · rcases Nat.lt_or_ge j next with hj | hj
          · exact hpaired j hlow hj
          · exact hbehind j hj hhigh
    · cases h

/-! The leading system messages. -/

def nonSystem (message : RequestMessage) : Bool := !roleIsSystem message.role

theorem leadingSystemCount_le (messages : List RequestMessage) : leadingSystemCount messages ≤ messages.length :=
  (List.takeWhile_prefix _).length_le

theorem system_of_leading {messages : List RequestMessage} {message : RequestMessage}
    (h : message ∈ messages.take (leadingSystemCount messages)) : roleIsSystem message.role = true := by
  have htake : messages.take (leadingSystemCount messages) =
      messages.takeWhile fun message : RequestMessage => roleIsSystem message.role := by
    rw [leadingSystemCount]
    exact (List.prefix_iff_eq_take.mp (List.takeWhile_prefix (fun message : RequestMessage => roleIsSystem message.role))).symm
  rw [htake] at h
  exact List.mem_takeWhile_imp (p := fun message : RequestMessage => roleIsSystem message.role) h

theorem filter_nonSystem_drop (messages : List RequestMessage) {n : Nat} (hn : leadingSystemCount messages ≤ n) :
    ((messages.take n).drop (leadingSystemCount messages)).filter nonSystem = (messages.take n).filter nonSystem := by
  have hnone : ((messages.take n).take (leadingSystemCount messages)).filter nonSystem = [] := by
    rw [List.take_take, Nat.min_eq_left hn, List.filter_eq_nil_iff]
    intro message hmessage
    simp [nonSystem, system_of_leading hmessage]
  conv_rhs => rw [← List.take_append_drop (leadingSystemCount messages) (messages.take n), List.filter_append, hnone]
  rfl

theorem markers_drop {messages : List RequestMessage} {k : Nat}
    (h : (messages.take k).all (fun message => visionMarkerCount message.content = 0) = true) :
    markers (messages.drop k) = markers messages := by
  have hzero : markers (messages.take k) = 0 := by
    refine List.sum_eq_zero fun n hn => ?_
    obtain ⟨message, hmessage, rfl⟩ := List.mem_map.mp hn
    exact of_decide_eq_true (List.all_eq_true.mp h message hmessage)
  have hsplit : markers messages = markers (messages.take k) + markers (messages.drop k) := by
    rw [markers, markers, markers, ← List.sum_append, ← List.map_append, List.take_append_drop]
  omega

/-! The session that is continued. -/

/-- `skip` in `handle_chat_completions`: the messages of the request that the session has already. -/
def continuationSkip (session : PublicSession) (request : ChatRequest) : Nat :=
  let previous := session.transcript.messages.length
  let previousSystem := leadingSystemCount session.transcript.messages
  let currentSystem := leadingSystemCount request.messages
  if previousSystem ≤ currentSystem then previous + (currentSystem - previousSystem)
  else previous - (previousSystem - currentSystem)

theorem continuationSkip_eq (session : PublicSession) (request : ChatRequest) :
    continuationSkip session request = leadingSystemCount request.messages +
      (session.transcript.messages.length - leadingSystemCount session.transcript.messages) := by
  have hle := leadingSystemCount_le session.transcript.messages
  simp only [continuationSkip]
  split <;> omega

structure Continued (session : PublicSession) (request : ChatRequest) : Prop where
  skip_le : continuationSkip session request ≤ request.messages.length
  behind : List.Forall₂ SameMessage
    (session.transcript.messages.drop (leadingSystemCount session.transcript.messages))
    ((request.messages.take (continuationSkip session request)).drop (leadingSystemCount request.messages))
  stored_markers : markers session.transcript.messages = session.media.length
  request_markers : markers (request.messages.take (continuationSkip session request)) = session.media.length
  media : session.media <+: request.media

theorem continued_of_prefix {session : PublicSession} {request : ChatRequest}
    (h : publicSessionPrefix session request = true) : Continued session request := by
  simp only [publicSessionPrefix, Bool.and_eq_true, decide_eq_true_eq] at h
  obtain ⟨⟨⟨⟨⟨-, -⟩, hcount⟩, holdMarkers⟩, hnewMarkers⟩, hloop⟩ := h
  obtain ⟨hsame, hlast, hpaired⟩ := prefixFrom_some hloop
  have hskip := continuationSkip_eq session request
  have hcurrent := leadingSystemCount_le request.messages
  have hbehind : List.Forall₂ SameMessage
      (session.transcript.messages.drop (leadingSystemCount session.transcript.messages))
      ((request.messages.take (continuationSkip session request)).drop (leadingSystemCount request.messages)) := by
    rw [List.drop_take, hskip, Nat.add_sub_cancel_left, List.forall₂_iff_zip]
    refine ⟨by simp only [List.length_drop, List.length_take]; omega, fun {old current} hmem => hsame (old, current) ?_⟩
    obtain ⟨i, hi⟩ := List.mem_iff_getElem?.mp hmem
    obtain ⟨hold, hnew⟩ := List.getElem?_zip_eq_some.mp hi
    rw [List.getElem?_take, Option.ite_none_right_eq_some] at hnew
    exact List.mem_of_getElem? (List.getElem?_zip_eq_some.mpr ⟨hold, hnew.2⟩)
  have hstored : markers session.transcript.messages = session.media.length := by
    rw [← markers_drop holdMarkers, hlast, List.map_fst_zip, Nat.zero_add]
    simp only [List.length_drop]
    exact hcount
  refine ⟨by omega, hbehind, hstored, ?_, ?_⟩
  · rw [← hstored, ← markers_drop holdMarkers, markers_same hbehind, markers_drop]
    rw [List.take_take, Nat.min_eq_left (by omega)]
    exact hnewMarkers
  · refine List.prefix_iff_getElem?.mpr fun j hj => ?_
    obtain ⟨-, -, heq⟩ := hpaired j (Nat.zero_le j) hj
    rw [← heq, List.getElem?_eq_getElem hj]

theorem Continued.nonSystem_same {session : PublicSession} {request : ChatRequest} (h : Continued session request) :
    List.Forall₂ SameMessage (session.transcript.messages.filter nonSystem)
      ((request.messages.take (continuationSkip session request)).filter nonSystem) := by
  have hstored := filter_nonSystem_drop session.transcript.messages (leadingSystemCount_le session.transcript.messages)
  rw [List.take_length] at hstored
  rw [← hstored, ← filter_nonSystem_drop request.messages (by rw [continuationSkip_eq]; exact Nat.le_add_right _ _)]
  refine List.rel_filter (fun left right hsame => ?_) h.behind
  simp only [nonSystem, hsame.role]

theorem publicSessionPrefix_sound :
    (Equivalence fun left right => apiContentEqual left right = true) ∧
    ∀ (session : PublicSession) (request : ChatRequest), publicSessionPrefix session request = true →
      continuationSkip session request ≤ request.messages.length ∧
      List.Forall₂ SameMessage (session.transcript.messages.filter nonSystem)
        ((request.messages.take (continuationSkip session request)).filter nonSystem) ∧
      List.Forall₂ SameMessage
        (session.transcript.messages.drop (leadingSystemCount session.transcript.messages))
        ((request.messages.take (continuationSkip session request)).drop (leadingSystemCount request.messages)) ∧
      markers session.transcript.messages = session.media.length ∧
      markers (request.messages.take (continuationSkip session request)) = session.media.length ∧
      session.media <+: request.media := by
  constructor
  · simp only [apiContentEqual_iff]
    exact sameContent_equivalence
  · intro session request h
    have hcontinued := continued_of_prefix h
    exact ⟨hcontinued.skip_le, hcontinued.nonSystem_same, hcontinued.behind, hcontinued.stored_markers,
      hcontinued.request_markers, hcontinued.media⟩

def remarked : PublicSession :=
  ⟨⟨[user "q", ⟨ascii "system", ascii "<|vision_start|><|image_pad|><|vision_end|>", [], []⟩, assistant "a"], []⟩,
    [⟨1, []⟩], true⟩

def followed : ChatRequest := ⟨remarked.transcript.messages ++ [user "r"], remarked.media⟩

theorem publicSessionPrefix_sound_followed :
    continuationSkip remarked followed ≤ followed.messages.length ∧
    markers (followed.messages.take (continuationSkip remarked followed)) = remarked.media.length ∧
    remarked.media <+: followed.media := by
  obtain ⟨hskip, -, -, -, hmarkers, hmedia⟩ := publicSessionPrefix_sound.2 remarked followed (by decide +kernel)
  exact ⟨hskip, hmarkers, hmedia⟩

/-- Its marker is counted with those of the other messages. -/
theorem publicSessionPrefix_remarked :
    publicSessionPrefix remarked followed = true ∧ remarked.media.length = 1 ∧
    markers (remarked.transcript.messages.filter nonSystem) = 0 ∧
    markers ((followed.messages.take (continuationSkip remarked followed)).filter nonSystem) = 0 := by
  refine ⟨by decide +kernel, rfl, by decide +kernel, by decide +kernel⟩

end FlashGordon.Route
