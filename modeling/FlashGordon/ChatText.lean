import FlashGordon.Occurs

/-! Texts of the chat renderer (`chat.c`): bytes of strings, blanks, and the way request text reaches a prompt. A
text ends where its list ends; only text that was decoded can hold the byte zero, and is then cut there. -/

namespace FlashGordon.Chat

open Occurs

abbrev Text := List UInt8

def ascii (literal : String) : Text := literal.toList.map fun c => .ofNat c.toNat

def cString (text : Text) : Text := text.takeWhile (· ≠ 0)

/-- `isspace` in the C locale. -/
def isSpace (c : UInt8) : Bool := c == 32 || (9 ≤ c && c ≤ 13)

def isDigit (c : UInt8) : Bool := 48 ≤ c && c ≤ 57

def isHex (c : UInt8) : Bool := isDigit c || (97 ≤ c && c ≤ 102) || (65 ≤ c && c ≤ 70)

def hasTrimmedContent (text : Text) : Bool := text.any fun c => !isSpace c

/-- `valid_qwen_tag_value`: no tag delimiter and no line break. -/
def validQwenTagValue (text : Text) (allowEmpty : Bool) : Bool :=
  (allowEmpty || text ≠ []) && text.all fun c => c ≠ 60 && c ≠ 62 && c ≠ 13 && c ≠ 10

def imStart : Text := ascii "<|im_start|>"

def imEnd : Text := ascii "<|im_end|>"

def visionMarkers : List Text :=
  [ascii "<|vision_start|>", ascii "<|image_pad|>", ascii "<|video_pad|>", ascii "<|vision_end|>"]

def zeroWidth : Text := [0xe2, 0x80, 0x8b]

def allowedMarker (text : Text) : Option Text := visionMarkers.find? fun marker => marker.isPrefixOf text

/-- `buffer_append_text`: a zero-width space goes into every `<|` that begins no vision marker. -/
def appendText : Text → Text
  | [] => []
  | 60 :: 124 :: rest =>
    match allowedMarker (60 :: 124 :: rest) with
    | some marker => marker ++ appendText (rest.drop (marker.length - 2))
    | none => 60 :: 124 :: (zeroWidth ++ appendText rest)
  | c :: rest => c :: appendText rest
termination_by text => text.length

theorem allowedMarker_mem {text marker : Text} (h : allowedMarker text = some marker) : marker ∈ visionMarkers :=
  List.mem_of_find?_eq_some h

theorem visionMarkers_head : ∀ marker ∈ visionMarkers, marker.head? = some 60 := by decide

theorem appendText_head (text : Text) : (appendText text).head? = text.head? := by
  fun_cases appendText text with
  | case1 => rfl
  | case2 rest marker h =>
    rw [List.head?_append, visionMarkers_head marker (allowedMarker_mem h)]
    rfl
  | case3 rest h => rfl
  | case4 c rest h => rfl

def turnMarkers : List Text := [imStart, imEnd]

theorem turnMarkers_begin : ∀ m ∈ turnMarkers, ∃ rest, m = 60 :: 124 :: rest := by
  intro m hm
  simp only [turnMarkers, List.mem_cons, List.not_mem_nil, or_false] at hm
  rcases hm with rfl | rfl
  · exact ⟨_, rfl⟩
  · exact ⟨_, rfl⟩

theorem turnMarkers_vision : ∀ m ∈ turnMarkers, ∀ marker ∈ visionMarkers, ¬Begun m marker ∧ count m marker = 0 := by
  decide

theorem turnMarkers_split : ∀ m ∈ turnMarkers, ¬Begun m (60 :: 124 :: zeroWidth) ∧
    count m (60 :: 124 :: zeroWidth) = 0 := by
  decide

theorem count_appendText {m : Text} (hm : m ∈ turnMarkers) (text : Text) : count m (appendText text) = 0 := by
  fun_induction appendText text with
  | case1 => rfl
  | case2 rest marker h ih =>
    obtain ⟨hbegun, hcount⟩ := turnMarkers_vision m hm marker (allowedMarker_mem h)
    rw [count_append hbegun, hcount, ih]
  | case3 rest h ih =>
    obtain ⟨hbegun, hcount⟩ := turnMarkers_split m hm
    have hsplit : 60 :: 124 :: (zeroWidth ++ appendText rest) = 60 :: 124 :: zeroWidth ++ appendText rest := rfl
    rw [hsplit, count_append hbegun, hcount, ih]
  | case4 c rest h ih =>
    have hnot : ¬m <+: c :: appendText rest := by
      intro hstart
      obtain ⟨tail, rfl⟩ := turnMarkers_begin m hm
      obtain ⟨rfl, hrest⟩ := List.cons_prefix_cons.mp hstart
      have hhead : (appendText rest).head? = some 124 := by
        obtain ⟨more, hmore⟩ := hrest
        rw [← hmore]
        rfl
      rw [appendText_head, List.head?_eq_some_iff] at hhead
      obtain ⟨more, hmore⟩ := hhead
      exact h more rfl hmore
    rw [count, if_neg hnot, ih]

end FlashGordon.Chat
