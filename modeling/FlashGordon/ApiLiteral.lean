import FlashGordon.ApiStream
import FlashGordon.JsonString

/-! Text that leaves through the API (`api.c`), as a string literal or as the deltas of a stream. Both go over the
bytes with `utf8_unit`, keep each unit that is well formed and write a replacement character for what is not; a lead
byte whose unit does not end with the text takes everything behind it along. -/

namespace FlashGordon.Api

open ByteCodec Chat List

variable {first : UInt8}

theorem utf8Need_cases {need bits : Nat} (h : utf8Need first = some (need, bits)) :
    (need = 2 ∧ 0xc2 ≤ first.toNat ∧ first.toNat ≤ 0xdf ∧ bits = first.toNat % 0x20) ∨
    (need = 3 ∧ 0xe0 ≤ first.toNat ∧ first.toNat ≤ 0xef ∧ bits = first.toNat % 0x10) ∨
    (need = 4 ∧ 0xf0 ≤ first.toNat ∧ first.toNat ≤ 0xf4 ∧ bits = first.toNat % 0x08) := by
  simp only [utf8Need, Bool.and_eq_true, decide_eq_true_eq, UInt8.le_iff_toNat_le] at h
  split at h
  · next hrange =>
      obtain ⟨rfl, rfl⟩ := Prod.mk.inj (Option.some.inj h)
      exact .inl ⟨rfl, hrange.1, hrange.2, rfl⟩
  split at h
  · next hrange =>
      obtain ⟨rfl, rfl⟩ := Prod.mk.inj (Option.some.inj h)
      exact .inr (.inl ⟨rfl, hrange.1, hrange.2, rfl⟩)
  split at h
  · next hrange =>
      obtain ⟨rfl, rfl⟩ := Prod.mk.inj (Option.some.inj h)
      exact .inr (.inr ⟨rfl, hrange.1, hrange.2, rfl⟩)
  · cases h

theorem isContinuation_iff {c : UInt8} : isContinuation c = true ↔ 0x80 ≤ c.toNat ∧ c.toNat ≤ 0xbf := by
  simp [isContinuation, UInt8.le_iff_toNat_le]

theorem utf8Range_iff {need code : Nat} : utf8Range need code = true ↔
    (need = 3 → 0x800 ≤ code) ∧ (need = 4 → 0x10000 ≤ code) ∧ code.isValidChar := by
  simp only [utf8Range, Bool.not_eq_true', Bool.or_eq_false_iff, Bool.and_eq_false_iff, decide_eq_false_iff_not,
    Nat.isValidChar]
  omega

variable {rest : Text} {n : Nat}

theorem utf8Unit_valid (h : utf8Unit (first :: rest) = .valid n) :
    first < 0x80 ∧ n = 1 ∨
      ∃ bits, utf8Need first = some (n, bits) ∧ n ≤ rest.length + 1 ∧
        (∀ c ∈ rest.take (n - 1), 0x80 ≤ c.toNat ∧ c.toNat ≤ 0xbf) ∧
        utf8Range n (utf8Code bits (rest.take (n - 1))) = true := by
  rw [utf8Unit] at h
  split at h
  · next hascii => exact .inl ⟨hascii, (Utf8Unit.valid.inj h).symm⟩
  split at h
  · cases h
  next need bits hneed =>
  split at h
  · cases h
  next hlength =>
  split at h
  · next hunit =>
      obtain rfl := Utf8Unit.valid.inj h
      rw [Bool.and_eq_true, all_eq_true] at hunit
      exact .inr ⟨bits, hneed, by omega, fun c hc => isContinuation_iff.mp (hunit.1 c hc), hunit.2⟩
  · cases h

theorem multi_of_not_valid (h : ∀ n, utf8Unit (first :: rest) ≠ .valid n) : 0x80 ≤ first := by
  rw [← UInt8.not_lt]
  intro hascii
  exact h 1 (by rw [utf8Unit, if_pos hascii])

variable {text : Text}

theorem valid_le (h : utf8Unit text = .valid n) : 0 < n ∧ n ≤ text.length := by
  cases text with
  | nil => cases h
  | cons first rest =>
    obtain ⟨-, rfl⟩ | ⟨bits, hneed, hlength, -⟩ := utf8Unit_valid h
    · exact ⟨Nat.one_pos, by simp⟩
    · refine ⟨?_, hlength⟩
      rcases utf8Need_cases hneed with ⟨rfl, -⟩ | ⟨rfl, -⟩ | ⟨rfl, -⟩ <;> decide

theorem exists_char_of_valid (h : utf8Unit text = .valid n) : ∃ c, text.take n = String.utf8EncodeChar c := by
  cases text with
  | nil => cases h
  | cons first rest =>
    obtain ⟨hascii, rfl⟩ | ⟨bits, hneed, hlength, htail, hrange⟩ := utf8Unit_valid h
    · exact ⟨_, (Utf8.encode_one (UInt8.lt_iff_toNat_lt.mp hascii)).symm⟩
    obtain ⟨hlong3, hlong4, hvalid⟩ := utf8Range_iff.mp hrange
    rcases utf8Need_cases hneed with ⟨rfl, hlow, hhigh, rfl⟩ | ⟨rfl, hlow, hhigh, rfl⟩ | ⟨rfl, hlow, hhigh, rfl⟩
    · match rest, hlength with
      | b :: rest, _ => exact ⟨_, (Utf8.encode_two ⟨hlow, hhigh⟩ (htail b (by simp))).symm⟩
      | [], hlength => simp at hlength
    · match rest, hlength with
      | b :: c :: rest, _ =>
        exact ⟨_, (Utf8.encode_three ⟨hlow, hhigh⟩ (htail b (by simp)) (htail c (by simp)) rfl (hlong3 rfl) hvalid).symm⟩
      | [_], hlength => simp at hlength
      | [], hlength => simp at hlength
    · match rest, hlength with
      | b :: c :: d :: rest, _ =>
        exact ⟨_, (Utf8.encode_four ⟨hlow, hhigh⟩ (htail b (by simp)) (htail c (by simp)) (htail d (by simp)) rfl
          (hlong4 rfl) hvalid).symm⟩
      | [_, _], hlength => simp at hlength
      | [_], hlength => simp at hlength
      | [], hlength => simp at hlength

theorem utf8Unit_append (h : utf8Unit text ≠ .incomplete) (more : Text) : utf8Unit (text ++ more) = utf8Unit text := by
  cases text with
  | nil => exact absurd rfl h
  | cons first rest =>
    rw [cons_append]
    simp only [utf8Unit] at h ⊢
    cases hneed : utf8Need first with
    | none => rfl
    | some unit =>
      rw [hneed] at h
      simp only at h ⊢
      split
      · rfl
      · next hascii =>
          rw [if_neg hascii] at h
          have hlength : ¬rest.length + 1 < unit.1 := fun hlt => h (if_pos hlt)
          rw [if_neg hlength, if_neg (by simp; omega), take_append_of_le_length (by omega)]

theorem unfinished_length (h : utf8Unit text = .incomplete) : text.length ≤ 3 := by
  cases text with
  | nil => simp
  | cons first rest =>
    rw [utf8Unit] at h
    split at h
    · cases h
    split at h
    · cases h
    next need bits hneed =>
    split at h
    · next hlength =>
        rcases utf8Need_cases hneed with ⟨rfl, -⟩ | ⟨rfl, -⟩ | ⟨rfl, -⟩ <;> simp <;> omega
    · split at h <;> cases h

/-! Going over a text unit by unit. -/

theorem scan_induction {motive : Text → Prop} (nil : motive [])
    (point : ∀ text n, utf8Unit text = .valid n → motive (text.drop n) → motive text)
    (cut : ∀ first rest, utf8Unit (first :: rest) = .incomplete → motive rest → motive (first :: rest))
    (broken : ∀ first rest, utf8Unit (first :: rest) = .invalid → motive rest → motive (first :: rest)) (text : Text) :
    motive text := by
  induction hlength : text.length using Nat.strong_induction_on generalizing text with
  | _ n ih =>
    cases text with
    | nil => exact nil
    | cons first rest =>
      cases hunit : utf8Unit (first :: rest) with
      | valid bytes =>
        have hbytes := valid_le hunit
        refine point _ bytes hunit (ih _ ?_ _ rfl)
        rw [length_drop]
        omega
      | incomplete => exact cut first rest hunit (ih _ (by simp [← hlength]) rest rfl)
      | invalid => exact broken first rest hunit (ih _ (by simp [← hlength]) rest rfl)

theorem utf8From_succ (fuel : Nat) (h : text.length ≤ fuel) : utf8From (fuel + 1) text = utf8From fuel text := by
  induction fuel generalizing text with
  | zero =>
    obtain rfl := eq_nil_of_length_eq_zero (Nat.le_zero.mp h)
    rfl
  | succ fuel ih =>
    cases text with
    | nil => rfl
    | cons first rest =>
      rw [utf8From, utf8From]
      cases hunit : utf8Unit (first :: rest) with
      | valid bytes =>
        have hbytes := valid_le hunit
        simp only
        rw [ih (by simp at h ⊢; omega)]
      | incomplete => rfl
      | invalid => simp only [ih (Nat.le_of_succ_le_succ h)]

theorem utf8From_fuel (fuel : Nat) (h : text.length ≤ fuel) : utf8From fuel text = utf8Text text := by
  induction fuel, h using Nat.le_induction with
  | base => rfl
  | succ fuel h ih => rw [utf8From_succ fuel h, ih]

theorem utf8Text_point (h : utf8Unit text = .valid n) :
    utf8Text text = (text.take n ++ (utf8Text (text.drop n)).1, (utf8Text (text.drop n)).2) := by
  have hbytes := valid_le h
  obtain ⟨first, rest, rfl⟩ := exists_cons_of_length_pos (l := text) (by omega)
  rw [utf8Text, length_cons, utf8From, h, ← utf8From_fuel rest.length (by simp; omega)]

theorem utf8Text_cut (h : utf8Unit (first :: rest) = .incomplete) : utf8Text (first :: rest) = ([], first :: rest) := by
  rw [utf8Text, length_cons, utf8From, h]

theorem utf8Text_broken (h : utf8Unit (first :: rest) = .invalid) :
    utf8Text (first :: rest) = (replacement ++ (utf8Text rest).1, (utf8Text rest).2) := by
  rw [utf8Text, length_cons, utf8From, h]
  rfl

theorem utf8Text_append (text more : Text) :
    utf8Text (text ++ more) =
      ((utf8Text text).1 ++ (utf8Text ((utf8Text text).2 ++ more)).1, (utf8Text ((utf8Text text).2 ++ more)).2) := by
  induction text using scan_induction with
  | nil => rfl
  | point text n hunit ih =>
    have hwhole : utf8Unit (text ++ more) = .valid n := by rw [utf8Unit_append (by simp [hunit]), hunit]
    have hn := (valid_le hunit).2
    rw [utf8Text_point hwhole, utf8Text_point hunit, take_append_of_le_length hn, drop_append_of_le_length hn,
      ih, append_assoc]
  | cut first rest hunit => rw [utf8Text_cut hunit, nil_append]
  | broken first rest hunit ih =>
    have hwhole : utf8Unit (first :: (rest ++ more)) = .invalid := by
      rw [← cons_append, utf8Unit_append (by simp [hunit]), hunit]
    rw [cons_append, utf8Text_broken hwhole, utf8Text_broken hunit, ih, append_assoc]

/-- What the scan of a text leaves through, the end of the text included. -/
def flushed (text : Text) : Text := (utf8Text text).1 ++ if (utf8Text text).2 = [] then [] else replacement

theorem flushed_point (h : utf8Unit text = .valid n) : flushed text = text.take n ++ flushed (text.drop n) := by
  rw [flushed, utf8Text_point h, flushed, append_assoc]

theorem flushed_cut (h : utf8Unit (first :: rest) = .incomplete) : flushed (first :: rest) = replacement := by
  rw [flushed, utf8Text_cut h]
  rfl

theorem flushed_broken (h : utf8Unit (first :: rest) = .invalid) :
    flushed (first :: rest) = replacement ++ flushed rest := by
  rw [flushed, utf8Text_broken h, flushed, append_assoc]

theorem encoded_replacement : Utf8.Encoded replacement := Utf8.encoded_char (Char.ofNat 0xfffd)

theorem encoded_flushed (text : Text) : Utf8.Encoded (flushed text) := by
  induction text using scan_induction with
  | nil => exact Utf8.encoded_nil
  | point text n hunit ih =>
    obtain ⟨c, hc⟩ := exists_char_of_valid hunit
    rw [flushed_point hunit, hc]
    exact (Utf8.encoded_char c).append ih
  | cut first rest hunit =>
    rw [flushed_cut hunit]
    exact encoded_replacement
  | broken first rest hunit ih =>
    rw [flushed_broken hunit]
    exact encoded_replacement.append ih

/-- The well-formed units of a text from left to right, with so many bytes to skip first. -/
def codePointsFrom : Nat → Text → List Text
  | _, [] => []
  | skip + 1, _ :: rest => codePointsFrom skip rest
  | 0, first :: rest =>
    match utf8Unit (first :: rest) with
    | .valid n => (first :: rest).take n :: codePointsFrom (n - 1) rest
    | _ => codePointsFrom 0 rest

/-- The well-formed units of a text; behind a byte that begins none the scan goes on with the next byte. -/
def codePoints (text : Text) : List Text := codePointsFrom 0 text

theorem codePointsFrom_eq (skip : Nat) (text : Text) : codePointsFrom skip text = codePoints (text.drop skip) := by
  induction skip generalizing text with
  | zero => rfl
  | succ skip ih =>
    cases text with
    | nil => simp [codePoints, codePointsFrom]
    | cons first rest => exact ih rest

theorem codePoints_point (h : utf8Unit text = .valid n) :
    codePoints text = text.take n :: codePoints (text.drop n) := by
  have hbytes := valid_le h
  obtain ⟨first, rest, rfl⟩ := exists_cons_of_length_pos (l := text) (by omega)
  obtain ⟨n, rfl⟩ := Nat.exists_eq_succ_of_ne_zero (n := n) (by omega)
  rw [codePoints, codePointsFrom, h]
  simp only [codePointsFrom_eq, Nat.add_sub_cancel, Nat.succ_eq_add_one, drop_succ_cons]

theorem codePoints_next (h : ∀ n, utf8Unit (first :: rest) ≠ .valid n) :
    codePoints (first :: rest) = codePoints rest := by
  rw [codePoints, codePointsFrom]
  split
  · next n hunit => exact absurd hunit (h n)
  · rfl

/-- A part of a text: a unit that is kept, or bytes that are replaced. -/
inductive Piece where
  | point (bytes : Text)
  | broken (bytes : Text)

def Piece.bytes : Piece → Text
  | .point bytes => bytes
  | .broken bytes => bytes

def Piece.shown : Piece → Text
  | .point bytes => bytes
  | .broken _ => replacement

def Piece.point? : Piece → Option Text
  | .point bytes => some bytes
  | .broken _ => none

/-- The text with each of its well-formed units kept, in their order, and a replacement character for each part
between them. -/
def Sanitised (text shown : Text) : Prop :=
  ∃ pieces : List Piece, pieces.flatMap Piece.bytes = text ∧ pieces.flatMap Piece.shown = shown ∧
    (∀ bytes, .broken bytes ∈ pieces → bytes ≠ []) ∧ pieces.filterMap Piece.point? = codePoints text

inductive Reached : Text → Text → Prop
  | here (text : Text) : Reached text text
  | point {text rest : Text} {n : Nat} (hunit : utf8Unit text = .valid n) (h : Reached (text.drop n) rest) :
      Reached text rest
  | broken {first : UInt8} {text rest : Text} (hunit : utf8Unit (first :: text) = .invalid) (h : Reached text rest) :
      Reached (first :: text) rest

/-- No well-formed unit stands behind a lead byte whose unit would end behind the end of the text. -/
def NothingBehindCut (text : Text) : Prop :=
  ∀ rest, Reached text rest → utf8Unit rest = .incomplete → codePoints rest = []

theorem reached_kept (text : Text) : Reached text (utf8Text text).2 ∧ utf8Unit (utf8Text text).2 = .incomplete := by
  induction text using scan_induction with
  | nil => exact ⟨.here [], rfl⟩
  | point text n hunit ih =>
    rw [utf8Text_point hunit]
    exact ⟨.point hunit ih.1, ih.2⟩
  | cut first rest hunit =>
    rw [utf8Text_cut hunit]
    exact ⟨.here _, hunit⟩
  | broken first rest hunit ih =>
    rw [utf8Text_broken hunit]
    exact ⟨.broken hunit ih.1, ih.2⟩

theorem Reached.eq_kept {text rest : Text} (h : Reached text rest) (hrest : utf8Unit rest = .incomplete) :
    rest = (utf8Text text).2 := by
  induction h with
  | here text =>
    cases text with
    | nil => rfl
    | cons first rest => rw [utf8Text_cut hrest]
  | point hunit _ ih => rw [utf8Text_point hunit, ih hrest]
  | broken hunit _ ih => rw [utf8Text_broken hunit, ih hrest]

theorem nothingBehindCut_iff : NothingBehindCut text ↔ codePoints (utf8Text text).2 = [] := by
  constructor
  · intro h
    exact h _ (reached_kept text).1 (reached_kept text).2
  · intro h rest hreached hrest
    rw [hreached.eq_kept hrest, h]

theorem sanitised_flushed (h : codePoints (utf8Text text).2 = []) : Sanitised text (flushed text) := by
  induction text using scan_induction with
  | nil => exact ⟨[], rfl, rfl, nofun, rfl⟩
  | point text n hunit ih =>
    rw [utf8Text_point hunit] at h
    obtain ⟨pieces, hbytes, hshown, hbroken, hpoints⟩ := ih h
    refine ⟨.point (text.take n) :: pieces, ?_, ?_, fun bytes hmem => ?_, ?_⟩
    · rw [flatMap_cons, hbytes, Piece.bytes, take_append_drop]
    · rw [flatMap_cons, hshown, flushed_point hunit, Piece.shown]
    · cases hmem with
      | tail _ hmem => exact hbroken bytes hmem
    · rw [codePoints_point hunit, ← hpoints]
      rfl
  | cut first rest hunit =>
    rw [utf8Text_cut hunit] at h
    refine ⟨[.broken (first :: rest)], by simp [Piece.bytes], by simp [Piece.shown, flushed_cut hunit], ?_, h.symm⟩
    intro bytes hmem
    obtain rfl := Piece.broken.inj (mem_singleton.mp hmem)
    exact cons_ne_nil _ _
  | broken first rest hunit ih =>
    rw [utf8Text_broken hunit] at h
    obtain ⟨pieces, hbytes, hshown, hbroken, hpoints⟩ := ih h
    refine ⟨.broken [first] :: pieces, ?_, ?_, fun bytes hmem => ?_, ?_⟩
    · rw [flatMap_cons, hbytes]
      rfl
    · rw [flatMap_cons, hshown, flushed_broken hunit, Piece.shown]
    · cases hmem with
      | head => exact cons_ne_nil _ _
      | tail _ hmem => exact hbroken bytes hmem
    · rw [filterMap_cons_none rfl, hpoints, codePoints_next (by simp [hunit])]

/-! What a cut takes along is missing. Bytes below `0xe0` that are no continuation bytes are counted: a replacement
character has none, a unit that fits in two bytes has one. -/

def shortLead (c : UInt8) : Bool := c < 0x80 || (0xc0 ≤ c && c ≤ 0xdf)

def leads (text : Text) : Nat := text.countP shortLead

theorem leads_append (xs ys : Text) : leads (xs ++ ys) = leads xs + leads ys := countP_append

theorem leads_replacement : leads replacement = 0 := by decide

theorem Sanitised.leads_eq {text shown : Text} (h : Sanitised text shown) :
    leads shown = ((codePoints text).map leads).sum := by
  obtain ⟨pieces, -, rfl, -, hpoints⟩ := h
  rw [← hpoints]
  clear hpoints
  induction pieces with
  | nil => rfl
  | cons piece pieces ih =>
    rw [flatMap_cons, leads_append, ih]
    cases piece with
    | point bytes => rfl
    | broken bytes =>
      rw [Piece.shown, leads_replacement, Nat.zero_add, filterMap_cons_none rfl]

theorem leads_flushed (text : Text) :
    leads (flushed text) + ((codePoints (utf8Text text).2).map leads).sum = ((codePoints text).map leads).sum := by
  induction text using scan_induction with
  | nil => rfl
  | point text n hunit ih =>
    rw [flushed_point hunit, utf8Text_point hunit, codePoints_point hunit, leads_append, map_cons, sum_cons,
      ← ih, Nat.add_assoc]
  | cut first rest hunit => rw [flushed_cut hunit, utf8Text_cut hunit, leads_replacement, Nat.zero_add]
  | broken first rest hunit ih =>
    rw [flushed_broken hunit, utf8Text_broken hunit, codePoints_next (by simp [hunit]), leads_append, leads_replacement,
      Nat.zero_add, ih]

theorem leads_pos (h : utf8Unit text = .valid n) (hn : n ≤ 2) : 0 < leads (text.take n) := by
  have hbytes := valid_le h
  obtain ⟨first, rest, rfl⟩ := exists_cons_of_length_pos (l := text) (by omega)
  obtain ⟨n, rfl⟩ := Nat.exists_eq_succ_of_ne_zero (n := n) (by omega)
  have hlead : shortLead first = true := by
    simp only [shortLead, Bool.or_eq_true, Bool.and_eq_true, decide_eq_true_eq, UInt8.lt_iff_toNat_lt,
      UInt8.le_iff_toNat_le]
    obtain ⟨hascii, -⟩ | ⟨bits, hneed, -⟩ := utf8Unit_valid h
    · exact .inl (UInt8.lt_iff_toNat_lt.mp hascii)
    · obtain ⟨-, hlow, hhigh, -⟩ | ⟨hthree, -⟩ | ⟨hfour, -⟩ := utf8Need_cases hneed
      · exact .inr ⟨le_trans (by decide) hlow, hhigh⟩
      · omega
      · omega
  rw [take_succ_cons, leads, countP_cons_of_pos hlead]
  exact Nat.succ_pos _

theorem leads_codePoints (hlength : text.length ≤ 2) (h : ((codePoints text).map leads).sum = 0) :
    codePoints text = [] := by
  induction text using scan_induction with
  | nil => rfl
  | point text n hunit _ =>
    rw [codePoints_point hunit, map_cons, sum_cons] at h
    have hpos := leads_pos hunit ((valid_le hunit).2.trans hlength)
    omega
  | cut first rest hunit ih =>
    rw [codePoints_next (by simp [hunit])] at h ⊢
    exact ih (by simp at hlength; omega) h
  | broken first rest hunit ih =>
    rw [codePoints_next (by simp [hunit])] at h ⊢
    exact ih (by simp at hlength; omega) h

theorem sanitised_flushed_iff (text : Text) : Sanitised text (flushed text) ↔ NothingBehindCut text := by
  rw [nothingBehindCut_iff]
  refine ⟨fun h => ?_, sanitised_flushed⟩
  have hsum := leads_flushed text
  rw [h.leads_eq] at hsum
  have hkept := (reached_kept text).2
  cases hrest : (utf8Text text).2 with
  | nil => rfl
  | cons first rest =>
    rw [hrest] at hkept hsum
    have hlength := unfinished_length hkept
    rw [codePoints_next (by simp [hkept])] at hsum ⊢
    exact leads_codePoints (by simp at hlength; omega) (by omega)

def lowerHex (n : Nat) : UInt8 := UInt8.ofNat (if n < 10 then 48 + n else 87 + n)

/-- The switch of `buffer_append_json_string`. -/
def jsonLetter (c : UInt8) : Text :=
  if c = 34 then ascii "\\\""
  else if c = 92 then ascii "\\\\"
  else if c = 8 then ascii "\\b"
  else if c = 12 then ascii "\\f"
  else if c = 10 then ascii "\\n"
  else if c = 13 then ascii "\\r"
  else if c = 9 then ascii "\\t"
  else if c < 0x20 then ascii "\\u00" ++ [lowerHex (c.toNat / 16), lowerHex (c.toNat % 16)]
  else [c]

/-- The loop of `buffer_append_json_string`. -/
def literalFrom : Nat → Text → Text
  | 0, _ => []
  | _ + 1, [] => []
  | fuel + 1, c :: rest =>
    if 0x80 ≤ c then
      match utf8Unit (c :: rest) with
      | .valid unit => (c :: rest).take unit ++ literalFrom fuel ((c :: rest).drop unit)
      | .incomplete => replacement
      | .invalid => replacement ++ literalFrom fuel rest
    else jsonLetter c ++ literalFrom fuel rest

def bufferAppendJsonString (text : Text) : Text := ascii "\"" ++ literalFrom text.length text ++ ascii "\""

theorem jsonLetter_chars {c : UInt8} (h : c < 0x80) : Json.Chars (jsonLetter c) [c] := by
  have hshort (letter byte : UInt8) (hmem : (letter, byte) ∈ Json.shortEscapes) : Json.Chars [92, letter] [byte] :=
    .short hmem .nil
  rw [jsonLetter]
  split
  · next hc => exact hc ▸ hshort 34 34 (by decide)
  split
  · next hc => exact hc ▸ hshort 92 92 (by decide)
  split
  · next hc => exact hc ▸ hshort 98 8 (by decide)
  split
  · next hc => exact hc ▸ hshort 102 12 (by decide)
  split
  · next hc => exact hc ▸ hshort 110 10 (by decide)
  split
  · next hc => exact hc ▸ hshort 114 13 (by decide)
  split
  · next hc => exact hc ▸ hshort 116 9 (by decide)
  split
  · next hcontrol =>
      have hdigits : ∀ n < 32, Json.hexNumber [48, 48, lowerHex (n / 16), lowerHex (n % 16)] = some n := by decide
      have hn := UInt8.lt_iff_toNat_lt.mp hcontrol
      have hunicode := Json.Chars.unicode (hdigits c.toNat hn) (.inl (by simp at hn; omega)) .nil
      rw [Utf8.encode_one (UInt8.lt_iff_toNat_lt.mp h)] at hunicode
      exact hunicode
  · next hquote hescape _ _ _ _ _ hcontrol => exact .plain (UInt8.not_lt.mp hcontrol) hquote hescape .nil

theorem encoded_ascii (h : ∀ c ∈ text, c < 0x80) : Utf8.Encoded text := by
  have hbytes : text.flatMap (fun c => [c]) = text := by simp
  rw [← hbytes]
  refine Utf8.Encoded.flatMap fun c hc => ?_
  rw [← Utf8.encode_one (UInt8.lt_iff_toNat_lt.mp (h c hc))]
  exact Utf8.encoded_char _

theorem jsonLetter_ascii : ∀ n < 0x80, ∀ c ∈ jsonLetter (UInt8.ofNat n), c < 0x80 := by
  have hall : ∀ n < 0x80, (jsonLetter (UInt8.ofNat n)).all (· < 0x80) = true := by decide +kernel
  exact fun n hn c hc => of_decide_eq_true (all_eq_true.mp (hall n hn) c hc)

structure Written (body meaning : Text) : Prop where
  chars : Json.Chars body meaning
  encoded : Utf8.Encoded body

theorem written_letter {c : UInt8} (h : c < 0x80) : Written (jsonLetter c) [c] := by
  refine ⟨jsonLetter_chars h, encoded_ascii ?_⟩
  have hall := jsonLetter_ascii c.toNat (UInt8.lt_iff_toNat_lt.mp h)
  rwa [UInt8.ofNat_toNat] at hall

theorem Written.append {body meaning body' meaning' : Text} (h : Written body meaning) (h' : Written body' meaning') :
    Written (body ++ body') (meaning ++ meaning') :=
  ⟨h.chars.append h'.chars, h.encoded.append h'.encoded⟩

theorem written_replacement : Written replacement replacement := by
  have hall : replacement.all (0x80 ≤ ·) = true := by decide
  exact ⟨Json.chars_plain fun c hc => of_decide_eq_true (all_eq_true.mp hall c hc), encoded_replacement⟩

theorem written_unit (hfirst : 0x80 ≤ first)
    (h : utf8Unit (first :: rest) = .valid n) : Written ((first :: rest).take n) ((first :: rest).take n) := by
  constructor
  · refine Json.chars_plain fun c hc => ?_
    have hn := (valid_le h).1
    obtain ⟨n, rfl⟩ := Nat.exists_eq_succ_of_ne_zero (n := n) (by omega)
    obtain rfl | hc := mem_cons.mp hc
    · exact hfirst
    · obtain ⟨hascii, -⟩ | ⟨bits, -, -, htail, -⟩ := utf8Unit_valid h
      · exact absurd hfirst (UInt8.not_le.mpr hascii)
      · exact UInt8.le_iff_toNat_le.mpr (htail c hc).1
  · obtain ⟨c, hc⟩ := exists_char_of_valid h
    exact hc ▸ Utf8.encoded_char c

theorem literalFrom_written {fuel : Nat} (hfuel : text.length ≤ fuel) :
    Written (literalFrom fuel text) (flushed text) := by
  induction text using scan_induction generalizing fuel with
  | nil =>
    rw [show literalFrom fuel [] = [] by cases fuel <;> rfl]
    exact ⟨.nil, Utf8.encoded_nil⟩
  | point text n hunit ih =>
    have hbytes := valid_le hunit
    obtain ⟨first, rest, rfl⟩ := exists_cons_of_length_pos (l := text) (by omega)
    obtain ⟨fuel, rfl⟩ := Nat.exists_eq_succ_of_ne_zero (n := fuel) (by simp at hfuel; omega)
    rw [literalFrom, flushed_point hunit]
    split
    · next hfirst =>
        simp only [hunit]
        exact (written_unit hfirst hunit).append (ih (by simp at hfuel ⊢; omega))
    · next hascii =>
        have hone : utf8Unit (first :: rest) = .valid 1 := by rw [utf8Unit, if_pos (UInt8.not_le.mp hascii)]
        obtain rfl := Utf8Unit.valid.inj (hunit.symm.trans hone)
        exact (written_letter (UInt8.not_le.mp hascii)).append (ih (by simpa using hfuel))
  | cut first rest hunit =>
    obtain ⟨fuel, rfl⟩ := Nat.exists_eq_succ_of_ne_zero (n := fuel) (by simp at hfuel; omega)
    rw [literalFrom, flushed_cut hunit, if_pos (multi_of_not_valid fun n hn => nomatch hunit.symm.trans hn)]
    simp only [hunit]
    exact written_replacement
  | broken first rest hunit ih =>
    obtain ⟨fuel, rfl⟩ := Nat.exists_eq_succ_of_ne_zero (n := fuel) (by simp at hfuel; omega)
    rw [literalFrom, flushed_broken hunit, if_pos (multi_of_not_valid fun n hn => nomatch hunit.symm.trans hn)]
    simp only [hunit]
    exact written_replacement.append (ih (by simpa using hfuel))

def LiteralSound (text : Text) : Prop :=
  ∃ body meaning, bufferAppendJsonString text = ascii "\"" ++ body ++ ascii "\"" ∧ Json.Chars body meaning ∧
    Utf8.Encoded (bufferAppendJsonString text) ∧ Sanitised text meaning

theorem literalSound_iff (text : Text) : LiteralSound text ↔ NothingBehindCut text := by
  have hwritten := literalFrom_written (le_refl text.length)
  rw [← sanitised_flushed_iff]
  constructor
  · rintro ⟨body, meaning, hbody, hchars, -, hsanitised⟩
    have heq : literalFrom text.length text = body :=
      append_cancel_left (append_cancel_right hbody)
    rw [← heq] at hchars
    exact hwritten.chars.unique hchars ▸ hsanitised
  · intro hsanitised
    refine ⟨_, _, rfl, hwritten.chars, ?_, hsanitised⟩
    have hquote : Utf8.Encoded (ascii "\"") :=
      encoded_ascii fun c hc => (mem_singleton.mp hc).symm ▸ (by decide : (34 : UInt8) < 0x80)
    exact (hquote.append hwritten.encoded).append hquote

def Channel.sendAll (channel : Channel) (pieces : List Text) : Except Error Channel := pieces.foldlM Channel.send channel

def DeltasSound (pieces : List Text) : Prop :=
  ∃ channel, Channel.sendAll emptyChannel pieces = .ok channel ∧ Utf8.Encoded channel.close.sent ∧
    Sanitised pieces.flatten channel.close.sent

/-- No piece together with the unfinished unit before it is larger than the buffer. -/
def PiecesFit (pieces : List Text) : Prop :=
  ∀ front piece back, pieces = front ++ piece :: back → ∀ rest, Reached front.flatten rest →
    utf8Unit rest = .incomplete → rest.length + piece.length ≤ combinedBytes

def Channel.After (channel : Channel) (text : Text) : Prop := channel = ⟨(utf8Text text).1, (utf8Text text).2⟩

theorem Channel.After.push {channel : Channel} (h : channel.After text) (piece : Text) :
    (channel.push piece).After (text ++ piece) := by
  obtain rfl := h
  rw [Channel.After, Channel.push, utf8Text_append text piece]

theorem Channel.After.close_sent {channel : Channel} (h : channel.After text) : channel.close.sent = flushed text := by
  obtain rfl := h
  rw [Channel.close, flushed]
  split <;> simp

def FitFrom (text : Text) (pieces : List Text) : Prop :=
  ∀ front piece back, pieces = front ++ piece :: back →
    (utf8Text (text ++ front.flatten)).2.length + piece.length ≤ combinedBytes

theorem fitFrom_cons {text piece : Text} {pieces : List Text} : FitFrom text (piece :: pieces) ↔
    (utf8Text text).2.length + piece.length ≤ combinedBytes ∧ FitFrom (text ++ piece) pieces := by
  constructor
  · intro h
    refine ⟨by simpa using h [] piece pieces rfl, fun front next back hpieces => ?_⟩
    have hnext := h (piece :: front) next back (by rw [hpieces, cons_append])
    rwa [flatten_cons, ← append_assoc] at hnext
  · rintro ⟨hfirst, hrest⟩ front next back hpieces
    cases front with
    | nil =>
      obtain ⟨rfl, -⟩ := List.cons.inj hpieces
      simpa using hfirst
    | cons other front =>
      obtain ⟨rfl, hbehind⟩ := List.cons.inj hpieces
      rw [flatten_cons, ← append_assoc]
      exact hrest front next back hbehind

theorem piecesFit_iff {pieces : List Text} : PiecesFit pieces ↔ FitFrom [] pieces := by
  constructor
  · intro h front piece back hpieces
    exact h front piece back hpieces _ (reached_kept front.flatten).1 (reached_kept front.flatten).2
  · intro h front piece back hpieces rest hreached hrest
    rw [hreached.eq_kept hrest]
    exact h front piece back hpieces

theorem Channel.After.send {channel : Channel} (h : channel.After text) (piece : Text) :
    channel.send piece =
      if (utf8Text text).2.length + piece.length ≤ combinedBytes then .ok (channel.push piece) else .error overflow := by
  have hkept : channel.kept = (utf8Text text).2 := by rw [h]
  rw [Channel.send, hkept]
  by_cases hfits : (utf8Text text).2.length + piece.length ≤ combinedBytes
  · rw [if_pos hfits, if_neg (Nat.not_lt.mpr hfits)]
  · rw [if_neg hfits, if_pos (Nat.not_le.mp hfits)]

theorem Channel.After.sendAll {channel : Channel} (h : channel.After text) (pieces : List Text) :
    (FitFrom text pieces → ∃ last, channel.sendAll pieces = .ok last ∧ last.After (text ++ pieces.flatten)) ∧
      (¬FitFrom text pieces → channel.sendAll pieces = .error overflow) := by
  induction pieces generalizing channel text with
  | nil =>
    refine ⟨fun _ => ⟨channel, rfl, by simpa using h⟩, fun hnot => absurd ?_ hnot⟩
    intro front piece back hpieces
    simp at hpieces
  | cons piece pieces ih =>
    obtain ⟨hok, herror⟩ := ih (h.push piece)
    rw [fitFrom_cons, flatten_cons, ← append_assoc, Channel.sendAll, foldlM_cons, h.send]
    by_cases hfits : (utf8Text text).2.length + piece.length ≤ combinedBytes
    · rw [if_pos hfits]
      exact ⟨fun hfit => hok hfit.2, fun hnot => herror fun hrest => hnot ⟨hfits, hrest⟩⟩
    · rw [if_neg hfits]
      exact ⟨fun hfit => absurd hfit.1 hfits, fun _ => rfl⟩

theorem deltasSound_iff (pieces : List Text) :
    DeltasSound pieces ↔ PiecesFit pieces ∧ NothingBehindCut pieces.flatten := by
  rw [piecesFit_iff, ← sanitised_flushed_iff]
  have hempty : emptyChannel.After [] := rfl
  obtain ⟨hok, herror⟩ := hempty.sendAll pieces
  rw [nil_append] at hok
  constructor
  · rintro ⟨channel, hsent, -, hsanitised⟩
    have hfit : FitFrom [] pieces := by
      by_contra hnot
      rw [herror hnot] at hsent
      cases hsent
    obtain ⟨last, hlast, hafter⟩ := hok hfit
    obtain rfl := Except.ok.inj (hsent.symm.trans hlast)
    exact ⟨hfit, hafter.close_sent ▸ hsanitised⟩
  · rintro ⟨hfit, hsanitised⟩
    obtain ⟨last, hlast, hafter⟩ := hok hfit
    rw [← hafter.close_sent] at hsanitised
    exact ⟨last, hlast, hafter.close_sent ▸ encoded_flushed _, hsanitised⟩

/-- The literal and the deltas keep every well-formed unit exactly when the end of the text cuts off no unit with
another one behind its lead byte, and the pieces fit the buffer. -/
theorem sanitising_iff (text : Text) (pieces : List Text) :
    (LiteralSound text ↔ NothingBehindCut text) ∧
      (DeltasSound pieces ↔ PiecesFit pieces ∧ NothingBehindCut pieces.flatten) :=
  ⟨literalSound_iff text, deltasSound_iff pieces⟩

/-- A lead byte of three and a letter: the letter is lost. -/
theorem sanitising_lost :
    bufferAppendJsonString [0xe2, 97] = ascii "\"" ++ replacement ++ ascii "\"" ∧ ¬LiteralSound [0xe2, 97] ∧
      Channel.sendAll emptyChannel [[0xe2, 97]] = .ok ⟨[], [0xe2, 97]⟩ ∧ ¬DeltasSound [[0xe2, 97]] := by
  have hcut : ¬NothingBehindCut [0xe2, 97] := fun h => absurd (h _ (.here _) (by decide)) (by decide)
  exact ⟨by decide, fun h => hcut ((literalSound_iff _).mp h), by decide, fun h => hcut ((deltasSound_iff _).mp h).2⟩

end FlashGordon.Api
