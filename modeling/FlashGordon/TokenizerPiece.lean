import FlashGordon.Utf8

/-! The pre-tokenizer of `tokenizer.c`, which cuts a text into pieces. Everything it does at an offset depends on the text
from there on only, so that a text here is that rest, and an offset in it counts from its beginning. -/

namespace FlashGordon.Tokenizer

open Utf8 List

abbrev Text := List UInt8

/-- The classes of code points, from the `C.UTF-8` locale. -/
structure Locale where
  iswalpha : Nat → Bool
  iswdigit : Nat → Bool
  iswalnum : Nat → Bool
  iswspace : Nat → Bool

def lead (a : UInt8) : Option (Nat × Nat) :=
  if a &&& 0xe0 = 0xc0 then some ((a &&& 0x1f).toNat, 2)
  else if a &&& 0xf0 = 0xe0 then some ((a &&& 0x0f).toNat, 3)
  else if a &&& 0xf8 = 0xf0 then some ((a &&& 7).toNat, 4)
  else none

def decodeTail : Nat → Text → Option Nat
  | value, [] => some value
  | value, b :: rest =>
    if b &&& 0xc0 ≠ 0x80 then none else decodeTail (value <<< 6 ||| (b &&& 0x3f).toNat) rest

/-- `utf8_decode`: a code point and its bytes. -/
def utf8Decode : Text → Nat × Nat
  | [] => (0, 1)
  | a :: rest =>
    if a < 0x80 then (a.toNat, 1)
    else
      match lead a with
      | none => (0xfffd, 1)
      | some (bits, length) =>
        if rest.length + 1 < length then (0xfffd, 1)
        else
          match decodeTail bits (rest.take (length - 1)) with
          | none => (0xfffd, 1)
          | some value =>
            if (length = 2 ∧ value < 0x80) ∨ (length = 3 ∧ value < 0x800) ∨
                (length = 4 ∧ (value < 0x10000 ∨ 0x10ffff < value)) ∨ (0xd800 ≤ value ∧ value ≤ 0xdfff) then
              (0xfffd, 1)
            else (value, length)

theorem utf8Decode_pos (text : Text) : 0 < (utf8Decode text).2 := by
  unfold utf8Decode
  split
  · exact Nat.one_pos
  next a rest =>
    split
    · exact Nat.one_pos
    split
    · exact Nat.one_pos
    next bits length hlead =>
      have hlength : 0 < length := by
        unfold lead at hlead
        split at hlead
        · cases hlead
          decide
        split at hlead
        · cases hlead
          decide
        split at hlead
        · cases hlead
          decide
        · cases hlead
      split
      · exact Nat.one_pos
      split
      · exact Nat.one_pos
      split
      · exact Nat.one_pos
      · exact hlength

section Classes

variable (locale : Locale)

def codeLetter (code : Nat) : Bool := locale.iswalpha code

def codeNumber (code : Nat) : Bool := locale.iswdigit code || (locale.iswalnum code && !codeLetter locale code)

def codeSpace (code : Nat) : Bool := locale.iswspace code

def codeNewline (code : Nat) : Bool := code = 13 || code = 10

def codeSymbol (code : Nat) : Bool := !codeSpace locale code && !codeLetter locale code && !codeNumber locale code

end Classes

def lower (a : UInt8) : UInt8 := if 65 ≤ a ∧ a ≤ 90 then a - 65 + 97 else a

/-- `'s`, `'t`, `'re`, `'ve`, `'m`, `'ll` and `'d`. -/
def contractions : List Text := [[39, 115], [39, 116], [39, 114, 101], [39, 118, 101], [39, 109], [39, 108, 108], [39, 100]]

def matchContraction (text : Text) : Nat :=
  if text.head? ≠ some 39 then 0
  else
    match contractions.find? fun suffix => (text.take suffix.length).map lower = suffix with
    | some suffix => suffix.length
    | none => 0

/-- The loop of `consume_letters`, which `next_piece` also has for symbols. -/
def consume (p : Nat → Bool) (text : Text) : Nat :=
  if text = [] then 0
  else
    let one := utf8Decode text
    if p one.1 then one.2 + consume p (text.drop one.2) else 0
termination_by text.length
decreasing_by
  have hpos := utf8Decode_pos text
  have hlength := List.length_pos_iff.mpr ‹¬text = []›
  rw [List.length_drop]
  omega

/-- The loop over at most `count` numbers. -/
def consumeUpTo (p : Nat → Bool) : Nat → Text → Nat
  | 0, _ => 0
  | count + 1, text =>
    let one := utf8Decode text
    if text ≠ [] ∧ p one.1 = true then one.2 + consumeUpTo p count (text.drop one.2) else 0

def skipNewlines : Text → Nat
  | [] => 0
  | b :: rest => if b = 13 ∨ b = 10 then 1 + skipNewlines rest else 0

def scanSpaces (locale : Locale) (text : Text) (scan lastNewline : Nat) : Nat × Nat :=
  if text = [] then (scan, lastNewline)
  else
    let one := utf8Decode text
    if codeSpace locale one.1 then
      scanSpaces locale (text.drop one.2) (scan + one.2) (if codeNewline one.1 then scan + one.2 else lastNewline)
    else (scan, lastNewline)
termination_by text.length
decreasing_by
  have hpos := utf8Decode_pos text
  have hlength := List.length_pos_iff.mpr ‹¬text = []›
  rw [List.length_drop]
  omega

/-- What `next_piece` makes of white space at the front. -/
def spacePiece (locale : Locale) (text : Text) (next : Nat) : Nat :=
  let (scan, lastNewline) := scanSpaces locale text 0 0
  if lastNewline ≠ 0 then lastNewline
  else if scan < text.length ∧ next < scan then scan - 1 else scan

def nextPiece (locale : Locale) (text : Text) : Nat :=
  let one := utf8Decode text
  let rest := text.drop one.2
  let second := utf8Decode rest
  if 0 < matchContraction text then matchContraction text
  else if codeLetter locale one.1 then consume (codeLetter locale) text
  else if codeNewline one.1 = false ∧ codeNumber locale one.1 = false ∧ one.2 < text.length ∧
      codeLetter locale second.1 = true then
    one.2 + consume (codeLetter locale) rest
  else if codeNumber locale one.1 then consumeUpTo (codeNumber locale) 3 text
  else
    let (code, next) :=
      if one.1 = 32 ∧ one.2 < text.length ∧ codeSymbol locale second.1 = true then (second.1, one.2 + second.2) else one
    if codeSymbol locale code then
      let position := next + consume (codeSymbol locale) (text.drop next)
      position + skipNewlines (text.drop position)
    else if codeSpace locale code then spacePiece locale text next
    else next

def encode (chars : List Char) : Text := chars.flatMap String.utf8EncodeChar

def code (c : Char) : Nat := c.val.toNat

structure Bound (text : Text) (k : Nat) : Prop where
  le : k ≤ text.length
  before : Encoded (text.take k)
  after : Encoded (text.drop k)

theorem encode_append (front back : List Char) : encode (front ++ back) = encode front ++ encode back :=
  flatMap_append

theorem encode_cons (c : Char) (rest : List Char) : encode (c :: rest) = String.utf8EncodeChar c ++ encode rest := rfl

theorem encoded_encode (chars : List Char) : Encoded (encode chars) := ⟨chars, rfl⟩

theorem bound_encode (front back : List Char) : Bound (encode (front ++ back)) (encode front).length where
  le := by
    rw [encode_append, length_append]
    exact Nat.le_add_right _ _
  before := by
    rw [encode_append, take_left]
    exact encoded_encode front
  after := by
    rw [encode_append, drop_left]
    exact encoded_encode back

theorem Bound.add {text : Text} {j k : Nat} (hj : Bound text j) (hk : Bound (text.drop j) k) : Bound text (j + k) where
  le := by
    have hle := hk.le
    have := hj.le
    rw [length_drop] at hle
    omega
  before := by
    rw [take_add]
    exact hj.before.append hk.before
  after := by
    rw [← drop_drop]
    exact hk.after

theorem bound_zero {text : Text} (h : Encoded text) : Bound text 0 := ⟨Nat.zero_le _, encoded_nil, h⟩

theorem not_bound (before : List Char) (c : Char) (rest : List Char) {i : Nat} (hpos : 0 < i)
    (hi : i < (String.utf8EncodeChar c).length) :
    ¬Bound (encode (before ++ c :: rest)) ((encode before).length + i) := by
  intro h
  obtain ⟨chars, hchars⟩ := h.after
  rw [encode_append, encode_cons, drop_length_add_append, drop_append_of_le_length (Nat.le_of_lt hi),
    drop_eq_getElem_cons hi, cons_append] at hchars
  cases chars with
  | nil => cases hchars
  | cons d others =>
    have hfirst := @UInt8.isUTF8FirstByte_getElem_zero_utf8EncodeChar d
    have hother : ¬((String.utf8EncodeChar c)[i]).IsUTF8FirstByte := by
      rw [UInt8.isUTF8FirstByte_getElem_utf8EncodeChar]
      exact Nat.ne_of_gt hpos
    cases hd : String.utf8EncodeChar d with
    | nil => exact String.utf8EncodeChar_ne_nil hd
    | cons a tail =>
      rw [flatMap_cons, hd, cons_append] at hchars
      simp only [hd, getElem_cons_zero] at hfirst
      rw [(List.cons.inj hchars).1] at hfirst
      exact hother hfirst

theorem lead_two : ∀ n < 32, lead (UInt8.ofNat (n + 0xc0)) = some (n, 2) := by decide

theorem lead_three : ∀ n < 16, lead (UInt8.ofNat (n + 0xe0)) = some (n, 3) := by decide

theorem lead_four : ∀ n < 8, lead (UInt8.ofNat (n + 0xf0)) = some (n, 4) := by decide

theorem lead_not_ascii : ∀ n < 64, ¬UInt8.ofNat (n + 0xc0) < 0x80 := by decide

theorem decodeTail_cons {value n : Nat} (h : n < 64) (rest : Text) :
    decodeTail value (UInt8.ofNat (n + 0x80) :: rest) = decodeTail (value * 64 + n) rest := by
  have hbyte : ∀ n < 64, UInt8.ofNat (n + 0x80) &&& 0xc0 = 0x80 ∧ (UInt8.ofNat (n + 0x80) &&& 0x3f).toNat = n := by decide
  obtain ⟨htop, hlow⟩ := hbyte n h
  rw [decodeTail, if_neg (not_not.mpr htop), hlow, ← Nat.shiftLeft_add_eq_or_of_lt (by omega : n < 2 ^ 6),
    Nat.shiftLeft_eq]

theorem utf8Decode_of {a : UInt8} {bits length value : Nat} {tail : Text} (rest : Text) (ha : ¬a < 0x80)
    (hlead : lead a = some (bits, length)) (hlength : length = tail.length + 1) (htail : decodeTail bits tail = some value)
    (hvalue : ¬((length = 2 ∧ value < 0x80) ∨ (length = 3 ∧ value < 0x800) ∨
      (length = 4 ∧ (value < 0x10000 ∨ 0x10ffff < value)) ∨ (0xd800 ≤ value ∧ value ≤ 0xdfff))) :
    utf8Decode (a :: tail ++ rest) = (value, length) := by
  subst hlength
  simp only [cons_append, utf8Decode, if_neg ha, hlead, Nat.add_sub_cancel, take_left, htail, if_neg hvalue]
  rw [if_neg]
  rw [length_append]
  omega

theorem utf8Decode_encode (c : Char) (rest : Text) :
    utf8Decode (String.utf8EncodeChar c ++ rest) = (code c, (String.utf8EncodeChar c).length) := by
  have hvalid : c.val.toNat.isValidChar := c.valid
  unfold String.utf8EncodeChar code
  generalize c.val.toNat = v at *
  dsimp only
  split_ifs with h1 h2 h3
  · have hfirst : (UInt8.ofNat v).toNat = v := UInt8.toNat_ofNat_of_lt' (show v < 256 by omega)
    have hascii : UInt8.ofNat v < 0x80 := by
      rw [UInt8.lt_iff_toNat_lt, hfirst]
      exact Nat.lt_succ_of_le h1
    simp only [cons_append, utf8Decode, hascii, if_true, hfirst, length_singleton]
  · refine @utf8Decode_of _ _ 2 v _ rest (lead_not_ascii _ (by omega)) (lead_two _ (Nat.mod_lt _ (by decide))) rfl
      ((decodeTail_cons (Nat.mod_lt _ (by decide)) _).trans (congrArg some ?_)) (by omega)
    omega
  · have hmove : v / 4096 % 16 + 0xe0 = v / 4096 % 16 + 32 + 0xc0 := rfl
    refine @utf8Decode_of _ _ 3 v _ rest (hmove ▸ lead_not_ascii _ (by omega)) (lead_three _ (Nat.mod_lt _ (by decide))) rfl
      ((decodeTail_cons (Nat.mod_lt _ (by decide)) _).trans
        ((decodeTail_cons (Nat.mod_lt _ (by decide)) _).trans (congrArg some ?_))) (by omega)
    omega
  · have hmove : v / 262144 % 8 + 0xf0 = v / 262144 % 8 + 48 + 0xc0 := rfl
    refine @utf8Decode_of _ _ 4 v _ rest (hmove ▸ lead_not_ascii _ (by omega)) (lead_four _ (Nat.mod_lt _ (by decide))) rfl
      ((decodeTail_cons (Nat.mod_lt _ (by decide)) _).trans ((decodeTail_cons (Nat.mod_lt _ (by decide)) _).trans
        ((decodeTail_cons (Nat.mod_lt _ (by decide)) _).trans (congrArg some ?_)))) (by omega)
    omega

theorem bound_decode {text : Text} (h : Encoded text) (hne : text ≠ []) : Bound text (utf8Decode text).2 := by
  obtain ⟨chars, rfl⟩ := h
  cases chars with
  | nil => exact absurd rfl hne
  | cons c rest =>
    have hdecode := utf8Decode_encode c (encode rest)
    have hbound := bound_encode [c] rest
    rw [show encode [c] = String.utf8EncodeChar c from append_nil _] at hbound
    rw [flatMap_cons]
    exact hdecode ▸ hbound

theorem bound_ascii {a : UInt8} {rest : Text} (h : Encoded (a :: rest)) (ha : a < 0x80) : Bound (a :: rest) 1 := by
  have hbound := bound_decode h (cons_ne_nil a rest)
  rwa [utf8Decode, if_pos ha] at hbound

section Loops

variable {locale : Locale} {text : Text}

theorem consume_cons {p : Nat → Bool} (hne : text ≠ []) (hp : p (utf8Decode text).1 = true) :
    consume p text = (utf8Decode text).2 + consume p (text.drop (utf8Decode text).2) := by
  rw [consume, if_neg hne]
  exact if_pos hp

theorem bound_consume {p : Nat → Bool} (h : Encoded text) : Bound text (consume p text) := by
  fun_induction consume p text with
  | case1 => exact bound_zero h
  | case2 text hne one hp ih =>
    have hone := bound_decode h hne
    exact hone.add (ih hone.after)
  | case3 => exact bound_zero h

theorem bound_consumeUpTo {p : Nat → Bool} {count : Nat} (h : Encoded text) :
    Bound text (consumeUpTo p count text) := by
  induction count generalizing text with
  | zero => exact bound_zero h
  | succ count ih =>
    simp only [consumeUpTo]
    split
    next hone =>
      have hone := bound_decode h hone.1
      exact hone.add (ih hone.after)
    · exact bound_zero h

theorem bound_skipNewlines (h : Encoded text) : Bound text (skipNewlines text) := by
  induction text with
  | nil => exact bound_zero h
  | cons b rest ih =>
    rw [skipNewlines]
    split
    next hb =>
      have hone : Bound (b :: rest) 1 := bound_ascii h (by obtain rfl | rfl := hb <;> decide)
      exact hone.add (ih hone.after)
    · exact bound_zero h

theorem bound_ascii_prefix {n : Nat} (h : Encoded text) (hn : n ≤ text.length) (hascii : ∀ a ∈ text.take n, a < 0x80) :
    Bound text n := by
  induction n generalizing text with
  | zero => exact bound_zero h
  | succ n ih =>
    cases text with
    | nil => cases hn
    | cons a rest =>
      obtain ⟨ha, hrest⟩ := forall_mem_cons.mp hascii
      have hone := bound_ascii h ha
      rw [Nat.add_comm]
      exact hone.add (ih hone.after (Nat.le_of_succ_le_succ hn) hrest)

theorem bound_matchContraction (h : Encoded text) : Bound text (matchContraction text) := by
  unfold matchContraction
  split
  · exact bound_zero h
  split
  next suffix hsuffix =>
    have hmatch := List.find?_some hsuffix
    rw [decide_eq_true_eq] at hmatch
    have hlength := congrArg List.length hmatch
    rw [length_map, length_take] at hlength
    refine bound_ascii_prefix h (by omega) fun a ha => ?_
    have hlower : lower a < 0x80 := by
      have hmem : lower a ∈ suffix := hmatch ▸ mem_map_of_mem ha
      have hall : contractions.all fun suffix => suffix.all (· < 0x80) := by decide
      exact of_decide_eq_true (all_eq_true.mp (all_eq_true.mp hall _ (mem_of_find?_eq_some hsuffix)) _ hmem)
    unfold lower at hlower
    split at hlower
    next hletter => exact UInt8.lt_of_le_of_lt hletter.2 (by decide)
    · exact hlower
  · exact bound_zero h

def spaceRun (locale : Locale) (chars : List Char) : List Char := chars.takeWhile fun c => codeSpace locale (code c)

theorem spaceRun_cons {c : Char} {rest : List Char} (h : codeSpace locale (code c) = true) :
    spaceRun locale (c :: rest) = c :: spaceRun locale rest := takeWhile_cons_of_pos h

theorem scanSpaces_encode (chars : List Char) (scan lastNewline : Nat) :
    (scanSpaces locale (encode chars) scan lastNewline).1 = scan + (encode (spaceRun locale chars)).length ∧
      (((scanSpaces locale (encode chars) scan lastNewline).2 = lastNewline ∧
          ∀ c ∈ spaceRun locale chars, codeNewline (code c) = false) ∨
        ((∃ c ∈ spaceRun locale chars, codeNewline (code c) = true) ∧ ∃ front back, chars = front ++ back ∧
          front ≠ [] ∧ (scanSpaces locale (encode chars) scan lastNewline).2 = scan + (encode front).length)) := by
  induction chars generalizing scan lastNewline with
  | nil =>
    rw [scanSpaces, if_pos (show encode [] = [] from rfl)]
    exact ⟨rfl, .inl ⟨rfl, by simp [spaceRun]⟩⟩
  | cons c rest ih =>
    have hne : encode (c :: rest) ≠ [] := by
      rw [encode_cons]
      exact append_ne_nil_of_left_ne_nil String.utf8EncodeChar_ne_nil _
    rw [scanSpaces, if_neg hne]
    simp only [encode_cons c rest, utf8Decode_encode, drop_left]
    cases hspace : codeSpace locale (code c) with
    | false =>
      have hrun : spaceRun locale (c :: rest) = [] := takeWhile_cons_of_neg (by simp [hspace])
      rw [if_neg (by decide), hrun]
      exact ⟨rfl, .inl ⟨rfl, by simp⟩⟩
    | true =>
      rw [if_pos rfl, spaceRun_cons hspace, encode_cons, length_append, ← Nat.add_assoc]
      obtain ⟨hscan, hlast⟩ := ih (scan + (String.utf8EncodeChar c).length)
        (if codeNewline (code c) then scan + (String.utf8EncodeChar c).length else lastNewline)
      refine ⟨hscan, ?_⟩
      obtain ⟨hlast, hnone⟩ | ⟨⟨d, hd, hnewline⟩, front, back, rfl, -, hlast⟩ := hlast
      · cases hc : codeNewline (code c) with
        | false =>
          rw [hc, if_neg (by decide)] at hlast
          exact .inl ⟨by rw [if_neg (by decide), hlast], forall_mem_cons.mpr ⟨hc, hnone⟩⟩
        | true =>
          rw [hc, if_pos rfl] at hlast
          refine .inr ⟨⟨c, mem_cons_self, hc⟩, [c], rest, rfl, cons_ne_nil _ _, ?_⟩
          rw [if_pos rfl, hlast]
          simp [encode]
      · refine .inr ⟨⟨d, mem_cons_of_mem _ hd, hnewline⟩, c :: front, back, rfl, cons_ne_nil _ _, ?_⟩
        rw [hlast, encode_cons, length_append, Nat.add_assoc]

end Loops

section Cut

variable {locale : Locale} {rest : List Char}

/-- A run of white space without a newline, with something behind it, that gives its last byte away; and that byte is
a part of a character. -/
structure Splits (locale : Locale) (rest : List Char) : Prop where
  long : 2 ≤ (spaceRun locale rest).length
  newline : ∀ c ∈ spaceRun locale rest, codeNewline (code c) = false
  followed : (spaceRun locale rest).length < rest.length
  wide : ∀ c ∈ (spaceRun locale rest).getLast?, 1 < (String.utf8EncodeChar c).length

/-- `next_piece` comes to such a run. -/
structure CutsSpace (locale : Locale) (rest : List Char) : Prop extends Splits locale rest where
  contraction : matchContraction (encode rest) = 0
  number : ∀ c ∈ rest.head?, codeNumber locale (code c) = false
  letter : ∀ c ∈ rest.take 2, codeLetter locale (code c) = false

theorem encode_length_pos (h : rest ≠ []) : 0 < (encode rest).length := by
  obtain ⟨c, others, rfl⟩ := exists_cons_of_ne_nil h
  exact length_pos_iff.mpr (append_ne_nil_of_left_ne_nil String.utf8EncodeChar_ne_nil _)

structure Cut (before rest : List Char) (piece : Nat) : Prop where
  pos : 0 < piece
  le : piece ≤ (encode rest).length
  bound : Bound (encode (before ++ rest)) ((encode before).length + piece)

theorem cut_encode (before : List Char) {front back : List Char} (hne : front ≠ []) :
    Cut before (front ++ back) (encode front).length where
  pos := encode_length_pos hne
  le := (bound_encode front back).le
  bound := by
    have hbound := bound_encode (before ++ front) back
    rwa [encode_append before front, length_append, append_assoc] at hbound

theorem cut_of_bound (before : List Char) {piece : Nat} (hpos : 0 < piece) (hbound : Bound (encode rest) piece) :
    Cut before rest piece where
  pos := hpos
  le := hbound.le
  bound := by
    refine (bound_encode before rest).add ?_
    rwa [encode_append, drop_left]

theorem spacePiece_spec (before : List Char) {first : Char} {others : List Char}
    (hspace : codeSpace locale (code first) = true) {piece : Nat}
    (hpiece : spacePiece locale (encode (first :: others)) (String.utf8EncodeChar first).length = piece) :
    0 < piece ∧ piece ≤ (encode (first :: others)).length ∧
      (Bound (encode (before ++ first :: others)) ((encode before).length + piece) ↔ ¬Splits locale (first :: others)) := by
  have hrun := @spaceRun_cons locale first others hspace
  obtain ⟨tail, hsplit⟩ : ∃ tail, first :: others = spaceRun locale (first :: others) ++ tail :=
    ⟨_, takeWhile_append_dropWhile.symm⟩
  have htext := congrArg (fun chars => (encode chars).length) hsplit
  simp only [encode_append, length_append] at htext
  obtain ⟨hscan, hlast⟩ := @scanSpaces_encode locale (first :: others) 0 0
  unfold spacePiece at hpiece
  rcases hpair : scanSpaces locale (encode (first :: others)) 0 0 with ⟨scan, lastNewline⟩
  rw [hpair] at hscan hlast hpiece
  dsimp only at hscan hlast hpiece
  rw [Nat.zero_add] at hscan
  obtain ⟨rfl, hnone⟩ | ⟨⟨c, hc, hnewline⟩, front, back, hfront, hne, hlast⟩ := hlast
  · rw [if_neg (by decide), hscan] at hpiece
    have hhead : (encode (spaceRun locale (first :: others))).length =
        (String.utf8EncodeChar first).length + (encode (spaceRun locale others)).length := by
      rw [hrun, encode_cons, length_append]
    split at hpiece
    next hgives =>
      obtain ⟨hmore, hlong⟩ := hgives
      have hothers : spaceRun locale others ≠ [] := fun hnil => by
        rw [hnil, show encode [] = [] from rfl, length_nil] at hhead
        omega
      obtain ⟨init, c, hinit⟩ := (eq_nil_or_concat' (spaceRun locale others)).resolve_left hothers
      have hchars : before ++ first :: others = (before ++ first :: init) ++ c :: tail := by
        rw [hsplit, hrun, hinit]
        simp
      have hlength : (encode (spaceRun locale (first :: others))).length =
          (encode (first :: init)).length + (String.utf8EncodeChar c).length := by
        rw [hrun, hinit, ← cons_append, encode_append, length_append]
        simp [encode]
      have hpos := encode_length_pos (cons_ne_nil first init)
      have hbefore : (encode (before ++ first :: init)).length =
          (encode before).length + (encode (first :: init)).length := by
        rw [encode_append, length_append]
      have hwidth := length_pos_iff.mpr (@String.utf8EncodeChar_ne_nil c)
      refine ⟨by omega, by omega, ?_⟩
      have hlastOf : (spaceRun locale (first :: others)).getLast? = some c := by
        rw [hrun, hinit, ← cons_append, List.getLast?_concat]
      by_cases hwide : 1 < (String.utf8EncodeChar c).length
      · refine iff_of_false ?_ (not_not.mpr ⟨?_, hnone, ?_, ?_⟩)
        · rw [hchars, show (encode before).length + piece =
            (encode (before ++ first :: init)).length + ((String.utf8EncodeChar c).length - 1) by omega]
          exact not_bound _ c tail (by omega) (by omega)
        · rw [hrun, hinit]
          simp
        · have hbehind : tail ≠ [] := by
            rintro rfl
            rw [show encode [] = [] from rfl, length_nil] at htext
            omega
          have hsum := congrArg List.length hsplit
          rw [length_append] at hsum
          have := length_pos_iff.mpr hbehind
          omega
        · rw [hlastOf]
          intro d hd
          rwa [← Option.some.inj hd]
      · refine iff_of_true ?_ fun hsplits => hwide (hsplits.wide c hlastOf)
        rw [hchars, show (encode before).length + piece = (encode (before ++ first :: init)).length by omega]
        exact bound_encode _ _
    next hkeeps =>
      have hcut := @cut_encode before _ tail (show spaceRun locale (first :: others) ≠ [] by
        rw [hrun]
        exact cons_ne_nil _ _)
      rw [← hsplit, hpiece] at hcut
      refine ⟨hcut.pos, hcut.le, iff_of_true hcut.bound fun hsplits => hkeeps ⟨?_, ?_⟩⟩
      · have hsum := congrArg List.length hsplit
        rw [length_append] at hsum
        have htail : tail ≠ [] := by
          rintro rfl
          exact absurd hsum (Nat.ne_of_gt hsplits.followed)
        have := encode_length_pos htail
        omega
      · have hlong := hsplits.long
        rw [hrun, length_cons] at hlong
        have := encode_length_pos (length_pos_iff.mp (Nat.le_of_succ_le_succ hlong))
        omega
  · have hpos := encode_length_pos hne
    rw [Nat.zero_add] at hlast
    rw [if_pos (by omega), hlast] at hpiece
    have hcut := @cut_encode before _ back hne
    rw [← hfront, hpiece] at hcut
    refine ⟨hcut.pos, hcut.le, iff_of_true hcut.bound fun hsplits => ?_⟩
    exact Bool.noConfusion (hnewline.symm.trans (hsplits.newline c hc))

theorem bound_symbols {text : Text} {next : Nat} (h : Bound text next) (p : Nat → Bool) :
    Bound text (next + consume p (text.drop next) +
      skipNewlines (text.drop (next + consume p (text.drop next)))) := by
  have hposition := h.add (@bound_consume _ p h.after)
  exact hposition.add (bound_skipNewlines hposition.after)

theorem consume_pos {text : Text} {p : Nat → Bool} (hne : text ≠ []) (hp : p (utf8Decode text).1 = true) :
    0 < consume p text := by
  rw [consume_cons hne hp]
  exact Nat.add_pos_left (utf8Decode_pos text) _

theorem nextPiece_spec (locale : Locale) (before : List Char) (hrest : rest ≠ []) :
    0 < nextPiece locale (encode rest) ∧ nextPiece locale (encode rest) ≤ (encode rest).length ∧
      (Bound (encode (before ++ rest)) ((encode before).length + nextPiece locale (encode rest)) ↔
        ¬CutsSpace locale rest) := by
  suffices h : Cut before rest (nextPiece locale (encode rest)) ∧ ¬CutsSpace locale rest ∨
      (0 < nextPiece locale (encode rest) ∧ nextPiece locale (encode rest) ≤ (encode rest).length ∧
        (Bound (encode (before ++ rest)) ((encode before).length + nextPiece locale (encode rest)) ↔
          ¬CutsSpace locale rest)) by
    obtain ⟨hcut, hnot⟩ | h := h
    · exact ⟨hcut.pos, hcut.le, iff_of_true hcut.bound hnot⟩
    · exact h
  obtain ⟨first, others, rfl⟩ := exists_cons_of_ne_nil hrest
  have hne : encode (first :: others) ≠ [] := length_pos_iff.mp (encode_length_pos hrest)
  have hencoded := encoded_encode (first :: others)
  have hdecode : utf8Decode (encode (first :: others)) = (code first, (String.utf8EncodeChar first).length) :=
    utf8Decode_encode first (encode others)
  have hdrop : (encode (first :: others)).drop (String.utf8EncodeChar first).length = encode others :=
    drop_left
  have hfirst := bound_decode hencoded hne
  rw [hdecode] at hfirst
  have hafter {k : Nat} (h : Bound (encode others) k) :
      Bound (encode (first :: others)) ((String.utf8EncodeChar first).length + k) := hfirst.add (by rwa [hdrop])
  have hrun (hsplits : Splits locale (first :: others)) : codeSpace locale (code first) = true ∧
      ∀ c ∈ others.head?, codeSpace locale (code c) = true := by
    have hlong := hsplits.long
    unfold spaceRun at hlong
    rw [takeWhile_cons] at hlong
    split at hlong
    next hspace =>
      refine ⟨hspace, fun c hc => ?_⟩
      cases others with
      | nil => cases hc
      | cons d tail =>
        obtain rfl := Option.some.inj hc
        rw [takeWhile_cons] at hlong
        split at hlong
        next hnext => exact hnext
        · simp at hlong
    · simp at hlong
  unfold nextPiece
  simp only [hdecode, hdrop]
  have hsecond (hmore : (String.utf8EncodeChar first).length < (encode (first :: others)).length) :
      ∃ c tail, others = c :: tail ∧ utf8Decode (encode others) = (code c, (String.utf8EncodeChar c).length) := by
    cases others with
    | nil =>
      simp [encode] at hmore
    | cons c tail => exact ⟨c, tail, rfl, utf8Decode_encode c (encode tail)⟩
  have hwidth : 0 < (String.utf8EncodeChar first).length := length_pos_iff.mpr String.utf8EncodeChar_ne_nil
  split
  next hmatch =>
    exact .inl ⟨cut_of_bound before hmatch (bound_matchContraction hencoded),
      fun hcuts => absurd hcuts.contraction (Nat.ne_of_gt hmatch)⟩
  next hmatch =>
  split
  next hletter =>
    refine .inl ⟨cut_of_bound before (consume_pos hne (by rwa [hdecode])) (bound_consume hencoded), fun hcuts => ?_⟩
    exact Bool.noConfusion (hletter.symm.trans (hcuts.letter first (by simp)))
  next hletter =>
  split
  next hword =>
    obtain ⟨-, -, hmore, hletter⟩ := hword
    obtain ⟨c, tail, rfl, hsecond⟩ := hsecond hmore
    refine .inl ⟨cut_of_bound before (by omega) (hafter (bound_consume (encoded_encode _))), fun hcuts => ?_⟩
    rw [hsecond] at hletter
    exact Bool.noConfusion (hletter.symm.trans (hcuts.letter c (by simp)))
  next hword =>
  split
  next hnumber =>
    refine .inl ⟨cut_of_bound before ?_ (bound_consumeUpTo hencoded), fun hcuts => ?_⟩
    · simp only [consumeUpTo, hdecode]
      rw [if_pos ⟨hne, hnumber⟩]
      omega
    · exact Bool.noConfusion (hnumber.symm.trans (hcuts.number first rfl))
  next hnumber =>
  by_cases hquiet : code first = 32 ∧ (String.utf8EncodeChar first).length < (encode (first :: others)).length ∧
      codeSymbol locale (utf8Decode (encode others)).1 = true
  · obtain ⟨-, hmore, hsymbol⟩ := id hquiet
    obtain ⟨c, tail, rfl, hsecond⟩ := hsecond hmore
    rw [if_pos hquiet]
    rw [if_pos hsymbol, hsecond]
    have hnext := hafter (@bound_decode (encode (c :: tail)) (encoded_encode _) (length_pos_iff.mp
      (encode_length_pos (cons_ne_nil c tail))))
    rw [hsecond] at hnext hsymbol
    refine .inl ⟨cut_of_bound before (by omega) (bound_symbols hnext _), fun hcuts => ?_⟩
    have hspace := (hrun hcuts.toSplits).2 c rfl
    simp [codeSymbol, hspace] at hsymbol
  rw [if_neg hquiet]
  split
  next hsymbol =>
    refine .inl ⟨cut_of_bound before (by omega) (bound_symbols hfirst _), fun hcuts => ?_⟩
    have hspace := (hrun hcuts.toSplits).1
    simp [codeSymbol, hspace] at hsymbol
  split
  next hspace =>
    refine .inr ?_
    obtain ⟨hpos, hle, hiff⟩ := @spacePiece_spec locale before first others hspace _ rfl
    refine ⟨hpos, hle, hiff.trans (not_congr ⟨fun hsplits => ⟨hsplits, ?_, ?_, ?_⟩, CutsSpace.toSplits⟩)⟩
    · exact Nat.eq_zero_of_not_pos hmatch
    · intro c hc
      rw [← Option.some.inj hc]
      exact Bool.eq_false_iff.mpr hnumber
    · have hnewline : codeNewline (code first) = false := hsplits.newline first (by
        rw [spaceRun_cons hspace]
        exact mem_cons_self)
      cases others with
      | nil => simpa using hletter
      | cons c tail =>
        have hdecoded : utf8Decode (encode (c :: tail)) = (code c, (String.utf8EncodeChar c).length) :=
          utf8Decode_encode c (encode tail)
        rw [hdecoded] at hword
        simp only [take_succ_cons, take_zero, mem_cons, not_mem_nil, or_false, forall_eq_or_imp, forall_eq]
        refine ⟨Bool.eq_false_iff.mpr hletter, Bool.eq_false_iff.mpr fun hsecond => hword ⟨hnewline,
          Bool.eq_false_iff.mpr hnumber, ?_, hsecond⟩⟩
        rw [encode_cons, length_append]
        exact Nat.lt_add_of_pos_right (encode_length_pos (cons_ne_nil c tail))
  next hspace =>
    exact .inl ⟨cut_of_bound before hwidth hfirst, fun hcuts => hspace (hrun hcuts.toSplits).1⟩

/-- At an offset between two characters the piece is not empty, and it ends between two characters, unless the cut is
one of those. -/
theorem nextPiece_bound_iff (locale : Locale) (before : List Char) (hrest : rest ≠ []) :
    (let text := encode (before ++ rest)
      let offset := (encode before).length
      let last := offset + nextPiece locale (text.drop offset)
      offset < last ∧ last ≤ text.length ∧ Bound text last) ↔ ¬CutsSpace locale rest := by
  obtain ⟨hpos, hle, hbound⟩ := nextPiece_spec locale before hrest
  dsimp only
  rw [encode_append before rest, drop_left, length_append, ← encode_append, hbound]
  exact ⟨fun h => h.2.2, fun h => ⟨by omega, by omega, h⟩⟩

end Cut

def plainLocale : Locale where
  iswalpha c := (65 ≤ c && c ≤ 90) || (97 ≤ c && c ≤ 122)
  iswdigit c := 48 ≤ c && c ≤ 57
  iswalnum c := (65 ≤ c && c ≤ 90) || (97 ≤ c && c ≤ 122) || (48 ≤ c && c ≤ 57)
  iswspace c := (9 ≤ c && c ≤ 13) || c = 32 || c = 0x3000

/-- A space goes to the word behind it. -/
theorem nextPiece_bound_word :
    let text := encode (['a'] ++ [' ', 'b'])
    let offset := (encode ['a']).length
    let last := offset + nextPiece plainLocale (text.drop offset)
    offset < last ∧ last ≤ text.length ∧ Bound text last :=
  (nextPiece_bound_iff plainLocale ['a'] (cons_ne_nil ' ' ['b'])).mpr fun h => absurd h.long (by decide)

/-- Of two ideographic spaces before a digit the second one is cut. -/
theorem nextPiece_cuts : plainLocale.iswspace 10 = true ∧ plainLocale.iswspace 32 = true ∧
    ¬Bound (encode ['\u3000', '\u3000', '1']) (nextPiece plainLocale (encode ['\u3000', '\u3000', '1'])) := by
  have hpiece : nextPiece plainLocale (encode ['\u3000', '\u3000', '1']) = (encode ['\u3000']).length + 2 := by
    decide +kernel
  refine ⟨rfl, rfl, ?_⟩
  rw [hpiece]
  exact not_bound ['\u3000'] '\u3000' ['1'] (by decide) (by decide)

end FlashGordon.Tokenizer
