import FlashGordon.Utf8

/-! String literals of JSON on bytes. Between the quotes stand bytes for themselves and escapes for a letter, a
character or a pair of surrogates; a literal has at most one meaning. -/

namespace Json

def shortEscapes : List (UInt8 × UInt8) :=
  [(34, 34), (92, 92), (47, 47), (98, 8), (102, 12), (110, 10), (114, 13), (116, 9)]

def hexValue (c : UInt8) : Option Nat :=
  if 48 ≤ c ∧ c ≤ 57 then some (c.toNat - 48)
  else if 97 ≤ c ∧ c ≤ 102 then some (c.toNat - 87)
  else if 65 ≤ c ∧ c ≤ 70 then some (c.toNat - 55)
  else none

def hexNumber : List UInt8 → Option Nat
  | [a, b, c, d] => do
    let a ← hexValue a
    let b ← hexValue b
    let c ← hexValue c
    let d ← hexValue d
    some (((a * 16 + b) * 16 + c) * 16 + d)
  | _ => none

/-- What stands between the quotes of a literal, and the bytes that it means. -/
inductive Chars : List UInt8 → List UInt8 → Prop
  | nil : Chars [] []
  | plain {c : UInt8} {raw text : List UInt8} (hlow : 0x20 ≤ c) (hquote : c ≠ 34) (hescape : c ≠ 92)
      (hrest : Chars raw text) : Chars (c :: raw) (c :: text)
  | short {letter byte : UInt8} {raw text : List UInt8} (hmem : (letter, byte) ∈ shortEscapes)
      (hrest : Chars raw text) : Chars (92 :: letter :: raw) (byte :: text)
  | unicode {digits : List UInt8} {n : Nat} {raw text : List UInt8} (hdigits : hexNumber digits = some n)
      (hvalid : n.isValidChar) (hrest : Chars raw text) :
      Chars (92 :: 117 :: digits ++ raw) (String.utf8EncodeChar (Char.ofNat n) ++ text)
  | pair {high low : List UInt8} {h l : Nat} {raw text : List UInt8} (hhigh : hexNumber high = some h)
      (hlow : hexNumber low = some l) (hh : 0xd800 ≤ h ∧ h ≤ 0xdbff) (hl : 0xdc00 ≤ l ∧ l ≤ 0xdfff)
      (hrest : Chars raw text) :
      Chars (92 :: 117 :: high ++ 92 :: 117 :: low ++ raw)
        (String.utf8EncodeChar (Char.ofNat (0x10000 + (h - 0xd800) * 0x400 + (l - 0xdc00))) ++ text)

theorem hexNumber_length {digits : List UInt8} {n : Nat} (h : hexNumber digits = some n) : digits.length = 4 := by
  unfold hexNumber at h
  split at h
  · rfl
  · cases h

theorem shortEscapes_unique {letter byte other : UInt8} (h : (letter, byte) ∈ shortEscapes)
    (hother : (letter, other) ∈ shortEscapes) : byte = other := by
  have hall : (shortEscapes.all fun x => shortEscapes.all fun y => x.1 != y.1 || x.2 == y.2) = true := by decide
  have hpair := List.all_eq_true.mp (List.all_eq_true.mp hall _ h) _ hother
  simpa only [bne_self_eq_false, Bool.false_or, beq_iff_eq] using hpair

theorem shortEscapes_unicode {byte : UInt8} : (117, byte) ∉ shortEscapes := by
  have hall : (shortEscapes.all fun x => x.1 != 117) = true := by decide
  exact fun h => absurd (List.all_eq_true.mp hall _ h) (by simp)

theorem Chars.unique {raw text other : List UInt8} (h : Chars raw text) (hother : Chars raw other) : text = other := by
  induction h generalizing other with
  | nil =>
    cases hother
    rfl
  | plain hlow hquote hescape hrest ih =>
    cases hother with
    | plain _ _ _ hother => rw [ih hother]
    | short _ _ => exact absurd rfl hescape
    | unicode _ _ _ => exact absurd rfl hescape
    | pair _ _ _ _ _ => exact absurd rfl hescape
  | short hmem hrest ih =>
    cases hother with
    | plain _ _ hescape _ => exact absurd rfl hescape
    | short hmem' hother => rw [ih hother, shortEscapes_unique hmem hmem']
    | unicode _ _ _ => exact absurd hmem shortEscapes_unicode
    | pair _ _ _ _ _ => exact absurd hmem shortEscapes_unicode
  | @unicode digits n raw text hdigits hvalid hrest ih =>
    generalize hraw : 92 :: 117 :: digits ++ raw = whole at hother
    cases hother with
    | nil => cases hraw
    | plain _ _ hescape _ => exact absurd (List.cons.inj hraw).1.symm hescape
    | short hmem' _ =>
      obtain rfl := (List.cons.inj (List.cons.inj hraw).2).1
      exact absurd hmem' shortEscapes_unicode
    | @unicode digits' n' raw' text' hdigits' _ hother =>
      have happend : digits ++ raw = digits' ++ raw' := (List.cons.inj (List.cons.inj hraw).2).2
      obtain ⟨rfl, rfl⟩ := List.append_inj happend (by rw [hexNumber_length hdigits, hexNumber_length hdigits'])
      obtain rfl := Option.some.inj (hdigits.symm.trans hdigits')
      rw [ih hother]
    | @pair high low h l raw' text' hhigh _ hh _ _ =>
      have happend : digits ++ raw = high ++ (92 :: 117 :: low ++ raw') := by
        simpa using (List.cons.inj (List.cons.inj hraw).2).2
      obtain ⟨rfl, -⟩ := List.append_inj happend (by rw [hexNumber_length hdigits, hexNumber_length hhigh])
      obtain rfl := Option.some.inj (hdigits.symm.trans hhigh)
      exact absurd hvalid (by simp only [Nat.isValidChar]; omega)
  | @pair high low h l raw text hhigh hlow hh hl hrest ih =>
    generalize hraw : 92 :: 117 :: high ++ 92 :: 117 :: low ++ raw = whole at hother
    cases hother with
    | nil => cases hraw
    | plain _ _ hescape _ => exact absurd (List.cons.inj hraw).1.symm hescape
    | short hmem' _ =>
      obtain rfl := (List.cons.inj (List.cons.inj hraw).2).1
      exact absurd hmem' shortEscapes_unicode
    | @unicode digits' n' raw' text' hdigits' hvalid' _ =>
      have happend : high ++ (92 :: 117 :: low ++ raw) = digits' ++ raw' := by
        simpa using (List.cons.inj (List.cons.inj hraw).2).2
      obtain ⟨rfl, -⟩ := List.append_inj happend (by rw [hexNumber_length hhigh, hexNumber_length hdigits'])
      obtain rfl := Option.some.inj (hhigh.symm.trans hdigits')
      exact absurd hvalid' (by simp only [Nat.isValidChar]; omega)
    | @pair high' low' h' l' raw' text' hhigh' hlow' _ _ hother =>
      have happend : high ++ (92 :: 117 :: low ++ raw) = high' ++ (92 :: 117 :: low' ++ raw') := by
        simpa using (List.cons.inj (List.cons.inj hraw).2).2
      obtain ⟨rfl, hbehind⟩ := List.append_inj happend (by rw [hexNumber_length hhigh, hexNumber_length hhigh'])
      have hlast : low ++ raw = low' ++ raw' := by
        simpa using (List.cons.inj (List.cons.inj hbehind).2).2
      obtain ⟨rfl, rfl⟩ := List.append_inj hlast (by rw [hexNumber_length hlow, hexNumber_length hlow'])
      obtain rfl := Option.some.inj (hhigh.symm.trans hhigh')
      obtain rfl := Option.some.inj (hlow.symm.trans hlow')
      rw [ih hother]

theorem Chars.append {raw text raw' text' : List UInt8} (h : Chars raw text) (h' : Chars raw' text') :
    Chars (raw ++ raw') (text ++ text') := by
  induction h with
  | nil => exact h'
  | plain hlow hquote hescape _ ih => exact .plain hlow hquote hescape ih
  | short hmem _ ih => exact .short hmem ih
  | unicode hdigits hvalid _ ih =>
    rw [List.append_assoc, List.append_assoc]
    exact .unicode hdigits hvalid ih
  | pair hhigh hlow hh hl _ ih =>
    simpa only [List.append_assoc, List.cons_append] using Chars.pair hhigh hlow hh hl ih

theorem chars_plain {text : List UInt8} (h : ∀ c ∈ text, 0x80 ≤ c) : Chars text text := by
  induction text with
  | nil => exact .nil
  | cons c text ih =>
    have hc := h c List.mem_cons_self
    refine .plain (UInt8.le_trans (by decide) hc) ?_ ?_ (ih fun other hother => h other (List.mem_cons_of_mem c hother))
    · rintro rfl
      exact absurd hc (by decide)
    · rintro rfl
      exact absurd hc (by decide)

end Json
