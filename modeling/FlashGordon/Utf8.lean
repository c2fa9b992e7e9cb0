import Mathlib.Data.List.Basic

/-! UTF-8 on lists of bytes. A text is encoded when it is the encoding of some characters; the encoding of one
character is told from its first byte and the ranges of the others. -/

namespace Utf8

def Encoded (text : List UInt8) : Prop := ∃ chars : List Char, chars.flatMap String.utf8EncodeChar = text

theorem encoded_nil : Encoded [] := ⟨[], rfl⟩

theorem encoded_char (c : Char) : Encoded (String.utf8EncodeChar c) := ⟨[c], by simp⟩

theorem Encoded.append {xs ys : List UInt8} (hx : Encoded xs) (hy : Encoded ys) : Encoded (xs ++ ys) := by
  obtain ⟨xs, rfl⟩ := hx
  obtain ⟨ys, rfl⟩ := hy
  exact ⟨xs ++ ys, List.flatMap_append⟩

theorem Encoded.flatMap {α : Type*} {f : α → List UInt8} {items : List α} (h : ∀ item ∈ items, Encoded (f item)) :
    Encoded (items.flatMap f) := by
  induction items with
  | nil => exact encoded_nil
  | cons item items ih =>
    rw [List.flatMap_cons]
    exact (h item List.mem_cons_self).append (ih fun other hother => h other (List.mem_cons_of_mem item hother))

theorem char_val {n : Nat} (h : n.isValidChar) : (Char.ofNat n).val.toNat = n := by
  rw [Char.ofNat, dif_pos h]
  rfl

theorem bytes_ext {xs ys : List UInt8} (h : xs.map UInt8.toNat = ys.map UInt8.toNat) : xs = ys :=
  List.map_injective_iff.mpr (fun _ _ => UInt8.toNat_inj.mp) h

theorem encode_one {a : UInt8} (ha : a.toNat < 0x80) : String.utf8EncodeChar (Char.ofNat a.toNat) = [a] := by
  rw [String.utf8EncodeChar, char_val (.inl (by omega)), if_pos (by omega)]
  exact bytes_ext (by simp)

theorem encode_two {a b : UInt8} (ha : 0xc2 ≤ a.toNat ∧ a.toNat ≤ 0xdf) (hb : 0x80 ≤ b.toNat ∧ b.toNat ≤ 0xbf) :
    String.utf8EncodeChar (Char.ofNat (a.toNat % 0x20 * 0x40 + b.toNat % 0x40)) = [a, b] := by
  rw [String.utf8EncodeChar, char_val (.inl (by omega)), if_neg (by omega), if_pos (by omega)]
  exact bytes_ext (by simp; omega)

theorem encode_three {a b c : UInt8} (ha : 0xe0 ≤ a.toNat ∧ a.toNat ≤ 0xef) (hb : 0x80 ≤ b.toNat ∧ b.toNat ≤ 0xbf)
    (hc : 0x80 ≤ c.toNat ∧ c.toNat ≤ 0xbf) {code : Nat}
    (hcode : code = (a.toNat % 0x10 * 0x40 + b.toNat % 0x40) * 0x40 + c.toNat % 0x40) (hlong : 0x800 ≤ code)
    (hvalid : code.isValidChar) : String.utf8EncodeChar (Char.ofNat code) = [a, b, c] := by
  rw [String.utf8EncodeChar, char_val hvalid, if_neg (by omega), if_neg (by omega), if_pos (by omega)]
  exact bytes_ext (by simp; omega)

theorem encode_four {a b c d : UInt8} (ha : 0xf0 ≤ a.toNat ∧ a.toNat ≤ 0xf4) (hb : 0x80 ≤ b.toNat ∧ b.toNat ≤ 0xbf)
    (hc : 0x80 ≤ c.toNat ∧ c.toNat ≤ 0xbf) (hd : 0x80 ≤ d.toNat ∧ d.toNat ≤ 0xbf) {code : Nat}
    (hcode : code = ((a.toNat % 0x08 * 0x40 + b.toNat % 0x40) * 0x40 + c.toNat % 0x40) * 0x40 + d.toNat % 0x40)
    (hlong : 0x10000 ≤ code) (hvalid : code.isValidChar) : String.utf8EncodeChar (Char.ofNat code) = [a, b, c, d] := by
  rw [String.utf8EncodeChar, char_val hvalid, if_neg (by omega), if_neg (by omega), if_neg (by omega)]
  exact bytes_ext (by simp; omega)

end Utf8
