import Mathlib.Data.Nat.Bitwise
import Mathlib.Data.Nat.Digits.Defs

/-! The shift register of a cyclic code, with the bits of a message read from the lowest one on. Shifting is linear in
exclusive or, so that the register after a message is that of the message taken as one number, however it is cut into
digits; and it loses nothing, so that a change no wider than the register shows in it. -/

namespace ShiftRegister

open Nat

variable {poly w n k r a b : Nat}

def shift (poly r : Nat) : Nat := (r >>> 1) ^^^ (if r.testBit 0 then poly else 0)

/-- `n` shifts. -/
def shifts (poly n r : Nat) : Nat := (shift poly)^[n] r

theorem shift_xor (poly a b : Nat) : shift poly (a ^^^ b) = shift poly a ^^^ shift poly b := by
  rw [shift, shift, shift, Nat.shiftRight_xor_distrib, Nat.testBit_xor]
  cases a.testBit 0 <;> cases b.testBit 0
  · simp
  · simp [Nat.xor_assoc]
  · simp [Nat.xor_assoc, Nat.xor_comm poly]
  · simp only [Bool.xor_self, Bool.false_eq_true, if_false, if_true, Nat.xor_zero]
    rw [Nat.xor_comm (b >>> 1), ← Nat.xor_assoc, Nat.xor_xor_cancel_right]

theorem shifts_xor (poly n a b : Nat) : shifts poly n (a ^^^ b) = shifts poly n a ^^^ shifts poly n b := by
  induction n generalizing a b with
  | zero => rfl
  | succ n ih => exact (congrArg (shifts poly n) (shift_xor poly a b)).trans (ih _ _)

theorem shifts_add (poly k n r : Nat) : shifts poly (k + n) r = shifts poly n (shifts poly k r) := by
  rw [shifts, Nat.add_comm, Function.iterate_add_apply]
  rfl

theorem shifts_shiftLeft (poly n a : Nat) : shifts poly n (a <<< n) = a := by
  induction n with
  | zero => rfl
  | succ n ih =>
    have hshift : shift poly (a <<< (n + 1)) = a <<< n := by
      rw [shift, if_neg (by simp), Nat.xor_zero, Nat.shiftLeft_add, Nat.shiftLeft_shiftRight]
    exact (congrArg (shifts poly n) hshift).trans ih

/-! ## The width of the register -/

theorem shift_lt (hpoly : poly < 2 ^ w) (hr : r < 2 ^ w) : shift poly r < 2 ^ w := by
  refine Nat.xor_lt_two_pow (Nat.lt_of_le_of_lt (Nat.shiftRight_le r 1) hr) ?_
  split
  · exact hpoly
  · exact Nat.two_pow_pos w

theorem shift_ne_zero (htop : poly.testBit w = true) (hr : r < 2 ^ (w + 1)) (hne : r ≠ 0) : shift poly r ≠ 0 := by
  intro hzero
  cases hlow : r.testBit 0 with
  | false =>
    rw [shift, hlow, if_neg (by decide), Nat.xor_zero, Nat.shiftRight_one] at hzero
    rw [Nat.testBit_zero, decide_eq_false_iff_not] at hlow
    omega
  | true =>
    rw [shift, hlow, if_pos rfl, Nat.xor_eq_zero_iff] at hzero
    rw [← hzero, Nat.testBit_shiftRight, Nat.add_comm, Nat.testBit_lt_two_pow hr] at htop
    cases htop

theorem shifts_ne_zero (hpoly : poly < 2 ^ (w + 1)) (htop : poly.testBit w = true) (hr : r < 2 ^ (w + 1)) (hne : r ≠ 0)
    (n : Nat) : shifts poly n r ≠ 0 := by
  induction n generalizing r with
  | zero => exact hne
  | succ n ih => exact ih (shift_lt hpoly hr) (shift_ne_zero htop hr hne)

theorem shifts_ne (hpoly : poly < 2 ^ (w + 1)) (htop : poly.testBit w = true) {e : Nat} (hburst : a ^^^ b = e <<< k)
    (hwidth : e < 2 ^ (w + 1)) (hne : e ≠ 0) (hk : k ≤ n) (r : Nat) :
    shifts poly n (r ^^^ a) ≠ shifts poly n (r ^^^ b) := by
  intro heq
  refine shifts_ne_zero hpoly htop hwidth hne (n - k) ?_
  calc shifts poly (n - k) e
    _ = shifts poly n (e <<< k) := by
        conv_rhs => rw [show n = k + (n - k) by omega, shifts_add, shifts_shiftLeft]
    _ = shifts poly n ((r ^^^ a) ^^^ (r ^^^ b)) := by
        rw [← hburst, Nat.xor_comm r a, Nat.xor_assoc, ← Nat.xor_assoc r r b, Nat.xor_self, Nat.zero_xor]
    _ = 0 := by rw [shifts_xor, heq, Nat.xor_self]

theorem add_eq_xor (hr : r < 2 ^ w) (s : Nat) : r + 2 ^ w * s = r ^^^ (s <<< w) := by
  refine Nat.eq_of_testBit_eq fun i => ?_
  rw [Nat.add_comm, Nat.testBit_two_pow_mul_add s hr, Nat.testBit_xor, Nat.testBit_shiftLeft]
  by_cases hi : i < w
  · simp [hi, Nat.not_le.mpr hi]
  · have hle := Nat.not_lt.mp hi
    have hzero : r.testBit i = false :=
      Nat.testBit_lt_two_pow (hr.trans_le (Nat.pow_le_pow_right (by decide) hle))
    simp [hi, hle, hzero]

theorem foldl_shifts {digits : List Nat} (hdigits : ∀ x ∈ digits, x < 2 ^ w) (poly r : Nat) :
    digits.foldl (fun r x => shifts poly w (r ^^^ x)) r =
      shifts poly (w * digits.length) (r ^^^ ofDigits (2 ^ w) digits) := by
  induction digits generalizing r with
  | nil => simp [ofDigits, shifts]
  | cons x rest ih =>
    obtain ⟨hx, hrest⟩ := List.forall_mem_cons.mp hdigits
    rw [List.foldl_cons, ih hrest, ofDigits_cons, add_eq_xor hx, List.length_cons, Nat.mul_succ, Nat.add_comm _ w,
      shifts_add, ← Nat.xor_assoc, shifts_xor poly w (r ^^^ x), shifts_shiftLeft]

theorem testBit_ofDigits (hw : 0 < w) {digits : List Nat} (hdigits : ∀ x ∈ digits, x < 2 ^ w) (i : Nat) :
    (ofDigits (2 ^ w) digits).testBit i = (digits.getD (i / w) 0).testBit (i % w) := by
  induction digits generalizing i with
  | nil => simp [ofDigits]
  | cons x rest ih =>
    obtain ⟨hx, hrest⟩ := List.forall_mem_cons.mp hdigits
    rw [ofDigits_cons, Nat.add_comm, Nat.testBit_two_pow_mul_add _ hx]
    split
    next hi =>
      rw [Nat.div_eq_of_lt hi, Nat.mod_eq_of_lt hi, List.getD_cons_zero]
    next hi =>
      rw [ih hrest, ← Nat.sub_add_cancel (Nat.not_lt.mp hi), Nat.add_sub_cancel, Nat.add_div_right _ hw,
        Nat.add_mod_right, List.getD_cons_succ]

end ShiftRegister
