import Mathlib

/-! Binary32 values by their bit patterns, as far as classification and comparison need them: a value
is finite when its exponent field is not all ones, and finite values compare as their sign and magnitude
do, with the two zeros equal. No arithmetic is defined. -/

structure Binary32 where
  bits : UInt32
  deriving DecidableEq

namespace Binary32

def magnitude (x : Binary32) : Nat := x.bits.toNat % 2 ^ 31

def negative (x : Binary32) : Bool := 2 ^ 31 ≤ x.bits.toNat

/-- The exponent field is not all ones: neither an infinity nor a NaN. -/
def isFinite (x : Binary32) : Bool := x.magnitude < 0x7f800000

def order (x : Binary32) : Int := if x.negative then -(x.magnitude : Int) else x.magnitude

end Binary32
