import Mathlib

/-! Status codes and error records shared by every component. A fallible function of the source
returns a status and fills an error record; here it returns `Except Error`, whose error case is a
status other than `FG_OK` with the text written beside it. -/

namespace FlashGordon

/-- The error codes of `fg_status`; `FG_OK` is the `ok` case of `Except`. -/
inductive Status where
  | argument
  | io
  | format
  | mismatch
  | oom
  | unavailable
  | limit
  | interrupted
  deriving DecidableEq, Repr

/-- The code and text that `fg_error_set` leaves. -/
structure Error where
  code : Status
  message : String
  deriving DecidableEq, Repr

/-- Sizes of the deployment fixed by `fg.h` and `fg_protocol.h`. -/
def maxContext : Nat := 1048576

def layerCount : Nat := 48

def rankCount : Nat := 8

instance neZeroFour : NeZero 4 := ⟨by decide⟩

instance neZeroEight : NeZero 8 := ⟨by decide⟩

end FlashGordon
