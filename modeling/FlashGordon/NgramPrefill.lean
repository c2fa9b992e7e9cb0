import FlashGordon.NgramHash

/-! A prefill of the n-gram store hashes the positions of a range and packs the rows at their addresses. Prefills run one
after another over one cache, in ranges of any length and on histories that need not continue one another. -/

namespace FlashGordon.Ngram

open List

def Rows.addressList (result : Rows) : List Nat := (finRange headCount).map fun h => (result.addresses h).toNat

structure Prefill where
  pread : Pread
  tokens : List Int32
  first : Nat
  count : Nat

/-- The rows of the file that `fg_q38_ngram_lookup` finds for one history. -/
def historyRows (file : ByteBlock) (history : List Int32) : List (List UInt8) :=
  ((lookup history).toOption.map Rows.addressList).getD [] |>.map (file.slice · rowBytes)

/-- A prefill gives the rows of each of its positions as if only the history up to it were there. -/
structure Prefill.Answered (tableBytes maxTokens : Nat) (file : ByteBlock) (request : Prefill)
    (answer : Except Error (List (List UInt8))) : Prop where
  rows : ∀ rows, answer = .ok rows → rows =
    (range request.count).flatMap fun i => historyRows file (request.tokens.take (request.first + i + 1))
  served : request.pread.Total → 320001446 * rowBytes ≤ tableBytes → 0 < request.count → request.count ≤ maxTokens →
    request.first + request.count ≤ request.tokens.length → ∃ rows, answer = .ok rows

variable {tokens : List Int32} {first count : Nat} {file : ByteBlock} {pread : Pread} {s : Store}

end FlashGordon.Ngram
