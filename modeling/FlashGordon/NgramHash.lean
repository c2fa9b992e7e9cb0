import FlashGordon.NgramStore

/-!
The hashing of `ngram.c`: the last two and the last three tokens of a prefix, not further back than the
end of sequence before them, are mixed into one row for each of the sixteen heads. A lookup of one prefix
scans all of it for the start of its segment; a lookup of a range starts two tokens before the range and
carries the start along. Both compute the same rows, and a row belongs to its head and to one shard.
-/

namespace FlashGordon.Ngram

/-- `FG_NGRAM_HEAD_COUNT`. -/
def headCount : Nat := 16

/-- `FG_NGRAM_PREFILL_MAX_TOKENS`. -/
def prefillMaxTokens : Nat := 1024

/-- `FG_Q38_EOS_TOKEN`. -/
def eosToken : UInt32 := 248044

/-- `FG_Q38_VOCAB_SIZE`. -/
def vocabSize : Nat := 248320

def int64Max : UInt64 := 0x7fffffffffffffff

def splitmix64 (value : UInt64) : UInt64 :=
  let value := value + 0x9e3779b97f4a7c15
  let value := (value ^^^ (value >>> 30)) * 0xbf58476d1ce4e5b9
  let value := (value ^^^ (value >>> 27)) * 0x94d049bb133111eb
  value ^^^ (value >>> 31)

/-- `signed_remainder_u64`: the bits are those of a signed number. -/
def signedRemainder (bits divisor : UInt64) : UInt64 :=
  if bits ≤ int64Max then bits % divisor
  else
    let magnitude := ~~~bits + 1
    let rem := magnitude % divisor
    if rem ≠ 0 then divisor - rem else 0

/-- `q38_ngram_vocab`. -/
def headVocab : List UInt64 :=
  [20000003, 20000023, 20000033, 20000047, 20000059, 20000063, 20000069, 20000077,
    20000081, 20000093, 20000107, 20000147, 20000153, 20000159, 20000161, 20000171]

/-- `q38_ngram_offset`. -/
def headOffset : List UInt64 :=
  [0, 20000003, 40000026, 60000059, 80000106, 100000165, 120000228, 140000297,
    160000374, 180000455, 200000548, 220000655, 240000802, 260000955, 280001114, 300001275]

/-! ## The rows of one prefix -/

/-- `(uint64_t)(int64_t)tokens[i]`. -/
def tokenBits (tokens : List Int32) (i : Nat) : UInt64 := (tokens.getD i 0).toInt64.toUInt64

def isEos (tokens : List Int32) (i : Nat) : Bool := (tokens.getD i 0).toUInt32 == eosToken

def multiplier (i : Nat) : UInt64 :=
  let multiplierMax := int64Max / 248320
  let halfBound := multiplierMax / 2
  let seed := 1234 + 0x9e3779b97f4a7c15 * (UInt64.ofNat i + 1)
  2 * (splitmix64 seed % halfBound) + 1

/-- `shifted[shift]`: the token that many places before the last, or the end of sequence where the segment
has none. -/
def shifted (tokens : List Int32) (stop segmentStart shift : Nat) : UInt64 :=
  if shift = 0 ∨ (shift < stop ∧ segmentStart ≤ stop - 1 - shift) then tokenBits tokens (stop - 1 - shift)
  else eosToken.toUInt64

def mixed (tokens : List Int32) (stop segmentStart ngram : Nat) : UInt64 :=
  (List.range' 1 (ngram - 1)).foldl (fun mix pos => mix ^^^ shifted tokens stop segmentStart pos * multiplier pos)
    (shifted tokens stop segmentStart 0 * multiplier 0)

/-- What a lookup writes for one prefix. -/
structure Rows where
  rows : Fin headCount → UInt64
  addresses : Fin headCount → UInt64

/-- `q38_ngram_fill`: the first eight heads hash two tokens, the others three. -/
def fill (tokens : List Int32) (stop segmentStart : Nat) : Rows :=
  let row (h : Fin headCount) : UInt64 :=
    signedRemainder (mixed tokens stop segmentStart (h / 8 + 2)) (headVocab.getD h 0) + headOffset.getD h 0
  { rows := row, addresses := fun h => row h * UInt64.ofNat rowBytes }

/-- The scan of `n` positions from `i` on for the start of the segment. -/
def segmentStart (tokens : List Int32) : Nat → Nat → Nat → Nat
  | 0, _, start => start
  | n + 1, i, start => segmentStart tokens n (i + 1) (if isEos tokens i then i + 1 else start)

/-- `fg_q38_ngram_lookup`. -/
def lookup (tokens : List Int32) : Except Error Rows :=
  if tokens.length = 0 then .error ⟨.argument, "invalid Qwen3.8 n-gram lookup arguments"⟩
  else
    match tokens.findIdx? fun token => token < 0 || token ≥ 248320 with
    | some i => .error ⟨.format, s!"token {i} is outside Qwen3.8 vocabulary"⟩
    | none => .ok (fill tokens tokens.length (segmentStart tokens (tokens.length - 1) 0 0))

def rangeLoop (tokens : List Int32) : Nat → Nat → Nat → List Rows
  | 0, _, _ => []
  | n + 1, pos, start =>
    fill tokens (pos + 1) start :: rangeLoop tokens n (pos + 1) (if isEos tokens pos then pos + 1 else start)

/-- `fg_q38_ngram_lookup_range`. -/
def lookupRange (tokens : List Int32) (first count : Nat) : Except Error (List Rows) :=
  if count = 0 ∨ first > tokens.length ∨ count > tokens.length - first ∨ count > prefillMaxTokens then
    .error ⟨.argument, "invalid n-gram suffix range"⟩
  else
    let begin := if first > 2 then first - 2 else 0
    let stop := first + count
    match (List.range' begin (stop - begin)).find? fun i => (tokens.getD i 0).toUInt32.toNat ≥ vocabSize with
    | some i => .error ⟨.format, s!"token {i} is outside Qwen3.8 vocabulary"⟩
    | none => .ok (rangeLoop tokens count first (segmentStart tokens (first - begin) begin begin))

/-- Rows from `rowBegin` on, as many as `rowCount`. -/
structure RowRange where
  rowBegin : UInt64
  rowCount : UInt64
  deriving DecidableEq

/-- A row is inside a range as `fg_ngram_resident_read` decides it. -/
def RowRange.Contains (range : RowRange) (row : UInt64) : Prop :=
  ¬(row < range.rowBegin ∨ row - range.rowBegin ≥ range.rowCount)

instance (range : RowRange) (row : UInt64) : Decidable (range.Contains row) :=
  inferInstanceAs (Decidable (¬_))

/-- `fg_q38_ngram_head_range`. -/
def headRange (headBegin heads : UInt32) : Except Error RowRange :=
  if headBegin ≥ 16 ∨ heads = 0 ∨ heads > 16 - headBegin then
    .error ⟨.argument, "invalid Qwen3.8 n-gram head range"⟩
  else
    let headEnd := headBegin + heads
    let begin := headOffset.getD headBegin.toNat 0
    let stop := if headEnd < 16 then headOffset.getD headEnd.toNat 0 else headOffset.getD 15 0 + headVocab.getD 15 0
    .ok ⟨begin, stop - begin⟩

def rankBegin : List UInt64 := [0, 0, 46666896, 93333792, 140000688, 180000846, 226667743, 273334639]

def rankCount : List UInt64 := [0, 46666896, 46666896, 46666896, 40000158, 46666897, 46666896, 46666897]

/-- `fg_q38_ngram_rank_range`. -/
def rankRange (rank : UInt32) : Except Error RowRange :=
  if rank = 0 ∨ rank ≥ 8 then .error ⟨.argument, "invalid resident n-gram rank"⟩
  else .ok ⟨rankBegin.getD rank.toNat 0, rankCount.getD rank.toNat 0⟩

/-! ## The start of the segment -/

theorem segmentStart_add (tokens : List Int32) (m n i start : Nat) :
    segmentStart tokens (m + n) i start = segmentStart tokens n (i + m) (segmentStart tokens m i start) := by
  induction m generalizing i start with
  | zero => simp [segmentStart]
  | succ m ih =>
    rw [Nat.succ_add_eq_add_succ m n, Nat.add_succ]
    simp only [segmentStart]
    rw [ih, Nat.add_right_comm, Nat.add_assoc]

theorem segmentStart_le (tokens : List Int32) (n : Nat) {i start : Nat} (hstart : start ≤ i) :
    segmentStart tokens n i start ≤ i + n := by
  induction n generalizing i start with
  | zero => exact hstart
  | succ n ih =>
    have hnext : (if isEos tokens i then i + 1 else start) ≤ i + 1 := by split <;> omega
    have hrest := ih hnext
    simp only [segmentStart]
    omega

/-- Where the scan began with does not matter to a position it has not gone past: it has found an end of
sequence from either start, or it still holds a start that lies before the position. -/
theorem segmentStart_le_iff (tokens : List Int32) (n : Nat) {i a b x : Nat} (ha : a ≤ i) (hb : b ≤ i) (hx : i ≤ x) :
    segmentStart tokens n i a ≤ x ↔ segmentStart tokens n i b ≤ x := by
  have hcases : segmentStart tokens n i a = segmentStart tokens n i b ∨
      (segmentStart tokens n i a = a ∧ segmentStart tokens n i b = b) := by
    clear ha hb hx
    induction n generalizing i with
    | zero => exact .inr ⟨rfl, rfl⟩
    | succ n ih =>
      simp only [segmentStart]
      cases isEos tokens i with
      | true => exact .inl rfl
      | false => exact ih
  rcases hcases with heq | ⟨hfrom, hfrom'⟩
  · rw [heq]
  · rw [hfrom, hfrom']
    exact ⟨fun _ => Nat.le_trans hb hx, fun _ => Nat.le_trans ha hx⟩

variable {tokens : List Int32}

theorem getD_take {n i : Nat} (hi : i < n) : (tokens.take n).getD i 0 = tokens.getD i 0 := by
  simp [List.getD_eq_getElem?_getD, hi]

theorem segmentStart_take {len n i start : Nat} (hlen : i + n ≤ len) :
    segmentStart (tokens.take len) n i start = segmentStart tokens n i start := by
  induction n generalizing i start with
  | zero => rfl
  | succ n ih =>
    have heos : isEos (tokens.take len) i = isEos tokens i := by
      rw [isEos, isEos, getD_take (by omega)]
    simp only [segmentStart]
    rw [heos, ih (by omega)]

theorem fill_congr {tokens tokens' : List Int32} {stop stop' start start' : Nat}
    (h : ∀ shift ≤ 2, shifted tokens stop start shift = shifted tokens' stop' start' shift) :
    fill tokens stop start = fill tokens' stop' start' := by
  have hmixed : ∀ g : Fin headCount, mixed tokens stop start (g / 8 + 2) = mixed tokens' stop' start' (g / 8 + 2) := by
    intro g
    have hg : (g : Nat) < 16 := g.isLt
    rw [mixed, mixed, h 0 (by omega)]
    refine List.foldl_ext _ _ _ fun mix pos hpos => ?_
    have hpos' := (List.mem_range'_1.mp hpos).2
    rw [h pos (by omega)]
  simp only [fill, hmixed]

theorem fill_take {pos begin a b n : Nat} (ha : a ≤ begin) (hb : b ≤ begin)
    (hpos : pos = begin + n) (hback : begin = 0 ∨ begin + 2 ≤ pos) :
    fill (tokens.take (pos + 1)) (pos + 1) (segmentStart tokens n begin a) =
      fill tokens (pos + 1) (segmentStart tokens n begin b) := by
  refine fill_congr fun shift hshift => ?_
  have hbits : tokenBits (tokens.take (pos + 1)) (pos + 1 - 1 - shift) = tokenBits tokens (pos + 1 - 1 - shift) := by
    rw [tokenBits, tokenBits, getD_take (by omega)]
  simp only [shifted, hbits]
  refine if_congr (or_congr Iff.rfl (and_congr_right fun hstop => ?_)) rfl rfl
  exact segmentStart_le_iff tokens n ha hb (by omega)

def ValidToken (token : Int32) : Prop := 0 ≤ token ∧ token < 248320

theorem ValidToken.toNat_lt {token : Int32} (h : ValidToken token) : token.toUInt32.toNat < vocabSize := by
  obtain ⟨hzero, hlt⟩ := h
  rw [Int32.le_iff_toInt_le] at hzero
  rw [Int32.lt_iff_toInt_lt] at hlt
  have hbits : token.toInt = token.toUInt32.toBitVec.toInt := rfl
  have hnat : token.toUInt32.toNat = token.toUInt32.toBitVec.toNat := rfl
  have hz : (0 : Int32).toInt = 0 := rfl
  have hv : (248320 : Int32).toInt = 248320 := rfl
  rw [hbits, BitVec.toInt_eq_toNat_cond] at hzero hlt
  rw [hnat, vocabSize]
  split at hzero <;> omega

theorem lookup_eq (hne : tokens ≠ []) (hvalid : ∀ token ∈ tokens, ValidToken token) :
    lookup tokens = .ok (fill tokens tokens.length (segmentStart tokens (tokens.length - 1) 0 0)) := by
  have hlen : tokens.length ≠ 0 := fun h => hne (List.length_eq_zero_iff.mp h)
  have hnone : (tokens.findIdx? fun token => token < 0 || token ≥ 248320) = none := by
    rw [List.findIdx?_eq_none_iff]
    intro token htoken
    obtain ⟨hzero, hlt⟩ := hvalid token htoken
    have hzero' : ¬token < 0 := Int32.not_lt.mpr hzero
    have hlt' : ¬token ≥ 248320 := Int32.not_le.mpr hlt
    simp [hzero', hlt']
  simp only [lookup, if_neg hlen, hnone]

theorem rangeLoop_length (tokens : List Int32) (n pos start : Nat) : (rangeLoop tokens n pos start).length = n := by
  induction n generalizing pos start with
  | zero => rfl
  | succ n ih => simp [rangeLoop, ih]

theorem rangeLoop_getElem? (tokens : List Int32) (n pos start : Nat) {i : Nat} (hi : i < n) :
    (rangeLoop tokens n pos start)[i]? = some (fill tokens (pos + i + 1) (segmentStart tokens i pos start)) := by
  induction n generalizing pos start i with
  | zero => omega
  | succ n ih =>
    cases i with
    | zero => rfl
    | succ i =>
      simp only [rangeLoop, List.getElem?_cons_succ, segmentStart]
      rw [ih (pos + 1) _ (Nat.lt_of_succ_lt_succ hi)]
      congr 2
      omega

theorem lookupRange_eq {first count : Nat} (hvalid : ∀ token ∈ tokens, ValidToken token)
    (hfit : first + count ≤ tokens.length) (hcount : 0 < count) (hmax : count ≤ prefillMaxTokens) :
    ∃ results, lookupRange tokens first count = .ok results ∧ results.length = count ∧
      ∀ i < count, ∃ result, results[i]? = some result ∧ lookup (tokens.take (first + i + 1)) = .ok result := by
  have hargs : ¬(count = 0 ∨ first > tokens.length ∨ count > tokens.length - first ∨ count > prefillMaxTokens) := by
    omega
  generalize hbegin : (if first > 2 then first - 2 else 0) = begin
  have hback : begin ≤ first ∧ (begin = 0 ∨ begin + 2 = first) := by split at hbegin <;> omega
  have hnone : (List.range' begin (first + count - begin)).find?
      (fun i => (tokens.getD i 0).toUInt32.toNat ≥ vocabSize) = none := by
    rw [List.find?_eq_none]
    intro i hi
    have hlt : i < tokens.length := by
      have := (List.mem_range'_1.mp hi).2
      omega
    have htoken := (hvalid _ (List.getElem_mem hlt)).toNat_lt
    simpa [List.getD_eq_getElem?_getD, List.getElem?_eq_getElem hlt] using htoken
  refine ⟨rangeLoop tokens count first (segmentStart tokens (first - begin) begin begin), ?_,
    rangeLoop_length .., fun i hi => ⟨_, rangeLoop_getElem? _ _ _ _ hi, ?_⟩⟩
  · simp only [lookupRange, if_neg hargs, hbegin, hnone]
  · have hlen : (tokens.take (first + i + 1)).length = first + i + 1 := by
      rw [List.length_take]
      omega
    have hprefix : tokens.take (first + i + 1) ≠ [] := fun h => by
      rw [h, List.length_nil] at hlen
      omega
    have hinto : first = begin + (first - begin) := by omega
    have hscan : segmentStart tokens i first (segmentStart tokens (first - begin) begin begin) =
        segmentStart tokens (first - begin + i) begin begin := by
      rw [segmentStart_add, ← hinto]
    have hfull : segmentStart (tokens.take (first + i + 1)) (first + i) 0 0 =
        segmentStart tokens (first - begin + i) begin (segmentStart tokens begin 0 0) := by
      rw [segmentStart_take (by omega), show first + i = begin + (first - begin + i) by omega, segmentStart_add,
        Nat.zero_add]
    have hstart : segmentStart tokens begin 0 0 ≤ begin := by
      have := segmentStart_le tokens begin (Nat.le_refl 0)
      omega
    rw [lookup_eq hprefix fun token htoken => hvalid token (List.mem_of_mem_take htoken), hlen, Nat.add_sub_cancel,
      hfull, hscan, fill_take hstart (Nat.le_refl begin) (by omega) (by omega)]

theorem signedRemainder_lt (bits : UInt64) {divisor : UInt64} (hpos : 0 < divisor.toNat) :
    (signedRemainder bits divisor).toNat < divisor.toNat := by
  have hrem : ((~~~bits + 1) % divisor).toNat < divisor.toNat := by
    rw [UInt64.toNat_mod]
    exact Nat.mod_lt _ hpos
  simp only [signedRemainder]
  split
  · rw [UInt64.toNat_mod]
    exact Nat.mod_lt _ hpos
  · split
    next hne =>
      have hne' : ((~~~bits + 1) % divisor).toNat ≠ 0 := fun h => hne (UInt64.toNat_inj.mp h)
      rw [UInt64.toNat_sub_of_le _ _ (UInt64.le_iff_toNat_le.mpr hrem.le)]
      omega
    · exact hpos

theorem contains_iff (range : RowRange) (row : UInt64) :
    range.Contains row ↔
      range.rowBegin.toNat ≤ row.toNat ∧ row.toNat < range.rowBegin.toNat + range.rowCount.toNat := by
  rw [RowRange.Contains, not_or, UInt64.not_lt, ge_iff_le, UInt64.not_le, UInt64.le_iff_toNat_le]
  refine and_congr_right fun hle => ?_
  rw [UInt64.lt_iff_toNat_lt, UInt64.toNat_sub_of_le _ _ (UInt64.le_iff_toNat_le.mpr hle)]
  omega

theorem headTable : ∀ h : Fin headCount,
    headRange h.val.toUInt32 1 = .ok ⟨headOffset.getD h 0, headVocab.getD h 0⟩ ∧ 0 < (headVocab.getD h 0).toNat ∧
      (headOffset.getD h 0).toNat + (headVocab.getD h 0).toNat ≤ 320001446 := by
  decide

theorem fill_row (tokens : List Int32) (stop start : Nat) (h : Fin headCount) :
    (headOffset.getD h 0).toNat ≤ ((fill tokens stop start).rows h).toNat ∧
      ((fill tokens stop start).rows h).toNat < (headOffset.getD h 0).toNat + (headVocab.getD h 0).toNat := by
  obtain ⟨-, hpos, hfit⟩ := headTable h
  have hrem := signedRemainder_lt (mixed tokens stop start (h / 8 + 2)) hpos
  have hrow : ((fill tokens stop start).rows h).toNat =
      (signedRemainder (mixed tokens stop start (h / 8 + 2)) (headVocab.getD h 0)).toNat +
        (headOffset.getD h 0).toNat := by
    simp only [fill]
    rw [UInt64.toNat_add, Nat.mod_eq_of_lt (by omega)]
  omega

theorem rankTable : ∀ r < 8, ∀ s < 8, 0 < r → r < s →
    (rankBegin.getD r 0).toNat + (rankCount.getD r 0).toNat ≤ (rankBegin.getD s 0).toNat := by
  decide

theorem rankRange_eq_ok {rank : UInt32} {range : RowRange} :
    rankRange rank = .ok range ↔
      (0 < rank.toNat ∧ rank.toNat < 8) ∧ range = ⟨rankBegin.getD rank.toNat 0, rankCount.getD rank.toNat 0⟩ := by
  have hzero : rank = 0 ↔ rank.toNat = 0 := by rw [← UInt32.toNat_inj]; rfl
  have height : rank ≥ 8 ↔ 8 ≤ rank.toNat := UInt32.le_iff_toNat_le
  rw [rankRange]
  split
  next h =>
    rw [hzero, height] at h
    exact ⟨nofun, fun h' => by omega⟩
  next h =>
    rw [hzero, height] at h
    rw [Except.ok.injEq]
    exact ⟨fun h' => ⟨by omega, h'.symm⟩, fun h' => h'.2.symm⟩

theorem rank_existsUnique {row : UInt64} (hrow : row.toNat < 320001446) :
    ∃! rank : UInt32, ∃ range, rankRange rank = .ok range ∧ range.Contains row := by
  have hmem : ∀ rank : UInt32, (∃ range, rankRange rank = .ok range ∧ range.Contains row) ↔
      (0 < rank.toNat ∧ rank.toNat < 8) ∧ (rankBegin.getD rank.toNat 0).toNat ≤ row.toNat ∧
        row.toNat < (rankBegin.getD rank.toNat 0).toNat + (rankCount.getD rank.toNat 0).toNat := by
    intro rank
    simp only [rankRange_eq_ok, contains_iff]
    exact ⟨fun ⟨_, ⟨hrank, heq⟩, h⟩ => by subst heq; exact ⟨hrank, h⟩, fun ⟨hrank, h⟩ => ⟨_, ⟨hrank, rfl⟩, h⟩⟩
  have hsome : ∃ rank : UInt32, (0 < rank.toNat ∧ rank.toNat < 8) ∧
      (rankBegin.getD rank.toNat 0).toNat ≤ row.toNat ∧
        row.toNat < (rankBegin.getD rank.toNat 0).toNat + (rankCount.getD rank.toNat 0).toNat := by
    by_cases h1 : row.toNat < 46666896
    · exact ⟨1, by decide, Nat.zero_le _, h1⟩
    by_cases h2 : row.toNat < 93333792
    · exact ⟨2, by decide, Nat.le_of_not_lt h1, h2⟩
    by_cases h3 : row.toNat < 140000688
    · exact ⟨3, by decide, Nat.le_of_not_lt h2, h3⟩
    by_cases h4 : row.toNat < 180000846
    · exact ⟨4, by decide, Nat.le_of_not_lt h3, h4⟩
    by_cases h5 : row.toNat < 226667743
    · exact ⟨5, by decide, Nat.le_of_not_lt h4, h5⟩
    by_cases h6 : row.toNat < 273334639
    · exact ⟨6, by decide, Nat.le_of_not_lt h5, h6⟩
    · exact ⟨7, by decide, Nat.le_of_not_lt h6, Nat.lt_of_lt_of_le hrow (by decide)⟩
  obtain ⟨rank, hrank⟩ := hsome
  refine ⟨rank, (hmem rank).mpr hrank, fun other hother => UInt32.toNat_inj.mp ?_⟩
  obtain ⟨hother, hlow, hhigh⟩ := (hmem other).mp hother
  obtain ⟨hrank, hlow', hhigh'⟩ := hrank
  by_contra hne
  rcases Nat.lt_or_gt_of_ne hne with hlt | hlt
  · have := rankTable _ hother.2 _ hrank.2 hother.1 hlt
    omega
  · have := rankTable _ hrank.2 _ hother.2 hrank.1 hlt
    omega

/-- What is asked of the rows of a prefix: the address is that of the row, the row is in the range of its head
and in the shard of one rank. -/
structure Rows.Placed (result : Rows) : Prop where
  address : ∀ h, (result.addresses h).toNat = (result.rows h).toNat * rowBytes
  head : ∀ h : Fin headCount, ∃ range, headRange h.val.toUInt32 1 = .ok range ∧ range.Contains (result.rows h)
  shard : ∀ h, ∃! rank : UInt32, ∃ range, rankRange rank = .ok range ∧ range.Contains (result.rows h)

theorem fill_placed (tokens : List Int32) (stop start : Nat) : (fill tokens stop start).Placed where
  address h := by
    have hrow := fill_row tokens stop start h
    have hfit := (headTable h).2.2
    have haddress : (fill tokens stop start).addresses h = (fill tokens stop start).rows h * UInt64.ofNat rowBytes :=
      rfl
    have hbytes : (UInt64.ofNat rowBytes).toNat = rowBytes := rfl
    rw [haddress, UInt64.toNat_mul, hbytes, rowBytes, Nat.mod_eq_of_lt (by omega)]
  head h := ⟨_, (headTable h).1, (contains_iff _ _).mpr (fill_row tokens stop start h)⟩
  shard h := rank_existsUnique (by
    have hrow := fill_row tokens stop start h
    have hfit := (headTable h).2.2
    omega)

/-- The hashing does not depend on how a history is cut into ranges: for every position of a nonempty range that
one call takes, the range gives the rows of the prefix, and they are placed. -/
theorem lookupRange_chunk_independent {tokens : List Int32} {first count : Nat}
    (hvalid : ∀ token ∈ tokens, ValidToken token) (hfit : first + count ≤ tokens.length) (hcount : 0 < count)
    (hmax : count ≤ prefillMaxTokens) :
    ∃ results, lookupRange tokens first count = .ok results ∧ results.length = count ∧
      ∀ i < count, ∃ result, results[i]? = some result ∧ lookup (tokens.take (first + i + 1)) = .ok result ∧
        result.Placed := by
  obtain ⟨results, hok, hlen, hrows⟩ := lookupRange_eq hvalid hfit hcount hmax
  refine ⟨results, hok, hlen, fun i hi => ?_⟩
  obtain ⟨result, hget, hlookup⟩ := hrows i hi
  have hprefix : tokens.take (first + i + 1) ≠ [] := fun h => by
    have := congrArg List.length h
    rw [List.length_take, List.length_nil] at this
    omega
  have heq := lookup_eq hprefix fun token htoken => hvalid token (List.mem_of_mem_take htoken)
  rw [heq] at hlookup
  refine ⟨result, hget, heq.trans hlookup, ?_⟩
  rw [← Except.ok.inj hlookup]
  exact fill_placed ..

theorem lookupRange_chunk_independent_eos :
    ∃ results, lookupRange [5, 248044, 7, 9] 2 2 = .ok results ∧ results.length = 2 ∧
      ∀ i < 2, ∃ result, results[i]? = some result ∧
        lookup (([5, 248044, 7, 9] : List Int32).take (2 + i + 1)) = .ok result ∧ result.Placed :=
  @lookupRange_chunk_independent [5, 248044, 7, 9] 2 2 (by simp [ValidToken]) (by decide) (by decide)
    (by decide)

/-- One call takes at most `FG_NGRAM_PREFILL_MAX_TOKENS` positions. -/
theorem lookupRange_too_long :
    (∀ token ∈ List.replicate 1025 (0 : Int32), ValidToken token) ∧ (List.replicate 1025 (0 : Int32)).length = 1025 ∧
      lookupRange (List.replicate 1025 0) 0 1025 = .error ⟨.argument, "invalid n-gram suffix range"⟩ := by
  refine ⟨fun token htoken => ?_, List.length_replicate, ?_⟩
  · rw [List.eq_of_mem_replicate htoken]
    exact ⟨by decide, by decide⟩
  · exact if_pos (.inr (.inr (.inr (by decide))))

end FlashGordon.Ngram
