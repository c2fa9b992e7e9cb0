import Mathlib.Data.List.GetD
import Mathlib.Data.List.Induction
import FlashGordon.ByteCodec

/-! SHA-256 (`sha256.c`). What the code computes over any cutting of a message is compared with FIPS 180-4, whose
constants are given by the roots that they are the digits of. -/

namespace FlashGordon.Sha256

open ByteCodec List

/-- Eight words: a hash value, or the working variables. -/
structure Words where
  a : UInt32
  b : UInt32
  c : UInt32
  d : UInt32
  e : UInt32
  f : UInt32
  g : UInt32
  h : UInt32
  deriving DecidableEq

def Words.add (x y : Words) : Words :=
  ⟨x.a + y.a, x.b + y.b, x.c + y.c, x.d + y.d, x.e + y.e, x.f + y.f, x.g + y.g, x.h + y.h⟩

def Words.toList (x : Words) : List UInt32 := [x.a, x.b, x.c, x.d, x.e, x.f, x.g, x.h]

def rotr32 (x n : UInt32) : UInt32 := (x >>> n) ||| (x <<< (32 - n))

def loadBe32 (bytes : List UInt8) (i : Nat) : UInt32 :=
  joinU32 (bytes.getD i 0) (bytes.getD (i + 1) 0) (bytes.getD (i + 2) 0) (bytes.getD (i + 3) 0)

def k256 : List UInt32 := [
  0x428a2f98, 0x71374491, 0xb5c0fbcf, 0xe9b5dba5, 0x3956c25b, 0x59f111f1, 0x923f82a4, 0xab1c5ed5,
  0xd807aa98, 0x12835b01, 0x243185be, 0x550c7dc3, 0x72be5d74, 0x80deb1fe, 0x9bdc06a7, 0xc19bf174,
  0xe49b69c1, 0xefbe4786, 0x0fc19dc6, 0x240ca1cc, 0x2de92c6f, 0x4a7484aa, 0x5cb0a9dc, 0x76f988da,
  0x983e5152, 0xa831c66d, 0xb00327c8, 0xbf597fc7, 0xc6e00bf3, 0xd5a79147, 0x06ca6351, 0x14292967,
  0x27b70a85, 0x2e1b2138, 0x4d2c6dfc, 0x53380d13, 0x650a7354, 0x766a0abb, 0x81c2c92e, 0x92722c85,
  0xa2bfe8a1, 0xa81a664b, 0xc24b8b70, 0xc76c51a3, 0xd192e819, 0xd6990624, 0xf40e3585, 0x106aa070,
  0x19a4c116, 0x1e376c08, 0x2748774c, 0x34b0bcb5, 0x391c0cb3, 0x4ed8aa4a, 0x5b9cca4f, 0x682e6ff3,
  0x748f82ee, 0x78a5636f, 0x84c87814, 0x8cc70208, 0x90befffa, 0xa4506ceb, 0xbef9a3f7, 0xc67178f2]

/-- The loop that fills `w` from its sixteenth word on. -/
def extend (w : List UInt32) (i : Nat) : List UInt32 :=
  let x := w.getD (i - 15) 0
  let y := w.getD (i - 2) 0
  let s0 := rotr32 x 7 ^^^ rotr32 x 18 ^^^ (x >>> 3)
  let s1 := rotr32 y 17 ^^^ rotr32 y 19 ^^^ (y >>> 10)
  w ++ [w.getD (i - 16) 0 + s0 + w.getD (i - 7) 0 + s1]

def schedule (block : List UInt8) : List UInt32 :=
  (List.range' 16 48).foldl extend ((List.range 16).map fun i => loadBe32 block (i * 4))

def round (w : List UInt32) (s : Words) (i : Nat) : Words :=
  let s1 := rotr32 s.e 6 ^^^ rotr32 s.e 11 ^^^ rotr32 s.e 25
  let ch := (s.e &&& s.f) ^^^ (~~~s.e &&& s.g)
  let t1 := s.h + s1 + ch + k256.getD i 0 + w.getD i 0
  let s0 := rotr32 s.a 2 ^^^ rotr32 s.a 13 ^^^ rotr32 s.a 22
  let maj := (s.a &&& s.b) ^^^ (s.a &&& s.c) ^^^ (s.b &&& s.c)
  let t2 := s0 + maj
  ⟨t1 + t2, s.a, s.b, s.c, s.d + t1, s.e, s.f, s.g⟩

def transform (state : Words) (block : List UInt8) : Words :=
  state.add ((List.range 64).foldl (round (schedule block)) state)

/-- `fg_sha256`: `block` holds the first `block_bytes` bytes of the source's block. -/
structure Context where
  state : Words
  bitCount : UInt64
  block : List UInt8
  short : block.length < 64

def initial : Words :=
  ⟨0x6a09e667, 0xbb67ae85, 0x3c6ef372, 0xa54ff53a, 0x510e527f, 0x9b05688c, 0x1f83d9ab, 0x5be0cd19⟩

/-- `fg_sha256_init`. -/
def init : Context := ⟨initial, 0, [], by decide⟩

/-- One copy into the block, which is hashed when it is full. -/
def Context.push (ctx : Context) (bytes : List UInt8) (hfits : ctx.block.length + bytes.length ≤ 64) : Context :=
  let block := ctx.block ++ bytes
  if hfull : block.length = 64 then { ctx with state := transform ctx.state block, block := [], short := by decide }
  else { ctx with
    block := block
    short := lt_of_le_of_ne (List.length_append.trans_le hfits) hfull }

theorem room_take (ctx : Context) (data : List UInt8) :
    ctx.block.length + (data.take (min (64 - ctx.block.length) data.length)).length ≤ 64 := by
  have := ctx.short
  rw [length_take]
  omega

/-- The loop of `fg_sha256_update`. -/
def absorb (ctx : Context) (data : List UInt8) : Context :=
  if _ : data = [] then ctx
  else
    let n := min (64 - ctx.block.length) data.length
    absorb (ctx.push (data.take n) (room_take ctx data)) (data.drop n)
termination_by data.length
decreasing_by
  have := ctx.short
  have := List.length_pos_iff.mpr ‹¬data = []›
  rw [List.length_drop]
  omega

/-- `fg_sha256_update`. -/
def update (ctx : Context) (data : List UInt8) : Context :=
  absorb { ctx with bitCount := ctx.bitCount + .ofNat data.length * 8 } data

def fill (block : List UInt8) (n : Nat) : List UInt8 := block ++ .replicate (n - block.length) 0

/-- The padding and the last block or two of `fg_sha256_final`. -/
def finish (ctx : Context) (count : List UInt8) : Words :=
  let marked := ctx.block ++ [0x80]
  let (state, block) := if 56 < marked.length then (transform ctx.state (fill marked 64), []) else (ctx.state, marked)
  transform state (fill block 56 ++ count)

/-- `fg_sha256_final`. -/
def final (ctx : Context) : List UInt8 :=
  let count := ([56, 48, 40, 32, 24, 16, 8, 0] : List UInt64).map fun shift => (ctx.bitCount >>> shift).toUInt8
  (finish ctx count).toList.flatMap putU32

namespace Fips

/-- The digits of the fractional part of the `n`-th root of `p`, thirty-two in binary. -/
def RootBits (n p : Nat) (bits : UInt32) : Prop :=
  ∃ whole, (whole * 2 ^ 32 + bits.toNat) ^ n ≤ p * 2 ^ (32 * n) ∧
    p * 2 ^ (32 * n) < (whole * 2 ^ 32 + bits.toNat + 1) ^ n

/-- The first sixty-four primes. -/
def primes : List Nat := [
  2, 3, 5, 7, 11, 13, 17, 19, 23, 29, 31, 37, 41, 43, 47, 53, 59, 61, 67, 71, 73, 79, 83, 89, 97, 101, 103, 107, 109,
  113, 127, 131, 137, 139, 149, 151, 157, 163, 167, 173, 179, 181, 191, 193, 197, 199, 211, 223, 227, 229, 233, 239,
  241, 251, 257, 263, 269, 271, 277, 281, 283, 293, 307, 311]

structure Constants where
  k : Nat → UInt32
  initial : Words
  k_root : ∀ t < 64, RootBits 3 (primes.getD t 0) (k t)
  initial_root : ∀ i < 8, RootBits 2 (primes.getD i 0) (initial.toList.getD i 0)

def rotr (n x : UInt32) : UInt32 := (x >>> n) ||| (x <<< (32 - n))

def ch (x y z : UInt32) : UInt32 := (x &&& y) ^^^ (~~~x &&& z)

def maj (x y z : UInt32) : UInt32 := (x &&& y) ^^^ (x &&& z) ^^^ (y &&& z)

def bigSigma0 (x : UInt32) : UInt32 := rotr 2 x ^^^ rotr 13 x ^^^ rotr 22 x

def bigSigma1 (x : UInt32) : UInt32 := rotr 6 x ^^^ rotr 11 x ^^^ rotr 25 x

def sigma0 (x : UInt32) : UInt32 := rotr 7 x ^^^ rotr 18 x ^^^ (x >>> 3)

def sigma1 (x : UInt32) : UInt32 := rotr 17 x ^^^ rotr 19 x ^^^ (x >>> 10)

def word (block : List UInt8) (t : Nat) : UInt32 :=
  let byte := fun i => (block.getD (4 * t + i) 0).toNat
  .ofNat (byte 0 * 2 ^ 24 + byte 1 * 2 ^ 16 + byte 2 * 2 ^ 8 + byte 3)

def messageSchedule (block : List UInt8) (t : Nat) : UInt32 :=
  if t < 16 then word block t
  else
    sigma1 (messageSchedule block (t - 2)) + messageSchedule block (t - 7) + sigma0 (messageSchedule block (t - 15)) +
      messageSchedule block (t - 16)

def step (k w : UInt32) (s : Words) : Words :=
  let t1 := s.h + bigSigma1 s.e + ch s.e s.f s.g + k + w
  let t2 := bigSigma0 s.a + maj s.a s.b s.c
  ⟨t1 + t2, s.a, s.b, s.c, s.d + t1, s.e, s.f, s.g⟩

def Constants.compress (c : Constants) (hash : Words) (block : List UInt8) : Words :=
  hash.add ((List.range 64).foldl (fun s t => step (c.k t) (messageSchedule block t) s) hash)

/-- How many zero bytes come after the one bit and its seven zero bits. -/
def zeros (length : Nat) : Nat := (119 - length % 64) % 64

/-- The message, the one bit, the zero bits and the length in bits as a number of sixty-four bits. -/
def pad (message : List UInt8) : List UInt8 :=
  message ++ 0x80 :: .replicate (zeros message.length) 0 ++
    [7, 6, 5, 4, 3, 2, 1, 0].map fun i => .ofNat (8 * message.length / 2 ^ (8 * i))

def blocks : Nat → List UInt8 → List (List UInt8)
  | 0, _ => []
  | n + 1, bytes => bytes.take 64 :: blocks n (bytes.drop 64)

def Constants.digest (c : Constants) (message : List UInt8) : List UInt8 :=
  ((blocks ((pad message).length / 64) (pad message)).foldl c.compress c.initial).toList.flatMap fun x =>
    [3, 2, 1, 0].map fun i => .ofNat (x.toNat / 2 ^ (8 * i))

theorem RootBits.unique {n p : Nat} {x y : UInt32} (hx : RootBits n p x) (hy : RootBits n p y) : x = y := by
  obtain ⟨a, hax, hxa⟩ := hx
  obtain ⟨b, hby, hyb⟩ := hy
  have hle := lt_of_pow_lt_pow_left₀ n (Nat.zero_le _) (hax.trans_lt hyb)
  have hge := lt_of_pow_lt_pow_left₀ n (Nat.zero_le _) (hby.trans_lt hxa)
  have hx := x.toNat_lt
  have hy := y.toNat_lt
  apply UInt32.toNat_inj.mp
  omega

theorem k256_root : ∀ t < 64, RootBits 3 (primes.getD t 0) (k256.getD t 0) := by
  have hbounded : ∀ t < 64, ∃ whole < 7, (whole * 2 ^ 32 + (k256.getD t 0).toNat) ^ 3 ≤ primes.getD t 0 * 2 ^ 96 ∧
      primes.getD t 0 * 2 ^ 96 < (whole * 2 ^ 32 + (k256.getD t 0).toNat + 1) ^ 3 := by decide
  intro t ht
  obtain ⟨whole, -, h⟩ := hbounded t ht
  exact ⟨whole, h⟩

theorem initial_root : ∀ i < 8, RootBits 2 (primes.getD i 0) (initial.toList.getD i 0) := by
  have hbounded : ∀ i < 8, ∃ whole < 5,
      (whole * 2 ^ 32 + (initial.toList.getD i 0).toNat) ^ 2 ≤ primes.getD i 0 * 2 ^ 64 ∧
        primes.getD i 0 * 2 ^ 64 < (whole * 2 ^ 32 + (initial.toList.getD i 0).toNat + 1) ^ 2 := by decide
  intro i hi
  obtain ⟨whole, -, h⟩ := hbounded i hi
  exact ⟨whole, h⟩

def constants : Constants := ⟨fun t => k256.getD t 0, initial, k256_root, initial_root⟩

variable (c : Constants)

theorem Constants.k_eq {t : Nat} (ht : t < 64) : c.k t = k256.getD t 0 := (c.k_root t ht).unique (k256_root t ht)

theorem Constants.initial_eq : c.initial = Sha256.initial := by
  have hword (i : Nat) (hi : i < 8) := (c.initial_root i hi).unique (Fips.initial_root i hi)
  generalize c.initial = words at hword
  obtain ⟨a, b, c, d, e, f, g, h⟩ := words
  have ha := hword 0 (by decide)
  have hb := hword 1 (by decide)
  have hc := hword 2 (by decide)
  have hd := hword 3 (by decide)
  have he := hword 4 (by decide)
  have hf := hword 5 (by decide)
  have hg := hword 6 (by decide)
  have hh := hword 7 (by decide)
  simp only [Words.toList, getD_cons_zero, getD_cons_succ] at ha hb hc hd he hf hg hh
  rw [ha, hb, hc, hd, he, hf, hg, hh, Sha256.initial]

end Fips

open Fips

theorem loadBe32_eq (block : List UInt8) (t : Nat) : loadBe32 block (t * 4) = word block t := by
  apply UInt32.toNat_inj.mp
  have hbyte (i : Nat) := (block.getD i 0).toNat_lt
  rw [loadBe32, joinU32_toNat, word, mul_comm t]
  dsimp only [Nat.add_zero]
  rw [UInt32.toNat_ofNat_of_lt']
  have h₀ := hbyte (4 * t)
  have h₁ := hbyte (4 * t + 1)
  have h₂ := hbyte (4 * t + 2)
  have h₃ := hbyte (4 * t + 3)
  simp only [UInt32.size]
  omega

theorem rotr32_eq (x n : UInt32) : rotr32 x n = rotr n x := rfl

theorem extended_eq (u x v y : UInt32) :
    u + (rotr32 x 7 ^^^ rotr32 x 18 ^^^ (x >>> 3)) + v + (rotr32 y 17 ^^^ rotr32 y 19 ^^^ (y >>> 10)) =
      sigma1 y + v + sigma0 x + u := by
  rw [rotr32_eq, rotr32_eq, rotr32_eq, rotr32_eq, ← sigma0, ← sigma1]
  ac_rfl

theorem round_eq {w : List UInt32} {c : Constants} {i : Nat} (hi : i < 64) (s : Words) :
    round w s i = step (c.k i) (w.getD i 0) s := by
  rw [c.k_eq hi]
  rfl

theorem schedule_eq (block : List UInt8) : schedule block = (List.range 64).map (messageSchedule block) := by
  have hfilled (n : Nat) : (List.range' 16 n).foldl extend ((List.range 16).map fun i => loadBe32 block (i * 4)) =
      (List.range (16 + n)).map (messageSchedule block) := by
    induction n with
    | zero =>
      refine map_congr_left fun t ht => ?_
      rw [messageSchedule, if_pos (mem_range.mp ht), loadBe32_eq]
    | succ n ih =>
      have hget (k : Nat) (hk : k < 16 + n) :
          ((List.range (16 + n)).map (messageSchedule block)).getD k 0 = messageSchedule block k := by
        rw [getD_eq_getElem _ _ (by simpa using hk), getElem_map, getElem_range]
      rw [List.range'_concat, foldl_append, ih, foldl_cons, foldl_nil, extend, ← Nat.add_assoc,
        range_succ, map_append, Nat.one_mul]
      rw [hget _ (by omega), hget _ (by omega), hget _ (by omega), hget _ (by omega), map_singleton]
      conv_rhs => rw [messageSchedule, if_neg (by omega)]
      rw [extended_eq]
  exact hfilled 48

theorem transform_eq (c : Constants) (state : Words) (block : List UInt8) :
    transform state block = c.compress state block := by
  have hround (s : Words) (t : Nat) (ht : t ∈ List.range 64) :
      round (schedule block) s t = step (c.k t) (messageSchedule block t) s := by
    have hlt := mem_range.mp ht
    rw [round_eq hlt, schedule_eq, getD_eq_getElem _ _ (by simpa using hlt), getElem_map, getElem_range]
  rw [transform, Constants.compress, foldl_ext _ _ _ hround]

theorem blocks_append {n : Nat} {front : List UInt8} (h : front.length = 64 * n) (j : Nat) (rest : List UInt8) :
    blocks (n + j) (front ++ rest) = blocks n front ++ blocks j rest := by
  induction n generalizing front with
  | zero =>
    rw [length_eq_zero_iff.mp h, Nat.zero_add]
    rfl
  | succ n ih =>
    rw [Nat.succ_add, blocks, blocks, take_append_of_le_length (by omega),
      drop_append_of_le_length (by omega), ih (by rw [length_drop]; omega), cons_append]

theorem blocks_one {bytes : List UInt8} (h : bytes.length = 64) : blocks 1 bytes = [bytes] := by
  rw [blocks, blocks, take_of_length_le (Nat.le_of_eq h)]

/-- The whole blocks of the message have gone through `transform`, and the rest is kept. -/
def Absorbed (ctx : Context) (message : List UInt8) : Prop :=
  ∃ n front, message = front ++ ctx.block ∧ front.length = 64 * n ∧ ctx.state = (blocks n front).foldl transform initial

theorem push_spec {ctx : Context} {message bytes : List UInt8} (h : Absorbed ctx message)
    (hfits : ctx.block.length + bytes.length ≤ 64) :
    Absorbed (ctx.push bytes hfits) (message ++ bytes) ∧ (ctx.push bytes hfits).bitCount = ctx.bitCount := by
  obtain ⟨n, front, rfl, hfront, hstate⟩ := h
  rw [append_assoc, Context.push]
  split
  next hfull =>
    refine ⟨⟨n + 1, front ++ (ctx.block ++ bytes), (append_nil _).symm, ?_, ?_⟩, rfl⟩
    · rw [length_append, hfront, hfull, Nat.mul_succ]
    · rw [blocks_append hfront, foldl_append, ← hstate, blocks_one hfull]
      rfl
  next => exact ⟨⟨n, front, rfl, hfront, hstate⟩, rfl⟩

theorem absorb_spec {ctx : Context} {message : List UInt8} (h : Absorbed ctx message) (data : List UInt8) :
    Absorbed (absorb ctx data) (message ++ data) ∧ (absorb ctx data).bitCount = ctx.bitCount := by
  fun_induction absorb ctx data generalizing message with
  | case1 ctx =>
    rw [append_nil]
    exact ⟨h, rfl⟩
  | case2 ctx data hdata n =>
    rename_i ih
    obtain ⟨hpush, hbits⟩ := push_spec h (room_take ctx data)
    obtain ⟨hnext, hcount⟩ := ih hpush
    rw [append_assoc, take_append_drop] at hnext
    exact ⟨hnext, hcount.trans hbits⟩

theorem updates_spec (pieces : List (List UInt8)) :
    Absorbed (pieces.foldl update init) pieces.flatten ∧
      (pieces.foldl update init).bitCount = .ofNat (8 * pieces.flatten.length) := by
  induction pieces using List.reverseRec with
  | nil => exact ⟨⟨0, [], rfl, rfl, rfl⟩, rfl⟩
  | append_singleton pieces data ih =>
    obtain ⟨habsorbed, hbits⟩ := ih
    rw [foldl_append, foldl_cons, foldl_nil, flatten_append, flatten_singleton]
    generalize pieces.foldl update init = ctx at habsorbed hbits
    obtain ⟨hnext, hcount⟩ := @absorb_spec { ctx with bitCount := ctx.bitCount + .ofNat data.length * 8 } _ habsorbed data
    refine ⟨hnext, hcount.trans ?_⟩
    rw [hbits, length_append, Nat.mul_add, Nat.mul_comm 8 data.length]
    simp only [UInt64.ofNat_add, UInt64.ofNat_mul]
    rfl

theorem length_fill {block : List UInt8} {n : Nat} (h : block.length ≤ n) : (fill block n).length = n := by
  rw [fill, length_append, length_replicate]
  omega

theorem countBytes_eq {bits : Nat} (h : bits < 2 ^ 64) :
    (([56, 48, 40, 32, 24, 16, 8, 0] : List UInt64).map fun shift => (UInt64.ofNat bits >>> shift).toUInt8) =
      [7, 6, 5, 4, 3, 2, 1, 0].map fun i => .ofNat (bits / 2 ^ (8 * i)) := by
  have hbyte (shift : UInt64) (hshift : shift.toNat < 64) :
      (UInt64.ofNat bits >>> shift).toUInt8 = .ofNat (bits / 2 ^ shift.toNat) := by
    apply UInt8.toNat_inj.mp
    rw [UInt64.toNat_toUInt8, UInt64.toNat_shiftRight, UInt64.toNat_ofNat_of_lt' h, Nat.mod_eq_of_lt hshift,
      Nat.shiftRight_eq_div_pow, UInt8.toNat_ofNat']
  simp only [map_cons, map_nil]
  rw [hbyte 56 (by decide), hbyte 48 (by decide), hbyte 40 (by decide), hbyte 32 (by decide), hbyte 24 (by decide),
    hbyte 16 (by decide), hbyte 8 (by decide), hbyte 0 (by decide)]
  rfl

theorem putU32_eq (x : UInt32) : putU32 x = [3, 2, 1, 0].map fun i => .ofNat (x.toNat / 2 ^ (8 * i)) := by
  have hbyte (shift : UInt32) (hshift : shift.toNat < 32) :
      (x >>> shift).toUInt8 = .ofNat (x.toNat / 2 ^ shift.toNat) := by
    apply UInt8.toNat_inj.mp
    rw [UInt32.toNat_toUInt8, UInt32.toNat_shiftRight, Nat.mod_eq_of_lt hshift, Nat.shiftRight_eq_div_pow,
      UInt8.toNat_ofNat']
  have hlast : x.toUInt8 = .ofNat (x.toNat / 2 ^ (8 * 0)) := by
    rw [Nat.mul_zero, Nat.pow_zero, Nat.div_one]
    exact UInt8.toNat_inj.mp (by rw [UInt32.toNat_toUInt8, UInt8.toNat_ofNat'])
  rw [putU32, hbyte 24 (by decide), hbyte 16 (by decide), hbyte 8 (by decide), hlast]
  rfl

/-- The padding of FIPS 180-4 has the fewest zero bytes that leave room for the length in the last block. -/
theorem zeros_least (length : Nat) :
    (length + 1 + zeros length) % 64 = 56 ∧ ∀ z, (length + 1 + z) % 64 = 56 → zeros length ≤ z := by
  unfold zeros
  refine ⟨by omega, fun z hz => by omega⟩

theorem finish_eq {ctx : Context} {message : List UInt8} (h : Absorbed ctx message) {tail : List UInt8}
    (htail : tail.length = 8) : finish ctx tail =
      (blocks ((message ++ 0x80 :: .replicate (zeros message.length) 0 ++ tail).length / 64)
        (message ++ 0x80 :: .replicate (zeros message.length) 0 ++ tail)).foldl transform initial := by
  obtain ⟨n, front, rfl, hfront, hstate⟩ := h
  have hshort := ctx.short
  have hzeros : zeros (front ++ ctx.block).length = (119 - ctx.block.length) % 64 := by
    rw [zeros, length_append, hfront]
    omega
  have hmarked : (ctx.block ++ [(0x80 : UInt8)]).length = ctx.block.length + 1 := length_append
  rw [hzeros, append_assoc, append_assoc front]
  generalize hrest : ctx.block ++ (0x80 :: List.replicate ((119 - ctx.block.length) % 64) 0 ++ tail) = rest
  have hlength : rest.length = ctx.block.length + 1 + (119 - ctx.block.length) % 64 + 8 := by
    rw [← hrest, length_append, length_append, length_cons, length_replicate, htail]
    omega
  have hblocks (j : Nat) (hj : rest.length = 64 * j) :
      (blocks ((front ++ rest).length / 64) (front ++ rest)).foldl transform initial =
        (blocks j rest).foldl transform ctx.state := by
    rw [length_append, hfront, hj, ← Nat.mul_add, Nat.mul_div_cancel_left _ (by decide), blocks_append hfront,
      foldl_append, hstate]
  rw [finish]
  dsimp only
  split
  next hlong =>
    have hsplit : rest = fill (ctx.block ++ [0x80]) 64 ++ (fill [] 56 ++ tail) := by
      have hcount : (119 - ctx.block.length) % 64 = 64 - (ctx.block.length + 1) + 56 := by omega
      rw [← hrest, hcount, replicate_add, fill, fill, hmarked]
      simp only [append_assoc, cons_append, nil_append, length_nil]
    have hfilled := length_fill (hmarked.trans_le (by omega : _ ≤ 64))
    have hlast : (fill [] 56 ++ tail).length = 64 := by rw [length_append, htail, length_fill (Nat.zero_le _)]
    rw [hblocks 2 (by omega), hsplit, show 2 = 1 + 1 from rfl, blocks_append hfilled, blocks_one hfilled, blocks_one hlast]
    rfl
  next hroom =>
    have hsplit : rest = fill (ctx.block ++ [0x80]) 56 ++ tail := by
      have hcount : (119 - ctx.block.length) % 64 = 56 - (ctx.block.length + 1) := by omega
      rw [← hrest, hcount, fill, hmarked]
      simp only [append_assoc, cons_append, nil_append]
    rw [hblocks 1 (by omega), hsplit, blocks_one]
    · rfl
    · rw [length_append, htail, length_fill (hmarked.trans_le (by omega))]

/-- For every message shorter than 2 ^ 61 bytes and every cutting of it into updates, the digest is that of FIPS 180-4. -/
theorem final_eq_fips (c : Constants) (pieces : List (List UInt8)) (hlength : pieces.flatten.length < 2 ^ 61) :
    final (pieces.foldl update init) = c.digest pieces.flatten := by
  obtain ⟨habsorbed, hbits⟩ := updates_spec pieces
  generalize pieces.foldl update init = ctx at habsorbed hbits
  generalize pieces.flatten = message at habsorbed hbits hlength
  have hcompress : transform = c.compress := funext fun state => funext (transform_eq c state)
  rw [final, hbits, countBytes_eq (by omega), finish_eq habsorbed (by rfl), Constants.digest, pad, c.initial_eq,
    ← hcompress]
  exact flatMap_congr fun x _ => putU32_eq x

/-- The bytes of `abc`, with an empty piece. -/
theorem final_eq_fips_abc : final ([[97], [], [98, 99]].foldl update init) = constants.digest [97, 98, 99] :=
  final_eq_fips constants [[97], [], [98, 99]] (by decide)

end FlashGordon.Sha256
