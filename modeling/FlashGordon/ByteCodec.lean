import Mathlib.Data.List.Basic
import Mathlib.Tactic.Ring
import FlashGordon.Binary32

/-! Byte strings with fields at fixed places. A reader looks at bytes by their index and returns a value,
refuses the bytes with an error, or looks at an index at or past their end. What a writer puts for a value is a
list of bytes, and a byte string holds that list at an index when it goes on with it there. Reading a field
succeeds exactly when the field's bytes stand at its place, so a reader and a layout are compared place by
place. -/

namespace ByteCodec

inductive Outcome (ε α : Type) where
  | ok (value : α)
  | refused (err : ε)
  | overrun (index : Nat)
  deriving DecidableEq

structure Reader (ε α : Type) where
  run : List UInt8 → Outcome ε α

namespace Reader

variable {ε α β : Type}

def bind (r : Reader ε α) (f : α → Reader ε β) : Reader ε β where
  run p := match r.run p with
    | .ok x => (f x).run p
    | .refused err => .refused err
    | .overrun i => .overrun i

instance : Monad (Reader ε) where
  pure x := ⟨fun _ => .ok x⟩
  bind := bind

def byte (i : Nat) : Reader ε UInt8 where
  run p := match p[i]? with
    | some x => .ok x
    | none => .overrun i

def test (b : Prop) [Decidable b] : Reader ε Bool := pure (decide b)

/-- The test that the byte at an index is not zero. -/
def nonzero (i : Nat) : Reader ε Bool := do
  let x ← byte i
  test (x ≠ 0)

/-- The test that the byte at an index is not the given one. -/
def differs (i : Nat) (x : UInt8) : Reader ε Bool := do
  let y ← byte i
  test (y ≠ x)

def size : Reader ε Nat := ⟨fun p => .ok p.length⟩

def shorter (n : Nat) : Reader ε Bool := ⟨fun p => .ok (decide (p.length < n))⟩

def missized (n : Nat) : Reader ε Bool := ⟨fun p => .ok (decide (p.length ≠ n))⟩

/-- Refuse if one of the tests holds; a test is not made once one before it holds. -/
def refuseIf (err : ε) : List (Reader ε Bool) → Reader ε Unit
  | [] => pure ()
  | t :: rest => do
    let holds ← t
    if holds then ⟨fun _ => .refused err⟩ else refuseIf err rest

def check (outcome : Except ε Unit) : Reader ε Unit where
  run _ := match outcome with
    | .ok () => .ok ()
    | .error err => .refused err

def accept (validate : α → Except ε Unit) (x : α) : Reader ε α := do
  check (validate x)
  pure x

/-- A part that is there under a condition. -/
def optional (b : Prop) [Decidable b] (r : Reader ε α) : Reader ε (Option α) :=
  if b then do
    let x ← r
    pure (some x)
  else pure none

def vectorAt (read : Nat → Reader ε α) : (n : Nat) → Reader ε (Vector α n)
  | 0 => pure #v[]
  | n + 1 => do
    let row ← vectorAt read n
    let x ← read n
    pure (row.push x)

def listAt (read : Nat → Reader ε α) (n : Nat) : Reader ε (List α) := do
  let row ← vectorAt read n
  pure row.toList

end Reader

def joinU16 (a b : UInt8) : UInt16 := (a.toUInt16 <<< 8) ||| b.toUInt16

def joinU32 (a b c d : UInt8) : UInt32 :=
  (a.toUInt32 <<< 24) ||| (b.toUInt32 <<< 16) ||| (c.toUInt32 <<< 8) ||| d.toUInt32

def joinU64 (hi lo : UInt32) : UInt64 := (hi.toUInt64 <<< 32) ||| lo.toUInt64

/-! The writers of integers and floats, most significant byte first. -/

def putU16 (x : UInt16) : List UInt8 := [(x >>> 8).toUInt8, x.toUInt8]

def putU32 (x : UInt32) : List UInt8 :=
  [(x >>> 24).toUInt8, (x >>> 16).toUInt8, (x >>> 8).toUInt8, x.toUInt8]

def putU64 (x : UInt64) : List UInt8 := putU32 (x >>> 32).toUInt32 ++ putU32 x.toUInt32

def putF32 (x : Binary32) : List UInt8 := putU32 x.bits

def putU16s (xs : List UInt16) : List UInt8 := xs.flatMap putU16

def putU32s (xs : List UInt32) : List UInt8 := xs.flatMap putU32

def putU64s (xs : List UInt64) : List UInt8 := xs.flatMap putU64

def putF32s (xs : List Binary32) : List UInt8 := xs.flatMap putF32

/-- A writer's refusal. -/
def failIf {ε : Type} (b : Prop) [Decidable b] (err : ε) : Except ε Unit := if b then .error err else .ok ()

namespace Reader

variable {ε : Type}

def u16 (i : Nat) : Reader ε UInt16 := do
  let a ← byte i
  let b ← byte (i + 1)
  pure (joinU16 a b)

def u32 (i : Nat) : Reader ε UInt32 := do
  let a ← byte i
  let b ← byte (i + 1)
  let c ← byte (i + 2)
  let d ← byte (i + 3)
  pure (joinU32 a b c d)

def u64 (i : Nat) : Reader ε UInt64 := do
  let hi ← u32 i
  let lo ← u32 (i + 4)
  pure (joinU64 hi lo)

def f32 (i : Nat) : Reader ε Binary32 := do
  let bits ← u32 i
  pure ⟨bits⟩

def nonzeroU16 (i : Nat) : Reader ε Bool := do
  let x ← u16 i
  test (x ≠ 0)

def nonzeroU32 (i : Nat) : Reader ε Bool := do
  let x ← u32 i
  test (x ≠ 0)

def bytes (i n : Nat) : Reader ε (Vector UInt8 n) := vectorAt (fun k => byte (i + k)) n

def u16s (i n : Nat) : Reader ε (Vector UInt16 n) := vectorAt (fun k => u16 (i + k * 2)) n

def u32s (i n : Nat) : Reader ε (Vector UInt32 n) := vectorAt (fun k => u32 (i + k * 4)) n

def u64s (i n : Nat) : Reader ε (Vector UInt64 n) := vectorAt (fun k => u64 (i + k * 8)) n

/-- The bytes from `i` on, as many as given. -/
def slice (i n : Nat) : Reader ε (List UInt8) := listAt (fun k => byte (i + k)) n

def f32s (i n : Nat) : Reader ε (Vector Binary32 n) := vectorAt (fun k => f32 (i + k * 4)) n

end Reader

section Join

theorem joinU16_toNat (a b : UInt8) : (joinU16 a b).toNat = a.toNat * 2 ^ 8 + b.toNat := by
  have ha := a.toNat_lt
  have hb := b.toNat_lt
  rw [joinU16, UInt16.toNat_or, UInt16.toNat_shiftLeft, UInt8.toNat_toUInt16, UInt8.toNat_toUInt16,
    show (8 : UInt16).toNat % 16 = 8 from rfl, Nat.shiftLeft_eq, Nat.mod_eq_of_lt (by omega), mul_comm,
    ← Nat.two_pow_add_eq_or_of_lt (by omega)]

theorem joinU32_toNat (a b c d : UInt8) :
    (joinU32 a b c d).toNat = a.toNat * 2 ^ 24 + b.toNat * 2 ^ 16 + c.toNat * 2 ^ 8 + d.toNat := by
  have ha := a.toNat_lt
  have hb := b.toNat_lt
  have hc := c.toNat_lt
  have hd := d.toNat_lt
  simp only [joinU32, UInt32.toNat_or, UInt32.toNat_shiftLeft, UInt8.toNat_toUInt32, Nat.shiftLeft_eq,
    show (24 : UInt32).toNat % 32 = 24 from rfl, show (16 : UInt32).toNat % 32 = 16 from rfl,
    show (8 : UInt32).toNat % 32 = 8 from rfl]
  rw [Nat.mod_eq_of_lt (by omega), Nat.mod_eq_of_lt (by omega), Nat.mod_eq_of_lt (by omega),
    mul_comm a.toNat, ← Nat.two_pow_add_eq_or_of_lt (by omega),
    show 2 ^ 24 * a.toNat + b.toNat * 2 ^ 16 = 2 ^ 16 * (2 ^ 8 * a.toNat + b.toNat) by ring,
    ← Nat.two_pow_add_eq_or_of_lt (by omega),
    show 2 ^ 16 * (2 ^ 8 * a.toNat + b.toNat) + c.toNat * 2 ^ 8 =
      2 ^ 8 * (2 ^ 16 * a.toNat + 2 ^ 8 * b.toNat + c.toNat) by ring,
    ← Nat.two_pow_add_eq_or_of_lt (by omega)]

theorem joinU64_toNat (hi lo : UInt32) : (joinU64 hi lo).toNat = hi.toNat * 2 ^ 32 + lo.toNat := by
  have hhi := hi.toNat_lt
  have hlo := lo.toNat_lt
  rw [joinU64, UInt64.toNat_or, UInt64.toNat_shiftLeft, UInt32.toNat_toUInt64, UInt32.toNat_toUInt64,
    show (32 : UInt64).toNat % 64 = 32 from rfl, Nat.shiftLeft_eq, Nat.mod_eq_of_lt (by omega), mul_comm,
    ← Nat.two_pow_add_eq_or_of_lt (by omega)]

theorem joinU16_eq_iff {a b : UInt8} {x : UInt16} : joinU16 a b = x ↔ a = (x >>> 8).toUInt8 ∧ b = x.toUInt8 := by
  have hb := b.toNat_lt
  have hx := x.toNat_lt
  simp only [← UInt16.toNat_inj, ← UInt8.toNat_inj, joinU16_toNat, UInt16.toNat_toUInt8, UInt16.toNat_shiftRight,
    Nat.shiftRight_eq_div_pow, show (8 : UInt16).toNat % 16 = 8 from rfl]
  omega

theorem joinU32_eq_iff {a b c d : UInt8} {x : UInt32} : joinU32 a b c d = x ↔
    a = (x >>> 24).toUInt8 ∧ b = (x >>> 16).toUInt8 ∧ c = (x >>> 8).toUInt8 ∧ d = x.toUInt8 := by
  have hb := b.toNat_lt
  have hc := c.toNat_lt
  have hd := d.toNat_lt
  have hx := x.toNat_lt
  simp only [← UInt32.toNat_inj, ← UInt8.toNat_inj, joinU32_toNat, UInt32.toNat_toUInt8, UInt32.toNat_shiftRight,
    Nat.shiftRight_eq_div_pow, show (24 : UInt32).toNat % 32 = 24 from rfl,
    show (16 : UInt32).toNat % 32 = 16 from rfl, show (8 : UInt32).toNat % 32 = 8 from rfl]
  omega

theorem joinU64_eq_iff {hi lo : UInt32} {x : UInt64} :
    joinU64 hi lo = x ↔ hi = (x >>> 32).toUInt32 ∧ lo = x.toUInt32 := by
  have hlo := lo.toNat_lt
  have hx := x.toNat_lt
  simp only [← UInt64.toNat_inj, ← UInt32.toNat_inj, joinU64_toNat, UInt64.toNat_toUInt32, UInt64.toNat_shiftRight,
    Nat.shiftRight_eq_div_pow, show (32 : UInt64).toNat % 64 = 32 from rfl]
  omega

end Join

/-- The bytes go on with `piece` at index `i`. -/
def At (p : List UInt8) (i : Nat) (piece : List UInt8) : Prop := piece <+: p.drop i

section At

variable {p : List UInt8} {i : Nat}

@[simp] theorem at_nil : At p i [] := List.nil_prefix

@[simp] theorem at_cons {x : UInt8} {xs : List UInt8} : At p i (x :: xs) ↔ p[i]? = some x ∧ At p (i + 1) xs := by
  rw [At, At]
  rcases Nat.lt_or_ge i p.length with hlt | hge
  · rw [List.drop_eq_getElem_cons hlt, List.cons_prefix_cons, List.getElem?_eq_getElem hlt, Option.some_inj, eq_comm]
  · rw [List.drop_eq_nil_of_le hge, List.getElem?_eq_none hge]
    simp

@[simp] theorem at_append {xs ys : List UInt8} : At p i (xs ++ ys) ↔ At p i xs ∧ At p (i + xs.length) ys := by
  induction xs generalizing i with
  | nil => simp
  | cons x xs ih =>
    rw [List.cons_append, at_cons, at_cons, ih, List.length_cons, and_assoc]
    rw [show i + 1 + xs.length = i + (xs.length + 1) by omega]

theorem eq_iff_at {w : List UInt8} : p = w ↔ p.length = w.length ∧ At p 0 w := by
  rw [At, List.drop_zero]
  constructor
  · rintro rfl
    exact ⟨rfl, List.prefix_rfl⟩
  · rintro ⟨hlength, hpiece⟩
    exact (hpiece.eq_of_length hlength.symm).symm

theorem at_unique {xs ys : List UInt8} (hx : At p i xs) (hy : At p i ys) (h : xs.length = ys.length) : xs = ys :=
  (List.prefix_of_prefix_length_le hx hy h.le).eq_of_length h

theorem at_middle {xs ys zs : List UInt8} : At (xs ++ ys ++ zs) xs.length ys := by
  rw [At, List.append_assoc, List.drop_left]
  exact List.prefix_append ys zs

theorem at_flatMap {α : Type} {put : α → List UInt8} {width : Nat} (hwidth : ∀ x, (put x).length = width)
    {xs : List α} : At p i (xs.flatMap put) ↔ ∀ k (h : k < xs.length), At p (i + k * width) (put xs[k]) := by
  induction xs generalizing i with
  | nil => simp
  | cons x xs ih =>
    rw [List.flatMap_cons, at_append, ih, hwidth]
    constructor
    · rintro ⟨hhead, htail⟩ k hk
      cases k with
      | zero => simpa using hhead
      | succ k =>
        have hnext := htail k (by simpa using hk)
        rwa [show i + width + k * width = i + (k + 1) * width by ring] at hnext
    · intro h
      have hfirst : At p (i + 0 * width) (put x) := h 0 (Nat.succ_pos _)
      refine ⟨by simpa using hfirst, fun k hk => ?_⟩
      have hnext := h (k + 1) (by simpa using hk)
      rwa [show i + (k + 1) * width = i + width + k * width by ring] at hnext

end At

section Lengths

@[simp] theorem putU16_length (x : UInt16) : (putU16 x).length = 2 := rfl

@[simp] theorem putU32_length (x : UInt32) : (putU32 x).length = 4 := rfl

@[simp] theorem putU64_length (x : UInt64) : (putU64 x).length = 8 := rfl

@[simp] theorem putF32_length (x : Binary32) : (putF32 x).length = 4 := rfl

theorem flatMap_length {α : Type} {put : α → List UInt8} {width : Nat} (hwidth : ∀ x, (put x).length = width)
    (xs : List α) : (xs.flatMap put).length = xs.length * width := by
  induction xs with
  | nil => simp
  | cons x xs ih => rw [List.flatMap_cons, List.length_append, ih, hwidth, List.length_cons]; ring

@[simp] theorem putU16s_length (xs : List UInt16) : (putU16s xs).length = xs.length * 2 :=
  flatMap_length putU16_length xs

@[simp] theorem putU32s_length (xs : List UInt32) : (putU32s xs).length = xs.length * 4 :=
  flatMap_length putU32_length xs

@[simp] theorem putU64s_length (xs : List UInt64) : (putU64s xs).length = xs.length * 8 :=
  flatMap_length putU64_length xs

@[simp] theorem putF32s_length (xs : List Binary32) : (putF32s xs).length = xs.length * 4 :=
  flatMap_length putF32_length xs

end Lengths

section Except

variable {ε α β : Type}

@[simp] theorem except_bind_ok {x : Except ε α} {f : α → Except ε β} {y : β} :
    (x >>= f) = .ok y ↔ ∃ a, x = .ok a ∧ f a = .ok y := by
  cases x with
  | error err =>
    constructor
    · intro h
      cases h
    · rintro ⟨_, h, _⟩
      cases h
  | ok a =>
    constructor
    · intro h
      exact ⟨a, rfl, h⟩
    · rintro ⟨_, ha, h⟩
      cases ha
      exact h

@[simp high] theorem except_bind_unit_ok {x : Except ε Unit} {f : Unit → Except ε β} {y : β} :
    (x >>= f) = .ok y ↔ x = .ok () ∧ f () = .ok y := by
  rw [except_bind_ok]
  exact ⟨fun ⟨_, h⟩ => h, fun h => ⟨(), h⟩⟩

@[simp] theorem failIf_ok {b : Prop} [Decidable b] {err : ε} : failIf b err = .ok () ↔ ¬b := by
  rw [failIf]
  split
  · simp_all
  · simp_all

end Except

variable {n : Nat}

theorem toNat_eq_iff16 {x : UInt16} : n = x.toNat ↔ x = UInt16.ofNat n ∧ n < 2 ^ 16 := by
  constructor
  · rintro rfl
    exact ⟨UInt16.ofNat_toNat.symm, x.toNat_lt⟩
  · rintro ⟨rfl, h⟩
    exact (UInt16.toNat_ofNat_of_lt' h).symm

theorem toNat_eq_iff32 {x : UInt32} : n = x.toNat ↔ x = UInt32.ofNat n ∧ n < 2 ^ 32 := by
  constructor
  · rintro rfl
    exact ⟨UInt32.ofNat_toNat.symm, x.toNat_lt⟩
  · rintro ⟨rfl, h⟩
    exact (UInt32.toNat_ofNat_of_lt' h).symm

theorem toNat_eq_iff64 {x : UInt64} : n = x.toNat ↔ x = UInt64.ofNat n ∧ n < 2 ^ 64 := by
  constructor
  · rintro rfl
    exact ⟨UInt64.ofNat_toNat.symm, x.toNat_lt⟩
  · rintro ⟨rfl, h⟩
    exact (UInt64.toNat_ofNat_of_lt' h).symm

theorem toNat_eq_iff8 {x : UInt8} : n = x.toNat ↔ x = UInt8.ofNat n ∧ n < 2 ^ 8 := by
  constructor
  · rintro rfl
    exact ⟨UInt8.ofNat_toNat.symm, x.toNat_lt⟩
  · rintro ⟨rfl, h⟩
    exact (UInt8.toNat_ofNat_of_lt' h).symm

namespace Reader

variable {ε α β : Type} {p : List UInt8} {i : Nat}

section Ok

@[simp] theorem pure_ok {x y : α} : (pure x : Reader ε α).run p = .ok y ↔ x = y := by
  show Outcome.ok x = Outcome.ok y ↔ x = y
  simp

@[simp] theorem bind_ok {r : Reader ε α} {f : α → Reader ε β} {y : β} :
    (r >>= f).run p = .ok y ↔ ∃ x, r.run p = .ok x ∧ (f x).run p = .ok y := by
  show (match r.run p with
    | .ok x => (f x).run p
    | .refused err => .refused err
    | .overrun i => .overrun i) = .ok y ↔ _
  cases r.run p <;> simp

@[simp high] theorem bind_unit_ok {r : Reader ε Unit} {f : Unit → Reader ε β} {y : β} :
    (r >>= f).run p = .ok y ↔ r.run p = .ok () ∧ (f ()).run p = .ok y := by
  rw [bind_ok]
  exact ⟨fun ⟨_, h⟩ => h, fun h => ⟨(), h⟩⟩

@[simp] theorem byte_ok {x : UInt8} : (byte i : Reader ε UInt8).run p = .ok x ↔ p[i]? = some x := by
  show (match p[i]? with
    | some x => Outcome.ok x
    | none => .overrun i) = .ok x ↔ _
  cases p[i]? <;> simp

@[simp] theorem test_ok {b : Prop} [Decidable b] : (test b : Reader ε Bool).run p = .ok false ↔ ¬b := by
  rw [test, pure_ok, decide_eq_false_iff_not]

@[simp] theorem nonzero_ok : (nonzero i : Reader ε Bool).run p = .ok false ↔ p[i]? = some 0 := by
  simp [nonzero]

@[simp] theorem differs_ok {x : UInt8} : (differs i x : Reader ε Bool).run p = .ok false ↔ p[i]? = some x := by
  simp [differs]

@[simp] theorem size_ok : (size : Reader ε Nat).run p = .ok n ↔ p.length = n := by
  simp [size]

@[simp] theorem shorter_ok : (shorter n : Reader ε Bool).run p = .ok false ↔ n ≤ p.length := by
  simp [shorter]

@[simp] theorem missized_ok : (missized n : Reader ε Bool).run p = .ok false ↔ p.length = n := by
  simp [missized]

@[simp] theorem refuseIf_nil {err : ε} : (refuseIf err []).run p = .ok () ↔ True := by
  simp [refuseIf]

@[simp] theorem refuseIf_cons {err : ε} {t : Reader ε Bool} {rest : List (Reader ε Bool)} :
    (refuseIf err (t :: rest)).run p = .ok () ↔ t.run p = .ok false ∧ (refuseIf err rest).run p = .ok () := by
  rw [refuseIf, bind_ok]
  constructor
  · rintro ⟨holds, ht, hrest⟩
    cases holds with
    | false => exact ⟨ht, hrest⟩
    | true => cases hrest
  · rintro ⟨ht, hrest⟩
    exact ⟨false, ht, hrest⟩

@[simp] theorem check_ok {outcome : Except ε Unit} : (check outcome).run p = .ok () ↔ outcome = .ok () := by
  cases outcome with
  | error err => simp [check]
  | ok => simp [check]

@[simp] theorem accept_ok {validate : α → Except ε Unit} {x y : α} :
    (accept validate x).run p = .ok y ↔ validate x = .ok () ∧ x = y := by
  rw [accept, bind_unit_ok, check_ok, pure_ok]

theorem optional_ok {b : Prop} [Decidable b] {r : Reader ε α} {x : Option α} :
    (optional b r).run p = .ok x ↔ (b → ∃ y, r.run p = .ok y ∧ some y = x) ∧ (¬b → none = x) := by
  rw [optional]
  split
  · simp_all
  · simp_all

variable {read : Nat → Reader ε α}

theorem vectorAt_ok {row : Vector α n} :
    (vectorAt read n).run p = .ok row ↔ ∀ k (h : k < n), (read k).run p = .ok row[k] := by
  induction n with
  | zero => simp [vectorAt]
  | succ n ih =>
    rw [vectorAt, bind_ok]
    constructor
    · rintro ⟨init, hinit, h⟩ k hk
      obtain ⟨x, hx, h⟩ := bind_ok.mp h
      rw [pure_ok] at h
      subst h
      rcases Nat.lt_succ_iff_lt_or_eq.mp hk with hlt | rfl
      · rw [Vector.getElem_push_lt hlt]
        exact ih.mp hinit k hlt
      · rwa [Vector.getElem_push_eq]
    · intro h
      refine ⟨row.pop, ih.mpr fun k hk => ?_, bind_ok.mpr ⟨row[n], h n (Nat.lt_succ_self n), ?_⟩⟩
      · rw [Vector.getElem_pop]
        exact h k (by omega)
      · rw [pure_ok]
        exact Vector.push_pop_back row

theorem listAt_ok {xs : List α} :
    (listAt read n).run p = .ok xs ↔ xs.length = n ∧ ∀ k (h : k < xs.length), (read k).run p = .ok xs[k] := by
  rw [listAt, bind_ok]
  constructor
  · rintro ⟨row, hrow, h⟩
    rw [pure_ok] at h
    subst h
    exact ⟨row.length_toList, fun k hk => by simpa using vectorAt_ok.mp hrow k (by simpa using hk)⟩
  · rintro ⟨rfl, h⟩
    exact ⟨⟨xs.toArray, xs.size_toArray⟩, vectorAt_ok.mpr fun k hk => by simpa using h k hk, by simp⟩

theorem listAt_entries {put : α → List UInt8} {width : Nat} {P : α → Prop} (hwidth : ∀ x, (put x).length = width)
    (hread : ∀ k x, (read k).run p = .ok x ↔ At p (i + k * width) (put x) ∧ P x) {xs : List α} :
    (listAt read n).run p = .ok xs ↔ xs.length = n ∧ At p i (xs.flatMap put) ∧ ∀ x ∈ xs, P x := by
  rw [listAt_ok, at_flatMap hwidth, List.forall_mem_iff_forall_getElem]
  refine and_congr_right fun _ => ⟨fun h => ⟨fun k hk => ?_, fun k hk => ?_⟩, fun h k hk => ?_⟩
  · exact ((hread k _).mp (h k hk)).1
  · exact ((hread k _).mp (h k hk)).2
  · exact (hread k _).mpr ⟨h.1 k hk, h.2 k hk⟩

theorem vectorAt_entries {put : α → List UInt8} {width : Nat} {P : α → Prop} (hwidth : ∀ x, (put x).length = width)
    (hread : ∀ k x, (read k).run p = .ok x ↔ At p (i + k * width) (put x) ∧ P x) {row : Vector α n} :
    (vectorAt read n).run p = .ok row ↔ At p i (row.toList.flatMap put) ∧ ∀ x ∈ row.toList, P x := by
  have hlist : (vectorAt read n).run p = .ok row ↔ (listAt read n).run p = .ok row.toList := by
    rw [vectorAt_ok, listAt_ok]
    simp
  rw [hlist, listAt_entries hwidth hread]
  exact ⟨fun h => h.2, fun h => ⟨row.length_toList, h⟩⟩

@[simp] theorem u16_ok {x : UInt16} : (u16 i : Reader ε UInt16).run p = .ok x ↔ At p i (putU16 x) := by
  simp [u16, putU16, joinU16_eq_iff]

@[simp] theorem u32_ok {x : UInt32} : (u32 i : Reader ε UInt32).run p = .ok x ↔ At p i (putU32 x) := by
  simp [u32, putU32, joinU32_eq_iff]

theorem exists_at_putU32 (h : i + 4 ≤ p.length) : ∃ x, At p i (putU32 x) := by
  refine ⟨joinU32 p[i] p[i + 1] p[i + 2] p[i + 3], (u32_ok (ε := Unit)).mp ?_⟩
  simp only [u32, bind_ok, byte_ok, pure_ok]
  exact ⟨_, List.getElem?_eq_getElem _, _, List.getElem?_eq_getElem _, _, List.getElem?_eq_getElem _, _,
    List.getElem?_eq_getElem _, rfl⟩

@[simp] theorem nonzeroU16_ok : (nonzeroU16 i : Reader ε Bool).run p = .ok false ↔ At p i (putU16 0) := by
  simp [nonzeroU16]

@[simp] theorem nonzeroU32_ok : (nonzeroU32 i : Reader ε Bool).run p = .ok false ↔ At p i (putU32 0) := by
  simp [nonzeroU32]

@[simp] theorem u64_ok {x : UInt64} : (u64 i : Reader ε UInt64).run p = .ok x ↔ At p i (putU64 x) := by
  simp [u64, putU64, joinU64_eq_iff]

@[simp] theorem f32_ok {x : Binary32} : (f32 i : Reader ε Binary32).run p = .ok x ↔ At p i (putF32 x) := by
  obtain ⟨bits⟩ := x
  simp [f32, putF32]

@[simp] theorem bytes_ok {row : Vector UInt8 n} : (bytes i n : Reader ε _).run p = .ok row ↔ At p i row.toList := by
  have hself : row.toList = row.toList.flatMap fun x => [x] := by simp
  rw [bytes, vectorAt_ok, hself, at_flatMap fun _ => List.length_singleton]
  simp

@[simp] theorem u16s_ok {row : Vector UInt16 n} :
    (u16s i n : Reader ε _).run p = .ok row ↔ At p i (putU16s row.toList) := by
  rw [u16s, vectorAt_entries putU16_length fun k x => by rw [u16_ok, and_iff_left trivial], putU16s]
  simp

@[simp] theorem u32s_ok {row : Vector UInt32 n} :
    (u32s i n : Reader ε _).run p = .ok row ↔ At p i (putU32s row.toList) := by
  rw [u32s, vectorAt_entries putU32_length fun k x => by rw [u32_ok, and_iff_left trivial], putU32s]
  simp

@[simp] theorem u64s_ok {row : Vector UInt64 n} :
    (u64s i n : Reader ε _).run p = .ok row ↔ At p i (putU64s row.toList) := by
  rw [u64s, vectorAt_entries putU64_length fun k x => by rw [u64_ok, and_iff_left trivial], putU64s]
  simp

@[simp] theorem slice_ok {xs : List UInt8} : (slice i n : Reader ε _).run p = .ok xs ↔ xs.length = n ∧ At p i xs := by
  have hself : xs = xs.flatMap fun x => [x] := by simp
  nth_rewrite 3 [hself]
  rw [slice, listAt_ok, at_flatMap fun _ => List.length_singleton]
  simp

@[simp] theorem f32s_ok {row : Vector Binary32 n} :
    (f32s i n : Reader ε _).run p = .ok row ↔ At p i (putF32s row.toList) := by
  rw [f32s, vectorAt_entries putF32_length fun k x => by rw [f32_ok, and_iff_left trivial], putF32s]
  simp

end Ok

/-- No index at or past the end is looked at. -/
def Safe (r : Reader ε α) (p : List UInt8) : Prop := ∀ i, r.run p ≠ .overrun i

section Safe

@[simp] theorem safe_pure {x : α} : (pure x : Reader ε α).Safe p := by
  intro i h
  cases h

variable {r : Reader ε α}

theorem overruns_bind {f : α → Reader ε β} {j : Nat} : (r >>= f).run p = .overrun j ↔
    r.run p = .overrun j ∨ ∃ x, r.run p = .ok x ∧ (f x).run p = .overrun j := by
  show (match r.run p with
    | .ok x => (f x).run p
    | .refused err => .refused err
    | .overrun i => .overrun i) = .overrun j ↔ _
  cases r.run p <;> simp

@[simp] theorem safe_bind {f : α → Reader ε β} : (r >>= f).Safe p ↔ r.Safe p ∧ ∀ x, r.run p = .ok x → (f x).Safe p := by
  constructor
  · intro h
    refine ⟨fun j hr => h j (overruns_bind.mpr (.inl hr)), fun x hx j hf => ?_⟩
    exact h j (overruns_bind.mpr (.inr ⟨x, hx, hf⟩))
  · rintro ⟨hr, hf⟩ j hj
    rcases overruns_bind.mp hj with h | ⟨x, hx, h⟩
    · exact hr j h
    · exact hf x hx j h

@[simp high] theorem safe_bind_unit {r : Reader ε Unit} {f : Unit → Reader ε β} :
    (r >>= f).Safe p ↔ r.Safe p ∧ (r.run p = .ok () → (f ()).Safe p) := by
  rw [safe_bind]
  exact and_congr_right fun _ => ⟨fun h => h (), fun h _ => h⟩

@[simp] theorem safe_byte : (byte i : Reader ε UInt8).Safe p ↔ i < p.length := by
  constructor
  · intro h
    by_contra hge
    exact h i (by simp [byte, List.getElem?_eq_none (Nat.le_of_not_lt hge)])
  · intro hlt j h
    simp [byte, List.getElem?_eq_getElem hlt] at h

@[simp] theorem safe_test {b : Prop} [Decidable b] : (test b : Reader ε Bool).Safe p := safe_pure

@[simp] theorem safe_nonzero : (nonzero i : Reader ε Bool).Safe p ↔ i < p.length := by
  simp [nonzero]

@[simp] theorem safe_differs {x : UInt8} : (differs i x : Reader ε Bool).Safe p ↔ i < p.length := by
  simp [differs]

@[simp] theorem safe_shorter : (shorter n : Reader ε Bool).Safe p := by
  intro i h
  cases h

@[simp] theorem safe_size : (size : Reader ε Nat).Safe p := by
  intro i h
  cases h

@[simp] theorem safe_missized : (missized n : Reader ε Bool).Safe p := by
  intro i h
  cases h

@[simp] theorem safe_refuseIf_nil {err : ε} : (refuseIf err []).Safe p := safe_pure

@[simp] theorem safe_refuseIf_cons {err : ε} {t : Reader ε Bool} {rest : List (Reader ε Bool)} :
    (refuseIf err (t :: rest)).Safe p ↔ t.Safe p ∧ (t.run p = .ok false → (refuseIf err rest).Safe p) := by
  rw [refuseIf, safe_bind]
  refine and_congr_right fun _ => ⟨fun h hfalse => h false hfalse, fun h holds hholds => ?_⟩
  cases holds with
  | false => exact h hholds
  | true => intro i hi; cases hi

@[simp] theorem safe_check {outcome : Except ε Unit} : (check outcome).Safe p := by
  intro i h
  cases outcome with
  | error err => cases h
  | ok => cases h

@[simp] theorem safe_accept {validate : α → Except ε Unit} {x : α} : (accept validate x).Safe p := by
  simp [accept]

@[simp] theorem safe_optional {b : Prop} [Decidable b] : (optional b r).Safe p ↔ (b → r.Safe p) := by
  rw [optional]
  split
  · simp_all
  · simp_all

variable {read : Nat → Reader ε α}

theorem safe_vectorAt (h : ∀ k < n, (read k).Safe p) : (vectorAt read n).Safe p := by
  induction n with
  | zero => exact safe_pure
  | succ n ih =>
    rw [vectorAt, safe_bind]
    refine ⟨ih fun k hk => h k (Nat.lt_succ_of_lt hk), fun row _ => ?_⟩
    rw [safe_bind]
    exact ⟨h n (Nat.lt_succ_self n), fun x _ => safe_pure⟩

theorem safe_listAt (h : ∀ k < n, (read k).Safe p) : (listAt read n).Safe p := by
  rw [listAt, safe_bind]
  exact ⟨safe_vectorAt h, fun row _ => safe_pure⟩

theorem safe_entries {n width : Nat} (h : i + n * width ≤ p.length)
    (hread : ∀ j, j + width ≤ p.length → (read j).Safe p) :
    (listAt (fun k => read (i + k * width)) n).Safe p := by
  apply safe_listAt
  intro k hk
  apply hread
  calc i + k * width + width = i + (k + 1) * width := by ring
    _ ≤ i + n * width := Nat.add_le_add_left (Nat.mul_le_mul_right width hk) i
    _ ≤ p.length := h

@[simp] theorem safe_u16 : (u16 i : Reader ε UInt16).Safe p ↔ i + 1 < p.length := by
  simp only [u16, safe_bind, safe_byte, safe_pure]
  constructor
  · rintro ⟨hfirst, h⟩
    exact (h _ (byte_ok.mpr (List.getElem?_eq_getElem hfirst))).1
  · intro h
    exact ⟨by omega, fun _ _ => ⟨h, by simp⟩⟩

theorem safe_u32 (h : i + 4 ≤ p.length) : (u32 i : Reader ε UInt32).Safe p := by
  simp only [u32, safe_bind, safe_byte, safe_pure]
  exact ⟨by omega, fun _ _ => ⟨by omega, fun _ _ => ⟨by omega, fun _ _ => ⟨by omega, by simp⟩⟩⟩⟩

theorem safe_nonzeroU16 (h : i + 2 ≤ p.length) : (nonzeroU16 i : Reader ε Bool).Safe p := by
  simp only [nonzeroU16, safe_bind, safe_u16]
  exact ⟨by omega, fun _ _ => safe_test⟩

theorem safe_nonzeroU32 (h : i + 4 ≤ p.length) : (nonzeroU32 i : Reader ε Bool).Safe p := by
  simp only [nonzeroU32, safe_bind]
  exact ⟨safe_u32 h, fun _ _ => safe_test⟩

theorem safe_u64 (h : i + 8 ≤ p.length) : (u64 i : Reader ε UInt64).Safe p := by
  simp only [u64, safe_bind]
  exact ⟨safe_u32 (by omega), fun _ _ => ⟨safe_u32 (by omega), by simp⟩⟩

theorem safe_f32 (h : i + 4 ≤ p.length) : (f32 i : Reader ε Binary32).Safe p := by
  simp only [f32, safe_bind]
  exact ⟨safe_u32 h, by simp⟩

theorem safe_bytes (h : i + n ≤ p.length) : (bytes i n : Reader ε _).Safe p :=
  safe_vectorAt fun _ _ => safe_byte.mpr (by omega)

theorem safe_u16s (h : i + n * 2 ≤ p.length) : (u16s i n : Reader ε _).Safe p :=
  safe_vectorAt fun _ _ => safe_u16.mpr (by omega)

theorem safe_u32s (h : i + n * 4 ≤ p.length) : (u32s i n : Reader ε _).Safe p :=
  safe_vectorAt fun _ _ => safe_u32 (by omega)

theorem safe_f32s (h : i + n * 4 ≤ p.length) : (f32s i n : Reader ε _).Safe p :=
  safe_vectorAt fun _ _ => safe_f32 (by omega)

end Safe

end Reader

end ByteCodec
