import Mathlib.Data.List.GetD
import FlashGordon.ByteCodec

/-! Blocks of bytes that are written in place. A block has a byte at every offset, a write puts a list of bytes at an
offset and leaves the others, and a slice reads a number of bytes. A word has its least significant byte first. -/

abbrev ByteBlock := Nat → UInt8

namespace ByteBlock

open ByteCodec (joinU32 joinU32_eq_iff)

def zeros : ByteBlock := fun _ => 0

/-- `memcpy` to an offset. -/
def put (b : ByteBlock) (offset : Nat) (bytes : List UInt8) : ByteBlock := fun i =>
  if offset ≤ i then bytes.getD (i - offset) (b i) else b i

def slice (b : ByteBlock) (offset count : Nat) : List UInt8 := (List.range count).map fun i => b (offset + i)

/-- A word, least significant byte first. -/
def word (x : UInt32) : List UInt8 := [x.toUInt8, (x >>> 8).toUInt8, (x >>> 16).toUInt8, (x >>> 24).toUInt8]

def putU32 (b : ByteBlock) (offset : Nat) (x : UInt32) : ByteBlock := b.put offset (word x)

def getU32 (b : ByteBlock) (offset : Nat) : UInt32 :=
  joinU32 (b (offset + 3)) (b (offset + 2)) (b (offset + 1)) (b offset)

variable {b c : ByteBlock} {offset count i : Nat} {bytes : List UInt8} {x : UInt32}

@[simp] theorem slice_length (b : ByteBlock) (offset count : Nat) : (b.slice offset count).length = count := by
  rw [slice, List.length_map, List.length_range]

theorem put_of_outside (h : i < offset ∨ offset + bytes.length ≤ i) : b.put offset bytes i = b i := by
  rw [put]
  split
  · rw [List.getD_eq_default]
    omega
  · rfl

theorem put_of_inside (hle : offset ≤ i) (hlt : i - offset < bytes.length) :
    b.put offset bytes i = bytes[i - offset] := by
  rw [put, if_pos hle, List.getD_eq_getElem _ _ hlt]

theorem put_add (h : i < bytes.length) : b.put offset bytes (offset + i) = bytes[i] := by
  have hsub : offset + i - offset = i := Nat.add_sub_cancel_left offset i
  rw [put_of_inside (Nat.le_add_right offset i) (by rwa [hsub])]
  congr 1

theorem slice_congr (h : ∀ i < count, b (offset + i) = c (offset + i)) : b.slice offset count = c.slice offset count :=
  List.map_congr_left fun i hi => h i (List.mem_range.mp hi)

theorem slice_put_of_disjoint {place : Nat} (h : offset + count ≤ place ∨ place + bytes.length ≤ offset) :
    (b.put place bytes).slice offset count = b.slice offset count :=
  slice_congr fun i hi => put_of_outside (by omega)

theorem slice_put_self : (b.put offset bytes).slice offset bytes.length = bytes := by
  apply List.ext_getElem (slice_length _ _ _)
  intro i _ hi
  simp only [slice, List.getElem_map, List.getElem_range]
  exact put_add hi

theorem slice_add (b : ByteBlock) (offset count more : Nat) :
    b.slice offset (count + more) = b.slice offset count ++ b.slice (offset + count) more := by
  rw [slice, List.range_add, List.map_append, List.map_map]
  congr 1
  apply List.map_congr_left
  intro i _
  show b (offset + (count + i)) = _
  rw [Nat.add_assoc]

@[simp] theorem getU32_putU32 : (b.putU32 offset x).getU32 offset = x := by
  rw [getU32, joinU32_eq_iff]
  have hbyte : ∀ i (h : i < (word x).length), b.putU32 offset x (offset + i) = (word x)[i] := fun i h => put_add h
  exact ⟨hbyte 3 (show 3 < 4 by decide), hbyte 2 (show 2 < 4 by decide), hbyte 1 (show 1 < 4 by decide),
    hbyte 0 (show 0 < 4 by decide)⟩

theorem getU32_congr (h : ∀ i < 4, b (offset + i) = c (offset + i)) : b.getU32 offset = c.getU32 offset := by
  rw [getU32, getU32, h 3 (by decide), h 2 (by decide), h 1 (by decide)]
  congr 1
  exact h 0 (by decide)

theorem getU32_put_of_disjoint {place : Nat} (h : offset + 4 ≤ place ∨ place + bytes.length ≤ offset) :
    (b.put place bytes).getU32 offset = b.getU32 offset :=
  getU32_congr fun i hi => put_of_outside (by omega)

theorem getU32_putU32_of_disjoint {place : Nat} (h : offset + 4 ≤ place ∨ place + 4 ≤ offset) :
    (b.putU32 place x).getU32 offset = b.getU32 offset := getU32_put_of_disjoint h

theorem slice_putU32_of_disjoint {place : Nat} (h : offset + count ≤ place ∨ place + 4 ≤ offset) :
    (b.putU32 place x).slice offset count = b.slice offset count := slice_put_of_disjoint h

end ByteBlock
