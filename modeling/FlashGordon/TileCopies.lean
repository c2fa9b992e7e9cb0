import Mathlib.Data.List.Pairwise
import Mathlib.Data.Fintype.EquivFin

/-!
Copies between two memories, and the copies that lay rows of blocks out in tiles. A list of copies moves places
of the source to places of the destination; where no destination gets two sources the order of the copies is of
no account, and copying back undoes it. A tiling splits every block into fields and gives each field of each
block a slot in the tile of its row.
-/

namespace TileCopies

open List

section Copies

variable {α : Type*}

/-- `memcpy(destination + dst, source + src, len)`. -/
structure Copy where
  dst : Nat
  src : Nat
  len : Nat

def Copy.exec (source mem : Nat → α) (c : Copy) : Nat → α := fun p =>
  if c.dst ≤ p ∧ p < c.dst + c.len then source (c.src + (p - c.dst)) else mem p

def Copy.swap (c : Copy) : Copy := ⟨c.src, c.dst, c.len⟩

def run (copies : List Copy) (source mem : Nat → α) : Nat → α := copies.foldl (Copy.exec source) mem

/-- Some copy takes what is at `s` to `d`. -/
def Moves (copies : List Copy) (s d : Nat) : Prop := ∃ c ∈ copies, ∃ i < c.len, s = c.src + i ∧ d = c.dst + i

variable {copies : List Copy} {source mem : Nat → α} {s d : Nat}

theorem run_cases (copies : List Copy) (source mem : Nat → α) (d : Nat) :
    (∃ s, Moves copies s d ∧ run copies source mem d = source s) ∨
      ((∀ s, ¬ Moves copies s d) ∧ run copies source mem d = mem d) := by
  induction copies using List.reverseRecOn with
  | nil => exact .inr ⟨fun s h => by obtain ⟨c, hc, -⟩ := h; exact absurd hc not_mem_nil, rfl⟩
  | append_singleton copies c ih =>
    have hlast : run (copies ++ [c]) source mem d = c.exec source (run copies source mem) d := by
      rw [run, foldl_append]
      rfl
    rw [hlast, Copy.exec]
    split
    · refine .inl ⟨_, ⟨c, by simp, d - c.dst, by omega, rfl, by omega⟩, rfl⟩
    next hout =>
      have hmoves (s : Nat) : Moves (copies ++ [c]) s d ↔ Moves copies s d := by
        constructor
        · rintro ⟨c', hc', i, hi, hs, hd⟩
          rcases mem_append.mp hc' with hc' | hc'
          · exact ⟨c', hc', i, hi, hs, hd⟩
          · rw [mem_singleton] at hc'
            subst hc'
            exact absurd ⟨by omega, by omega⟩ hout
        · rintro ⟨c', hc', h⟩
          exact ⟨c', mem_append_left _ hc', h⟩
      simpa only [hmoves] using ih

/-- No place gets two sources. -/
def OneSource (copies : List Copy) : Prop := ∀ s s' d, Moves copies s d → Moves copies s' d → s = s'

theorem run_moves (hone : OneSource copies) (h : Moves copies s d) : run copies source mem d = source s := by
  rcases run_cases copies source mem d with ⟨s', hmoves, heq⟩ | ⟨hnone, -⟩
  · rw [heq, hone s' s d hmoves h]
  · exact absurd h (hnone s)

theorem run_frame (h : ∀ s, ¬ Moves copies s d) : run copies source mem d = mem d := by
  rcases run_cases copies source mem d with ⟨s, hmoves, -⟩ | ⟨-, heq⟩
  · exact absurd hmoves (h s)
  · exact heq

theorem moves_swap : Moves (copies.map Copy.swap) s d ↔ Moves copies d s := by
  constructor
  · rintro ⟨c, hc, i, hi, hs, hd⟩
    obtain ⟨c', hc', rfl⟩ := mem_map.mp hc
    exact ⟨c', hc', i, hi, hd, hs⟩
  · rintro ⟨c, hc, i, hi, hs, hd⟩
    exact ⟨c.swap, mem_map_of_mem hc, i, hi, hd, hs⟩

theorem run_swap {back : Nat → α} (hone : OneSource copies) (hback : OneSource (copies.map Copy.swap))
    (h : Moves copies s d) : run (copies.map Copy.swap) (run copies source mem) back s = source s := by
  rw [run_moves hback (moves_swap.mpr h), run_moves hone h]

/-- A loop over `0`, …, `n - 1` that writes to memory. -/
def loop (n : Nat) (body : Nat → (Nat → α) → Nat → α) (mem : Nat → α) : Nat → α :=
  (List.range n).foldl (fun mem i => body i mem) mem

/-- The writes leave the goal at the places of `S`, and the other places as they are. -/
def Fills (goal : Nat → α) (S : Nat → Prop) (writes : (Nat → α) → Nat → α) : Prop :=
  ∀ mem p, (S p → writes mem p = goal p) ∧ (¬ S p → writes mem p = mem p)

variable {goal : Nat → α}

theorem Copy.fills {c : Copy} (h : ∀ i < c.len, source (c.src + i) = goal (c.dst + i)) :
    Fills goal (fun p => c.dst ≤ p ∧ p < c.dst + c.len) fun mem => c.exec source mem := by
  intro mem p
  refine ⟨fun hp => ?_, fun hp => if_neg hp⟩
  calc c.exec source mem p = source (c.src + (p - c.dst)) := if_pos hp
    _ = goal p := by rw [h _ (by omega), Nat.add_sub_cancel' hp.1]

/-- A loop fills what its passes fill, however their places meet. -/
theorem Fills.loop {S : Nat → Nat → Prop} {body : Nat → (Nat → α) → Nat → α} {n : Nat}
    (h : ∀ i < n, Fills goal (S i) (body i)) : Fills goal (fun p => ∃ i < n, S i p) (loop n body) := by
  induction n with
  | zero => exact fun mem p => ⟨fun ⟨_, hi, _⟩ => absurd hi (Nat.not_lt_zero _), fun _ => rfl⟩
  | succ n ih =>
    intro mem p
    have hlast : TileCopies.loop (n + 1) body mem p = body n (TileCopies.loop n body mem) p := by
      simp only [TileCopies.loop, range_succ, foldl_append, foldl_cons, foldl_nil]
    obtain ⟨hin, hout⟩ := h n n.lt_add_one (TileCopies.loop n body mem) p
    obtain ⟨hin', hout'⟩ := ih (fun i hi => h i (Nat.lt_add_right 1 hi)) mem p
    rw [hlast]
    by_cases hn : S n p
    · exact ⟨fun _ => hin hn, fun hnone => absurd ⟨n, n.lt_add_one, hn⟩ hnone⟩
    · rw [hout hn]
      refine ⟨fun ⟨i, hi, hp⟩ => hin' ⟨i, Nat.lt_of_le_of_ne (Nat.le_of_lt_succ hi) ?_, hp⟩, fun hnone => ?_⟩
      · rintro rfl
        exact hn hp
      · exact hout' fun ⟨i, hi, hp⟩ => hnone ⟨i, Nat.lt_add_right 1 hi, hp⟩

end Copies

structure Field where
  len : Nat
  src : Nat
  base : Nat
  blockStride : Nat
  rowStride : Nat

def Field.slot (f : Field) (block row : Nat) : Nat := f.base + block * f.blockStride + row * f.rowStride

structure Tiling where
  tileRows : Nat
  tileBytes : Nat
  blocks : Nat
  blockBytes : Nat
  fields : List Field

namespace Tiling

variable (t : Tiling)

def copyOf (row block : Nat) (f : Field) : Copy :=
  ⟨row / t.tileRows * t.tileBytes + f.slot block (row % t.tileRows), (row * t.blocks + block) * t.blockBytes + f.src,
    f.len⟩

/-- The copies of so many rows, row by row and block by block. -/
def copies (rows : Nat) : List Copy :=
  (List.range rows).flatMap fun row => (List.range t.blocks).flatMap fun block => t.fields.map (t.copyOf row block)

/-- The fields take the block apart, and the slots of a tile do not meet. -/
structure Exact : Prop where
  rows_pos : 0 < t.tileRows
  cover : ∀ k < t.blockBytes, ∃ f ∈ t.fields, ∃ i < f.len, k = f.src + i
  inside : ∀ f ∈ t.fields, f.src + f.len ≤ t.blockBytes
  apart : ∀ f ∈ t.fields, ∀ g ∈ t.fields, ∀ i < f.len, ∀ j < g.len, f.src + i = g.src + j → f = g
  slot_inside : ∀ f ∈ t.fields, ∀ row < t.tileRows, ∀ block < t.blocks, f.slot block row + f.len ≤ t.tileBytes
  slot_apart : ∀ f ∈ t.fields, ∀ g ∈ t.fields, ∀ row < t.tileRows, ∀ row' < t.tileRows, ∀ block < t.blocks,
    ∀ block' < t.blocks, ∀ i < f.len, ∀ j < g.len, f.slot block row + i = g.slot block' row' + j →
      f = g ∧ row = row' ∧ block = block'

variable {t} {rows s d : Nat}

theorem moves_iff : Moves (t.copies rows) s d ↔ ∃ row < rows, ∃ block < t.blocks, ∃ f ∈ t.fields, ∃ i < f.len,
    s = (row * t.blocks + block) * t.blockBytes + (f.src + i) ∧
      d = row / t.tileRows * t.tileBytes + (f.slot block (row % t.tileRows) + i) := by
  constructor
  · rintro ⟨c, hc, i, hi, hs, hd⟩
    obtain ⟨row, hrow, hc⟩ := mem_flatMap.mp hc
    obtain ⟨block, hblock, hc⟩ := mem_flatMap.mp hc
    obtain ⟨f, hf, rfl⟩ := mem_map.mp hc
    exact ⟨row, mem_range.mp hrow, block, mem_range.mp hblock, f, hf, i, hi, hs.trans (Nat.add_assoc ..),
      hd.trans (Nat.add_assoc ..)⟩
  · rintro ⟨row, hrow, block, hblock, f, hf, i, hi, hs, hd⟩
    refine ⟨t.copyOf row block f, ?_, i, hi, hs.trans (Nat.add_assoc ..).symm, hd.trans (Nat.add_assoc ..).symm⟩
    exact mem_flatMap.mpr ⟨row, mem_range.mpr hrow, mem_flatMap.mpr ⟨block, mem_range.mpr hblock, mem_map_of_mem hf⟩⟩

theorem digits_unique {a b n i j : Nat} (hi : i < n) (hj : j < n) (h : a * n + i = b * n + j) : a = b ∧ i = j := by
  have hdiv := congrArg (· / n) h
  have hmod := congrArg (· % n) h
  simp only [Nat.mul_add_mod_self_right, Nat.mod_eq_of_lt hi, Nat.mod_eq_of_lt hj] at hmod
  have hpos : 0 < n := Nat.lt_of_le_of_lt (Nat.zero_le i) hi
  simp only [Nat.add_comm (_ * n), Nat.add_mul_div_right _ _ hpos, Nat.div_eq_of_lt hi, Nat.div_eq_of_lt hj,
    Nat.zero_add] at hdiv
  exact ⟨hdiv, hmod⟩

namespace Exact

variable (h : t.Exact)
include h

theorem slot_lt {f : Field} (hf : f ∈ t.fields) {row block i : Nat} (hblock : block < t.blocks) (hi : i < f.len) :
    f.slot block (row % t.tileRows) + i < t.tileBytes := by
  have := h.slot_inside f hf _ (Nat.mod_lt row h.rows_pos) block hblock
  omega

theorem oneSource : OneSource (t.copies rows) := by
  intro s s' d hs hs'
  obtain ⟨row, -, block, hblock, f, hf, i, hi, rfl, hd⟩ := moves_iff.mp hs
  obtain ⟨row', -, block', hblock', g, hg, j, hj, rfl, hd'⟩ := moves_iff.mp hs'
  obtain ⟨htile, hslot⟩ := digits_unique (h.slot_lt hf hblock hi) (h.slot_lt hg hblock' hj) (hd.symm.trans hd')
  obtain ⟨rfl, hrow, rfl⟩ := h.slot_apart f hf g hg _ (Nat.mod_lt row h.rows_pos) _ (Nat.mod_lt row' h.rows_pos) block
    hblock block' hblock' i hi j hj hslot
  have heq : row = row' := by
    rw [← Nat.div_add_mod row t.tileRows, htile, hrow, Nat.div_add_mod]
  subst heq
  omega

theorem onePlace : OneSource ((t.copies rows).map Copy.swap) := by
  intro d d' s hd hd'
  obtain ⟨row, -, block, hblock, f, hf, i, hi, hs, rfl⟩ := moves_iff.mp (moves_swap.mp hd)
  obtain ⟨row', -, block', hblock', g, hg, j, hj, hs', rfl⟩ := moves_iff.mp (moves_swap.mp hd')
  have hfit := h.inside f hf
  have hfit' := h.inside g hg
  obtain ⟨hplace, hoffset⟩ := digits_unique (by omega) (by omega) (hs.symm.trans hs')
  obtain ⟨rfl, rfl⟩ := digits_unique hblock hblock' hplace
  have hfield := h.apart f hf g hg i hi j hj hoffset
  subst hfield
  obtain rfl : i = j := by omega
  rfl

theorem moved_iff : (∃ d, Moves (t.copies rows) s d) ↔ s < rows * t.blocks * t.blockBytes := by
  constructor
  · rintro ⟨d, hd⟩
    obtain ⟨row, hrow, block, hblock, f, hf, i, hi, rfl, -⟩ := moves_iff.mp hd
    have hfit := h.inside f hf
    have hplace : row * t.blocks + block + 1 ≤ rows * t.blocks := by
      have := Nat.mul_le_mul_right t.blocks (Nat.succ_le_of_lt hrow)
      rw [Nat.succ_mul] at this
      omega
    have := Nat.mul_le_mul_right t.blockBytes hplace
    rw [Nat.succ_mul] at this
    omega
  · intro hs
    have hpos : 0 < t.blockBytes := Nat.pos_of_ne_zero fun hzero => by simp [hzero] at hs
    have hblocks : 0 < t.blocks := Nat.pos_of_ne_zero fun hzero => by simp [hzero] at hs
    obtain ⟨f, hf, i, hi, hk⟩ := h.cover (s % t.blockBytes) (Nat.mod_lt s hpos)
    have hplace : s / t.blockBytes < rows * t.blocks := (Nat.div_lt_iff_lt_mul hpos).mpr hs
    refine ⟨_, moves_iff.mpr ⟨s / t.blockBytes / t.blocks, (Nat.div_lt_iff_lt_mul hblocks).mpr hplace,
      s / t.blockBytes % t.blocks, Nat.mod_lt _ hblocks, f, hf, i, hi, ?_, rfl⟩⟩
    rw [Nat.div_add_mod', ← hk, Nat.div_add_mod']

theorem moved_lt (hmoves : Moves (t.copies rows) s d) : d < (rows + t.tileRows - 1) / t.tileRows * t.tileBytes := by
  obtain ⟨row, hrow, block, hblock, f, hf, i, hi, -, rfl⟩ := moves_iff.mp hmoves
  have hslot := @slot_lt t h f hf row block i hblock hi
  have htile : row / t.tileRows + 1 ≤ (rows + t.tileRows - 1) / t.tileRows := by
    rw [← Nat.add_div_right row h.rows_pos]
    exact Nat.div_le_div_right (by have := h.rows_pos; omega)
  have := Nat.mul_le_mul_right t.tileBytes htile
  rw [Nat.succ_mul] at this
  omega

theorem copyOf_lt {row block : Nat} {f : Field} (hrow : row < rows) (hblock : block < t.blocks) (hf : f ∈ t.fields)
    (hlen : 0 < f.len) : (t.copyOf row block f).dst < (rows + t.tileRows - 1) / t.tileRows * t.tileBytes ∧
      (t.copyOf row block f).src < rows * t.blocks * t.blockBytes := by
  have hmoves : Moves (t.copies rows) (t.copyOf row block f).src (t.copyOf row block f).dst :=
    moves_iff.mpr ⟨row, hrow, block, hblock, f, hf, 0, hlen, by simp [copyOf], by simp [copyOf]⟩
  exact ⟨h.moved_lt hmoves, h.moved_iff.mp ⟨_, hmoves⟩⟩

theorem exists_place (hfull : (rows + t.tileRows - 1) / t.tileRows * t.tileBytes = rows * t.blocks * t.blockBytes) :
    ∃ place : Fin (rows * t.blocks * t.blockBytes) ≃ Fin (rows * t.blocks * t.blockBytes),
      ∀ s : Fin (rows * t.blocks * t.blockBytes), Moves (t.copies rows) s (place s) := by
  have hmoved (s : Fin (rows * t.blocks * t.blockBytes)) :
      ∃ d : Fin (rows * t.blocks * t.blockBytes), Moves (t.copies rows) s d := by
    obtain ⟨d, hd⟩ := h.moved_iff.mpr s.isLt
    exact ⟨⟨d, hfull ▸ h.moved_lt hd⟩, hd⟩
  choose place hplace using hmoved
  have hinj : Function.Injective place := fun s s' heq =>
    Fin.ext (h.oneSource _ _ _ (hplace s) (heq ▸ hplace s'))
  exact ⟨Equiv.ofBijective place (Finite.injective_iff_bijective.mp hinj), hplace⟩

end Exact

/-! ## Blocks that share a stretch of the tile -/

def blockedField (tileRows blockBytes len src : Nat) : Field :=
  ⟨len, src, tileRows * src, tileRows * blockBytes, len⟩

def blocked (tileRows blocks blockBytes : Nat) (parts : List (Nat × Nat)) : Tiling :=
  ⟨tileRows, blocks * (tileRows * blockBytes), blocks, blockBytes,
    parts.map fun part => blockedField tileRows blockBytes part.1 part.2⟩

/-- Parts that follow one another from `start` to `stop`. -/
def Contiguous : Nat → List (Nat × Nat) → Nat → Prop
  | start, [], stop => start = stop
  | start, part :: rest, stop => part.2 = start ∧ Contiguous (start + part.1) rest stop

theorem Contiguous.facts {start stop : Nat} {parts : List (Nat × Nat)} (h : Contiguous start parts stop) :
    start ≤ stop ∧ (∀ k, start ≤ k → k < stop → ∃ part ∈ parts, ∃ i < part.1, k = part.2 + i) ∧
      (∀ part ∈ parts, start ≤ part.2 ∧ part.2 + part.1 ≤ stop) ∧ parts.Pairwise fun a b => a.2 + a.1 ≤ b.2 := by
  induction parts generalizing start with
  | nil =>
    have hstop : start = stop := h
    exact ⟨hstop.le, fun k hk hk' => by omega, fun part hpart => absurd hpart not_mem_nil, .nil⟩
  | cons part rest ih =>
    obtain ⟨hsrc, hrest⟩ := h
    obtain ⟨hle, hcover, hinside, hapart⟩ := ih hrest
    refine ⟨by omega, fun k hk hk' => ?_, forall_mem_cons.mpr ⟨by omega, fun p hp => ?_⟩,
      pairwise_cons.mpr ⟨fun p hp => ?_, hapart⟩⟩
    · by_cases hin : k < start + part.1
      · exact ⟨part, mem_cons_self, k - start, by omega, by omega⟩
      · obtain ⟨p, hp, i, hi, heq⟩ := hcover k (Nat.le_of_not_lt hin) hk'
        exact ⟨p, mem_cons_of_mem _ hp, i, hi, heq⟩
    · have := hinside p hp
      omega
    · have := hinside p hp
      omega

theorem exact_blocked {tileRows blocks blockBytes : Nat} {parts : List (Nat × Nat)} (hrows : 0 < tileRows)
    (hparts : Contiguous 0 parts blockBytes) : (blocked tileRows blocks blockBytes parts).Exact := by
  obtain ⟨-, hcover, hwithin, hapart⟩ := hparts.facts
  have hinside : ∀ part ∈ parts, part.2 + part.1 ≤ blockBytes := fun part hpart => (hwithin part hpart).2
  -- A part of a block takes its own stretch of `tileRows` times its length.
  have hstretch {len src row i : Nat} (hrow : row < tileRows) (hi : i < len) :
      tileRows * src ≤ tileRows * src + (row * len + i) ∧
        tileRows * src + (row * len + i) < tileRows * (src + len) := by
    have := Nat.mul_le_mul_right len (Nat.succ_le_of_lt hrow)
    rw [Nat.succ_mul] at this
    rw [Nat.mul_add]
    omega
  have hslot {len src row block i : Nat} : (blockedField tileRows blockBytes len src).slot block row + i =
      block * (tileRows * blockBytes) + (tileRows * src + (row * len + i)) := by
    simp only [blockedField, Field.slot]
    omega
  have hplace {part : Nat × Nat} (hpart : part ∈ parts) {row i : Nat} (hrow : row < tileRows) (hi : i < part.1) :
      tileRows * part.2 + (row * part.1 + i) < tileRows * blockBytes :=
    (hstretch hrow hi).2.trans_le (Nat.mul_le_mul_left _ (hinside part hpart))
  have hpart {a b : Nat × Nat} (ha : a ∈ parts) (hb : b ∈ parts) : a = b ∨ a.2 + a.1 ≤ b.2 ∨ b.2 + b.1 ≤ a.2 := by
    have hsymm : Std.Symm fun a b : Nat × Nat => a.2 + a.1 ≤ b.2 ∨ b.2 + b.1 ≤ a.2 := ⟨fun _ _ => Or.symm⟩
    have heither : parts.Pairwise fun a b => a.2 + a.1 ≤ b.2 ∨ b.2 + b.1 ≤ a.2 := hapart.imp Or.inl
    by_cases heq : a = b
    · exact .inl heq
    · exact .inr (heither.forall ha hb heq)
  refine ⟨hrows, ?cover, ?inside, ?apart, ?slot_inside, ?slot_apart⟩
  case cover =>
    intro k hk
    obtain ⟨part, hmem, i, hi, heq⟩ := hcover k (Nat.zero_le k) hk
    exact ⟨_, mem_map_of_mem hmem, i, hi, heq⟩
  case inside =>
    intro f hf
    obtain ⟨part, hmem, rfl⟩ := mem_map.mp hf
    exact hinside part hmem
  case apart =>
    intro f hf g hg i hi j hj heq
    obtain ⟨a, ha, rfl⟩ := mem_map.mp hf
    obtain ⟨b, hb, rfl⟩ := mem_map.mp hg
    simp only [blockedField] at hi hj heq
    rcases hpart ha hb with rfl | hlt | hlt
    · rfl
    · omega
    · omega
  case slot_inside =>
    intro f hf row hrow block hblock
    obtain ⟨part, hmem, rfl⟩ := mem_map.mp hf
    have hblock' := Nat.mul_le_mul_right (tileRows * blockBytes) (Nat.succ_le_of_lt hblock)
    have hend : tileRows * part.2 + (row * part.1 + part.1) ≤ tileRows * blockBytes := by
      have hlast := Nat.mul_le_mul_right part.1 (Nat.succ_le_of_lt hrow)
      have hfit := Nat.mul_le_mul_left tileRows (hinside part hmem)
      rw [Nat.succ_mul] at hlast
      rw [Nat.mul_add] at hfit
      exact (Nat.add_le_add_left hlast _).trans hfit
    rw [Nat.succ_mul] at hblock'
    rw [show (blockedField tileRows blockBytes part.1 part.2).len = part.1 from rfl, hslot]
    exact (Nat.add_le_add_left hend _).trans hblock'
  case slot_apart =>
    intro f hf g hg row hrow row' hrow' block _ block' _ i hi j hj heq
    obtain ⟨a, ha, rfl⟩ := mem_map.mp hf
    obtain ⟨b, hb, rfl⟩ := mem_map.mp hg
    rw [hslot, hslot] at heq
    obtain ⟨hblock, hsame⟩ := digits_unique (hplace ha hrow hi) (hplace hb hrow' hj) heq
    have hsa := @hstretch a.1 a.2 row i hrow hi
    have hsb := @hstretch b.1 b.2 row' j hrow' hj
    rcases hpart ha hb with rfl | hlt | hlt
    · obtain ⟨hrows', -⟩ := digits_unique hi hj (Nat.add_left_cancel hsame)
      exact ⟨rfl, hrows', hblock⟩
    · have := Nat.mul_le_mul_left tileRows hlt
      omega
    · have := Nat.mul_le_mul_left tileRows hlt
      omega

end Tiling

end TileCopies
