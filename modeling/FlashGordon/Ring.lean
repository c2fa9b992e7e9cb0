import Mathlib.Data.List.Range
import Mathlib.Data.Nat.ModEq

/-! Ring buffers over a fixed number of cells: `count` elements stand in consecutive cells from `head` on,
and the cell after the last one is the first. -/

namespace Ring

variable {α β : Type*} {depth head count : Nat}

/-- The cell of the `i`-th element. -/
def slot (depth head i : Nat) : Nat := (head + i) % depth

/-- The elements in the order they were put in. -/
def contents (depth head count : Nat) (cells : Nat → α) : List α :=
  (List.range count).map fun i => cells (slot depth head i)

theorem slot_zero (h : head < depth) : slot depth head 0 = head := Nat.mod_eq_of_lt h

theorem slot_advance (depth head i : Nat) : slot depth ((head + 1) % depth) i = slot depth head (i + 1) := by
  simp only [slot, Nat.mod_add_mod]
  congr 1
  omega

theorem slot_injective {i j : Nat} (hi : i < depth) (hj : j < depth)
    (h : slot depth head i = slot depth head j) : i = j := by
  have hmod : Nat.ModEq depth i j := Nat.ModEq.add_left_cancel' head h
  rwa [Nat.ModEq, Nat.mod_eq_of_lt hi, Nat.mod_eq_of_lt hj] at hmod

@[simp] theorem length_contents (depth head count : Nat) (cells : Nat → α) :
    (contents depth head count cells).length = count := by
  simp [contents]

theorem contents_add (depth head count more : Nat) (cells : Nat → α) :
    contents depth head (count + more) cells = contents depth head count cells ++
      (List.range more).map fun i => cells (slot depth head (count + i)) := by
  simp only [contents, List.range_add, List.map_append, List.map_map]
  rfl

theorem contents_succ (h : head < depth) (cells : Nat → α) :
    contents depth head (count + 1) cells =
      cells head :: contents depth ((head + 1) % depth) count cells := by
  simp only [contents, List.range_succ_eq_map, List.map_cons, List.map_map, slot_zero h]
  congr 1
  apply List.map_congr_left
  intro i _
  exact congrArg cells (slot_advance depth head i).symm

theorem contents_congr {cells cells' : Nat → α}
    (h : ∀ i < count, cells (slot depth head i) = cells' (slot depth head i)) :
    contents depth head count cells = contents depth head count cells' := by
  apply List.map_congr_left
  intro i hi
  exact h i (List.mem_range.mp hi)

theorem slot_ne_of_free {i j : Nat} (hi : i < count) (hj : count ≤ j) (hdepth : j < depth) :
    slot depth head i ≠ slot depth head j := by
  intro h
  have := slot_injective (by omega) hdepth h
  omega

theorem contents_update_free {i : Nat} (hi : count ≤ i) (hdepth : i < depth) (cells : Nat → α) (a : α) :
    contents depth head count (Function.update cells (slot depth head i) a) =
      contents depth head count cells := by
  apply contents_congr
  intro j hj
  exact Function.update_of_ne (slot_ne_of_free hj hi hdepth) a cells

theorem contents_push (h : count < depth) (cells : Nat → α) (a : α) :
    contents depth head (count + 1) (Function.update cells (slot depth head count) a) =
      contents depth head count cells ++ [a] := by
  rw [contents_add, contents_update_free (Nat.le_refl count) h]
  simp

/-! Loops that take elements out of the middle and move the rest up. -/

theorem contents_getElem {i : Nat} (hi : i < count) (cells : Nat → α) :
    (contents depth head count cells)[i]? = some (cells (slot depth head i)) := by
  rw [contents, List.getElem?_map, List.getElem?_range hi]
  rfl

/-- One turn of the loop that keeps what meets a test: the number kept so far, and the cells. -/
def keepTurn (depth head : Nat) (keep : α → Bool) (dropped : α → α) (state : Nat × (Nat → α)) (i : Nat) :
    Nat × (Nat → α) :=
  let a := state.2 (slot depth head i)
  if keep a then
    (state.1 + 1, if state.1 = i then state.2 else Function.update state.2 (slot depth head state.1) a)
  else (state.1, Function.update state.2 (slot depth head i) (dropped a))

def keepAll (depth head count : Nat) (keep : α → Bool) (dropped : α → α) (cells : Nat → α) : Nat × (Nat → α) :=
  (List.range count).foldl (keepTurn depth head keep dropped) (0, cells)

/-- After `n` turns: what was kept stands in front, and what was not looked at stands as it stood. -/
structure Kept (depth head : Nat) (keep : α → Bool) (cells : Nat → α) (n : Nat) (state : Nat × (Nat → α)) : Prop where
  le : state.1 ≤ n
  front : contents depth head state.1 state.2 = (contents depth head n cells).filter keep
  rest : ∀ j, n ≤ j → j < depth → state.2 (slot depth head j) = cells (slot depth head j)

theorem Kept.turn {keep : α → Bool} {cells : Nat → α} {n : Nat} {state : Nat × (Nat → α)} (dropped : α → α)
    (h : Kept depth head keep cells n state) (hn : n < depth) :
    Kept depth head keep cells (n + 1) (keepTurn depth head keep dropped state n) := by
  obtain ⟨kept, after⟩ := state
  obtain ⟨hle, hfront, hrest⟩ := h
  have hlook : after (slot depth head n) = cells (slot depth head n) := hrest n (Nat.le_refl n) hn
  have hcontents : contents depth head (n + 1) cells = contents depth head n cells ++ [cells (slot depth head n)] := by
    rw [contents_add]
    rfl
  have hother : ∀ i j, i ≤ n → n + 1 ≤ j → j < depth → ∀ a,
      Function.update after (slot depth head i) a (slot depth head j) = cells (slot depth head j) := by
    intro i j hi hj hdepth a
    rw [Function.update_of_ne (slot_ne_of_free (show i < j by omega) (Nat.le_refl j) hdepth).symm]
    exact hrest j (by omega) hdepth
  rw [keepTurn]
  simp only [hlook]
  split
  next hkeep =>
    refine ⟨Nat.succ_le_succ hle, ?_, fun j hj hdepth => ?_⟩
    · rw [hcontents, List.filter_append, ← hfront, List.filter_cons_of_pos hkeep, List.filter_nil]
      split
      next heq =>
        rw [contents_add]
        simp [heq, hlook]
      · exact contents_push (by omega) after _
    · split
      · exact hrest j (by omega) hdepth
      · exact hother kept j hle hj hdepth _
  next hkeep =>
    refine ⟨Nat.le_succ_of_le hle, ?_, fun j hj hdepth => hother n j (Nat.le_refl n) hj hdepth _⟩
    rw [hcontents, List.filter_append, ← hfront, List.filter_cons_of_neg hkeep, List.filter_nil, List.append_nil]
    exact contents_update_free hle hn after _

theorem keepAll_kept (keep : α → Bool) (dropped : α → α) (cells : Nat → α) (hcount : count ≤ depth) :
    Kept depth head keep cells count (keepAll depth head count keep dropped cells) := by
  induction count with
  | zero => exact ⟨Nat.le_refl 0, rfl, fun _ _ _ => rfl⟩
  | succ n ih =>
    rw [keepAll, List.range_succ, List.foldl_concat]
    exact (ih (Nat.le_of_succ_le hcount)).turn dropped hcount

/-- The loop that moves every element behind the `i`-th one up by a cell. -/
def closeGap (depth head i count : Nat) (cells : Nat → α) : Nat → α :=
  (List.range (count - 1 - i)).foldl
    (fun cells j => Function.update cells (slot depth head (i + j)) (cells (slot depth head (i + j + 1)))) cells

theorem closeGap_cell (i n : Nat) (cells : Nat → α) (hn : i + n < depth) (k : Nat) (hk : k < depth) :
    (List.range n).foldl
        (fun cells j => Function.update cells (slot depth head (i + j)) (cells (slot depth head (i + j + 1)))) cells
        (slot depth head k) =
      if i ≤ k ∧ k < i + n then cells (slot depth head (k + 1)) else cells (slot depth head k) := by
  induction n generalizing k with
  | zero => rw [if_neg (by omega)]; rfl
  | succ n ih =>
    rw [List.range_succ, List.foldl_concat]
    rcases eq_or_ne k (i + n) with rfl | hne
    · rw [Function.update_self, ih (by omega) (i + n + 1) (by omega), if_neg (by omega), if_pos (by omega)]
    · rw [Function.update_of_ne fun h => hne (slot_injective hk (by omega) h), ih (by omega) k hk]
      split
      · rw [if_pos (by omega)]
      · rw [if_neg (by omega)]

theorem contents_closeGap {i : Nat} (hi : i < count) (hcount : count ≤ depth) (cells : Nat → α) :
    contents depth head (count - 1) (closeGap depth head i count cells) =
      (contents depth head count cells).eraseIdx i := by
  apply List.ext_getElem?
  intro k
  rw [List.getElem?_eraseIdx]
  rcases Nat.lt_or_ge k (count - 1) with hk | hk
  · rw [contents_getElem hk, closeGap, closeGap_cell i _ cells (by omega) k (by omega)]
    split
    · rw [if_neg (by omega), contents_getElem (by omega)]
    · rw [if_pos (by omega), contents_getElem (by omega)]
  · rw [List.getElem?_eq_none (by rw [length_contents]; exact hk)]
    split
    · omega
    · rw [List.getElem?_eq_none (by rw [length_contents]; omega)]

end Ring
