import Mathlib.Data.List.Nodup

/-! Linked lists in arrays. Cells are numbers and a link array gives each cell its neighbour. A `Chain` is
singly linked, its links shifted by one so that zero can end it. A `Segment` is doubly linked and hangs
between two outer values, so that segments can be joined and cut. -/

namespace Links

open Function List

def Chain (next : Nat → Nat) : Nat → List Nat → Prop
  | link, [] => link = 0
  | link, cell :: rest => link = cell + 1 ∧ Chain next (next cell) rest

variable {cells : List Nat}

theorem Chain.congr {next next' : Nat → Nat} {link : Nat} (h : Chain next link cells)
    (hsame : ∀ cell ∈ cells, next' cell = next cell) : Chain next' link cells := by
  induction cells generalizing link with
  | nil => exact h
  | cons cell rest ih =>
    refine ⟨h.1, ?_⟩
    rw [hsame cell mem_cons_self]
    exact ih h.2 fun other hother => hsame other (mem_cons_of_mem cell hother)

theorem Chain.update {next : Nat → Nat} {link cell target : Nat} (h : Chain next link cells) (hcell : cell ∉ cells) :
    Chain (update next cell target) link cells := by
  apply h.congr
  intro other hother
  exact update_of_ne (ne_of_mem_of_not_mem hother hcell) _ _

theorem Chain.push {next : Nat → Nat} {link cell : Nat} (h : Chain next link cells)
    (hcell : cell ∉ cells) : Chain (Function.update next cell link) (cell + 1) (cell :: cells) := by
  refine ⟨rfl, ?_⟩
  rw [update_self]
  exact h.update hcell

variable {prev next : Nat → Nat}

/-- The cells follow each other both ways; the first one's predecessor is `before`, the last one's
successor `after`. -/
def Segment (prev next : Nat → Nat) : Nat → List Nat → Nat → Prop
  | _, [], _ => True
  | before, cell :: rest, after =>
    prev cell = before ∧ next cell = rest.headD after ∧ Segment prev next cell rest after

theorem segment_append {before after : Nat} {first second : List Nat} :
    Segment prev next before (first ++ second) after ↔
      Segment prev next before first (second.headD after) ∧
      Segment prev next (first.getLastD before) second after := by
  induction first generalizing before with
  | nil => simp [Segment]
  | cons cell rest ih =>
    have hhead : (rest ++ second).headD after = rest.headD (second.headD after) := by
      cases rest <;> rfl
    have hlast : (cell :: rest).getLastD before = rest.getLastD cell := by
      cases rest <;> rfl
    simp only [cons_append, Segment, ih, hhead, hlast, and_assoc]

theorem Segment.congr {prev' next' : Nat → Nat} {before after : Nat} (h : Segment prev next before cells after)
    (hsame : ∀ cell ∈ cells, prev' cell = prev cell ∧ next' cell = next cell) :
    Segment prev' next' before cells after := by
  induction cells generalizing before with
  | nil => trivial
  | cons cell rest ih =>
    obtain ⟨hprev, hnext⟩ := hsame cell mem_cons_self
    refine ⟨hprev.trans h.1, hnext.trans h.2.1, ih h.2.2 ?_⟩
    intro other hother
    exact hsame other (mem_cons_of_mem cell hother)

theorem Segment.setBefore {before after target : Nat}
    (h : Segment prev next before cells after) (hnodup : cells.Nodup) (hcells : cells ≠ []) :
    Segment (update prev (cells.headD after) target) next target cells after := by
  cases cells with
  | nil => exact absurd rfl hcells
  | cons cell rest =>
    obtain ⟨hcell, -⟩ := nodup_cons.mp hnodup
    refine ⟨update_self .., h.2.1, h.2.2.congr ?_⟩
    intro other hother
    exact ⟨update_of_ne (ne_of_mem_of_not_mem hother hcell) _ _, rfl⟩

theorem Segment.setAfter {before after target : Nat}
    (h : Segment prev next before cells after) (hnodup : cells.Nodup) (hcells : cells ≠ []) :
    Segment prev (update next (cells.getLastD before) target) before cells target := by
  obtain ⟨init, last, heq⟩ := (eq_nil_or_concat cells).resolve_left hcells
  rw [concat_eq_append] at heq
  subst heq
  have hlast : (init ++ [last]).getLastD before = last := by simp
  rw [segment_append] at h ⊢
  obtain ⟨hinit, hend⟩ := h
  have hnot : last ∉ init := fun hmem => by
    have := disjoint_of_nodup_append hnodup hmem
    simp at this
  rw [hlast]
  refine ⟨hinit.congr ?_, hend.1, update_self .., trivial⟩
  intro other hother
  exact ⟨rfl, update_of_ne (ne_of_mem_of_not_mem hother hnot) _ _⟩

theorem Segment.updatePrev {before after cell target : Nat}
    (h : Segment prev next before cells after) (hcell : cell ∉ cells) :
    Segment (update prev cell target) next before cells after := by
  apply h.congr
  intro other hother
  exact ⟨update_of_ne (ne_of_mem_of_not_mem hother hcell) _ _, rfl⟩

theorem Segment.updateNext {before after cell target : Nat}
    (h : Segment prev next before cells after) (hcell : cell ∉ cells) :
    Segment prev (update next cell target) before cells after := by
  apply h.congr
  intro other hother
  exact ⟨rfl, update_of_ne (ne_of_mem_of_not_mem hother hcell) _ _⟩

/-- A doubly linked list with its two ends. -/
structure Deque where
  prev : Nat → Nat
  next : Nat → Nat
  head : Nat
  tail : Nat

namespace Deque

/-- Makes the cell's predecessor point past it. -/
def bypassNext (null : Nat) (deque : Deque) (cell : Nat) : Deque :=
  if deque.prev cell ≠ null then
    { deque with next := Function.update deque.next (deque.prev cell) (deque.next cell) }
  else if deque.head = cell then { deque with head := deque.next cell }
  else deque

/-- Makes the cell's successor point past it. -/
def bypassPrev (null : Nat) (deque : Deque) (cell previous following : Nat) : Deque :=
  if following ≠ null then { deque with prev := Function.update deque.prev following previous }
  else if deque.tail = cell then { deque with tail := previous }
  else deque

/-- Takes a cell out of the list; its own links stay as they are. -/
def unlink (null : Nat) (deque : Deque) (cell : Nat) : Deque :=
  bypassPrev null (bypassNext null deque cell) cell (deque.prev cell) (deque.next cell)

def push (null : Nat) (deque : Deque) (cell : Nat) : Deque :=
  if deque.head ≠ null then
    { prev := Function.update (Function.update deque.prev cell null) deque.head cell
      next := Function.update deque.next cell deque.head
      head := cell
      tail := deque.tail }
  else
    { prev := Function.update deque.prev cell null
      next := Function.update deque.next cell deque.head
      head := cell
      tail := cell }

structure Holds (null : Nat) (deque : Deque) (cells : List Nat) : Prop where
  head : deque.head = cells.headD null
  tail : deque.tail = cells.getLastD null
  segment : Segment deque.prev deque.next null cells null
  nodup : cells.Nodup
  null_not_mem : null ∉ cells

variable {null cell : Nat} {deque : Deque}

theorem headD_mem (h : cells ≠ []) : cells.headD null ∈ cells := by
  cases cells with
  | nil => exact absurd rfl h
  | cons first rest => exact mem_cons_self

theorem getLastD_mem (h : cells ≠ []) : cells.getLastD null ∈ cells := by
  cases cells with
  | nil => exact absurd rfl h
  | cons first rest =>
    rw [getLastD_cons]
    exact getLastD_mem_cons

theorem Holds.unlink {first second : List Nat} (h : Holds null deque (first ++ cell :: second)) :
    Holds null (deque.unlink null cell) (first ++ second) := by
  obtain ⟨hfirst, hprev, hnext, hsecond⟩ := segment_append.mp h.segment
  have hsplit := nodup_append.mp h.nodup
  have hrest := nodup_cons.mp hsplit.2.1
  have hnull : null ∉ first ∧ null ∉ second := by
    have := h.null_not_mem
    simp only [mem_append, mem_cons, not_or] at this
    exact ⟨this.1, this.2.2⟩
  have hapart : ∀ a ∈ first, a ∉ second :=
    fun a ha hmem => hsplit.2.2 a ha a (mem_cons_of_mem cell hmem) rfl
  -- the part before the cell now ends in what comes after it
  have hleft : (bypassNext null deque cell).prev = deque.prev ∧
      (bypassNext null deque cell).tail = deque.tail ∧
      (bypassNext null deque cell).head = (first ++ second).headD null ∧
      Segment deque.prev (bypassNext null deque cell).next null first (second.headD null) ∧
      Segment deque.prev (bypassNext null deque cell).next cell second null := by
    have hhead := h.head
    unfold bypassNext
    by_cases hnil : first = []
    · subst hnil
      rw [if_neg (by rw [hprev]; simp), if_pos (by rw [hhead]; rfl)]
      exact ⟨rfl, rfl, hnext, trivial, hsecond⟩
    · have hmem : deque.prev cell ∈ first := by
        rw [hprev]
        exact getLastD_mem hnil
      rw [if_pos (ne_of_mem_of_not_mem hmem hnull.1)]
      refine ⟨rfl, rfl, ?_, ?_, hsecond.updateNext (hapart _ hmem)⟩
      · show deque.head = _
        rw [hhead]
        cases first with
        | nil => exact absurd rfl hnil
        | cons a rest => rfl
      · show Segment _ (update _ (deque.prev cell) (deque.next cell)) _ _ _
        rw [hprev, hnext]
        exact hfirst.setAfter hsplit.1 hnil
  obtain ⟨hprevs, htails, hheads, hfirst', hsecond'⟩ := hleft
  -- and the part after it begins from what came before
  unfold Deque.unlink bypassPrev
  by_cases hnil : second = []
  · subst hnil
    have hcell : deque.tail = cell := by rw [h.tail]; simp
    rw [if_neg (by rw [hnext]; simp), if_pos (htails.trans hcell)]
    refine ⟨hheads, ?_, ?_, by simpa using hsplit.1, by simpa using hnull.1⟩
    · show deque.prev cell = _
      rw [hprev, append_nil]
    · show Segment (bypassNext null deque cell).prev _ null _ null
      rw [hprevs, append_nil]
      exact hfirst'
  · have hmem : deque.next cell ∈ second := by
      rw [hnext]
      exact headD_mem hnil
    rw [if_pos (ne_of_mem_of_not_mem hmem hnull.2)]
    refine ⟨hheads, ?_, segment_append.mpr ⟨?_, ?_⟩, ?_, ?_⟩
    · show (bypassNext null deque cell).tail = _
      rw [htails, h.tail]
      cases second with
      | nil => exact absurd rfl hnil
      | cons b rest => simp [getLastD_eq_getLast?]
    · show Segment (update (bypassNext null deque cell).prev _ _) _ null first _
      rw [hprevs]
      exact hfirst'.updatePrev fun hin => hapart _ hin hmem
    · show Segment (update (bypassNext null deque cell).prev (deque.next cell) (deque.prev cell)) _ _ _ _
      rw [hprevs, hnext, hprev]
      exact hsecond'.setBefore hrest.2 hnil
    · exact nodup_append.mpr ⟨hsplit.1, hrest.2, fun a ha b hb => hsplit.2.2 a ha b (mem_cons_of_mem cell hb)⟩
    · simp only [mem_append, not_or]
      exact hnull

theorem unlink_eq_self (hprev : deque.prev cell = null) (hnext : deque.next cell = null)
    (hhead : deque.head ≠ cell) (htail : deque.tail ≠ cell) : deque.unlink null cell = deque := by
  have hbypass : bypassNext null deque cell = deque := by
    unfold bypassNext
    rw [if_neg (not_not.mpr hprev), if_neg hhead]
  unfold Deque.unlink bypassPrev
  rw [hbypass, if_neg (not_not.mpr hnext), if_neg htail]

theorem Holds.update (h : Holds null deque cells) (hcell : cell ∉ cells) (previous following : Nat) :
    Holds null { deque with
      prev := update deque.prev cell previous
      next := update deque.next cell following } cells :=
  ⟨h.head, h.tail, (h.segment.updatePrev hcell).updateNext hcell, h.nodup, h.null_not_mem⟩

theorem Holds.head_ne (h : Holds null deque cells) (hcell : cell ∉ cells)
    (hnull : cell ≠ null) : deque.head ≠ cell ∧ deque.tail ≠ cell := by
  rw [h.head, h.tail]
  by_cases hnil : cells = []
  · subst hnil
    exact ⟨hnull.symm, hnull.symm⟩
  · exact ⟨ne_of_mem_of_not_mem (headD_mem hnil) hcell, ne_of_mem_of_not_mem (getLastD_mem hnil) hcell⟩

theorem Holds.push (h : Holds null deque cells) (hcell : cell ∉ cells)
    (hnull : cell ≠ null) : Holds null (deque.push null cell) (cell :: cells) := by
  have hsegment : Segment (Function.update deque.prev cell null) (Function.update deque.next cell deque.head)
      null cells null := (h.segment.updatePrev hcell).updateNext hcell
  have hhead := h.head
  unfold Deque.push
  by_cases hnil : cells = []
  · subst hnil
    simp only [headD_nil] at hhead
    rw [if_neg (not_not.mpr hhead)]
    refine ⟨rfl, rfl, ⟨update_self .., ?_, trivial⟩, nodup_singleton _, by simpa using hnull.symm⟩
    show Function.update deque.next cell deque.head cell = _
    rw [update_self]
    exact hhead
  · have hmem : deque.head ∈ cells := by
      rw [hhead]
      exact headD_mem hnil
    have hne : cell ≠ deque.head := (ne_of_mem_of_not_mem hmem hcell).symm
    rw [if_pos (ne_of_mem_of_not_mem hmem h.null_not_mem)]
    refine ⟨rfl, ?_, ⟨?_, ?_, ?_⟩, nodup_cons.mpr ⟨hcell, h.nodup⟩, ?_⟩
    · show deque.tail = _
      rw [h.tail]
      cases cells with
      | nil => exact absurd rfl hnil
      | cons a rest => simp [getLastD_eq_getLast?]
    · show Function.update (Function.update deque.prev cell null) deque.head cell cell = null
      rw [update_of_ne hne, update_self]
    · show Function.update deque.next cell deque.head cell = _
      rw [update_self, hhead]
    · show Segment (Function.update (Function.update deque.prev cell null) deque.head cell) _ cell cells null
      rw [hhead]
      exact (hhead ▸ hsegment).setBefore h.nodup hnil
    · simp only [mem_cons, not_or]
      exact ⟨hnull.symm, h.null_not_mem⟩

end Deque

end Links
