import Mathlib.Algebra.Order.BigOperators.Group.Finset
import Mathlib.Data.Fintype.BigOperators
import Mathlib.Algebra.Group.Action.Defs

/-! Filling bins of one capacity. Every key goes to the least loaded bin that has room; loads are only
compared, and need not all be comparable. -/

namespace LeastLoaded

open Function List

variable {n : Nat} {K V W L : Type*}

section Pick

variable [Preorder L] [DecidableLT L] [BEq L]

/-- Whether a bin is taken instead of the best one so far. -/
def Beats (load : Fin n → L) : Option (Fin n) → Fin n → Prop
  | none, _ => True
  | some best, bin => load bin < load best ∨ (load bin == load best) = true ∧ bin < best

instance (load : Fin n → L) (best : Option (Fin n)) (bin : Fin n) : Decidable (Beats load best bin) :=
  match best with
  | none => isTrue trivial
  | some best => inferInstanceAs (Decidable (load bin < load best ∨ (load bin == load best) = true ∧ bin < best))

def pickFrom (room : Fin n → Prop) [DecidablePred room] (load : Fin n → L) (bins : List (Fin n)) : Option (Fin n) :=
  bins.foldl (fun best bin => if room bin ∧ Beats load best bin then some bin else best) none

def pick (room : Fin n → Prop) [DecidablePred room] (load : Fin n → L) : Option (Fin n) :=
  pickFrom room load (List.finRange n)

variable {room : Fin n → Prop} [DecidablePred room] {load : Fin n → L}

/-- What the scan has found among the bins it has seen. -/
def Least (room : Fin n → Prop) (load : Fin n → L) (seen : List (Fin n)) : Option (Fin n) → Prop
  | none => ∀ bin ∈ seen, ¬ room bin
  | some best => best ∈ seen ∧ room best ∧ ∀ bin ∈ seen, room bin → ¬ load bin < load best

theorem pickFrom_least {seen : List (Fin n)} (h : seen.Pairwise (· < ·)) :
    Least room load seen (pickFrom room load seen) := by
  induction seen using List.reverseRecOn with
  | nil => exact fun bin hbin => nomatch hbin
  | append_singleton seen bin ih =>
    obtain ⟨hseen, -, hlast⟩ := pairwise_append.mp h
    have hleast := ih hseen
    rw [pickFrom, foldl_append, foldl_cons, foldl_nil]
    change Least room load (seen ++ [bin])
      (if room bin ∧ Beats load (pickFrom room load seen) bin then some bin else pickFrom room load seen)
    cases hbest : pickFrom room load seen with
    | none =>
      rw [hbest] at hleast
      by_cases hroom : room bin
      · rw [if_pos ⟨hroom, trivial⟩]
        refine ⟨by simp, hroom, fun other hother hother_room => ?_⟩
        rcases mem_append.mp hother with hother | hother
        · exact absurd hother_room (hleast other hother)
        · rw [mem_singleton.mp hother]
          exact lt_irrefl _
      · rw [if_neg fun hand => hroom hand.1]
        intro other hother
        rcases mem_append.mp hother with hother | hother
        · exact hleast other hother
        · rwa [mem_singleton.mp hother]
    | some best =>
      rw [hbest] at hleast
      obtain ⟨hmem, hroom, hmin⟩ := hleast
      by_cases hbeats : room bin ∧ Beats load (some best) bin
      · rw [if_pos hbeats]
        -- the scan goes up, so that a tie never prefers the bin that came later
        have hlt : load bin < load best := hbeats.2.resolve_right fun htie =>
          absurd htie.2 (hlast best hmem bin mem_cons_self).not_gt
        refine ⟨by simp, hbeats.1, fun other hother hother_room => ?_⟩
        rcases mem_append.mp hother with hother | hother
        · exact fun hless => hmin other hother hother_room (hless.trans hlt)
        · rw [mem_singleton.mp hother]
          exact lt_irrefl _
      · rw [if_neg hbeats]
        refine ⟨mem_append_left _ hmem, hroom, fun other hother hother_room => ?_⟩
        rcases mem_append.mp hother with hother | hother
        · exact hmin other hother hother_room
        · rw [mem_singleton.mp hother] at hother_room ⊢
          exact fun hless => hbeats ⟨hother_room, .inl hless⟩

theorem pick_least : Least room load (List.finRange n) (pick room load) :=
  pickFrom_least (pairwise_lt_finRange n)

theorem pick_some {best : Fin n} (h : pick room load = some best) :
    room best ∧ ∀ bin, room bin → ¬ load bin < load best := by
  have hleast := @pick_least n L _ _ _ room _ load
  rw [h] at hleast
  exact ⟨hleast.2.1, fun bin => hleast.2.2 bin (mem_finRange bin)⟩

theorem pick_none (h : pick room load = none) (bin : Fin n) : ¬ room bin := by
  have hleast := @pick_least n L _ _ _ room _ load
  rw [h] at hleast
  exact hleast bin (mem_finRange bin)

end Pick

section Contents

variable [DecidableEq V]

/-- Where keys are and what the bins hold. -/
structure Fill (n : Nat) (K V L : Type*) where
  load : Fin n → L
  count : Fin n → Nat
  place : K → V

def Fill.put [DecidableEq K] (label : Fin n → V) (weight : K → W) (add : L → W → L) (s : Fill n K V L) (key : K)
    (bin : Fin n) : Fill n K V L where
  load := Function.update s.load bin (add (s.load bin) (weight key))
  count := Function.update s.count bin (s.count bin + 1)
  place := Function.update s.place key (label bin)

def inBin (label : Fin n → V) (place : K → V) (keys : List K) (bin : Fin n) : List K :=
  keys.filter fun key => place key = label bin

def total (weight : K → W) (add : L → W → L) (zero : L) (keys : List K) : L :=
  keys.foldl (fun sum key => add sum (weight key)) zero

variable {capacity : Nat} {label : Fin n → V} {weight : K → W} {add : L → W → L} {zero : L}

theorem total_append_singleton {keys : List K} {key : K} :
    total weight add zero (keys ++ [key]) = add (total weight add zero keys) (weight key) := by
  rw [total, foldl_append]
  rfl

structure Holds (capacity : Nat) (label : Fin n → V) (weight : K → W) (add : L → W → L) (zero : L)
    (done : List K) (s : Fill n K V L) : Prop where
  load : ∀ bin, s.load bin = total weight add zero (inBin label s.place done bin)
  count : ∀ bin, s.count bin = (inBin label s.place done bin).length
  full : ∀ bin, s.count bin ≤ capacity
  sum : ∑ bin, s.count bin = done.length
  placed : ∀ key ∈ done, ∃ bin, s.place key = label bin

theorem inBin_congr {place place' : K → V} {keys : List K} (h : ∀ key ∈ keys, place' key = place key) (bin : Fin n) :
    inBin label place' keys bin = inBin label place keys bin :=
  filter_congr fun key hkey => by rw [h key hkey]

theorem inBin_put [DecidableEq K] (hlabel : Function.Injective label) {done : List K} {s : Fill n K V L} {key : K} {bin : Fin n}
    (hnew : key ∉ done) (other : Fin n) :
    inBin label (s.put label weight add key bin).place (done ++ [key]) other =
      if other = bin then inBin label s.place done other ++ [key] else inBin label s.place done other := by
  have hold : inBin label (s.put label weight add key bin).place done other = inBin label s.place done other :=
    inBin_congr (fun k hk => update_of_ne (ne_of_mem_of_not_mem hk hnew) _ _) other
  have hlast : (s.put label weight add key bin).place key = label bin := update_self _ _ _
  rw [inBin, filter_append, ← inBin, hold]
  by_cases h : other = bin
  · rw [if_pos h, filter_cons_of_pos (by rw [hlast, h]; exact decide_eq_true rfl), filter_nil]
  · rw [if_neg h, filter_cons_of_neg (by
      rw [hlast, decide_eq_true_eq]
      exact fun heq => h (hlabel heq).symm), filter_nil, append_nil]

theorem Holds.put [DecidableEq K] (hlabel : Function.Injective label) {done : List K} {s : Fill n K V L} {key : K} {bin : Fin n}
    (h : Holds capacity label weight add zero done s) (hnew : key ∉ done) (hroom : s.count bin < capacity) :
    Holds capacity label weight add zero (done ++ [key]) (s.put label weight add key bin) where
  load other := by
    rw [inBin_put hlabel hnew]
    by_cases hother : other = bin
    · subst hother
      rw [if_pos rfl, total_append_singleton, ← h.load]
      exact update_self _ _ _
    · rw [if_neg hother, ← h.load]
      exact update_of_ne hother _ _
  count other := by
    rw [inBin_put hlabel hnew]
    by_cases hother : other = bin
    · subst hother
      rw [if_pos rfl, length_append, ← h.count]
      exact update_self _ _ _
    · rw [if_neg hother, ← h.count]
      exact update_of_ne hother _ _
  full other := by
    by_cases hother : other = bin
    · subst hother
      exact (update_self other _ s.count).le.trans hroom
    · exact (update_of_ne hother _ s.count).le.trans (h.full other)
  sum := by
    have hsum := Finset.sum_update_of_mem (Finset.mem_univ bin) s.count (s.count bin + 1)
    have hsplit := Finset.add_sum_erase Finset.univ s.count (Finset.mem_univ bin)
    rw [h.sum] at hsplit
    rw [Finset.sdiff_singleton_eq_erase] at hsum
    rw [length_append, length_singleton, ← hsplit]
    calc ∑ other, (s.put label weight add key bin).count other
        = s.count bin + 1 + ∑ other ∈ Finset.univ.erase bin, s.count other := hsum
      _ = s.count bin + ∑ other ∈ Finset.univ.erase bin, s.count other + 1 := Nat.add_right_comm _ _ _
  placed k hk := by
    by_cases hkey : k = key
    · subst hkey
      exact ⟨bin, update_self _ _ _⟩
    · obtain ⟨where_, hwhere⟩ := h.placed k ((mem_append.mp hk).resolve_right fun hmem =>
        hkey (mem_singleton.mp hmem))
      exact ⟨where_, (update_of_ne hkey _ _).trans hwhere⟩

theorem Holds.exact_of_full {done : List K} {s : Fill n K V L} (h : Holds capacity label weight add zero done s)
    (hlength : done.length = n * capacity) (bin : Fin n) : (inBin label s.place done bin).length = capacity := by
  have hsum : ∑ b, s.count b = ∑ _b : Fin n, capacity := by
    rw [h.sum, hlength, Finset.sum_const, Finset.card_univ, Fintype.card_fin, smul_eq_mul]
  rw [← h.count]
  exact (Finset.sum_eq_sum_iff_of_le fun b _ => h.full b).mp hsum bin (Finset.mem_univ bin)

end Contents

section Run

variable [Preorder L] [DecidableEq V]
variable {capacity : Nat} {label : Fin n → V} {weight : K → W} {add : L → W → L} {zero : L}

/-- A key is where the least load was when it came. -/
def Greedy (capacity : Nat) (label : Fin n → V) (weight : K → W) (add : L → W → L) (zero : L) (place : K → V)
    (before : List K) (key : K) : Prop :=
  ∃ bin, place key = label bin ∧ (inBin label place before bin).length < capacity ∧
    ∀ other, (inBin label place before other).length < capacity →
      ¬ total weight add zero (inBin label place before other) < total weight add zero (inBin label place before bin)

variable [DecidableLT L] [BEq L] [DecidableEq K]

/-- Put the keys one after another into the least loaded bin with room. -/
def Fill.run (capacity : Nat) (label : Fin n → V) (weight : K → W) (add : L → W → L) :
    List K → Fill n K V L → Option (Fill n K V L)
  | [], s => some s
  | key :: rest, s => match pick (s.count · < capacity) s.load with
      | none => none
      | some bin => run capacity label weight add rest (s.put label weight add key bin)

theorem run_spec (hlabel : Function.Injective label) {rest done : List K} {s : Fill n K V L}
    (h : Holds capacity label weight add zero done s) (hnodup : (done ++ rest).Nodup)
    (hroom : (done ++ rest).length ≤ n * capacity) :
    ∃ s', Fill.run capacity label weight add rest s = some s' ∧
      Holds capacity label weight add zero (done ++ rest) s' ∧
      (∀ key, key ∉ rest → s'.place key = s.place key) ∧
      ∀ before key after, rest = before ++ key :: after →
        Greedy capacity label weight add zero s'.place (done ++ before) key := by
  induction rest generalizing done s with
  | nil =>
    refine ⟨s, rfl, by rwa [append_nil], fun _ _ => rfl, fun before key after hsplit => ?_⟩
    exact absurd hsplit.symm (append_ne_nil_of_right_ne_nil _ (cons_ne_nil _ _))
  | cons key rest ih =>
    have hnew : key ∉ done := fun hmem => disjoint_of_nodup_append hnodup hmem mem_cons_self
    rw [append_cons] at hnodup hroom
    rw [Fill.run]
    cases hpick : pick (s.count · < capacity) s.load with
    | none =>
      have hfull : n * capacity ≤ ∑ bin, s.count bin := by
        have hsum := Finset.card_nsmul_le_sum Finset.univ s.count capacity fun bin _ =>
          Nat.not_lt.mp (pick_none hpick bin)
        rwa [Finset.card_univ, Fintype.card_fin, smul_eq_mul] at hsum
      rw [h.sum] at hfull
      simp only [length_append, length_singleton] at hroom
      omega
    | some bin =>
      obtain ⟨hbin, hleast⟩ := pick_some hpick
      obtain ⟨s', hrun, hholds, hframe, hgreedy⟩ := ih (h.put hlabel hnew hbin) hnodup hroom
      have hnot : key ∉ rest := fun hmem =>
        disjoint_of_nodup_append hnodup (mem_append_right _ mem_cons_self) hmem
      have hkey : s'.place key = label bin := (hframe key hnot).trans (update_self _ _ _)
      have hdone : ∀ k ∈ done, s'.place k = s.place k := fun k hk => by
        rw [hframe k fun hmem => disjoint_of_nodup_append hnodup (mem_append_left _ hk) hmem]
        exact update_of_ne (ne_of_mem_of_not_mem hk hnew) _ _
      refine ⟨s', hrun, by rwa [append_cons], fun k hk => ?_, fun before k after hsplit => ?_⟩
      · obtain ⟨hne, hmem⟩ := not_or.mp (mem_cons.not.mp hk)
        rw [hframe k hmem]
        exact update_of_ne hne _ _
      · cases before with
        | nil =>
          obtain ⟨rfl, rfl⟩ := List.cons.inj hsplit
          rw [append_nil]
          refine ⟨bin, hkey, ?_, fun other hother => ?_⟩
          · rwa [inBin_congr hdone, ← h.count]
          · rw [inBin_congr hdone, ← h.count] at hother
            rw [inBin_congr hdone, inBin_congr hdone, ← h.load, ← h.load]
            exact hleast other hother
        | cons first before =>
          obtain ⟨rfl, hrest⟩ := List.cons.inj hsplit
          rw [append_cons]
          exact hgreedy before k after hrest

end Run

end LeastLoaded
