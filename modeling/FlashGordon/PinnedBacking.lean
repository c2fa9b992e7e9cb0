import FlashGordon.PinnedFrames
import Mathlib.Data.Finset.Card

/-! A bounded map in front of a slower store. Its frames hold values; a key is dirty while its value is
nowhere else. The map is coherent when every key's frame holds a value that is right for the key and every
dirty key is pinned. Evictions keep it coherent as long as they do not take a pinned entry, and they do not
while there is a frame left that no pin holds. -/

namespace PinnedLru

variable {K : Type*} [DecidableEq K]

namespace Map

variable {capacity : Nat} {map : Map K capacity} {key other : K}

def pinned (map : Map K capacity) : Finset K :=
  ((map.entries.filter Resident.pinned).map Resident.key).toFinset

theorem mem_pinned : key ∈ map.pinned ↔ (map.find? key).map Resident.pinned = some true := by
  rw [pinned, List.mem_toFinset, List.mem_map, Option.map_eq_some_iff]
  constructor
  · rintro ⟨entry, hentry, rfl⟩
    rw [List.mem_filter] at hentry
    exact ⟨entry, find?_of_mem hentry.1, hentry.2⟩
  · rintro ⟨entry, hfind, hpinned⟩
    obtain ⟨hmem, rfl⟩ := find?_mem hfind
    exact ⟨entry, List.mem_filter.mpr ⟨hmem, hpinned⟩, rfl⟩

theorem not_mem_pinned (h : map.find? key = none) : key ∉ map.pinned := by
  rw [mem_pinned, h]
  exact fun hcontra => nomatch hcontra

theorem not_mem_pinned_of_mem {entry : Resident K} (h : entry ∈ map.entries) (hpinned : entry.pinned = false) :
    entry.key ∉ map.pinned := by
  rw [mem_pinned, find?_of_mem h, Option.map_some, hpinned]
  exact fun hcontra => nomatch hcontra

theorem frame?_isSome_of_pinned (h : key ∈ map.pinned) : (map.frame? key).isSome := by
  rw [mem_pinned] at h
  cases hfind : map.find? key with
  | none =>
    rw [hfind] at h
    cases h
  | some entry => rw [frame?, hfind]; rfl

theorem pinned_congr {map' : Map K capacity} (h : ∀ key, map'.find? key = map.find? key) :
    map'.pinned = map.pinned := by
  ext key
  rw [mem_pinned, mem_pinned, h]

@[simp] theorem pinned_lookup : (map.lookup key).2.pinned = map.pinned := pinned_congr fun _ => find?_lookup

@[simp] theorem pinned_touch {frame : Nat} : (map.touch frame).pinned = map.pinned :=
  pinned_congr fun _ => find?_touch

theorem pinned_setPin_true (h : (map.frame? key).isSome) :
    (map.setPin key true).pinned = Insert.insert key map.pinned := by
  ext other
  rw [mem_pinned, find?_setPin, Finset.mem_insert, mem_pinned]
  cases hfind : map.find? other with
  | none =>
    have hne : other ≠ key := by
      rintro rfl
      rw [frame?, hfind] at h
      cases h
    simp [hne]
  | some entry =>
    obtain ⟨-, rfl⟩ := find?_mem hfind
    by_cases heq : entry.key = key
    · simp [Resident.withPin, heq]
    · simp [Resident.withPin, heq]

theorem pinned_setPin_false : (map.setPin key false).pinned = map.pinned.erase key := by
  ext other
  rw [mem_pinned, find?_setPin, Finset.mem_erase, mem_pinned]
  cases hfind : map.find? other with
  | none => simp
  | some entry =>
    obtain ⟨-, rfl⟩ := find?_mem hfind
    by_cases heq : entry.key = key
    · simp [Resident.withPin, heq]
    · simp [Resident.withPin, heq]

/-! ## Requests that spare the pins -/

/-- A request does not have to take a pinned entry: it is soft, or its key is there, or a frame is unused, or
some entry is not pinned. -/
def Spares (map : Map K capacity) (soft : Bool) (key : K) : Prop :=
  soft = true ∨ (map.find? key).isSome ∨ map.entries.length < capacity ∨
    ∃ entry ∈ map.entries, entry.pinned = false

theorem victim_unpinned {soft : Bool} {victim : Resident K} (h : map.Spares soft key)
    (hfind : map.find? key = none) (hfull : capacity ≤ map.entries.length)
    (hvictim : victim? soft map.entries = some victim) : victim.pinned = false := by
  by_contra hpinned
  rw [Bool.not_eq_false] at hpinned
  obtain ⟨first, second, -, -, hall⟩ := victim?_split hvictim
  have hentries := (hall hpinned).2
  rcases h with rfl | hsome | hroom | ⟨entry, hentry, hunpinned⟩
  · have hnone : map.entries.reverse.find? (fun entry => !entry.pinned) = none := by
      rw [List.find?_eq_none]
      intro entry hentry
      rw [hentries entry (List.mem_reverse.mp hentry)]
      exact Bool.false_ne_true
    rw [victim?, hnone] at hvictim
    cases hvictim
  · rw [hfind] at hsome
    cases hsome
  · omega
  · rw [hentries entry hentry] at hunpinned
    cases hunpinned

theorem pinned_acquire {soft : Bool} (h : map.Spares soft key) : (map.acquire soft key).2.pinned = map.pinned := by
  cases hfind : map.find? key with
  | some entry =>
    rw [acquire_of_find hfind]
    exact pinned_congr fun _ => find?_use (h := (find?_mem hfind).1)
  | none =>
    have hkey := not_mem_pinned hfind
    by_cases hroom : map.entries.length < capacity
    · rw [acquire_of_room hfind hroom]
      ext other
      rw [mem_pinned, find?_insert]
      by_cases heq : other = key
      · rw [if_pos heq, heq, Option.map_some]
        exact ⟨fun hcontra => absurd (Option.some.inj hcontra) Bool.false_ne_true, fun hcontra => absurd hcontra hkey⟩
      · rw [if_neg heq, mem_pinned]
    · have hfull := Nat.not_lt.mp hroom
      cases hvictim : victim? soft map.entries with
      | none => rw [acquire_of_refused hfind hfull hvictim]
      | some victim =>
        have hunpinned := not_mem_pinned_of_mem (victim?_mem hvictim) (victim_unpinned h hfind hfull hvictim)
        rw [acquire_of_victim hfind hfull hvictim]
        ext other
        rw [mem_pinned, find?_replace]
        by_cases heq : other = key
        · rw [if_pos heq, heq, Option.map_some]
          exact ⟨fun hcontra => absurd (Option.some.inj hcontra) Bool.false_ne_true, fun hcontra => absurd hcontra hkey⟩
        · rw [if_neg heq]
          by_cases hother : other = victim.key
          · rw [if_pos hother, hother]
            exact ⟨fun hcontra => (nomatch hcontra), fun hcontra => absurd hcontra hunpinned⟩
          · rw [if_neg hother, mem_pinned]

theorem spares_of_card {soft : Bool} (h : (Insert.insert key map.pinned).card ≤ capacity) : map.Spares soft key := by
  by_contra hspares
  simp only [Spares, not_or, not_exists, not_and, Bool.not_eq_false] at hspares
  obtain ⟨-, hfind, hfull, hall⟩ := hspares
  rw [Bool.not_eq_true, Option.isSome_eq_false_iff, Option.isNone_iff_eq_none] at hfind
  have hcard : map.pinned.card = map.entries.length := by
    have hfilter : map.entries.filter Resident.pinned = map.entries := List.filter_eq_self.mpr hall
    rw [pinned, hfilter, List.toFinset_card_of_nodup map.keys, List.length_map]
  rw [Finset.card_insert_of_notMem (not_mem_pinned hfind), hcard] at h
  omega

theorem spares_soft (map : Map K capacity) (key : K) : map.Spares true key := .inl rfl

variable {V : Type*}

structure Coherent (map : Map K capacity) (slots : Nat → V) (right : K → V → Prop) (dirty : K → Prop) : Prop where
  frames : ∀ key frame, map.frame? key = some frame → right key (slots frame)
  pins : ∀ key, dirty key → key ∈ map.pinned

variable {slots : Nat → V} {right right' : K → V → Prop} {dirty dirty' : K → Prop}

theorem coherent_empty (hdirty : ∀ key, ¬dirty key) : (empty : Map K capacity).Coherent slots right dirty :=
  ⟨fun _ _ hframe => (nomatch hframe), fun key h => absurd h (hdirty key)⟩

section

variable (h : map.Coherent slots right dirty)
include h

theorem Coherent.mono (hright : ∀ key v, right key v → right' key v)
    (hdirty : ∀ key, dirty' key → dirty key) : map.Coherent slots right' dirty' :=
  ⟨fun key frame hframe => hright key _ (h.frames key frame hframe), fun key hkey => h.pins key (hdirty key hkey)⟩

theorem Coherent.still {map' : Map K capacity}
    (hframes : ∀ key, map'.frame? key = map.frame? key) (hpins : map'.pinned = map.pinned) :
    map'.Coherent slots right dirty :=
  ⟨fun key frame hframe => h.frames key frame (hframes key ▸ hframe), fun key hkey => hpins ▸ h.pins key hkey⟩

theorem Coherent.pin (hkey : (map.frame? key).isSome) : (map.setPin key true).Coherent slots right dirty := by
  refine ⟨fun other frame hframe => h.frames other frame (frame?_setPin.symm.trans hframe), fun other hother => ?_⟩
  rw [pinned_setPin_true hkey]
  exact Finset.mem_insert_of_mem (h.pins other hother)

theorem Coherent.unpin (hkey : ¬dirty key) : (map.setPin key false).Coherent slots right dirty := by
  refine ⟨fun other frame hframe => h.frames other frame (frame?_setPin.symm.trans hframe), fun other hother => ?_⟩
  rw [pinned_setPin_false, Finset.mem_erase]
  refine ⟨?_, h.pins other hother⟩
  rintro rfl
  exact hkey hother

theorem Coherent.write {frame : Nat} {v : V} (hframe : map.frame? key = some frame) (hkey : right' key v)
    (hright : ∀ other, other ≠ key → ∀ v, right other v → right' other v)
    (hdirty : ∀ other, dirty' other → other ∈ map.pinned) :
    map.Coherent (Function.update slots frame v) right' dirty' := by
  refine ⟨fun other found hfound => ?_, hdirty⟩
  by_cases heq : other = key
  · subst heq
    obtain rfl : frame = found := Option.some.inj (hframe.symm.trans hfound)
    rw [Function.update_self]
    exact hkey
  · have hne : found ≠ frame := fun hsame => heq (frame?_injective hfound (hsame ▸ hframe))
    rw [Function.update_of_ne hne]
    exact hright other heq _ (h.frames other found hfound)

theorem Coherent.acquire {soft : Bool} (hspares : map.Spares soft key)
    (hkey : map.frame? key = none → ∀ v, right' key v) (hright : ∀ other v, right other v → right' other v) :
    (map.acquire soft key).2.Coherent slots right' dirty := by
  refine ⟨fun other frame hframe => ?_, fun other hother => ?_⟩
  · rw [frame?_acquire] at hframe
    split at hframe
    · cases hframe
    split at hframe
    next heq =>
      subst heq
      cases hold : map.frame? other with
      | none => exact hkey hold _
      | some found =>
        obtain ⟨entry, hentry, hfound⟩ := Option.map_eq_some_iff.mp hold
        rw [acquire_of_find hentry, hfound] at hframe
        obtain rfl := Option.some.inj hframe
        exact hright other _ (h.frames other found hold)
    next => exact hright other _ (h.frames other frame hframe)
  · rw [pinned_acquire hspares]
    exact h.pins other hother

theorem Coherent.refused {soft : Bool} (hspares : map.Spares soft key)
    (hnone : (map.acquire soft key).1.frame = none) : (map.acquire soft key).2.Coherent slots right dirty := by
  refine ⟨fun other frame hframe => ?_, fun other hother => pinned_acquire hspares ▸ h.pins other hother⟩
  rw [frame?_acquire] at hframe
  split at hframe
  · cases hframe
  split at hframe
  · rw [hnone] at hframe
    cases hframe
  · exact h.frames other frame hframe

theorem Coherent.insert {soft : Bool} (hspares : map.Spares soft key)
    {frame : Nat} {v : V} (hframe : (map.acquire soft key).2.frame? key = some frame) (hv : right key v) :
    (map.acquire soft key).2.Coherent (Function.update slots frame v) right dirty := by
  have hacquired : (map.acquire soft key).2.Coherent slots (fun other v => other ≠ key → right other v) dirty :=
    h.acquire hspares (fun _ _ hne => absurd rfl hne) fun _ _ hright _ => hright
  exact hacquired.write hframe hv (fun other hne _ hright => hright hne) hacquired.pins

end

end Map

end PinnedLru
