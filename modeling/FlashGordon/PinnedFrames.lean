import FlashGordon.PinnedLru
import Mathlib.Data.List.Perm.Subperm

/-! What the operations of a bounded map do to the entry of one key: a request may give its key an entry and
take another key's away, a pin changes in place, and nothing else moves an entry to another frame. A map
whose keys are among no more pages than fit never evicts. -/

namespace PinnedLru

variable {K : Type*} [DecidableEq K]

namespace Map

variable {capacity : Nat} {map : Map K capacity} {key other : K}

variable {entry : Resident K}

theorem find?_of_mem (h : entry ∈ map.entries) : map.find? entry.key = some entry := by
  cases hfind : map.find? entry.key with
  | none => exact absurd (List.mem_map_of_mem h) (find?_eq_none.mp hfind)
  | some found =>
    obtain ⟨hmem, hkey⟩ := find?_mem hfind
    rw [map.key_injective hmem h hkey]

theorem find?_eq_some : map.find? key = some entry ↔ entry ∈ map.entries ∧ entry.key = key := by
  constructor
  · exact find?_mem
  · rintro ⟨hmem, rfl⟩
    exact find?_of_mem hmem

theorem find?_insert {hkey : key ∉ map.entries.map Resident.key} {hroom : map.entries.length < capacity} :
    (map.insert key hkey hroom).find? other =
      if other = key then some ⟨key, map.entries.length, false⟩ else map.find? other := by
  show List.find? _ (_ :: map.entries) = _
  rw [List.find?_cons]
  by_cases heq : other = key
  · rw [if_pos heq]
    simp [heq]
  · rw [if_neg heq]
    simp only [show ¬key = other from fun h => heq h.symm, decide_false]
    rfl

theorem find?_replace {old new : Resident K} {hold : old ∈ map.entries}
    {hkey : new.key = old.key ∨ new.key ∉ map.entries.map Resident.key} {hframe : new.frame = old.frame} :
    (map.replace old new hold hkey hframe).find? other =
      if other = new.key then some new else if other = old.key then none else map.find? other := by
  have hmem : ∀ entry, entry ∈ (map.replace old new hold hkey hframe).entries ↔
      entry = new ∨ entry ∈ map.entries ∧ entry.key ≠ old.key := by
    intro entry
    simp [replace, without]
  by_cases hnew : other = new.key
  · rw [if_pos hnew, hnew]
    exact find?_of_mem ((hmem new).mpr (.inl rfl))
  · rw [if_neg hnew]
    by_cases hother : other = old.key
    · rw [if_pos hother, find?_eq_none, List.mem_map]
      rintro ⟨entry, hentry, hentryKey⟩
      rcases (hmem entry).mp hentry with rfl | ⟨-, hne⟩
      · exact hnew hentryKey.symm
      · exact hne (hentryKey.trans hother)
    · rw [if_neg hother]
      cases hfind : map.find? other with
      | none =>
        rw [find?_eq_none, List.mem_map]
        rintro ⟨entry, hentry, hentryKey⟩
        rcases (hmem entry).mp hentry with rfl | ⟨hentry, -⟩
        · exact hnew hentryKey.symm
        · exact find?_eq_none.mp hfind (hentryKey ▸ List.mem_map_of_mem hentry)
      | some entry =>
        obtain ⟨hentry, rfl⟩ := find?_mem hfind
        exact find?_of_mem ((hmem entry).mpr (.inr ⟨hentry, hother⟩))

@[simp] theorem find?_use {h : entry ∈ map.entries} : (map.use entry h).find? other = map.find? other := by
  rw [use, find?_replace]
  by_cases heq : other = entry.key
  · rw [if_pos heq, heq, find?_of_mem h]
  · rw [if_neg heq, if_neg heq]

@[simp] theorem find?_lookup : (map.lookup key).2.find? other = map.find? other := by
  unfold lookup
  split
  next entry hfind => exact find?_use (h := (find?_mem hfind).1)
  · rfl

variable {frame : Nat}

@[simp] theorem find?_touch : (map.touch frame).find? other = map.find? other := by
  unfold touch
  split
  · exact find?_use
  · rfl

theorem find?_setPin {pinned : Bool} :
    (map.setPin key pinned).find? other = (map.find? other).map (Resident.withPin key pinned) := by
  show List.find? _ (map.entries.map _) = _
  rw [List.find?_map]
  congr 2
  funext entry
  simp

theorem lookup_fst : (map.lookup key).1 = (map.find? key).map Resident.frame := by
  cases hfind : map.find? key with
  | none => rw [lookup_of_none hfind]; rfl
  | some entry => rw [lookup_of_find hfind]; rfl

def frame? (map : Map K capacity) (key : K) : Option Nat := (map.find? key).map Resident.frame

theorem frame?_eq_some :
    map.frame? key = some frame ↔ ∃ entry ∈ map.entries, entry.key = key ∧ entry.frame = frame := by
  simp only [frame?, Option.map_eq_some_iff, find?_eq_some, and_assoc]

theorem frame?_injective (h : map.frame? key = some frame) (h' : map.frame? other = some frame) : key = other := by
  obtain ⟨entry, hentry, rfl, hframe⟩ := frame?_eq_some.mp h
  obtain ⟨entry', hentry', rfl, hframe'⟩ := frame?_eq_some.mp h'
  rw [map.frame_injective hentry hentry' (hframe.trans hframe'.symm)]

@[simp] theorem frame?_lookup : (map.lookup key).2.frame? other = map.frame? other := by
  rw [frame?, find?_lookup, frame?]

@[simp] theorem frame?_touch : (map.touch frame).frame? other = map.frame? other := by
  rw [frame?, find?_touch, frame?]

@[simp] theorem frame?_setPin {pinned : Bool} : (map.setPin key pinned).frame? other = map.frame? other := by
  rw [frame?, find?_setPin, Option.map_map, frame?]
  congr 1
  funext entry
  exact Resident.withPin_frame key pinned entry

theorem frame?_acquire (soft : Bool) :
    (map.acquire soft key).2.frame? other =
      if (map.acquire soft key).1.evicted = some other then none
      else if other = key then (map.acquire soft key).1.frame
      else map.frame? other := by
  cases hfind : map.find? key with
  | some entry =>
    rw [acquire_of_find hfind, frame?, find?_use, if_neg (Option.some_ne_none other).symm]
    by_cases heq : other = key
    · rw [if_pos heq, heq, hfind]
      rfl
    · rw [if_neg heq, frame?]
  | none =>
    by_cases hroom : map.entries.length < capacity
    · rw [acquire_of_room hfind hroom, frame?, find?_insert, if_neg (Option.some_ne_none other).symm]
      by_cases heq : other = key
      · rw [if_pos heq, if_pos heq]
        rfl
      · rw [if_neg heq, if_neg heq, frame?]
    · cases hvictim : victim? soft map.entries with
      | none =>
        rw [acquire_of_refused hfind (Nat.not_lt.mp hroom) hvictim, if_neg (Option.some_ne_none other).symm]
        by_cases heq : other = key
        · rw [if_pos heq, heq, frame?, hfind]
          rfl
        · rw [if_neg heq]
      | some victim =>
        have hvictimKey : victim.key ≠ key := by
          rintro rfl
          exact find?_eq_none.mp hfind (List.mem_map_of_mem (victim?_mem hvictim))
        rw [acquire_of_victim hfind (Nat.not_lt.mp hroom) hvictim, frame?, find?_replace]
        by_cases heq : other = key
        · have hne : some victim.key ≠ some other := fun h => hvictimKey ((Option.some.inj h).trans heq)
          rw [if_pos heq, if_neg hne, if_pos heq]
          rfl
        · rw [if_neg heq]
          by_cases hother : other = victim.key
          · rw [if_pos hother, if_pos (congrArg some hother.symm)]
            rfl
          · have hne : some victim.key ≠ some other := fun h => hother (Option.some.inj h).symm
            rw [if_neg hother, if_neg hne, if_neg heq, frame?]

variable {soft : Bool}

theorem acquire_evicted_ne (h : (map.acquire soft key).1.evicted = some other) : other ≠ key := by
  cases hfind : map.find? key with
  | some entry =>
    rw [acquire_of_find hfind] at h
    cases h
  | none =>
    by_cases hroom : map.entries.length < capacity
    · rw [acquire_of_room hfind hroom] at h
      cases h
    · cases hvictim : victim? soft map.entries with
      | none =>
        rw [acquire_of_refused hfind (Nat.not_lt.mp hroom) hvictim] at h
        cases h
      | some victim =>
        rw [acquire_of_victim hfind (Nat.not_lt.mp hroom) hvictim] at h
        obtain rfl := Option.some.inj h
        rintro rfl
        exact find?_eq_none.mp hfind (List.mem_map_of_mem (victim?_mem hvictim))

theorem frame?_of_refused (h : (map.acquire soft key).1.frame = none) : map.frame? key = none := by
  cases hfind : map.find? key with
  | some entry =>
    rw [acquire_of_find hfind] at h
    cases h
  | none => rw [frame?, hfind]; rfl

theorem acquire_hard_isSome (hcapacity : 0 < capacity) : (map.acquire false key).1.frame.isSome := by
  cases hfind : map.find? key with
  | some entry => rw [acquire_of_find hfind]; rfl
  | none =>
    by_cases hroom : map.entries.length < capacity
    · rw [acquire_of_room hfind hroom]; rfl
    · cases hvictim : victim? false map.entries with
      | none =>
        have hentries : map.entries ≠ [] := List.ne_nil_of_length_pos (by omega)
        exact absurd (victim?_eq_none hvictim hentries).1 Bool.false_ne_true
      | some victim => rw [acquire_of_victim hfind (Nat.not_lt.mp hroom) hvictim]; rfl

/-! ## A map that has room for all its pages -/

def Among (map : Map K capacity) (pages : List K) : Prop := ∀ entry ∈ map.entries, entry.key ∈ pages

variable {pages : List K}

section

variable (h : map.Among pages)
include h

theorem Among.of_frame? {capacity' : Nat} {map' : Map K capacity'} (hframes : ∀ page ∉ pages, map.frame? page = none → map'.frame? page = none) : map'.Among pages := by
  intro entry hentry
  by_contra hpage
  have hnone : map.frame? entry.key = none := by
    rw [frame?, Option.map_eq_none_iff, find?_eq_none, List.mem_map]
    rintro ⟨found, hfound, hkey⟩
    exact hpage (hkey ▸ h found hfound)
  have hsome : map'.frame? entry.key = some entry.frame := by
    rw [frame?, find?_of_mem hentry]
    rfl
  rw [hframes entry.key hpage hnone] at hsome
  cases hsome

theorem Among.room (hkey : key ∈ pages) (hle : pages.length ≤ capacity)
    (hfind : map.find? key = none) : map.entries.length < capacity := by
  have hnodup : (key :: map.entries.map Resident.key).Nodup :=
    List.nodup_cons.mpr ⟨find?_eq_none.mp hfind, map.keys⟩
  have hsubset : key :: map.entries.map Resident.key ⊆ pages := by
    apply List.cons_subset.mpr
    refine ⟨hkey, fun page hpage => ?_⟩
    obtain ⟨entry, hentry, rfl⟩ := List.mem_map.mp hpage
    exact h entry hentry
  have hlength := (List.subperm_of_subset hnodup hsubset).length_le
  rw [List.length_cons, List.length_map] at hlength
  omega

theorem Among.acquire_evicted (hkey : key ∈ pages)
    (hle : pages.length ≤ capacity) : (map.acquire soft key).1.evicted = none := by
  cases hfind : map.find? key with
  | some entry => rw [acquire_of_find hfind]
  | none => rw [acquire_of_room hfind (h.room hkey hle hfind)]

theorem Among.acquire_isSome (hkey : key ∈ pages)
    (hle : pages.length ≤ capacity) : (map.acquire soft key).1.frame.isSome := by
  cases hfind : map.find? key with
  | some entry => rw [acquire_of_find hfind]; rfl
  | none => rw [acquire_of_room hfind (h.room hkey hle hfind)]; rfl

end

end Map

end PinnedLru
