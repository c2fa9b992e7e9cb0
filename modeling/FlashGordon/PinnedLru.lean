import Mathlib.Data.List.Nodup
import Mathlib.Data.List.Range

/-! A bounded map from keys to frames that forgets the key used longest ago. Its entries stand in the order
of their last use, the latest first, and an entry may be pinned. A full map makes room by evicting the last
entry that is not pinned; when all are pinned, a soft request is turned down and a hard one evicts the last
entry. The map hands out the frames `0, 1, ...` in turn while it fills, and later the frame of what it
evicts. -/

namespace PinnedLru

open List

variable {K : Type*}

structure Resident (K : Type*) where
  key : K
  frame : Nat
  pinned : Bool

/-- The keys are distinct, the frames are those handed out so far, and there are no more than fit. -/
structure Map (K : Type*) (capacity : Nat) where
  entries : List (Resident K)
  keys : (entries.map Resident.key).Nodup
  frames : (entries.map Resident.frame).Perm (List.range entries.length)
  length_le : entries.length ≤ capacity

def victim? (soft : Bool) (entries : List (Resident K)) : Option (Resident K) :=
  match entries.reverse.find? fun entry => !entry.pinned with
  | some entry => some entry
  | none => if soft then none else entries.getLast?

variable {entry : Resident K} {soft : Bool}

variable {entries : List (Resident K)}

theorem victim?_mem (h : victim? soft entries = some entry) : entry ∈ entries := by
  unfold victim? at h
  split at h
  next found hfound =>
    rw [← Option.some.inj h]
    exact mem_reverse.mp (mem_of_find?_eq_some hfound)
  · split at h
    · cases h
    · exact mem_of_getLast? h

theorem victim?_eq_none (h : victim? soft entries = none) (hentries : entries ≠ []) :
    soft = true ∧ (entries.reverse.find? fun entry => !entry.pinned) = none := by
  unfold victim? at h
  split at h
  next found hfound => cases h
  next hfound =>
    split at h
    next hsoft => exact ⟨hsoft, hfound⟩
    next => exact absurd (List.getLast?_eq_none_iff.mp h) hentries

theorem victim?_split {victim : Resident K} (h : victim? soft entries = some victim) :
    ∃ first second, entries = first ++ victim :: second ∧ (∀ entry ∈ second, entry.pinned = true) ∧
      (victim.pinned = true → second = [] ∧ ∀ entry ∈ entries, entry.pinned = true) := by
  unfold victim? at h
  split at h
  next found hfound =>
    obtain rfl := Option.some.inj h
    obtain ⟨hpinned, after, before, heq, hafter⟩ := List.find?_eq_some_iff_append.mp hfound
    have hunpinned : found.pinned = false := by simpa using hpinned
    refine ⟨before.reverse, after.reverse, ?_, ?_, ?_⟩
    · rw [← reverse_reverse entries, heq]
      simp
    · intro entry hentry
      simpa using hafter entry (mem_reverse.mp hentry)
    · intro hcontra
      rw [hunpinned] at hcontra
      cases hcontra
  next hfound =>
    split at h
    · cases h
    next =>
      obtain ⟨first, rfl⟩ := List.getLast?_eq_some_iff.mp h
      refine ⟨first, [], rfl, by simp, fun _ => ⟨rfl, fun entry hentry => ?_⟩⟩
      simpa using List.find?_eq_none.mp hfound entry (mem_reverse.mpr hentry)

variable [DecidableEq K]

def Resident.withPin (key : K) (pinned : Bool) (entry : Resident K) : Resident K :=
  if entry.key = key then { entry with pinned := pinned } else entry

@[simp] theorem Resident.withPin_key (key : K) (pinned : Bool) (entry : Resident K) :
    (entry.withPin key pinned).key = entry.key := by
  unfold withPin
  split <;> rfl

@[simp] theorem Resident.withPin_frame (key : K) (pinned : Bool) (entry : Resident K) :
    (entry.withPin key pinned).frame = entry.frame := by
  unfold withPin
  split <;> rfl

def without (key : K) (entries : List (Resident K)) : List (Resident K) :=
  entries.filter fun entry => entry.key ≠ key

theorem without_eq_append {entries first second : List (Resident K)}
    (hkeys : (entries.map Resident.key).Nodup) (h : entries = first ++ entry :: second) :
    without entry.key entries = first ++ second := by
  subst h
  rw [map_append, map_cons] at hkeys
  obtain ⟨-, hrest, hapart⟩ := nodup_append.mp hkeys
  obtain ⟨hentry, -⟩ := nodup_cons.mp hrest
  have hfirst : first.filter (fun other => decide (other.key ≠ entry.key)) = first := by
    apply filter_eq_self.mpr
    intro other hother
    exact decide_eq_true (hapart _ (mem_map_of_mem hother) _ mem_cons_self)
  have hsecond : second.filter (fun other => decide (other.key ≠ entry.key)) = second := by
    apply filter_eq_self.mpr
    intro other hother
    exact decide_eq_true fun heq => hentry (heq ▸ mem_map_of_mem hother)
  rw [without, filter_append, filter_cons, hfirst, hsecond]
  simp

namespace Map

variable {capacity : Nat}

def empty : Map K capacity := ⟨[], List.nodup_nil, .refl _, Nat.zero_le _⟩

def find? (map : Map K capacity) (key : K) : Option (Resident K) :=
  map.entries.find? fun entry => entry.key = key

variable {map : Map K capacity}

variable {key : K}

theorem find?_mem (h : map.find? key = some entry) : entry ∈ map.entries ∧ entry.key = key :=
  ⟨mem_of_find?_eq_some h, by simpa using List.find?_some h⟩

theorem find?_eq_none : map.find? key = none ↔ key ∉ map.entries.map Resident.key := by
  simp [find?, List.find?_eq_none]

omit [DecidableEq K] in
theorem key_injective (map : Map K capacity) {entry other : Resident K} (h : entry ∈ map.entries)
    (h' : other ∈ map.entries) (hkey : entry.key = other.key) : entry = other :=
  inj_on_of_nodup_map map.keys h h' hkey

omit [DecidableEq K] in
theorem frame_lt (map : Map K capacity) (h : entry ∈ map.entries) : entry.frame < map.entries.length :=
  mem_range.mp (map.frames.mem_iff.mp (mem_map_of_mem h))

omit [DecidableEq K] in
theorem frames_nodup (map : Map K capacity) : (map.entries.map Resident.frame).Nodup :=
  map.frames.nodup_iff.mpr nodup_range

omit [DecidableEq K] in
theorem frame_injective (map : Map K capacity) {entry other : Resident K} (h : entry ∈ map.entries)
    (h' : other ∈ map.entries) (hframe : entry.frame = other.frame) : entry = other :=
  inj_on_of_nodup_map map.frames_nodup h h' hframe

def replace (map : Map K capacity) (old new : Resident K) (hold : old ∈ map.entries)
    (hkey : new.key = old.key ∨ new.key ∉ map.entries.map Resident.key) (hframe : new.frame = old.frame) :
    Map K capacity where
  entries := new :: without old.key map.entries
  keys := by
    obtain ⟨first, second, h⟩ := List.append_of_mem hold
    rw [without_eq_append map.keys h, List.map_cons]
    have hkeys := map.keys
    rw [h, List.map_append, List.map_cons] at hkeys hkey
    have hperm : ((first ++ second).map Resident.key).Nodup ∧ old.key ∉ (first ++ second).map Resident.key := by
      rw [List.map_append]
      exact ⟨hkeys.sublist (by simp), (List.nodup_middle.mp hkeys |> List.nodup_cons.mp).1⟩
    refine List.nodup_cons.mpr ⟨?_, hperm.1⟩
    rcases hkey with hsame | hnew
    · exact hsame ▸ hperm.2
    · intro hmem
      apply hnew
      rw [List.map_append] at hmem
      rcases List.mem_append.mp hmem with hleft | hright
      · exact List.mem_append_left _ hleft
      · exact List.mem_append_right _ (List.mem_cons_of_mem _ hright)
  frames := by
    obtain ⟨first, second, h⟩ := List.append_of_mem hold
    have hframes := map.frames
    rw [without_eq_append map.keys h, List.map_cons, hframe, List.length_cons]
    rw [h] at hframes
    have hlength : (first ++ old :: second).length = (first ++ second).length + 1 := by simp; omega
    rw [hlength] at hframes
    refine List.Perm.trans ?_ hframes
    rw [List.map_append, List.map_append, List.map_cons]
    exact List.perm_middle.symm
  length_le := by
    obtain ⟨first, second, h⟩ := List.append_of_mem hold
    have hle := map.length_le
    rw [without_eq_append map.keys h]
    rw [h] at hle
    simp only [List.length_append, List.length_cons] at hle ⊢
    omega

/-- A new key takes the next frame. -/
def insert (map : Map K capacity) (key : K) (hkey : key ∉ map.entries.map Resident.key)
    (hroom : map.entries.length < capacity) : Map K capacity where
  entries := ⟨key, map.entries.length, false⟩ :: map.entries
  keys := List.nodup_cons.mpr ⟨hkey, map.keys⟩
  frames := by
    rw [List.map_cons, List.length_cons, List.range_succ]
    exact (List.Perm.cons _ map.frames).trans (List.perm_append_singleton _ _).symm
  length_le := hroom

def setPin (map : Map K capacity) (key : K) (pinned : Bool) : Map K capacity where
  entries := map.entries.map (Resident.withPin key pinned)
  keys := by
    simp only [List.map_map, Function.comp_def, Resident.withPin_key]
    exact map.keys
  frames := by
    simp only [List.map_map, Function.comp_def, Resident.withPin_frame, List.length_map]
    exact map.frames
  length_le := by
    rw [List.length_map]
    exact map.length_le

theorem setPin_of_none {pinned : Bool} (h : map.find? key = none) : map.setPin key pinned = map := by
  have hentries : map.entries.map (Resident.withPin key pinned) = map.entries := by
    refine (map_congr_left fun entry hentry => ?_).trans (map_id _)
    refine if_neg fun hkey : entry.key = key => ?_
    exact find?_eq_none.mp h (hkey ▸ mem_map_of_mem hentry)
  obtain ⟨entries, _, _, _⟩ := map
  simpa only [setPin, mk.injEq] using hentries

def use (map : Map K capacity) (entry : Resident K) (h : entry ∈ map.entries) : Map K capacity :=
  map.replace entry entry h (.inl rfl) rfl

def lookup (map : Map K capacity) (key : K) : Option Nat × Map K capacity :=
  match h : map.find? key with
  | some entry => (some entry.frame, map.use entry (find?_mem h).1)
  | none => (none, map)

theorem lookup_of_find (h : map.find? key = some entry) :
    map.lookup key = (some entry.frame, map.use entry (find?_mem h).1) := by
  unfold lookup
  split
  next other hother =>
    obtain rfl := Option.some.inj (h.symm.trans hother)
    rfl
  next hnone => exact absurd (h.symm.trans hnone) (Option.some_ne_none entry)

theorem lookup_of_none (h : map.find? key = none) : map.lookup key = (none, map) := by
  unfold lookup
  split
  next entry hentry => exact absurd (hentry.symm.trans h) (Option.some_ne_none entry)
  next => rfl

def touch (map : Map K capacity) (frame : Nat) : Map K capacity :=
  match h : map.entries.find? fun entry => entry.frame = frame with
  | some entry => map.use entry (List.mem_of_find?_eq_some h)
  | none => map

theorem touch_of_mem (h : entry ∈ map.entries) : map.touch entry.frame = map.use entry h := by
  unfold touch
  split
  next other hother =>
    have hframe : other.frame = entry.frame := by simpa using List.find?_some hother
    obtain rfl := map.frame_injective (mem_of_find?_eq_some hother) h hframe
    rfl
  next hnone => exact absurd (decide_eq_true rfl) (List.find?_eq_none.mp hnone entry h)

theorem touch_of_le {frame : Nat} (h : map.entries.length ≤ frame) : map.touch frame = map := by
  unfold touch
  split
  next entry hentry =>
    have hframe : entry.frame = frame := by simpa using List.find?_some hentry
    have hlt := map.frame_lt (mem_of_find?_eq_some hentry)
    omega
  next => rfl

end Map

/-- The answer to a request for a key: its frame unless the request was turned down, whether the key was
there already, and the key evicted for it. -/
structure Acquired (K : Type*) where
  frame : Option Nat
  hit : Bool
  evicted : Option K

namespace Map

variable {capacity : Nat}

def acquire (soft : Bool) (map : Map K capacity) (key : K) : Acquired K × Map K capacity :=
  match h : map.find? key with
  | some entry => (⟨some entry.frame, true, none⟩, map.use entry (find?_mem h).1)
  | none =>
    if hroom : map.entries.length < capacity then
      (⟨some map.entries.length, false, none⟩, map.insert key (find?_eq_none.mp h) hroom)
    else
      match hvictim : victim? soft map.entries with
      | none => (⟨none, false, none⟩, map)
      | some entry => (⟨some entry.frame, false, some entry.key⟩,
          map.replace entry ⟨key, entry.frame, false⟩ (victim?_mem hvictim) (.inr (find?_eq_none.mp h)) rfl)

variable {map : Map K capacity} {key : K}

theorem acquire_of_find (h : map.find? key = some entry) :
    map.acquire soft key = (⟨some entry.frame, true, none⟩, map.use entry (find?_mem h).1) := by
  unfold acquire
  split
  next other hother =>
    obtain rfl := Option.some.inj (h.symm.trans hother)
    rfl
  next hnone => exact absurd (h.symm.trans hnone) (Option.some_ne_none entry)

theorem acquire_of_room (h : map.find? key = none) (hroom : map.entries.length < capacity) : map.acquire soft key =
      (⟨some map.entries.length, false, none⟩, map.insert key (find?_eq_none.mp h) hroom) := by
  unfold acquire
  split
  next entry hentry => exact absurd (hentry.symm.trans h) (Option.some_ne_none entry)
  next => rw [dif_pos hroom]

theorem acquire_of_refused (h : map.find? key = none)
    (hfull : capacity ≤ map.entries.length) (hvictim : victim? soft map.entries = none) :
    map.acquire soft key = (⟨none, false, none⟩, map) := by
  unfold acquire
  split
  next entry hentry => exact absurd (hentry.symm.trans h) (Option.some_ne_none entry)
  next =>
    rw [dif_neg (Nat.not_lt.mpr hfull)]
    split
    next => rfl
    next entry hentry => exact absurd (hentry.symm.trans hvictim) (Option.some_ne_none entry)

theorem acquire_of_victim (h : map.find? key = none) (hfull : capacity ≤ map.entries.length)
    (hvictim : victim? soft map.entries = some entry) :
    map.acquire soft key =
      (⟨some entry.frame, false, some entry.key⟩,
        map.replace entry ⟨key, entry.frame, false⟩ (victim?_mem hvictim) (.inr (find?_eq_none.mp h)) rfl) := by
  unfold acquire
  split
  next other hother => exact absurd (hother.symm.trans h) (Option.some_ne_none other)
  next =>
    rw [dif_neg (Nat.not_lt.mpr hfull)]
    split
    next hnone => exact absurd (hvictim.symm.trans hnone) (Option.some_ne_none entry)
    next other hother =>
      obtain rfl := Option.some.inj (hvictim.symm.trans hother)
      rfl

end Map

inductive Op (K : Type*) where
  | lookup (key : K)
  | acquire (soft : Bool) (key : K)
  | touch (frame : Nat)
  | pin (key : K)
  | unpin (key : K)
  | reset

inductive Reply where
  | frame (frame : Option Nat)
  | acquired (frame : Option Nat) (hit : Bool)
  | pinned (found : Bool)
  | silent
  deriving DecidableEq

inductive Event (K : Type*) where
  | acquired (key : K)
  | used (key : K)
  | evicted (key : K)
  | reset

def Event.uses : Event K → Option K
  | .acquired key => some key
  | .used key => some key
  | .evicted _ => none
  | .reset => none

def Map.apply {capacity : Nat} (map : Map K capacity) : Op K → Reply × List (Event K) × Map K capacity
  | .lookup key =>
    let used := if (map.lookup key).1.isSome then [.used key] else []
    (.frame (map.lookup key).1, used, (map.lookup key).2)
  | .acquire soft key =>
    let answer := (map.acquire soft key).1
    let evicted := answer.evicted.toList.map Event.evicted
    let acquired := if answer.frame.isSome then [.acquired key] else []
    (.acquired answer.frame answer.hit, evicted ++ acquired, (map.acquire soft key).2)
  | .touch frame =>
    let used := (map.entries.find? fun entry => entry.frame = frame).toList.map fun entry => .used entry.key
    (.silent, used, map.touch frame)
  | .pin key => (.pinned (map.find? key).isSome, [], map.setPin key true)
  | .unpin key => (.silent, [], map.setPin key false)
  | .reset => (.silent, [.reset], .empty)

structure Session (K : Type*) (capacity : Nat) where
  map : Map K capacity
  replies : List Reply
  events : List (Event K)

def Session.take {capacity : Nat} (session : Session K capacity) (op : Op K) : Session K capacity where
  map := (session.map.apply op).2.2
  replies := session.replies ++ [(session.map.apply op).1]
  events := session.events ++ (session.map.apply op).2.1

/-- A map that starts empty, after the operations. -/
def run (capacity : Nat) (ops : List (Op K)) : Session K capacity :=
  ops.foldl Session.take ⟨.empty, [], []⟩

/-- The key has been acquired and since then neither evicted nor reset. -/
def Live (events : List (Event K)) (key : K) : Prop :=
  ∃ before after, events = before ++ .acquired key :: after ∧
    .evicted key ∉ after ∧ .reset ∉ after

variable {events : List (Event K)}

omit [DecidableEq K] in
theorem live_concat {event : Event K} {key : K} : Live (events ++ [event]) key ↔
      event = .acquired key ∨ Live events key ∧ event ≠ .evicted key ∧ event ≠ .reset := by
  constructor
  · rintro ⟨before, after, heq, hevicted, hreset⟩
    rcases eq_nil_or_concat after with rfl | ⟨init, last, rfl⟩
    · obtain ⟨-, hlast⟩ := append_inj' heq rfl
      exact .inl (singleton_inj.mp hlast)
    · rw [concat_eq_append] at heq hevicted hreset
      have hsplit : events ++ [event] = (before ++ .acquired key :: init) ++ [last] := by simpa using heq
      obtain ⟨hevents, hlast⟩ := append_inj' hsplit rfl
      obtain rfl := singleton_inj.mp hlast
      simp only [mem_append, mem_singleton, not_or] at hevicted hreset
      exact .inr ⟨⟨before, init, hevents, hevicted.1, hreset.1⟩, Ne.symm hevicted.2, Ne.symm hreset.2⟩
  · rintro (rfl | ⟨⟨before, after, rfl, hevicted, hreset⟩, hne, hne'⟩)
    · exact ⟨events, [], rfl, not_mem_nil, not_mem_nil⟩
    · refine ⟨before, after ++ [event], by simp, ?_, ?_⟩
      · simp only [mem_append, mem_singleton, not_or]
        exact ⟨hevicted, Ne.symm hne⟩
      · simp only [mem_append, mem_singleton, not_or]
        exact ⟨hreset, Ne.symm hne'⟩

omit [DecidableEq K] in
theorem live_used {other key : K} : Live (events ++ [.used other]) key ↔ Live events key := by
  rw [live_concat]
  simp

def UsedSince (events : List (Event K)) (first second : K) : Prop :=
  ∃ before event after, events = before ++ event :: after ∧ event.uses = some first ∧
    ∀ later ∈ after, later.uses ≠ some second

omit [DecidableEq K] in
theorem UsedSince.append {events more : List (Event K)} {first second : K} (h : UsedSince events first second)
    (hmore : ∀ later ∈ more, later.uses ≠ some second) : UsedSince (events ++ more) first second := by
  obtain ⟨before, event, after, rfl, huses, hafter⟩ := h
  refine ⟨before, event, after ++ more, by simp, huses, fun later hlater => ?_⟩
  rcases mem_append.mp hlater with hleft | hright
  · exact hafter later hleft
  · exact hmore later hright

omit [DecidableEq K] in
theorem usedSince_concat {event : Event K} {first second : K}
    (h : event.uses = some first) : UsedSince (events ++ [event]) first second :=
  ⟨events, event, [], rfl, h, by simp⟩

namespace Map

variable {capacity : Nat}

def Has (map : Map K capacity) (key : K) : Prop := key ∈ map.entries.map Resident.key

variable {map : Map K capacity} {key : K}

theorem has_replace {old new : Resident K} {hold : old ∈ map.entries}
    {hkey : new.key = old.key ∨ new.key ∉ map.entries.map Resident.key} {hframe : new.frame = old.frame}
    :
    (map.replace old new hold hkey hframe).Has key ↔ key = new.key ∨ key ≠ old.key ∧ map.Has key := by
  simp only [Has, replace, without, map_cons, mem_cons, mem_map, mem_filter, decide_eq_true_eq]
  constructor
  · rintro (rfl | ⟨entry, ⟨hentry, hne⟩, rfl⟩)
    · exact .inl rfl
    · exact .inr ⟨hne, entry, hentry, rfl⟩
  · rintro (rfl | ⟨hne, entry, hentry, rfl⟩)
    · exact .inl rfl
    · exact .inr ⟨entry, ⟨hentry, hne⟩, rfl⟩

theorem has_use {h : entry ∈ map.entries} : (map.use entry h).Has key ↔ map.Has key := by
  rw [use, has_replace]
  constructor
  · rintro (rfl | ⟨-, hkey⟩)
    · exact mem_map_of_mem h
    · exact hkey
  · intro hkey
    by_cases heq : key = entry.key
    · exact .inl heq
    · exact .inr ⟨heq, hkey⟩

theorem has_setPin {pinned : Bool} {other : K} : (map.setPin key pinned).Has other ↔ map.Has other := by
  simp only [Has, setPin, map_map, Function.comp_def, Resident.withPin_key]

theorem find?_isSome : (map.find? key).isSome ↔ map.Has key := by
  rw [← not_iff_not, Has, ← find?_eq_none]
  simp

theorem lookup_isSome : (map.lookup key).1.isSome ↔ map.Has key := by
  rw [← find?_isSome, lookup]
  split <;> simp [*]

theorem has_lookup {key other : K} : (map.lookup key).2.Has other ↔ map.Has other := by
  unfold lookup
  split
  next entry hfind => exact has_use (h := (find?_mem hfind).1)
  · exact Iff.rfl

theorem has_touch {frame : Nat} : (map.touch frame).Has key ↔ map.Has key := by
  unfold touch
  split
  · exact has_use
  · exact Iff.rfl

end Map

variable {capacity : Nat}

theorem Session.take_live {session : Session K capacity}
    (h : ∀ key, session.map.Has key ↔ Live session.events key) (op : Op K) (key : K) :
    (session.take op).map.Has key ↔ Live (session.take op).events key := by
  cases op with
  | lookup other =>
    simp only [take, Map.apply]
    rw [Map.has_lookup, h]
    split
    · rw [live_used]
    · rw [append_nil]
  | touch frame =>
    simp only [take, Map.apply]
    rw [Map.has_touch, h]
    cases session.map.entries.find? fun entry => entry.frame = frame with
    | none => rw [Option.toList_none, map_nil, append_nil]
    | some entry => exact live_used.symm
  | pin other =>
    simp only [take, Map.apply, append_nil]
    rw [Map.has_setPin, h]
  | unpin other =>
    simp only [take, Map.apply, append_nil]
    rw [Map.has_setPin, h]
  | reset =>
    simp only [take, Map.apply]
    rw [live_concat]
    simp [Map.Has, Map.empty]
  | acquire soft other =>
    simp only [take, Map.apply]
    unfold Map.acquire
    split
    next entry hfind =>
      have hother : session.map.Has other :=
        Map.find?_isSome.mp (by rw [hfind]; rfl)
      simp only [Option.toList_none, map_nil, nil_append, Option.isSome_some, if_true]
      rw [Map.has_use, h, live_concat]
      constructor
      · intro hlive
        exact .inr ⟨hlive, by simp, by simp⟩
      · rintro (heq | ⟨hlive, -⟩)
        · cases heq
          exact (h _).mp hother
        · exact hlive
    next hfind =>
      split
      · simp only [Option.toList_none, map_nil, nil_append, Option.isSome_some, if_true]
        rw [live_concat, ← h]
        simp [Map.Has, Map.insert, eq_comm]
      · split
        · simp only [Option.toList_none, map_nil, Option.isSome_none, Bool.false_eq_true, if_false, append_nil]
          exact h key
        next entry hvictim =>
          simp only [Option.toList_some, map_cons, map_nil, Option.isSome_some, if_true, ← append_assoc]
          rw [Map.has_replace, live_concat, live_concat, ← h]
          simp [eq_comm, and_comm]

theorem run_live (ops : List (Op K)) (key : K) :
    (run capacity ops).map.Has key ↔ Live (run capacity ops).events key := by
  induction ops using List.reverseRecOn generalizing key with
  | nil => simp [run, Map.Has, Map.empty, Live]
  | append_singleton ops op ih =>
    rw [run, foldl_append]
    exact Session.take_live ih op key

/-- The entries stand in the order of their last use, the latest first. -/
def Map.Recent {capacity : Nat} (map : Map K capacity) (events : List (Event K)) : Prop :=
  map.entries.Pairwise fun entry other => UsedSince events entry.key other.key

namespace Map

variable {capacity : Nat} {map : Map K capacity} {events more : List (Event K)}

omit [DecidableEq K] in
theorem Recent.append (h : map.Recent events) (hmore : ∀ later ∈ more, later.uses = none) :
    map.Recent (events ++ more) := by
  refine h.imp fun hsince => hsince.append fun later hlater => ?_
  rw [hmore later hlater]
  exact (Option.some_ne_none _).symm

theorem Recent.replace (h : map.Recent events) {old new : Resident K} {hold : old ∈ map.entries}
    {hkey : new.key = old.key ∨ new.key ∉ map.entries.map Resident.key} {hframe : new.frame = old.frame}
    {event : Event K} (hevent : event.uses = some new.key) :
    (map.replace old new hold hkey hframe).Recent (events ++ [event]) := by
  have hkeys : (new.key :: (without old.key map.entries).map Resident.key).Nodup :=
    (map.replace old new hold hkey hframe).keys
  refine pairwise_cons.mpr ⟨fun other _ => usedSince_concat hevent, ?_⟩
  have hrest : (without old.key map.entries).Pairwise fun entry other => UsedSince events entry.key other.key :=
    h.sublist filter_sublist
  refine hrest.imp_of_mem fun {entry other} _ hother hsince => hsince.append fun later hlater => ?_
  rw [mem_singleton.mp hlater, hevent]
  intro heq
  exact (nodup_cons.mp hkeys).1 (Option.some.inj heq ▸ mem_map_of_mem hother)

theorem Recent.use (h : map.Recent events) (hentry : entry ∈ map.entries) {event : Event K}
    (hevent : event.uses = some entry.key) : (map.use entry hentry).Recent (events ++ [event]) :=
  @Recent.replace K _ capacity map events h entry entry hentry (.inl rfl) rfl event hevent

theorem recent_setPin {key : K} {pinned : Bool} : (map.setPin key pinned).Recent events ↔ map.Recent events := by
  simp only [Recent, setPin, pairwise_map, Resident.withPin_key]

end Map

theorem Session.take_recent {session : Session K capacity} (h : session.map.Recent session.events) (op : Op K) :
    (session.take op).map.Recent (session.take op).events := by
  cases op with
  | lookup key =>
    simp only [take, Map.apply]
    cases hfind : session.map.find? key with
    | some entry =>
      rw [Map.lookup_of_find hfind]
      exact h.use (Map.find?_mem hfind).1 (congrArg some (Map.find?_mem hfind).2.symm)
    | none =>
      rw [Map.lookup_of_none hfind]
      exact h.append (by simp)
  | touch frame =>
    simp only [take, Map.apply]
    cases hfind : session.map.entries.find? fun entry => entry.frame = frame with
    | some entry =>
      have hframe : entry.frame = frame := by simpa using List.find?_some hfind
      rw [← hframe, Map.touch_of_mem (mem_of_find?_eq_some hfind)]
      exact h.use _ rfl
    | none =>
      have hle : session.map.entries.length ≤ frame := by
        by_contra hlt
        obtain ⟨entry, hentry, hframe⟩ := mem_map.mp
          (session.map.frames.mem_iff.mpr (mem_range.mpr (Nat.not_le.mp hlt)))
        exact List.find?_eq_none.mp hfind entry hentry (decide_eq_true hframe)
      rw [Map.touch_of_le hle]
      exact h.append (by simp)
  | pin key => exact (Map.recent_setPin.mpr h).append (by simp [Map.apply])
  | unpin key => exact (Map.recent_setPin.mpr h).append (by simp [Map.apply])
  | reset => exact List.Pairwise.nil
  | acquire soft key =>
    simp only [take, Map.apply]
    cases hfind : session.map.find? key with
    | some entry =>
      rw [Map.acquire_of_find hfind]
      exact h.use (Map.find?_mem hfind).1 (congrArg some (Map.find?_mem hfind).2.symm)
    | none =>
      by_cases hroom : session.map.entries.length < capacity
      · rw [Map.acquire_of_room hfind hroom]
        refine pairwise_cons.mpr ⟨fun other _ => usedSince_concat rfl, ?_⟩
        refine h.imp_of_mem fun {entry other} _ hother hsince => hsince.append fun later hlater => ?_
        rw [mem_singleton.mp hlater]
        intro heq
        exact Map.find?_eq_none.mp hfind (Option.some.inj heq ▸ mem_map_of_mem hother)
      · have hfull := Nat.not_lt.mp hroom
        cases hvictim : victim? soft session.map.entries with
        | none =>
          rw [Map.acquire_of_refused hfind hfull hvictim]
          exact h.append (by simp)
        | some entry =>
          rw [Map.acquire_of_victim hfind hfull hvictim]
          have hevicted : session.map.Recent (session.events ++ [.evicted entry.key]) :=
            h.append (by simp [Event.uses])
          simpa using hevicted.replace rfl

theorem run_recent (ops : List (Op K)) : (run capacity ops).map.Recent (run capacity ops).events := by
  induction ops using List.reverseRecOn with
  | nil => exact List.Pairwise.nil
  | append_singleton ops op ih =>
    rw [run, foldl_append]
    exact Session.take_recent ih op

end PinnedLru
