import FlashGordon.Status
import Mathlib.Data.Nat.ModEq

/-! The counters that a ring shares with the kernel (`uring.c`). They run freely, modulo 2 ^ 32, and an entry lies at a
counter's low bits. A call that consumes completions looks at the queue again and again; between two looks the kernel may
post some, as far as there is room. The consuming loops compare the head with the tail by order. -/

namespace FlashGordon.UringCounters

open List

/-- The sizes of the two queues, which are powers of two. -/
structure Ring where
  sqBits : Nat
  cqBits : Nat
  larger : sqBits ≤ cqBits
  bounded : cqBits < 32

def Ring.entries (r : Ring) : Nat := 2 ^ r.sqBits

/-- `user_data` and `res`. -/
abbrev Cqe := Nat × Int

/-- The memory that is shared, of an entry of the submission queue its `user_data`. -/
structure Shared where
  sqHead : UInt32
  sqTail : UInt32
  sqes : Nat → Nat
  cqHead : UInt32
  cqTail : UInt32
  cqes : Nat → Cqe

/-- `counter & *mask`. -/
def slot (bits : Nat) (counter : UInt32) : Nat := (counter &&& .ofNat (2 ^ bits - 1)).toNat

def post (r : Ring) (s : Shared) (cqe : Cqe) : Shared :=
  { s with cqes := Function.update s.cqes (slot r.cqBits s.cqTail) cqe, cqTail := s.cqTail + 1 }

def consume (bits : Nat) (cqes : Nat → Cqe) (cqTail : UInt32) : Nat → UInt32 → List Cqe × UInt32
  | 0, cqHead => ([], cqHead)
  | room + 1, cqHead =>
    if cqHead < cqTail then
      let (rest, last) := consume bits cqes cqTail room (cqHead + 1)
      (cqes (slot bits cqHead) :: rest, last)
    else ([], cqHead)

/-- One round of the outer loop, after the kernel has posted some completions. -/
def look (r : Ring) (capacity : Nat) (posts : List Cqe) (p : Shared × List Cqe) : Shared × List Cqe :=
  let s := posts.foldl (post r) p.1
  if s.cqHead = s.cqTail then (s, p.2)
  else
    let (more, last) := consume r.cqBits s.cqes s.cqTail (capacity - p.2.length) s.cqHead
    ({ s with cqHead := last }, p.2 ++ more)

/-- The outer loop; `none` when it has not come to an end with the last look. -/
def collect (r : Ring) (need capacity : Nat) : List (List Cqe) → Shared × List Cqe → Option (Shared × List Cqe)
  | [], p => if need ≤ p.2.length then some p else none
  | posts :: rest, p => if need ≤ p.2.length then some p else collect r need capacity rest (look r capacity posts p)

/-- `fg_uring_reap`, without the checks of its arguments. -/
def reap (r : Ring) (minCount capacity : Nat) (looks : List (List Cqe)) (s : Shared) : Option (Shared × List Cqe) :=
  collect r minCount capacity looks (s, [])

/-- `fg_uring_peek`. -/
def peek (r : Ring) (capacity : Nat) (s : Shared) : List Cqe × Shared :=
  let (out, last) := consume r.cqBits s.cqes s.cqTail capacity s.cqHead
  (out, if out = [] then s else { s with cqHead := last })

/-- The entries of a batch, whose tags are the requests from `base` on, each plus one. -/
def queueEntries (r : Ring) (base batch : Nat) (s : Shared) : Shared :=
  { s with
    sqes := (List.range batch).foldl
      (fun sqes i => Function.update sqes (slot r.sqBits (s.sqTail + .ofNat i)) (base + i + 1)) s.sqes
    sqTail := s.sqTail + .ofNat batch }

def takeEntries (r : Ring) (batch : Nat) (s : Shared) : List Nat × Shared :=
  ((List.range batch).map fun i => s.sqes (slot r.sqBits (s.sqHead + .ofNat i)),
    { s with sqHead := s.sqHead + .ofNat batch })

/-- `results[request]=cqe->res`. -/
def storeResult (results : List Int) (cqe : Cqe) : List Int := results.set (cqe.1 - 1) cqe.2

/-- The loop of `fg_uring_pread_batch_results` and of `fg_uring_pwrite_batch`: the kernel says for the entries that it
took what it posts at every look. -/
def batches (r : Ring) (kernel : List Nat → List (List Cqe)) (count base : Nat) (s : Shared) (results : List Int) :
    Option (Except Error (List Int) × Shared) :=
  if base < count then
    let batch := min (count - base) r.entries
    if r.entries < (s.sqTail - s.sqHead).toNat + batch then
      some (.error ⟨.limit, "io_uring batch exceeds submission queue"⟩, s)
    else
      let (taken, s) := takeEntries r batch (queueEntries r base batch s)
      match collect r batch batch (kernel taken) (s, []) with
      | none => none
      | some (s, out) =>
        if out.any fun cqe => cqe.1 = 0 ∨ count < cqe.1 then
          some (.error ⟨.format, "invalid io_uring completion tag"⟩, s)
        else batches r kernel count (base + batch) s (out.foldl storeResult results)
  else some (.ok results, s)
termination_by count - base
decreasing_by
  have := Nat.two_pow_pos r.sqBits
  unfold Ring.entries
  omega

theorem slot_eq {bits : Nat} (h : bits < 32) (counter : UInt32) : slot bits counter = counter.toNat % 2 ^ bits := by
  have hlt : 2 ^ bits - 1 < 2 ^ 32 := (Nat.sub_le _ _).trans_lt (Nat.pow_lt_pow_right (by decide) h)
  rw [slot, UInt32.toNat_and, UInt32.toNat_ofNat_of_lt' hlt, Nat.and_two_pow_sub_one_eq_mod]

theorem toNat_add_ofNat (counter : UInt32) (n : Nat) : (counter + .ofNat n).toNat = (counter.toNat + n) % 2 ^ 32 := by
  rw [UInt32.toNat_add, UInt32.toNat_ofNat', Nat.add_mod_mod]

theorem slot_add {bits : Nat} (h : bits < 32) (counter : UInt32) (n : Nat) :
    slot bits (counter + .ofNat n) = (counter.toNat + n) % 2 ^ bits := by
  rw [slot_eq h, toNat_add_ofNat, Nat.mod_mod_of_dvd _ (Nat.pow_dvd_pow 2 h.le)]

theorem slot_inj {bits a i j : Nat} (hi : i < 2 ^ bits) (hj : j < 2 ^ bits) (h : (a + i) % 2 ^ bits = (a + j) % 2 ^ bits) :
    i = j :=
  (Nat.ModEq.add_left_cancel' a h).eq_of_lt_of_lt hi hj

variable {r : Ring} {s : Shared} {queue : List Cqe}

structure Holds (r : Ring) (s : Shared) (queue : List Cqe) : Prop where
  fits : queue.length ≤ 2 ^ r.cqBits
  tail : s.cqTail = s.cqHead + .ofNat queue.length
  entry : ∀ (i : Nat) (cqe : Cqe), queue[i]? = some cqe → s.cqes ((s.cqHead.toNat + i) % 2 ^ r.cqBits) = cqe

theorem Holds.posted (h : Holds r s queue) (hroom : queue.length < 2 ^ r.cqBits) (cqe : Cqe) :
    Holds r (post r s cqe) (queue ++ [cqe]) where
  fits := by
    rw [length_append, length_singleton]
    exact hroom
  tail := by
    change s.cqTail + 1 = s.cqHead + .ofNat (queue ++ [cqe]).length
    rw [h.tail, length_append, length_singleton, ← UInt32.toNat_inj, UInt32.toNat_add, toNat_add_ofNat,
      toNat_add_ofNat, UInt32.toNat_one, Nat.mod_add_mod, Nat.add_assoc]
  entry i other hget := by
    have hslot : slot r.cqBits s.cqTail = (s.cqHead.toNat + queue.length) % 2 ^ r.cqBits := by
      rw [h.tail, slot_add r.bounded]
    change Function.update s.cqes (slot r.cqBits s.cqTail) cqe ((s.cqHead.toNat + i) % 2 ^ r.cqBits) = other
    rw [hslot]
    by_cases hi : i = queue.length
    · subst hi
      rw [Function.update_self]
      simpa using hget
    · have hlt : i < queue.length := by
        have := (List.getElem?_eq_some_iff.mp hget).choose
        rw [length_append, length_singleton] at this
        omega
      rw [Function.update_of_ne fun heq => hi (slot_inj (hlt.trans_le h.fits) hroom heq)]
      exact h.entry i other (by rwa [List.getElem?_append_left hlt] at hget)

theorem Holds.postAll (h : Holds r s queue) {posts : List Cqe} (hroom : queue.length + posts.length ≤ 2 ^ r.cqBits) :
    Holds r (posts.foldl (post r) s) (queue ++ posts) := by
  induction posts generalizing s queue with
  | nil => simpa using h
  | cons cqe rest ih =>
    rw [length_cons] at hroom
    have hnext := ih (h.posted (by omega) cqe) (by rw [length_append, length_singleton]; omega)
    rwa [append_assoc] at hnext

theorem cqHead_posts (posts : List Cqe) (s : Shared) : (posts.foldl (post r) s).cqHead = s.cqHead := by
  induction posts generalizing s with
  | nil => rfl
  | cons cqe rest ih => exact ih _

section

variable (h : Holds r s queue)
include h

theorem toNat_tail : s.cqTail.toNat = (s.cqHead.toNat + queue.length) % 2 ^ 32 := by
  rw [h.tail, toNat_add_ofNat]

theorem Holds.length_lt : queue.length < 2 ^ 32 :=
  h.fits.trans_lt (Nat.pow_lt_pow_right (by decide) r.bounded)

theorem Holds.empty_iff : s.cqHead = s.cqTail ↔ queue = [] := by
  rw [← UInt32.toNat_inj, toNat_tail h, ← length_eq_zero_iff]
  have := s.cqHead.toNat_lt
  have := h.length_lt
  omega

/-! ## The loops over the completions -/

theorem Holds.drop {n : Nat} (hn : n ≤ queue.length) :
    Holds r { s with cqHead := s.cqHead + .ofNat n } (queue.drop n) where
  fits := (length_drop ▸ Nat.sub_le _ _).trans h.fits
  tail := by
    change s.cqTail = s.cqHead + .ofNat n + .ofNat (queue.drop n).length
    rw [h.tail, length_drop, ← UInt32.toNat_inj, toNat_add_ofNat, toNat_add_ofNat, toNat_add_ofNat, Nat.mod_add_mod,
      Nat.add_assoc, Nat.add_sub_cancel' hn]
  entry i cqe hget := by
    rw [List.getElem?_drop] at hget
    change s.cqes (((s.cqHead + .ofNat n).toNat + i) % 2 ^ r.cqBits) = cqe
    rw [toNat_add_ofNat, Nat.add_mod, Nat.mod_mod_of_dvd _ (Nat.pow_dvd_pow 2 r.bounded.le), ← Nat.add_mod, Nat.add_assoc]
    exact h.entry (n + i) cqe hget

theorem consume_of_lt (hwrap : s.cqHead.toNat + queue.length < 2 ^ 32) (room : Nat) :
    consume r.cqBits s.cqes s.cqTail room s.cqHead =
      (queue.take room, s.cqHead + .ofNat (min room queue.length)) := by
  induction room generalizing s queue with
  | zero => simp [consume]
  | succ room ih =>
    have htail := toNat_tail h
    cases queue with
    | nil =>
      rw [consume, if_neg]
      · simp
      · rw [UInt32.lt_iff_toNat_lt, htail]
        simp
    | cons cqe rest =>
      rw [length_cons] at hwrap htail
      have hrest : Holds r { s with cqHead := s.cqHead + 1 } rest := @Holds.drop r s _ h 1 (Nat.succ_pos _)
      have hhead : (s.cqHead + 1).toNat = s.cqHead.toNat + 1 := by
        rw [UInt32.toNat_add, UInt32.toNat_one, Nat.mod_eq_of_lt (by omega)]
      have hnext := ih hrest (by
        change (s.cqHead + 1).toNat + rest.length < 2 ^ 32
        omega)
      have hfirst := h.entry 0 cqe rfl
      rw [consume, if_pos, hnext]
      · rw [slot_eq r.bounded, take_succ_cons, ← hfirst, length_cons, Nat.add_min_add_right]
        refine congrArg (Prod.mk _) ?_
        rw [← UInt32.toNat_inj, toNat_add_ofNat, toNat_add_ofNat, hhead]
        omega
      · rw [UInt32.lt_iff_toNat_lt, htail, Nat.mod_eq_of_lt (by omega)]
        omega

theorem consume_of_wrapped (hwrap : 2 ^ 32 ≤ s.cqHead.toNat + queue.length) (room : Nat) :
    consume r.cqBits s.cqes s.cqTail room s.cqHead = ([], s.cqHead) := by
  cases room with
  | zero => rfl
  | succ room =>
    have htail := toNat_tail h
    have hlength := h.length_lt
    rw [consume, if_neg]
    rw [UInt32.lt_iff_toNat_lt]
    omega

end

/-- At every look the kernel posts no more than there is room for. -/
def Admitted (r : Ring) (need capacity : Nat) : List (List Cqe) → Shared × List Cqe → Prop
  | [], _ => True
  | posts :: rest, p =>
    need ≤ p.2.length ∨ (p.1.cqTail - p.1.cqHead).toNat + posts.length ≤ 2 ^ r.cqBits ∧
      Admitted r need capacity rest (look r capacity posts p)

section

variable (h : Holds r s queue)
include h

theorem Holds.available : (s.cqTail - s.cqHead).toNat = queue.length := by
  have htail := toNat_tail h
  have hlength := h.length_lt
  have hhead := s.cqHead.toNat_lt
  rw [UInt32.toNat_sub]
  omega

theorem Holds.look {capacity : Nat} {posts out : List Cqe}
    (hroom : queue.length + posts.length ≤ 2 ^ r.cqBits)
    (hwrap : s.cqHead.toNat + (queue.length + posts.length) < 2 ^ 32) :
    ∃ s', look r capacity posts (s, out) = (s', out ++ (queue ++ posts).take (capacity - out.length)) ∧
      Holds r s' ((queue ++ posts).drop (capacity - out.length)) ∧
      s'.cqHead = s.cqHead + .ofNat (min (capacity - out.length) (queue ++ posts).length) := by
  have hposted := h.postAll hroom
  have hhead := @cqHead_posts r posts s
  unfold UringCounters.look
  by_cases hempty : queue ++ posts = []
  · rw [if_pos (hposted.empty_iff.mpr hempty)]
    exact ⟨posts.foldl (post r) s, by simp [hempty], by simpa [hempty] using hposted, by simp [hempty, hhead]⟩
  · rw [if_neg fun heq => hempty (hposted.empty_iff.mp heq), consume_of_lt hposted (by rwa [hhead, length_append])]
    refine ⟨_, rfl, ?_, by rw [hhead]⟩
    have hdrop := hposted.drop (Nat.min_le_right (capacity - out.length) (queue ++ posts).length)
    rcases Nat.le_total (capacity - out.length) (queue ++ posts).length with hle | hle
    · rwa [Nat.min_eq_left hle] at hdrop ⊢
    · rw [Nat.min_eq_right hle] at hdrop ⊢
      rwa [drop_length, ← drop_eq_nil_of_le hle] at hdrop

theorem Holds.look_wrapped {capacity : Nat} {posts out : List Cqe}
    (hroom : queue.length + posts.length ≤ 2 ^ r.cqBits)
    (hwrap : 2 ^ 32 ≤ s.cqHead.toNat + (queue.length + posts.length)) :
    UringCounters.look r capacity posts (s, out) = (posts.foldl (post r) s, out) := by
  have hposted := h.postAll hroom
  unfold UringCounters.look
  dsimp only
  rw [consume_of_wrapped hposted (by rwa [cqHead_posts, length_append])]
  split
  · rfl
  · rw [append_nil]

theorem Holds.collect_wrapped {need capacity : Nat} {looks : List (List Cqe)} {out : List Cqe}
    (hneed : out.length < need) (hadmitted : Admitted r need capacity looks (s, out))
    (hwrap : 2 ^ 32 ≤ s.cqHead.toNat + queue.length) : collect r need capacity looks (s, out) = none := by
  induction looks generalizing s queue with
  | nil => exact if_neg (Nat.not_le.mpr hneed)
  | cons posts rest ih =>
    obtain hdone | ⟨hroom, hrest⟩ := hadmitted
    · exact absurd hdone (Nat.not_le.mpr hneed)
    · rw [h.available] at hroom
      have hlook := @Holds.look_wrapped r s queue h capacity posts out hroom (by omega)
      rw [hlook] at hrest
      rw [collect, if_neg (Nat.not_le.mpr hneed), hlook]
      exact ih (h.postAll hroom) hrest (by rw [cqHead_posts, length_append]; omega)

end

/-- What has come in at the first look by which enough has. -/
def arrived (need : Nat) : List (List Cqe) → List Cqe → Option (List Cqe)
  | [], _ => none
  | posts :: rest, before =>
    if need ≤ (before ++ posts).length then some (before ++ posts) else arrived need rest (before ++ posts)

theorem length_arrived {need : Nat} {looks : List (List Cqe)} {before all : List Cqe}
    (h : arrived need looks before = some all) : need ≤ all.length ∧ before.length ≤ all.length := by
  induction looks generalizing before with
  | nil => cases h
  | cons posts rest ih =>
    rw [arrived] at h
    split at h
    next henough =>
      cases h
      exact ⟨henough, by rw [length_append]; exact Nat.le_add_right _ _⟩
    · obtain ⟨hneed, hle⟩ := ih h
      rw [length_append] at hle
      exact ⟨hneed, by omega⟩

theorem collect_done {need capacity : Nat} {looks : List (List Cqe)} {p : Shared × List Cqe} (h : need ≤ p.2.length) :
    collect r need capacity looks p = some p := by
  cases looks <;> exact if_pos h

theorem Holds.collect (h : Holds r s queue) {need capacity : Nat} {looks : List (List Cqe)} {out all : List Cqe}
    (hcapacity : need ≤ capacity) (hneed : out.length < need) (hadmitted : Admitted r need capacity looks (s, out))
    (harrived : arrived need looks (out ++ queue) = some all) :
    (s.cqHead.toNat + (all.length - out.length) < 2 ^ 32 →
      ∃ s', collect r need capacity looks (s, out) = some (s', all.take capacity) ∧ Holds r s' (all.drop capacity) ∧
        s'.cqHead = s.cqHead + .ofNat (min capacity all.length - out.length)) ∧
    (2 ^ 32 ≤ s.cqHead.toNat + (all.length - out.length) → collect r need capacity looks (s, out) = none) := by
  induction looks generalizing s queue out with
  | nil => cases harrived
  | cons posts rest ih =>
    have hopen := Nat.not_le.mpr hneed
    obtain hdone | ⟨hroom, hrest⟩ := id hadmitted
    · exact absurd hdone hopen
    rw [h.available] at hroom
    rw [arrived, append_assoc] at harrived
    have hlength : (out ++ (queue ++ posts)).length = out.length + (queue.length + posts.length) := by
      rw [length_append, length_append]
    by_cases hwrap : s.cqHead.toNat + (queue.length + posts.length) < 2 ^ 32
    · obtain ⟨s', hlook, hholds, hhead⟩ := @Holds.look r s queue h capacity posts out hroom hwrap
      rw [collect, if_neg hopen, hlook]
      rw [hlook] at hrest
      split at harrived
      next henough =>
        obtain rfl := Option.some.inj harrived
        rw [hlength]
        refine ⟨fun _ => ⟨s', ?_, ?_, ?_⟩, fun hover => absurd hwrap (by omega)⟩
        · have hall : (out ++ (queue ++ posts)).take capacity =
              out ++ (queue ++ posts).take (capacity - out.length) := by
            rw [take_append, take_of_length_le (by omega)]
          rw [hall]
          refine collect_done ?_
          rw [length_append, length_take, length_append]
          omega
        · rwa [drop_append, drop_eq_nil_of_le (by omega), nil_append]
        · rw [hhead, length_append]
          congr 2
          omega
      next hmore =>
        have htaken : (queue ++ posts).take (capacity - out.length) = queue ++ posts :=
          take_of_length_le (by rw [length_append]; omega)
        have hnone : (queue ++ posts).drop (capacity - out.length) = [] :=
          drop_eq_nil_of_le (by rw [length_append]; omega)
        rw [htaken] at hrest ⊢
        rw [hnone] at hholds
        rw [length_append, Nat.min_eq_right (by omega)] at hhead
        have hmoved : s'.cqHead.toNat = s.cqHead.toNat + (queue.length + posts.length) := by
          rw [hhead, toNat_add_ofNat, Nat.mod_eq_of_lt hwrap]
        obtain ⟨hneed', hle⟩ := length_arrived harrived
        obtain ⟨hends, hstays⟩ := ih hholds (by rw [hlength]; omega) hrest (by rwa [append_nil])
        refine ⟨fun hlt => ?_, fun hover => hstays (by omega)⟩
        obtain ⟨t, ht, hleft, hhead'⟩ := hends (by omega)
        refine ⟨t, ht, hleft, ?_⟩
        rw [hhead', ← UInt32.toNat_inj, toNat_add_ofNat, toNat_add_ofNat, hmoved]
        congr 1
        omega
    · have hstuck : collect r need capacity (posts :: rest) (s, out) = none := by
        have hlook := @Holds.look_wrapped r s queue h capacity posts out hroom (by omega)
        rw [hlook] at hrest
        rw [collect, if_neg hopen, hlook]
        exact (h.postAll hroom).collect_wrapped hneed hrest (by rw [cqHead_posts, length_append]; omega)
      refine ⟨fun hlt => absurd hlt ?_, fun _ => hstuck⟩
      have hle : (out ++ (queue ++ posts)).length ≤ all.length := by
        split at harrived
        · exact (Option.some.inj harrived).symm ▸ Nat.le_refl _
        · exact (length_arrived harrived).2
      omega

/-- No entry is with the kernel, and no completion is left. -/
structure Idle (r : Ring) (s : Shared) : Prop where
  submission : s.sqTail = s.sqHead
  completion : Holds r s []

/-- The kernel completes the entries it took, each once and in some order. -/
def Completes (kernel : List Nat → List (List Cqe)) (answer : Nat → Int) : Prop :=
  ∀ taken, (kernel taken).flatten.Perm (taken.map fun tag => (tag, answer tag))

theorem sqes_queueEntries (counter : UInt32) (base : Nat) (sqes : Nat → Nat) {n : Nat} (hn : n ≤ r.entries) {i : Nat}
    (hi : i < n) :
    ((List.range n).foldl (fun sqes i => Function.update sqes (slot r.sqBits (counter + .ofNat i)) (base + i + 1)) sqes)
      (slot r.sqBits (counter + .ofNat i)) = base + i + 1 := by
  have hbits := r.larger.trans_lt r.bounded
  induction n with
  | zero => cases hi
  | succ n ih =>
    rw [range_succ, foldl_append, foldl_cons, foldl_nil]
    by_cases heq : i = n
    · rw [heq, Function.update_self]
    · rw [Function.update_of_ne, ih (by omega) (by omega)]
      rw [slot_add hbits, slot_add hbits]
      exact fun hslot => heq (slot_inj (by unfold Ring.entries at hn; omega) (by unfold Ring.entries at hn; omega) hslot)

theorem takeEntries_queueEntries (h : Idle r s) (base : Nat) {batch : Nat} (hbatch : batch ≤ r.entries) :
    (takeEntries r batch (queueEntries r base batch s)).1 = (List.range batch).map fun i => base + i + 1 := by
  refine map_congr_left fun i hi => ?_
  rw [queueEntries]
  rw [← h.submission]
  exact sqes_queueEntries s.sqTail base s.sqes hbatch (mem_range.mp hi)

theorem Holds.admitted (h : Holds r s queue) (need capacity : Nat) {looks : List (List Cqe)} (out : List Cqe)
    (hroom : queue.length + looks.flatten.length ≤ 2 ^ r.cqBits) : Admitted r need capacity looks (s, out) := by
  induction looks generalizing s queue out with
  | nil => exact trivial
  | cons posts rest ih =>
    rw [flatten_cons, length_append] at hroom
    refine .inr ⟨by rw [h.available]; omega, ?_⟩
    by_cases hwrap : s.cqHead.toNat + (queue.length + posts.length) < 2 ^ 32
    · obtain ⟨s', hlook, hholds, -⟩ := @Holds.look r s queue h capacity posts out (by omega) hwrap
      rw [hlook]
      refine ih hholds _ ?_
      rw [length_drop, length_append]
      omega
    · rw [h.look_wrapped (by omega) (by omega)]
      exact ih (h.postAll (by omega)) out (by rw [length_append]; omega)

theorem arrived_flatten {need : Nat} {looks : List (List Cqe)} {before : List Cqe} (hbefore : before.length < need)
    (hall : before.length + looks.flatten.length = need) : arrived need looks before = some (before ++ looks.flatten) := by
  induction looks generalizing before with
  | nil =>
    rw [flatten_nil, length_nil] at hall
    omega
  | cons posts rest ih =>
    rw [flatten_cons, length_append] at hall
    rw [arrived, flatten_cons, length_append, ← append_assoc]
    split
    next henough =>
      rw [length_eq_zero_iff.mp (show rest.flatten.length = 0 by omega), append_nil]
    next hmore => exact ih (by rw [length_append]; omega) (by rw [length_append]; omega)

theorem foldl_storeResult {answer : Nat → Int} {out : List Cqe} (hout : ∀ cqe ∈ out, 0 < cqe.1 ∧ cqe.2 = answer cqe.1)
    (results : List Int) (i : Nat) : (out.foldl storeResult results)[i]? =
      if i + 1 ∈ out.map Prod.fst ∧ i < results.length then some (answer (i + 1)) else results[i]? := by
  induction out generalizing results with
  | nil => simp
  | cons cqe rest ih =>
    obtain ⟨⟨hpos, hanswer⟩, hrest⟩ := forall_mem_cons.mp hout
    rw [foldl_cons, ih hrest, storeResult, length_set, List.getElem?_set, hanswer]
    simp only [map_cons, mem_cons]
    by_cases htag : i + 1 = cqe.1
    · rw [← htag, Nat.add_sub_cancel]
      by_cases hi : i < results.length <;> simp [hi]
    · rw [if_neg (show ¬cqe.1 - 1 = i by omega)]
      simp only [htag, false_or]

theorem length_foldl_storeResult (out : List Cqe) (results : List Int) :
    (out.foldl storeResult results).length = results.length := by
  induction out generalizing results with
  | nil => rfl
  | cons cqe rest ih => rw [foldl_cons, ih, storeResult, length_set]

theorem sq_collect {need capacity : Nat} {looks : List (List Cqe)} {p q : Shared × List Cqe}
    (h : collect r need capacity looks p = some q) : q.1.sqHead = p.1.sqHead ∧ q.1.sqTail = p.1.sqTail := by
  have hposts (posts : List Cqe) (s : Shared) :
      (posts.foldl (post r) s).sqHead = s.sqHead ∧ (posts.foldl (post r) s).sqTail = s.sqTail := by
    induction posts generalizing s with
    | nil => exact ⟨rfl, rfl⟩
    | cons cqe rest ih => exact ih _
  induction looks generalizing p with
  | nil =>
    rw [collect] at h
    split at h
    · cases h
      exact ⟨rfl, rfl⟩
    · cases h
  | cons posts rest ih =>
    rw [collect] at h
    split at h
    · cases h
      exact ⟨rfl, rfl⟩
    · obtain ⟨hhead, htail⟩ := ih h
      obtain ⟨hhead', htail'⟩ := hposts posts p.1
      unfold look at hhead htail
      dsimp only at hhead htail
      split at hhead
      next heq =>
        rw [if_pos heq] at htail
        exact ⟨hhead.trans hhead', htail.trans htail'⟩
      next hne =>
        rw [if_neg hne] at htail
        exact ⟨hhead.trans hhead', htail.trans htail'⟩

theorem batches_from {kernel : List Nat → List (List Cqe)} {answer : Nat → Int} (hkernel : Completes kernel answer)
    {count base : Nat} {results : List Int} (hidle : Idle r s) (hbase : base ≤ count) (hlength : results.length = count)
    (hdone : ∀ i < base, results[i]? = some (answer (i + 1))) :
    (s.cqHead.toNat + (count - base) < 2 ^ 32 → ∃ s', batches r kernel count base s results =
        some (.ok ((List.range count).map fun i => answer (i + 1)), s') ∧ Idle r s' ∧
          s'.cqHead = s.cqHead + .ofNat (count - base)) ∧
      (2 ^ 32 ≤ s.cqHead.toNat + (count - base) → batches r kernel count base s results = none) := by
  induction hleft : count - base using Nat.strong_induction_on generalizing base s results with
  | _ left ih =>
    rw [batches]
    have hentries : 0 < r.entries := Nat.two_pow_pos _
    split
    next hlt =>
      set batch := min (count - base) r.entries with hbatch
      have hpos : 0 < batch := by omega
      have hfits : batch ≤ 2 ^ r.cqBits := (Nat.min_le_right _ _).trans (Nat.pow_le_pow_right (by decide) r.larger)
      rw [if_neg (by rw [hidle.submission, UInt32.sub_self]; exact Nat.not_lt.mpr (by simp [hbatch]))]
      have htaken := takeEntries_queueEntries hidle base (Nat.min_le_right (count - base) r.entries)
      rw [show takeEntries r batch (queueEntries r base batch s) =
        ((List.range batch).map fun i => base + i + 1, (takeEntries r batch (queueEntries r base batch s)).2) from
          Prod.ext htaken rfl]
      set taken := (List.range batch).map fun i => base + i + 1 with htags
      set queued := (takeEntries r batch (queueEntries r base batch s)).2 with hqueued
      dsimp only
      have hqueue : Holds r queued [] :=
        ⟨hidle.completion.fits, hidle.completion.tail, hidle.completion.entry⟩
      have hperm := hkernel taken
      have hcount : (kernel taken).flatten.length = batch := by
        rw [hperm.length_eq, length_map, htags, length_map, length_range]
      obtain ⟨hends, hstays⟩ := @Holds.collect r queued [] hqueue batch batch (kernel taken) [] _ (Nat.le_refl _) hpos
        (hqueue.admitted batch batch [] (by rw [hcount, length_nil]; omega))
        (arrived_flatten hpos (by rw [append_nil, hcount, length_nil, Nat.zero_add]))
      rw [append_nil, nil_append, hcount, length_nil, Nat.sub_zero, Nat.min_self] at hends
      rw [append_nil, nil_append, hcount, length_nil, Nat.sub_zero] at hstays
      change s.cqHead.toNat + batch < 2 ^ 32 → _ at hends
      change 2 ^ 32 ≤ s.cqHead.toNat + batch → _ at hstays
      by_cases hwrap : s.cqHead.toNat + batch < 2 ^ 32
      · obtain ⟨after, hcollect, hleftover, hhead⟩ := hends hwrap
        rw [take_of_length_le (Nat.le_of_eq hcount)] at hcollect
        rw [drop_eq_nil_of_le (Nat.le_of_eq hcount)] at hleftover
        obtain ⟨hsqHead, hsqTail⟩ := sq_collect hcollect
        have hmem (cqe : Cqe) (hcqe : cqe ∈ (kernel taken).flatten) :
            ∃ i < batch, cqe = (base + i + 1, answer (base + i + 1)) := by
          obtain ⟨tag, htag, rfl⟩ := mem_map.mp (hperm.mem_iff.mp hcqe)
          obtain ⟨i, hi, rfl⟩ := mem_map.mp htag
          exact ⟨i, mem_range.mp hi, rfl⟩
        have hgood : ((kernel taken).flatten.any fun cqe => cqe.1 = 0 ∨ count < cqe.1) = false := by
          refine any_eq_false.mpr fun cqe hcqe => ?_
          obtain ⟨i, hi, rfl⟩ := hmem cqe hcqe
          rw [decide_eq_true_eq]
          omega
        rw [hcollect]
        dsimp only
        rw [hgood, if_neg (by decide)]
        have hmoved : after.cqHead.toNat = s.cqHead.toNat + batch := by
          rw [hhead, toNat_add_ofNat]
          exact Nat.mod_eq_of_lt hwrap
        have hidle' : Idle r after := ⟨by
          rw [hsqTail, hsqHead]
          exact congrArg (· + .ofNat batch) hidle.submission, hleftover⟩
        have hresults (i : Nat) (hi : i < base + batch) :
            ((kernel taken).flatten.foldl storeResult results)[i]? = some (answer (i + 1)) := by
          rw [@foldl_storeResult answer _ fun cqe hcqe => by
            obtain ⟨j, -, rfl⟩ := hmem cqe hcqe
            exact ⟨Nat.succ_pos _, rfl⟩]
          split
          · rfl
          next hnot =>
            refine hdone i (Nat.not_le.mp fun hle => hnot ⟨?_, by omega⟩)
            refine mem_map.mpr ⟨(i + 1, answer (i + 1)), hperm.mem_iff.mpr (mem_map_of_mem ?_), rfl⟩
            exact mem_map.mpr ⟨i - base, mem_range.mpr (by omega), by omega⟩
        have hnext := @ih (count - (base + batch)) (by omega) after (base + batch)
          ((kernel taken).flatten.foldl storeResult results) hidle' (by omega)
          (by rw [length_foldl_storeResult, hlength]) hresults rfl
        refine ⟨fun hlt => ?_, fun hover => hnext.2 (by omega)⟩
        obtain ⟨last, hlast, hidleLast, hheadLast⟩ := hnext.1 (by omega)
        refine ⟨last, hlast, hidleLast, ?_⟩
        rw [hheadLast, ← UInt32.toNat_inj, toNat_add_ofNat, toNat_add_ofNat, hmoved]
        congr 1
        omega
      · rw [hstays (Nat.not_lt.mp hwrap)]
        exact ⟨fun hlt => absurd hlt (by omega), fun _ => rfl⟩
    next hall =>
      have hhead := s.cqHead.toNat_lt
      refine ⟨fun _ => ⟨s, ?_, hidle, ?_⟩, fun hover => absurd hover (by omega)⟩
      · refine congrArg (fun results => some (Except.ok results, s)) (ext_getElem? fun i => ?_)
        by_cases hi : i < base
        · rw [hdone i hi, List.getElem?_map, List.getElem?_range (by omega)]
          rfl
        · rw [List.getElem?_eq_none (by omega), List.getElem?_eq_none (by rw [length_map, length_range]; omega)]
      · rw [show left = 0 by omega]
        simp

/-- A call ends, with each completion in its place, if and only if the counters of the completions do not wrap around
before it has what it needs. -/
theorem ends_iff (r : Ring) :
    (∀ kernel answer count s, Completes kernel answer → Idle r s →
      ((∃ s', batches r kernel count 0 s (List.replicate count (-2147483648)) =
          some (.ok ((List.range count).map fun i => answer (i + 1)), s') ∧ Idle r s' ∧
            s'.cqHead = s.cqHead + .ofNat count) ↔ s.cqHead.toNat + count < 2 ^ 32)) ∧
    (∀ minCount capacity looks s queue all, 0 < minCount → minCount ≤ capacity → Holds r s queue →
      Admitted r minCount capacity looks (s, []) → arrived minCount looks queue = some all →
      ((∃ s', reap r minCount capacity looks s = some (s', all.take capacity) ∧ Holds r s' (all.drop capacity)) ↔
        s.cqHead.toNat + all.length < 2 ^ 32)) ∧
    (∀ capacity s queue, 0 < capacity → Holds r s queue →
      (((peek r capacity s).1 = queue.take capacity ∧ Holds r (peek r capacity s).2 (queue.drop capacity)) ↔
        s.cqHead.toNat + queue.length < 2 ^ 32)) := by
  refine ⟨fun kernel answer count s hkernel hidle => ?_, fun minCount capacity looks s queue all hmin hcapacity hholds
    hadmitted harrived => ?_, fun capacity s queue hcapacity hholds => ?_⟩
  · obtain ⟨hends, hstays⟩ := batches_from hkernel hidle (Nat.zero_le count) (length_replicate ..)
      (fun i hi => absurd hi (Nat.not_lt_zero i))
    refine ⟨fun ⟨s', hs', _⟩ => Nat.not_le.mp fun hover => ?_, hends⟩
    rw [hstays hover] at hs'
    cases hs'
  · obtain ⟨hends, hstays⟩ :=
      @Holds.collect r s queue hholds minCount capacity looks [] all hcapacity hmin hadmitted harrived
    refine ⟨fun ⟨s', hs', _⟩ => Nat.not_le.mp fun hover => ?_, fun hlt => ?_⟩
    · rw [reap, hstays hover] at hs'
      cases hs'
    · obtain ⟨s', hs', hleft, -⟩ := hends hlt
      exact ⟨s', hs', hleft⟩
  · unfold peek
    constructor
    · rintro ⟨hout, -⟩
      by_contra hover
      rw [consume_of_wrapped hholds (Nat.not_lt.mp hover)] at hout
      have hempty := (take_eq_nil_iff.mp hout.symm).resolve_left hcapacity.ne'
      rw [hempty, length_nil] at hover
      exact hover s.cqHead.toNat_lt
    · intro hlt
      rw [consume_of_lt hholds hlt]
      refine ⟨rfl, ?_⟩
      have hdrop := hholds.drop (Nat.min_le_right capacity queue.length)
      dsimp only
      split
      next hnone =>
        obtain rfl := (take_eq_nil_iff.mp hnone).resolve_left hcapacity.ne'
        rwa [drop_nil]
      next hsome =>
        rcases Nat.le_total capacity queue.length with hle | hle
        · rwa [Nat.min_eq_left hle] at hdrop ⊢
        · rw [Nat.min_eq_right hle] at hdrop ⊢
          rwa [drop_length, ← drop_eq_nil_of_le hle] at hdrop

/-- Two entries at a time, completed in turn from the last one on. -/
def smallRing : Ring := ⟨1, 2, by decide, by decide⟩

def idleAt (counter : UInt32) : Shared := ⟨counter, counter, fun _ => 0, counter, counter, fun _ => (0, 0)⟩

def backwards (taken : List Nat) : List (List Cqe) := taken.reverse.map fun tag => [(tag, Int.ofNat tag)]

theorem idle_idleAt (counter : UInt32) : Idle smallRing (idleAt counter) where
  submission := rfl
  completion := ⟨Nat.zero_le _, (UInt32.add_zero counter).symm, fun i cqe hget => by cases hget⟩

theorem completes_backwards : Completes backwards Int.ofNat := fun taken => by
  have hflat (tags : List Nat) : (tags.map fun tag => [(tag, Int.ofNat tag)]).flatten =
      tags.map fun tag => (tag, Int.ofNat tag) := by
    induction tags with
    | nil => rfl
    | cons tag rest ih => exact congrArg (_ :: ·) ih
  rw [backwards, hflat]
  exact (reverse_perm taken).map _

theorem ends_iff_three : ∃ s', batches smallRing backwards 3 0 (idleAt 5) (List.replicate 3 (-2147483648)) =
    some (.ok [1, 2, 3], s') ∧ Idle smallRing s' ∧ s'.cqHead = 8 :=
  ((ends_iff smallRing).1 backwards Int.ofNat 3 (idleAt 5) completes_backwards (idle_idleAt 5)).mpr (by decide)

/-- With the counter at its last value one completion is never consumed. -/
theorem batches_never_ends : ∃ r kernel answer count s, Completes kernel answer ∧ Idle r s ∧
    batches r kernel count 0 s (List.replicate count (-2147483648)) = none :=
  ⟨smallRing, backwards, Int.ofNat, 1, idleAt 0xffffffff, completes_backwards, idle_idleAt _,
    (batches_from completes_backwards (idle_idleAt _) (Nat.zero_le 1) (length_replicate ..)
      (fun i hi => absurd hi (Nat.not_lt_zero i))).2 (by decide)⟩

end FlashGordon.UringCounters
