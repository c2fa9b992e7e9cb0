import FlashGordon.Uring

/-! Which completion answers which request. A call that starts on an idle ring reads the completions of its own
entries only, and a call during which no `io_uring_enter` fails or stops short leaves the ring idle. -/

namespace FlashGordon.Uring

open List

/-- The entries of a call on a ring that was idle: each of them is queued, in flight, posted or read, except those
of `pending`, which the call is about to read. -/
structure Sound (call : Nat) (pending : List (Sqe × Int)) (p : Progress) : Prop where
  placed : ((p.consumed ++ pending).map Prod.fst ++ p.queues.held).Perm p.entries
  called : ∀ entry ∈ p.entries, entry.call = call
  numbered : p.entries.map Sqe.request = List.range p.entries.length

variable {q : Queues}

theorem Sound.start (hidle : q.held = []) (call count : Nat) : Sound call [] (Progress.start q count) where
  placed := hidle ▸ List.Perm.refl []
  called _ hentry := absurd hentry not_mem_nil
  numbered := rfl

variable {p : Progress} {call : Nat} {pending : List (Sqe × Int)} {completion : Sqe × Int}

theorem Sound.mem_entries (h : Sound call pending p)
    (hmem : completion ∈ p.consumed ++ pending) : completion.1 ∈ p.entries :=
  h.placed.subset (mem_append_left _ (mem_map_of_mem (f := Prod.fst) hmem))

theorem held_uringEnter (q : Queues) (submit : Nat) (tick : Tick) : (uringEnter q submit tick).2.held.Perm q.held := by
  rw [uringEnter]
  exact (IoQueues.held_postAll _ _).trans (List.Perm.of_eq (q.held_take _))

theorem Sound.move (h : Sound call [] p) {queues : Queues}
    (hqueues : queues.held.Perm p.queues.held) : Sound call [] { p with queues } :=
  ⟨(hqueues.append_left _).trans h.placed, h.called, h.numbered⟩

theorem Sound.push (h : Sound call [] p) {entries : List Sqe} (hcalled : ∀ entry ∈ entries, entry.call = call)
    (hnumbered : entries.map Sqe.request = (List.range entries.length).map (p.entries.length + ·)) :
    Sound call [] (p.push entries) := by
  refine ⟨?_, ?_, ?_⟩
  · show ((p.consumed ++ []).map Prod.fst ++ (p.queues.push entries).held).Perm (p.entries ++ entries)
    rw [IoQueues.held_push, ← append_assoc]
    exact h.placed.append_right entries
  · intro entry hentry
    rcases mem_append.mp hentry with hold | hnew
    · exact h.called entry hold
    · exact hcalled entry hnew
  · show (p.entries ++ entries).map Sqe.request = List.range (p.entries ++ entries).length
    rw [map_append, h.numbered, hnumbered, length_append, range_add]

theorem length_le_push (p : Progress) (entries : List Sqe) :
    entries.length ≤ (p.push entries).queues.queued.length := by
  show entries.length ≤ (p.queues.queued ++ entries).length
  rw [length_append]
  exact Nat.le_add_left _ _

theorem Sound.requests_nodup (h : Sound call pending p) :
    ((p.consumed ++ pending).map fun completion => completion.1.request).Nodup := by
  have hentries : (p.entries.map Sqe.request).Nodup := h.numbered ▸ nodup_range
  have hall := (h.placed.map Sqe.request).nodup_iff.mpr hentries
  rw [map_append, map_map] at hall
  exact (nodup_append.mp hall).1

theorem Sound.read_all (h : Sound call [] p) (hlength : p.consumed.length = p.entries.length) : p.queues.held = [] := by
  have hplaced := h.placed.length_eq
  rw [append_nil, length_append, length_map] at hplaced
  exact eq_nil_of_length_eq_zero (by omega)

/-- Every completion that the call read belongs to an entry that the call queued, and each result that it reports is
that of the entry of the same request. -/
structure Attributed (report : Report) : Prop where
  own : ∀ completion ∈ report.consumed, completion.1 ∈ report.entries
  called : ∀ entry ∈ report.entries, entry.call = report.call
  matched : ∀ results, report.answer = .ok results → results.length = report.entries.length ∧
    ∀ i entry result, report.entries[i]? = some entry → results[i]? = some result →
      entry.request = i ∧ (entry, result) ∈ report.consumed

variable {answer : Except Error (List Int)}

theorem Sound.attributed (h : Sound call [] p)
    (hmatched : ∀ results, answer = .ok results → results.length = p.entries.length ∧
      ∀ completion ∈ p.consumed, results[completion.1.request]? = some completion.2)
    (hread : ∀ results, answer = .ok results → p.queues.held = []) :
    Attributed ⟨call, answer, p.entries, p.consumed⟩ := by
  refine ⟨fun completion hmem => h.mem_entries (mem_append_left _ hmem), h.called, ?_⟩
  intro results hanswer
  obtain ⟨hlength, hresults⟩ := hmatched results hanswer
  refine ⟨hlength, ?_⟩
  intro i entry result hentry hresult
  have hrequest : entry.request = i := by
    have hat : (p.entries.map Sqe.request)[i]? = some entry.request := by
      rw [List.getElem?_map, hentry]
      rfl
    rw [h.numbered, List.getElem?_range (List.getElem?_eq_some_iff.mp hentry).1] at hat
    exact (Option.some.inj hat).symm
  have hmem : entry ∈ p.consumed.map Prod.fst := by
    have hplaced := h.placed
    rw [append_nil, hread results hanswer, append_nil] at hplaced
    exact hplaced.mem_iff.mpr (mem_of_getElem? hentry)
  obtain ⟨⟨own, read⟩, hconsumed, rfl⟩ := mem_map.mp hmem
  have hsame : results[own.request]? = some read := hresults _ hconsumed
  rw [hrequest, hresult] at hsame
  cases hsame
  exact ⟨hrequest, hconsumed⟩

/-- The kernel takes everything that a call submits, and no call of `io_uring_enter` fails. -/
def Honest (r : Ring) (script : List Tick) : Prop := ∀ tick ∈ script, tick.failed = none ∧ r.entries ≤ tick.taken

instance (r : Ring) (script : List Tick) : Decidable (Honest r script) :=
  inferInstanceAs (Decidable (∀ tick ∈ script, tick.failed = none ∧ r.entries ≤ tick.taken))

theorem Honest.tail {r : Ring} {tick : Tick} {rest : List Tick} (h : Honest r (tick :: rest)) : Honest r rest :=
  (forall_mem_cons.mp h).2

theorem Honest.enter {r : Ring} {tick : Tick} {rest : List Tick} (h : Honest r (tick :: rest))
    {submit : Nat} (hsubmit : submit ≤ r.entries) (hqueued : submit ≤ q.queued.length) :
    (uringEnter q submit tick).1 = .ok submit := by
  obtain ⟨hfailed, htaken⟩ := h tick mem_cons_self
  have hall : min tick.taken (min submit q.queued.length) = submit := by
    omega
  rw [uringEnter, hfailed, hall]

variable {strerror : Int → String} {r : Ring}

/-- What a call has to keep: its completions are its own, and when it ends well it has read them all. -/
structure Ended (call : Nat) (answer : Except Error (List Int)) (p : Progress) : Prop extends Sound call [] p where
  read : ∀ results, answer = .ok results → p.queues.held = []
  matched : ∀ results, answer = .ok results → results.length = p.entries.length ∧
    ∀ completion ∈ p.consumed, results[completion.1.request]? = some completion.2

theorem Sound.failed (h : Sound call [] p) (e : Error) : Ended call (.error e) p :=
  ⟨h, fun _ hok => (nomatch hok), fun _ hok => (nomatch hok)⟩

theorem Sound.readSingle (h : Sound call [] p) (strerror : Int → String) (hone : p.entries.length = 1)
    (hnone : p.consumed = []) {rest : List (Sqe × Int)}
    (hready : p.queues.completed = completion :: rest) :
    Ended call (readSingle strerror p completion).1 (readSingle strerror p completion).2 ∧
      (readSingle strerror p completion).2.queues.held = [] := by
  have hsound : Sound call [] (Uring.readSingle strerror p completion).2 := by
    refine ⟨?_, h.called, h.numbered⟩
    have hread := p.queues.held_read 1
    rw [hready] at hread
    have hplaced := h.placed
    rw [hnone, ← hread] at hplaced
    show ((p.consumed ++ [completion] ++ []).map Prod.fst ++ (p.queues.read 1).held).Perm p.entries
    rw [hnone]
    exact hplaced
  have hheld : (Uring.readSingle strerror p completion).2.queues.held = [] := by
    apply hsound.read_all
    show (p.consumed ++ [completion]).length = p.entries.length
    rw [hnone, hone]
    rfl
  refine ⟨⟨hsound, fun _ _ => hheld, ?_⟩, hheld⟩
  intro results hanswer
  have hrequest : completion.1.request = 0 := by
    have hmem : completion.1 ∈ p.entries :=
      hsound.mem_entries (mem_append_left _ (mem_append_right _ mem_cons_self))
    have hzero : completion.1.request ∈ p.entries.map Sqe.request := mem_map_of_mem hmem
    rw [h.numbered, hone] at hzero
    exact mem_singleton.mp hzero
  have hresults : results = [completion.2] := by
    have hcases : (if completion.2 < 0 then Except.error _ else Except.ok [completion.2]) = Except.ok results := hanswer
    split at hcases
    · cases hcases
    · exact (Except.ok.inj hcases).symm
  refine ⟨?_, ?_⟩
  · rw [hresults]
    exact hone.symm
  · intro other hother
    have hsame : other ∈ [completion] := by
      have hconsumed : (Uring.readSingle strerror p completion).2.consumed = p.consumed ++ [completion] := rfl
      rwa [hconsumed, hnone] at hother
    rw [mem_singleton.mp hsame, hrequest, hresults]
    rfl

variable {script : List Tick}

theorem waitOne_ready {rest : List (Sqe × Int)} (hready : p.queues.completed = completion :: rest) :
    waitOne strerror script p = some (readSingle strerror p completion) := by
  unfold waitOne
  rw [hready]

variable {p p' : Progress}

theorem waitOne_ended (h : Sound call [] p) (hone : p.entries.length = 1) (hnone : p.consumed = [])
    (hwait : waitOne strerror script p = some (answer, p')) :
    Ended call answer p' ∧ (Honest r script → p'.queues.held = []) := by
  induction script generalizing p with
  | nil =>
    cases hready : p.queues.completed with
    | nil =>
      unfold waitOne at hwait
      rw [hready] at hwait
      cases hwait
    | cons completion rest =>
      cases (waitOne_ready hready).symm.trans hwait
      obtain ⟨hended, hleft⟩ := h.readSingle strerror hone hnone hready
      exact ⟨hended, fun _ => hleft⟩
  | cons tick rest ih =>
    cases hready : p.queues.completed with
    | cons completion _ =>
      cases (waitOne_ready hready).symm.trans hwait
      obtain ⟨hended, hleft⟩ := h.readSingle strerror hone hnone hready
      exact ⟨hended, fun _ => hleft⟩
    | nil =>
      have hmove := held_uringEnter p.queues 0 tick
      unfold waitOne at hwait
      rw [hready] at hwait
      dsimp only at hwait
      split at hwait
      next errno queues henter =>
        rw [henter] at hmove
        cases hwait
        refine ⟨(h.move hmove).failed _, ?_⟩
        intro hhonest
        have hok := hhonest.enter (q := p.queues) (Nat.zero_le _) (Nat.zero_le _)
        rw [henter] at hok
        cases hok
      next queues henter =>
        rw [henter] at hmove
        obtain ⟨hended, hidle⟩ := ih (h.move hmove) hone hnone hwait
        exact ⟨hended, fun hhonest => hidle hhonest.tail⟩

theorem submitOnce_ended {op : Op} {slot : Nat} {request : Request} (hidle : q.held = [])
    (hcall : submitOnce strerror r call op slot request script q = some (answer, p)) :
    Ended call answer p ∧ (Honest r script → p.queues.held = []) := by
  have hstart := Sound.start hidle call 1
  rw [submitOnce] at hcall
  split at hcall
  · cases hcall
    exact ⟨hstart.failed _, fun _ => hidle⟩
  split at hcall
  · cases hcall
    exact ⟨hstart.failed _, fun _ => hidle⟩
  split at hcall
  · cases hcall
    exact ⟨hstart.failed _, fun _ => hidle⟩
  have hpush : Sound call [] ((Progress.start q 1).push [singleSqe call op slot request]) := hstart.push
    (fun entry hentry => mem_singleton.mp hentry ▸ rfl) rfl
  split at hcall
  · cases hcall
  next tick rest =>
    have hmove := held_uringEnter ((Progress.start q 1).push [singleSqe call op slot request]).queues 1 tick
    dsimp only at hcall
    split at hcall
    next errno queues henter =>
      rw [henter] at hmove
      cases hcall
      refine ⟨(hpush.move hmove).failed _, ?_⟩
      intro hhonest
      have hok := hhonest.enter (q := ((Progress.start q 1).push [singleSqe call op slot request]).queues)
        r.entries_pos (length_le_push _ [_])
      rw [henter] at hok
      cases hok
    next queues henter =>
      rw [henter] at hmove
      obtain ⟨hended, hleft⟩ := waitOne_ended (r := r) (hpush.move hmove) rfl rfl hcall
      exact ⟨hended, fun hhonest => hleft hhonest.tail⟩

/-- A batch call on `count` requests: the tags name the requests, and what was read stands in the results. -/
structure Reading (call count : Nat) (pending : List (Sqe × Int)) (p : Progress) : Prop extends Sound call pending p where
  tagged : ∀ entry ∈ p.entries, entry.userData = entry.request + 1
  fits : p.entries.length ≤ count
  width : count < 2 ^ 32
  sized : p.results.length = count
  filled : ∀ completion ∈ p.consumed, p.results[completion.1.request]? = some completion.2
  wellTagged : p.badTag = false

variable {call count : Nat}

theorem Reading.request_lt (h : Reading call count pending p) {entry : Sqe} (hentry : entry ∈ p.entries) :
    entry.request < count ∧ tagRequest entry.userData = entry.request := by
  have hmem : entry.request ∈ p.entries.map Sqe.request := mem_map_of_mem hentry
  rw [h.numbered, mem_range] at hmem
  have hfits := h.fits
  have hwidth := h.width
  refine ⟨by omega, ?_⟩
  rw [h.tagged entry hentry, tagRequest, if_neg (Nat.succ_ne_zero _), Nat.add_sub_cancel]
  exact Nat.mod_eq_of_lt (by omega)

theorem Reading.readOne
    (h : Reading call count (completion :: pending) p) : Reading call count pending (p.readOne count completion) := by
  have hentry : completion.1 ∈ p.entries :=
    h.mem_entries (mem_append_right _ mem_cons_self)
  obtain ⟨hlt, htag⟩ := h.request_lt hentry
  have hresults : (p.readOne count completion).results = p.results.set completion.1.request completion.2 := by
    rw [Progress.readOne, htag, if_pos hlt]
  refine ⟨⟨?_, h.called, h.numbered⟩, h.tagged, h.fits, h.width, ?_, ?_, ?_⟩
  · show ((p.consumed ++ [completion] ++ pending).map Prod.fst ++ p.queues.held).Perm p.entries
    rw [append_assoc]
    exact h.placed
  · rw [hresults, length_set]
    exact h.sized
  · intro other hother
    rw [hresults]
    rcases mem_append.mp hother with hold | hnew
    · have hne : completion.1.request ≠ other.1.request := by
        have hnodup := h.requests_nodup
        rw [map_append, map_cons] at hnodup
        have hread := mem_map_of_mem (f := fun c : Sqe × Int => c.1.request) hold
        exact ((nodup_append.mp hnodup).2.2 _ hread _ mem_cons_self).symm
      rw [List.getElem?_set_ne hne]
      exact h.filled other hold
    · rw [mem_singleton.mp hnew, List.getElem?_set_self (by rw [h.sized]; exact hlt)]
  · show (p.badTag || decide (count ≤ tagRequest completion.1.userData)) = false
    rw [h.wellTagged, htag, Bool.false_or, decide_eq_false_iff_not]
    omega

theorem Reading.readList (h : Reading call count pending p) :
    Reading call count [] (pending.foldl (Progress.readOne count) p) ∧
      (pending.foldl (Progress.readOne count) p).entries = p.entries ∧
      (pending.foldl (Progress.readOne count) p).queues = p.queues ∧
      (pending.foldl (Progress.readOne count) p).completed = p.completed + pending.length ∧
      (pending.foldl (Progress.readOne count) p).consumed.length = p.consumed.length + pending.length := by
  induction pending generalizing p with
  | nil => exact ⟨h, rfl, rfl, rfl, rfl⟩
  | cons completion rest ih =>
    obtain ⟨hreading, hentries, hqueues, hcompleted, hconsumed⟩ := ih h.readOne
    refine ⟨hreading, hentries, hqueues, hcompleted.trans ?_, hconsumed.trans ?_⟩
    · show p.completed + 1 + rest.length = p.completed + (rest.length + 1)
      omega
    · show (p.consumed ++ [completion]).length + rest.length = p.consumed.length + (rest.length + 1)
      rw [length_append, length_singleton]
      omega

structure Collecting (call count batch read : Nat) (p : Progress) : Prop extends Reading call count [] p where
  completed_le : p.completed ≤ batch
  consumed_length : p.consumed.length = read + p.completed
  entries_length : p.entries.length = read + batch

variable {call count batch read : Nat}

section

variable (h : Collecting call count batch read p)
include h

theorem Collecting.readReady :
    Collecting call count batch read (p.readReady count batch) := by
  have hpending : Reading call count (p.queues.completed.take (batch - p.completed))
      { p with queues := p.queues.read (batch - p.completed) } := by
    refine ⟨⟨?_, h.called, h.numbered⟩, h.tagged, h.fits, h.width, h.sized, h.filled, h.wellTagged⟩
    have hplaced := h.placed
    rw [append_nil, ← p.queues.held_read (batch - p.completed), ← append_assoc, ← map_append] at hplaced
    exact hplaced
  obtain ⟨hreading, hentries, hqueues, hcompleted, hconsumed⟩ := hpending.readList
  have htaken : (p.queues.completed.take (batch - p.completed)).length ≤ batch - p.completed := length_take_le _ _
  have hle := h.completed_le
  have hread := h.consumed_length
  refine ⟨hreading, ?_, ?_, ?_⟩
  · rw [Progress.readReady, hcompleted]
    show p.completed + _ ≤ batch
    omega
  · rw [Progress.readReady, hcompleted, hconsumed]
    show p.consumed.length + _ = read + (p.completed + _)
    omega
  · rw [Progress.readReady, hentries]
    exact h.entries_length

theorem Collecting.move {queues : Queues} (hqueues : queues.held.Perm p.queues.held) :
    Collecting call count batch read { p with queues } :=
  ⟨⟨h.toSound.move hqueues, h.tagged, h.fits, h.width, h.sized, h.filled, h.wellTagged⟩, h.completed_le,
    h.consumed_length, h.entries_length⟩

theorem collect_collecting {script rest : List Tick} {failed : Option Int}
    (hcollect : collect count batch script p = some (failed, rest, p')) :
    Collecting call count batch read p' ∧ (failed = none → batch ≤ p'.completed) ∧
      (Honest r script → failed = none ∧ Honest r rest) := by
  induction script generalizing p with
  | nil =>
    rw [collect] at hcollect
    split at hcollect
    next hdone =>
      cases hcollect
      exact ⟨h.readReady, fun _ => hdone, fun hhonest => ⟨rfl, hhonest⟩⟩
    · cases hcollect
  | cons tick script ih =>
    rw [collect] at hcollect
    split at hcollect
    next hdone =>
      cases hcollect
      exact ⟨h.readReady, fun _ => hdone, fun hhonest => ⟨rfl, hhonest⟩⟩
    · have hmove := held_uringEnter (p.readReady count batch).queues 0 tick
      split at hcollect
      next errno queues henter =>
        rw [henter] at hmove
        cases hcollect
        refine ⟨h.readReady.move hmove, fun hfailed => (nomatch hfailed), ?_⟩
        intro hhonest
        have hok := hhonest.enter (q := (p.readReady count batch).queues) (Nat.zero_le _) (Nat.zero_le _)
        rw [henter] at hok
        cases hok
      next queues henter =>
        rw [henter] at hmove
        obtain ⟨hcollecting, hdone, hidle⟩ := ih (h.readReady.move hmove) hcollect
        exact ⟨hcollecting, hdone, fun hhonest => hidle hhonest.tail⟩

end

@[simp] theorem length_batchSqes (call : Nat) (op : Op) (slot : Nat) (requests : List Request) (base batch : Nat) :
    (batchSqes call op slot requests base batch).length = min batch (requests.length - base) := by
  rw [batchSqes, length_mapIdx, length_take, length_drop]

variable {requests : List Request}

theorem mem_batchSqes {op : Op} {slot : Nat} {base batch : Nat} {entry : Sqe}
    (h : entry ∈ batchSqes call op slot requests base batch) :
    entry.call = call ∧ entry.userData = entry.request + 1 := by
  obtain ⟨i, _, rfl⟩ := mem_mapIdx.mp h
  exact ⟨rfl, rfl⟩

theorem batchSqes_request (call : Nat) (op : Op) (slot : Nat) (requests : List Request) (base batch : Nat) :
    (batchSqes call op slot requests base batch).map Sqe.request =
      (List.range (batchSqes call op slot requests base batch).length).map (base + ·) := by
  apply ext_getElem
  · rw [length_map, length_map, length_range]
  · intro i _ _
    simp [batchSqes, batchSqe]

/-- The call has read the results of its first `base` requests, and the ring is idle. -/
structure Between (call count base : Nat) (p : Progress) : Prop extends Reading call count [] p where
  idle : p.queues.held = []
  base_eq : p.entries.length = base

theorem Between.consumed_length {call count base : Nat} (h : Between call count base p) : p.consumed.length = base := by
  have hplaced := h.placed.length_eq
  rwa [h.idle, append_nil, append_nil, length_map, h.base_eq] at hplaced

theorem Between.push {call base batch : Nat}
    (h : Between call requests.length base p) (op : Op) (slot : Nat) (hbatch : base + batch ≤ requests.length) :
    Collecting call requests.length batch base
      { p.push (batchSqes call op slot requests base batch) with completed := 0 } := by
  have hlength : (batchSqes call op slot requests base batch).length = batch := by
    rw [length_batchSqes]
    omega
  have hsound := h.toSound.push (fun entry hentry => (mem_batchSqes hentry).1)
    (by rw [h.base_eq]; exact batchSqes_request call op slot requests base batch)
  have hentries : (p.entries ++ batchSqes call op slot requests base batch).length = base + batch := by
    rw [length_append, h.base_eq, hlength]
  refine ⟨⟨⟨hsound.placed, hsound.called, hsound.numbered⟩, ?_, ?_, h.width, h.sized, h.filled, h.wellTagged⟩,
    Nat.zero_le _, ?_, hentries⟩
  · intro entry hentry
    rcases mem_append.mp hentry with hold | hnew
    · exact h.tagged entry hold
    · exact (mem_batchSqes hnew).2
  · exact hentries.trans_le hbatch
  · exact h.consumed_length

theorem Collecting.between {call count batch base : Nat} (h : Collecting call count batch base p)
    (hdone : batch ≤ p.completed) : Between call count (base + batch) p := by
  refine ⟨h.toReading, h.toSound.read_all ?_, h.entries_length⟩
  have hle := h.completed_le
  rw [h.consumed_length, h.entries_length]
  omega

theorem Between.ended {call count base : Nat} (h : Between call count base p) (hall : count ≤ base) :
    Ended call (.ok p.results) p := by
  refine ⟨h.toSound, fun _ _ => h.idle, ?_⟩
  intro results hanswer
  cases hanswer
  refine ⟨?_, h.filled⟩
  have hfits := h.fits
  rw [h.sized]
  have hbase := h.base_eq
  omega

def BatchKind.Accepts (kind : BatchKind) : Prop := ∀ n, kind.refused (.ok n) n = none

theorem submissions_ended {call slot base fuel : Nat} {kind : BatchKind} (haccepts : kind.Accepts)
    (h : Between call requests.length base p) (hfuel : requests.length ≤ base + fuel)
    (hrun : submissions strerror r call kind slot requests fuel base script p = some (answer, p')) :
    Ended call answer p' ∧ (Honest r script → p'.queues.held = []) := by
  induction fuel generalizing base script p with
  | zero =>
    cases hrun
    exact ⟨h.ended hfuel, fun _ => h.idle⟩
  | succ fuel ih =>
    rw [submissions] at hrun
    split at hrun
    next hall =>
      cases hrun
      exact ⟨h.ended hall, fun _ => h.idle⟩
    dsimp only at hrun
    split at hrun
    · cases hrun
      exact ⟨h.toSound.failed _, fun _ => h.idle⟩
    split at hrun
    · cases hrun
    rename_i tick rest
    have hbatch : base + min (requests.length - base) r.entries ≤ requests.length := by
      omega
    have hpos := r.entries_pos
    have hpush := h.push kind.op slot hbatch
    have hlength : min (requests.length - base) r.entries ≤
        (p.push (batchSqes call kind.op slot requests base (min (requests.length - base) r.entries))).queues.queued.length := by
      refine le_trans ?_ (length_le_push _ _)
      rw [length_batchSqes]
      omega
    have hle : min (requests.length - base) r.entries ≤ r.entries := min_le_right _ _
    have hsome : 0 < min (requests.length - base) r.entries := by
      omega
    generalize min (requests.length - base) r.entries = batch at *
    have hmove := held_uringEnter (p.push (batchSqes call kind.op slot requests base batch)).queues batch tick
    have hsent := hpush.move hmove
    split at hrun
    next text hrefused =>
      cases hrun
      refine ⟨Sound.failed ?_ _, ?_⟩
      · exact ⟨hsent.placed, hsent.called, hsent.numbered⟩
      intro hhonest
      rw [hhonest.enter hle hlength, haccepts] at hrefused
      cases hrefused
    · split at hrun
      · cases hrun
      next errno rest' p'' hcollect =>
        obtain ⟨hcollecting, _, hhonest⟩ := collect_collecting (r := r) hsent hcollect
        cases hrun
        exact ⟨hcollecting.toSound.failed _, fun hall => nomatch (hhonest hall.tail).1⟩
      next rest' p'' hcollect =>
        obtain ⟨hcollecting, hdone, hhonest⟩ := collect_collecting (r := r) hsent hcollect
        have hbetween := hcollecting.between (hdone rfl)
        rw [if_neg (by rw [hbetween.wellTagged]; exact Bool.false_ne_true)] at hrun
        obtain ⟨hended, hidle⟩ := ih hbetween (by omega) hrun
        exact ⟨hended, fun hall => hidle (hhonest hall.tail).2⟩

theorem Between.start (hidle : q.held = []) (call : Nat) {count : Nat} (hwidth : count < 2 ^ 32) :
    Between call count 0 (Progress.start q count) := by
  refine ⟨⟨Sound.start hidle call count, ?_, Nat.zero_le _, hwidth, length_replicate .., ?_, rfl⟩, hidle, rfl⟩
  · intro entry hentry
    exact absurd hentry not_mem_nil
  · intro completion hmem
    exact absurd hmem not_mem_nil

theorem readKind_accepts (strerror : Int → String) : (readKind strerror).Accepts :=
  fun _ => if_neg fun hne => hne rfl

theorem writeKind_accepts (strerror : Int → String) : (writeKind strerror).Accepts := fun _ => rfl

theorem preadBatchResults_ended {call slot capacity : Nat} {reads : Requests} (hidle : q.held = [])
    (hcall : preadBatchResults strerror r call slot reads capacity script q = some (answer, p)) :
    Ended call answer p ∧ (Honest r script → p.queues.held = []) := by
  have hstart := Between.start hidle call reads.2
  rw [preadBatchResults] at hcall
  split at hcall
  · cases hcall
    exact ⟨hstart.toSound.failed _, fun _ => hidle⟩
  split at hcall
  · cases hcall
    exact ⟨hstart.toSound.failed _, fun _ => hidle⟩
  · exact submissions_ended (readKind_accepts strerror) hstart (by omega) hcall

theorem pwriteBatch_ended {call slot : Nat} {writes : Requests} (hidle : q.held = [])
    (hcall : pwriteBatch strerror r call slot writes script q = some (answer, p)) :
    Ended call answer p ∧ (Honest r script → p.queues.held = []) := by
  have hstart := Between.start hidle call writes.2
  rw [pwriteBatch] at hcall
  split at hcall
  · cases hcall
    exact ⟨hstart.toSound.failed _, fun _ => hidle⟩
  split at hcall
  · cases hcall
    exact ⟨hstart.toSound.failed _, fun _ => hidle⟩
  · split at hcall
    next results p' hsubmit =>
      obtain ⟨hended, hleft⟩ := submissions_ended (r := r) (writeKind_accepts strerror) hstart (by omega) hsubmit
      split at hcall
      · cases hcall
        exact ⟨hended.toSound.failed _, hleft⟩
      · cases hcall
        exact ⟨hended, hleft⟩
    · exact submissions_ended (writeKind_accepts strerror) hstart (by omega) hcall

theorem perform_ended {action : Action}
    (hidle : q.held = []) (hcall : perform strerror r call action q = some (answer, p)) :
    Ended call answer p ∧ (Honest r action.script → p.queues.held = []) := by
  cases action with
  | mk kind script =>
    cases kind with
    | submitOnce op slot request => exact submitOnce_ended hidle hcall
    | preadBatchResults slot reads capacity => exact preadBatchResults_ended hidle hcall
    | pwriteBatch slot writes => exact pwriteBatch_ended hidle hcall

/-- The ring holds nothing of an earlier call. -/
def Idle (s : System) : Prop := s.queues.held = []

theorem step_attributed {s t : System} {action : Action} (hidle : Idle s)
    (hreports : ∀ report ∈ s.reports, Attributed report) (hstep : step strerror r s action = some t) :
    (∀ report ∈ t.reports, Attributed report) ∧ (Honest r action.script → Idle t) := by
  obtain ⟨⟨answer, p⟩, hcall, rfl⟩ := Option.map_eq_some_iff.mp hstep
  obtain ⟨hended, hleft⟩ := perform_ended hidle hcall
  refine ⟨?_, hleft⟩
  intro report hreport
  rcases mem_append.mp hreport with hold | hnew
  · exact hreports report hold
  · rw [mem_singleton.mp hnew]
    exact hended.toSound.attributed hended.matched hended.read

theorem along_idle {s : System} {actions : List Action} (hidle : Idle s)
    (hhonest : ∀ action ∈ actions.dropLast, Honest r action.script) :
    Runs.Along (step strerror r) (fun s _ => Idle s) s actions := by
  induction actions generalizing s with
  | nil => trivial
  | cons action rest ih =>
    refine ⟨hidle, ?_⟩
    split
    next t hstep =>
      cases rest with
      | nil => trivial
      | cons next more =>
        obtain ⟨⟨answer, p⟩, hcall, rfl⟩ := Option.map_eq_some_iff.mp hstep
        exact ih ((perform_ended hidle hcall).2 (hhonest action mem_cons_self))
          (forall_mem_cons.mp hhonest).2
    · trivial

/-- In a run whose calls all start on an idle ring every completion goes to the call that queued its entry, and every
result to its request. Calls in which no `io_uring_enter` fails or stops short leave the ring idle. -/
theorem exec_attributed {s : System} {actions : List Action}
    (hrun : Runs.exec (step strerror r) init actions = some s) :
    (Runs.Along (step strerror r) (fun s _ => Idle s) init actions → ∀ report ∈ s.reports, Attributed report) ∧
      ((∀ action ∈ actions.dropLast, Honest r action.script) →
        Runs.Along (step strerror r) (fun s _ => Idle s) init actions) := by
  refine ⟨?_, along_idle rfl⟩
  intro halong
  have hstep (s : System) (action : Action) (t : System) (hreports : ∀ report ∈ s.reports, Attributed report)
      (hidle : Idle s) (hnext : step strerror r s action = some t) : ∀ report ∈ t.reports, Attributed report :=
    (step_attributed hidle hreports hnext).1
  have hinit : ∀ report ∈ init.reports, Attributed report := fun report hreport => absurd hreport not_mem_nil
  exact Runs.exec_invariant hstep hinit halong hrun

/-- A ring of eight entries with a registered buffer of four pages. -/
def smallRing : Ring := ⟨8, Nat.succ_pos 7, 1, 4096, 16384, true⟩

/-- Two writes that complete in the other order, then a read whose wait a signal ends. -/
theorem exec_attributed_batch :
    let actions : List Action := [
      ⟨.pwriteBatch 0 ⟨[⟨4096, 512, 0⟩, ⟨8192, 1024, 512⟩], by decide⟩, [⟨8, none, [(1, 1024)]⟩, ⟨8, none, [(0, 512)]⟩]⟩,
      ⟨.submitOnce .read 0 ⟨4096, 4096, 0⟩, [⟨1, none, []⟩, ⟨0, some 4, []⟩]⟩]
    ∃ s, Runs.exec (step (fun _ => "Interrupted system call") smallRing) init actions = some s ∧
      s.reports.map (fun report => report.answer.toOption) = [some [512, 1024], none] ∧
      ∀ report ∈ s.reports, Attributed report := by
  intro actions
  have hanswers : (Runs.exec (step (fun _ => "Interrupted system call") smallRing) init actions).map (fun s =>
      s.reports.map fun report => report.answer.toOption) = some [some [512, 1024], none] := by decide +kernel
  obtain ⟨s, hrun, hs⟩ := Option.map_eq_some_iff.mp hanswers
  refine ⟨s, hrun, hs, (exec_attributed hrun).1 ((exec_attributed hrun).2 ?_)⟩
  intro action haction
  rw [mem_singleton.mp haction]
  decide

/-- The read of the next page is answered with the completion of the read that a signal interrupted. -/
theorem exec_misattributes :
    let actions : List Action := [
      ⟨.submitOnce .read 0 ⟨4096, 4096, 0⟩, [⟨1, none, []⟩, ⟨0, some 4, []⟩]⟩,
      ⟨.submitOnce .read 0 ⟨8192, 4096, 4096⟩, [⟨1, none, [(0, 4096)]⟩]⟩]
    ∃ s, Runs.exec (step (fun _ => "Interrupted system call") smallRing) init actions = some s ∧
      s.reports.map (fun report => report.answer.toOption) = [none, some [4096]] ∧
      ∃ report ∈ s.reports, ¬Attributed report := by
  intro actions
  have hreports : (Runs.exec (step (fun _ => "Interrupted system call") smallRing) init actions).map (fun s =>
      (s.reports.map fun report => report.answer.toOption,
        s.reports.map fun report => (report.call, report.consumed.map fun completion => completion.1.call))) =
      some ([none, some [4096]], [(0, []), (1, [0])]) := by decide +kernel
  obtain ⟨s, hrun, hs⟩ := Option.map_eq_some_iff.mp hreports
  obtain ⟨hanswers, hcalls⟩ := Prod.mk.inj hs
  refine ⟨s, hrun, hanswers, ?_⟩
  have hlast : (1, [0]) ∈ s.reports.map fun report =>
      (report.call, report.consumed.map fun completion => completion.1.call) := by
    rw [hcalls]
    exact mem_cons_of_mem _ mem_cons_self
  obtain ⟨report, hmem, hreport⟩ := mem_map.mp hlast
  obtain ⟨hcall, hconsumed⟩ := Prod.mk.inj hreport
  refine ⟨report, hmem, ?_⟩
  intro hattributed
  have hread : 0 ∈ report.consumed.map fun completion => completion.1.call := by
    rw [hconsumed]
    exact mem_cons_self
  obtain ⟨completion, hcompletion, hzero⟩ := mem_map.mp hread
  have hown := hattributed.called _ (hattributed.own _ hcompletion)
  rw [hzero, hcall] at hown
  exact Nat.zero_ne_one hown

end FlashGordon.Uring
