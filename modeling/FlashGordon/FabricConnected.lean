import FlashGordon.FabricHandshake

/-! The start of the fabric never deadlocks. When the lowest rank that has not finished cannot go on, it waits for
a higher rank to connect or to send its hello, and that rank waits for nobody. A full start connects every pair of
ranks once on each channel. -/

namespace FlashGordon.Fabric

open Wire

variable {ranks rank : Nat} {m : Manifest} {s t : State}

theorem helloValid_helloFill (hrank : rank < 256) (cls : Nat) : HelloValid (helloFill m rank cls) m rank cls := by
  refine ⟨rfl, m.supported, ?_, ?_, rfl, rfl⟩
  · exact Nat.mod_eq_of_lt m.narrow
  · exact Nat.mod_eq_of_lt hrank

theorem helloFill_rank (hrank : rank < 256) (cls : Nat) : (helloFill m rank cls).rank.toNat = rank :=
  (helloValid_helloFill hrank cls).2.2.2.1

section

variable (h : Inv ranks m s)
include h

theorem Inv.recorded_of_takes {p cls x : Nat} (hp : p < x) (hx : x < ranks) (hcls : cls < 2)
    (hall : (s.stage p).takes ranks p cls = ranks - (p + 1)) :
    s.peer (p, x, cls) = some (link x p cls) ∧ 2 * p + cls < s.opened x ∧
      (s.conn (link x p cls)).reply = some (helloFill m p cls) := by
  have hcount := h.counted p (hp.trans hx) cls hcls
  rw [hall, ← Nat.sub_sub, ← Nat.card_Ioo, Finset.card_filter_eq_iff] at hcount
  obtain ⟨fd, hfd⟩ := Option.isSome_iff_exists.mp (hcount x (Finset.mem_Ioo.mpr ⟨hp, hx⟩))
  obtain ⟨rfl, hopened, hreply⟩ := h.recorded p x cls fd hp hx hcls hfd
  exact ⟨hfd, hopened, hreply⟩

theorem Inv.recorded_of_finished {p cls x : Nat} (hp : p < x) (hx : x < ranks) (hcls : cls < 2)
    (hfinished : s.stage p = .finished) :
    s.peer (p, x, cls) = some (link x p cls) ∧ 2 * p + cls < s.opened x ∧
      (s.conn (link x p cls)).reply = some (helloFill m p cls) :=
  h.recorded_of_takes hp hx hcls (by rw [hfinished]; rfl)

theorem Inv.exists_fresh {p cls : Nat} (hp : p < ranks) (hcls : cls < 2)
    (hless : (s.stage p).takes ranks p cls < ranks - (p + 1)) :
    ∃ x, p < x ∧ x < ranks ∧ s.peer (p, x, cls) = none := by
  have hcount := h.counted p hp cls hcls
  rw [← Nat.sub_sub, ← Nat.card_Ioo] at hless
  by_contra hnone
  push Not at hnone
  rw [← hcount, Finset.filter_true_of_mem] at hless
  · exact lt_irrefl _ hless
  · intro x hx
    rw [Finset.mem_Ioo] at hx
    exact Option.isSome_iff_ne_none.mpr (hnone x hx.1 hx.2)

theorem Inv.hello_eq {p cls x : Nat} {theirs : Hello} (hcls : cls < 2)
    (hpending : Pending ranks s p cls x) (hhello : (s.conn (link x p cls)).hello = some theirs) :
    theirs = helloFill m x cls := by
  by_cases hgreeting : s.stage x = .greeting p cls (link x p cls)
  · rw [h.silent x hpending.rank p cls hgreeting] at hhello
    cases hhello
  · rw [h.hello x hpending.rank p cls hcls hpending.opened hgreeting, Option.some.injEq] at hhello
    exact hhello.symm

theorem Inv.not_refused (hranks : ranks ≤ 256) (hrank : rank < ranks) :
    ¬Refused ranks m s rank := by
  have hshape := h.shaped rank hrank
  have hopened := h.opened rank hrank
  intro hrefused
  unfold Refused at hrefused
  split at hrefused <;> rename_i hstage
  · exact hrefused m.supported
  next q cls fd =>
    obtain rfl := h.calling rank hrank q cls fd (.inr hstage)
    rw [hstage] at hshape hopened
    simp only [Stage.Shaped, Stage.opens] at hshape hopened
    cases hpeer : s.peer (q, rank, cls) with
    | some fd =>
      obtain ⟨rfl, -, hreply⟩ := h.recorded q rank cls fd hshape.1 hrank hshape.2 hpeer
      rw [hreply] at hrefused
      exact hrefused (helloValid_helloFill (by omega) cls)
    | none =>
      have hpending : Pending ranks s q cls rank := ⟨hshape.1, hrank, by omega, hpeer⟩
      rw [(h.pending q cls rank hshape.2 hpending).1] at hrefused
      have hstarted := (h.made rank hrank q cls hshape.2 hpending.opened).2.2
      have halive := h.alive q (by omega)
      have hopen : s.stage q ≠ .finished := by
        intro hfinished
        rw [(h.recorded_of_finished hshape.1 hrank hshape.2 hfinished).1] at hpeer
        cases hpeer
      cases hserver : s.stage q <;> simp_all [Stage.Listens]
  next cls accepted fd =>
    obtain ⟨theirs, hhello, hbad⟩ := hrefused
    obtain ⟨-, x, rfl, hpending⟩ := h.reading rank hrank cls accepted fd hstage
    rw [hstage] at hshape
    obtain rfl := h.hello_eq hshape.1 hpending hhello
    have hx := hpending.rank
    have habove := hpending.above
    rw [helloFill_rank (by omega)] at hbad
    rcases hbad with hlow | hhigh | hinvalid | hduplicate
    · omega
    · omega
    · exact hinvalid (helloValid_helloFill (by omega) cls)
    · rw [hpending.fresh] at hduplicate
      cases hduplicate
  · exact hrefused

theorem Inv.of_step (hranks : ranks ≤ 256) (hstep : step ranks m s rank = some t) :
    Inv ranks m t := by
  obtain ⟨hrank, hmove⟩ := step_cases hstep
  cases hmove with
  | start hstage => exact h.start hrank hstage
  | connect peer cls hstage hlistens => exact h.connect hrank hstage hlistens
  | greet peer cls fd hstage => exact h.greet hrank hstage
  | receive peer cls fd theirs hstage hreply => exact h.receive hrank hstage
  | accept cls accepted fd rest hstage hwaiting => exact h.accept hrank hstage hwaiting
  | take cls accepted peer fd theirs hstage hhello hnamed hfresh =>
    obtain ⟨-, x, hfd, hpending⟩ := h.reading rank hrank cls accepted fd hstage
    have hshape := h.shaped rank hrank
    rw [hstage] at hshape
    have htheirs := h.hello_eq hshape.1 hpending (hfd ▸ hhello)
    have hx := hpending.rank
    rw [htheirs, helloFill_rank (by omega)] at hnamed
    exact hnamed ▸ h.take hrank hstage hfd hpending
  | fail u err hrefused _ => exact absurd hrefused (h.not_refused hranks hrank)

end

theorem inv_of_reachable (hranks : ranks ≤ 256) (h : Reachable ranks m s) : Inv ranks m s := by
  obtain ⟨schedule, hrun⟩ := h
  exact Runs.exec_invariant_always (fun _ _ _ hs ht => hs.of_step hranks ht) inv_initial hrun

/-- What a rank that cannot go on waits for. -/
def Blocked (s : State) (rank : Nat) : Prop :=
  match s.stage rank with
  | .connecting peer _ => ¬(s.stage peer).Listens
  | .awaiting peer _ fd => (s.conn fd).reply = none ∧ (s.stage peer).Listens
  | .accepting cls _ => s.queue (rank, cls) = []
  | .reading _ _ fd => (s.conn fd).hello = none
  | .finished | .failed _ => True
  | _ => False

theorem blocked_of_step (hrank : rank < ranks) (h : step ranks m s rank = none) : Blocked s rank := by
  rw [step, if_neg (Nat.not_le_of_lt hrank)] at h
  rw [Blocked]
  cases hstage : s.stage rank with
  | idle =>
    simp only [hstage] at h
    split at h <;> cases h
  | connecting peer cls =>
    simp only [hstage] at h
    split at h
    · cases h
    · assumption
  | greeting peer cls fd =>
    simp only [hstage] at h
    cases h
  | awaiting peer cls fd =>
    simp only [hstage, receiveReply] at h
    split at h
    · split at h <;> cases h
    · split at h
      · exact ⟨by assumption, by assumption⟩
      · cases h
  | accepting cls accepted =>
    simp only [hstage] at h
    split at h
    · assumption
    · cases h
  | reading cls accepted fd =>
    simp only [hstage] at h
    split at h
    · assumption
    · cases h
  | finished => trivial
  | failed err => trivial

theorem Inv.not_blocked_below (h : Inv ranks m s) {x q cls : Nat} (hx : x < ranks) (hq : q < x) (hcls : cls < 2)
    (hserver : s.stage q = .finished) :
    s.stage x ≠ .connecting q cls ∧ (∀ fd, s.stage x = .awaiting q cls fd → ¬Blocked s x) := by
  obtain ⟨-, hopened, -⟩ := h.recorded_of_finished hq hx hcls hserver
  rw [h.opened x hx] at hopened
  constructor
  · intro hstage
    rw [hstage] at hopened
    exact lt_irrefl _ hopened
  · intro fd hstage hblocked
    simp only [Blocked, hstage, hserver] at hblocked
    exact hblocked.2

theorem Inv.exists_unblocked (h : Inv ranks m s) {r : Nat} (hr : r < ranks) (hopen : s.stage r ≠ .finished)
    (hbelow : ∀ p < r, s.stage p = .finished) : ∃ x < ranks, ¬Blocked s x := by
  by_contra hall
  push Not at hall
  have hblocked := hall r hr
  have hshape := h.shaped r hr
  rw [Blocked] at hblocked
  cases hstage : s.stage r with
  | idle => simp only [hstage] at hblocked
  | connecting q cls =>
    rw [hstage] at hshape
    exact (h.not_blocked_below hr hshape.1 hshape.2 (hbelow q hshape.1)).1 hstage
  | greeting q cls fd => simp only [hstage] at hblocked
  | awaiting q cls fd =>
    rw [hstage] at hshape
    exact (h.not_blocked_below hr hshape.1 hshape.2 (hbelow q hshape.1)).2 fd hstage (hall r hr)
  | reading cls accepted fd =>
    -- the client of the connection has yet to send its hello, which never blocks
    simp only [hstage] at hblocked
    rw [hstage] at hshape
    obtain ⟨-, x, rfl, hpending⟩ := h.reading r hr cls accepted fd hstage
    by_cases hgreeting : s.stage x = .greeting r cls (link x r cls)
    · have hclient := hall x hpending.rank
      rw [Blocked, hgreeting] at hclient
      exact hclient
    · rw [h.hello x hpending.rank r cls hshape.1 hpending.opened hgreeting] at hblocked
      cases hblocked
  | accepting cls accepted =>
    -- a higher rank is missing on the channel and has not connected yet: it is still in its connect loops
    simp only [hstage] at hblocked
    rw [hstage] at hshape
    simp only [Stage.Shaped] at hshape
    have htakes : (s.stage r).takes ranks r cls < ranks - (r + 1) := by
      rw [hstage, Stage.takes, if_neg (lt_irrefl cls), if_pos rfl]
      omega
    obtain ⟨x, hrx, hx, hfresh⟩ := h.exists_fresh hr hshape.1 htakes
    have hunopened : s.opened x ≤ 2 * r + cls := by
      by_contra hlt
      obtain ⟨-, hqueue | ⟨other, hread⟩⟩ := h.pending r cls x hshape.1 ⟨hrx, hx, by omega, hfresh⟩
      · rw [hblocked] at hqueue
        cases hqueue
      · rw [hstage] at hread
        cases hread
    have hclient := hall x hx
    have hcshape := h.shaped x hx
    rw [h.opened x hx] at hunopened
    rw [Blocked] at hclient
    cases hcstage : s.stage x with
    | idle => simp only [hcstage] at hclient
    | greeting q c fd => simp only [hcstage] at hclient
    | connecting q c =>
      simp only [hcstage, Stage.opens, Stage.Shaped] at hclient hcshape hunopened
      obtain hlt | rfl : q < r ∨ q = r := by omega
      · exact (h.not_blocked_below hx hcshape.1 hcshape.2 (hbelow q hlt)).1 hcstage
      · rw [hstage] at hclient
        exact hclient trivial
    | awaiting q c fd =>
      simp only [hcstage, Stage.opens, Stage.Shaped] at hclient hcshape hunopened
      obtain hlt | rfl : q < r ∨ q = r := by omega
      · exact (h.not_blocked_below hx hcshape.1 hcshape.2 (hbelow q hlt)).2 fd hcstage (hall x hx)
      · -- the lower channel is complete, so the reply it waits for is there
        have hlower : (s.stage q).takes ranks q c = ranks - (q + 1) := by
          rw [hstage, Stage.takes, if_pos (by omega)]
        obtain ⟨-, -, hreply⟩ := h.recorded_of_takes hrx hx hcshape.2 hlower
        obtain rfl := h.calling x hx q c fd (.inr hcstage)
        rw [hreply] at hclient
        cases hclient.1
    | accepting c a =>
      simp only [hcstage, Stage.opens] at hunopened
      omega
    | reading c a fd =>
      simp only [hcstage, Stage.opens] at hunopened
      omega
    | finished =>
      simp only [hcstage, Stage.opens] at hunopened
      omega
    | failed err => exact h.alive x hx err hcstage
  | finished => exact hopen hstage
  | failed err => exact h.alive r hr err hstage

theorem Inv.finished_of_quiet (h : Inv ranks m s) (hquiet : ∀ r < ranks, step ranks m s r = none) :
    ∀ r < ranks, s.stage r = .finished := by
  intro r
  induction r using Nat.strongRecOn with
  | ind r ih =>
    intro hr
    by_contra hopen
    obtain ⟨x, hx, hunblocked⟩ := h.exists_unblocked hr hopen fun p hp => ih p hp (hp.trans hr)
    exact hunblocked (blocked_of_step hx (hquiet x hx))

/-- The connections between two ranks on a channel. -/
def Joins (s : State) (i j cls : Nat) (fd : Fd) : Prop :=
  fd.index < s.opened fd.client ∧ (s.conn fd).channel = cls ∧
    (fd.client = i ∧ (s.conn fd).server = j ∨ fd.client = j ∧ (s.conn fd).server = i)

/-- Each pair of ranks has one connection on each channel, and both keep it under the other's number. -/
def FullyConnected (ranks : Nat) (s : State) : Prop :=
  ∀ i < ranks, ∀ j < ranks, i ≠ j → ∀ cls < 2, ∃ fd, (∀ other, Joins s i j cls other ↔ other = fd) ∧
    s.peer (i, j, cls) = some fd ∧ s.peer (j, i, cls) = some fd

theorem Joins.swap {i j cls : Nat} {fd : Fd} : Joins s i j cls fd ↔ Joins s j i cls fd := by
  simp only [Joins]
  tauto

theorem Inv.eq_link (h : Inv ranks m s) {fd : Fd} (hclient : fd.client < ranks) (hindex : fd.index < s.opened fd.client) :
    fd = link fd.client (s.conn fd).server (s.conn fd).channel ∧ (s.conn fd).server < fd.client := by
  have hfd : fd = link fd.client (fd.index / 2) (fd.index % 2) := by
    rw [link, Nat.div_add_mod]
  obtain ⟨hserver, hchannel, -⟩ := h.made fd.client hclient (fd.index / 2) (fd.index % 2) (by omega) (by omega)
  rw [← hfd] at hserver hchannel
  have hopened := h.opened fd.client hclient
  have hshape := h.shaped fd.client hclient
  refine ⟨by rw [hserver, hchannel]; exact hfd, ?_⟩
  cases hstage : s.stage fd.client <;>
    simp only [hstage, Stage.opens, Stage.Shaped] at hopened hshape <;> omega

theorem Inv.fullyConnected (h : Inv ranks m s) (hfinished : ∀ r < ranks, s.stage r = .finished) :
    FullyConnected ranks s := by
  have hlow : ∀ i j cls, i < j → j < ranks → cls < 2 →
      (∀ other, Joins s i j cls other ↔ other = link j i cls) ∧
      s.peer (i, j, cls) = some (link j i cls) ∧ s.peer (j, i, cls) = some (link j i cls) := by
    intro i j cls hij hj hcls
    obtain ⟨hpeer, hopened, -⟩ := h.recorded_of_finished hij hj hcls (hfinished i (hij.trans hj))
    obtain ⟨hserver, hchannel, -⟩ := h.made j hj i cls hcls hopened
    refine ⟨fun other => ⟨?_, ?_⟩, hpeer, ?_⟩
    · rintro ⟨hindex, rfl, ⟨rfl, rfl⟩ | ⟨rfl, rfl⟩⟩
      · exact absurd (h.eq_link (hij.trans hj) hindex).2 (by omega)
      · exact (h.eq_link hj hindex).1
    · rintro rfl
      exact ⟨hopened, hchannel, .inr ⟨rfl, hserver⟩⟩
    · apply h.settled j hj i cls hcls
      rw [hfinished j hj, Stage.settles]
      omega
  intro i hi j hj hne cls hcls
  obtain hij | hji := Nat.lt_or_gt_of_ne hne
  · exact ⟨link j i cls, hlow i j cls hij hj hcls⟩
  · obtain ⟨hjoins, hpeer, hother⟩ := hlow j i cls hji hi hcls
    exact ⟨link i j cls, fun other => Joins.swap.trans (hjoins other), hother, hpeer⟩

def sampleManifest : Manifest where
  protocolVersion := 6
  manifestSha256 := List.replicate 32 0
  narrow := by decide
  supported := by decide

/-- In every interleaving of up to 256 ranks, some rank can go on until all have finished, and then every pair
of ranks is connected once on each channel. -/
theorem fabricOpen_never_deadlocks (m : Manifest) (hranks : ranks ≤ 256) (hreach : Reachable ranks m s) :
    ((∃ r < ranks, s.stage r ≠ .finished) → ∃ r < ranks, (step ranks m s r).isSome) ∧
    ((∀ r < ranks, step ranks m s r = none) → FullyConnected ranks s) := by
  have hinv := inv_of_reachable hranks hreach
  constructor
  · rintro ⟨r, hr, hopen⟩
    by_contra hnone
    push Not at hnone
    exact hopen (hinv.finished_of_quiet (fun x hx => Option.not_isSome_iff_eq_none.mp (hnone x hx)) r hr)
  · intro hquiet
    exact hinv.fullyConnected (hinv.finished_of_quiet hquiet)

theorem fabricOpen_never_deadlocks_eight :
    ((∃ r < 8, initial.stage r ≠ .finished) → ∃ r < 8, (step 8 sampleManifest initial r).isSome) ∧
    ((∀ r < 8, step 8 sampleManifest initial r = none) → FullyConnected 8 initial) :=
  fabricOpen_never_deadlocks sampleManifest (by decide) ⟨[], rfl⟩

/-! ### Ranks that a hello cannot name -/

theorem failed_stays {err : Error} {r : Nat} (hs : s.stage r = .failed err) (hstep : step ranks m s rank = some t) :
    t.stage r = .failed err := by
  have hother : r ≠ rank := by
    rintro rfl
    unfold step at hstep
    split at hstep
    · cases hstep
    · simp only [hs] at hstep
      cases hstep
  obtain ⟨-, hmove⟩ := step_cases hstep
  cases hmove with
  | fail u err' hrefused hsame => simpa [State.goto, hother, hsame] using hs
  | _ => simpa [State.goto, hother] using hs

/-- Rank 256 greets rank 0 as rank 0, which rank 0 refuses. -/
def refusedRun : List Nat := [0, 256, 256, 256, 0, 0]

theorem refusedRun_stage :
    (Runs.exec (step 257 sampleManifest) initial refusedRun).map (State.stage · 0) =
      some (.failed ⟨.mismatch, "incoming rank 0 handshake mismatch"⟩) := by
  decide +kernel

/-- With 257 ranks the start-up can end with a rank that has not finished and no rank that can go on. -/
theorem fabricOpen_deadlocks_past_rank_byte :
    ¬∀ s, Reachable 257 sampleManifest s → (∃ r < 257, s.stage r ≠ .finished) →
      ∃ r < 257, (step 257 sampleManifest s r).isSome := by
  intro hall
  obtain ⟨s, hrun, hstage⟩ := Option.map_eq_some_iff.mp refusedRun_stage
  have hshaped : Shaped 257 s := Runs.exec_invariant_always (fun _ _ _ hs ht => shaped_step hs ht) shaped_initial hrun
  obtain ⟨schedule, t, hrest, hquiet⟩ := @exists_quiet 257 sampleManifest s hshaped
  have hfailed : t.stage 0 = .failed ⟨.mismatch, "incoming rank 0 handshake mismatch"⟩ :=
    Runs.exec_invariant_always (fun _ _ _ hs ht => failed_stays hs ht) hstage hrest
  have hreach : Reachable 257 sampleManifest t :=
    ⟨refusedRun ++ schedule, by rw [Runs.exec_append hrun, hrest]⟩
  obtain ⟨r, -, hr⟩ := hall t hreach ⟨0, by decide, by rw [hfailed]; exact fun h => nomatch h⟩
  rw [hquiet r] at hr
  cases hr

end FlashGordon.Fabric
