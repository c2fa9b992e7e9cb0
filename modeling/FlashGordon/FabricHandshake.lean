import FlashGordon.FabricStartRun
import Mathlib.Order.Interval.Finset.Nat

/-! The invariant of the fabric's handshakes. Each rank opens its connections in a fixed order, so that a rank's
stage says which of them exist and which it has recorded; a connection that its server has not answered waits in
the server's backlog or is being read; and a server has taken as many connections as its loop counters say. -/

namespace FlashGordon.Fabric

open Wire

variable {ranks rank : Nat} {m : Manifest} {s t : State}

/-! ## The invariant of the handshakes -/

/-- The connections a rank has opened when it is at the stage: the connection to `peer` on `cls` is number
`2 * peer + cls`. -/
def Stage.opens (rank : Nat) : Stage → Nat
  | .idle | .failed _ => 0
  | .connecting peer cls => 2 * peer + cls
  | .greeting peer cls _ | .awaiting peer cls _ => 2 * peer + cls + 1
  | .accepting .. | .reading .. | .finished => 2 * rank

def Stage.settles (rank : Nat) : Stage → Nat
  | .idle | .failed _ => 0
  | .connecting peer cls | .greeting peer cls _ | .awaiting peer cls _ => 2 * peer + cls
  | .accepting .. | .reading .. | .finished => 2 * rank

def Stage.takes (ranks rank cls : Nat) : Stage → Nat
  | .accepting at_ accepted | .reading at_ accepted _ =>
    if cls < at_ then ranks - (rank + 1) else if cls = at_ then accepted - (rank + 1) else 0
  | .finished => ranks - (rank + 1)
  | _ => 0

def link (rank peer cls : Nat) : Fd := ⟨rank, 2 * peer + cls⟩

/-- The server has not answered the connection of rank `h` yet. -/
@[mk_iff] structure Pending (ranks : Nat) (s : State) (p cls h : Nat) : Prop where
  above : p < h
  rank : h < ranks
  opened : 2 * p + cls < s.opened h
  fresh : s.peer (p, h, cls) = none

/-- What holds between any two steps. A rank that opens connections: `shaped` to `settled`. A rank that takes
them: `recorded` to `counted`. -/
structure Inv (ranks : Nat) (m : Manifest) (s : State) : Prop where
  shaped : Shaped ranks s
  alive : ∀ r < ranks, ∀ err, s.stage r ≠ .failed err
  calling : ∀ r < ranks, ∀ p cls fd, s.stage r = .greeting p cls fd ∨ s.stage r = .awaiting p cls fd →
    fd = link r p cls
  opened : ∀ r < ranks, s.opened r = (s.stage r).opens r
  made : ∀ h < ranks, ∀ p cls, cls < 2 → 2 * p + cls < s.opened h →
    (s.conn (link h p cls)).server = p ∧ (s.conn (link h p cls)).channel = cls ∧ s.stage p ≠ .idle
  hello : ∀ h < ranks, ∀ p cls, cls < 2 → 2 * p + cls < s.opened h →
    s.stage h ≠ .greeting p cls (link h p cls) → (s.conn (link h p cls)).hello = some (helloFill m h cls)
  silent : ∀ h < ranks, ∀ p cls, s.stage h = .greeting p cls (link h p cls) →
    (s.conn (link h p cls)).hello = none
  settled : ∀ h < ranks, ∀ p cls, cls < 2 → 2 * p + cls < (s.stage h).settles h →
    s.peer (h, p, cls) = some (link h p cls)
  recorded : ∀ p h cls fd, p < h → h < ranks → cls < 2 → s.peer (p, h, cls) = some fd →
    fd = link h p cls ∧ 2 * p + cls < s.opened h ∧ (s.conn fd).reply = some (helloFill m p cls)
  pending : ∀ p cls h, cls < 2 → Pending ranks s p cls h → (s.conn (link h p cls)).reply = none ∧
    (link h p cls ∈ s.queue (p, cls) ∨ ∃ accepted, s.stage p = .reading cls accepted (link h p cls))
  queued : ∀ p < ranks, ∀ cls < 2, (s.queue (p, cls)).Nodup ∧
    ∀ fd ∈ s.queue (p, cls), ∃ h, fd = link h p cls ∧ Pending ranks s p cls h
  reading : ∀ p < ranks, ∀ cls accepted fd, s.stage p = .reading cls accepted fd →
    fd ∉ s.queue (p, cls) ∧ ∃ h, fd = link h p cls ∧ Pending ranks s p cls h
  counted : ∀ p < ranks, ∀ cls < 2,
    ((Finset.Ioo p ranks).filter fun h => (s.peer (p, h, cls)).isSome).card = (s.stage p).takes ranks p cls

theorem inv_initial : Inv ranks m initial where
  shaped := shaped_initial
  alive := by simp [initial]
  calling := by simp [initial]
  opened := by simp [initial, Stage.opens]
  made := by simp [initial]
  hello := by simp [initial]
  silent := by simp [initial]
  settled := by simp [initial, Stage.settles]
  recorded := by simp [initial]
  pending := fun p cls h _ hpending => absurd hpending.opened (by simp [initial])
  queued := by simp [initial]
  reading := by simp [initial]
  counted := by simp [initial, Stage.takes]

/-! ### The stages between two calls -/

/-- The rank has started and is between two calls of `outgoing` or `incoming_any`. -/
def Stage.Between : Stage → Prop
  | .connecting .. | .accepting .. | .finished => True
  | _ => False

@[grind =] theorem between_idle : Stage.idle.Between ↔ False := Iff.rfl

@[grind =] theorem between_greeting (p cls : Nat) (fd : Fd) : (Stage.greeting p cls fd).Between ↔ False := Iff.rfl

@[grind =] theorem between_awaiting (p cls : Nat) (fd : Fd) : (Stage.awaiting p cls fd).Between ↔ False := Iff.rfl

@[grind =] theorem between_reading (cls accepted : Nat) (fd : Fd) : (Stage.reading cls accepted fd).Between ↔ False :=
  Iff.rfl

@[grind =] theorem between_failed (err : Error) : (Stage.failed err).Between ↔ False := Iff.rfl

theorem between_acceptFrom (cls accepted : Nat) : (acceptFrom ranks rank cls accepted).Between := by
  obtain ⟨-, heq⟩ | ⟨-, -, -, heq⟩ | ⟨-, -, heq⟩ := acceptFrom_cases ranks rank cls accepted <;> rw [heq] <;> trivial

theorem between_connectFrom (p cls : Nat) : (connectFrom ranks rank p cls).Between := by
  obtain ⟨-, -, heq⟩ | ⟨-, -, heq⟩ | ⟨-, -, heq⟩ := connectFrom_cases ranks rank p cls <;> rw [heq]
  · trivial
  · trivial
  · exact between_acceptFrom 0 (rank + 1)

theorem acceptFrom_counts {cls accepted : Nat} (hcls : cls < 2) (hlow : rank < accepted) (hhigh : accepted ≤ ranks) :
    (∀ c < 2, (acceptFrom ranks rank cls accepted).takes ranks rank c =
      (Stage.accepting cls accepted).takes ranks rank c) ∧
    (acceptFrom ranks rank cls accepted).opens rank = 2 * rank ∧
    (acceptFrom ranks rank cls accepted).settles rank = 2 * rank := by
  obtain ⟨-, heq⟩ | ⟨hfull, hzero, -, heq⟩ | ⟨hfull, hlast, heq⟩ := acceptFrom_cases ranks rank cls accepted <;>
    rw [heq]
  · exact ⟨fun _ _ => rfl, rfl, rfl⟩
  · refine ⟨fun c hc => ?_, rfl, rfl⟩
    simp only [Stage.takes, hzero]
    grind
  · refine ⟨fun c hc => ?_, rfl, rfl⟩
    simp only [Stage.takes]
    grind

theorem connectFrom_counts (hrank : rank < ranks) {p cls : Nat} (hcls : cls ≤ 2)
    (hp : p < rank ∨ rank = 0 ∧ p = 0 ∧ cls = 0) :
    (∀ c < 2, (connectFrom ranks rank p cls).takes ranks rank c = 0) ∧
    (connectFrom ranks rank p cls).opens rank = 2 * p + cls ∧
    (connectFrom ranks rank p cls).settles rank = 2 * p + cls := by
  obtain ⟨-, -, heq⟩ | ⟨hdone, hmore, heq⟩ | ⟨hdone, hlast, heq⟩ := connectFrom_cases ranks rank p cls <;> rw [heq]
  · exact ⟨fun _ _ => rfl, rfl, rfl⟩
  · refine ⟨fun _ _ => rfl, ?_, ?_⟩ <;> simp only [Stage.opens, Stage.settles] <;> omega
  · have hlow : rank < rank + 1 := Nat.lt_succ_self rank
    obtain ⟨htakes, hopens, hsettles⟩ := @acceptFrom_counts ranks rank 0 (rank + 1) (by omega) hlow hrank
    refine ⟨fun c hc => ?_, by omega, by omega⟩
    rw [htakes c hc, Stage.takes]
    grind

@[grind =] theorem link_inj (a b c a' b' c' : Nat) : link a b c = link a' b' c' ↔ a = a' ∧ 2 * b + c = 2 * b' + c' := by
  simp [link]

/-- A call of the rank, and what is known where it makes it. -/
inductive Move (ranks : Nat) (m : Manifest) (rank : Nat) (s : State) : State → Prop
  | start (hstage : s.stage rank = .idle) (hopens : (connectFrom ranks rank 0 0).opens rank = 2 * 0 + 0)
      (hsettles : (connectFrom ranks rank 0 0).settles rank = 2 * 0 + 0)
      (hbetween : (connectFrom ranks rank 0 0).Between) : Move ranks m rank s (s.goto rank (connectFrom ranks rank 0 0))
  | connect (q c : Nat) (hstage : s.stage rank = .connecting q c)
      (hlistens : s.stage q ≠ .idle) (hfresh : s.peer (q, rank, c) = none)
      (hconn : ∀ x, (s.connect rank q c).conn x = if x = link rank q c then ⟨q, c, none, none⟩ else s.conn x)
      (hqueue : ∀ x, (s.connect rank q c).queue x =
        if x = (q, c) then s.queue (q, c) ++ [link rank q c] else s.queue x) :
      Move ranks m rank s ((s.connect rank q c).goto rank (.greeting q c (link rank q c)))
  | greet (q c : Nat) (hstage : s.stage rank = .greeting q c (link rank q c)) :
      Move ranks m rank s ((s.sendHello (link rank q c) (helloFill m rank c)).goto rank (.awaiting q c (link rank q c)))
  | receive (q c : Nat) (hstage : s.stage rank = .awaiting q c (link rank q c))
      (hopens : (connectFrom ranks rank q (c + 1)).opens rank = 2 * q + (c + 1))
      (hsettles : (connectFrom ranks rank q (c + 1)).settles rank = 2 * q + (c + 1))
      (hbetween : (connectFrom ranks rank q (c + 1)).Between) :
      Move ranks m rank s ((s.record rank q c (link rank q c)).goto rank (connectFrom ranks rank q (c + 1)))
  | accept (c accepted x : Nat) (rest : List Fd) (hstage : s.stage rank = .accepting c accepted)
      (hqueue : s.queue (rank, c) = link x rank c :: rest)
      (hnodup : link x rank c ∉ rest ∧ rest.Nodup)
      (hpending : rank < x ∧ x < ranks ∧ 2 * rank + c < s.opened x ∧ s.peer (rank, x, c) = none) :
      Move ranks m rank s ((s.accept rank c rest).goto rank (.reading c accepted (link x rank c)))
  | take (c accepted x : Nat) (hstage : s.stage rank = .reading c accepted (link x rank c))
      (hout : link x rank c ∉ s.queue (rank, c))
      (hpending : rank < x ∧ x < ranks ∧ 2 * rank + c < s.opened x ∧ s.peer (rank, x, c) = none)
      (hopens : (acceptFrom ranks rank c (accepted + 1)).opens rank = 2 * rank)
      (hsettles : (acceptFrom ranks rank c (accepted + 1)).settles rank = 2 * rank)
      (hbetween : (acceptFrom ranks rank c (accepted + 1)).Between) :
      Move ranks m rank s (((s.sendReply (link x rank c) (helloFill m rank c)).record rank x c (link x rank c)).goto rank
        (acceptFrom ranks rank c (accepted + 1)))

section

variable (h : Inv ranks m s)
include h

theorem Inv.move (hrank : rank < ranks) (hmove : Move ranks m rank s t)
    (hcounted : ∀ p < ranks, ∀ cls < 2, ((Finset.Ioo p ranks).filter fun h => (t.peer (p, h, cls)).isSome).card =
      (t.stage p).takes ranks p cls) : Inv ranks m t := by
  have hshape := h.shaped rank hrank
  have hopened := h.opened rank hrank
  constructor
  case shaped =>
    intro r hr
    have hold := h.shaped r hr
    cases hmove <;> grind [Stage.Shaped, Stage.opens, shaped_connectFrom, shaped_acceptFrom]
  case counted => exact hcounted
  case alive =>
    intro r hr
    have hold := h.alive r hr
    cases hmove <;> grind [Stage.Shaped, Stage.opens]
  case calling =>
    intro r hr p cls fd hcall
    have hold := h.calling r hr p cls fd
    cases hmove <;> grind [Stage.Shaped, Stage.opens]
  case opened =>
    intro r hr
    have hold := h.opened r hr
    cases hmove <;> grind [Stage.Shaped, Stage.opens]
  case made =>
    intro x hx p cls hcls hlt
    have hold := h.made x hx p cls hcls
    cases hmove <;> grind [Stage.Shaped, Stage.opens]
  case hello =>
    intro x hx p cls hcls hlt hpast
    have hold := h.hello x hx p cls hcls
    cases hmove <;> grind [Stage.Shaped, Stage.opens]
  case silent =>
    intro x hx p cls hgreeting
    have hold := h.silent x hx p cls
    cases hmove <;> grind [Stage.Shaped, Stage.opens]
  case settled =>
    intro x hx p cls hcls hlt
    have hold := h.settled x hx p cls hcls
    cases hmove <;> grind [Stage.Shaped, Stage.opens, Stage.settles]
  case recorded =>
    intro p x cls fd hp hx hcls hpeer
    have hold := h.recorded p x cls fd hp hx hcls
    cases hmove <;> grind [Stage.Shaped, Stage.opens]
  case pending =>
    intro p cls x hcls hnew
    have hold := h.pending p cls x hcls
    rw [pending_iff] at hold hnew
    cases hmove <;> grind [Stage.Shaped, Stage.opens]
  case queued =>
    intro p hp cls hcls
    have hold := h.queued p hp cls hcls
    simp only [pending_iff] at hold ⊢
    cases hmove <;> grind [Stage.Shaped, Stage.opens]
  case reading =>
    intro p hp cls accepted fd hread
    have hold := h.reading p hp cls accepted fd
    simp only [pending_iff] at hold ⊢
    cases hmove <;> grind [Stage.Shaped, Stage.opens]

theorem Inv.start (hrank : rank < ranks) (hstage : s.stage rank = .idle) :
    Inv ranks m (s.goto rank (connectFrom ranks rank 0 0)) := by
  obtain ⟨htakes, hopens, hsettles⟩ := @connectFrom_counts ranks rank hrank 0 0 (by omega) (by omega)
  have hbetween := @between_connectFrom ranks rank 0 0
  refine h.move hrank (.start hstage hopens hsettles hbetween) ?_
  intro p hp cls hcls
  have hold := h.counted p hp cls hcls
  grind [Stage.takes]

theorem Inv.connect {q c : Nat} (hrank : rank < ranks) (hstage : s.stage rank = .connecting q c)
    (hlistens : (s.stage q).Listens) :
    Inv ranks m ((s.connect rank q c).goto rank (.greeting q c ⟨rank, s.opened rank⟩)) := by
  have hshape := h.shaped rank hrank
  have hopened := h.opened rank hrank
  rw [hstage] at hshape hopened
  simp only [Stage.Shaped, Stage.opens] at hshape hopened
  have hlistens' : s.stage q ≠ .idle := by
    intro hidle
    rw [hidle] at hlistens
    exact hlistens
  have hconn := connect_conn s rank q c
  have hqueue := connect_queue s rank q c
  have hfresh : s.peer (q, rank, c) = none := by
    cases hpeer : s.peer (q, rank, c) with
    | none => rfl
    | some fd =>
      obtain ⟨-, hlt, -⟩ := h.recorded q rank c fd hshape.1 hrank hshape.2 hpeer
      omega
  have hfd : (⟨rank, s.opened rank⟩ : Fd) = link rank q c := by rw [hopened]; rfl
  rw [hfd] at hconn hqueue ⊢
  refine h.move hrank (.connect q c hstage hlistens' hfresh hconn hqueue) ?_
  intro p hp cls hcls
  have hold := h.counted p hp cls hcls
  grind [Stage.takes]

theorem Inv.greet {q c : Nat} {fd : Fd} (hrank : rank < ranks) (hstage : s.stage rank = .greeting q c fd) :
    Inv ranks m ((s.sendHello fd (helloFill m rank c)).goto rank (.awaiting q c fd)) := by
  obtain rfl := h.calling rank hrank q c fd (.inl hstage)
  refine h.move hrank (.greet q c hstage) ?_
  intro p hp cls hcls
  have hold := h.counted p hp cls hcls
  grind [Stage.takes]

theorem Inv.receive {q c : Nat} {fd : Fd} (hrank : rank < ranks) (hstage : s.stage rank = .awaiting q c fd) :
    Inv ranks m ((s.record rank q c fd).goto rank (connectFrom ranks rank q (c + 1))) := by
  have hshape := h.shaped rank hrank
  have hopened := h.opened rank hrank
  obtain rfl := h.calling rank hrank q c fd (.inr hstage)
  rw [hstage] at hshape hopened
  simp only [Stage.Shaped, Stage.opens] at hshape hopened
  obtain ⟨htakes, hopens, hsettles⟩ := @connectFrom_counts ranks rank hrank q (c + 1) (by omega) (by omega)
  have hbetween := @between_connectFrom ranks rank q (c + 1)
  refine h.move hrank (.receive q c hstage hopens hsettles hbetween) ?_
  intro p hp cls hcls
  have hold := h.counted p hp cls hcls
  -- the rank has recorded a lower one
  have hsame : ((Finset.Ioo p ranks).filter fun x =>
      (((s.record rank q c (link rank q c)).goto rank (connectFrom ranks rank q (c + 1))).peer (p, x, cls)).isSome) =
      (Finset.Ioo p ranks).filter fun x => (s.peer (p, x, cls)).isSome := by
    apply Finset.filter_congr
    intro x hx
    grind
  rw [hsame, hold, goto_stage]
  grind [Stage.takes]

theorem Inv.accept {c accepted : Nat} {fd : Fd} {rest : List Fd} (hrank : rank < ranks)
    (hstage : s.stage rank = .accepting c accepted) (hqueue : s.queue (rank, c) = fd :: rest) :
    Inv ranks m ((s.accept rank c rest).goto rank (.reading c accepted fd)) := by
  have hshape := h.shaped rank hrank
  have hopened := h.opened rank hrank
  rw [hstage] at hshape hopened
  obtain ⟨hnodup, hall⟩ := h.queued rank hrank c hshape.1
  rw [hqueue, List.nodup_cons] at hnodup
  obtain ⟨x, rfl, hpending⟩ := hall fd (by rw [hqueue]; exact List.mem_cons_self)
  rw [pending_iff] at hpending
  refine h.move hrank (.accept c accepted x rest hstage hqueue hnodup hpending) ?_
  intro p hp cls hcls
  have hold := h.counted p hp cls hcls
  grind [Stage.takes]

theorem Inv.take {c accepted x : Nat} {fd : Fd} (hrank : rank < ranks)
    (hstage : s.stage rank = .reading c accepted fd) (hfd : fd = link x rank c) (hpending : Pending ranks s rank c x) :
    Inv ranks m (((s.sendReply fd (helloFill m rank c)).record rank x c fd).goto rank
      (acceptFrom ranks rank c (accepted + 1))) := by
  have hshape := h.shaped rank hrank
  have hopened := h.opened rank hrank
  rw [hstage] at hshape hopened
  simp only [Stage.Shaped, Stage.opens] at hshape hopened
  have hout := (h.reading rank hrank c accepted fd hstage).1
  subst hfd
  rw [pending_iff] at hpending
  obtain ⟨htakes, hopens, hsettles⟩ := @acceptFrom_counts ranks rank c (accepted + 1) hshape.1 (by omega) (by omega)
  have hbetween := @between_acceptFrom ranks rank c (accepted + 1)
  refine h.move hrank (.take c accepted x hstage hout hpending hopens hsettles hbetween) ?_
  intro p hp cls hcls
  have hold := h.counted p hp cls hcls
  by_cases hmine : p = rank ∧ cls = c
  · obtain ⟨rfl, rfl⟩ := hmine
    rw [goto_stage, if_pos rfl, htakes cls hcls, Stage.takes, if_neg (lt_irrefl cls), if_pos rfl]
    rw [hstage, Stage.takes, if_neg (lt_irrefl cls), if_pos rfl] at hold
    have hinsert : ((Finset.Ioo p ranks).filter fun y =>
        ((((s.sendReply (link x p cls) (helloFill m p cls)).record p x cls (link x p cls)).goto p
          (acceptFrom ranks p cls (accepted + 1))).peer (p, y, cls)).isSome) =
        insert x ((Finset.Ioo p ranks).filter fun y => (s.peer (p, y, cls)).isSome) := by
      ext y
      grind
    rw [hinsert, Finset.card_insert_of_notMem (by simp [hpending.2.2.2]), hold]
    omega
  · have hsame : ((Finset.Ioo p ranks).filter fun y =>
        ((((s.sendReply (link x rank c) (helloFill m rank c)).record rank x c (link x rank c)).goto rank
          (acceptFrom ranks rank c (accepted + 1))).peer (p, y, cls)).isSome) =
        (Finset.Ioo p ranks).filter fun y => (s.peer (p, y, cls)).isSome := by
      apply Finset.filter_congr
      intro y _
      grind
    rw [hsame, hold, goto_stage]
    grind [Stage.takes]

end

end FlashGordon.Fabric
