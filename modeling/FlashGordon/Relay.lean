import Mathlib.Data.List.Range

/-! Relays. A packet is handed from party to party; whoever receives it does the next stretch of a job,
sends what leaves the relay and hands the packet on. The trace of a relay lists every packet that was
handed to the carrier, the stretches done and how it ended, with no end when the hops ran out. -/

namespace Relay

variable {P ε : Type*}

/-- What a party answers to a packet: the stages it did, the packets that leave the relay, and the packet it
hands on. -/
structure Hop (P : Type*) where
  executed : List Nat
  outputs : List P
  next : Option P

structure Trace (P ε : Type*) where
  sent : List P
  executed : List Nat
  status : Option (Except ε Unit)

/-- Sending in order, up to the first packet the carrier refuses. -/
def sendAll (send : P → Except ε Unit) : List P → List P × Except ε Unit
  | [] => ([], .ok ())
  | packet :: rest =>
    match send packet with
    | .error err => ([packet], .error err)
    | .ok () => (packet :: (sendAll send rest).1, (sendAll send rest).2)

def run (send : P → Except ε Unit) (receive : P → Except ε (Hop P)) : Nat → P → Trace P ε
  | 0, _ => ⟨[], [], none⟩
  | fuel + 1, packet =>
    match send packet with
    | .error err => ⟨[packet], [], some (.error err)⟩
    | .ok () =>
      match receive packet with
      | .error err => ⟨[packet], [], some (.error err)⟩
      | .ok hop =>
        match sendAll send hop.outputs with
        | (sent, .error err) => ⟨packet :: sent, hop.executed, some (.error err)⟩
        | (sent, .ok ()) =>
          match hop.next with
          | none => ⟨packet :: sent, hop.executed, some (.ok ())⟩
          | some next =>
            let rest := run send receive fuel next
            ⟨packet :: (sent ++ rest.sent), hop.executed ++ rest.executed, rest.status⟩

section Rules

variable {send : P → Except ε Unit} {receive : P → Except ε (Hop P)} {n : Nat} {packet : P} {hop : Hop P}
  {err : ε}

theorem sendAll_ok {packets : List P} (h : ∀ packet ∈ packets, send packet = .ok ()) :
    sendAll send packets = (packets, .ok ()) := by
  induction packets with
  | nil => rfl
  | cons packet rest ih =>
    rw [sendAll, h packet List.mem_cons_self, ih (List.forall_mem_cons.mp h).2]

theorem run_refused (fuel : Nat) (h : send packet = .error err) :
    run send receive (fuel + 1) packet = ⟨[packet], [], some (.error err)⟩ := by
  rw [run, h]

theorem run_rejected (fuel : Nat) (hsend : send packet = .ok ()) (h : receive packet = .error err) :
    run send receive (fuel + 1) packet = ⟨[packet], [], some (.error err)⟩ := by
  rw [run, hsend, h]

theorem run_done (fuel : Nat) (hsend : send packet = .ok ()) (hreceive : receive packet = .ok hop)
    (houtputs : ∀ output ∈ hop.outputs, send output = .ok ()) (hnext : hop.next = none) :
    run send receive (fuel + 1) packet = ⟨packet :: hop.outputs, hop.executed, some (.ok ())⟩ := by
  simp only [run, hsend, hreceive, sendAll_ok houtputs, hnext]

theorem run_next (fuel : Nat) {next : P} (hsend : send packet = .ok ()) (hreceive : receive packet = .ok hop)
    (houtputs : ∀ output ∈ hop.outputs, send output = .ok ()) (hnext : hop.next = some next) :
    run send receive (fuel + 1) packet =
      ⟨packet :: (hop.outputs ++ (run send receive fuel next).sent),
        hop.executed ++ (run send receive fuel next).executed, (run send receive fuel next).status⟩ := by
  simp only [run, hsend, hreceive, sendAll_ok houtputs, hnext]

/-- The relay did the stages in order, nothing was refused, and it came to its end. -/
structure Completes (send : P → Except ε Unit) (stages : List Nat) (trace : Trace P ε) : Prop where
  ended : trace.status = some (.ok ())
  executed : trace.executed = stages
  carried : ∀ packet ∈ trace.sent, send packet = .ok ()

/-- What a party owes the relay for a packet that starts at `stage`: it does the stages up to some `last` and
hands on a packet that starts after it; with no stage left, what it hands on meets `Final`. -/
structure Serves (send : P → Except ε Unit) (receive : P → Except ε (Hop P)) (n : Nat) (At : Nat → P → Prop)
    (Final : Option P → Prop) (stage : Nat) (packet : P) : Prop where
  sends : send packet = .ok ()
  hop : ∃ hop last, receive packet = .ok hop ∧ stage ≤ last ∧ last < n ∧
    hop.executed = List.range' stage (last + 1 - stage) ∧ (∀ output ∈ hop.outputs, send output = .ok ()) ∧
    (last + 1 < n → ∃ next, hop.next = some next ∧ At (last + 1) next) ∧
    (last + 1 = n → Final hop.next)

variable {At : Nat → P → Prop} {Final : Option P → Prop} {stage fuel : Nat}

section

variable (hserves : ∀ stage packet, stage < n → At stage packet → Serves send receive n At Final stage packet)
include hserves

theorem run_completes
    (hfinal : ∀ packet, Final (some packet) → send packet = .ok () ∧ receive packet = .ok ⟨[], [], none⟩)
    (hstage : stage < n) (hfuel : n - stage + 1 ≤ fuel) (hat : At stage packet) :
    Completes send (List.range' stage (n - stage)) (run send receive fuel packet) := by
  induction fuel generalizing stage packet with
  | zero => omega
  | succ fuel ih =>
    obtain ⟨hsend, hop, last, hreceive, hle, hlt, hexecuted, houtputs, hmore, hend⟩ :=
      hserves stage packet hstage hat
    by_cases hdone : last + 1 = n
    · have hall : hop.executed = List.range' stage (n - stage) := by rw [hexecuted, hdone]
      have hfinish := hend hdone
      cases hnext : hop.next with
      | none =>
        rw [run_done fuel hsend hreceive houtputs hnext]
        exact ⟨rfl, hall, List.forall_mem_cons.mpr ⟨hsend, houtputs⟩⟩
      | some next =>
        rw [hnext] at hfinish
        obtain ⟨hsendLast, hreceiveLast⟩ := hfinal next hfinish
        obtain ⟨rest, rfl⟩ : ∃ rest, fuel = rest + 1 := ⟨fuel - 1, by omega⟩
        rw [run_next _ hsend hreceive houtputs hnext,
          run_done rest hsendLast hreceiveLast (fun output hmem => absurd hmem List.not_mem_nil) rfl]
        refine ⟨rfl, by rw [hall, List.append_nil], List.forall_mem_cons.mpr ⟨hsend, ?_⟩⟩
        exact List.forall_mem_append.mpr ⟨houtputs, List.forall_mem_singleton.mpr hsendLast⟩
    · obtain ⟨next, hnext, hatNext⟩ := hmore (by omega)
      obtain ⟨hended, hrest, hcarried⟩ := ih (by omega) (by omega) hatNext
      rw [run_next fuel hsend hreceive houtputs hnext]
      refine ⟨hended, ?_, List.forall_mem_cons.mpr ⟨hsend, List.forall_mem_append.mpr ⟨houtputs, hcarried⟩⟩⟩
      have hsplit : n - stage = (last + 1 - stage) + (n - (last + 1)) := by omega
      have hstart : stage + (last + 1 - stage) = last + 1 := by omega
      rw [hexecuted, hrest, hsplit, ← List.range'_append_1, hstart]

theorem run_stuck
    (hnone : ¬ Final none) (hfinal : ∀ packet, Final (some packet) → ∃ err, send packet = .error err)
    (hstage : stage < n) (hfuel : n - stage + 1 ≤ fuel) (hat : At stage packet) :
    ∃ last err, Final (some last) ∧ last ∈ (run send receive fuel packet).sent ∧
      (run send receive fuel packet).status = some (.error err) := by
  induction fuel generalizing stage packet with
  | zero => omega
  | succ fuel ih =>
    obtain ⟨hsend, hop, last, hreceive, hle, hlt, hexecuted, houtputs, hmore, hend⟩ :=
      hserves stage packet hstage hat
    by_cases hdone : last + 1 = n
    · have hfinish := hend hdone
      cases hnext : hop.next with
      | none =>
        rw [hnext] at hfinish
        exact absurd hfinish hnone
      | some next =>
        rw [hnext] at hfinish
        obtain ⟨err, hrefused⟩ := hfinal next hfinish
        obtain ⟨rest, rfl⟩ : ∃ rest, fuel = rest + 1 := ⟨fuel - 1, by omega⟩
        rw [run_next _ hsend hreceive houtputs hnext, run_refused rest hrefused]
        exact ⟨next, err, hfinish, by simp, rfl⟩
    · obtain ⟨next, hnext, hatNext⟩ := hmore (by omega)
      obtain ⟨final, err, hfinish, hmem, hended⟩ := ih (by omega) (by omega) hatNext
      rw [run_next fuel hsend hreceive houtputs hnext]
      exact ⟨final, err, hfinish, List.mem_cons_of_mem _ (List.mem_append_right _ hmem), hended⟩

end

end Rules

end Relay
