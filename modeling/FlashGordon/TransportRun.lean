import FlashGordon.PrefillDispatch

/-! The exchanges of a runtime, one after another on one transport. Each may meet any frames and any
failures; the discipline of the transport is the same for all three. -/

namespace FlashGordon.Transport

inductive Exchange (Payload Result Row : Type) where
  | experts (decode : Payload → Except Error Result) (context : ExpertContext)
      (partition : Except Error (List SendAttempt)) (compute : Except Error Unit)
      (arrive : Nat → Except Error (Frame Payload))
  | ngram (decode : Payload → Except Error NgramResult) (plan : Except Error NgramPlan)
      (sessionId : UInt64) (tokenIndex : UInt32) (arrive : Nat → Except Error (Frame Payload))
  | prefill (finite : Row → Bool) (decode : Payload → Except Error (Prefill.PrefillResult Row))
      (context : Prefill.DispatchContext) (environment : Prefill.Environment Row Payload) (layer : Nat)
      (firstPosition : UInt32) (routing : Prefill.Routing)

variable {Payload Result Row : Type} [Zero Row] [DecidableEq Row]

/-- What an exchange did: its outcome, whether a send failed, and what its replies have to be. -/
structure Performed (Payload : Type) where
  outcome : Outcome Payload
  sendFailed : Bool
  Answered : List (Frame Payload) → Prop

/-- An exchange on a transport in state `start`. -/
def Exchange.perform (start : State) : Exchange Payload Result Row → Performed Payload
  | .experts decode context partition compute arrive =>
    let fired := (fireExperts { context with transport := start } partition).1
    { outcome := collectExperts decode fired compute arrive
      sendFailed := fired.sendFailed
      Answered := RepliesOf (ExpertConsumed decode fired (localStatus fired compute)) fired.sent }
  | .ngram decode plan sessionId tokenIndex arrive =>
    let (outcome, sending) := residentNgramLookup decode plan sessionId tokenIndex start arrive
    { outcome := outcome
      sendFailed := sending.failed
      Answered := RepliesOf
        (fun frame => ∃ planned, plan = .ok planned ∧
          NgramConsumed decode planned sending.sent sessionId tokenIndex sending.status frame)
        sending.sent }
  | .prefill finite decode context environment layer firstPosition routing =>
    let context := { context with transport := start }
    let dispatched :=
      Prefill.dispatchPrefillExperts finite decode context environment layer firstPosition routing
    { outcome := dispatched.outcome
      sendFailed := dispatched.sendFailed
      Answered := Prefill.StreamOf finite decode context dispatched.broadcast }

def runExchanges : State → List (Exchange Payload Result Row) → State
  | state, [] => state
  | state, exchange :: rest => runExchanges (exchange.perform state).outcome.transport rest

theorem perform_disciplined (exchange : Exchange Payload Result Row) (start : State) :
    Disciplined (exchange.perform start).Answered (exchange.perform start).sendFailed start
      (exchange.perform start).outcome := by
  cases exchange with
  | experts decode context partition compute arrive =>
    exact experts_disciplined decode { context with transport := start } partition compute arrive
  | ngram decode plan sessionId tokenIndex arrive =>
    exact ngram_disciplined decode plan sessionId tokenIndex start arrive
  | prefill finite decode context environment layer firstPosition routing =>
    exact Prefill.prefill_disciplined finite decode { context with transport := start } environment layer
      firstPosition routing

theorem runExchanges_poisoned (exchanges : List (Exchange Payload Result Row)) :
    runExchanges .poisoned exchanges = .poisoned := by
  induction exchanges with
  | nil => rfl
  | cons exchange rest ih =>
    unfold runExchanges
    rw [(perform_disciplined exchange .poisoned).poisoned_stays rfl]
    exact ih

/-- Wherever a run of exchanges has brought the transport, the next exchange keeps the discipline, and
a transport that it leaves poisoned stays so in every continuation. -/
theorem runExchanges_disciplined (before : List (Exchange Payload Result Row))
    (exchange : Exchange Payload Result Row) :
    Disciplined (exchange.perform (runExchanges .ready before)).Answered
        (exchange.perform (runExchanges .ready before)).sendFailed (runExchanges .ready before)
        (exchange.perform (runExchanges .ready before)).outcome ∧
      ∀ later : List (Exchange Payload Result Row),
        (exchange.perform (runExchanges .ready before)).outcome.transport = .poisoned →
        runExchanges .ready (before ++ exchange :: later) = .poisoned := by
  refine ⟨perform_disciplined exchange _, fun later hpoisoned => ?_⟩
  have happend : ∀ (state : State) (first : List (Exchange Payload Result Row)),
      runExchanges state (first ++ exchange :: later) =
        runExchanges (exchange.perform (runExchanges state first)).outcome.transport later := by
    intro state first
    induction first generalizing state with
    | nil => rfl
    | cons other rest ih => exact ih _
  rw [happend, hpoisoned]
  exact runExchanges_poisoned later

end FlashGordon.Transport
