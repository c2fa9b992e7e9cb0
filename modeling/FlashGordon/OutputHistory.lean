import FlashGordon.OutputSplit

/-! The penalty counts of the output rank (`output.c`). It keeps one table of counts per owner session and
selects the active one from the slot that a message carries, so that the messages of interleaved sessions each
find their own table. -/

namespace FlashGordon.OutputHistory

open OutputSplit (vocabSize)

/-- `FG_DECODE_BATCH_MAX_SLOTS`. -/
def maxSlots : Nat := 2

/-- `UINT32_MAX`, where a count stays. -/
def countMax : Nat := 0xffffffff

/-- The tables of `fg_output_executor`, by slot and token, and the active slot. -/
structure OutputRank where
  sessionSlot : Nat
  counts : Nat → Nat → Nat

def OutputRank.initial : OutputRank := ⟨0, fun _ _ => 0⟩

/-- `if(counts[token]!=UINT32_MAX)counts[token]++`. -/
def bump (table : Nat → Nat) (token : Nat) : Nat → Nat :=
  if table token ≠ countMax then Function.update table token (table token + 1) else table

/-- The loop of `fg_output_history_reset`, at token `index` of the history. -/
def countTokens (table : Nat → Nat) (index : Nat) : List Nat → (Nat → Nat) × Except Error Unit
  | [] => (table, .ok ())
  | token :: rest =>
    if vocabSize ≤ token then (table, .error ⟨.format, s!"history token {index} is outside vocabulary"⟩)
    else countTokens (bump table token) (index + 1) rest

namespace OutputRank

variable (output : OutputRank)

/-- `fg_output_set_session`. -/
def setSession (slot : Nat) : OutputRank :=
  if slot < maxSlots then { output with sessionSlot := slot } else output

/-- The table that `output_history_counts` points to. -/
def active : Nat → Nat := output.counts output.sessionSlot

def setActive (table : Nat → Nat) : OutputRank :=
  { output with counts := Function.update output.counts output.sessionSlot table }

/-- `fg_output_history_reset`. -/
def historyReset (history : List Nat) : OutputRank × Except Error Unit :=
  if maxContext < history.length then (output, .error ⟨.argument, "invalid output history"⟩)
  else
    let (table, status) := countTokens (fun _ => 0) 0 history
    (output.setActive table, status)

/-- `fg_output_history_increment`. -/
def historyIncrement (token : Nat) : OutputRank × Except Error Unit :=
  if vocabSize ≤ token then (output, .error ⟨.argument, "invalid output history token"⟩)
  else (output.setActive (bump output.active token), .ok ())

/-- `handle_session_begin` at the output rank. -/
def beginSession (slot : Nat) : OutputRank := ((output.setSession slot).historyReset []).1

def handleOutputHistory (slot : Nat) (history : List Nat) : OutputRank × Except Error Unit :=
  (output.setSession slot).historyReset history

def countsFor (slot : Nat) : Nat → Nat := (output.setSession slot).active

/-- `handle_output_work` with `fg_output_sample`: the token that the sampler selects is counted when the
penalties are active. -/
def handleOutputWork (slot : Nat) (penalties : Bool) (token : Nat) : OutputRank × Except Error Unit :=
  let output := output.setSession slot
  if penalties then output.historyIncrement token else (output, .ok ())

end OutputRank

theorem bump_apply {table : Nat → Nat} {token : Nat} (h : table token < countMax) (other : Nat) :
    bump table token other = table other + if other = token then 1 else 0 := by
  rw [bump, if_pos (Nat.ne_of_lt h), Function.update_apply]
  split
  next heq =>
    rw [heq]
  · rfl

theorem countTokens_ok {table : Nat → Nat} {index : Nat} {history : List Nat}
    (hroom : ∀ token, table token + history.length ≤ countMax)
    (hok : (countTokens table index history).2 = .ok ()) (token : Nat) :
    (countTokens table index history).1 token = table token + history.count token := by
  induction history generalizing table index with
  | nil => simp [countTokens]
  | cons first rest ih =>
    have hfirst : table first < countMax := by
      have hlen := hroom first
      rw [List.length_cons] at hlen
      omega
    rw [countTokens] at hok ⊢
    split at hok
    · cases hok
    next hvocab =>
      rw [if_neg hvocab]
      have hnext : ∀ other, bump table first other + rest.length ≤ countMax := by
        intro other
        have hlen := hroom other
        rw [bump_apply hfirst]
        rw [List.length_cons] at hlen
        split <;> omega
      rw [ih hnext hok, bump_apply hfirst, List.count_cons]
      by_cases heq : token = first
      · subst heq
        simp
        omega
      · have hne : (first == token) = false := by simpa using Ne.symm heq
        simp [heq, hne]

section Slots

variable {output : OutputRank} {slot : Nat}

theorem countsFor_of_lt (hslot : slot < maxSlots) : output.countsFor slot = output.counts slot := by
  simp [OutputRank.countsFor, OutputRank.setSession, OutputRank.active, hslot]

theorem historyReset_counts_of_ne {history : List Nat} {other : Nat} (hne : other ≠ output.sessionSlot) :
    (output.historyReset history).1.counts other = output.counts other := by
  unfold OutputRank.historyReset
  split
  · rfl
  · exact Function.update_of_ne hne _ _

section

variable (hslot : slot < maxSlots)
include hslot

theorem handleOutputHistory_ok {history : List Nat} (hok : (output.handleOutputHistory slot history).2 = .ok ()) (token : Nat) :
    (output.handleOutputHistory slot history).1.counts slot token = history.count token := by
  simp only [OutputRank.handleOutputHistory, OutputRank.historyReset, OutputRank.setSession, hslot, if_true] at hok ⊢
  split at hok
  · cases hok
  next hlong =>
    rw [if_neg hlong]
    simp only [OutputRank.setActive, Function.update_self]
    have hroom : ∀ t : Nat, (fun _ => 0 : Nat → Nat) t + history.length ≤ countMax := by
      intro t
      have hmax : maxContext ≤ countMax := by decide
      show 0 + history.length ≤ countMax
      omega
    rw [countTokens_ok hroom hok]
    exact Nat.zero_add _

theorem handleOutputHistory_counts_of_ne {history : List Nat} {other : Nat} (hne : other ≠ slot) :
    (output.handleOutputHistory slot history).1.counts other = output.counts other := by
  rw [OutputRank.handleOutputHistory, historyReset_counts_of_ne]
  · rw [OutputRank.setSession, if_pos hslot]
  · simpa [OutputRank.setSession, hslot] using hne

theorem beginSession_counts_of_ne {other : Nat} (hne : other ≠ slot) :
    (output.beginSession slot).counts other = output.counts other :=
  handleOutputHistory_counts_of_ne hslot hne

theorem handleOutputWork_counts_of_ne {penalties : Bool} {token other : Nat} (hne : other ≠ slot) :
    (output.handleOutputWork slot penalties token).1.counts other = output.counts other := by
  simp only [OutputRank.handleOutputWork, OutputRank.setSession, hslot, if_true, OutputRank.historyIncrement]
  split
  · split
    · rfl
    · exact Function.update_of_ne hne _ _
  · rfl

theorem handleOutputWork_counts {token : Nat} (hok : (output.handleOutputWork slot true token).2 = .ok ()) (hroom : output.counts slot token < countMax)
    (other : Nat) :
    (output.handleOutputWork slot true token).1.counts slot other =
      output.counts slot other + if other = token then 1 else 0 := by
  simp only [OutputRank.handleOutputWork, OutputRank.setSession, hslot, if_true, OutputRank.historyIncrement] at hok ⊢
  split at hok
  · cases hok
  next hvocab =>
    rw [if_neg hvocab]
    simp only [OutputRank.setActive, Function.update_self]
    exact bump_apply hroom other

end

end Slots

end FlashGordon.OutputHistory
