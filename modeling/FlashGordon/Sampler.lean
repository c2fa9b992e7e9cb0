import Mathlib.Data.List.Sort
import FlashGordon.OutputMerge
import FlashGordon.WireOutput

/-! The sampler (`sampler.c`): the order of the candidates, and the choice among the first of them. The arithmetic of
`double` and `exp` are parameters, taken as any fixed functions. The order of the output winners (`output.c`) agrees
with the one of the candidates. -/

namespace FlashGordon.Sampler

open OutputSplit Wire List

/-- What is done with values of `double`. -/
structure Doubles (D : Type) where
  ofFloat : Binary32 → D
  zero : D
  add : D → D → D
  sub : D → D → D
  mul : D → D → D
  div : D → D → D
  exp : D → D
  lt : D → D → Bool
  le : D → D → Bool
  isFinite : D → Bool

def precedes (a b : Finalist) : Bool :=
  if a.value.order ≠ b.value.order then b.value.order < a.value.order else a.id < b.id

/-- A candidate moves to its place from the end of `order`, which is kept last first. -/
def place (order : List Finalist) (candidate : Finalist) : List Finalist :=
  if candidate.value.isFinite then order.orderedInsert (fun a b => ¬precedes a b) candidate else order

/-- The loop that fills `order`. -/
def order (candidates : List Finalist) : List Finalist := (candidates.foldl place []).reverse

variable {D : Type} (d : Doubles D)

/-- How many candidates are kept until their shares reach `top_p`. -/
def cutoff (topP sum cumulative : D) : List D → Nat
  | [] => 0
  | weight :: rest =>
    let cumulative := d.add cumulative (d.div weight sum)
    if d.le topP cumulative then 1 else cutoff topP sum cumulative rest + 1

/-- The first place where the weights pass the draw, or the last one. -/
def selected (draw chosen : D) : List D → Nat
  | [] => 0
  | weight :: rest =>
    let chosen := d.add chosen weight
    if d.lt draw chosen ∨ rest = [] then 0 else selected draw chosen rest + 1

def clampUniform (uniform : Binary32) : Binary32 :=
  let uniform := if uniform.isFinite = false ∨ uniform.order < 0 then ⟨0⟩ else uniform
  if one.order ≤ uniform.order then ⟨0x3f7fffff⟩ else uniform

def rawWeights (best : Finalist) (limited : List Finalist) : List D :=
  limited.map fun candidate => d.exp (d.sub (d.ofFloat candidate.value) (d.ofFloat best.value))

def warmWeights (temperature : Binary32) (best : Finalist) (cut : List Finalist) : List D :=
  let cooled := fun value => d.div (d.ofFloat value) (d.ofFloat temperature)
  cut.map fun candidate => d.exp (d.sub (cooled candidate.value) (cooled best.value))

/-- The draw of `fg_sampler_select` from the candidates in order, at a temperature that is not zero. -/
def drawFrom (config : SamplerConfig) (uniform : Binary32) (best : Finalist) (kept : List Finalist) :
    Except Error Finalist :=
  let limited := kept.take config.topK.toNat
  let raw := rawWeights d best limited
  let sum := raw.foldl d.add d.zero
  if d.lt d.zero sum = false ∨ d.isFinite sum = false then .error ⟨.format, "sampler raw softmax failed"⟩
  else
    let cut := limited.take (cutoff d (d.ofFloat config.topP) sum d.zero raw)
    let warm := warmWeights d config.temperature best cut
    let tempSum := warm.foldl d.add d.zero
    if d.lt d.zero tempSum = false ∨ d.isFinite tempSum = false then
      .error ⟨.format, "sampler temperature softmax failed"⟩
    else
      let draw := d.mul (d.ofFloat (clampUniform uniform)) tempSum
      .ok (cut.getD (selected d draw d.zero warm) best)

/-- `fg_sampler_select`: the token and its logit. -/
def samplerSelect (config : SamplerConfig) (candidates : List Finalist) (uniform : Binary32) :
    Except Error Finalist :=
  if config.Invalid then .error ⟨.argument, "invalid sampler controls"⟩
  else if candidates.length = 0 ∨ 64 < candidates.length then .error ⟨.argument, "invalid sampler candidates"⟩
  else match order candidates with
    | [] => .error ⟨.format, "sampler received no finite candidates"⟩
    | best :: rest =>
      if config.temperature.order = 0 then .ok best else drawFrom d config uniform best (best :: rest)

/-! ## The order of the candidates -/

/-- The place of a candidate: by falling score, then by id. -/
def rank (candidate : Finalist) : Int ×ₗ Nat := toLex (-candidate.value.order, candidate.id)

theorem precedes_iff_rank (a b : Finalist) : precedes a b = true ↔ rank a < rank b := by
  unfold precedes rank
  rw [Prod.Lex.toLex_lt_toLex]
  by_cases heq : a.value.order = b.value.order
  · simp [heq]
  · simp [heq]

theorem order_pairwise (candidates : List Finalist) : (order candidates).Pairwise fun a b => rank a ≤ rank b := by
  have hkept (kept : List Finalist) (h : kept.Pairwise fun a b => ¬precedes a b) :
      (candidates.foldl place kept).Pairwise fun a b => ¬precedes a b := by
    have : Std.Total fun a b => ¬precedes a b :=
      ⟨fun a b => by simpa only [precedes_iff_rank, not_lt] using le_total (rank b) (rank a)⟩
    have : IsTrans Finalist fun a b => ¬precedes a b :=
      ⟨fun a b c => by simpa only [precedes_iff_rank, not_lt] using fun hab hbc => le_trans hbc hab⟩
    induction candidates generalizing kept with
    | nil => exact h
    | cons candidate rest ih =>
      refine ih _ ?_
      rw [place]
      split
      · exact h.orderedInsert candidate
      · exact h
  rw [order, pairwise_reverse]
  exact (hkept [] .nil).imp fun h => not_lt.mp fun hlt => h ((precedes_iff_rank _ _).mpr hlt)

theorem order_perm (candidates : List Finalist) :
    (order candidates).Perm (candidates.filter fun candidate => candidate.value.isFinite) := by
  have hkept (kept : List Finalist) :
      (candidates.foldl place kept).Perm (kept ++ candidates.filter fun candidate => candidate.value.isFinite) := by
    induction candidates generalizing kept with
    | nil => rw [foldl_nil, filter_nil, append_nil]
    | cons candidate rest ih =>
      rw [foldl_cons]
      refine (ih _).trans ?_
      rw [place]
      split
      next hfinite =>
        rw [filter_cons_of_pos (by simpa using hfinite)]
        exact ((perm_orderedInsert _ candidate kept).append_right _).trans perm_middle.symm
      next hnot => rw [filter_cons_of_neg (by simpa using hnot)]
  exact (reverse_perm _).trans (hkept [])

theorem order_mem {candidates : List Finalist} {a : Finalist} (ha : a ∈ order candidates) : a ∈ candidates :=
  mem_of_mem_filter ((order_perm candidates).subset ha)

section Distinct

variable {candidates : List Finalist} (hids : (candidates.map Finalist.id).Nodup)
include hids

theorem eq_of_rank {a b : Finalist} (ha : a ∈ candidates) (hb : b ∈ candidates) (h : rank a = rank b) : a = b :=
  inj_on_of_nodup_map hids ha hb (congrArg (fun place => (ofLex place).2) h)

theorem order_strict : (order candidates).Pairwise fun a b => precedes a b := by
  have hnodup : ((order candidates).map Finalist.id).Nodup :=
    ((order_perm candidates).map Finalist.id).nodup_iff.mpr (hids.sublist (filter_sublist.map _))
  refine ((order_pairwise candidates).and (pairwise_map.mp hnodup)).imp fun ⟨hle, hne⟩ => ?_
  exact (precedes_iff_rank _ _).mpr (lt_of_le_of_ne hle fun heq => hne (congrArg (fun place => (ofLex place).2) heq))

theorem order_eq_of_perm {permuted : List Finalist} (h : permuted.Perm candidates) :
    order permuted = order candidates := by
  have hperm : (order permuted).Perm (order candidates) :=
    (order_perm permuted).trans ((h.filter _).trans (order_perm candidates).symm)
  refine hperm.eq_of_pairwise (fun a b ha hb hab hba => ?_) (order_pairwise permuted) (order_pairwise candidates)
  exact eq_of_rank hids (order_mem (hperm.subset ha)) (order_mem hb) (le_antisymm hab hba)

end Distinct

theorem cutoff_pos (topP sum cumulative : D) {weights : List D} (h : weights ≠ []) :
    0 < cutoff d topP sum cumulative weights := by
  cases weights with
  | nil => exact absurd rfl h
  | cons weight rest =>
    rw [cutoff]
    split
    · exact Nat.one_pos
    · exact Nat.succ_pos _

theorem selected_lt (draw chosen : D) {weights : List D} (h : weights ≠ []) :
    selected d draw chosen weights < weights.length := by
  induction weights generalizing chosen with
  | nil => exact absurd rfl h
  | cons weight rest ih =>
    rw [selected]
    split
    · exact Nat.succ_pos _
    next hgo => exact Nat.succ_lt_succ (ih _ fun hrest => hgo (.inr hrest))

theorem drawFrom_ok {config : SamplerConfig} {uniform : Binary32} {best winner : Finalist} {kept : List Finalist}
    (hkept : kept ≠ []) (htop : 0 < config.topK.toNat) (h : drawFrom d config uniform best kept = .ok winner) :
    ∃ k, k < config.topK.toNat ∧ kept[k]? = some winner := by
  rw [drawFrom] at h
  dsimp only at h
  split at h
  · cases h
  split at h
  · cases h
  have hlimited : kept.take config.topK.toNat ≠ [] := by
    rw [Ne, take_eq_nil_iff, not_or]
    exact ⟨Nat.ne_of_gt htop, hkept⟩
  have hraw : rawWeights d best (kept.take config.topK.toNat) ≠ [] := by
    rwa [rawWeights, Ne, map_eq_nil_iff]
  generalize hcut : (kept.take config.topK.toNat).take _ = cut at h
  have hne : cut ≠ [] := by
    rw [← hcut, Ne, take_eq_nil_iff, not_or]
    exact ⟨Nat.ne_of_gt (cutoff_pos d _ _ _ hraw), hlimited⟩
  have hwarm : warmWeights d config.temperature best cut ≠ [] := by
    rwa [warmWeights, Ne, map_eq_nil_iff]
  generalize hdraw : d.mul _ _ = draw at h
  have hlt := selected_lt d draw d.zero hwarm
  rw [warmWeights, length_map, ← warmWeights] at hlt
  have hprefix : cut <+: kept := by
    rw [← hcut]
    exact take_prefix _ _ |>.trans <| take_prefix _ _
  have hle : cut.length ≤ config.topK.toNat := by
    rw [← hcut, length_take, length_take]
    omega
  refine ⟨_, lt_of_lt_of_le hlt hle, ?_⟩
  rw [List.getElem?_eq_getElem (lt_of_lt_of_le hlt hprefix.length_le), ← hprefix.getElem hlt,
    ← getD_eq_getElem cut best hlt]
  exact congrArg some (Except.ok.inj h)

/-- Candidates with distinct ids give the same status, token and logit in every order. The token is one of the first
finite candidates by falling score and rising id, and the very first at temperature zero. -/
theorem samplerSelect_order (config : SamplerConfig) (uniform : Binary32) {candidates : List Finalist}
    (hids : (candidates.map Finalist.id).Nodup) :
    (∀ permuted, permuted.Perm candidates →
      samplerSelect d config permuted uniform = samplerSelect d config candidates uniform) ∧
    ∃ ranking : List Finalist, ranking.Perm (candidates.filter fun candidate => candidate.value.isFinite) ∧
      ranking.Pairwise (fun a b => rank a < rank b) ∧
      ∀ winner, samplerSelect d config candidates uniform = .ok winner →
        winner.value.isFinite = true ∧ (∃ k < min config.topK.toNat ranking.length, ranking[k]? = some winner) ∧
        (config.temperature.order = 0 → ranking[0]? = some winner) := by
  constructor
  · intro permuted hperm
    rw [samplerSelect, samplerSelect, order_eq_of_perm hids hperm, hperm.length_eq]
  refine ⟨order candidates, order_perm candidates, (order_strict hids).imp (precedes_iff_rank _ _).mp, ?_⟩
  intro winner hselect
  have hplace : (∃ k, k < config.topK.toNat ∧ (order candidates)[k]? = some winner) ∧
      (config.temperature.order = 0 → (order candidates)[0]? = some winner) := by
    rw [samplerSelect] at hselect
    split at hselect
    · cases hselect
    next hvalid =>
    have htop : 0 < config.topK.toNat := by
      refine Nat.pos_of_ne_zero fun hzero => hvalid ?_
      exact .inr (.inr (.inr (.inr (.inr (.inl (UInt32.toNat_inj.mp hzero))))))
    split at hselect
    · cases hselect
    split at hselect
    · cases hselect
    next best rest horder =>
    rw [horder]
    split at hselect
    next hgreedy =>
      cases hselect
      exact ⟨⟨0, htop, rfl⟩, fun _ => rfl⟩
    next hwarm => exact ⟨drawFrom_ok d (cons_ne_nil _ _) htop hselect, fun hgreedy => absurd hgreedy hwarm⟩
  obtain ⟨⟨k, hk, hwinner⟩, hgreedy⟩ := hplace
  have hmem := (order_perm candidates).subset (mem_of_getElem? hwinner)
  exact ⟨(mem_filter.mp hmem).2, ⟨k, lt_min hk (List.getElem?_eq_some_iff.mp hwinner).1, hwinner⟩, hgreedy⟩

/-- Whole numbers in place of `double`, with `exp 0 = 1`. -/
def wholeDoubles : Doubles Int := ⟨fun _ => 0, 0, (· + ·), (· - ·), (· * ·), fun a b => a / b, fun _ => 1,
  fun a b => a < b, fun a b => a ≤ b, fun _ => true⟩

def evenSampler : SamplerConfig := ⟨one, one, 2, ⟨0⟩, ⟨0⟩, one, ⟨0⟩, 0⟩

/-- A tie, a score that is not a number and a lower score. -/
theorem samplerSelect_order_four :
    samplerSelect wholeDoubles evenSampler [⟨⟨0⟩, 9⟩, ⟨one, 7⟩, ⟨⟨0x7fc00000⟩, 1⟩, ⟨one, 3⟩] ⟨0⟩ = .ok ⟨one, 3⟩ :=
  ((@samplerSelect_order Int wholeDoubles evenSampler ⟨0⟩
    [⟨one, 3⟩, ⟨one, 7⟩, ⟨⟨0x7fc00000⟩, 1⟩, ⟨⟨0⟩, 9⟩] (by decide)).1 _ (by decide)).trans (by decide)

/-! ## The winner of the output head -/

/-- Some winners combined one after another, as `worker_output_split_combine` does. -/
def outputFold : List Finalist → Option Finalist
  | [] => none
  | first :: rest => some (rest.foldl (fun combined entry => outputCombine entry combined) first)

theorem key_id {a b : Finalist} (h : a.key = b.key) : a.id = b.id := by
  unfold Finalist.key at h
  split_ifs at h <;> simp_all

theorem best_outputFold {entries : List Finalist} (h : entries ≠ []) :
    ∃ winner, outputFold entries = some winner ∧ Best entries winner := by
  cases entries with
  | nil => exact absurd rfl h
  | cons first rest => exact ⟨_, rfl, best_foldl (best_singleton first) rest⟩

theorem Best.outputFold_eq {entries order : List Finalist} {winner : Finalist} (h : Best entries winner)
    (hids : (entries.map Finalist.id).Nodup) (hperm : order.Perm entries) : outputFold order = some winner := by
  have hne : order ≠ [] := ne_nil_of_mem (hperm.symm.subset h.1)
  obtain ⟨other, hfold, hbest⟩ := best_outputFold hne
  have hother := hperm.subset hbest.1
  have hkey : other.key = winner.key := le_antisymm (hbest.2 winner (hperm.symm.subset h.1)) (h.2 other hother)
  rw [hfold, inj_on_of_nodup_map hids hother h.1 (key_id hkey)]

theorem Best.slices_eq {entries : List Finalist} {winner : Finalist} (h : Best entries winner)
    (hids : (entries.map Finalist.id).Nodup) {slices : List (List Finalist)} (hslices : slices.flatten.Perm entries) :
    outputFold (slices.filterMap outputFold) = some winner := by
  have hwinners : ∀ w ∈ slices.filterMap outputFold, w ∈ entries := by
    intro w hw
    obtain ⟨slice, hslice, hfold⟩ := mem_filterMap.mp hw
    have hne : slice ≠ [] := by
      rintro rfl
      cases hfold
    obtain ⟨other, heq, hbest⟩ := best_outputFold hne
    rw [heq, Option.some.injEq] at hfold
    exact hslices.subset (mem_flatten.mpr ⟨slice, hslice, hfold ▸ hbest.1⟩)
  obtain ⟨slice, hslice, hmem⟩ := mem_flatten.mp (hslices.symm.subset h.1)
  obtain ⟨other, heq, hbest⟩ := best_outputFold (ne_nil_of_mem hmem)
  have hin : other ∈ slices.filterMap outputFold := mem_filterMap.mpr ⟨slice, hslice, heq⟩
  obtain ⟨last, hlast, hfinal⟩ := best_outputFold (ne_nil_of_mem hin)
  have hkey : last.key = winner.key :=
    le_antisymm ((hfinal.2 other hin).trans (hbest.2 winner hmem)) (h.2 last (hwinners last hfinal.1))
  rw [hlast, inj_on_of_nodup_map hids (hwinners last hfinal.1) h.1 (key_id hkey)]

theorem combineRemotes_outputFold {ways : Nat} {own combined : Finalist} {remotes : List (Nat × Finalist)}
    (h : combineRemotes ways remotes own = .ok combined) :
    outputFold (own :: remotes.map Prod.snd) = some combined := by
  rw [outputFold, foldl_map]
  congr 1
  induction remotes generalizing own with
  | nil => exact Except.ok.inj h
  | cons remote rest ih =>
    rw [combineRemotes] at h
    dsimp only at h
    split at h
    · cases h
    split at h
    · exact ih h
    · cases h

theorem Best.select {entries : List Finalist} {winner : Finalist} (h : Best entries winner)
    (hids : (entries.map Finalist.id).Nodup)
    (hfinite : ∀ entry ∈ entries, entry.id ≠ paddingId ∧ entry.value.isFinite = true) (hlength : entries.length ≤ 64)
    {config : SamplerConfig} (hvalid : ¬config.Invalid) (hgreedy : config.temperature.order = 0) (uniform : Binary32) :
    samplerSelect d config entries uniform = .ok winner := by
  have hin : winner ∈ order entries :=
    (order_perm entries).symm.subset (mem_filter.mpr ⟨h.1, (hfinite winner h.1).2⟩)
  have hcount : ¬(entries.length = 0 ∨ 64 < entries.length) := by
    have := length_pos_of_mem h.1
    omega
  rw [samplerSelect, if_neg hvalid, if_neg hcount]
  cases horder : order entries with
  | nil =>
    rw [horder] at hin
    cases hin
  | cons best rest =>
    have hbest : best ∈ entries := order_mem (horder ▸ mem_cons_self)
    have hkey : best.key = winner.key := by
      refine le_antisymm ?_ (h.2 best hbest)
      have hfirst : rank best ≤ rank winner := by
        have hsorted := order_pairwise entries
        rw [horder] at hin hsorted
        rcases mem_cons.mp hin with rfl | hlater
        · exact le_rfl
        · exact (pairwise_cons.mp hsorted).1 winner hlater
      have hmiddle : ∀ entry ∈ entries, entry.key = toLex (1, rank entry) := fun entry hentry => by
        rw [Finalist.key, if_neg (hfinite entry hentry).1, if_neg (by simp [(hfinite entry hentry).2]), rank]
      rw [hmiddle best hbest, hmiddle winner h.1, Prod.Lex.toLex_le_toLex]
      exact .inr ⟨rfl, hfirst⟩
    dsimp only
    rw [if_pos hgreedy, inj_on_of_nodup_map hids hbest h.1 (key_id hkey)]

/-- The comparison is a strict order, total on distinct ids. So the winner of some entries with distinct ids is the same
in every order, combined at once or slice by slice; a non-finite entry that is no padding beats every finite one, and
padding beats nothing. On finite entries it is the candidate that the sampler takes at temperature zero. -/
theorem outputBetter_order :
    (∀ a, outputBetter a a = false) ∧
    (∀ a b c, outputBetter a b = true → outputBetter b c = true → outputBetter a c = true) ∧
    (∀ a b, a.id ≠ b.id → outputBetter a b = true ∨ outputBetter b a = true) ∧
    (∀ a b, a.id = paddingId → outputBetter a b = false) ∧
    ∀ entries : List Finalist, entries ≠ [] → (entries.map Finalist.id).Nodup →
      ∃ winner ∈ entries, (∀ entry ∈ entries, entry ≠ winner → outputBetter winner entry = true) ∧
        (∀ order : List Finalist, order.Perm entries → outputFold order = some winner) ∧
        (∀ slices : List (List Finalist), slices.flatten.Perm entries →
          outputFold (slices.filterMap outputFold) = some winner) ∧
        (∀ ways own remotes combined, (own :: remotes.map Prod.snd).Perm entries →
          combineRemotes ways remotes own = .ok combined → combined = winner) ∧
        ((∃ entry ∈ entries, entry.id ≠ paddingId ∧ entry.value.isFinite = false) →
          winner.id ≠ paddingId ∧ winner.value.isFinite = false) ∧
        ((∃ entry ∈ entries, entry.id ≠ paddingId) → winner.id ≠ paddingId) ∧
        ((∀ entry ∈ entries, entry.id ≠ paddingId ∧ entry.value.isFinite = true) → entries.length ≤ 64 →
          ∀ (D : Type) (d : Doubles D) (config : SamplerConfig) (uniform : Binary32) (order : List Finalist),
            ¬config.Invalid → config.temperature.order = 0 → order.Perm entries →
            samplerSelect d config order uniform = .ok winner) := by
  refine ⟨fun a => ?_, fun a b c hab hbc => ?_, fun a b hne => ?_, fun a b ha => ?_, ?_⟩
  · exact (outputBetter_false_iff a a).mpr le_rfl
  · rw [outputBetter_iff_key] at hab hbc ⊢
    exact hab.trans hbc
  · rw [outputBetter_iff_key, outputBetter_iff_key]
    exact lt_or_gt_of_ne fun heq => hne (key_id heq)
  · simp [outputBetter, ha]
  intro entries hne hids
  obtain ⟨winner, -, hbest⟩ := best_outputFold hne
  refine ⟨winner, hbest.1, fun entry hentry hother => ?_, fun order hperm => Best.outputFold_eq hbest hids hperm,
    fun slices hslices => Best.slices_eq hbest hids hslices, ?_, ?_, ?_, ?_⟩
  · rw [outputBetter_iff_key]
    refine lt_of_le_of_ne (hbest.2 entry hentry) fun heq => hother ?_
    exact inj_on_of_nodup_map hids hentry hbest.1 (key_id heq.symm)
  · intro ways own remotes combined hperm hcombined
    exact Option.some.inj ((combineRemotes_outputFold hcombined).symm.trans (Best.outputFold_eq hbest hids hperm))
  · rintro ⟨entry, hentry, hid, hvalue⟩
    have hle := hbest.2 entry hentry
    unfold Finalist.key at hle
    split_ifs at hle <;> simp_all [Prod.Lex.toLex_le_toLex]
  · rintro ⟨entry, hentry, hid⟩ hpadding
    have hle := hbest.2 entry hentry
    unfold Finalist.key at hle
    split_ifs at hle <;> simp_all [Prod.Lex.toLex_le_toLex]
  · intro hfinite hlength D d config uniform order hvalid hgreedy hperm
    have hall : ∀ entry ∈ order, entry.id ≠ paddingId ∧ entry.value.isFinite = true :=
      fun entry hentry => hfinite entry (hperm.subset hentry)
    have hwinner : Best order winner := ⟨hperm.symm.subset hbest.1, fun entry hentry => hbest.2 entry (hperm.subset hentry)⟩
    exact Best.select d hwinner ((hperm.map _).nodup_iff.mpr hids) hall (hperm.length_eq ▸ hlength) hvalid hgreedy uniform

end FlashGordon.Sampler
