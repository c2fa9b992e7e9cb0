import FlashGordon.DecodeBatchBuild

/-! The policy of `fg_decode_batch_schedule`: which ready sequences a step takes, and how many of them the byte model
of `decode_batch.c` allows. The byte model is compared with its exact value, and the batch that it allows with that of
a table whose sequences have grown. -/

namespace FlashGordon.DecodeBatch

open List

def scanLayers : Option Policy → Nat
  | some p => if p.qsaLayerCount ≠ 0 then p.qsaLayerCount.toNat else 12
  | none => 12

/-- The budget of `fg_decode_batch_choose_batch`. -/
def scanBudget : Option Policy → UInt64
  | some p => if p.qsaScanBudgetBytes ≠ 0 then p.qsaScanBudgetBytes else qsaScanBudgetDefault
  | none => qsaScanBudgetDefault

def selectBlocks (context : Nat) : Nat := min (context / 4) 512

def layerBytes (context : Nat) : Nat :=
  context * 148 + selectBlocks context * 4944 * 2 + min (selectBlocks context * 4) context * 1088 + 5080

/-- The products of `fg_decode_batch_qsa_bytes_per_token` and of `fg_decode_batch_choose_batch`. -/
def products (policy : Option Policy) (context : Nat) : List Nat :=
  [context * 148, selectBlocks context * 4944 * 2, selectBlocks context * 4,
    min (selectBlocks context * 4) context * 1088, layerBytes context * scanLayers policy] ++
  (List.range (batchMax + 1)).map fun batch => batch * (layerBytes context * scanLayers policy)

theorem selectBlocks_mono : Monotone selectBlocks :=
  fun _ _ h => min_le_min_right 512 (Nat.div_le_div_right h)

theorem layerBytes_mono : Monotone layerBytes := by
  intro context grown h
  have hblocks := selectBlocks_mono h
  unfold layerBytes
  omega

theorem layerBytes_le (context : Nat) : layerBytes context ≤ context * 148 + 7295960 := by
  unfold layerBytes selectBlocks
  omega

theorem scanLayers_lt (policy : Option Policy) : scanLayers policy < 2 ^ 32 := by
  unfold scanLayers
  split
  · split
    · exact UInt32.toNat_lt _
    · decide
  · decide

theorem toNat_min (x y : UInt64) : (min x y).toNat = min x.toNat y.toNat := by
  change (if x ≤ y then x else y).toNat = _
  split
  next h => exact (min_eq_left (UInt64.le_iff_toNat_le.mp h)).symm
  next h => exact (min_eq_right (Nat.le_of_not_le fun hle => h (UInt64.le_iff_toNat_le.mpr hle))).symm

theorem qsaBytesPerToken_toNat (policy : Option Policy) (context : UInt32) :
    (qsaBytesPerToken policy context).toNat = layerBytes context.toNat * scanLayers policy % 2 ^ 64 := by
  have hcontext := context.toNat_lt
  have hblocks : (min (context.toUInt64 / 4) 512).toNat = selectBlocks context.toNat := by
    rw [toNat_min, UInt64.toNat_div, UInt32.toNat_toUInt64]
    rfl
  have hbound : selectBlocks context.toNat ≤ 512 := min_le_right _ _
  have hfour : (min (context.toUInt64 / 4) 512 * 4).toNat = selectBlocks context.toNat * 4 := by
    rw [UInt64.toNat_mul, hblocks]
    exact Nat.mod_eq_of_lt (show selectBlocks context.toNat * 4 < 2 ^ 64 by omega)
  have htokens : (min (min (context.toUInt64 / 4) 512 * 4) context.toUInt64).toNat =
      min (selectBlocks context.toNat * 4) context.toNat := by
    rw [toNat_min, hfour, UInt32.toNat_toUInt64]
  have hlayer := layerBytes_le context.toNat
  have hone : (context.toUInt64 * 148 + min (context.toUInt64 / 4) 512 * 4944 * 2 +
      min (min (context.toUInt64 / 4) 512 * 4) context.toUInt64 * 1088 + 5080).toNat =
      layerBytes context.toNat := by
    unfold layerBytes at hlayer ⊢
    simp only [UInt64.toNat_add, UInt64.toNat_mul, hblocks, htokens, UInt32.toNat_toUInt64, UInt64.reduceToNat]
    omega
  cases policy with
  | none =>
    simp only [qsaBytesPerToken, UInt64.toNat_mul, hone]
    rfl
  | some p =>
    simp only [qsaBytesPerToken, UInt64.toNat_mul, hone, scanLayers]
    split
    · rw [UInt32.toNat_toUInt64]
    · rfl

theorem products_lt (policy : Option Policy) {context : Nat} (h : context ≤ maxContext) :
    ∀ product ∈ products policy context, product < 2 ^ 64 := by
  have hlayer : layerBytes context ≤ 2 ^ 28 := by
    have hle := layerBytes_le context
    unfold maxContext at h
    omega
  have htotal : layerBytes context * scanLayers policy ≤ 2 ^ 28 * 2 ^ 32 :=
    Nat.mul_le_mul hlayer (scanLayers_lt policy).le
  have hunfold : layerBytes context = context * 148 + selectBlocks context * 4944 * 2 +
    min (selectBlocks context * 4) context * 1088 + 5080 := rfl
  intro product hproduct
  rcases mem_append.mp hproduct with hpart | hbatch
  · simp only [mem_cons, not_mem_nil, or_false] at hpart
    omega
  · obtain ⟨batch, hmem, rfl⟩ := mem_map.mp hbatch
    have hle : batch ≤ 2 := Nat.lt_succ_iff.mp (mem_range.mp hmem)
    calc batch * (layerBytes context * scanLayers policy) ≤ 2 * (2 ^ 28 * 2 ^ 32) := Nat.mul_le_mul hle htotal
      _ < 2 ^ 64 := by decide

/-! ## The batch that the budget allows -/

def FitsBudget (policy : Option Policy) (context : UInt32) (batch : Nat) : Prop :=
  UInt64.ofNat batch * qsaBytesPerToken policy context ≤ scanBudget policy

/-- The largest batch within the cap that fits the budget, 1 if none does. -/
structure IsLimit (policy : Option Policy) (context depth : UInt32) (limit : Nat) : Prop where
  pos : 1 ≤ limit
  le_cap : limit ≤ batchCap policy depth
  fits : limit = 1 ∨ FitsBudget policy context limit
  greatest : ∀ batch, limit < batch → batch ≤ batchCap policy depth → ¬FitsBudget policy context batch

theorem largestWithin_greatest (budget scan : UInt64) (cap : Nat) :
    (largestWithin budget scan cap = 1 ∨
        UInt64.ofNat (largestWithin budget scan cap) * scan ≤ budget) ∧
      ∀ batch, largestWithin budget scan cap < batch → batch ≤ cap → ¬UInt64.ofNat batch * scan ≤ budget := by
  induction cap using largestWithin.induct budget scan with
  | case1 => exact ⟨.inl rfl, fun batch hlt hle => absurd hle (by simp only [largestWithin] at hlt; omega)⟩
  | case2 => exact ⟨.inl rfl, fun batch hlt hle => absurd hle (by simp only [largestWithin] at hlt; omega)⟩
  | case3 n hfits =>
    rw [largestWithin, if_pos hfits]
    exact ⟨.inr hfits, fun batch hlt hle => absurd hle (by omega)⟩
  | case4 n hexceeds ih =>
    rw [largestWithin, if_neg hexceeds]
    refine ⟨ih.1, fun batch hlt hle => ?_⟩
    rcases Nat.lt_or_eq_of_le hle with hless | rfl
    · exact ih.2 batch hlt (by omega)
    · exact hexceeds

theorem chooseBatch_isLimit (policy : Option Policy) (context depth : UInt32) :
    IsLimit policy context depth (chooseBatch policy context depth) where
  pos := largestWithin_pos _ _ _
  le_cap := largestWithin_le _ _ _ (batchCap_bounds policy depth).1
  fits := (largestWithin_greatest _ _ _).1
  greatest := (largestWithin_greatest _ _ _).2

theorem FitsBudget.mono {policy : Option Policy} {context grown : UInt32} {batch : Nat} (hle : context ≤ grown)
    (hbatch : batch ≤ batchMax) (hproducts : ∀ product ∈ products policy grown.toNat, product < 2 ^ 64)
    (h : FitsBudget policy grown batch) : FitsBudget policy context batch := by
  have hbytes : layerBytes context.toNat * scanLayers policy ≤ layerBytes grown.toNat * scanLayers policy :=
    Nat.mul_le_mul_right _ (layerBytes_mono (UInt32.le_iff_toNat_le.mp hle))
  have htotal : layerBytes grown.toNat * scanLayers policy < 2 ^ 64 :=
    hproducts _ (mem_append_left _ (by simp))
  have hproduct : batch * (layerBytes grown.toNat * scanLayers policy) < 2 ^ 64 :=
    hproducts _ (mem_append_right _
      (mem_map.mpr ⟨batch, mem_range.mpr (Nat.lt_succ_of_le hbatch), rfl⟩))
  have hscaled := Nat.mul_le_mul_left batch hbytes
  have hsmall : batch < 2 ^ 64 := hbatch.trans_lt (by decide)
  unfold FitsBudget at h ⊢
  rw [UInt64.le_iff_toNat_le, UInt64.toNat_mul, qsaBytesPerToken_toNat, UInt64.toNat_ofNat_of_lt' hsmall] at h ⊢
  rw [Nat.mod_eq_of_lt htotal, Nat.mod_eq_of_lt hproduct] at h
  rw [Nat.mod_eq_of_lt (hbytes.trans_lt htotal), Nat.mod_eq_of_lt (hscaled.trans_lt hproduct)]
  exact hscaled.trans h

theorem chooseBatch_antitone {policy : Option Policy} {context grown : UInt32} (depth : UInt32)
    (hle : context ≤ grown) (hproducts : ∀ product ∈ products policy grown.toNat, product < 2 ^ 64) :
    chooseBatch policy grown depth ≤ chooseBatch policy context depth := by
  have hlimit := chooseBatch_isLimit policy context depth
  have hgrown := chooseBatch_isLimit policy grown depth
  by_contra hlt
  rcases hgrown.fits with hone | hfits
  · have hpos := hlimit.pos
    omega
  · exact hlimit.greatest _ (by omega) hgrown.le_cap
      (hfits.mono hle (chooseBatch_le policy grown depth) hproducts)

section Worst

variable {table grown : Table}

theorem max_le_iff32 (x y bound : UInt32) : max x y ≤ bound ↔ x ≤ bound ∧ y ≤ bound := by
  change (if x ≤ y then y else x) ≤ bound ↔ _
  simp only [UInt32.le_iff_toNat_le]
  split <;> omega

theorem foldl_context_le_iff (cells : List Index) (worst bound : UInt32) :
    cells.foldl (fun worst i => max worst (table.sequences i).context) worst ≤ bound ↔
      worst ≤ bound ∧ ∀ i ∈ cells, (table.sequences i).context ≤ bound := by
  induction cells generalizing worst with
  | nil => simp
  | cons cell rest ih => rw [foldl_cons, ih, max_le_iff32, forall_mem_cons, and_assoc]

/-- The same candidates, none of them with a smaller context. -/
structure Table.Grows (table grown : Table) : Prop where
  depth_eq : grown.depth = table.depth
  candidates_eq : grown.candidates = table.candidates
  context_le : ∀ i ∈ table.candidates, (table.sequences i).context ≤ (grown.sequences i).context

theorem Table.Grows.worstContext_le (h : table.Grows grown) : worstContext table ≤ worstContext grown := by
  have hgrown := ((foldl_context_le_iff grown.candidates 0 _).mp (UInt32.le_refl (worstContext grown))).2
  refine (foldl_context_le_iff _ _ _).mpr ⟨UInt32.zero_le, fun i hi => ?_⟩
  exact UInt32.le_trans (h.context_le i hi) (hgrown i (h.candidates_eq ▸ hi))

end Worst

/-! ## The sequences that are taken -/

/-- The oldest candidates in the order of their age, as many as the limit allows. -/
structure Selects (table : Table) (limit : Nat) (slots : List Slot) : Prop where
  length : slots.length = min table.candidates.length limit
  nodup : (slots.map Slot.sequence).Nodup
  candidate : ∀ slot ∈ slots, slot.sequence ∈ table.candidates
  ordered : (slots.map Slot.sequence).Pairwise table.Before
  oldest : ∀ slot ∈ slots, ∀ i ∈ table.candidates, i ∉ slots.map Slot.sequence → table.Before slot.sequence i

/-- The table that `fg_decode_batch_schedule` leaves behind, also where it fails. -/
def scheduleTable (table : Table) (policy : Option Policy) : Table :=
  if table.depth = 0 then table
  else
    let candidates := table.candidates.length
    if candidates = 0 then table
    else
      let limit := min (chooseBatch policy (worstContext table) table.depth) candidates
      let assembled := assemble limit table
      if assembled.2 = [] then assembled.1 else { assembled.1 with restored := false }

section Selected

variable {table : Table} {b : Index}

theorem candidates_claimed (table : Table) (b : Index) :
    (table.modify b Sequence.claimed).candidates = table.candidates.erase b := by
  have hnodup : table.candidates.Nodup := ((nodup_finRange 8).filter _).filter _
  rw [hnodup.erase_eq_filter, Table.candidates, Table.candidates, filter_filter]
  refine filter_congr fun i _ => ?_
  by_cases hi : i = b
  · subst hi
    rw [Table.modify_sequences_self, decide_eq_false (Sequence.not_candidate_claimed _)]
    simp
  · rw [Table.modify_sequences_of_ne hi]
    simp [hi]

theorem before_claimed (table : Table) (b i j : Index) :
    (table.modify b Sequence.claimed).Before i j ↔ table.Before i j := by
  have hsince (k : Index) : ((table.modify b Sequence.claimed).sequences k).readySince =
      (table.sequences k).readySince := Table.modify_keeps Sequence.claimed (fun _ => rfl) k
  unfold Table.Before
  rw [hsince, hsince]

theorem candidates_of_pickBest_none (h : pickBest table = none) : table.candidates = [] := by
  unfold pickBest at h
  cases hcandidates : table.candidates with
  | nil => rfl
  | cons cell rest =>
    rw [hcandidates] at h
    obtain ⟨b, hb⟩ := @foldl_older_isSome table rest cell
    exact absurd (hb.symm.trans h) (Option.some_ne_none b)

theorem Selects.cons {limit : Nat} {slots : List Slot} (hpick : pickBest table = some b)
    (h : Selects (table.modify b Sequence.claimed) limit slots) :
    Selects table (limit + 1) (slotOf table b :: slots) := by
  have holdest := pickBest_oldest hpick
  have hmem : b ∈ table.candidates := pickBest_mem hpick
  have hnodup : table.candidates.Nodup := ((nodup_finRange 8).filter _).filter _
  have hcandidates := candidates_claimed table b
  have hlater : ∀ slot ∈ slots, slot.sequence ∈ table.candidates ∧ slot.sequence ≠ b := by
    intro slot hslot
    have hin := h.candidate slot hslot
    rw [hcandidates, hnodup.mem_erase_iff] at hin
    exact ⟨hin.2, hin.1⟩
  have hbefore : ∀ i ∈ table.candidates, table.Before b i := fun i hi =>
    have hi := Table.mem_candidates.mp hi
    holdest.first i hi.1 hi.2
  refine ⟨?_, ?_, ?_, ?_, ?_⟩
  · have hpos : 0 < table.candidates.length := length_pos_of_mem hmem
    rw [length_cons, h.length, hcandidates, length_erase_of_mem hmem]
    omega
  · refine nodup_cons.mpr ⟨fun hin => ?_, h.nodup⟩
    obtain ⟨slot, hslot, heq⟩ := mem_map.mp hin
    exact (hlater slot hslot).2 heq
  · exact forall_mem_cons.mpr ⟨hmem, fun slot hslot => (hlater slot hslot).1⟩
  · refine pairwise_cons.mpr ⟨fun i hi => ?_, h.ordered.imp (before_claimed table b _ _).mp⟩
    obtain ⟨slot, hslot, rfl⟩ := mem_map.mp hi
    exact hbefore _ (hlater slot hslot).1
  · intro slot hslot i hi hout
    rw [map_cons, mem_cons, not_or] at hout
    rcases mem_cons.mp hslot with rfl | hslot
    · exact hbefore i hi
    · refine (before_claimed table b _ _).mp (h.oldest slot hslot i ?_ hout.2)
      rw [hcandidates]
      exact (mem_erase_of_ne hout.1).mpr hi

theorem assemble_selects (limit : Nat) (table : Table) : Selects table limit (assemble limit table).2 := by
  induction limit generalizing table with
  | zero => constructor <;> simp [assemble]
  | succ limit ih =>
    unfold assemble
    split
    next hpick => constructor <;> simp [candidates_of_pickBest_none hpick]
    next b hpick => exact .cons hpick (ih _)

end Selected

/-- The oldest candidates are taken, as many as fit the budget in the arithmetic of the code. Without a wrap that
number does not grow with a context, and up to the native context nothing wraps. A call that fails leaves the
sequences as they are. -/
theorem schedule_policy (table : Table) (policy : Option Policy) :
    (∀ after slots, schedule table policy = .ok (after, slots) →
      ∃ limit, IsLimit policy (worstContext table) table.depth limit ∧ Selects table limit slots) ∧
    (∀ err, schedule table policy = .error err → (scheduleTable table policy).sequences = table.sequences) ∧
    (∀ grown : Table, table.Grows grown →
      (∀ product ∈ products policy (worstContext grown).toNat, product < 2 ^ 64) →
      chooseBatch policy (worstContext grown) grown.depth ≤
        chooseBatch policy (worstContext table) table.depth) ∧
    ∀ context ≤ maxContext, ∀ product ∈ products policy context, product < 2 ^ 64 := by
  refine ⟨fun after slots h => ?_, fun err h => ?_, fun grown hgrows hproducts => ?_, fun context hcontext => ?_⟩
  · refine ⟨_, chooseBatch_isLimit policy _ _, ?_⟩
    unfold schedule at h
    dsimp only at h
    split_ifs at h with hdepth hnone hempty
    cases h
    have hselects := assemble_selects
      (min (chooseBatch policy (worstContext table) table.depth) table.candidates.length) table
    refine { hselects with length := hselects.length.trans ?_ }
    omega
  · unfold schedule at h
    unfold scheduleTable
    dsimp only at h ⊢
    split_ifs at h ⊢ with hdepth hnone hempty
    · rfl
    · rfl
    · -- an empty batch was assembled without a round of the loop
      have hassembled := assemble_assembled
        (min (chooseBatch policy (worstContext table) table.depth) table.candidates.length) table
      funext i
      exact hassembled.other i fun slot hslot => absurd hslot (by rw [hempty]; exact not_mem_nil)
  · rw [hgrows.depth_eq]
    exact chooseBatch_antitone _ hgrows.worstContext_le hproducts
  · exact products_lt policy hcontext

/-- A policy whose layer count makes the bytes of two long contexts wrap to nothing. -/
def wrappingPolicy : Policy where
  maxBatch := 2
  qsaScanBudgetBytes := 0
  qsaLayerCount := 2147483648

def readyTable (context : UInt32) : Table where
  sequences := fun _ => { contextTokens := context, ready := true }
  count := 1
  depth := 2

/-- With such a policy the limit of a sequence grows with its context. -/
theorem schedule_limit_grows : ∃ table grown : Table, table.Grows grown ∧
    chooseBatch (some wrappingPolicy) (worstContext table) table.depth <
      chooseBatch (some wrappingPolicy) (worstContext grown) grown.depth :=
  ⟨readyTable 0, readyTable 783492034, ⟨rfl, rfl, by decide +kernel⟩, by decide +kernel⟩

end FlashGordon.DecodeBatch
