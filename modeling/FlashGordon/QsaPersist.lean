import FlashGordon.QsaCommittedPrefill
import FlashGordon.QsaPersistCalls

/-! Persisting a layer from the frontier of the state file on. Nothing is committed and nothing is evicted
meanwhile, so a page that was in the cache when it began is found there, pinned or not; when the frontier has
reached the last record of the layer, no page of it needs a pin any more. -/

namespace FlashGordon.QsaSession

open QsaCache (Key Represents uint32Max)
open PinnedLru

variable {R : Type} {s : Session R} {capacity : Nat} {map : Map Key capacity} {log : Log R} {state : State R}

theorem Stored.filed {records : List R} {first last : Nat} {pages : Nat → Page R}
    {before after : Nat → Option (StatePage R)} (h : Stored first last pages before after)
    (hfiled : Filed records first before) (hfirst : first ≤ last) (hlast : last ≤ records.length)
    (hpages : ∀ block, first / compressRatio ≤ block → block * compressRatio < last → Holds records block (pages block)) :
    Filed records last after := by
  refine ⟨hlast, fun block hblock => ?_⟩
  by_cases hfrom : first / compressRatio ≤ block
  · refine ⟨_, (h block).trans (if_pos ⟨hfrom, hblock⟩), min_comm _ _, fun k hk => ?_⟩
    exact hpages block hfrom hblock k (hk.trans_le (Nat.min_le_left _ _))
  · have hbelow : block * compressRatio < first := by
      simp only [compressRatio] at hfrom ⊢
      omega
    obtain ⟨page, hpage, hcommitted, hrecords⟩ := hfiled.page block hbelow
    refine ⟨page, (h block).trans ((if_neg fun hinside => hfrom hinside.1).trans hpage), hcommitted.trans ?_, hrecords⟩
    simp only [compressRatio] at hfrom ⊢
    omega

section

variable (h : Kept s map log state)
include h

theorem Kept.block_toNat {index block : Nat} (hindex : index < s.layerCount)
    (hbelow : block * compressRatio < (log index).length) : (UInt32.ofNat block).toNat = block := by
  have hbound := h.bounded index hindex
  have hnarrow := h.narrow
  simp only [indexMaxSegments, indexSegmentTokenCapacity, compressRatio] at hnarrow hbelow
  rw [UInt32.toNat_ofNat']
  apply Nat.mod_eq_of_lt
  omega

theorem Kept.found {index block : Nat} (hindex : index < s.layerCount)
    (hfrom : state.layerTokens index / compressRatio ≤ block)
    (hbelow : block * compressRatio < (log index).length) (hmore : state.layerTokens index < (log index).length) :
    ∃ slot, map.frame? (s.layerAt index, UInt32.ofNat block) = some slot ∧
      Holds (log index) block (s.cacheRecords slot) := by
  have hnat := h.block_toNat hindex hbelow
  have hslot := layerSlot_layerAt h.mirrors.layers hindex
  have hdirty : Dirty s log state (s.layerAt index, UInt32.ofNat block) := by
    refine ⟨index, hslot, max (block * compressRatio) (state.layerTokens index), Nat.le_max_right _ _,
      Nat.max_lt.mpr ⟨hbelow, hmore⟩, ?_⟩
    rw [hnat]
    simp only [compressRatio] at hfrom ⊢
    omega
  obtain ⟨slot, hframe⟩ := Option.isSome_iff_exists.mp (Map.frame?_isSome_of_pinned (h.coherent.pins _ hdirty))
  have hright := h.coherent.frames _ slot hframe index hslot
  rw [hnat] at hright
  exact ⟨slot, hframe, hright⟩

theorem Kept.persistPrefillState {index first count : Nat} (hindex : index < s.layerCount)
    (hlog : (log index).length = first + count) (hpositive : 0 < count)
    (hsmall : count ≤ maxSelectedBlocks * compressRatio) (hfrontier : state.layerTokens index ≤ first) :
    ∃ (after : Session R) (map' : Map Key capacity) (state' : State R),
      s.persistPrefillState index first count = some (.ok (), after) ∧ Kept after map' log state' ∧
      SameSession s after ∧ state'.layerTokens = Function.update state.layerTokens index (first + count) := by
  have hlt : state.layerTokens index < first + count := Nat.lt_of_le_of_lt hfrontier (Nat.lt_add_of_pos_right hpositive)
  have hfound : ∀ block, state.layerTokens index / compressRatio ≤ block → block * compressRatio < first + count →
      ∃ slot, map.frame? (s.layerAt index, UInt32.ofNat block) = some slot ∧
        Holds (log index) block (s.cacheRecords slot) :=
    fun block hfrom hto => h.found hindex hfrom (hlog ▸ hto) (hlog ▸ hlt)
  have hcached : Cached map (s.layerAt index) (state.layerTokens index) (first + count)
      fun block => (map.frame? (s.layerAt index, UInt32.ofNat block)).getD 0 := by
    intro block hfrom hto
    obtain ⟨slot, hframe, -⟩ := hfound block hfrom hto
    simp only [hframe, Option.getD_some]
  have hpages : ∀ block, state.layerTokens index / compressRatio ≤ block → block * compressRatio < first + count →
      Holds (log index) block (s.cacheRecords ((map.frame? (s.layerAt index, UInt32.ofNat block)).getD 0)) := by
    intro block hfrom hto
    obtain ⟨slot, hframe, hholds⟩ := hfound block hfrom hto
    rw [hframe, Option.getD_some]
    exact hholds
  obtain ⟨after, map', hafter, hpersisted⟩ := h.mirrors.persists h.backed hfrontier hpositive hsmall
    (hlog ▸ h.bounded index hindex) hcached
  obtain ⟨stored, hput, htokens, hfile, hothers⟩ := hpersisted.file
  refine ⟨after, map', stored, (persistPrefillState_eq h.backed hfrontier).trans hpersisted.ran, ?_, hafter.same, htokens⟩
  refine ⟨hafter.mirrors, hput, hafter.same.shape.maxContext ▸ h.narrow, ?_, ?_, ?_, ?_⟩
  · rw [hafter.same.shape.layerCount, hafter.same.shape.maxContext]
    exact h.bounded
  · rw [hafter.same.shape.layerCount]
    intro other hother
    rw [htokens]
    by_cases heq : other = index
    · subst heq
      rw [Function.update_self]
      exact hfile.filed (h.filed other hother) hlt.le hlog.ge hpages
    · rw [Function.update_of_ne heq, hothers other heq]
      exact h.filed other hother
  · intro key slot hframe
    rw [hafter.same.shape.right, hafter.records]
    exact h.coherent.frames key slot ((hafter.frames key).symm.trans hframe)
  · -- what is not in the file now is of another layer, whose pins are the same
    rw [hafter.same.shape.dirty]
    rintro key ⟨other, hother, token, hfrom, hbelow, hblock⟩
    rw [htokens] at hfrom
    by_cases heq : other = index
    · subst heq
      rw [Function.update_self] at hfrom
      omega
    · rw [Function.update_of_ne heq] at hfrom
      apply hafter.pins key (h.coherent.pins key ⟨other, hother, token, hfrom, hbelow, hblock⟩)
      intro hlayer
      apply heq
      rw [hlayer, layerSlot_layerAt h.mirrors.layers hindex] at hother
      exact (Option.some.inj hother).symm

theorem Kept.markPositions (token : Nat) (positions : List Position) :
    Rests s map (s.markPositions token positions).2 map log state := by
  induction positions generalizing s token with
  | nil => exact h.rests_self
  | cons position rest ih =>
    rw [Session.markPositions]
    split
    next => exact h.rests_self
    next marked hmark =>
      have hmarked := h.rests (h.mirrors.markPosition hmark)
      exact hmarked.trans (ih hmarked.kept (token + 1))

theorem Kept.attendPrefillTiles {index first : Nat} (hindex : index < s.layerCount)
    (hfirst : (log index).length = first) {records : List R} (hcontext : first + records.length ≤ s.maxContext)
    (hfits : Fits s map index first records.length) {input : Selected R}
    (hinput : Truthful s (log.extend index records) input.fetched) :
    ∃ (gathered : Except Error (List (Gathered R))) (after : Session R) (map' : Map Key capacity),
      s.attendPrefillTiles index first records input = some (gathered, after) ∧
      Kept after map' (log.extend index records) state ∧ SameSession s after ∧
      ∀ list, gathered = .ok list → ∀ one ∈ list, one.Right (log index ++ records) := by
  obtain ⟨committed, map₁, hcommit, hkept, hsame, -⟩ := h.commitPrefillRecords hindex hfirst hcontext hfits
  obtain ⟨gathered, after, map₂, hattend, hafter, hgathered⟩ := hkept.attendTiles
    (hsame.shape.layerCount ▸ hindex) (hsame.truthful hinput)
    (pieces prefillBatchQueries ((List.range records.length).map fun query =>
      (first + 1 + query, Session.prefillSelected (first + 1) records.length input query)))
  rw [Log.extend_self] at hgathered
  refine ⟨gathered, after, map₂, ?_, hafter.kept, hsame.trans hafter.same, hgathered⟩
  rw [Session.attendPrefillTiles, hcommit, Option.bind_eq_bind, Option.bind_some]
  exact hattend

end

/-- What a prefill step leaves: the chunk is committed and written, or nothing is committed. -/
def Prefilled (capacity : Nat) (s : Session R) (log : Log R) (state : State R) (index : Nat) (records : List R)
    (result : Option (Except Error (List (Gathered R)) × Session R)) : Prop :=
  ∃ (answer : Except Error (List (Gathered R))) (after : Session R) (map' : Map Key capacity) (added : List R)
    (state' : State R),
    result = some (answer, after) ∧ (added = [] ∧ state' = state ∨ added = records ∧
      state'.layerTokens = Function.update state.layerTokens index (log index ++ records).length) ∧
    Advanced s after index added ∧ Kept after map' (log.extend index added) state' ∧
    ∀ list, answer = .ok list → added = records ∧ ∀ one ∈ list, one.Right (log index ++ records)

theorem Rests.decline_prefill {after : Session R} {map' : Map Key capacity} (h : Rests s map after map' log state)
    (index : Nat) (records : List R) (error : Error) :
    Prefilled capacity s log state index records (some (.error error, after)) := by
  refine ⟨_, after, map', [], state, rfl, .inl ⟨rfl, rfl⟩, h.same.advanced index, ?_, fun _ hlist => (nomatch hlist)⟩
  rw [Log.extend_nil]
  exact h.kept

theorem Kept.prefill (h : Kept s map log state) {layer : UInt32} {index : Nat} (hlayer : s.layerSlot layer = some index)
    {first : Nat} {tokens : List (Position × R)} {input : Selected R} (hlog : (log index).length = s.committed index)
    (hbatch : s.maxTokens ≤ prefillMaxTokens)
    (hfits : first = s.committed index → Fits s map index first tokens.length)
    (hinput : Truthful s (log.extend index (tokens.map Prod.snd)) input.fetched) :
    Prefilled capacity s log state index (tokens.map Prod.snd) (s.prefill layer first tokens input) := by
  have hindex := (layerAt_of_layerSlot hlayer).1
  unfold Session.prefill
  rw [hlayer]
  dsimp only
  split
  next => exact h.rests_self.decline_prefill index _ _
  next hrange =>
    rw [not_or, not_or, not_or, Nat.not_lt, Nat.not_lt, Nat.not_lt] at hrange
    obtain ⟨hsome, htokens, hsize, hplace⟩ := hrange
    split
    next => exact h.rests_self.decline_prefill index _ _
    next hstart =>
      rw [not_not] at hstart
      have hfirst : (log index).length = first := hlog.trans hstart.symm
      split
      next => exact h.rests_self.decline_prefill index _ _
      next ensured hensure =>
        have hensured := h.rests (h.mirrors.ensureIndexSegments hensure)
        have hpositions := hensured.kept.markPositions first (tokens.map Prod.fst)
        split
        next error marked hmark =>
          rw [hmark] at hpositions
          exact (hensured.trans hpositions).decline_prefill index _ _
        next marked hmark =>
          rw [hmark] at hpositions
          have hmarked := hensured.trans hpositions
          have hcontext : first + (tokens.map Prod.snd).length ≤ marked.maxContext := by
            rw [hmarked.same.shape.maxContext, List.length_map]
            omega
          have hfit := (hfits hstart).congr hmarked.same.shape
          rw [← List.length_map Prod.snd] at hfit
          obtain ⟨gathered, attended, map₁, hattend, hattended, hsame, hgathered⟩ :=
            hmarked.kept.attendPrefillTiles (hmarked.same.shape.layerCount ▸ hindex) hfirst hcontext hfit
              (hmarked.same.truthful hinput)
          have hfrontier : state.layerTokens index ≤ first := hfirst ▸ (h.filed index hindex).le
          have hwhole := hmarked.same.trans hsame
          rw [hattend, Option.bind_eq_bind, Option.bind_some]
          cases gathered with
          | error error =>
            have hindex' : index < attended.layerCount := hwhole.shape.layerCount ▸ hindex
            have hshrunk := hattended.shrink hindex' (hfirst ▸ hfrontier)
            refine ⟨_, attended, map₁, [], state, rfl, .inl ⟨rfl, rfl⟩, hwhole.advanced index, ?_,
              fun _ hlist => (nomatch hlist)⟩
            rw [Log.extend_nil]
            exact hshrunk
          | ok gathered =>
            have hlength : (log.extend index (tokens.map Prod.snd) index).length = first + tokens.length := by
              rw [Log.extend_self, List.length_append, hfirst, List.length_map]
            have hsmall : tokens.length ≤ maxSelectedBlocks * compressRatio := by
              simp only [prefillMaxTokens, maxSelectedBlocks, compressRatio] at hbatch ⊢
              omega
            obtain ⟨stored, map₂, state', hpersist, hstored, hsame', hwritten⟩ := hattended.persistPrefillState
              (hwhole.shape.layerCount ▸ hindex) hlength (Nat.pos_of_ne_zero hsome) hsmall hfrontier
            have hfinal := hwhole.trans hsame'
            dsimp only
            rw [hpersist, Option.bind_eq_bind, Option.bind_some]
            refine ⟨.ok gathered, _, map₂, tokens.map Prod.snd, state', rfl, .inr ⟨rfl, ?_⟩, ?_, ?_, ?_⟩
            · rw [List.length_append, hfirst, List.length_map]
              exact hwritten
            · have hshape := hfinal.shape
              refine ⟨⟨hshape.layers, hshape.maxContext, hshape.cachePages, hshape.locality⟩, hfinal.maxTokens,
                hfinal.fetchPages, ?_⟩
              show Function.update stored.committed index (first + tokens.length) = _
              rw [hfinal.committed, List.length_map, ← hstart]
            · exact hstored.of_coherent (hstored.mirrors.congr ⟨rfl, rfl, rfl, rfl⟩ rfl rfl rfl)
                ⟨rfl, rfl, rfl, rfl⟩ rfl hstored.coherent
            · intro list hlist
              obtain rfl := Except.ok.inj hlist
              exact ⟨rfl, hgathered gathered rfl⟩

end FlashGordon.QsaSession
