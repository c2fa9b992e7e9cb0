import FlashGordon.QsaCommitted
import Mathlib.Data.List.ReduceOption

/-! Decode steps keep the committed records. The step's own page is there when its record is written, the pages
that are brought in have the records of their blocks, and a gather reads the slots of the blocks it names. -/

namespace FlashGordon.QsaSession

open QsaCache (Key Represents uint32Max)
open PinnedLru Function List Option

variable {R : Type} {s : Session R} {capacity : Nat} {map : Map Key capacity} {log : Log R} {state : State R}

variable {index : Nat}

variable {layer : UInt32}

theorem mem_zip_reduceOption {α β γ : Type} {f : α → Option β} {g : β → γ} {keys : List α}
    (h : (keys.map f).any Option.isNone = false) {pair : α × γ}
    (hpair : pair ∈ keys.zip ((keys.map f).reduceOption.map g)) : ∃ value, f pair.1 = some value ∧ pair.2 = g value := by
  induction keys with
  | nil => cases hpair
  | cons key rest ih =>
    rw [map_cons, any_cons, Bool.or_eq_false_iff] at h
    obtain ⟨hkey, hrest⟩ := h
    cases hvalue : f key with
    | none =>
      rw [hvalue] at hkey
      cases hkey
    | some value =>
      rw [map_cons, hvalue, reduceOption_cons_of_some, map_cons, zip_cons_cons] at hpair
      rcases mem_cons.mp hpair with rfl | htail
      · exact ⟨value, hvalue, rfl⟩
      · exact ih hrest htail

/-- The pages another rank's service answers with have the records of their blocks. -/
def Truthful (s : Session R) (log : Log R) (fetched : UInt32 → List UInt32 → Except Error (List (Page R))) : Prop :=
  s.fetchPages = .remote → ∀ layer index blocks pages, s.layerSlot layer = some index →
    fetched layer blocks = .ok pages → ∀ pair ∈ blocks.zip pages, Holds (log index) pair.1.toNat pair.2

variable {after : Session R}

theorem Truthful.congr {fetched : UInt32 → List UInt32 → Except Error (List (Page R))}
    (h : Truthful s log fetched) (hshape : SameShape s after) (hfetch : after.fetchPages = s.fetchPages) :
    Truthful after log fetched := by
  intro hremote layer index blocks pages hlayer
  exact h (hfetch ▸ hremote) layer index blocks pages (hshape.layerSlot layer ▸ hlayer)

theorem SameSession.truthful (h : SameSession s after)
    {fetched : UInt32 → List UInt32 → Except Error (List (Page R))} (hfetched : Truthful s log fetched) :
    Truthful after log fetched := hfetched.congr h.shape h.fetchPages

theorem Kept.stored (h : Kept s map log state) {layer block : UInt32}
    (hlayer : s.layerSlot layer = some index) (hclean : (layer, block) ∉ map.pinned) {page : StatePage R}
    (hpage : state.pages index block.toNat = some page) (hcomplete : page.committed = compressRatio) :
    Holds (log index) block.toNat page.records := by
  by_cases hbelow : block.toNat * compressRatio < state.layerTokens index
  · exact (h.filed index (layerAt_of_layerSlot hlayer).1).complete hbelow hpage hcomplete
  · intro k hk record hrecord
    exfalso
    apply hclean
    apply h.coherent.pins
    refine ⟨index, hlayer, block.toNat * compressRatio + k, by omega, (List.getElem?_eq_some_iff.mp hrecord).1, ?_⟩
    rw [Nat.mul_comm, Nat.mul_add_div (by decide), Nat.div_eq_of_lt hk, Nat.add_zero]

variable {input : Attention R}

theorem Kept.fetch (h : Kept s map log state) (hlayer : s.layerSlot layer = some index)
    (hinput : Truthful s log input.fetched) {blocks : List UInt32}
    (hclean : ∀ block ∈ blocks, (layer, block) ∉ map.pinned) {pages : List (Page R)}
    (hfetch : s.fetch input layer blocks = .ok pages) :
    ∀ pair ∈ blocks.zip pages, Holds (log index) pair.1.toNat pair.2 := by
  unfold Session.fetch at hfetch
  split at hfetch
  next => cases hfetch
  next hremote => exact hinput hremote layer index blocks pages hlayer hfetch
  next =>
    unfold Session.stateFetchPages at hfetch
    rw [hlayer, h.backed] at hfetch
    dsimp only at hfetch
    split at hfetch
    · cases hfetch
    split at hfetch
    · cases hfetch
    split at hfetch
    · cases hfetch
    next hfound =>
      split at hfetch
      · cases hfetch
      next hcomplete =>
        rw [Bool.not_eq_true] at hfound hcomplete
        obtain rfl := Except.ok.inj hfetch
        intro pair hpair
        obtain ⟨page, hpage, hrecords⟩ := mem_zip_reduceOption hfound hpair
        rw [hrecords]
        apply h.stored hlayer (hclean pair.1 (of_mem_zip hpair).1) hpage
        have hmem : page ∈ (blocks.map fun block => state.pages index block.toNat).reduceOption := by
          rw [reduceOption_mem_iff, ← hpage]
          exact mem_map_of_mem (of_mem_zip hpair).1
        simpa using any_eq_false.mp hcomplete page hmem

theorem Rests.course (log : Log R) (state : State R) :
    @Course R capacity (fun s map after map' => Rests s map after map' log state)
      (fun s layer page => Right s log (layer, page.1) page.2) fun map => map.pinned.card < capacity where
  trans := Rests.trans
  mirrors h := h.kept.mirrors
  shape h := h.same.shape
  fit h hpage := by rwa [h.same.shape.right]
  room h hroom := h.pins ▸ hroom
  stays h := h.kept.rests
  last h := h.kept.rests_self
  insert := by
    intro s map h soft layer block page index hlayer hpage hroom
    refine h.kept.insert hlayer ?_ (hpage index hlayer)
    cases soft with
    | true => exact Map.spares_soft map (layer, block)
    | false => exact Map.spares_of_card ((Finset.card_insert_le _ _).trans (hroom rfl))

variable {index tokens : Nat}

/-- What a decode step is handed: the scan selects complete blocks, the read-ahead has pages of the file, and
another rank's service answers with the records committed. -/
structure Attention.Sound (input : Attention R) (s : Session R) (log : Log R) (state : State R)
    (index tokens : Nat) : Prop where
  ids : ∀ block ∈ input.ids, block.toNat < tokens / compressRatio
  reaped : ∀ page ∈ input.reaped, page.1.toNat * compressRatio < state.layerTokens index ∧
    state.pages index page.1.toNat = some ⟨compressRatio, page.2⟩
  fetched : Truthful s log input.fetched

theorem Attention.Sound.congr
    (h : input.Sound s log state index tokens) (hshape : SameShape s after) (hfetch : after.fetchPages = s.fetchPages) :
    input.Sound after log state index tokens := ⟨h.ids, h.reaped, h.fetched.congr hshape hfetch⟩

theorem Kept.attendCache (h : Kept s map log state)
    (hindex : index < s.layerCount) (htokens : tokens ≤ s.maxContext) (hinput : input.Sound s log state index tokens)
    (groupActive : Bool)
    (hroom : map.pinned.card < capacity ∨ ∀ block ∈ attended tokens input.ids, (s.layerAt index, block) ∈ map.pinned) :
    Answers (fun s map after map' => Rests s map after map' log state) s map
      (s.attendCache index tokens input groupActive) := by
  have hlayer := layerSlot_layerAt h.mirrors.layers hindex
  have hright {page : UInt32 × Page R} (hpage : Holds (log index) page.1.toNat page.2) :
      Right s log (s.layerAt index, page.1) page.2 := by
    intro other hother
    obtain rfl := Option.some.inj (hlayer.symm.trans hother)
    exact hpage
  apply (Rests.course log state).attendCache h.rests_self hindex htokens hinput.ids
  · rw [if_pos (Option.isSome_of_eq_some h.backed)]
    intro page hpage
    obtain ⟨hbelow, hstored⟩ := hinput.reaped page hpage
    exact hright ((h.filed index hindex).complete hbelow hstored rfl)
  · intro before map₁ looked map₂ fetch pages hbefore hstays hcold hfetched
    have hlooked := hbefore.trans (hbefore.kept.rests hstays)
    have hclean : ∀ block ∈ fetch, (s.layerAt index, block) ∉ map₂.pinned := by
      intro block hblock hpinned
      have hframe := Map.frame?_isSome_of_pinned hpinned
      rw [hstays.frames, hcold.uncached block hblock] at hframe
      cases hframe
    constructor
    · rw [hbefore.pins]
      apply hroom.resolve_right
      intro hpinned
      obtain ⟨block, hblock, hnone⟩ := hcold.missing
      have hframe := Map.frame?_isSome_of_pinned (hbefore.pins ▸ hpinned block hblock)
      rw [hnone] at hframe
      cases hframe
    · intro page hpage
      rw [hlooked.same.shape.right]
      exact hright (hlooked.kept.fetch (hlooked.same.shape.layerSlot _ ▸ hlayer)
        (hlooked.same.truthful hinput.fetched) hclean hfetched page hpage)

def rangePages (layer : UInt32) (first count : Nat) : Finset Key :=
  (Finset.range count).image fun i => (layer, UInt32.ofNat ((first + i) / compressRatio))

theorem block_toNat {token : Nat} (h : token < 2 ^ 32) :
    (UInt32.ofNat (token / compressRatio)).toNat = token / compressRatio := by
  rw [UInt32.toNat_ofNat']
  apply Nat.mod_eq_of_lt
  exact Nat.lt_of_le_of_lt (Nat.div_le_self _ _) h

theorem Kept.token_lt (h : Kept s map log state) {token : Nat} (htoken : token < s.maxContext) : token < 2 ^ 32 := by
  have hnarrow := h.narrow
  simp only [indexMaxSegments, indexSegmentTokenCapacity] at hnarrow
  omega

@[simp] theorem Log.extend_self (log : Log R) (index : Nat) (records : List R) :
    log.extend index records index = log index ++ records := update_self ..

theorem Log.extend_of_ne {index other : Nat} (h : other ≠ index) (log : Log R) (records : List R) :
    log.extend index records other = log other := update_of_ne h _ _

variable {records : List R}

theorem Kept.extend_bounded (h : Kept s map log state) (hlength : (log index).length + records.length ≤ s.maxContext) :
    ∀ other < s.layerCount, (log.extend index records other).length ≤ s.maxContext := by
  intro other hother
  by_cases heq : other = index
  · subst heq
    rw [Log.extend_self, length_append]
    exact hlength
  · rw [Log.extend_of_ne heq]
    exact h.bounded other hother

theorem Kept.extend_filed (h : Kept s map log state) (index : Nat) (records : List R) :
    ∀ other < s.layerCount,
      Filed (log.extend index records other) (state.layerTokens other) (state.pages other) := by
  intro other hother
  by_cases heq : other = index
  · subst heq
    rw [Log.extend_self]
    exact (h.filed other hother).append records
  · rw [Log.extend_of_ne heq]
    exact h.filed other hother

variable {record : R}

theorem Right.push {key : Key} {page : Page R} (h : Right s log key page)
    (hkey : s.layerSlot key.1 = some index → key.2.toNat ≠ (log index).length / compressRatio) :
    Right s (log.extend index [record]) key page := by
  intro other hother
  by_cases heq : other = index
  · subst heq
    rw [Log.extend_self]
    exact (h other hother).push (hkey hother).symm
  · rw [Log.extend_of_ne heq]
    exact h other hother

theorem Dirty.of_push {key : Key} (h : Dirty s (log.extend index [record]) state key) : Dirty s log state key ∨
      s.layerSlot key.1 = some index ∧ key.2.toNat = (log index).length / compressRatio := by
  obtain ⟨other, hother, token, hfrom, hbelow, hblock⟩ := h
  by_cases heq : other = index
  · subst heq
    rw [Log.extend_self, length_append, length_singleton] at hbelow
    by_cases hlast : token = (log other).length
    · subst hlast
      exact .inr ⟨hother, hblock.symm⟩
    · exact .inl ⟨other, hother, token, hfrom, by omega, hblock⟩
  · rw [Log.extend_of_ne heq] at hbelow
    exact .inl ⟨other, hother, token, hfrom, hbelow, hblock⟩

theorem Kept.commit (h : Kept s map log state) {index token : Nat} (hindex : index < s.layerCount)
    (htoken : (log index).length = token) (hcontext : token < s.maxContext)
    (hcached : token % compressRatio ≠ 0 →
      (map.frame? (s.layerAt index, UInt32.ofNat (token / compressRatio))).isSome)
    (hroom : (Insert.insert (s.layerAt index, UInt32.ofNat (token / compressRatio)) map.pinned).card ≤ capacity)
    (record : R) :
    ∃ (slot : Nat) (hit : Bool) (acquired held : Session R) (map' : Map Key capacity),
      s.qsaCacheAcquire false (s.layerAt index) (UInt32.ofNat (token / compressRatio)) = some (slot, hit, acquired) ∧
      acquired.pin (s.layerAt index) (UInt32.ofNat (token / compressRatio)) = some (.ok (), held) ∧
      Kept (held.commitRecord slot token record) map' (log.extend index [record]) state ∧
      SameSession s (held.commitRecord slot token record) ∧
      map'.pinned = Insert.insert (s.layerAt index, UInt32.ofNat (token / compressRatio)) map.pinned := by
  have hlayer := layerSlot_layerAt h.mirrors.layers hindex
  generalize hblock : UInt32.ofNat (token / compressRatio) = block at hcached hroom ⊢
  have hnat : block.toNat = token / compressRatio := hblock ▸ block_toNat (h.token_lt hcontext)
  have hspares : map.Spares false (s.layerAt index, block) := Map.spares_of_card hroom
  obtain ⟨slot, acquired, hacquire, hslot, hacquired⟩ := h.mirrors.acquire false hlayer block
  obtain ⟨cache, table, lengths, rfl⟩ := qsaCacheAcquire_eq hacquire
  have hserved : (map.acquire false (s.layerAt index, block)).1.frame = some slot := by
    have hsome : (map.acquire false (s.layerAt index, block)).1.frame.isSome :=
      Map.acquire_hard_isSome h.mirrors.represents.positive
    rw [← hslot, QsaCache.slotReply] at hsome ⊢
    split at hsome
    · cases hsome
    next hne => rw [if_neg hne]
  have hframe : (map.acquire false (s.layerAt index, block)).2.frame? (s.layerAt index, block) = some slot := by
    rw [Map.frame?_acquire, if_neg fun hevicted => Map.acquire_evicted_ne hevicted rfl, if_pos rfl, hserved]
  have hfresh : map.frame? (s.layerAt index, block) = none → ∀ page, Right s log (s.layerAt index, block) page := by
    intro hnone page other hother
    obtain rfl : index = other := Option.some.inj (hlayer.symm.trans hother)
    have hfirst : token % compressRatio = 0 := by
      by_contra hinside
      rw [hnone] at hcached
      exact Bool.false_ne_true (hcached hinside)
    apply holds_beyond
    rw [hnat, htoken]
    simp only [compressRatio] at hfirst ⊢
    omega
  have hcoherent := (h.coherent.acquire hspares hfresh fun _ _ hright => hright).pin (isSome_of_eq_some hframe)
  obtain ⟨result, held, hpin, hresult, ⟨cache', rfl⟩, hheld⟩ := hacquired.pin (s.layerAt index) block
  have hpins : ((map.acquire false (s.layerAt index, block)).2.setPin (s.layerAt index, block) true).pinned =
      Insert.insert (s.layerAt index, block) map.pinned := by
    rw [Map.pinned_setPin_true (isSome_of_eq_some hframe), Map.pinned_acquire hspares]
  have hok : result = .ok () := by
    cases result with
    | ok => rfl
    | error error =>
      rw [← isSome_map, ← Map.frame?, hframe] at hresult
      cases hresult
  subst hok
  refine ⟨slot, _, _, _, _, hacquire, hpin, ?_, ⟨⟨rfl, rfl, rfl, rfl⟩, rfl, rfl, rfl⟩, hpins⟩
  have hpage : Right s (log.extend index [record]) (s.layerAt index, block)
      (update (s.cacheRecords slot) (token % compressRatio) record) := by
    intro other hother
    obtain rfl : index = other := Option.some.inj (hlayer.symm.trans hother)
    have hold := hcoherent.frames _ slot (Map.frame?_setPin.trans hframe) index hlayer
    rw [Log.extend, update_self]
    show Holds (log index ++ [record]) block.toNat _
    rw [hnat, ← htoken] at hold ⊢
    exact hold.write record
  have hkey : ∀ key : Key, s.layerSlot key.1 = some index → key.2.toNat = token / compressRatio →
      key = (s.layerAt index, block) := by
    intro key hslot' hsame
    exact Prod.ext (layerAt_of_layerSlot hslot').2.symm (UInt32.toNat_inj.mp (hsame.trans hnat.symm))
  have hwritten : Map.Coherent ((map.acquire false (s.layerAt index, block)).2.setPin (s.layerAt index, block) true)
      (update s.cacheRecords slot (update (s.cacheRecords slot) (token % compressRatio) record))
      (Right s (log.extend index [record])) (Dirty s (log.extend index [record]) state) := by
    apply hcoherent.write (Map.frame?_setPin.trans hframe) hpage
    · intro key hne page hright
      exact hright.push fun hslot' hsame => hne (hkey key hslot' (htoken ▸ hsame))
    · intro key hdirty
      rcases hdirty.of_push with hold | ⟨hslot', hsame⟩
      · exact hcoherent.pins key hold
      · rw [hkey key hslot' (htoken ▸ hsame), hpins]
        exact Finset.mem_insert_self _ _
  refine ⟨hheld.writePage _ _, h.backed, h.narrow, h.extend_bounded ?_, h.extend_filed index [record], hwritten⟩
  rw [htoken]
  exact hcontext

/-- The next tokens of a layer can be committed: the page of a block that has begun is there, and the pages
that will be pinned have room. -/
structure Fits (s : Session R) (map : Map Key capacity) (index first count : Nat) : Prop where
  cached : first % compressRatio ≠ 0 → (map.frame? (s.layerAt index, UInt32.ofNat (first / compressRatio))).isSome
  room : (map.pinned ∪ rangePages (s.layerAt index) first count).card ≤ capacity

theorem rangePages_one (layer : UInt32) (token : Nat) :
    rangePages layer token 1 = {(layer, UInt32.ofNat (token / compressRatio))} := by
  simp [rangePages]

theorem pinned_union_one (layer : UInt32) (token : Nat) :
    map.pinned ∪ rangePages layer token 1 = Insert.insert (layer, UInt32.ofNat (token / compressRatio)) map.pinned := by
  rw [rangePages_one, Finset.union_comm, Finset.singleton_union]

structure Advanced (s after : Session R) (index : Nat) (records : List R) : Prop where
  shape : SameShape s after
  maxTokens : after.maxTokens = s.maxTokens
  fetchPages : after.fetchPages = s.fetchPages
  committed : after.committed = Function.update s.committed index (s.committed index + records.length)

theorem SameSession.advanced (h : SameSession s after) (index : Nat) : Advanced s after index [] := by
  refine ⟨h.shape, h.maxTokens, h.fetchPages, ?_⟩
  rw [h.committed, length_nil, Nat.add_zero, update_eq_self]

theorem SameSession.then_advanced {second third : Session R}
    (h : SameSession s second) (h' : Advanced second third index records) : Advanced s third index records :=
  ⟨h.shape.trans h'.shape, h'.maxTokens.trans h.maxTokens, h'.fetchPages.trans h.fetchPages, h.committed ▸ h'.committed⟩

theorem Advanced.then_same {second third : Session R}
    (h : Advanced s second index records) (h' : SameSession second third) : Advanced s third index records :=
  ⟨h.shape.trans h'.shape, h'.maxTokens.trans h.maxTokens, h'.fetchPages.trans h.fetchPages,
    h'.committed.trans h.committed⟩

@[simp] theorem Log.extend_nil (log : Log R) (index : Nat) : log.extend index [] = log := by
  rw [Log.extend, append_nil, update_eq_self]

/-- What a decode step leaves: the token's record is committed or nothing is, and a gather is aimed. -/
def Decoded (capacity : Nat) (s : Session R) (log : Log R) (state : State R) (index : Nat) (record : R)
    (result : Option (Except Error Gather × Session R)) : Prop :=
  ∃ (answer : Except Error Gather) (after : Session R) (map' : Map Key capacity) (records : List R),
    result = some (answer, after) ∧ (records = [] ∨ records = [record]) ∧ Advanced s after index records ∧
    Kept after map' (log.extend index records) state ∧
    ∀ gather, answer = .ok gather → records = [record] ∧ Aimed after map' gather

theorem Decoded.before {second : Session R} (h : Decoded capacity second log state index record result)
    (hsame : SameSession s second) : Decoded capacity s log state index record result := by
  obtain ⟨answer, after, map'', records, hresult, hrecords, hadvanced, hkept, haimed⟩ := h
  exact ⟨answer, after, map'', records, hresult, hrecords, hsame.then_advanced hadvanced, hkept, haimed⟩

theorem Rests.decline (h : Rests s map after map' log state) (index : Nat) (record : R) (error : Error) :
    Decoded capacity s log state index record (some (.error error, after)) := by
  refine ⟨_, after, map', [], rfl, .inl rfl, h.same.advanced index, ?_, fun _ hgather => nomatch hgather⟩
  rw [Log.extend_nil]
  exact h.kept

theorem Fits.congr {index first count : Nat} (h : Fits s map index first count)
    (hshape : SameShape s after) : Fits after map index first count := by
  constructor
  · intro hinside
    rw [hshape.layerAt]
    exact h.cached hinside
  · rw [hshape.layerAt]
    exact h.room

theorem Kept.commitAndAttendCache (h : Kept s map log state) {index token : Nat}
    (hindex : index < s.layerCount) (hlog : (log index).length = s.committed index)
    (hfits : token = s.committed index → Fits s map index token 1)
    (hinput : input.Sound s (log.extend index [record]) state index (token + 1))
    (hroom : token = s.committed index → (map.pinned ∪ rangePages (s.layerAt index) token 1).card < capacity ∨
      ∀ block ∈ attended (token + 1) input.ids,
        (s.layerAt index, block) ∈ map.pinned ∪ rangePages (s.layerAt index) token 1)
    (groupActive : Bool) :
    Decoded capacity s log state index record (s.commitAndAttendCache index token record input groupActive) := by
  unfold Session.commitAndAttendCache
  split
  next => exact h.rests_self.decline index record _
  next hstart =>
    rw [not_or, not_not, Nat.not_le] at hstart
    obtain ⟨hcommitted, hcontext⟩ := hstart
    split
    next => exact h.rests_self.decline index record _
    next =>
      split
      next => exact h.rests_self.decline index record _
      next ensured hensure =>
        have hensured := h.rests (h.mirrors.ensureIndexSegment hensure)
        have hlayerAt := hensured.same.shape.layerAt index
        have hfit := hfits hcommitted
        have hcard := hfit.room
        rw [pinned_union_one, ← hlayerAt] at hcard
        obtain ⟨slot, hit, acquired, held, map₁, hacquire, hpin, hkept, hsame, hpins⟩ :=
          hensured.kept.commit (hensured.same.shape.layerCount ▸ hindex) (hlog.trans hcommitted.symm)
            (hensured.same.shape.maxContext ▸ hcontext) (hlayerAt ▸ hfit.cached) hcard record
        rw [hlayerAt] at hacquire hpin hpins
        rw [bind_eq_bind]
        dsimp only
        rw [hacquire, bind_some]
        rw [hpin, bind_eq_bind, bind_some]
        have hwhole := hensured.same.trans hsame
        generalize held.commitRecord slot token record = written at hkept hsame hwhole ⊢
        have hcommit : Kept { written with committed := update written.committed index (token + 1) } map₁
            (log.extend index [record]) state :=
          hkept.of_coherent (hkept.mirrors.congr ⟨rfl, rfl, rfl, rfl⟩ rfl rfl rfl) ⟨rfl, rfl, rfl, rfl⟩ rfl
            hkept.coherent
        have hadvanced : Advanced s { written with committed := update written.committed index (token + 1) }
            index [record] := by
          have hshape := hwhole.shape
          refine ⟨⟨hshape.layers, hshape.maxContext, hshape.cachePages, hshape.locality⟩, hwhole.maxTokens,
            hwhole.fetchPages, ?_⟩
          show update written.committed index (token + 1) = _
          rw [← hcommitted, hwhole.committed, length_singleton]
        have hspace := hroom hcommitted
        rw [pinned_union_one, ← hpins, ← hadvanced.shape.layerAt index] at hspace
        obtain ⟨answer, after, map₂, hattend, hafter, haimed⟩ :=
          hcommit.attendCache (hadvanced.shape.layerCount ▸ hindex) (hadvanced.shape.maxContext ▸ hcontext)
            (hinput.congr hadvanced.shape hadvanced.fetchPages) groupActive hspace
        exact ⟨answer, after, map₂, [record], hattend, .inr rfl, hadvanced.then_same hafter.same, hafter.kept,
          fun gather hgather => ⟨rfl, haimed gather hgather⟩⟩

theorem Kept.decode (h : Kept s map log state) (hlayer : s.layerSlot layer = some index)
    {token : Nat} (hlog : (log index).length = s.committed index)
    (hfits : token = s.committed index → Fits s map index token 1)
    (hinput : input.Sound s (log.extend index [record]) state index (token + 1))
    (hroom : token = s.committed index → (map.pinned ∪ rangePages (s.layerAt index) token 1).card < capacity ∨
      ∀ block ∈ attended (token + 1) input.ids,
        (s.layerAt index, block) ∈ map.pinned ∪ rangePages (s.layerAt index) token 1)
    (position : Position) (groupActive : Bool) :
    Decoded capacity s log state index record (s.decode layer token position record input groupActive) := by
  have hindex := (layerAt_of_layerSlot hlayer).1
  unfold Session.decode
  rw [hlayer]
  dsimp only
  split
  next => exact h.rests_self.decline index record _
  next =>
    split
    next => exact h.rests_self.decline index record _
    next ensured hensure =>
      have hensured := h.rests (h.mirrors.ensureIndexSegments hensure)
      split
      next => exact hensured.decline index record _
      next marked hmark =>
        have hmarked := hensured.trans (hensured.kept.rests (hensured.kept.mirrors.markPosition hmark))
        have hcommitted := congrFun hmarked.same.committed index
        refine (hmarked.kept.commitAndAttendCache (hmarked.same.shape.layerCount ▸ hindex) (hlog.trans hcommitted.symm)
          (fun htoken => ?_) (hinput.congr hmarked.same.shape hmarked.same.fetchPages) (fun htoken => ?_) groupActive).before hmarked.same
        · exact (hfits (htoken.trans hcommitted)).congr hmarked.same.shape
        · rw [hmarked.same.shape.layerAt]
          exact hroom (htoken.trans hcommitted)

end FlashGordon.QsaSession
