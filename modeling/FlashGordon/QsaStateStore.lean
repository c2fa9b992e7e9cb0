import FlashGordon.QsaStateRead
import FlashGordon.QsaPrefetchRun

/-! The state file together with its read-ahead pool. Reads through the pool are asynchronous: the kernel may take
what a page holds at any time between the hint and the completion, and a staged page is handed out whenever the next
reap comes. The store looks at no frontier when it reads, so what is read is what the last write left only while the
callers ask for blocks below it and do not rewrite a block that is staged. -/

namespace FlashGordon.QsaPrefetch

variable {Page Records : Type}

/-- Every slot in use was in use before, for the same read. -/
structure Dwindles (s t : State Page) : Prop where
  frame : t.closed = s.closed ∧ t.disabled = s.disabled ∧ t.tag = s.tag
  slots : ∀ i, (t.slots i).state ≠ .free → (s.slots i).state ≠ .free ∧
    (t.slots i).layerSlot = (s.slots i).layerSlot ∧ (t.slots i).block = (s.slots i).block ∧
    (t.slots i).tag = (s.slots i).tag

theorem Dwindles.refl (s : State Page) : Dwindles s s := ⟨⟨rfl, rfl, rfl⟩, fun _ h => ⟨h, rfl, rfl, rfl⟩⟩

theorem Dwindles.trans {s t u : State Page} (h : Dwindles s t) (hnext : Dwindles t u) : Dwindles s u := by
  obtain ⟨hclosed, hdisabled, htags⟩ := h.frame
  obtain ⟨hclosed', hdisabled', htags'⟩ := hnext.frame
  refine ⟨⟨hclosed'.trans hclosed, hdisabled'.trans hdisabled, htags'.trans htags⟩, fun i hi => ?_⟩
  obtain ⟨hused, hlayer, hblock, htag⟩ := hnext.slots i hi
  obtain ⟨hused', hlayer', hblock', htag'⟩ := h.slots i hused
  exact ⟨hused', hlayer.trans hlayer', hblock.trans hblock', htag.trans htag'⟩

variable {s t : State Page}

theorem Dwindles.of_slots (hframe : t.closed = s.closed ∧ t.disabled = s.disabled ∧ t.tag = s.tag)
    (h : t.slots = s.slots) : Dwindles s t := by
  refine ⟨hframe, fun i hi => ?_⟩
  rw [h] at hi ⊢
  exact ⟨hi, rfl, rfl, rfl⟩

theorem State.complete_dwindles (s : State Page) (tag : Nat) (result : Int) : Dwindles s (s.complete tag result) := by
  rw [State.complete]
  split
  · exact .refl s
  next i hslot =>
    refine ⟨⟨rfl, rfl, rfl⟩, fun j hj => ?_⟩
    by_cases hji : j = i
    · subst hji
      have hfound := List.find?_some hslot
      simp only [decide_eq_true_eq] at hfound
      dsimp only
      rw [Function.update_self, hfound.1]
      exact ⟨fun hfree => (nomatch hfree), rfl, rfl, rfl⟩
    · dsimp only at hj ⊢
      rw [Function.update_of_ne hji] at hj ⊢
      exact ⟨hj, rfl, rfl, rfl⟩

theorem State.drain_dwindles (s : State Page) : Dwindles s s.drain := by
  rw [State.drain]
  generalize s.ring.completed.take prefetchPages = ready
  have hring : Dwindles s { s with ring := s.ring.read prefetchPages } := .of_slots ⟨rfl, rfl, rfl⟩ rfl
  generalize ({ s with ring := s.ring.read prefetchPages } : State Page) = t at hring ⊢
  induction ready generalizing t with
  | nil => exact hring
  | cons completion rest ih => exact ih _ (hring.trans (t.complete_dwindles _ _))

theorem State.release_dwindles (s : State Page) (i : Nat) : Dwindles s (s.release i) := by
  refine ⟨⟨rfl, rfl, rfl⟩, fun j hj => ?_⟩
  by_cases hji : j = i
  · subst hji
    exact absurd (s.release_free j) hj
  · rw [State.release] at hj ⊢
    dsimp only at hj ⊢
    rw [Function.update_of_ne hji] at hj ⊢
    exact ⟨hj, rfl, rfl, rfl⟩

theorem State.post_slots (s : State Page) (i : Nat) (outcome : Outcome Page) : (s.post i outcome).slots = s.slots := by
  rw [State.post]
  split <;> rfl

def CameFrom (s : State Page) (r : Returned Records) : Prop := ∃ i < prefetchPages, (s.slots i).state ≠ .free ∧
  (s.slots i).layerSlot = r.layerSlot ∧ (s.slots i).block = r.block ∧ (s.slots i).tag = r.tag

theorem CameFrom.of_dwindles (h : Dwindles s t) {r : Returned Records} (hr : CameFrom t r) : CameFrom s r := by
  obtain ⟨i, hi, hused, hlayer, hblock, htag⟩ := hr
  obtain ⟨hused', hlayer', hblock', htag'⟩ := h.slots i hused
  exact ⟨i, hi, hused', hlayer'.symm.trans hlayer, hblock'.symm.trans hblock, htag'.symm.trans htag⟩

theorem reapSlot_cameFrom {decode : Page → Nat → Nat → Option Records} {layerSlot capacity i : Nat}
    {out : List (Returned Records)} (hi : i < prefetchPages) (hslots : Dwindles s t) (hout : ∀ r ∈ out, CameFrom s r) :
    Dwindles s (reapSlot decode layerSlot capacity (t, out) i).1 ∧
      ∀ r ∈ (reapSlot decode layerSlot capacity (t, out) i).2, CameFrom s r := by
  rw [reapSlot]
  split
  · exact ⟨hslots, hout⟩
  split
  · exact ⟨hslots, hout⟩
  next hused =>
    split
    · exact ⟨hslots.trans (t.release_dwindles i), hout⟩
    split
    · exact ⟨hslots, hout⟩
    next hready =>
      rw [not_or, not_not, not_not] at hready
      split
      · exact ⟨hslots.trans (t.release_dwindles i), hout⟩
      next records hrecords =>
        refine ⟨hslots.trans (t.release_dwindles i), fun r hr => ?_⟩
        rcases List.mem_append.mp hr with hold | hnew
        · exact hout r hold
        · obtain rfl := List.mem_singleton.mp hnew
          exact CameFrom.of_dwindles hslots ⟨i, hi, hused, hready.2, rfl, rfl⟩

variable {store : Store}

theorem reap_cameFrom {decode : Page → Nat → Nat → Option Records}
    {layerSlot capacity : Nat} {answer : Except Error (List (Returned Records))}
    (hreap : reap decode store s layerSlot capacity = (answer, t)) :
    Dwindles s t ∧ ∀ out, answer = .ok out → ∀ r ∈ out, CameFrom s r := by
  rw [reap] at hreap
  split at hreap
  · obtain ⟨rfl, rfl⟩ := Prod.mk.inj hreap
    exact ⟨.refl s, fun _ hanswer => by cases hanswer⟩
  split at hreap
  · obtain ⟨rfl, rfl⟩ := Prod.mk.inj hreap
    refine ⟨.refl s, fun out hanswer r hr => ?_⟩
    obtain rfl := Except.ok.inj hanswer
    cases hr
  · have hfold : ∀ (order : List Nat) (u : State Page) (out : List (Returned Records)), (∀ i ∈ order, i < prefetchPages) →
        Dwindles s u → (∀ r ∈ out, CameFrom s r) →
        Dwindles s (order.foldl (reapSlot decode layerSlot capacity) (u, out)).1 ∧
          ∀ r ∈ (order.foldl (reapSlot decode layerSlot capacity) (u, out)).2, CameFrom s r := by
      intro order
      induction order with
      | nil => exact fun u out _ hslots hout => ⟨hslots, hout⟩
      | cons i rest ih =>
        intro u out hle hslots hout
        have hstep : Dwindles s (reapSlot decode layerSlot capacity (u, out) i).1 ∧
            ∀ r ∈ (reapSlot decode layerSlot capacity (u, out) i).2, CameFrom s r :=
          reapSlot_cameFrom (hle i List.mem_cons_self) hslots hout
        obtain ⟨hslots', hout'⟩ := hstep
        exact ih _ _ (List.forall_mem_cons.mp hle).2 hslots' hout'
    obtain ⟨hslots, hout⟩ := hfold (List.range prefetchPages) s.drain [] (fun i hi => List.mem_range.mp hi)
      s.drain_dwindles fun r hr => absurd hr List.not_mem_nil
    generalize List.foldl (reapSlot decode layerSlot capacity) (s.drain, []) (List.range prefetchPages) = reaped at *
    obtain ⟨rfl, rfl⟩ := Prod.mk.inj hreap
    refine ⟨hslots, fun out hanswer r hr => ?_⟩
    obtain rfl := Except.ok.inj hanswer
    exact hout r hr

/-- What a hint adds: reads of the blocks it names, under tags of its own. -/
structure Adds (store : Store) (layerSlot : Nat) (blocks : List Nat) (s t : State Page) : Prop where
  closed : t.closed = s.closed
  tag : s.tag ≤ t.tag
  slots : ∀ i, (t.slots i).state ≠ .free →
    ((s.slots i).state ≠ .free ∧ (t.slots i).layerSlot = (s.slots i).layerSlot ∧
      (t.slots i).block = (s.slots i).block ∧ (t.slots i).tag = (s.slots i).tag) ∨
    ((t.slots i).layerSlot = layerSlot ∧ (t.slots i).block ∈ blocks ∧ (t.slots i).block < store.blocksPerLayer ∧
      s.tag < (t.slots i).tag ∧ (t.slots i).tag ≤ t.tag)

theorem stageAll_adds {layerSlot : Nat} {all blocks : List Nat}
    (hblocks : ∀ block ∈ blocks, block ∈ all) (h : Adds store layerSlot all s t) :
    Adds store layerSlot all s (stageAll store layerSlot blocks t) := by
  induction blocks generalizing t with
  | nil => exact h
  | cons block rest ih =>
    have hrest : ∀ other ∈ rest, other ∈ all := (List.forall_mem_cons.mp hblocks).2
    rw [stageAll]
    split
    · exact ih hrest h
    next hinside =>
      split
      · exact ih hrest h
      split
      · exact h
      next i hchosen =>
        split
        · refine ⟨h.closed, Nat.le_succ_of_le h.tag, fun j hj => (h.slots j hj).imp_right fun hnew => ?_⟩
          exact ⟨hnew.1, hnew.2.1, hnew.2.2.1, hnew.2.2.2.1, Nat.le_succ_of_le hnew.2.2.2.2⟩
        · apply ih hrest
          refine ⟨h.closed, Nat.le_succ_of_le h.tag, fun j hj => ?_⟩
          rw [State.stage] at hj ⊢
          dsimp only at hj ⊢
          by_cases hji : j = i
          · subst hji
            rw [Function.update_self]
            exact .inr ⟨rfl, hblocks block List.mem_cons_self, Nat.lt_of_not_le hinside, Nat.lt_succ_of_le h.tag,
              Nat.le_refl _⟩
          · rw [Function.update_of_ne hji] at hj ⊢
            refine (h.slots j hj).imp_right fun hnew => ?_
            exact ⟨hnew.1, hnew.2.1, hnew.2.2.1, hnew.2.2.2.1, Nat.le_succ_of_le hnew.2.2.2.2⟩

theorem prefetch_adds (store : Store) (s : State Page) (layerSlot : Nat) (blocks : List Nat) (flush : Flush) :
    Adds store layerSlot blocks s (prefetch store s layerSlot blocks flush).2 := by
  have hsame : Adds store layerSlot blocks s s := ⟨rfl, Nat.le_refl _, fun _ hi => .inl ⟨hi, rfl, rfl, rfl⟩⟩
  rw [prefetch]
  split
  · exact hsame
  split
  · exact hsame
  · have hstaged := stageAll_adds (fun _ h => h) hsame
    dsimp only
    split
    · exact hstaged
    · rw [State.flush]
      split
      · exact ⟨hstaged.closed, hstaged.tag, fun i hi => absurd rfl hi⟩
      · exact ⟨hstaged.closed, hstaged.tag, hstaged.slots⟩

theorem cancel_quiet (hring : store.hasRing = true) (script : List (List (Nat × Outcome Page)))
    (s : State Page) : (cancel store script s).disabled = true ∨ ∀ i, ((cancel store script s).slots i).state = .free := by
  rw [cancel, if_pos hring]
  dsimp only
  split
  · exact .inl rfl
  · exact .inr fun _ => rfl

end FlashGordon.QsaPrefetch

namespace FlashGordon.QsaStateFile

open QsaPrefetch (Outcome Flush)

/-- The store with its read-ahead. `written` is the records of each block's last write since the last reset, `past` is
the file after each of the first `age` calls that write it, and `since` is how many of them had been made when a read
was queued. -/
structure Staging where
  store : Store
  pool : QsaPrefetch.State ByteBlock
  hasRing : Bool
  sqEntries : Nat
  written : Nat → UInt32 → Option (List Record)
  past : Nat → Nat → ByteBlock
  age : Nat
  since : Nat → Nat

inductive Call where
  | writeBlock (layerSlot : Nat) (block : UInt32) (records : List Record)
  | writeBlocks (layerSlot : Nat) (writes : List (UInt32 × Vector Record compressRatio))
  | reset (script : List (List (Nat × Outcome ByteBlock)))
  | readBlock (layerSlot : Nat) (block : UInt32)
  | readBlocks (layerSlot : Nat) (blocks : List UInt32)
  | prefetch (layerSlot : Nat) (blocks : List Nat) (flush : Flush)
  | reap (layerSlot capacity : Nat)
  | cancel (script : List (List (Nat × Outcome ByteBlock)))
  | kernel (i : Nat) (outcome : Outcome ByteBlock)

/-- Records that a read or a reap returns for a block, and their number. -/
structure Shown where
  layerSlot : Nat
  block : UInt32
  records : List UInt8 × Nat

namespace Staging

def poolStore (s : Staging) : QsaPrefetch.Store :=
  ⟨s.store.layers.length, s.store.blocksPerLayer.toNat, s.hasRing, s.sqEntries⟩

/-- `decode_page` for a page of the pool. -/
def decode (layers : List UInt8) (page : ByteBlock) (layerSlot block : Nat) : Option (List UInt8 × Nat) :=
  pageRecords layers page layerSlot (UInt32.ofNat block)

def wrote (s : Staging) (after : Store) (written : Nat → UInt32 → Option (List Record)) : Staging :=
  { s with
    store := after
    written
    past := Function.update s.past (s.age + 1) after.file
    age := s.age + 1 }

def note (s : Staging) (answer : Except Error Unit) (layerSlot : Nat) (writes : List (UInt32 × List Record)) :
    Nat → UInt32 → Option (List Record) :=
  match answer with
  | .error _ => s.written
  | .ok () => Function.update s.written layerSlot
      (Scatter.scatter Prod.fst (fun write _ => some write.2) writes (s.written layerSlot))

def reaped : Except Error (List (QsaPrefetch.Returned (List UInt8 × Nat))) → List Shown
  | .ok out => out.map fun found => ⟨found.layerSlot, UInt32.ofNat found.block, found.records⟩
  | .error _ => []

def perform (s : Staging) : Call → List Shown × Staging
  | .writeBlock layerSlot block records =>
    let (answer, after) := s.store.writeBlock layerSlot block records .ok .ok
    ([], s.wrote after (s.note answer layerSlot [(block, records)]))
  | .writeBlocks layerSlot writes =>
    let (answer, after) := s.store.writeBlocks layerSlot writes .ok .ok
    ([], s.wrote after (s.note answer layerSlot (writes.map fun write => (write.1, write.2.toList))))
  | .reset script =>
    ([], { s with pool := QsaPrefetch.cancel s.poolStore script s.pool }.wrote (s.store.reset .ok).2 fun _ _ => none)
  | .readBlock layerSlot block =>
    (match s.store.readBlock layerSlot block none with
      | .ok records => [⟨layerSlot, block, records⟩]
      | .error _ => [],
      s)
  | .readBlocks layerSlot blocks =>
    (match s.store.readBlocks layerSlot blocks none with
      | .ok records => (blocks.zip records).map fun (block, records) => ⟨layerSlot, block, records⟩
      | .error _ => [],
      s)
  | .prefetch layerSlot blocks flush =>
    let (_, pool) := QsaPrefetch.prefetch s.poolStore s.pool layerSlot blocks flush
    ([], { s with pool, since := fun tag => if s.pool.tag < tag then s.age else s.since tag })
  | .reap layerSlot capacity =>
    let (answer, pool) := QsaPrefetch.reap (decode s.store.layers) s.poolStore s.pool layerSlot capacity
    (reaped answer, { s with pool })
  | .cancel script => ([], { s with pool := QsaPrefetch.cancel s.poolStore script s.pool })
  | .kernel i outcome => ([], { s with pool := s.pool.post i outcome })

/-- A block below the frontier is read back with the records of its last write. -/
def Readable (s : Staging) : Prop :=
  ∀ layerSlot < s.store.layers.length, ∀ block : UInt32,
    block.toNat * compressRatio < (s.store.layerTokens layerSlot).toNat →
    ∃ records, s.written layerSlot block = some records ∧
      s.store.readBlock layerSlot block none = .ok (padded records, records.length)

/-- What was returned is below the frontier, and from the last write. -/
def Right (s : Staging) (one : Shown) : Prop :=
  one.block.toNat * compressRatio < (s.store.layerTokens one.layerSlot).toNat ∧
    ∃ records, s.written one.layerSlot one.block = some records ∧ one.records = (padded records, records.length)

/-- Along a run every block below a frontier can be read, and what is returned is right. -/
def Faithful (s : Staging) : List Call → Prop
  | [] => s.Readable
  | call :: rest => s.Readable ∧ (∀ one ∈ (s.perform call).1, (s.perform call).2.Right one) ∧
      (s.perform call).2.Faithful rest

/-- A read of the pool that came back whole has what its page held at some time since it was queued. -/
def Honest (s : Staging) : Prop :=
  ∀ completion ∈ s.pool.done, completion.2.result = QsaPrefetch.pageBytes →
    ∃ version, s.since completion.1.tag ≤ version ∧ version ≤ s.age ∧
      completion.2.bytes = s.past version (completion.1.offset / QsaPrefetch.pageBytes)

/-- The kernel is honest in every state of a run. -/
def Served (s : Staging) : List Call → Prop
  | [] => s.Honest
  | call :: rest => s.Honest ∧ (s.perform call).2.Served rest

def Fresh (s : Staging) (layerSlot : Nat) (block : UInt32) : Prop :=
  block.toNat * compressRatio < (s.store.layerTokens layerSlot).toNat ∨
    pageRecords s.store.layers (s.store.file (s.store.pageNumber layerSlot block)) layerSlot block = none

def Unstaged (s : Staging) (layerSlot : Nat) (block : UInt32) : Prop :=
  s.pool.disabled = false → s.pool.staged layerSlot block.toNat = false

/-- What the calls ask for is below the frontier or was never written, and what they write is not staged. -/
def Safe (s : Staging) : Call → Prop
  | .writeBlock layerSlot block _ => s.Unstaged layerSlot block
  | .writeBlocks layerSlot writes => ∀ write ∈ writes, s.Unstaged layerSlot write.1
  | .readBlock layerSlot block => s.Fresh layerSlot block
  | .readBlocks layerSlot blocks => ∀ block ∈ blocks, s.Fresh layerSlot block
  | .prefetch layerSlot blocks _ => ∀ block ∈ blocks, block < s.store.blocksPerLayer.toNat →
      s.Fresh layerSlot (UInt32.ofNat block)
  | _ => True

def Careful (s : Staging) : List Call → Prop
  | [] => True
  | call :: rest => s.Safe call ∧ (s.perform call).2.Careful rest

def start (store : Store) (pool : Nat → ByteBlock) (hasRing : Bool) (sqEntries : Nat) : Staging where
  store
  pool := QsaPrefetch.openState ⟨store.layers.length, store.blocksPerLayer.toNat, hasRing, sqEntries⟩ pool
  hasRing
  sqEntries
  written := fun _ _ => none
  past := fun _ => store.file
  age := 0
  since := fun _ => 0

variable {s : Staging}

/-- A page in the pool is a page of its block, unchanged since its read was queued. -/
structure Waits (s : Staging) (slot : QsaPrefetch.Slot) : Prop where
  layer : slot.layerSlot < s.store.layers.length
  block : slot.block < s.store.blocksPerLayer.toNat
  tag : slot.tag ≤ s.pool.tag
  same : ∀ version, s.since slot.tag ≤ version → version ≤ s.age →
    s.past version (s.store.pageNumber slot.layerSlot (UInt32.ofNat slot.block)) =
      s.store.file (s.store.pageNumber slot.layerSlot (UInt32.ofNat slot.block))
  fresh : s.Fresh slot.layerSlot (UInt32.ofNat slot.block)

/-- The pages below the frontiers have the records of the last writes. -/
def Filed (s : Staging) : Prop :=
  ∀ layerSlot < s.store.layers.length, ∀ block, 0 < held (s.store.layerTokens layerSlot) block →
    block < s.store.blocksPerLayer ∧ ∃ records, s.written layerSlot block = some records ∧
      records.length = held (s.store.layerTokens layerSlot) block ∧
      s.store.file (s.store.pageNumber layerSlot block) = s.store.encodePage layerSlot block records

structure Steady (s : Staging) : Prop where
  blocks : s.store.blocksPerLayer.toNat < 2 ^ 30
  filed : s.Filed
  pool : ∃ returned, QsaPrefetch.Inv (decode s.store.layers) s.poolStore returned s.pool
  opened : s.pool.closed = false
  ringless : s.hasRing = false → s.pool.disabled = true
  current : s.past s.age = s.store.file
  staged : s.pool.disabled = false → ∀ i < QsaPrefetch.prefetchPages, (s.pool.slots i).state ≠ .free →
    s.Waits (s.pool.slots i)

theorem Filed.readBlock (h : s.Filed) {layerSlot : Nat} {block : UInt32} (hslot : layerSlot < s.store.layers.length)
    (hbelow : block.toNat * compressRatio < (s.store.layerTokens layerSlot).toNat) :
    block < s.store.blocksPerLayer ∧ ∃ records, s.written layerSlot block = some records ∧
      pageRecords s.store.layers (s.store.file (s.store.pageNumber layerSlot block)) layerSlot block =
        some (padded records, records.length) := by
  have hpos := held_pos.mpr hbelow
  obtain ⟨hinside, records, hwritten, hlength, hpage⟩ := h layerSlot hslot block hpos
  refine ⟨hinside, records, hwritten, ?_⟩
  rw [hpage]
  exact pageRecords_encodePage s.store layerSlot block (hlength ▸ hpos) (hlength ▸ Nat.min_le_left _ _)

theorem Steady.readable (h : s.Steady) : s.Readable := by
  intro layerSlot hslot block hbelow
  obtain ⟨hinside, records, hwritten, hpage⟩ := h.filed.readBlock hslot hbelow
  refine ⟨records, hwritten, ?_⟩
  rw [Store.readBlock, if_neg, Store.decodePage, hpage]
  rintro (hover | hover)
  · exact absurd hslot (Nat.not_lt_of_le hover)
  · exact absurd hinside (UInt32.not_lt.mpr hover)

theorem Steady.right (h : s.Steady) {layerSlot : Nat} {block : UInt32} (hslot : layerSlot < s.store.layers.length)
    (hfresh : s.Fresh layerSlot block) {records : List UInt8 × Nat}
    (hrecords : pageRecords s.store.layers (s.store.file (s.store.pageNumber layerSlot block)) layerSlot block =
      some records) : s.Right ⟨layerSlot, block, records⟩ := by
  rcases hfresh with hbelow | hnone
  · obtain ⟨-, last, hwritten, hpage⟩ := h.filed.readBlock hslot hbelow
    exact ⟨hbelow, last, hwritten, Option.some.inj (hrecords.symm.trans hpage)⟩
  · rw [hnone] at hrecords
    cases hrecords

theorem encodePage_congr {s after : Store} (h : after.layers = s.layers) (layerSlot : Nat) (block : UInt32)
    (records : List Record) : after.encodePage layerSlot block records = s.encodePage layerSlot block records := by
  rw [Store.encodePage, Store.encodePage, h]

theorem pageNumber_congr {s after : Store} (h : after.blocksPerLayer = s.blocksPerLayer) (layerSlot : Nat)
    (block : UInt32) : after.pageNumber layerSlot block = s.pageNumber layerSlot block := by
  rw [Store.pageNumber, Store.pageNumber, h]

theorem Steady.wrote (h : s.Steady) {after : Store} {written : Nat → UInt32 → Option (List Record)}
    (hlayers : after.layers = s.store.layers) (hblocks : after.blocksPerLayer = s.store.blocksPerLayer)
    (hfiled : (s.wrote after written).Filed)
    (hpages : s.pool.disabled = false → ∀ i < QsaPrefetch.prefetchPages, (s.pool.slots i).state ≠ .free →
      let number := s.store.pageNumber (s.pool.slots i).layerSlot (UInt32.ofNat (s.pool.slots i).block)
      after.file number = s.store.file number)
    (hgrows : ∀ layerSlot block, held (s.store.layerTokens layerSlot) block ≤ held (after.layerTokens layerSlot) block) :
    (s.wrote after written).Steady := by
  refine ⟨hblocks ▸ h.blocks, hfiled, ?_, h.opened, h.ringless, Function.update_self _ _ _, fun hable i hi hused => ?_⟩
  · obtain ⟨returned, hinv⟩ := h.pool
    refine ⟨returned, ?_⟩
    show QsaPrefetch.Inv (decode after.layers) ⟨after.layers.length, after.blocksPerLayer.toNat, _, _⟩ returned s.pool
    rw [hlayers, hblocks]
    exact hinv
  · have hwaits := h.staged hable i hi hused
    have hpage := hpages hable i hi hused
    refine ⟨hlayers ▸ hwaits.layer, hblocks ▸ hwaits.block, hwaits.tag, fun version hfrom hage => ?_, ?_⟩
    · show Function.update s.past (s.age + 1) after.file version (after.pageNumber _ _) = after.file (after.pageNumber _ _)
      by_cases hlast : version = s.age + 1
      · rw [hlast, Function.update_self]
      · rw [Function.update_of_ne hlast, pageNumber_congr hblocks]
        exact (hwaits.same version hfrom (Nat.le_of_lt_succ (Nat.lt_of_le_of_ne hage hlast))).trans hpage.symm
    · rcases hwaits.fresh with hbelow | hnone
      · exact .inl (held_pos.mp (Nat.lt_of_lt_of_le (held_pos.mpr hbelow) (hgrows _ _)))
      · right
        show pageRecords after.layers (after.file (after.pageNumber _ _)) _ _ = none
        rw [hlayers, pageNumber_congr hblocks]
        exact (congrArg (pageRecords s.store.layers · _ _) hpage).trans hnone

theorem Steady.refused (h : s.Steady) : (s.wrote s.store s.written).Steady :=
  h.wrote rfl rfl h.filed (fun _ _ _ _ => rfl) fun _ _ => Nat.le_refl _

theorem scatter_written {writes : List (UInt32 × List Record)} (hnodup : (writes.map Prod.fst).Nodup)
    {before : UInt32 → Option (List Record)} {write : UInt32 × List Record} (hwrite : write ∈ writes) :
    Scatter.scatter Prod.fst (fun write _ => some write.2) writes before write.1 = some write.2 :=
  Scatter.scatter_of_mem hnodup hwrite

theorem Steady.wroteBlocks (h : s.Steady) {after : Store} {layerSlot : Nat} {writes : List (UInt32 × List Record)}
    (hwrote : Wrote s.store after layerSlot writes) (hunstaged : ∀ write ∈ writes, s.Unstaged layerSlot write.1) :
    (s.wrote after (s.note (.ok ()) layerSlot writes)).Steady := by
  have hpage : ∀ other < s.store.layers.length, ∀ block < s.store.blocksPerLayer,
      (other ≠ layerSlot ∨ block ∉ writes.map Prod.fst) →
      after.file (s.store.pageNumber other block) = s.store.file (s.store.pageNumber other block) := by
    intro other _ block hblock hapart
    rw [hwrote.file _ (s.store.pageNumber_ne_zero _ _)]
    apply Scatter.scatter_of_not_mem
    intro page hmem heq
    obtain ⟨write, hwrite, rfl⟩ := List.mem_map.mp hmem
    obtain ⟨rfl, rfl⟩ := pageNumber_inj (hwrote.inside write hwrite) hblock heq
    rcases hapart with hne | hnot
    · exact hne rfl
    · exact hnot (List.mem_map_of_mem hwrite)
  refine h.wrote hwrote.layers hwrote.blocks ?_ ?_ ?_
  · intro other hother block hpos
    replace hother : other < s.store.layers.length := hwrote.layers ▸ hother
    replace hpos : 0 < held (after.layerTokens other) block := hpos
    show block < after.blocksPerLayer ∧ ∃ records, Function.update s.written layerSlot _ other block = some records ∧
      records.length = held (after.layerTokens other) block ∧
      after.file (after.pageNumber other block) = after.encodePage other block records
    rw [hwrote.blocks, pageNumber_congr hwrote.blocks]
    by_cases hsame : other = layerSlot
    · subst hsame
      rw [Function.update_self]
      by_cases hmem : block ∈ writes.map Prod.fst
      · obtain ⟨write, hwrite, rfl⟩ := List.mem_map.mp hmem
        refine ⟨hwrote.inside write hwrite, write.2, scatter_written hwrote.nodup hwrite,
          (hwrote.counts write hwrite).2, ?_⟩
        rw [hwrote.file _ (s.store.pageNumber_ne_zero _ _), encodePage_congr hwrote.layers]
        have hpages : ((writes.map fun write => (s.store.pageNumber other write.1,
            s.store.encodePage other write.1 write.2)).map Prod.fst).Nodup := by
          rw [List.map_map]
          have hfst : (Prod.fst ∘ fun write : UInt32 × List Record => (s.store.pageNumber other write.1,
              s.store.encodePage other write.1 write.2)) = s.store.pageNumber other ∘ Prod.fst := rfl
          rw [hfst, ← List.map_map]
          apply List.Nodup.map_on _ hwrote.nodup
          intro x hx y hy heq
          obtain ⟨first, hfirst, rfl⟩ := List.mem_map.mp hx
          obtain ⟨second, hsecond, rfl⟩ := List.mem_map.mp hy
          exact (pageNumber_inj (hwrote.inside first hfirst) (hwrote.inside second hsecond) heq).2
        exact Scatter.scatter_of_mem hpages (List.mem_map_of_mem hwrite)
      · rw [hwrote.kept block hmem] at hpos ⊢
        obtain ⟨hinside, records, hwritten, hlength, hfile⟩ := h.filed other hother block hpos
        refine ⟨hinside, records, ?_, hlength, ?_⟩
        · refine (Scatter.scatter_of_not_mem fun write hwrite heq => ?_).trans hwritten
          exact hmem (List.mem_map.mpr ⟨write, hwrite, heq⟩)
        · rw [hpage other hother block hinside (.inr hmem), encodePage_congr hwrote.layers]
          exact hfile
    · rw [Function.update_of_ne hsame]
      rw [hwrote.others other hsame] at hpos ⊢
      obtain ⟨hinside, records, hwritten, hlength, hfile⟩ := h.filed other hother block hpos
      refine ⟨hinside, records, hwritten, hlength, ?_⟩
      rw [hpage other hother block hinside (.inl hsame), encodePage_congr hwrote.layers]
      exact hfile
  · intro hable i hi hused
    have hwaits := h.staged hable i hi hused
    have hblock : (UInt32.ofNat (s.pool.slots i).block).toNat = (s.pool.slots i).block :=
      UInt32.toNat_ofNat_of_lt' (Nat.lt_trans hwaits.block (Nat.lt_trans h.blocks (by decide)))
    apply hpage _ hwaits.layer _ (UInt32.lt_iff_toNat_lt.mpr (hblock.symm ▸ hwaits.block))
    by_cases hsame : (s.pool.slots i).layerSlot = layerSlot
    · right
      intro hmem
      obtain ⟨write, hwrite, heq⟩ := List.mem_map.mp hmem
      have hstaged := hunstaged write hwrite hable
      rw [QsaPrefetch.State.staged, List.any_eq_false] at hstaged
      apply hstaged i (List.mem_range.mpr hi)
      rw [heq, hblock]
      exact decide_eq_true ⟨hused, hsame, rfl⟩
    · exact .inl hsame
  · intro other block
    by_cases hsame : other = layerSlot
    · exact hsame ▸ hwrote.grows block
    · rw [hwrote.others other hsame]

theorem Steady.dwindles (h : s.Steady) {pool : QsaPrefetch.State ByteBlock} {returned : _}
    (hinv : QsaPrefetch.Inv (decode s.store.layers) s.poolStore returned pool) (hslots : QsaPrefetch.Dwindles s.pool pool) :
    Steady { s with pool := pool } := by
  obtain ⟨hclosed, hdisabled, htag⟩ := hslots.frame
  refine ⟨h.blocks, h.filed, ⟨returned, hinv⟩, hclosed.trans h.opened, fun hnone => hdisabled.trans (h.ringless hnone),
    h.current, fun hable i hi hused => ?_⟩
  obtain ⟨hbefore, hlayer, hblock, htags⟩ := hslots.slots i hused
  obtain ⟨hwlayer, hwblock, hwtag, hsame, hfresh⟩ := h.staged (hdisabled.symm.trans hable) i hi hbefore
  constructor
  · rw [hlayer]
    exact hwlayer
  · rw [hblock]
    exact hwblock
  · rw [htags]
    exact hwtag.trans (Nat.le_of_eq htag.symm)
  · rw [hlayer, hblock, htags]
    exact hsame
  · rw [hlayer, hblock]
    exact hfresh

theorem Steady.kernel (h : s.Steady) (i : Nat) (outcome : Outcome ByteBlock) :
    Steady { s with pool := s.pool.post i outcome } := by
  obtain ⟨returned, hinv⟩ := h.pool
  have hflags := s.pool.post_flags i outcome
  simp only [QsaPrefetch.State.flags, Prod.mk.injEq] at hflags
  have htag : (s.pool.post i outcome).tag = s.pool.tag := by
    rw [QsaPrefetch.State.post]
    split <;> rfl
  exact h.dwindles (hinv.post i outcome)
    (.of_slots ⟨hflags.2.2.2, hflags.1, htag⟩ (s.pool.post_slots i outcome))

theorem cancel_ringless {store : QsaPrefetch.Store} (hring : store.hasRing = false)
    (script : List (List (Nat × Outcome ByteBlock))) (pool : QsaPrefetch.State ByteBlock) :
    QsaPrefetch.cancel store script pool = pool := by
  rw [QsaPrefetch.cancel, if_neg (by rw [hring]; exact Bool.false_ne_true)]

theorem Steady.quiet (h : s.Steady) (script : List (List (Nat × Outcome ByteBlock))) :
    (∃ returned, QsaPrefetch.Inv (decode s.store.layers) s.poolStore returned
      (QsaPrefetch.cancel s.poolStore script s.pool)) ∧ (QsaPrefetch.cancel s.poolStore script s.pool).closed = false ∧
    (s.hasRing = false → (QsaPrefetch.cancel s.poolStore script s.pool).disabled = true) ∧
    ((QsaPrefetch.cancel s.poolStore script s.pool).disabled = false →
      ∀ i, ((QsaPrefetch.cancel s.poolStore script s.pool).slots i).state = .free) := by
  obtain ⟨returned, hinv⟩ := h.pool
  obtain ⟨hinv', hclosed, -⟩ := QsaPrefetch.cancel_inv hinv h.opened script
  refine ⟨⟨returned, hinv'⟩, hclosed, fun hnone => ?_, fun hable => ?_⟩
  · have hsame : QsaPrefetch.cancel s.poolStore script s.pool = s.pool := cancel_ringless hnone script s.pool
    rw [hsame]
    exact h.ringless hnone
  · cases hring : s.hasRing with
    | true =>
      have hquiet : (QsaPrefetch.cancel s.poolStore script s.pool).disabled = true ∨
          ∀ i, ((QsaPrefetch.cancel s.poolStore script s.pool).slots i).state = .free :=
        QsaPrefetch.cancel_quiet hring script s.pool
      rcases hquiet with hoff | hfree
      · exact absurd (hoff.symm.trans hable) Bool.noConfusion
      · exact hfree
    | false =>
      have hsame : QsaPrefetch.cancel s.poolStore script s.pool = s.pool := cancel_ringless hring script s.pool
      rw [hsame] at hable
      exact absurd ((h.ringless hring).symm.trans hable) Bool.noConfusion

theorem Steady.cancel (h : s.Steady) (script : List (List (Nat × Outcome ByteBlock))) :
    Steady { s with pool := QsaPrefetch.cancel s.poolStore script s.pool } := by
  obtain ⟨hinv, hclosed, hringless, hquiet⟩ := h.quiet script
  exact ⟨h.blocks, h.filed, hinv, hclosed, hringless, h.current, fun hable i _ hused => absurd (hquiet hable i) hused⟩

theorem held_zero (block : UInt32) : held 0 block = 0 := by
  rw [held_eq]
  show min 4 (0 - block.toNat * 4) = 0
  omega

theorem Steady.reset (h : s.Steady) (script : List (List (Nat × Outcome ByteBlock))) :
    (s.perform (.reset script)).2.Steady := by
  obtain ⟨⟨returned, hinv⟩, hclosed, hringless, hquiet⟩ := h.quiet script
  refine ⟨h.blocks, fun layerSlot _ block hpos => ?_, ⟨returned, hinv⟩, hclosed, hringless, Function.update_self _ _ _,
    fun hable i _ hused => absurd (hquiet hable i) hused⟩
  exact absurd hpos (Nat.not_lt.mpr (Nat.le_of_eq (held_zero block)))

theorem Steady.prefetch (h : s.Steady) {layerSlot : Nat} {blocks : List Nat} (flush : Flush)
    (hfresh : ∀ block ∈ blocks, block < s.store.blocksPerLayer.toNat → s.Fresh layerSlot (UInt32.ofNat block)) :
    (s.perform (.prefetch layerSlot blocks flush)).2.Steady := by
  obtain ⟨returned, hinv⟩ := h.pool
  have hinv' := QsaPrefetch.prefetch_inv hinv h.opened layerSlot blocks flush
  have hadds := QsaPrefetch.prefetch_adds s.poolStore s.pool layerSlot blocks flush
  have hdisabled : s.pool.disabled = true →
      (QsaPrefetch.prefetch s.poolStore s.pool layerSlot blocks flush).2 = s.pool := by
    intro hoff
    rw [QsaPrefetch.prefetch]
    split
    · rfl
    · rw [if_pos (.inl hoff)]
  refine ⟨h.blocks, h.filed, ⟨returned, hinv'⟩, hadds.closed.trans h.opened, fun hnone => ?_, h.current,
    fun hable i hi hused => ?_⟩
  · show (QsaPrefetch.prefetch s.poolStore s.pool layerSlot blocks flush).2.disabled = true
    rw [hdisabled (h.ringless hnone)]
    exact h.ringless hnone
  · have hable' : s.pool.disabled = false := by
      cases hoff : s.pool.disabled with
      | false => rfl
      | true =>
        replace hable : (QsaPrefetch.prefetch s.poolStore s.pool layerSlot blocks flush).2.disabled = false := hable
        rw [hdisabled hoff] at hable
        exact hoff.symm.trans hable
    have hsince : ∀ tag ≤ s.pool.tag,
        (s.perform (.prefetch layerSlot blocks flush)).2.since tag = s.since tag := fun tag htag =>
      if_neg (Nat.not_lt_of_le htag)
    rcases hadds.slots i hused with ⟨hbefore, hlayer, hblock, htag⟩ | ⟨hlayer, hmem, hblock, hnew, hle⟩
    · obtain ⟨hwlayer, hwblock, hwtag, hsame, hwfresh⟩ := h.staged hable' i hi hbefore
      constructor
      · exact Nat.lt_of_le_of_lt (Nat.le_of_eq hlayer) hwlayer
      · exact Nat.lt_of_le_of_lt (Nat.le_of_eq hblock) hwblock
      · exact (Nat.le_of_eq htag).trans (hwtag.trans hadds.tag)
      · intro version hfrom hage
        have hfrom' : s.since (s.pool.slots i).tag ≤ version := by
          rw [← hsince _ hwtag, ← htag]
          exact hfrom
        have hpage := hsame version hfrom' hage
        rw [← hlayer, ← hblock] at hpage
        exact hpage
      · rw [← hlayer, ← hblock] at hwfresh
        exact hwfresh
    · have hslot : layerSlot < s.store.layers.length := by
        by_contra hover
        have hsame : (QsaPrefetch.prefetch s.poolStore s.pool layerSlot blocks flush).2 = s.pool := by
          rw [QsaPrefetch.prefetch, if_pos (.inr (Nat.le_of_not_lt hover))]
        rw [hsame] at hnew hle
        exact absurd hnew (Nat.not_lt_of_le hle)
      constructor
      · exact Nat.lt_of_le_of_lt (Nat.le_of_eq hlayer) hslot
      · exact hblock
      · exact hle
      · intro version hfrom hage
        have hnow : (s.perform (.prefetch layerSlot blocks flush)).2.since
            ((s.perform (.prefetch layerSlot blocks flush)).2.pool.slots i).tag = s.age := if_pos hnew
        have hversion : version = s.age := Nat.le_antisymm hage (hnow ▸ hfrom)
        rw [hversion]
        exact congrFun h.current _
      · exact Eq.mpr (congrArg (fun slot => s.Fresh slot _) hlayer) (hfresh _ hmem hblock)

theorem Steady.reap (h : s.Steady) (layerSlot capacity : Nat)
    (hhonest : (s.perform (.reap layerSlot capacity)).2.Honest) :
    (s.perform (.reap layerSlot capacity)).2.Steady ∧
      ∀ one ∈ (s.perform (.reap layerSlot capacity)).1, (s.perform (.reap layerSlot capacity)).2.Right one := by
  obtain ⟨returned, hinv⟩ := h.pool
  cases hreap : QsaPrefetch.reap (decode s.store.layers) s.poolStore s.pool layerSlot capacity with
  | mk answer pool =>
    have hperform : s.perform (.reap layerSlot capacity) = (reaped answer, { s with pool := pool }) := by
      rw [perform, hreap]
    have hinv' := QsaPrefetch.reap_inv hinv h.opened hreap
    obtain ⟨hslots, hcame⟩ := QsaPrefetch.reap_cameFrom hreap
    have hsteady := h.dwindles hinv' hslots
    rw [hperform] at hhonest ⊢
    refine ⟨hsteady, fun one hone => ?_⟩
    cases answer with
    | error error => cases hone
    | ok out =>
      obtain ⟨found, hfound, rfl⟩ := List.mem_map.mp hone
      obtain ⟨i, hi, hused, hlayer, hblock, htag⟩ := hcame out rfl found hfound
      obtain ⟨completion, hdone, hread, hoffset, hwhole, hdecode⟩ :=
        hinv'.sound.valid found (List.mem_append_right _ hfound)
      obtain ⟨version, hfrom, hage, hbytes⟩ := hhonest completion hdone hwhole
      have hable : s.pool.disabled = false := by
        cases hoff : s.pool.disabled with
        | false => rfl
        | true =>
          rw [QsaPrefetch.reap] at hreap
          split at hreap
          · cases hreap
          · rw [if_pos (.inl hoff)] at hreap
            obtain rfl := Except.ok.inj (Prod.mk.inj hreap).1
            cases hfound
      have hwaits := h.staged hable i hi hused
      have hnumber : completion.1.offset / QsaPrefetch.pageBytes =
          s.store.pageNumber found.layerSlot (UInt32.ofNat found.block) := by
        have hofNat : (UInt32.ofNat found.block).toNat = found.block :=
          UInt32.toNat_ofNat_of_lt' (Nat.lt_trans (hblock ▸ hwaits.block) (Nat.lt_trans h.blocks (by decide)))
        rw [hoffset, QsaPrefetch.Store.pageOffset, Nat.mul_div_cancel _ (by decide), Store.pageNumber, hofNat]
        rfl
      have hsame := hwaits.same version (by rw [htag, ← hread]; exact hfrom) hage
      rw [hlayer, hblock] at hsame
      have hpage : completion.2.bytes = s.store.file (s.store.pageNumber found.layerSlot (UInt32.ofNat found.block)) := by
        rw [hbytes, hnumber]
        exact hsame
      rw [hpage] at hdecode
      have hfresh := hwaits.fresh
      rw [hlayer, hblock] at hfresh
      exact h.right (hlayer ▸ hwaits.layer) hfresh hdecode

theorem decoded_of_mapM {layerSlot : Nat} {blocks : List UInt32} {records : List (List UInt8 × Nat)}
    (hread : (blocks.mapM fun block =>
      s.store.decodePage (s.store.file (s.store.pageNumber layerSlot block)) layerSlot block) = .ok records)
    {block : UInt32} {found : List UInt8 × Nat} (hpair : (block, found) ∈ blocks.zip records) :
    pageRecords s.store.layers (s.store.file (s.store.pageNumber layerSlot block)) layerSlot block = some found := by
  induction blocks generalizing records with
  | nil =>
    cases hpair
  | cons first rest ih =>
    rw [List.mapM_cons] at hread
    cases hfirst : s.store.decodePage (s.store.file (s.store.pageNumber layerSlot first)) layerSlot first with
    | error error =>
      rw [hfirst] at hread
      cases hread
    | ok answer =>
      rw [hfirst] at hread
      cases hrest : rest.mapM fun block =>
          s.store.decodePage (s.store.file (s.store.pageNumber layerSlot block)) layerSlot block with
      | error error =>
        rw [hrest] at hread
        cases hread
      | ok answers =>
        rw [hrest] at hread
        obtain rfl := Except.ok.inj hread
        rcases List.mem_cons.mp hpair with heq | hmem
        · obtain ⟨rfl, rfl⟩ := Prod.mk.inj heq
          rw [Store.decodePage] at hfirst
          split at hfirst
          · cases hfirst
          next hfound => rw [hfound, Except.ok.inj hfirst]
        · exact ih hrest hmem

theorem Steady.perform (h : s.Steady) {call : Call} (hsafe : s.Safe call) (hhonest : (s.perform call).2.Honest) :
    (s.perform call).2.Steady ∧ ∀ one ∈ (s.perform call).1, (s.perform call).2.Right one := by
  cases call with
  | writeBlock layerSlot block records =>
    refine ⟨?_, fun _ hone => (nomatch hone)⟩
    rw [Staging.perform]
    rcases writeBlock_ok h.blocks layerSlot block records with ⟨error, hwrite⟩ | ⟨after, hwrite, hwrote⟩
    · rw [hwrite]
      exact h.refused
    · rw [hwrite]
      exact h.wroteBlocks hwrote fun write hmem => List.mem_singleton.mp hmem ▸ hsafe
  | writeBlocks layerSlot writes =>
    refine ⟨?_, fun _ hone => (nomatch hone)⟩
    rw [Staging.perform]
    rcases writeBlocks_ok h.blocks layerSlot writes with ⟨error, hwrite⟩ | ⟨after, hwrite, hwrote⟩
    · rw [hwrite]
      exact h.refused
    · rw [hwrite]
      apply h.wroteBlocks hwrote
      intro write hmem
      obtain ⟨pair, hpair, rfl⟩ := List.mem_map.mp hmem
      exact hsafe pair hpair
  | reset script => exact ⟨h.reset script, fun _ hone => (nomatch hone)⟩
  | readBlock layerSlot block =>
    refine ⟨h, fun one hone => ?_⟩
    rw [Staging.perform] at hone
    rw [Store.readBlock] at hone
    split at hone
    next records hread =>
      split at hread
      · cases hread
      next hinside =>
        rw [not_or, Nat.not_le] at hinside
        obtain rfl := List.mem_singleton.mp hone
        apply h.right hinside.1 hsafe
        rw [Store.decodePage] at hread
        split at hread
        · cases hread
        next found hfound => rw [hfound, Except.ok.inj hread]
    · cases hone
  | readBlocks layerSlot blocks =>
    refine ⟨h, fun one hone => ?_⟩
    rw [Staging.perform] at hone
    rw [Store.readBlocks.eq_def] at hone
    split at hone
    next records hread =>
      split at hread
      · cases hread
      next hinside =>
        rw [not_or, Nat.not_le] at hinside
        split at hread
        · cases hread
        · cases hread
        · obtain ⟨⟨block, found⟩, hpair, rfl⟩ := List.mem_map.mp hone
          apply h.right hinside.1 (hsafe block (List.of_mem_zip hpair).1)
          exact decoded_of_mapM hread hpair
    · cases hone
  | prefetch layerSlot blocks flush => exact ⟨h.prefetch flush hsafe, fun _ hone => (nomatch hone)⟩
  | reap layerSlot capacity => exact h.reap layerSlot capacity hhonest
  | cancel script => exact ⟨h.cancel script, fun _ hone => (nomatch hone)⟩
  | kernel i outcome => exact ⟨h.kernel i outcome, fun _ hone => (nomatch hone)⟩

theorem Steady.faithful (h : s.Steady) {calls : List Call} (hserved : s.Served calls) (hcareful : s.Careful calls) :
    s.Faithful calls := by
  induction calls generalizing s with
  | nil => exact h.readable
  | cons call rest ih =>
    have hhonest : (s.perform call).2.Honest := by
      cases rest with
      | nil => exact hserved.2
      | cons next later => exact hserved.2.1
    obtain ⟨hsteady, hright⟩ := h.perform hcareful.1 hhonest
    exact ⟨h.readable, hright, ih hsteady hserved.2 hcareful.2⟩

theorem start_steady {layers : List UInt8} {maxContext : UInt32} {io : Io} {store : Store}
    (hcreate : Store.create layers maxContext io = .ok store) (pool : Nat → ByteBlock) (hasRing : Bool) (sqEntries : Nat) :
    (start store pool hasRing sqEntries).Steady := by
  obtain ⟨-, -, -, hwithin, htokens⟩ := Store.create_eq hcreate
  refine ⟨hwithin.blocks_toNat.2.1, fun layerSlot _ block hpos => ?_, ⟨[], QsaPrefetch.openState_inv _ _ _⟩, rfl,
    fun hnone => ?_, rfl, fun _ _ _ hused => absurd rfl hused⟩
  · replace hpos : 0 < held (store.layerTokens layerSlot) block := hpos
    rw [htokens, held_zero] at hpos
    exact absurd hpos (Nat.lt_irrefl 0)
  · show (!hasRing) = true
    rw [show hasRing = false from hnone]
    rfl

theorem perform_readBlock {answer : List UInt8 × Nat} {layerSlot : Nat} {block : UInt32}
    (h : s.store.readBlock layerSlot block none = .ok answer) :
    (s.perform (.readBlock layerSlot block)).1 = [⟨layerSlot, block, answer⟩] := by
  rw [perform, h]

theorem Steady.reset_stale (h : s.Steady) (script : List (List (Nat × Outcome ByteBlock))) {layerSlot : Nat}
    {block : UInt32} (hslot : layerSlot < s.store.layers.length)
    (hbelow : block.toNat * compressRatio < (s.store.layerTokens layerSlot).toNat) :
    ∃ one ∈ ((s.perform (.reset script)).2.perform (.readBlock layerSlot block)).1,
      ¬((s.perform (.reset script)).2.perform (.readBlock layerSlot block)).2.Right one := by
  obtain ⟨hinside, records, -, hpage⟩ := h.filed.readBlock hslot hbelow
  have hfile : (s.store.reset .ok).2.file (s.store.pageNumber layerSlot block) =
      s.store.file (s.store.pageNumber layerSlot block) := by
    apply Scatter.scatter_of_not_mem
    intro write hwrite
    rw [List.mem_singleton.mp hwrite]
    exact (s.store.pageNumber_ne_zero _ _).symm
  have hrecords : pageRecords (s.store.reset .ok).2.layers
      ((s.store.reset .ok).2.file ((s.store.reset .ok).2.pageNumber layerSlot block)) layerSlot block =
        some (padded records, records.length) := (congrArg (pageRecords _ · _ _) hfile).trans hpage
  have hread : (s.perform (.reset script)).2.store.readBlock layerSlot block none =
      .ok (padded records, records.length) := by
    show (s.store.reset .ok).2.readBlock layerSlot block none = _
    rw [Store.readBlock, if_neg, Store.decodePage]
    · rw [hrecords]
    · rintro (hover | hover)
      · exact absurd hslot (Nat.not_lt_of_le hover)
      · exact absurd hinside (UInt32.not_lt.mpr hover)
  refine ⟨⟨layerSlot, block, padded records, records.length⟩, ?_, fun hright => absurd hright.1 (Nat.not_lt_zero _)⟩
  rw [perform_readBlock hread]
  exact List.mem_singleton_self _

end Staging

/-- Over every run of a new store whose I/O succeeds, every block below a frontier is read back with the records of its
last write, and so is what a read or a reap returns, as long as reads and hints ask for blocks below the frontier or
never written, and no block is written while a page of it waits in the pool. -/
theorem read_your_writes {layers : List UInt8} {maxContext : UInt32} {store : Store}
    (hcreate : Store.create layers maxContext .ok = .ok store) (pool : Nat → ByteBlock) (hasRing : Bool) (sqEntries : Nat)
    (calls : List Call) (hserved : (Staging.start store pool hasRing sqEntries).Served calls)
    (hcareful : (Staging.start store pool hasRing sqEntries).Careful calls) :
    (Staging.start store pool hasRing sqEntries).Faithful calls :=
  (Staging.start_steady hcreate pool hasRing sqEntries).faithful hserved hcareful

def smallStore : Store :=
  ((⟨[3], 8, 2, fun _ => 0, fun _ => ByteBlock.zeros, true⟩ : Store).writeFileHeader .ok).2

theorem smallStore_create : Store.create [3] 8 .ok = .ok smallStore := rfl

def zeroRecord : Record := .replicate Wire.tokenRecordBytes 0

/-- A new store without read-ahead. -/
def smallStart : Staging := .start smallStore (fun _ => ByteBlock.zeros) false 0

theorem smallStart_careful (block : UInt32) (records : List Record) (s : Staging) (hoff : s.pool.disabled = true) :
    s.Safe (.writeBlock 0 block records) := fun hable => absurd (hoff.symm.trans hable) Bool.noConfusion

theorem smallStart_honest {s : Staging} (hdone : s.pool.done = []) : s.Honest := by
  intro completion hmem
  rw [hdone] at hmem
  cases hmem

/-- After a reset a read still returns the record that was written before it. -/
theorem read_after_reset : smallStart.Served [.writeBlock 0 0 [zeroRecord], .reset [], .readBlock 0 0] ∧
    ¬smallStart.Faithful [.writeBlock 0 0 [zeroRecord], .reset [], .readBlock 0 0] := by
  have hstart := Staging.start_steady smallStore_create (fun _ => ByteBlock.zeros) false 0
  have hserved : smallStart.Served [.writeBlock 0 0 [zeroRecord], .reset [], .readBlock 0 0] :=
    ⟨smallStart_honest rfl, smallStart_honest rfl, smallStart_honest rfl, smallStart_honest rfl⟩
  refine ⟨hserved, fun hfaithful => ?_⟩
  have hsteady := (hstart.perform (smallStart_careful 0 [zeroRecord] _ rfl) hserved.2.1).1
  obtain ⟨one, hone, hwrong⟩ := @Staging.Steady.reset_stale _ hsteady [] 0 0 (by decide) (by decide)
  exact hwrong (hfaithful.2.2.2.2.2.1 one hone)

/-- A block that is read below the frontier. -/
theorem read_your_writes_small : smallStart.Faithful [.writeBlock 0 0 [zeroRecord], .readBlock 0 0] :=
  read_your_writes smallStore_create (fun _ => ByteBlock.zeros) false 0 _
    ⟨smallStart_honest rfl, smallStart_honest rfl, smallStart_honest rfl⟩
    ⟨smallStart_careful 0 [zeroRecord] _ rfl, .inl (by decide), trivial⟩

end FlashGordon.QsaStateFile
