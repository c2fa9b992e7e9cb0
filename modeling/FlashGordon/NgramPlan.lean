import FlashGordon.NgramStore
import FlashGordon.Align

/-!
`fg_ngram_plan_reads` in the words of the source: 64-bit offsets, one index that runs over the sorted
blocks, a read appended at every turn. On a table whose padding does not wrap it plans what `planReads`
does, and the plan covers the blocks of the addresses exactly.
-/

namespace FlashGordon.Ngram

open Checks List

/-- `fg_ngram_read`. -/
structure PlannedRead where
  offset : UInt64
  bytes : UInt32
  deriving DecidableEq

def PlannedRead.toRead (read : PlannedRead) : Read := ⟨read.offset.toNat, read.bytes.toNat⟩

def block64 : UInt64 := 4096

/-- `addresses[i]&~(uint64_t)(FG_NGRAM_BLOCK_BYTES-1u)`. -/
def blockOf64 (address : UInt64) : UInt64 := address &&& ~~~(block64 - 1)

/-- The loop over the sorted blocks; `n` reads are planned already. -/
def planLoop (padded : UInt64) (capacity : Nat) : List UInt64 → Nat → Except Error (List PlannedRead)
  | [], _ => .ok []
  | off :: rest, n =>
    let after := rest.dropWhile (· == off)
    let pair := after.head? == some (off + block64)
    let bytes : UInt32 := if pair then 8192 else 4096
    let left := if pair then after.dropWhile (· == off + block64) else after
    if padded < off + bytes.toUInt64 then .error ⟨.format, "n-gram direct-read plan exceeds padded table"⟩
    else if capacity ≤ n then .error ⟨.limit, "n-gram read plan exceeds capacity"⟩
    else do
      let reads ← planLoop padded capacity left (n + 1)
      .ok (⟨off, bytes⟩ :: reads)
termination_by blocks => blocks.length
decreasing_by
  have hafter : (rest.dropWhile (· == off)).length ≤ rest.length := (List.dropWhile_sublist _).length_le
  have hleft : left.length ≤ after.length := by
    simp only [left]
    split
    · exact (List.dropWhile_sublist _).length_le
    · exact Nat.le_refl _
  exact Nat.lt_succ_of_le (Nat.le_trans hleft hafter)

/-- `fg_ngram_plan_reads`. -/
def planReads64 (addresses : List UInt64) (tableBytes : UInt64) (capacity : Nat) : Except Error (List PlannedRead) :=
  if tableBytes = 0 then .error ⟨.argument, "invalid n-gram read planner arguments"⟩
  else if prefillMaxBlocks < addresses.length then
    .error ⟨.limit, "n-gram read planner input exceeds bounded prefill capacity"⟩
  else if addresses.any (tableBytes ≤ ·) then .error ⟨.format, "n-gram address is outside table"⟩
  else planLoop (SealedManifest.alignUp tableBytes block64) capacity ((addresses.map blockOf64).mergeSort (· ≤ ·)) 0

def Read.blocks (read : Read) : List Nat := (List.range (read.bytes / blockBytes)).map fun i => read.offset + blockBytes * i

section Blocks

variable {list : List Nat}

theorem mem_distinct_iff {x : Nat} : x ∈ distinct list ↔ x ∈ list := by
  refine ⟨mem_distinct, fun h => ?_⟩
  induction list using distinct.induct with
  | case1 a rest ih =>
    rw [distinct, if_pos rfl]
    refine ih ?_
    rcases mem_cons.mp h with rfl | hrest
    · exact mem_cons_self
    · exact hrest
  | case2 a b rest hne ih =>
    rw [distinct, if_neg hne]
    rcases mem_cons.mp h with rfl | hrest
    · exact mem_cons_self
    · exact mem_cons_of_mem _ (ih hrest)
  | case3 list hshort =>
    rw [distinct]
    · exact h
    · exact hshort

theorem distinct_sorted (h : list.Pairwise (· ≤ ·)) : (distinct list).Pairwise (· < ·) := by
  induction list using distinct.induct with
  | case1 a rest ih =>
    rw [distinct, if_pos rfl]
    exact ih (pairwise_cons.mp h).2
  | case2 a b rest hne ih =>
    rw [distinct, if_neg hne]
    obtain ⟨ha, hrest⟩ := pairwise_cons.mp h
    refine pairwise_cons.mpr ⟨fun x hx => ?_, ih hrest⟩
    have hab : a < b := Nat.lt_of_le_of_ne (ha b mem_cons_self) hne
    rcases mem_cons.mp (mem_distinct hx) with rfl | hmem
    · exact hab
    · exact Nat.lt_of_lt_of_le hab ((pairwise_cons.mp hrest).1 x hmem)
  | case3 list hshort =>
    rw [distinct]
    · rcases list with _ | ⟨a, _ | ⟨b, rest⟩⟩
      · exact List.Pairwise.nil
      · exact pairwise_singleton _ _
      · exact absurd rfl (hshort a b rest)
    · exact hshort

theorem blocks_one (a : Nat) : Read.blocks ⟨a, blockBytes⟩ = [a] := by
  have hone : blockBytes / blockBytes = 1 := by decide
  rw [Read.blocks, hone]
  rfl

theorem blocks_two (a : Nat) : Read.blocks ⟨a, maxReadBytes⟩ = [a, a + blockBytes] := by
  have htwo : maxReadBytes / blockBytes = 2 := by decide
  rw [Read.blocks, htwo]
  rfl

theorem flatMap_blocks_pairUp (list : List Nat) : (pairUp list).flatMap Read.blocks = list := by
  induction list using pairUp.induct with
  | case1 a rest ih =>
    rw [pairUp, if_pos rfl, flatMap_cons, ih, blocks_two]
    rfl
  | case2 a b rest hne ih =>
    rw [pairUp, if_neg hne, flatMap_cons, ih, blocks_one]
    rfl
  | case3 a => rw [pairUp, flatMap_singleton, blocks_one]
  | case4 => rfl

theorem pairUp_apart (h : list.Pairwise fun a b => a + blockBytes ≤ b) :
    (pairUp list).Pairwise fun read next => read.offset + read.bytes ≤ next.offset := by
  induction list using pairUp.induct with
  | case1 a rest ih =>
    rw [pairUp, if_pos rfl]
    obtain ⟨-, hb⟩ := pairwise_cons.mp h
    obtain ⟨hrest, htail⟩ := pairwise_cons.mp hb
    refine pairwise_cons.mpr ⟨fun next hnext => ?_, ih htail⟩
    have hfirst := hrest _ (of_pairUp next hnext).first
    exact (Nat.add_assoc a blockBytes blockBytes).symm.trans_le hfirst
  | case2 a b rest hne ih =>
    rw [pairUp, if_neg hne]
    obtain ⟨ha, hb⟩ := pairwise_cons.mp h
    exact pairwise_cons.mpr ⟨fun next hnext => ha _ (of_pairUp next hnext).first, ih hb⟩
  | case3 a => exact pairwise_singleton _ _
  | case4 => exact List.Pairwise.nil

theorem apart_of_blocks (h : list.Pairwise (· < ·)) (hblocks : ∀ x ∈ list, x % blockBytes = 0) :
    list.Pairwise fun a b => a + blockBytes ≤ b := by
  refine h.imp_of_mem fun {a b} ha hb hlt => ?_
  have hx := hblocks a ha
  have hy := hblocks b hb
  rw [blockBytes] at hx hy ⊢
  omega

end Blocks

section Loop

theorem distinct_cons (off : Nat) (rest : List Nat) :
    distinct (off :: rest) = off :: distinct (rest.dropWhile (· == off)) := by
  induction rest with
  | nil => rfl
  | cons next rest ih =>
    rw [distinct]
    by_cases h : off = next
    · subst h
      rw [if_pos rfl, ih, dropWhile_cons_of_pos (by simp)]
    · rw [if_neg h, dropWhile_cons_of_neg (by simpa using Ne.symm h)]

theorem pairUp_distinct_cons (off : Nat) (rest : List Nat) :
    let after := rest.dropWhile (· == off)
    pairUp (distinct (off :: rest)) =
      if after.head? = some (off + blockBytes) then
        ⟨off, maxReadBytes⟩ :: pairUp (distinct (after.dropWhile (· == off + blockBytes)))
      else ⟨off, blockBytes⟩ :: pairUp (distinct after) := by
  intro after
  rw [distinct_cons]
  change pairUp (off :: distinct after) = _
  cases after with
  | nil => rfl
  | cons second more =>
    rw [distinct_cons, pairUp]
    by_cases h : second = off + blockBytes
    · rw [if_pos h, if_pos (by rw [List.head?_cons, h]), dropWhile_cons_of_pos (by simpa using h), h]
    · have hhead : (second :: more).head? ≠ some (off + blockBytes) := fun heq => h (Option.some.inj heq)
      rw [if_neg h, if_neg hhead]

theorem map_dropWhile (off : UInt64) (list : List UInt64) :
    (list.dropWhile (· == off)).map UInt64.toNat = (list.map UInt64.toNat).dropWhile (· == off.toNat) := by
  induction list with
  | nil => rfl
  | cons head list ih =>
    by_cases h : head = off
    · rw [dropWhile_cons_of_pos (by simpa using h), map_cons,
        dropWhile_cons_of_pos (by simpa using congrArg UInt64.toNat h), ih]
    · have hne : head.toNat ≠ off.toNat := fun heq => h (UInt64.toNat_inj.mp heq)
      rw [dropWhile_cons_of_neg (by simpa using h), map_cons, dropWhile_cons_of_neg (by simpa using hne)]

/-- Blocks that end before the words do. -/
def Below (list : List UInt64) : Prop := ∀ off ∈ list, off.toNat + blockBytes < 2 ^ 64

theorem Below.sublist {list more : List UInt64} (h : Below more) (hsub : list.Sublist more) : Below list :=
  fun off hoff => h off (hsub.subset hoff)

variable {off : UInt64}

theorem toNat_next (h : off.toNat + blockBytes < 2 ^ 64) : (off + block64).toNat = off.toNat + blockBytes := by
  rw [UInt64.toNat_add]
  exact Nat.mod_eq_of_lt h

theorem toNat_add_bytes {bytes : UInt32} (h : off.toNat + bytes.toNat < 2 ^ 64) :
    (off + bytes.toUInt64).toNat = off.toNat + bytes.toNat := by
  rw [UInt64.toNat_add, UInt32.toNat_toUInt64]
  exact Nat.mod_eq_of_lt h

theorem head_next (h : off.toNat + blockBytes < 2 ^ 64) (after : List UInt64) :
    (after.map UInt64.toNat).head? = some (off.toNat + blockBytes) ↔ after.head? = some (off + block64) := by
  rw [List.head?_map, ← toNat_next h]
  cases after.head? with
  | none => exact ⟨fun heq => (nomatch heq), fun heq => (nomatch heq)⟩
  | some head => rw [Option.map_some, Option.some.injEq, Option.some.injEq, UInt64.toNat_inj]

theorem bind_refines {padded : UInt64} {capacity n : Nat} {read : PlannedRead} {tail : Except Error (List PlannedRead)}
    {reads : List Read} (hfits : (read.offset + read.bytes.toUInt64).toNat = read.offset.toNat + read.bytes.toNat)
    (h : tail.map (List.map PlannedRead.toRead) = (checkReads padded.toNat capacity reads (n + 1)).map fun _ => reads) :
    (if padded < read.offset + read.bytes.toUInt64 then
        (.error ⟨.format, "n-gram direct-read plan exceeds padded table"⟩ : Except Error (List PlannedRead))
      else if capacity ≤ n then .error ⟨.limit, "n-gram read plan exceeds capacity"⟩
      else do
        let more ← tail
        .ok (read :: more)).map (List.map PlannedRead.toRead) =
      (checkReads padded.toNat capacity (read.toRead :: reads) n).map fun _ => read.toRead :: reads := by
  have hover : padded < read.offset + read.bytes.toUInt64 ↔ padded.toNat < read.toRead.offset + read.toRead.bytes := by
    rw [UInt64.lt_iff_toNat_lt, hfits]
    rfl
  rw [checkReads]
  by_cases hout : padded < read.offset + read.bytes.toUInt64
  · rw [if_pos hout, if_pos (hover.mp hout)]
    rfl
  · rw [if_neg hout, if_neg (hover.not.mp hout)]
    by_cases hfull : capacity ≤ n
    · rw [if_pos hfull, if_pos hfull]
      rfl
    · rw [if_neg hfull, if_neg hfull]
      cases tail with
      | error err =>
        cases hcheck : checkReads padded.toNat capacity reads (n + 1) with
        | error err' =>
          rw [hcheck] at h
          exact congrArg Except.error (Except.error.inj h)
        | ok u =>
          rw [hcheck] at h
          cases h
      | ok more =>
        cases hcheck : checkReads padded.toNat capacity reads (n + 1) with
        | error err' =>
          rw [hcheck] at h
          cases h
        | ok u =>
          rw [hcheck] at h
          exact congrArg (fun list => Except.ok (read.toRead :: list)) (Except.ok.inj h)

theorem planLoop_refines {padded : UInt64} {capacity : Nat} {list : List UInt64} {n : Nat} (h : Below list) :
    (planLoop padded capacity list n).map (List.map PlannedRead.toRead) =
      (checkReads padded.toNat capacity (pairUp (distinct (list.map UInt64.toNat))) n).map
        fun _ => pairUp (distinct (list.map UInt64.toNat)) := by
  induction hlength : list.length using Nat.strong_induction_on generalizing list n with
  | _ length ih =>
    cases list with
    | nil =>
      rw [planLoop]
      rfl
    | cons off rest =>
      have hoff := h off mem_cons_self
      have hrest : Below rest := h.sublist (sublist_cons_self _ _)
      have hafter := dropWhile_sublist (· == off) (l := rest)
      have hmap := map_dropWhile off rest
      rw [planLoop, map_cons, pairUp_distinct_cons, ← hmap]
      by_cases hpair : (rest.dropWhile (· == off)).head? = some (off + block64)
      · have hnext : (off + block64).toNat + blockBytes < 2 ^ 64 :=
          hrest _ (hafter.subset (mem_of_mem_head? hpair))
        rw [toNat_next hoff] at hnext
        have hleft := dropWhile_sublist (· == off + block64) (l := rest.dropWhile (· == off))
        have hshort := (hleft.trans hafter).length_le
        rw [if_pos ((head_next hoff _).mpr hpair), ← toNat_next hoff, ← map_dropWhile]
        simp only [hpair, beq_self_eq_true, if_true]
        refine @bind_refines padded capacity n ⟨off, 8192⟩ _ _ ?_ (ih _ ?_ (hrest.sublist (hleft.trans hafter)) rfl)
        · rw [Nat.add_assoc] at hnext
          exact toNat_add_bytes hnext
        · rw [← hlength]
          exact Nat.lt_succ_of_le hshort
      · have hbeq : ((rest.dropWhile (· == off)).head? == some (off + block64)) = false := by simpa using hpair
        rw [if_neg ((head_next hoff _).not.mpr hpair)]
        simp only [hbeq, Bool.false_eq_true, if_false]
        refine @bind_refines padded capacity n ⟨off, 4096⟩ _ _ ?_ (ih _ ?_ (hrest.sublist hafter) rfl)
        · exact toNat_add_bytes hoff
        · rw [← hlength]
          exact Nat.lt_succ_of_le hafter.length_le

end Loop

structure ExactPlan (addresses : List UInt64) (tableBytes : UInt64) (reads : List PlannedRead) : Prop where
  /-- The reads go up and do not meet. -/
  apart : reads.Pairwise fun read next => read.offset.toNat + read.bytes.toNat ≤ next.offset.toNat
  /-- Every read is one aligned block, or two, inside the padded table. -/
  whole : ∀ read ∈ reads, read.offset.toNat % blockBytes = 0 ∧
    (read.bytes.toNat = blockBytes ∨ read.bytes.toNat = maxReadBytes) ∧
    read.offset.toNat + read.bytes.toNat ≤ (SealedManifest.alignUp tableBytes block64).toNat
  /-- The blocks read are those of the addresses, each once. -/
  once : (reads.flatMap fun read => read.toRead.blocks).Nodup
  covers : ∀ block, block ∈ reads.flatMap (fun read => read.toRead.blocks) ↔ ∃ address ∈ addresses, blockOf address.toNat = block

section Plan

variable {addresses : List UInt64} {tableBytes : UInt64}

theorem toNat_blockOf64 (address : UInt64) : (blockOf64 address).toNat = blockOf address.toNat :=
  SealedManifest.toNat_mask (k := 12) rfl

theorem map_sorted_blocks : ((addresses.map blockOf64).mergeSort (· ≤ ·)).map UInt64.toNat =
    ((addresses.map UInt64.toNat).map blockOf).mergeSort (· ≤ ·) := by
  have hblocks : (addresses.map blockOf64).map UInt64.toNat = (addresses.map UInt64.toNat).map blockOf := by
    rw [map_map, map_map]
    exact map_congr_left fun address _ => toNat_blockOf64 address
  rw [← hblocks]
  exact map_mergeSort fun _ _ _ _ => decide_eq_decide.mpr UInt64.le_iff_toNat_le

theorem toNat_padded (h : tableBytes.toNat + blockBytes ≤ 2 ^ 64) :
    (SealedManifest.alignUp tableBytes block64).toNat = alignUp tableBytes.toNat :=
  SealedManifest.toNat_alignUp (k := 12) rfl h

theorem planReads64_refines {capacity : Nat} (htable : tableBytes.toNat + blockBytes ≤ 2 ^ 64) :
    (planReads64 addresses tableBytes capacity).map (List.map PlannedRead.toRead) =
      planReads (addresses.map UInt64.toNat) tableBytes.toNat capacity := by
  have hzero : tableBytes = 0 ↔ tableBytes.toNat = 0 := UInt64.toNat_inj.symm
  have hany : addresses.any (tableBytes ≤ ·) = (addresses.map UInt64.toNat).any (tableBytes.toNat ≤ ·) := by
    rw [any_map]
    rfl
  rw [planReads64, planReads, length_map, ← hany]
  by_cases hempty : tableBytes = 0
  · rw [if_pos hempty, if_pos (hzero.mp hempty)]
    rfl
  rw [if_neg hempty, if_neg (hzero.not.mp hempty)]
  by_cases hlong : prefillMaxBlocks < addresses.length
  · rw [if_pos hlong, if_pos hlong]
    rfl
  rw [if_neg hlong, if_neg hlong]
  by_cases hout : addresses.any (tableBytes ≤ ·) = true
  · rw [if_pos hout, if_pos hout]
    rfl
  rw [if_neg hout, if_neg hout]
  have hbelow : Below ((addresses.map blockOf64).mergeSort (· ≤ ·)) := by
    intro off hoff
    obtain ⟨address, haddress, rfl⟩ := mem_map.mp (mem_mergeSort.mp hoff)
    have hinside : address.toNat < tableBytes.toNat := by
      have hnot := hout
      rw [any_eq_true, not_exists] at hnot
      exact UInt64.lt_iff_toNat_lt.mp (UInt64.not_le.mp fun hle => hnot address ⟨haddress, decide_eq_true hle⟩)
    have hblock : blockOf address.toNat ≤ address.toNat := Nat.div_mul_le_self _ _
    rw [toNat_blockOf64]
    omega
  rw [planLoop_refines hbelow, map_sorted_blocks, toNat_padded htable]

theorem toRead_injective : Function.Injective PlannedRead.toRead := fun a b h => by
  obtain ⟨hoffset, hbytes⟩ := Read.mk.inj h
  obtain ⟨offset, bytes⟩ := a
  obtain rfl := UInt64.toNat_inj.mp hoffset
  obtain rfl := UInt32.toNat_inj.mp hbytes
  rfl

theorem exactPlan_of_planFor {reads : List PlannedRead} (htable : tableBytes.toNat + blockBytes ≤ 2 ^ 64)
    (hinside : ∀ address ∈ addresses, address < tableBytes)
    (h : reads.map PlannedRead.toRead = planFor (addresses.map UInt64.toNat)) : ExactPlan addresses tableBytes reads := by
  let blocks := distinct (((addresses.map UInt64.toNat).map blockOf).mergeSort (· ≤ ·))
  have hmem (block : Nat) : block ∈ blocks ↔ ∃ address ∈ addresses, blockOf address.toNat = block := by
    rw [mem_distinct_iff, mem_mergeSort, map_map, mem_map]
    rfl
  have hsorted : blocks.Pairwise (· < ·) := by
    refine distinct_sorted ((pairwise_mergeSort ?_ ?_ _).imp of_decide_eq_true)
    · intro a b c hab hbc
      exact decide_eq_true ((of_decide_eq_true hab).trans (of_decide_eq_true hbc))
    · intro a b
      rw [Bool.or_eq_true, decide_eq_true_eq, decide_eq_true_eq]
      exact Nat.le_total a b
  have hblocks : ∀ block ∈ blocks, block % blockBytes = 0 := by
    intro block hblock
    obtain ⟨address, -, rfl⟩ := (hmem block).mp hblock
    exact blockOf_mod _
  have hcover : (reads.flatMap fun read => read.toRead.blocks) = blocks := by
    rw [← flatMap_map (f := PlannedRead.toRead), h]
    exact flatMap_blocks_pairUp blocks
  have hreads : ∀ read ∈ reads, read.toRead ∈ planFor (addresses.map UInt64.toNat) := fun read hread =>
    h ▸ mem_map_of_mem hread
  constructor
  case apart =>
    have hpairs : (reads.map PlannedRead.toRead).Pairwise fun read next => read.offset + read.bytes ≤ next.offset := by
      rw [h]
      exact pairUp_apart (apart_of_blocks hsorted hblocks)
    exact pairwise_map.mp hpairs
  case whole =>
    intro read hread
    have hof := planned (hreads read hread)
    obtain ⟨address, -, hoffset⟩ := mem_map.mp hof.first
    refine ⟨?_, hof.bytes, ?_⟩
    · change read.toRead.offset % blockBytes = 0
      rw [← hoffset]
      exact blockOf_mod _
    · rw [toNat_padded htable]
      refine planFor_inside (fun a ha => ?_) _ (hreads read hread)
      obtain ⟨address', haddress', rfl⟩ := mem_map.mp ha
      exact UInt64.lt_iff_toNat_lt.mp (hinside address' haddress')
  case once =>
    rw [hcover]
    exact hsorted.imp Nat.ne_of_lt
  case covers =>
    intro block
    rw [hcover, hmem]

/-- Every list of addresses the planner takes, inside a table, is planned exactly. -/
theorem planReads64_exact (hlength : addresses.length ≤ prefillMaxBlocks) (hne : tableBytes ≠ 0)
    (htable : tableBytes.toNat + blockBytes ≤ 2 ^ 64) (hinside : ∀ address ∈ addresses, address < tableBytes) :
    ∃ reads, ExactPlan addresses tableBytes reads ∧ reads.length ≤ addresses.length ∧
      ∀ capacity, reads.length ≤ capacity → planReads64 addresses tableBytes capacity = .ok reads := by
  have hall (capacity : Nat) (hcapacity : (planFor (addresses.map UInt64.toNat)).length ≤ capacity) :
      ∃ reads, planReads64 addresses tableBytes capacity = .ok reads ∧
        reads.map PlannedRead.toRead = planFor (addresses.map UInt64.toNat) := by
    have hplan : planReads (addresses.map UInt64.toNat) tableBytes.toNat capacity =
        .ok (planFor (addresses.map UInt64.toNat)) := by
      refine planReads_eq (by rwa [length_map]) hcapacity (fun hzero => hne (UInt64.toNat_inj.mp hzero)) fun a ha => ?_
      obtain ⟨address, haddress, rfl⟩ := mem_map.mp ha
      exact UInt64.lt_iff_toNat_lt.mp (hinside address haddress)
    rw [← planReads64_refines htable] at hplan
    cases hrun : planReads64 addresses tableBytes capacity with
    | error err =>
      rw [hrun] at hplan
      nomatch hplan
    | ok reads =>
      rw [hrun] at hplan
      exact ⟨reads, rfl, Except.ok.inj hplan⟩
  obtain ⟨reads, hrun, hreads⟩ := hall _ (Nat.le_refl _)
  have hlen : reads.length = (planFor (addresses.map UInt64.toNat)).length := by rw [← hreads, length_map]
  refine ⟨reads, exactPlan_of_planFor htable hinside hreads, ?_, fun capacity hcapacity => ?_⟩
  · have hle := planFor_length_le (addresses.map UInt64.toNat)
    rwa [length_map, ← hlen] at hle
  · obtain ⟨reads', hrun', hreads'⟩ := hall capacity (hlen ▸ hcapacity)
    rw [hrun', map_injective_iff.mpr toRead_injective (hreads'.trans hreads.symm)]

end Plan

theorem planReads64_exact_six : ∃ reads, ExactPlan [9000, 2, 4097, 4100, 16000, 8191] 32768 reads ∧ reads.length ≤ 6 ∧
    ∀ capacity, reads.length ≤ capacity →
      planReads64 [9000, 2, 4097, 4100, 16000, 8191] 32768 capacity = .ok reads :=
  planReads64_exact (by decide) (by decide) (by decide) (by simp)

/-- One address more than the planner takes. -/
theorem planReads64_too_many : (∀ address ∈ List.replicate 32769 (0 : UInt64), address < 4096) ∧
    ∀ capacity, planReads64 (List.replicate 32769 0) 4096 capacity =
      .error ⟨.limit, "n-gram read planner input exceeds bounded prefill capacity"⟩ := by
  refine ⟨fun address haddress => ?_, fun capacity => ?_⟩
  · rw [eq_of_mem_replicate haddress]
    decide
  · have hne : (4096 : UInt64) ≠ 0 := by decide
    have hlong : prefillMaxBlocks < (List.replicate 32769 (0 : UInt64)).length := by
      rw [length_replicate]
      decide
    rw [planReads64, if_neg hne, if_pos hlong]

end FlashGordon.Ngram
