import FlashGordon.QsaStateFile

/-! Reads of the state file. A page is read back with its records when its header names the layer and the block and
its checksum is right; nothing in it says when it was written. What a write leaves is said for the blocks of its
layer: the pages it filled, and the others as they were. -/

namespace FlashGordon.QsaStateFile

open ByteBlock Function

def padding (records : Nat) : List UInt8 := List.replicate ((compressRatio - records) * Wire.tokenRecordBytes) 0

def padded (records : List Record) : List UInt8 := bytesOf records ++ padding records.length

def pageRecords (layers : List UInt8) (page : ByteBlock) (layerSlot : Nat) (block : UInt32) :
    Option (List UInt8 × Nat) :=
  let count := page.getU32 16
  let bytes := (count * UInt32.ofNat Wire.tokenRecordBytes).toNat
  if page.getU32 0 ≠ pageMagic ∨ page.getU32 4 ≠ pageVersion ∨ page.getU32 8 ≠ (layers.getD layerSlot 0).toUInt32 ∨
      page.getU32 12 ≠ block ∨ count = 0 ∨ UInt32.ofNat compressRatio < count ∨
      page.getU32 20 ≠ crc32c (page.slice pageHeaderBytes bytes) then none
  else some (page.slice pageHeaderBytes bytes ++ padding count.toNat, count.toNat)

namespace Store

def pageMismatch (s : Store) (page : ByteBlock) (layerSlot : Nat) (block : UInt32) : Error :=
  ⟨.mismatch, s!"stale, torn, or corrupt QSA state page layer={s.layers.getD layerSlot 0} block={block} " ++
    s!"frontier={s.layerTokens layerSlot} want_layer={page.getU32 8} want_block={page.getU32 12} " ++
    s!"magic={page.getU32 0} version={page.getU32 4} count={page.getU32 16} crc={page.getU32 20}"⟩

def decodePage (s : Store) (page : ByteBlock) (layerSlot : Nat) (block : UInt32) : Except Error (List UInt8 × Nat) :=
  match pageRecords s.layers page layerSlot block with
  | none => .error (s.pageMismatch page layerSlot block)
  | some records => .ok records

/-- `fg_qsa_state_read_block`. -/
def readBlock (s : Store) (layerSlot : Nat) (block : UInt32) (io : Option Error) : Except Error (List UInt8 × Nat) :=
  if s.layers.length ≤ layerSlot ∨ s.blocksPerLayer ≤ block then .error ⟨.argument, "invalid QSA state read"⟩
  else
    match io with
    | some error => .error error
    | none => s.decodePage (s.file (s.pageNumber layerSlot block)) layerSlot block

/-- `fg_qsa_state_read_blocks`. -/
def readBlocks (s : Store) (layerSlot : Nat) (blocks : List UInt32) (io : Option Error) :
    Except Error (List (List UInt8 × Nat)) :=
  if s.layers.length ≤ layerSlot ∨ blocks = [] ∨ maxSelectedBlocks < blocks.length then
    .error ⟨.argument, "invalid QSA state read batch"⟩
  else
    match blocks.find? fun block => s.blocksPerLayer ≤ block, io with
    | some block, _ => .error ⟨.argument, s!"QSA state block {block} is out of range"⟩
    | none, some error => .error error
    | none, none => blocks.mapM fun block => s.decodePage (s.file (s.pageNumber layerSlot block)) layerSlot block

end Store

theorem bytesOf_length (records : List Record) : (bytesOf records).length = records.length * Wire.tokenRecordBytes := by
  rw [bytesOf, List.length_flatMap]
  simp only [Vector.length_toList]
  rw [List.map_const', List.sum_replicate_nat]

theorem pageRecords_encodePage (s : Store) (layerSlot : Nat) (block : UInt32) {records : List Record}
    (hpos : 0 < records.length) (hle : records.length ≤ compressRatio) :
    pageRecords s.layers (s.encodePage layerSlot block records) layerSlot block =
      some (padded records, records.length) := by
  have hheader : pageHeaderBytes = 32 := rfl
  have hcount : (UInt32.ofNat records.length).toNat = records.length :=
    UInt32.toNat_ofNat_of_lt' (Nat.lt_of_le_of_lt hle (by decide))
  have hbytes : (UInt32.ofNat records.length * UInt32.ofNat Wire.tokenRecordBytes).toNat = (bytesOf records).length := by
    rw [UInt32.toNat_mul, hcount, bytesOf_length]
    apply Nat.mod_eq_of_lt
    calc records.length * Wire.tokenRecordBytes ≤ compressRatio * Wire.tokenRecordBytes := Nat.mul_le_mul_right _ hle
      _ < 2 ^ 32 := by decide
  obtain ⟨hmagic, hversion, hlayer, hblock, hrecords⟩ :
      (s.encodePage layerSlot block records).getU32 0 = pageMagic ∧
      (s.encodePage layerSlot block records).getU32 4 = pageVersion ∧
      (s.encodePage layerSlot block records).getU32 8 = (s.layers.getD layerSlot 0).toUInt32 ∧
      (s.encodePage layerSlot block records).getU32 12 = block ∧
      (s.encodePage layerSlot block records).getU32 16 = UInt32.ofNat records.length := by
    refine ⟨?_, ?_, ?_, ?_, ?_⟩ <;>
      simp (disch := omega) only [Store.encodePage, getU32_putU32_of_disjoint, getU32_put_of_disjoint, getU32_putU32]
  have hslice : (s.encodePage layerSlot block records).slice pageHeaderBytes (bytesOf records).length =
      bytesOf records := by
    rw [Store.encodePage, slice_putU32_of_disjoint (by omega), slice_put_self]
  have hsum : (s.encodePage layerSlot block records).getU32 20 = crc32c (bytesOf records) := by
    rw [Store.encodePage, getU32_putU32]
  rw [pageRecords, hmagic, hversion, hlayer, hblock, hrecords, hsum, hbytes, hslice, if_neg, hcount]
  · rfl
  · rintro (h | h | h | h | h | h | h)
    · exact h rfl
    · exact h rfl
    · exact h rfl
    · exact h rfl
    · rw [← UInt32.toNat_inj, hcount] at h
      exact absurd h (Nat.pos_iff_ne_zero.mp hpos)
    · rw [UInt32.lt_iff_toNat_lt, hcount] at h
      exact absurd hle (Nat.not_le_of_lt h)
    · exact h rfl

theorem pageNumber_inj {s : Store} {layerSlot other : Nat} {block otherBlock : UInt32}
    (hblock : block < s.blocksPerLayer) (hother : otherBlock < s.blocksPerLayer)
    (h : s.pageNumber layerSlot block = s.pageNumber other otherBlock) : layerSlot = other ∧ block = otherBlock := by
  rw [UInt32.lt_iff_toNat_lt] at hblock hother
  rw [Store.pageNumber, Store.pageNumber] at h
  have hpos := Nat.zero_lt_of_lt hblock
  have hnumber : layerSlot * s.blocksPerLayer.toNat + block.toNat = other * s.blocksPerLayer.toNat + otherBlock.toNat := by
    omega
  have hdiv := congrArg (· / s.blocksPerLayer.toNat) hnumber
  have hmod := congrArg (· % s.blocksPerLayer.toNat) hnumber
  rw [Nat.add_comm, Nat.add_mul_div_right _ _ hpos, Nat.div_eq_of_lt hblock, Nat.zero_add, Nat.add_comm (_ * _),
    Nat.add_mul_div_right _ _ hpos, Nat.div_eq_of_lt hother, Nat.zero_add] at hdiv
  rw [Nat.mul_add_mod_self_right, Nat.mod_eq_of_lt hblock, Nat.mul_add_mod_self_right, Nat.mod_eq_of_lt hother] at hmod
  exact ⟨hdiv, UInt32.toNat_inj.mp hmod⟩

def held (tokens : UInt32) (block : UInt32) : Nat := min compressRatio (tokens.toNat - block.toNat * compressRatio)

theorem held_eq (tokens block : UInt32) : held tokens block = min 4 (tokens.toNat - block.toNat * 4) := rfl

theorem held_pos {tokens block : UInt32} : 0 < held tokens block ↔ block.toNat * compressRatio < tokens.toNat := by
  rw [held_eq, compressRatio]
  omega

/-- A call has written pages of a layer, and their blocks have the records that the new frontier says. -/
structure Wrote (s after : Store) (layerSlot : Nat) (writes : List (UInt32 × List Record)) : Prop where
  slot : layerSlot < s.layers.length
  layers : after.layers = s.layers
  blocks : after.blocksPerLayer = s.blocksPerLayer
  others : ∀ i ≠ layerSlot, after.layerTokens i = s.layerTokens i
  grows : ∀ block, held (s.layerTokens layerSlot) block ≤ held (after.layerTokens layerSlot) block
  nodup : (writes.map Prod.fst).Nodup
  inside : ∀ write ∈ writes, write.1 < s.blocksPerLayer
  counts : ∀ write ∈ writes, 0 < write.2.length ∧ write.2.length = held (after.layerTokens layerSlot) write.1
  kept : ∀ block ∉ writes.map Prod.fst, held (after.layerTokens layerSlot) block = held (s.layerTokens layerSlot) block
  file : ∀ number ≠ 0, after.file number = Scatter.scatter Prod.fst (fun write _ => write.2)
    (writes.map fun write => (s.pageNumber layerSlot write.1, s.encodePage layerSlot write.1 write.2)) s.file number

theorem Store.commit_ok_file (s : Store) (layerSlot : Nat) (tokens : UInt32) (pages : List (Nat × ByteBlock)) {number : Nat}
    (hnumber : number ≠ 0) : (s.commit layerSlot tokens pages .ok .ok).2.file number =
      Scatter.scatter Prod.fst (fun write _ => write.2) pages s.file number := by
  show Scatter.scatter Prod.fst (fun write _ => write.2) [(0, _)]
    (Scatter.scatter Prod.fst (fun write _ => write.2) pages s.file) number = _
  exact Scatter.scatter_of_not_mem fun write hwrite => List.mem_singleton.mp hwrite ▸ hnumber.symm

theorem writeBlock_ok {s : Store} (hblocks : s.blocksPerLayer.toNat < 2 ^ 30) (layerSlot : Nat) (block : UInt32)
    (records : List Record) : (∃ error, s.writeBlock layerSlot block records .ok .ok = (.error error, s)) ∨
      ∃ after, s.writeBlock layerSlot block records .ok .ok = (.ok (), after) ∧
        Wrote s after layerSlot [(block, records)] := by
  rw [Store.writeBlock]
  split
  · exact .inl ⟨_, rfl⟩
  next harguments =>
    rw [not_or, not_or, not_or, Nat.not_le, UInt32.not_le, Nat.not_lt] at harguments
    obtain ⟨hslot, hinside, hpos, hle⟩ := harguments
    dsimp only
    split
    · exact .inl ⟨_, rfl⟩
    next hfrontier =>
      rw [not_or, not_or, not_not, UInt32.not_lt, UInt32.not_lt] at hfrontier
      obtain ⟨hcurrent, hgrows, -⟩ := hfrontier
      have hratio : (UInt32.ofNat compressRatio).toNat = 4 := rfl
      have hcount : (UInt32.ofNat records.length).toNat = records.length :=
        UInt32.toNat_ofNat_of_lt' (Nat.lt_of_le_of_lt hle (by decide))
      have hsmall : block.toNat + 1 < 2 ^ 30 := Nat.lt_of_le_of_lt (UInt32.lt_iff_toNat_lt.mp hinside) hblocks
      have hfour : compressRatio = 4 := rfl
      have hlast : (block * UInt32.ofNat compressRatio + UInt32.ofNat records.length).toNat =
          block.toNat * 4 + records.length := by
        rw [UInt32.toNat_add, UInt32.toNat_mul, hratio, hcount]
        omega
      rw [← UInt32.toNat_inj, UInt32.toNat_div, hratio] at hcurrent
      rw [UInt32.le_iff_toNat_le, hlast] at hgrows
      refine .inr ⟨_, rfl, ⟨hslot, rfl, rfl, fun i hi => update_of_ne hi _ _, ?_, List.nodup_singleton _, ?_, ?_,
        ?_, fun number hnumber => s.commit_ok_file layerSlot _ _ hnumber⟩⟩
      · intro other
        show held _ other ≤ held (update s.layerTokens layerSlot _ layerSlot) other
        rw [update_self, held_eq, held_eq, hlast]
        omega
      · intro write hwrite
        rw [List.mem_singleton.mp hwrite]
        exact hinside
      · intro write hwrite
        obtain rfl := List.mem_singleton.mp hwrite
        refine ⟨Nat.pos_of_ne_zero hpos, ?_⟩
        show records.length = held (update s.layerTokens layerSlot _ layerSlot) block
        rw [update_self, held_eq, hlast]
        omega
      · intro other hother
        have hne : other ≠ block := fun heq => hother (List.mem_singleton.mpr heq)
        rw [ne_eq, ← UInt32.toNat_inj] at hne
        show held (update s.layerTokens layerSlot _ layerSlot) other = _
        rw [update_self, held_eq, held_eq, hlast]
        omega

theorem writeBlocks_ok {s : Store} (hblocks : s.blocksPerLayer.toNat < 2 ^ 30) (layerSlot : Nat)
    (writes : List (UInt32 × Vector Record compressRatio)) :
    (∃ error, s.writeBlocks layerSlot writes .ok .ok = (.error error, s)) ∨
      ∃ after, s.writeBlocks layerSlot writes .ok .ok = (.ok (), after) ∧
        Wrote s after layerSlot (writes.map fun write => (write.1, write.2.toList)) := by
  rw [Store.writeBlocks]
  split
  · exact .inl ⟨_, rfl⟩
  next harguments =>
    rw [not_or, not_or, Nat.not_lt, Nat.not_le] at harguments
    obtain ⟨-, hn, hslot⟩ := harguments
    dsimp only
    split
    · exact .inl ⟨_, rfl⟩
    next hfrontier =>
      rw [not_or, not_or, not_not, UInt32.not_lt, UInt32.not_lt] at hfrontier
      obtain ⟨haligned, hfirst, hcount⟩ := hfrontier
      split
      · exact .inl ⟨_, rfl⟩
      next hconsecutive =>
        rw [not_not] at hconsecutive
        obtain ⟨hmod, hroom, htokens⟩ := Store.batch_toNat hblocks hn haligned hfirst hcount
        have hratio : (UInt32.ofNat compressRatio).toNat = 4 := rfl
        have hnumber : ∀ i < writes.length,
            (s.layerTokens layerSlot / UInt32.ofNat compressRatio + UInt32.ofNat i).toNat =
              (s.layerTokens layerSlot).toNat / 4 + i := by
          intro i hi
          have hofNat : (UInt32.ofNat i).toNat = i :=
            UInt32.toNat_ofNat_of_lt' (Nat.lt_trans hi (Nat.lt_of_le_of_lt hn (by decide)))
          rw [UInt32.toNat_add, UInt32.toNat_div, hratio, hofNat]
          omega
        have hmem : ∀ block, block ∈ writes.map Prod.fst ↔
            (s.layerTokens layerSlot).toNat / 4 ≤ block.toNat ∧
              block.toNat < (s.layerTokens layerSlot).toNat / 4 + writes.length := by
          intro block
          rw [hconsecutive, List.mem_map]
          constructor
          · rintro ⟨i, hi, rfl⟩
            rw [List.mem_range] at hi
            rw [hnumber i hi]
            omega
          · rintro ⟨hle, hlt⟩
            refine ⟨block.toNat - (s.layerTokens layerSlot).toNat / 4, List.mem_range.mpr (by omega), ?_⟩
            rw [← UInt32.toNat_inj, hnumber _ (by omega)]
            omega
        have hfst : (writes.map fun write => (write.1, write.2.toList)).map Prod.fst = writes.map Prod.fst := by
          rw [List.map_map]
          rfl
        have hafter : ∀ other, held (update s.layerTokens layerSlot (s.layerTokens layerSlot +
            UInt32.ofNat writes.length * UInt32.ofNat compressRatio) layerSlot) other =
            min 4 ((s.layerTokens layerSlot).toNat + writes.length * 4 - other.toNat * 4) := by
          intro other
          rw [update_self, held_eq, htokens]
        refine .inr ⟨_, rfl, ⟨hslot, rfl, rfl, fun i hi => update_of_ne hi _ _, ?_, ?_, ?_, ?_, ?_,
          fun number hne => ?_⟩⟩
        · intro other
          refine Nat.le_trans ?_ (Nat.le_of_eq (hafter other).symm)
          rw [held_eq]
          omega
        · rw [hfst, hconsecutive]
          apply List.Nodup.map_on _ List.nodup_range
          intro i hi j hj heq
          have hnat := congrArg UInt32.toNat heq
          rw [hnumber i (List.mem_range.mp hi), hnumber j (List.mem_range.mp hj)] at hnat
          exact Nat.add_left_cancel hnat
        · intro write hwrite
          have hblock := (hmem write.1).mp (hfst ▸ List.mem_map_of_mem hwrite)
          rw [UInt32.lt_iff_toNat_lt]
          omega
        · intro write hwrite
          have hblock := (hmem write.1).mp (hfst ▸ List.mem_map_of_mem hwrite)
          obtain ⟨pair, -, rfl⟩ := List.mem_map.mp hwrite
          have hlength : pair.2.toList.length = 4 := Vector.length_toList
          refine ⟨hlength ▸ Nat.succ_pos 3, hlength.trans (Eq.trans ?_ (hafter pair.1).symm)⟩
          dsimp only at hblock
          omega
        · intro other hother
          rw [hfst, hmem] at hother
          refine (hafter other).trans ?_
          rw [held_eq]
          omega
        · rw [List.map_map]
          exact s.commit_ok_file layerSlot _ _ hne

end FlashGordon.QsaStateFile
