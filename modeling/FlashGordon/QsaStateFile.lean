import FlashGordon.ByteBlock
import FlashGordon.WirePages

/-! The state file of `qsa_state.c`: a header page with the frontier of every layer, and behind it the pages of the
layers, a fixed number each. A page is written with its header and the checksum of its records, and after it the
file header with the layer's new frontier. A write that fails leaves anything in the pages it was to fill. -/

namespace FlashGordon.QsaStateFile

open ByteBlock

/-- `FG_Q38_QSA_STATE_PAGE_BYTES`. -/
def pageBytes : Nat := 8192

/-- `FG_Q38_QSA_COMPRESS_RATIO`. -/
def compressRatio : Nat := 4

/-- `FG_QSA_MAX_SELECTED_BLOCKS`. -/
def maxSelectedBlocks : Nat := 512

def pageMagic : UInt32 := 0x31534151

def pageVersion : UInt32 := 2

/-- `FG_QSA_PAGE_HEADER_BYTES`. -/
def pageHeaderBytes : Nat := 32

def fileMagic : UInt32 := 0x31534651

def fileVersion : UInt32 := 2

/-- `FG_QSA_FILE_CRC_OFFSET`. -/
def fileCrcOffset : Nat := 400

/-- The shift of `crc32c_portable`, with its polynomial. -/
def crcBit (crc : UInt32) : UInt32 := (crc >>> 1) ^^^ (0x82f63b78 &&& (0 - (crc &&& 1)))

def crcByte (crc : UInt32) (byte : UInt8) : UInt32 :=
  (List.range 8).foldl (fun crc _ => crcBit crc) (crc ^^^ byte.toUInt32)

/-- `fg_crc32c`. -/
def crc32c (bytes : List UInt8) : UInt32 := ~~~(bytes.foldl crcByte (~~~0))

abbrev Record := Vector UInt8 Wire.tokenRecordBytes

def bytesOf (records : List Record) : List UInt8 := records.flatMap Vector.toList

/-- `fg_qsa_state`, with its file as an array of pages. `headerTorn` says that the last write of the file header
failed, which the store itself does not know. -/
structure Store where
  layers : List UInt8
  maxContext : UInt32
  blocksPerLayer : UInt32
  layerTokens : Nat → UInt32
  file : Nat → ByteBlock
  headerTorn : Bool

/-- How a write ends: with its pages in the file, or with an error and anything in their place. -/
inductive Io where
  | ok
  | failed (error : Error) (left : Nat → ByteBlock)

namespace Store

/-- `page_offset`, as the number of the page. -/
def pageNumber (s : Store) (layerSlot : Nat) (block : UInt32) : Nat :=
  1 + layerSlot * s.blocksPerLayer.toNat + block.toNat

/-- `fg_uring_pwrite` and `fg_uring_pwrite_batch`. -/
def pwrite (s : Store) (writes : List (Nat × ByteBlock)) : Io → Except Error Unit × Store
  | .ok => (.ok (), { s with file := Scatter.scatter Prod.fst (fun write _ => write.2) writes s.file })
  | .failed error left =>
    (.error error, { s with file := fun number => if number ∈ writes.map Prod.fst then left number else s.file number })

def putLayer (s : Store) (page : ByteBlock) (i : Nat) : ByteBlock :=
  (page.putU32 (16 + i * 8) (s.layers.getD i 0).toUInt32).putU32 (20 + i * 8) (s.layerTokens i)

def encodeFileHeader (s : Store) : ByteBlock :=
  let page := (((zeros.putU32 0 fileMagic).putU32 4 fileVersion).putU32 8 (UInt32.ofNat s.layers.length)).putU32 12
    s.maxContext
  let page := (List.range s.layers.length).foldl s.putLayer page
  page.putU32 fileCrcOffset (crc32c (page.slice 0 fileCrcOffset))

def writeFileHeader (s : Store) (io : Io) : Except Error Unit × Store :=
  let (answer, s) := s.pwrite [(0, s.encodeFileHeader)] io
  (answer, { s with headerTorn := answer.toBool = false })

/-- A layer of the header is not the store's, or has more tokens than fit. -/
def layerMismatch (s : Store) (page : ByteBlock) (i : Nat) : Bool :=
  page.getU32 (16 + i * 8) ≠ (s.layers.getD i 0).toUInt32 ∨ s.maxContext < page.getU32 (20 + i * 8)

def readFileHeader (s : Store) : Except Error Store :=
  let page := s.file 0
  if page.getU32 0 ≠ fileMagic ∨ page.getU32 4 ≠ fileVersion ∨ page.getU32 8 ≠ UInt32.ofNat s.layers.length ∨
      page.getU32 12 ≠ s.maxContext ∨ page.getU32 fileCrcOffset ≠ crc32c (page.slice 0 fileCrcOffset) then
    .error ⟨.mismatch, "stale, torn, or corrupt QSA state header"⟩
  else if (List.range s.layers.length).any (s.layerMismatch page) then
    .error ⟨.mismatch, "QSA state identity or committed length mismatch"⟩
  else .ok { s with layerTokens := fun i => if i < s.layers.length then page.getU32 (20 + i * 8) else 0 }

def encodePage (s : Store) (layerSlot : Nat) (block : UInt32) (records : List Record) : ByteBlock :=
  let page := (((zeros.putU32 0 pageMagic).putU32 4 pageVersion).putU32 8 (s.layers.getD layerSlot 0).toUInt32).putU32
    12 block
  let page := (page.putU32 16 (UInt32.ofNat records.length)).put pageHeaderBytes (bytesOf records)
  page.putU32 20 (crc32c (bytesOf records))

/-- How both writes end: with the pages, and after them the header with the layer's new frontier. -/
def commit (s : Store) (layerSlot : Nat) (tokens : UInt32) (pages : List (Nat × ByteBlock)) (pagesIo headerIo : Io) :
    Except Error Unit × Store :=
  match s.pwrite pages pagesIo with
  | (.error error, s) => (.error error, s)
  | (.ok (), s) => { s with layerTokens := Function.update s.layerTokens layerSlot tokens }.writeFileHeader headerIo

/-- `fg_qsa_state_write_block`. -/
def writeBlock (s : Store) (layerSlot : Nat) (block : UInt32) (records : List Record) (pageIo headerIo : Io) :
    Except Error Unit × Store :=
  if s.layers.length ≤ layerSlot ∨ s.blocksPerLayer ≤ block ∨ records.length = 0 ∨ compressRatio < records.length then
    (.error ⟨.argument, "invalid QSA state write"⟩, s)
  else
    let current := s.layerTokens layerSlot
    let last := block * UInt32.ofNat compressRatio + UInt32.ofNat records.length
    if block ≠ current / UInt32.ofNat compressRatio ∨ last < current ∨ s.maxContext < last then
      (.error ⟨.mismatch, "non-contiguous QSA state write"⟩, s)
    else
      s.commit layerSlot last [(s.pageNumber layerSlot block, s.encodePage layerSlot block records)] pageIo headerIo

/-- `fg_qsa_state_write_blocks`, for blocks with the four records of each. -/
def writeBlocks (s : Store) (layerSlot : Nat) (writes : List (UInt32 × Vector Record compressRatio))
    (pagesIo headerIo : Io) : Except Error Unit × Store :=
  if writes = [] ∨ maxSelectedBlocks < writes.length ∨ s.layers.length ≤ layerSlot then
    (.error ⟨.argument, "invalid QSA state write batch"⟩, s)
  else
    let current := s.layerTokens layerSlot
    let first := current / UInt32.ofNat compressRatio
    let count := UInt32.ofNat writes.length
    if current % UInt32.ofNat compressRatio ≠ 0 ∨ s.blocksPerLayer < first ∨ s.blocksPerLayer - first < count then
      (.error ⟨.mismatch, "QSA state write batch frontier is not page aligned"⟩, s)
    else if writes.map Prod.fst ≠ (List.range writes.length).map fun i => first + UInt32.ofNat i then
      (.error ⟨.mismatch, "non-contiguous QSA state write batch"⟩, s)
    else
      let pages := writes.map fun write =>
        (s.pageNumber layerSlot write.1, s.encodePage layerSlot write.1 write.2.toList)
      s.commit layerSlot (current + count * UInt32.ofNat compressRatio) pages pagesIo headerIo

/-- `fg_qsa_state_reset` without its read-ahead. -/
def reset (s : Store) (headerIo : Io) : Except Error Unit × Store :=
  { s with layerTokens := fun _ => 0 }.writeFileHeader headerIo

/-- The checks that `fg_qsa_state_open` makes of its arguments. -/
def validArguments (layers : List UInt8) (maxContext : UInt32) : Except Error Unit :=
  if layers = [] ∨ layerCount < layers.length ∨ maxContext = 0 then
    .error ⟨.argument, "invalid QSA state open arguments"⟩
  else if layers.any (fun layer => layerCount ≤ layer.toNat ∨ layer &&& 3 ≠ 3) ∨ ¬layers.Nodup then
    .error ⟨.argument, "invalid QSA layer list"⟩
  else .ok ()

/-- `fg_qsa_state_open` for a new file, which is made of zeros. -/
def create (layers : List UInt8) (maxContext : UInt32) (headerIo : Io) : Except Error Store := do
  validArguments layers maxContext
  let s : Store := ⟨layers, maxContext, (maxContext + 3) / 4, fun _ => 0, fun _ => zeros, true⟩
  match s.writeFileHeader headerIo with
  | (.error error, _) => .error error
  | (.ok (), s) => .ok s

/-- `fg_qsa_state_open` for the file of a store that was closed, with the same arguments. -/
def reopen (s : Store) (io : Option Error) : Except Error Store :=
  match validArguments s.layers s.maxContext, io with
  | .error error, _ => .error error
  | .ok (), some error => .error error
  | .ok (), none => readFileHeader { s with blocksPerLayer := (s.maxContext + 3) / 4, layerTokens := fun _ => 0 }

variable {s : Store}

theorem getU32_putLayers (s : Store) (page : ByteBlock) (n : Nat) {offset : Nat}
    (h : offset + 4 ≤ 16 ∨ 16 + n * 8 ≤ offset) :
    ((List.range n).foldl s.putLayer page).getU32 offset = page.getU32 offset := by
  induction n with
  | zero => rfl
  | succ n ih =>
    rw [List.range_succ, List.foldl_append, List.foldl_cons, List.foldl_nil, putLayer,
      getU32_putU32_of_disjoint (by omega), getU32_putU32_of_disjoint (by omega), ih (by omega)]

theorem putLayers_layer (s : Store) (page : ByteBlock) {n i : Nat} (hi : i < n) :
    ((List.range n).foldl s.putLayer page).getU32 (16 + i * 8) = (s.layers.getD i 0).toUInt32 ∧
      ((List.range n).foldl s.putLayer page).getU32 (20 + i * 8) = s.layerTokens i := by
  induction n with
  | zero => exact absurd hi (Nat.not_lt_zero i)
  | succ n ih =>
    rw [List.range_succ, List.foldl_append, List.foldl_cons, List.foldl_nil, putLayer]
    rcases Nat.lt_succ_iff_lt_or_eq.mp hi with hlt | rfl
    · simp (disch := omega) only [getU32_putU32_of_disjoint]
      exact ih hlt
    · rw [getU32_putU32_of_disjoint (by omega), getU32_putU32, getU32_putU32]
      exact ⟨rfl, rfl⟩

structure HeaderOf (s : Store) (page : ByteBlock) : Prop where
  magic : page.getU32 0 = fileMagic
  version : page.getU32 4 = fileVersion
  count : page.getU32 8 = UInt32.ofNat s.layers.length
  context : page.getU32 12 = s.maxContext
  checksum : page.getU32 fileCrcOffset = crc32c (page.slice 0 fileCrcOffset)
  layer : ∀ i < s.layers.length, page.getU32 (16 + i * 8) = (s.layers.getD i 0).toUInt32
  tokens : ∀ i < s.layers.length, page.getU32 (20 + i * 8) = s.layerTokens i

theorem encodeFileHeader_spec (hlayers : s.layers.length ≤ layerCount) : HeaderOf s s.encodeFileHeader := by
  have hcrc : fileCrcOffset = 400 := rfl
  have hcount : layerCount = 48 := rfl
  constructor
  iterate 4 simp (disch := omega) only [encodeFileHeader, getU32_putU32_of_disjoint, getU32_putLayers, getU32_putU32]
  · rw [encodeFileHeader, getU32_putU32, slice_putU32_of_disjoint (by omega)]
  · intro i hi
    rw [encodeFileHeader, getU32_putU32_of_disjoint (by omega)]
    exact (putLayers_layer s _ hi).1
  · intro i hi
    rw [encodeFileHeader, getU32_putU32_of_disjoint (by omega)]
    exact (putLayers_layer s _ hi).2

theorem readFileHeader_of {t : Store} (hheader : HeaderOf t (s.file 0)) (hlayers : t.layers = s.layers)
    (hcontext : t.maxContext = s.maxContext) (htokens : ∀ i < s.layers.length, t.layerTokens i ≤ s.maxContext) :
    s.readFileHeader = .ok { s with layerTokens := fun i => if i < s.layers.length then t.layerTokens i else 0 } := by
  have hmismatch : (List.range s.layers.length).any (s.layerMismatch (s.file 0)) = false := by
    rw [List.any_eq_false]
    intro i hi
    rw [List.mem_range] at hi
    rw [layerMismatch, hheader.layer i (hlayers ▸ hi), hheader.tokens i (hlayers ▸ hi), hlayers, decide_eq_true_eq]
    rintro (hlayer | hlt)
    · exact hlayer rfl
    · exact absurd (htokens i hi) (UInt32.not_le.mpr hlt)
  rw [readFileHeader, hheader.magic, hheader.version, hheader.count, hheader.context, hheader.checksum, hlayers, hcontext,
    if_neg (by simp), hmismatch, if_neg Bool.false_ne_true]
  congr 2
  funext i
  split
  next hi => exact hheader.tokens i (hlayers ▸ hi)
  next => rfl

/-- No layer has more tokens than the context, in memory and in a header that is not torn. -/
structure Within (s : Store) : Prop where
  layers : s.layers.length ≤ layerCount
  blocks : s.blocksPerLayer = (s.maxContext + 3) / 4
  tokens : ∀ i < s.layers.length, s.layerTokens i ≤ s.maxContext
  header : s.headerTorn = false → ∃ t : Store, t.layers = s.layers ∧ t.maxContext = s.maxContext ∧
    (∀ i < s.layers.length, t.layerTokens i ≤ s.maxContext) ∧ s.file 0 = t.encodeFileHeader

theorem pwrite_zero (s : Store) {writes : List (Nat × ByteBlock)} (h : ∀ write ∈ writes, write.1 ≠ 0) (io : Io) :
    (s.pwrite writes io).2.file 0 = s.file 0 := by
  cases io with
  | ok => exact Scatter.scatter_of_not_mem h
  | failed error left =>
    show (if 0 ∈ writes.map Prod.fst then left 0 else s.file 0) = s.file 0
    rw [if_neg]
    rintro hmem
    obtain ⟨write, hwrite, hzero⟩ := List.mem_map.mp hmem
    exact h write hwrite hzero

theorem pageNumber_ne_zero (s : Store) (layerSlot : Nat) (block : UInt32) : s.pageNumber layerSlot block ≠ 0 := by
  rw [pageNumber]
  omega

theorem Within.writeFileHeader (hlayers : s.layers.length ≤ layerCount)
    (hblocks : s.blocksPerLayer = (s.maxContext + 3) / 4) (htokens : ∀ i < s.layers.length, s.layerTokens i ≤ s.maxContext)
    (io : Io) : (s.writeFileHeader io).2.Within := by
  cases io with
  | ok =>
    refine ⟨hlayers, hblocks, htokens, fun _ => ⟨s, rfl, rfl, htokens, ?_⟩⟩
    show Scatter.scatter Prod.fst (fun write _ => write.2) [(0, s.encodeFileHeader)] s.file 0 = _
    rw [Scatter.scatter, Scatter.scatter_nil, Function.update_self]
  | failed error left => exact ⟨hlayers, hblocks, htokens, fun htorn => by cases htorn⟩

theorem pwrite_frame (s : Store) (writes : List (Nat × ByteBlock)) (io : Io) :
    ∃ file, (s.pwrite writes io).2 = { s with file := file } := by
  cases io with
  | ok => exact ⟨_, rfl⟩
  | failed error left => exact ⟨_, rfl⟩

section

variable (h : s.Within)
include h

theorem Within.pwrite {writes : List (Nat × ByteBlock)} (hpages : ∀ write ∈ writes, write.1 ≠ 0)
    (io : Io) : (s.pwrite writes io).2.Within := by
  have hzero := s.pwrite_zero hpages io
  obtain ⟨file, heq⟩ := s.pwrite_frame writes io
  rw [heq] at hzero ⊢
  refine ⟨h.layers, h.blocks, h.tokens, fun htorn => ?_⟩
  obtain ⟨t, hlayers, hcontext, htokens, hheader⟩ := h.header htorn
  exact ⟨t, hlayers, hcontext, htokens, hzero.trans hheader⟩

theorem Within.setTokens {layerSlot : Nat} {tokens : UInt32} (htokens : tokens ≤ s.maxContext)
    (io : Io) :
    ({ s with layerTokens := Function.update s.layerTokens layerSlot tokens }.writeFileHeader io).2.Within := by
  have hwithin := @Within.writeFileHeader
    { s with layerTokens := Function.update s.layerTokens layerSlot tokens } h.layers h.blocks
  refine hwithin (fun i hi => ?_) io
  show Function.update s.layerTokens layerSlot tokens i ≤ s.maxContext
  rw [Function.update_apply]
  split
  · exact htokens
  · exact h.tokens i hi

theorem Within.commit {layerSlot : Nat} {tokens : UInt32} {pages : List (Nat × ByteBlock)}
    (hpages : ∀ page ∈ pages, page.1 ≠ 0) (htokens : tokens ≤ s.maxContext) (pagesIo headerIo : Io) :
    (s.commit layerSlot tokens pages pagesIo headerIo).2.Within := by
  have hpwrite := h.pwrite hpages pagesIo
  obtain ⟨file, heq⟩ := s.pwrite_frame pages pagesIo
  rw [Store.commit]
  split
  next error after hanswer =>
    rw [hanswer] at hpwrite
    exact hpwrite
  next after hanswer =>
    rw [hanswer] at hpwrite heq
    subst heq
    exact hpwrite.setTokens htokens headerIo

theorem Within.writeBlock (layerSlot : Nat) (block : UInt32) (records : List Record)
    (pageIo headerIo : Io) : (s.writeBlock layerSlot block records pageIo headerIo).2.Within := by
  rw [Store.writeBlock]
  split
  · exact h
  · dsimp only
    split
    · exact h
    next hlast =>
      have hwithin := UInt32.not_lt.mp fun hover => hlast (.inr (.inr hover))
      apply h.commit _ hwithin
      intro page hpage
      rw [List.mem_singleton.mp hpage]
      exact s.pageNumber_ne_zero _ _

theorem Within.blocks_toNat : s.blocksPerLayer.toNat * 4 ≤ s.maxContext.toNat + 3 ∧
    s.blocksPerLayer.toNat < 2 ^ 30 ∧ (2 ^ 32 - 4 < s.maxContext.toNat → s.blocksPerLayer.toNat = 0) ∧
    (s.maxContext.toNat ≤ 2 ^ 32 - 4 → s.blocksPerLayer.toNat = (s.maxContext.toNat + 3) / 4) := by
  have hsum := UInt32.toNat_add s.maxContext 3
  have hlt := s.maxContext.toNat_lt
  rw [h.blocks, UInt32.toNat_div, hsum]
  show (s.maxContext.toNat + 3) % 2 ^ 32 / 4 * 4 ≤ _ ∧ (s.maxContext.toNat + 3) % 2 ^ 32 / 4 < _ ∧
    (_ → (s.maxContext.toNat + 3) % 2 ^ 32 / 4 = 0) ∧ (_ → (s.maxContext.toNat + 3) % 2 ^ 32 / 4 = _)
  omega

end

theorem batch_toNat (hblocks : s.blocksPerLayer.toNat < 2 ^ 30) {current : UInt32} {n : Nat} (hn : n ≤ maxSelectedBlocks)
    (haligned : current % UInt32.ofNat compressRatio = 0)
    (hfirst : current / UInt32.ofNat compressRatio ≤ s.blocksPerLayer)
    (hcount : UInt32.ofNat n ≤ s.blocksPerLayer - current / UInt32.ofNat compressRatio) :
    current.toNat % 4 = 0 ∧ current.toNat / 4 + n ≤ s.blocksPerLayer.toNat ∧
      (current + UInt32.ofNat n * UInt32.ofNat compressRatio).toNat = current.toNat + n * 4 := by
  have hsize : n < 2 ^ 32 := Nat.lt_of_le_of_lt hn (by decide)
  have hratio : (UInt32.ofNat compressRatio).toNat = 4 := rfl
  have hofNat : (UInt32.ofNat n).toNat = n := UInt32.toNat_ofNat_of_lt' hsize
  rw [← UInt32.toNat_inj, UInt32.toNat_mod, hratio] at haligned
  replace haligned : current.toNat % 4 = 0 := haligned
  rw [UInt32.le_iff_toNat_le, UInt32.toNat_sub_of_le _ _ hfirst, UInt32.toNat_div, hratio, hofNat] at hcount
  rw [UInt32.le_iff_toNat_le, UInt32.toNat_div, hratio] at hfirst
  rw [UInt32.toNat_add, UInt32.toNat_mul, hofNat, hratio]
  omega

section

variable (h : s.Within)
include h

theorem Within.batch_within {current : UInt32} {n : Nat} (hpos : 0 < n) (hn : n ≤ maxSelectedBlocks)
    (haligned : current % UInt32.ofNat compressRatio = 0)
    (hfirst : current / UInt32.ofNat compressRatio ≤ s.blocksPerLayer)
    (hcount : UInt32.ofNat n ≤ s.blocksPerLayer - current / UInt32.ofNat compressRatio)
    (hwhole : s.maxContext % 4 ≠ 0 → s.maxContext.toNat ≤ 2 ^ 32 - 4 →
      current / UInt32.ofNat compressRatio + UInt32.ofNat (n - 1) ≠ s.maxContext / 4) :
    current + UInt32.ofNat n * UInt32.ofNat compressRatio ≤ s.maxContext := by
  have hblocks := h.blocks_toNat
  obtain ⟨hmod, hroom, htokens⟩ := batch_toNat hblocks.2.1 hn haligned hfirst hcount
  have hratio : (UInt32.ofNat compressRatio).toNat = 4 := rfl
  have hpred : (UInt32.ofNat (n - 1)).toNat = n - 1 :=
    UInt32.toNat_ofNat_of_lt' (Nat.lt_of_le_of_lt (Nat.sub_le n 1) (Nat.lt_of_le_of_lt hn (by decide)))
  rw [ne_eq, ne_eq, ← UInt32.toNat_inj, ← UInt32.toNat_inj, UInt32.toNat_mod, UInt32.toNat_add, UInt32.toNat_div,
    UInt32.toNat_div, hratio, hpred] at hwhole
  replace hwhole : s.maxContext.toNat % 4 ≠ 0 → s.maxContext.toNat ≤ 2 ^ 32 - 4 →
    (current.toNat / 4 + (n - 1)) % 2 ^ 32 ≠ s.maxContext.toNat / 4 := hwhole
  rw [UInt32.le_iff_toNat_le, htokens]
  omega

theorem Within.writeBlocks (layerSlot : Nat) (writes : List (UInt32 × Vector Record compressRatio))
    (pagesIo headerIo : Io) (hwhole : s.maxContext % 4 ≠ 0 → s.maxContext.toNat ≤ 2 ^ 32 - 4 →
      ∀ write ∈ writes, write.1 ≠ s.maxContext / 4) :
    (s.writeBlocks layerSlot writes pagesIo headerIo).2.Within := by
  rw [Store.writeBlocks]
  split
  · exact h
  next harguments =>
    dsimp only
    split
    · exact h
    next hfrontier =>
      split
      · exact h
      next hblocks =>
        rw [not_not] at hblocks
        have hn : writes.length ≤ maxSelectedBlocks :=
          Nat.le_of_not_lt fun hover => harguments (.inr (.inl hover))
        have hpos : 0 < writes.length := List.length_pos_iff.mpr fun hnil => harguments (.inl hnil)
        have haligned : s.layerTokens layerSlot % UInt32.ofNat compressRatio = 0 :=
          of_not_not fun hne => hfrontier (.inl hne)
        have hfirst := UInt32.not_lt.mp fun hover => hfrontier (.inr (.inl hover))
        have hcount := UInt32.not_lt.mp fun hover => hfrontier (.inr (.inr hover))
        have hlast : s.maxContext % 4 ≠ 0 → s.maxContext.toNat ≤ 2 ^ 32 - 4 →
            s.layerTokens layerSlot / UInt32.ofNat compressRatio + UInt32.ofNat (writes.length - 1) ≠
              s.maxContext / 4 := by
          intro hpart hfits
          have hmem : s.layerTokens layerSlot / UInt32.ofNat compressRatio + UInt32.ofNat (writes.length - 1) ∈
              writes.map Prod.fst := by
            rw [hblocks]
            exact List.mem_map_of_mem (List.mem_range.mpr (Nat.sub_lt hpos Nat.one_pos))
          obtain ⟨write, hwrite, heq⟩ := List.mem_map.mp hmem
          rw [← heq]
          exact hwhole hpart hfits write hwrite
        have hwithin := h.batch_within hpos hn haligned hfirst hcount hlast
        apply h.commit _ hwithin
        intro page hpage
        obtain ⟨write, -, rfl⟩ := List.mem_map.mp hpage
        exact s.pageNumber_ne_zero _ _

theorem Within.reset (headerIo : Io) : (s.reset headerIo).2.Within := by
  have hwithin := @Within.writeFileHeader { s with layerTokens := fun _ => 0 } h.layers h.blocks
  exact hwithin (fun _ _ => UInt32.zero_le) headerIo

theorem Within.reopen {io : Option Error} {t : Store} (hopen : s.reopen io = .ok t) : t.Within := by
  rw [Store.reopen.eq_def] at hopen
  split at hopen
  · cases hopen
  · cases hopen
  · rw [readFileHeader] at hopen
    split at hopen
    · cases hopen
    · split at hopen
      · cases hopen
      next hmatch =>
        obtain rfl := Except.ok.inj hopen
        refine ⟨h.layers, rfl, fun i hi => ?_, h.header⟩
        rw [List.any_eq_true] at hmatch
        dsimp only
        rw [if_pos hi]
        apply UInt32.not_lt.mp
        intro hlt
        exact hmatch ⟨i, List.mem_range.mpr hi, decide_eq_true (.inr hlt)⟩

theorem Within.reopens (hvalid : validArguments s.layers s.maxContext = .ok ())
    (htorn : s.headerTorn = false) : ∃ t, s.reopen none = .ok t := by
  obtain ⟨t, hlayers, hcontext, htokens, hfile⟩ := h.header htorn
  have hheader : HeaderOf t (s.file 0) := hfile ▸ encodeFileHeader_spec (hlayers ▸ h.layers)
  have hread := @readFileHeader_of { s with blocksPerLayer := (s.maxContext + 3) / 4, layerTokens := fun _ => 0 }
    t hheader hlayers hcontext htokens
  rw [Store.reopen.eq_def, hvalid]
  exact ⟨_, hread⟩

end

theorem validArguments_layers {layers : List UInt8} {maxContext : UInt32}
    (h : validArguments layers maxContext = .ok ()) : layers.length ≤ layerCount := by
  rw [validArguments] at h
  split at h
  · cases h
  next hvalid => exact Nat.le_of_not_lt fun hover => hvalid (.inr (.inl hover))

theorem create_eq {layers : List UInt8} {maxContext : UInt32} {headerIo : Io}
    (h : create layers maxContext headerIo = .ok s) :
    validArguments layers maxContext = .ok () ∧ s.layers = layers ∧ s.maxContext = maxContext ∧ s.Within ∧
      s.layerTokens = fun _ => 0 := by
  rw [create] at h
  cases hvalid : validArguments layers maxContext with
  | error error =>
    rw [hvalid] at h
    cases h
  | ok _ =>
    rw [hvalid] at h
    have hwithin := @Within.writeFileHeader
      ⟨layers, maxContext, (maxContext + 3) / 4, fun _ => 0, fun _ => zeros, true⟩ (validArguments_layers hvalid) rfl
      (fun _ _ => UInt32.zero_le) headerIo
    cases headerIo with
    | failed error left => cases h
    | ok =>
      obtain rfl := Except.ok.inj h
      exact ⟨rfl, rfl, rfl, hwithin, rfl⟩

end Store

/-- A call on the store, or a close followed by an open with the same arguments. -/
inductive Action where
  | writeBlock (layerSlot : Nat) (block : UInt32) (records : List Record) (pageIo headerIo : Io)
  | writeBlocks (layerSlot : Nat) (writes : List (UInt32 × Vector Record compressRatio)) (pagesIo headerIo : Io)
  | reset (headerIo : Io)
  | reopen (io : Option Error)

/-- The store, and whether its last open succeeded. -/
structure System where
  store : Store
  isOpen : Bool

/-- A store that did not open is not called, but can be opened again. -/
def System.step (sys : System) : Action → System
  | .reopen io =>
    match sys.store.reopen io with
    | .ok store => ⟨store, true⟩
    | .error _ => ⟨sys.store, false⟩
  | .writeBlock layerSlot block records pageIo headerIo =>
    if sys.isOpen then ⟨(sys.store.writeBlock layerSlot block records pageIo headerIo).2, true⟩ else sys
  | .writeBlocks layerSlot writes pagesIo headerIo =>
    if sys.isOpen then ⟨(sys.store.writeBlocks layerSlot writes pagesIo headerIo).2, true⟩ else sys
  | .reset headerIo => if sys.isOpen then ⟨(sys.store.reset headerIo).2, true⟩ else sys

def System.exec (sys : System) (actions : List Action) : System := actions.foldl System.step sys

/-- The frontiers are inside the context, and a header that the store wrote whole opens again. -/
structure System.Accepted (sys : System) : Prop where
  memory : sys.isOpen → ∀ i < sys.store.layers.length, sys.store.layerTokens i ≤ sys.store.maxContext
  persisted : sys.store.headerTorn = false → ∀ i < sys.store.layers.length,
    (sys.store.file 0).getU32 (20 + i * 8) ≤ sys.store.maxContext
  reopens : sys.store.headerTorn = false → ∃ t, sys.store.reopen none = .ok t

/-- A batch leaves out the last block of a context that is no multiple of four. (From `2 ^ 32 - 3` on a context has
no block.) -/
def Action.Whole (maxContext : UInt32) : Action → Prop
  | .writeBlocks _ writes _ _ => maxContext % 4 ≠ 0 → maxContext.toNat ≤ 2 ^ 32 - 4 →
      ∀ write ∈ writes, write.1 ≠ maxContext / 4
  | _ => True

structure System.Steady (sys : System) (layers : List UInt8) (maxContext : UInt32) : Prop where
  within : sys.store.Within
  layers : sys.store.layers = layers
  context : sys.store.maxContext = maxContext

theorem Store.writeFileHeader_same (s : Store) (io : Io) :
    (s.writeFileHeader io).2.layers = s.layers ∧ (s.writeFileHeader io).2.maxContext = s.maxContext := by
  cases io with
  | ok => exact ⟨rfl, rfl⟩
  | failed error left => exact ⟨rfl, rfl⟩

theorem Store.commit_same (s : Store) (layerSlot : Nat) (tokens : UInt32) (pages : List (Nat × ByteBlock))
    (pagesIo headerIo : Io) : (s.commit layerSlot tokens pages pagesIo headerIo).2.layers = s.layers ∧
      (s.commit layerSlot tokens pages pagesIo headerIo).2.maxContext = s.maxContext := by
  obtain ⟨file, heq⟩ := s.pwrite_frame pages pagesIo
  rw [Store.commit]
  split
  next error after hanswer =>
    rw [hanswer] at heq
    subst heq
    exact ⟨rfl, rfl⟩
  next after hanswer =>
    rw [hanswer] at heq
    subst heq
    exact Store.writeFileHeader_same _ headerIo

theorem Store.writeBlock_same (s : Store) (layerSlot : Nat) (block : UInt32) (records : List Record)
    (pageIo headerIo : Io) : (s.writeBlock layerSlot block records pageIo headerIo).2.layers = s.layers ∧
      (s.writeBlock layerSlot block records pageIo headerIo).2.maxContext = s.maxContext := by
  rw [Store.writeBlock]
  split
  · exact ⟨rfl, rfl⟩
  · dsimp only
    split
    · exact ⟨rfl, rfl⟩
    · exact s.commit_same _ _ _ pageIo headerIo

theorem Store.writeBlocks_same (s : Store) (layerSlot : Nat) (writes : List (UInt32 × Vector Record compressRatio))
    (pagesIo headerIo : Io) : (s.writeBlocks layerSlot writes pagesIo headerIo).2.layers = s.layers ∧
      (s.writeBlocks layerSlot writes pagesIo headerIo).2.maxContext = s.maxContext := by
  rw [Store.writeBlocks]
  split
  · exact ⟨rfl, rfl⟩
  · dsimp only
    split
    · exact ⟨rfl, rfl⟩
    · split
      · exact ⟨rfl, rfl⟩
      · exact s.commit_same _ _ _ pagesIo headerIo

theorem Store.reopen_same {s t : Store} {io : Option Error} (h : s.reopen io = .ok t) :
    t.layers = s.layers ∧ t.maxContext = s.maxContext := by
  rw [Store.reopen.eq_def] at h
  split at h
  · cases h
  · cases h
  · rw [Store.readFileHeader] at h
    split at h
    · cases h
    · split at h
      · cases h
      · obtain rfl := Except.ok.inj h
        exact ⟨rfl, rfl⟩

variable {sys : System} {layers : List UInt8} {maxContext : UInt32}

section

variable (h : sys.Steady layers maxContext)
include h

theorem System.Steady.step {action : Action} (hwhole : action.Whole maxContext) :
    (sys.step action).Steady layers maxContext := by
  obtain ⟨hwithin, hlayers, hcontext⟩ := h
  cases action with
  | writeBlock layerSlot block records pageIo headerIo =>
    rw [System.step]
    split
    · obtain ⟨hsame, hsize⟩ := sys.store.writeBlock_same layerSlot block records pageIo headerIo
      exact ⟨hwithin.writeBlock layerSlot block records pageIo headerIo, hsame.trans hlayers, hsize.trans hcontext⟩
    · exact ⟨hwithin, hlayers, hcontext⟩
  | writeBlocks layerSlot writes pagesIo headerIo =>
    rw [System.step]
    split
    · obtain ⟨hsame, hsize⟩ := sys.store.writeBlocks_same layerSlot writes pagesIo headerIo
      exact ⟨hwithin.writeBlocks layerSlot writes pagesIo headerIo (hcontext ▸ hwhole), hsame.trans hlayers,
        hsize.trans hcontext⟩
    · exact ⟨hwithin, hlayers, hcontext⟩
  | reset headerIo =>
    rw [System.step]
    split
    · obtain ⟨hsame, hsize⟩ := Store.writeFileHeader_same { sys.store with layerTokens := fun _ => 0 } headerIo
      exact ⟨hwithin.reset headerIo, hsame.trans hlayers, hsize.trans hcontext⟩
    · exact ⟨hwithin, hlayers, hcontext⟩
  | reopen io =>
    rw [System.step]
    split
    next store hopen =>
      obtain ⟨hsame, hsize⟩ := Store.reopen_same hopen
      exact ⟨hwithin.reopen hopen, hsame.trans hlayers, hsize.trans hcontext⟩
    · exact ⟨hwithin, hlayers, hcontext⟩

theorem System.Steady.exec {actions : List Action}
    (hwhole : ∀ action ∈ actions, action.Whole maxContext) : (sys.exec actions).Steady layers maxContext := by
  induction actions generalizing sys with
  | nil => exact h
  | cons action rest ih =>
    exact ih (h.step (hwhole action List.mem_cons_self)) (List.forall_mem_cons.mp hwhole).2

theorem System.Steady.accepted (hvalid : Store.validArguments layers maxContext = .ok ()) : sys.Accepted := by
  refine ⟨fun _ => h.within.tokens, fun htorn i hi => ?_, fun htorn => ?_⟩
  · obtain ⟨t, hlayers, -, htokens, hfile⟩ := h.within.header htorn
    have hheader := Store.encodeFileHeader_spec (hlayers ▸ h.within.layers : t.layers.length ≤ layerCount)
    rw [hfile, hheader.tokens i (hlayers ▸ hi)]
    exact htokens i hi
  · apply h.within.reopens _ htorn
    rw [h.layers, h.context]
    exact hvalid

end

/-! ## Contexts that are no multiple of four -/

def zeroRecords : Vector Record compressRatio := .replicate compressRatio (.replicate Wire.tokenRecordBytes 0)

theorem Store.writeBlocks_one (s : Store) {b : Nat} (hlayers : s.layers ≠ [])
    (htokens : (s.layerTokens 0).toNat = b * 4) (hb : b < s.blocksPerLayer.toNat)
    (hblocks : s.blocksPerLayer.toNat < 2 ^ 30) :
    let after := (s.writeBlocks 0 [(UInt32.ofNat b, zeroRecords)] .ok .ok).2
    (after.layerTokens 0).toNat = (b + 1) * 4 ∧ after.layers = s.layers ∧ after.maxContext = s.maxContext ∧
      after.blocksPerLayer = s.blocksPerLayer := by
  have hratio : (UInt32.ofNat compressRatio).toNat = 4 := rfl
  have hbNat : (UInt32.ofNat b).toNat = b := UInt32.toNat_ofNat_of_lt' (Nat.lt_trans hb (Nat.lt_trans hblocks (by decide)))
  have hfirst : s.layerTokens 0 / UInt32.ofNat compressRatio = UInt32.ofNat b := by
    rw [← UInt32.toNat_inj, UInt32.toNat_div, hratio, hbNat, htokens]
    omega
  have haligned : s.layerTokens 0 % UInt32.ofNat compressRatio = 0 := by
    rw [← UInt32.toNat_inj, UInt32.toNat_mod, hratio, htokens]
    exact Nat.mul_mod_left b 4
  have hle : UInt32.ofNat b ≤ s.blocksPerLayer := by
    rw [UInt32.le_iff_toNat_le, hbNat]
    exact Nat.le_of_lt hb
  have hcount : UInt32.ofNat 1 ≤ s.blocksPerLayer - UInt32.ofNat b := by
    rw [UInt32.le_iff_toNat_le, UInt32.toNat_sub_of_le _ _ hle, hbNat]
    exact Nat.sub_pos_of_lt hb
  have htoken : (s.layerTokens 0 + UInt32.ofNat 1 * UInt32.ofNat compressRatio).toNat = (b + 1) * 4 := by
    rw [UInt32.toNat_add, UInt32.toNat_mul, htokens, hratio]
    show (b * 4 + 1 * 4 % 2 ^ 32) % 2 ^ 32 = _
    omega
  have hwrite : s.writeBlocks 0 [(UInt32.ofNat b, zeroRecords)] .ok .ok =
      s.commit 0 (s.layerTokens 0 + UInt32.ofNat 1 * UInt32.ofNat compressRatio)
        [(s.pageNumber 0 (UInt32.ofNat b), s.encodePage 0 (UInt32.ofNat b) zeroRecords.toList)] .ok .ok := by
    rw [Store.writeBlocks, if_neg]
    · rw [if_neg, if_neg]
      · rfl
      · rw [hfirst, not_not]
        show [UInt32.ofNat b] = [UInt32.ofNat b + UInt32.ofNat 0]
        rw [show UInt32.ofNat 0 = 0 from rfl, UInt32.add_zero]
      · rw [hfirst]
        rintro (hne | hlt | hlt)
        · exact hne haligned
        · exact absurd hle (UInt32.not_le.mpr hlt)
        · exact absurd hcount (UInt32.not_le.mpr hlt)
    · rintro (hnil | hlong | hslot)
      · cases hnil
      · exact absurd hlong (show ¬maxSelectedBlocks < 1 by decide)
      · exact hlayers (List.length_eq_zero_iff.mp (Nat.le_zero.mp hslot))
  rw [hwrite]
  refine ⟨?_, rfl, rfl, rfl⟩
  show (Function.update s.layerTokens 0 _ 0).toNat = _
  rw [Function.update_self]
  exact htoken

/-- All blocks of layer slot 0, one batch each. -/
def fill (n : Nat) : List Action :=
  (List.range n).map fun b => .writeBlocks 0 [(UInt32.ofNat b, zeroRecords)] .ok .ok

theorem System.exec_fill {s : Store} (hlayers : s.layers ≠ []) (htokens : s.layerTokens 0 = 0)
    (hblocks : s.blocksPerLayer.toNat < 2 ^ 30) {n : Nat} (hn : n ≤ s.blocksPerLayer.toNat) :
    let final := (System.mk s true).exec (fill n)
    (final.store.layerTokens 0).toNat = n * 4 ∧ final.isOpen = true ∧ final.store.layers = s.layers ∧
      final.store.maxContext = s.maxContext ∧ final.store.blocksPerLayer = s.blocksPerLayer := by
  induction n with
  | zero => exact ⟨by rw [Nat.zero_mul]; exact congrArg UInt32.toNat htokens, rfl, rfl, rfl, rfl⟩
  | succ n ih =>
    obtain ⟨hcount, hopen, hsame, hcontext, hsize⟩ := ih (Nat.le_of_succ_le hn)
    obtain ⟨htoken, hlayers', hcontext', hsize'⟩ :=
      ((System.mk s true).exec (fill n)).store.writeBlocks_one (hsame ▸ hlayers) hcount (hsize ▸ hn) (hsize ▸ hblocks)
    have hsucc : (System.mk s true).exec (fill (n + 1)) =
        ((System.mk s true).exec (fill n)).step (.writeBlocks 0 [(UInt32.ofNat n, zeroRecords)] .ok .ok) := by
      rw [fill, List.range_succ, List.map_append, System.exec, List.foldl_append]
      rfl
    rw [hsucc, System.step, if_pos hopen]
    exact ⟨htoken, rfl, hlayers'.trans hsame, hcontext'.trans hcontext, hsize'.trans hsize⟩

/-- Over every run of a new store the frontiers stay inside the context, and the headers open again. -/
def Holds (layers : List UInt8) (maxContext : UInt32) (actions : List Action) : Prop :=
  ∀ headerIo s, Store.create layers maxContext headerIo = .ok s → ((System.mk s true).exec actions).Accepted

theorem holds_of_whole (hvalid : Store.validArguments layers maxContext = .ok ()) {actions : List Action}
    (hwhole : ∀ action ∈ actions, action.Whole maxContext) : Holds layers maxContext actions := by
  intro headerIo s hcreate
  obtain ⟨-, hlayers, hcontext, hwithin, -⟩ := Store.create_eq hcreate
  have hsteady : (System.mk s true).Steady layers maxContext := ⟨hwithin, hlayers, hcontext⟩
  exact (hsteady.exec hwhole).accepted hvalid

theorem not_holds_fill (hvalid : Store.validArguments layers maxContext = .ok ()) (hpart : maxContext.toNat % 4 ≠ 0)
    (hfits : maxContext.toNat ≤ 2 ^ 32 - 4) : ¬Holds layers maxContext (fill ((maxContext.toNat + 3) / 4)) := by
  intro hholds
  obtain ⟨s, hcreate⟩ : ∃ s, Store.create layers maxContext .ok = .ok s := by
    rw [Store.create, hvalid]
    exact ⟨_, rfl⟩
  obtain ⟨-, hlayers, hcontext, hwithin, htokens⟩ := Store.create_eq hcreate
  have hne : s.layers ≠ [] := by
    rintro hnil
    rw [← hlayers, hnil, Store.validArguments, if_pos (.inl rfl)] at hvalid
    cases hvalid
  have hpos : 0 < s.layers.length := List.length_pos_iff.mpr hne
  have hblocks := hwithin.blocks_toNat
  have hall : s.blocksPerLayer.toNat = (maxContext.toNat + 3) / 4 := hcontext ▸ hblocks.2.2.2 (hcontext ▸ hfits)
  obtain ⟨hfull, hopen, hsame, hsize, -⟩ :=
    System.exec_fill hne (congrFun htokens 0) hblocks.2.1 (Nat.le_of_eq hall.symm)
  have hmemory := (hholds .ok s hcreate).memory hopen 0 (hsame ▸ hpos)
  rw [UInt32.le_iff_toNat_le, hfull, hsize, hcontext] at hmemory
  omega

/-- The frontiers of every run stay inside the context, and its headers open again, exactly when the context is a
multiple of four or so long that it has no block. In any context they do when no batch has the block that has fewer
than four tokens. -/
theorem frontier_within {layers : List UInt8} {maxContext : UInt32}
    (hvalid : Store.validArguments layers maxContext = .ok ()) :
    ((∀ actions, Holds layers maxContext actions) ↔ maxContext.toNat % 4 = 0 ∨ 2 ^ 32 - 4 < maxContext.toNat) ∧
    ∀ actions : List Action, (∀ action ∈ actions, action.Whole maxContext) → Holds layers maxContext actions := by
  refine ⟨⟨fun hholds => ?_, fun hfit actions => ?_⟩, fun actions hwhole => holds_of_whole hvalid hwhole⟩
  · by_contra hbad
    rw [not_or, Nat.not_lt] at hbad
    exact not_holds_fill hvalid hbad.1 hbad.2 (hholds _)
  · apply holds_of_whole hvalid
    intro action _
    cases action with
    | writeBlocks layerSlot writes pagesIo headerIo =>
      intro hpart hfits
      rcases hfit with hmod | hover
      · rw [ne_eq, ← UInt32.toNat_inj, UInt32.toNat_mod] at hpart
        exact absurd hmod hpart
      · omega
    | writeBlock | reset | reopen => trivial

/-- Two whole blocks of a context of five tokens: the header does not open again. -/
theorem writeBlocks_passes_context : ¬Holds [3] 5 (fill 2) :=
  @not_holds_fill [3] 5 (by decide +kernel) (by decide) (by decide)

theorem frontier_within_eight : ((∀ actions, Holds [3] 8 actions) ↔ (8 : UInt32).toNat % 4 = 0 ∨
    2 ^ 32 - 4 < (8 : UInt32).toNat) ∧
    ∀ actions : List Action, (∀ action ∈ actions, action.Whole 8) → Holds [3] 8 actions :=
  frontier_within (by decide +kernel)

end FlashGordon.QsaStateFile
