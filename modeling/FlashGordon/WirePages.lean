import FlashGordon.WireQsa

/-! The payloads of QSA pages and of the GDN state (`protocol.c`). The page messages share one batch header and
one entry header, and differ in whether an entry carries its records. A GDN state result carries bulk data that
is not looked at; four bytes of its header are neither read nor compared. -/

namespace FlashGordon.Wire

open ByteCodec Reader Prefill DecodeBatch QsaOwner

/-- `FG_Q38_QSA_TOKEN_RECORD_BYTES`. -/
def tokenRecordBytes : Nat := 512 / 32 * 34 + 512 / 32 * 34 + 128 / 32 * 34 + 12

def pageRecordBytes : Nat := compressRatio * tokenRecordBytes

abbrev PageRecords := Vector UInt8 pageRecordBytes

def pageProtocolVersion : UInt8 := 1

@[irreducible] def pageEntryBytes (records : Bool) : Nat := 8 + if records then pageRecordBytes else 0

def zeroRecords : PageRecords := .replicate pageRecordBytes 0

def putPage (records : Bool) (page : Page PageRecords) : List UInt8 :=
  [page.layer, 0, 0, 0] ++ putU32 page.block ++ if records then (page.records.getD zeroRecords).toList else []

def putPages (records : Bool) (pages : List (Page PageRecords)) : List UInt8 := pages.flatMap (putPage records)

def pageBatchBytes (records : Bool) (batch : PageBatch PageRecords) : Nat :=
  12 + batch.pages.length * pageEntryBytes records

def pageBatchWire (records : Bool) (batch : PageBatch PageRecords) : List UInt8 :=
  [batch.sourceRank, batch.destinationRank, pageProtocolVersion, 0] ++ putU32 batch.batchId ++
    putU16 (.ofNat batch.pages.length) ++ [0, 0] ++ putPages records batch.pages

def qsaPageAppendEncode (capacity : Nat) (batch : PageBatch PageRecords) : Except Error (List UInt8) := do
  validateQsaPageBatch appendMaxPages true batch
  validateQsaAppendDistribution (fun _ => 0) batch.pages
  failIf (capacity < pageBatchBytes true batch ∨ maxFrameBytes < pageBatchBytes true batch)
    ⟨.limit, "QSA page append buffer is too small"⟩
  .ok (pageBatchWire true batch)

def qsaPageFetchEncode (capacity : Nat) (batch : PageBatch PageRecords) : Except Error (List UInt8) := do
  validateQsaPageBatch fetchMaxPages false batch
  failIf (capacity < pageBatchBytes false batch) ⟨.limit, "QSA page fetch buffer is too small"⟩
  .ok (pageBatchWire false batch)

def qsaPageResultEncode (capacity : Nat) (batch : PageBatch PageRecords) : Except Error (List UInt8) := do
  validateQsaPageBatch fetchMaxPages true batch
  failIf (capacity < pageBatchBytes true batch ∨ maxFrameBytes < pageBatchBytes true batch)
    ⟨.limit, "QSA page result buffer is too small"⟩
  .ok (pageBatchWire true batch)

/-- One entry of `decode_qsa_page_entries`. -/
def pageAt (records : Bool) (offset : Nat) : Decoder (Page PageRecords) := do
  refuseIf (malformed "non-zero QSA page reserved bytes") [nonzero (offset + 1), nonzero (offset + 2), nonzero (offset + 3)]
  let layer ← byte offset
  let block ← u32 (offset + 4)
  let bytes ← optional (records = true) (Reader.bytes (offset + 8) pageRecordBytes)
  pure ⟨layer, block, bytes⟩

/-- `decode_qsa_page_batch_header` and `decode_qsa_page_entries`. -/
def pageBatchDecode (records : Bool) (maximum pageCapacity : Nat) : Decoder (PageBatch PageRecords) := do
  refuseIf ⟨.argument, "invalid QSA page batch input"⟩ [shorter 12]
  let count ← u16 8
  refuseIf (malformed "invalid QSA page batch size or header")
    [differs 2 pageProtocolVersion, nonzero 3, nonzero 10, nonzero 11, test (count = 0), test (maximum < count.toNat),
      missized (12 + count.toNat * pageEntryBytes records)]
  let sourceRank ← byte 0
  let destinationRank ← byte 1
  let batchId ← u32 4
  refuseIf ⟨.limit, "QSA page decode storage is too small"⟩ [test (pageCapacity < count.toNat)]
  let pages ← listAt (fun i => pageAt records (12 + i * pageEntryBytes records)) count.toNat
  accept (validateQsaPageBatch maximum records) ⟨sourceRank, destinationRank, batchId, pages⟩

def qsaPageAppendDecode (pageCapacity : Nat) : Decoder (PageBatch PageRecords) := do
  let batch ← pageBatchDecode true appendMaxPages pageCapacity
  accept (fun batch => validateQsaAppendDistribution (fun _ => 0) batch.pages) batch

def qsaPageFetchDecode (pageCapacity : Nat) : Decoder (PageBatch PageRecords) :=
  pageBatchDecode false fetchMaxPages pageCapacity

def qsaPageResultDecode (pageCapacity : Nat) : Decoder (PageBatch PageRecords) :=
  pageBatchDecode true fetchMaxPages pageCapacity

def carriedPage (records : Bool) (page : Page PageRecords) : Page PageRecords :=
  { page with records := if records then page.records else none }

def carriedPageBatch (records : Bool) (batch : PageBatch PageRecords) : PageBatch PageRecords :=
  { batch with pages := batch.pages.map (carriedPage records) }

theorem putPage_length (records : Bool) (page : Page PageRecords) :
    (putPage records page).length = pageEntryBytes records := by
  rw [putPage, pageEntryBytes]
  split
  · simp
    omega
  · simp

theorem putPages_length (records : Bool) (pages : List (Page PageRecords)) :
    (putPages records pages).length = pages.length * pageEntryBytes records :=
  flatMap_length (putPage_length records) pages

variable {p : List UInt8} {records : Bool}

theorem pageAt_ok {offset : Nat} {page : Page PageRecords} :
    (pageAt records offset).run p = .ok page ↔
      At p offset (putPage records page) ∧ (records = true ↔ page.records ≠ none) := by
  obtain ⟨layer, block, bytes⟩ := page
  cases records with
  | false =>
    simp [pageAt, optional_ok, putPage]
    grind
  | true =>
    cases bytes with
    | none => simp [pageAt, optional_ok, putPage]
    | some bytes =>
      simp [pageAt, optional_ok, putPage]
      grind

theorem pages_ok {n : Nat} {pages : List (Page PageRecords)} :
    (listAt (fun i => pageAt records (12 + i * pageEntryBytes records)) n).run p = .ok pages ↔
      pages.length = n ∧ At p 12 (putPages records pages) ∧
        ∀ page ∈ pages, (records = true ↔ page.records ≠ none) := by
  rw [listAt_entries (putPage_length records) fun k page => pageAt_ok, putPages]

variable {batch : PageBatch PageRecords}

theorem carriedPageBatch_iff :
    carriedPageBatch records batch = batch ↔ ∀ page ∈ batch.pages, records = false → page.records = none := by
  obtain ⟨sourceRank, destinationRank, batchId, pages⟩ := batch
  simp only [carriedPageBatch, PageBatch.mk.injEq, true_and]
  nth_rewrite 2 [← List.map_id pages]
  rw [List.map_inj_left]
  refine forall₂_congr fun page _ => ?_
  obtain ⟨layer, block, bytes⟩ := page
  cases records <;> simp [carriedPage, eq_comm]

theorem pageEntriesCheck_records {prior rest : List (Page PageRecords)} {i : Nat}
    (h : pageEntriesCheck true prior i rest = .ok ()) : ∀ page ∈ rest, page.records ≠ none := by
  induction rest generalizing prior i with
  | nil => exact fun page hpage => absurd hpage List.not_mem_nil
  | cons page rest ih =>
    rw [pageEntriesCheck] at h
    split at h
    · cases h
    next hentry =>
      split at h
      · cases h
      · refine List.forall_mem_cons.mpr ⟨fun hnone => hentry ?_, ih h⟩
        simp [hnone]

variable {maximum : Nat}

theorem validateQsaPageBatch_counts (h : validateQsaPageBatch maximum records batch = .ok ()) :
    batch.pages.length ≠ 0 ∧ batch.pages.length ≤ maximum ∧ pageEntriesCheck records [] 0 batch.pages = .ok () := by
  rw [validateQsaPageBatch] at h
  split at h
  · cases h
  next hheader =>
    simp only [not_or, not_lt] at hheader
    exact ⟨hheader.2.2.2.1, hheader.2.2.2.2, h⟩

theorem pageBatchDecode_ok {maximum pageCapacity : Nat} (hmaximum : maximum < 2 ^ 16) :
    (pageBatchDecode records maximum pageCapacity).run p = .ok batch ↔
      p = pageBatchWire records batch ∧ validateQsaPageBatch maximum records batch = .ok () ∧
        carriedPageBatch records batch = batch ∧ batch.pages.length ≤ pageCapacity := by
  rw [carriedPageBatch_iff, eq_iff_at]
  have hcounts := @validateQsaPageBatch_counts records batch maximum
  obtain ⟨sourceRank, destinationRank, batchId, pages⟩ := batch
  simp [pageBatchDecode, pages_ok, pageBatchWire, putPages_length]
  constructor
  · rintro ⟨-, count, h8, ⟨h2, h3, h10, h11, -, -, hlength⟩, h0, h1, h4, hroom, ⟨hcounted, hpages, hrecords⟩, hvalid⟩
    rw [(toNat_eq_iff16.mp hcounted).1] at h8
    rw [← hcounted] at hlength hroom
    refine ⟨⟨by omega, h0, h1, h2, h3, h4, h8, h10, h11, hpages⟩, hvalid, fun page hpage hnone => ?_, hroom⟩
    exact not_not.mp fun hne => by simp [hnone] at hrecords; exact hne (hrecords page hpage)
  · rintro ⟨⟨hlength, h0, h1, h2, h3, h4, h8, h10, h11, hpages⟩, hvalid, hcarried, hroom⟩
    obtain ⟨hnonempty, hmax, hentries⟩ := hcounts hvalid
    have hmax : pages.length ≤ maximum := hmax
    have hcounted : pages.length = (UInt16.ofNat pages.length).toNat := toNat_eq_iff16.mpr ⟨rfl, by omega⟩
    refine ⟨by omega, _, h8, ⟨h2, h3, h10, h11, fun hzero => ?_, ?_, ?_⟩, h0, h1, h4, ?_, ⟨hcounted, hpages, ?_⟩, hvalid⟩
    · rw [hzero] at hcounted
      exact hnonempty hcounted
    · rwa [← hcounted]
    · rw [← hcounted]
      omega
    · rwa [← hcounted]
    · intro page hpage
      cases records with
      | false => simpa using hcarried page hpage rfl
      | true => simpa using pageEntriesCheck_records hentries page hpage

theorem pageBatchWire_length (records : Bool) (batch : PageBatch PageRecords) :
    (pageBatchWire records batch).length = pageBatchBytes records batch := by
  simp [pageBatchWire, pageBatchBytes, putPages_length]
  omega

theorem pageBatchBytes_le (hmaximum : maximum ≤ 1000)
    (h : validateQsaPageBatch maximum records batch = .ok ()) : pageBatchBytes records batch ≤ maxFrameBytes := by
  have hrecord : pageRecordBytes = 4944 := rfl
  have hentry : pageEntryBytes records ≤ 4952 := by
    rw [pageEntryBytes]
    split <;> omega
  have hall : batch.pages.length * pageEntryBytes records ≤ 1000 * 4952 :=
    Nat.mul_le_mul ((validateQsaPageBatch_counts h).2.1.trans hmaximum) hentry
  rw [pageBatchBytes, maxFrameBytes]
  omega

theorem carriedPageBatch_true (batch : PageBatch PageRecords) : carriedPageBatch true batch = batch :=
  carriedPageBatch_iff.mpr fun _ _ h => by cases h

theorem pageEntriesCheck_carried (prior rest : List (Page PageRecords)) (i : Nat) :
    pageEntriesCheck false (prior.map (carriedPage false)) i (rest.map (carriedPage false)) =
      pageEntriesCheck false prior i rest := by
  induction rest generalizing prior i with
  | nil => rfl
  | cons page rest ih =>
    have hstep := ih (prior ++ [page]) (i + 1)
    rw [List.map_append, List.map_singleton] at hstep
    rw [List.map_cons, pageEntriesCheck, pageEntriesCheck, hstep]
    simp [carriedPage, List.any_map, Function.comp_def]

theorem validate_carriedPageBatch (batch : PageBatch PageRecords) :
    validateQsaPageBatch maximum false (carriedPageBatch false batch) = validateQsaPageBatch maximum false batch := by
  have hentries := pageEntriesCheck_carried [] batch.pages 0
  rw [validateQsaPageBatch, validateQsaPageBatch, ← hentries]
  simp [carriedPageBatch]

theorem pageBatchWire_carried (batch : PageBatch PageRecords) :
    pageBatchWire false (carriedPageBatch false batch) = pageBatchWire false batch := by
  have hpages : putPages false (batch.pages.map (carriedPage false)) = putPages false batch.pages := by
    rw [putPages, putPages, List.flatMap_map]
    rfl
  simp [pageBatchWire, carriedPageBatch, hpages]

variable {pageCapacity : Nat}

theorem qsaPageAppendDecode_ok : (qsaPageAppendDecode pageCapacity).run p = .ok batch ↔
      p = pageBatchWire true batch ∧ validateQsaPageBatch appendMaxPages true batch = .ok () ∧
        validateQsaAppendDistribution (fun _ => 0) batch.pages = .ok () ∧ batch.pages.length ≤ pageCapacity := by
  simp [qsaPageAppendDecode, pageBatchDecode_ok (show appendMaxPages < 2 ^ 16 by decide), carriedPageBatch_true]
  tauto

theorem qsaPageFetchDecode_ok : (qsaPageFetchDecode pageCapacity).run p = .ok batch ↔
      p = pageBatchWire false batch ∧ validateQsaPageBatch fetchMaxPages false batch = .ok () ∧
        carriedPageBatch false batch = batch ∧ batch.pages.length ≤ pageCapacity :=
  pageBatchDecode_ok (by decide)

theorem qsaPageResultDecode_ok : (qsaPageResultDecode pageCapacity).run p = .ok batch ↔
      p = pageBatchWire true batch ∧ validateQsaPageBatch fetchMaxPages true batch = .ok () ∧
        batch.pages.length ≤ pageCapacity := by
  rw [qsaPageResultDecode, pageBatchDecode_ok (by decide), and_iff_right (carriedPageBatch_true batch)]

variable {capacity pageCapacity : Nat}

theorem qsaPageAppend_roundTrip
    (h : qsaPageAppendEncode capacity batch = .ok p) (hroom : batch.pages.length ≤ pageCapacity) :
    (qsaPageAppendDecode pageCapacity).run p = .ok batch := by
  simp [qsaPageAppendEncode] at h
  obtain ⟨hvalid, hdistribution, -, rfl⟩ := h
  exact qsaPageAppendDecode_ok.mpr ⟨rfl, hvalid, hdistribution, hroom⟩

theorem qsaPageAppend_canonical
    (h : (qsaPageAppendDecode pageCapacity).run p = .ok batch) (hcapacity : p.length ≤ capacity) :
    qsaPageAppendEncode capacity batch = .ok p := by
  obtain ⟨rfl, hvalid, hdistribution, -⟩ := qsaPageAppendDecode_ok.mp h
  rw [pageBatchWire_length] at hcapacity
  simp [qsaPageAppendEncode, hvalid, hdistribution, hcapacity,
    pageBatchBytes_le (show appendMaxPages ≤ 1000 by decide) hvalid]

theorem qsaPageFetch_roundTrip
    (h : qsaPageFetchEncode capacity batch = .ok p) (hroom : batch.pages.length ≤ pageCapacity) :
    (qsaPageFetchDecode pageCapacity).run p = .ok (carriedPageBatch false batch) := by
  simp [qsaPageFetchEncode] at h
  obtain ⟨hvalid, -, rfl⟩ := h
  rw [qsaPageFetchDecode_ok, validate_carriedPageBatch, pageBatchWire_carried]
  refine ⟨rfl, hvalid, ?_, by simpa [carriedPageBatch] using hroom⟩
  simp [carriedPageBatch, carriedPage]

theorem qsaPageFetch_canonical
    (h : (qsaPageFetchDecode pageCapacity).run p = .ok batch) (hcapacity : p.length ≤ capacity) :
    qsaPageFetchEncode capacity batch = .ok p := by
  obtain ⟨rfl, hvalid, -, -⟩ := qsaPageFetchDecode_ok.mp h
  rw [pageBatchWire_length] at hcapacity
  simp [qsaPageFetchEncode, hvalid, hcapacity]

theorem qsaPageResult_roundTrip
    (h : qsaPageResultEncode capacity batch = .ok p) (hroom : batch.pages.length ≤ pageCapacity) :
    (qsaPageResultDecode pageCapacity).run p = .ok batch := by
  simp [qsaPageResultEncode] at h
  obtain ⟨hvalid, -, rfl⟩ := h
  exact qsaPageResultDecode_ok.mpr ⟨rfl, hvalid, hroom⟩

theorem qsaPageResult_canonical
    (h : (qsaPageResultDecode pageCapacity).run p = .ok batch) (hcapacity : p.length ≤ capacity) :
    qsaPageResultEncode capacity batch = .ok p := by
  obtain ⟨rfl, hvalid, -⟩ := qsaPageResultDecode_ok.mp h
  rw [pageBatchWire_length] at hcapacity
  simp [qsaPageResultEncode, hvalid, hcapacity, pageBatchBytes_le (show fetchMaxPages ≤ 1000 by decide) hvalid]

theorem pageAt_safe {offset : Nat} (h : offset + pageEntryBytes records ≤ p.length) :
    (pageAt records offset).Safe p := by
  rw [pageEntryBytes] at h
  simp [pageAt]
  grind [safe_u32, safe_bytes]

theorem pageBatchDecode_safe {maximum pageCapacity : Nat} : (pageBatchDecode records maximum pageCapacity).Safe p := by
  simp +contextual (disch := omega) [pageBatchDecode, safe_u32, safe_entries _ fun _ => pageAt_safe]
  grind

theorem qsaPageAppendDecode_safe : (qsaPageAppendDecode pageCapacity).Safe p := by
  simp [qsaPageAppendDecode, pageBatchDecode_safe]

/-! `fg_qsa_page_barrier`. -/

def checkBarrierRoute (message : String) (barrier : PageBarrier) : Except Error Unit :=
  failIf (rankCount ≤ barrier.sourceRank.toNat ∨ rankCount ≤ barrier.destinationRank.toNat ∨
    barrier.sourceRank = barrier.destinationRank) (malformed message)

def barrierWire (barrier : PageBarrier) : List UInt8 :=
  [barrier.sourceRank, barrier.destinationRank, pageProtocolVersion, 0] ++ putU32 barrier.batchId

def qsaPageBarrierEncode (barrier : PageBarrier) : Except Error (List UInt8) := do
  checkBarrierRoute "invalid QSA page barrier" barrier
  .ok (barrierWire barrier)

def qsaPageBarrierDecode : Decoder PageBarrier := do
  refuseIf (malformed "invalid QSA page barrier size") [missized 8, differs 2 pageProtocolVersion, nonzero 3]
  let sourceRank ← byte 0
  let destinationRank ← byte 1
  let batchId ← u32 4
  accept (checkBarrierRoute "invalid QSA page barrier route") ⟨sourceRank, destinationRank, batchId⟩

variable {barrier : PageBarrier}

theorem qsaPageBarrierDecode_ok : qsaPageBarrierDecode.run p = .ok barrier ↔
    p = barrierWire barrier ∧ checkBarrierRoute "invalid QSA page barrier" barrier = .ok () := by
  rw [eq_iff_at]
  simp [qsaPageBarrierDecode, barrierWire, checkBarrierRoute]
  grind

theorem qsaPageBarrier_roundTrip (h : qsaPageBarrierEncode barrier = .ok p) :
    qsaPageBarrierDecode.run p = .ok barrier := by
  simp [qsaPageBarrierEncode] at h
  exact qsaPageBarrierDecode_ok.mpr ⟨h.2.symm, h.1⟩

theorem qsaPageBarrier_canonical (h : qsaPageBarrierDecode.run p = .ok barrier) :
    qsaPageBarrierEncode barrier = .ok p := by
  obtain ⟨rfl, hroute⟩ := qsaPageBarrierDecode_ok.mp h
  simp [qsaPageBarrierEncode, hroute]

theorem qsaPageBarrierDecode_safe : qsaPageBarrierDecode.Safe p := by
  simp [qsaPageBarrierDecode]
  grind [safe_u32]

/-! `fg_gdn_state_fetch`. -/

structure GdnStateFetch where
  layer : UInt32
  frontier : UInt32

def GdnStateFetch.wire (fetch : GdnStateFetch) : List UInt8 := putU32 fetch.layer ++ putU32 fetch.frontier

def gdnStateFetchEncode (fetch : GdnStateFetch) : Except Error (List UInt8) := do
  failIf (layerCount ≤ fetch.layer.toNat) ⟨.argument, "invalid GDN state fetch"⟩
  .ok fetch.wire

def gdnStateFetchDecode : Decoder GdnStateFetch := do
  refuseIf (malformed "invalid GDN state fetch size") [missized 8]
  let layer ← u32 0
  let frontier ← u32 4
  refuseIf (malformed "GDN state fetch layer is out of range") [test (layerCount ≤ layer.toNat)]
  pure ⟨layer, frontier⟩

variable {fetch : GdnStateFetch}

theorem gdnStateFetchDecode_ok : gdnStateFetchDecode.run p = .ok fetch ↔
    p = fetch.wire ∧ fetch.layer.toNat < layerCount := by
  rw [eq_iff_at]
  obtain ⟨layer, frontier⟩ := fetch
  simp [gdnStateFetchDecode, GdnStateFetch.wire]
  tauto

theorem gdnStateFetch_roundTrip (h : gdnStateFetchEncode fetch = .ok p) : gdnStateFetchDecode.run p = .ok fetch := by
  simp [gdnStateFetchEncode] at h
  exact gdnStateFetchDecode_ok.mpr ⟨h.2.symm, h.1⟩

theorem gdnStateFetch_canonical (h : gdnStateFetchDecode.run p = .ok fetch) : gdnStateFetchEncode fetch = .ok p := by
  obtain ⟨rfl, hlayer⟩ := gdnStateFetchDecode_ok.mp h
  simp [gdnStateFetchEncode, hlayer]

theorem gdnStateFetchDecode_safe : gdnStateFetchDecode.Safe p := by
  simp [gdnStateFetchDecode]
  grind [safe_u32]

/-! `fg_gdn_state_result`. -/

/-- `FG_GDN_STATE_CONV_BYTES`, `FG_GDN_STATE_RECURRENT_BYTES` and `FG_GDN_STATE_PLE_BYTES`. -/
def gdnConvBytes : Nat := hyperWidth * 4 * 4

def gdnRecurrentBytes : Nat := 48 * 128 * 128 * 4

def gdnPleBytes : Nat := hyperWidth * 9 * 4

structure GdnStateResult where
  sourceRank : UInt8
  layer : UInt32
  frontier : UInt32
  conv : Vector UInt8 gdnConvBytes
  recurrent : Vector UInt8 gdnRecurrentBytes
  ple : Option (Vector UInt8 gdnPleBytes)

/-- `FG_GDN_STATE_RESULT_HAS_PLE`. -/
def hasPle : UInt8 := 1

def pleBytes (ple : Bool) : Nat := if ple then gdnPleBytes else 0

def gdnBaseBytes : Nat := 16 + gdnConvBytes + gdnRecurrentBytes

def GdnStateResult.bytes (result : GdnStateResult) : Nat := gdnBaseBytes + pleBytes result.ple.isSome

def GdnStateResult.header (result : GdnStateResult) : List UInt8 :=
  [result.sourceRank, result.layer.toUInt8, if result.ple.isSome then hasPle else 0, 0] ++ putU32 result.frontier ++
    putU32 0

def GdnStateResult.body (result : GdnStateResult) : List UInt8 :=
  result.conv.toList ++ result.recurrent.toList ++ result.ple.elim [] Vector.toList

def gdnStateResultEncode (capacity : Nat) (result : GdnStateResult) : Except Error (List UInt8) := do
  failIf (rankCount ≤ result.sourceRank.toNat ∨ layerCount ≤ result.layer.toNat)
    ⟨.argument, "invalid GDN state result"⟩
  failIf (capacity < result.bytes ∨ maxFrameBytes < result.bytes) ⟨.limit, "GDN state result buffer is too small"⟩
  .ok (result.header ++ putU32 0 ++ result.body)

def gdnStateResultDecode : Decoder GdnStateResult := do
  refuseIf (malformed "invalid GDN state result size") [shorter gdnBaseBytes]
  let flags ← byte 2
  refuseIf (malformed "invalid GDN state result header")
    [test (flags &&& ~~~hasPle ≠ 0), nonzero 3, nonzeroU32 8,
      missized (gdnBaseBytes + pleBytes (decide (flags &&& hasPle ≠ 0))),
      do
        let bytes ← size
        test (gdnBaseBytes + gdnPleBytes < bytes)]
  let sourceRank ← byte 0
  let layer ← byte 1
  let frontier ← u32 4
  let conv ← Reader.bytes 16 gdnConvBytes
  let recurrent ← Reader.bytes (16 + gdnConvBytes) gdnRecurrentBytes
  let ple ← optional (flags &&& hasPle ≠ 0) (Reader.bytes gdnBaseBytes gdnPleBytes)
  refuseIf (malformed "GDN state result route is invalid")
    [test (rankCount ≤ sourceRank.toNat), test (layerCount ≤ layer.toNat)]
  pure ⟨sourceRank, layer.toUInt32, frontier, conv, recurrent, ple⟩

theorem ple_flags {x : UInt8} (h : x &&& ~~~hasPle = 0) : x = 0 ∨ x = hasPle := by
  have hbits : ∀ y : BitVec 8, y &&& ~~~1#8 = 0#8 → y = 0#8 ∨ y = 1#8 := by decide
  rcases hbits x.toBitVec (UInt8.toBitVec_inj.mpr h) with hx | hx
  · exact .inl (UInt8.toBitVec_inj.mp hx)
  · exact .inr (UInt8.toBitVec_inj.mp hx)

theorem layer_byte {x : UInt8} {layer : UInt32} :
    (x.toNat < layerCount ∧ x.toUInt32 = layer) ↔ x = layer.toUInt8 ∧ layer.toNat < layerCount := by
  simp only [← UInt32.toNat_inj, ← UInt8.toNat_inj, UInt8.toNat_toUInt32, UInt32.toNat_toUInt8, layerCount]
  omega

variable {result : GdnStateResult}

theorem gdnStateResultDecode_ok : gdnStateResultDecode.run p = .ok result ↔
      (∃ gap, p = result.header ++ putU32 gap ++ result.body) ∧
        result.sourceRank.toNat < rankCount ∧ result.layer.toNat < layerCount := by
  obtain ⟨sourceRank, layer, frontier, conv, recurrent, ple⟩ := result
  have hbase : gdnBaseBytes = 16 + gdnConvBytes + gdnRecurrentBytes := by rw [gdnBaseBytes]
  have hple : hasPle &&& hasPle ≠ 0 := by decide
  have hnonzero : hasPle ≠ 0 := by decide
  simp only [eq_iff_at]
  simp [gdnStateResultDecode, optional_ok, GdnStateResult.header, GdnStateResult.body]
  constructor
  · rintro ⟨-, x, h2, ⟨hflags, h3, h8, hlength, -⟩, h0, y, h1, h4, h16, hrecurrent, ⟨hsome, hnone⟩, ⟨hrank, hlayer⟩,
      hcast⟩
    obtain ⟨rfl, hrange⟩ := layer_byte.mp ⟨hlayer, hcast⟩
    have hgap : ∃ gap, At p 12 (putU32 gap) := exists_at_putU32 (by omega)
    refine ⟨?_, hrank, hrange⟩
    rcases ple_flags hflags with rfl | rfl
    · obtain rfl := hnone (by decide)
      simp [pleBytes] at hlength ⊢
      exact ⟨by omega, h0, h1, h2, h3, h4, h8, hgap, h16, hrecurrent⟩
    · obtain ⟨row, hrow, rfl⟩ := hsome hple
      simp [pleBytes, hnonzero, hbase] at hlength hrow ⊢
      exact ⟨by omega, h0, h1, h2, h3, h4, h8, hgap, h16, hrecurrent, hrow⟩
  · rintro ⟨⟨hlength, h0, h1, h2, h3, h4, h8, -, h16, hrecurrent, hrow⟩, hrank, hlayer⟩
    obtain ⟨hbyte, hcast⟩ := layer_byte.mpr ⟨rfl, hlayer⟩
    cases ple with
    | none =>
      simp at hlength h2
      refine ⟨by omega, 0, h2, ⟨by decide, h3, h8, ?_, by omega⟩, h0, _, h1, h4, h16, hrecurrent, by simp,
        ⟨hrank, hbyte⟩, hcast⟩
      simp [pleBytes]
      omega
    | some row =>
      simp at hlength h2 hrow
      refine ⟨by omega, hasPle, h2, ⟨by decide, h3, h8, ?_, by omega⟩, h0, _, h1, h4, h16, hrecurrent, ?_,
        ⟨hrank, hbyte⟩, hcast⟩
      · simp [pleBytes, hnonzero]
        omega
      · exact ⟨fun _ => ⟨row, hrow, rfl⟩, fun h => absurd h hple⟩

theorem gdnStateResult_bytes_le (result : GdnStateResult) : result.bytes ≤ maxFrameBytes := by
  have hsizes : gdnBaseBytes + gdnPleBytes ≤ maxFrameBytes := by decide
  rw [GdnStateResult.bytes, pleBytes]
  split <;> omega

theorem gdnStateResult_length (result : GdnStateResult) (gap : UInt32) :
    (result.header ++ putU32 gap ++ result.body).length = result.bytes := by
  obtain ⟨sourceRank, layer, frontier, conv, recurrent, ple⟩ := result
  cases ple with
  | none => simp [GdnStateResult.header, GdnStateResult.body, GdnStateResult.bytes, pleBytes, gdnBaseBytes]; omega
  | some row => simp [GdnStateResult.header, GdnStateResult.body, GdnStateResult.bytes, pleBytes, gdnBaseBytes]; omega

theorem gdnStateResult_roundTrip {capacity : Nat}
    (h : gdnStateResultEncode capacity result = .ok p) : gdnStateResultDecode.run p = .ok result := by
  simp [gdnStateResultEncode] at h
  obtain ⟨⟨hrank, hlayer⟩, -, rfl⟩ := h
  exact gdnStateResultDecode_ok.mpr ⟨⟨0, by simp⟩, hrank, hlayer⟩

theorem gdnStateResult_canonical_iff {capacity : Nat}
    (h : gdnStateResultDecode.run p = .ok result) (hcapacity : p.length ≤ capacity) :
    gdnStateResultEncode capacity result = .ok p ↔ At p 12 (putU32 0) := by
  obtain ⟨⟨gap, rfl⟩, hrank, hlayer⟩ := gdnStateResultDecode_ok.mp h
  rw [gdnStateResult_length] at hcapacity
  have hgap : At (result.header ++ putU32 gap ++ result.body) 12 (putU32 gap) := at_middle
  simp [gdnStateResultEncode, hrank, hlayer, hcapacity, gdnStateResult_bytes_le]
  exact ⟨fun heq => heq ▸ hgap, fun hzero => at_unique hzero hgap rfl⟩

theorem gdnStateResultDecode_safe : gdnStateResultDecode.Safe p := by
  have hbase : gdnBaseBytes = 16 + gdnConvBytes + gdnRecurrentBytes := by rw [gdnBaseBytes]
  simp [gdnStateResultDecode]
  grind [safe_u32, safe_nonzeroU32, safe_bytes, pleBytes]

end FlashGordon.Wire
