import FlashGordon.ByteCodec
import FlashGordon.ExpertRoute

/-! The payloads of expert messages (`protocol.c`): decode work and results, prefill work and results. For
every message there is the layout of its bytes, the encoder that writes it and the decoder that reads it
back, each with its own checks. A message is decoded from some bytes exactly when they are its layout, it
passes the validator and its unused parts are clear. -/

namespace FlashGordon.Wire

open ByteCodec Reader Prefill ExpertRoute

abbrev Decoder := Reader Error

/-- A refusal with `FG_ERR_FORMAT`. -/
def malformed (message : String) : Error := ⟨.format, message⟩

def maxFrameBytes : Nat := 64 * 1024 * 1024

/-- `FG_Q8K_ACTIVATION_BYTES`: ten blocks. -/
def q8kActivationBytes : Nat := 296 * (hiddenSize / 256)

/-! `fg_decode_work`. -/

structure DecodeWork where
  layer : UInt8
  sourceRank : UInt8
  destinationRank : UInt8
  selectedCount : UInt8
  position : UInt32
  expertIds : Vector UInt16 topK
  routingSlots : Vector UInt8 topK
  gates : Vector Binary32 topK
  activationQ8k : Vector UInt8 q8kActivationBytes

def DecodeWork.entries (work : DecodeWork) : List (UInt16 × UInt8 × Binary32) :=
  (work.expertIds.toList.zip (work.routingSlots.toList.zip work.gates.toList)).take work.selectedCount.toNat

/-- The loop over the route entries, with those already passed. -/
def checkDecodeEntries : List (UInt16 × UInt8 × Binary32) → List (UInt16 × UInt8 × Binary32) → Except Error Unit
  | _, [] => .ok ()
  | before, (expert, slot, gate) :: rest =>
    let i := before.length
    if expertCount ≤ expert.toNat ∨ expert ∈ before.map (·.1) ∨ topK ≤ slot.toNat ∨
        slot ∈ before.map (·.2.1) ∨ gate.isFinite = false then
      .error (malformed s!"invalid decode route entry {i}")
    else checkDecodeEntries (before ++ [(expert, slot, gate)]) rest

def validateDecodeWork (work : DecodeWork) : Except Error Unit :=
  if layerCount ≤ work.layer.toNat ∨ rankCount ≤ work.sourceRank.toNat ∨ rankCount ≤ work.destinationRank.toNat ∨
      work.selectedCount = 0 ∨ topK < work.selectedCount.toNat then
    .error (malformed "invalid decode work header")
  else checkDecodeEntries [] work.entries

/-- `FG_DECODE_WORK_BYTES`. -/
def decodeWorkBytes : Nat := 8 + topK * 2 + topK + topK * 4 + q8kActivationBytes

def DecodeWork.wire (work : DecodeWork) : List UInt8 :=
  [work.layer, work.sourceRank, work.destinationRank, work.selectedCount] ++ putU32 work.position ++
    putU16s work.expertIds.toList ++ work.routingSlots.toList ++ putF32s work.gates.toList ++
    work.activationQ8k.toList

def decodeWorkEncode (work : DecodeWork) : Except Error (List UInt8) := do
  validateDecodeWork work
  .ok work.wire

def decodeWorkDecode : Decoder DecodeWork := do
  let bytes ← size
  refuseIf (malformed s!"decode work payload is {bytes} bytes, expected {decodeWorkBytes}")
    [missized decodeWorkBytes]
  let layer ← byte 0
  let sourceRank ← byte 1
  let destinationRank ← byte 2
  let selectedCount ← byte 3
  let position ← u32 4
  let expertIds ← u16s 8 topK
  let routingSlots ← Reader.bytes (8 + topK * 2) topK
  let gates ← f32s (8 + topK * 2 + topK) topK
  let activationQ8k ← Reader.bytes (8 + topK * 2 + topK + topK * 4) q8kActivationBytes
  accept validateDecodeWork
    ⟨layer, sourceRank, destinationRank, selectedCount, position, expertIds, routingSlots, gates, activationQ8k⟩

variable {p : List UInt8}

variable {work : DecodeWork}

theorem decodeWorkDecode_ok : decodeWorkDecode.run p = .ok work ↔ p = work.wire ∧ validateDecodeWork work = .ok () := by
  obtain ⟨layer, sourceRank, destinationRank, selectedCount, position, expertIds, slots, gates, activation⟩ := work
  rw [eq_iff_at]
  simp [decodeWorkDecode, DecodeWork.wire, decodeWorkBytes]
  grind

theorem decodeWork_roundTrip (h : decodeWorkEncode work = .ok p) : decodeWorkDecode.run p = .ok work := by
  simp [decodeWorkEncode] at h
  exact decodeWorkDecode_ok.mpr ⟨h.2.symm, h.1⟩

theorem decodeWork_canonical (h : decodeWorkDecode.run p = .ok work) : decodeWorkEncode work = .ok p := by
  obtain ⟨rfl, hvalid⟩ := decodeWorkDecode_ok.mp h
  simp [decodeWorkEncode, hvalid]

theorem decodeWorkDecode_safe : decodeWorkDecode.Safe p := by
  simp +contextual (disch := omega) [safe_u32, safe_u16s, safe_bytes, safe_f32s, decodeWorkDecode, decodeWorkBytes]
  omega

/-! `fg_expert_result`. -/

abbrev ExpertEntry := UInt8 × Vector Binary32 hiddenSize

def resultEntries (result : ExpertResult) : List ExpertEntry :=
  (result.routingSlots.toList.zip result.outputs.toList).take result.selectedCount.toNat

/-- The loop over the entries, with the slots already seen. -/
def checkResultEntries : List UInt8 → List ExpertEntry → Except Error Unit
  | _, [] => .ok ()
  | seen, (slot, output) :: rest =>
    if slot ≠ prereducedSlot ∧ (topK ≤ slot.toNat ∨ slot ∈ seen) then
      .error (malformed s!"invalid expert result slot {slot}")
    else match output.toList.findIdx? fun value => !value.isFinite with
      | some j => .error (malformed s!"non-finite expert result at slot {slot} element {j}")
      | none => checkResultEntries (if slot = prereducedSlot then seen else seen ++ [slot]) rest

def validateExpertResult (result : ExpertResult) : Except Error Unit :=
  if layerCount ≤ result.layer.toNat ∨ rankCount ≤ result.sourceRank.toNat ∨
      rankCount ≤ result.destinationRank.toNat ∨ result.selectedCount = 0 ∨ topK < result.selectedCount.toNat then
    .error (malformed "invalid expert result header")
  else checkResultEntries [] (resultEntries result)

/-- `FG_EXPERT_RESULT_ENTRY_BYTES`. -/
def expertEntryBytes : Nat := 4 + hiddenSize * 4

def putExpertEntry (entry : ExpertEntry) : List UInt8 := [entry.1, 0, 0, 0] ++ putF32s entry.2.toList

def putExpertEntries (entries : List ExpertEntry) : List UInt8 := entries.flatMap putExpertEntry

def expertResultWire (result : ExpertResult) : List UInt8 :=
  [result.layer, result.sourceRank, result.destinationRank, result.selectedCount] ++ putU32 result.position ++
    putExpertEntries (resultEntries result)

def expertResultEncode (capacity : Nat) (result : ExpertResult) : Except Error (List UInt8) := do
  validateExpertResult result
  failIf (capacity < 8 + result.selectedCount.toNat * expertEntryBytes) ⟨.limit, "expert result buffer is too small"⟩
  .ok (expertResultWire result)

/-- The record the decoder clears and fills: the slots past the entries stay zero. -/
def fillExpertResult (layer sourceRank destinationRank count : UInt8) (position : UInt32)
    (entries : List ExpertEntry) : ExpertResult where
  layer := layer
  sourceRank := sourceRank
  destinationRank := destinationRank
  selectedCount := count
  position := position
  routingSlots := .ofFn fun i => (entries[i.val]?.map (·.1)).getD 0
  outputs := .ofFn fun i => (entries[i.val]?.map (·.2)).getD (.replicate hiddenSize ⟨0⟩)

def expertEntry (offset : Nat) : Decoder ExpertEntry := do
  let slot ← byte offset
  refuseIf (malformed "expert result reserved bytes are non-zero")
    [nonzero (offset + 1), nonzero (offset + 2), nonzero (offset + 3)]
  let output ← f32s (offset + 4) hiddenSize
  pure (slot, output)

def expertResultDecode : Decoder ExpertResult := do
  refuseIf ⟨.argument, "invalid expert result input"⟩ [shorter 8]
  let count ← byte 3
  refuseIf (malformed "invalid expert result payload size")
    [test (topK < count.toNat), missized (8 + count.toNat * expertEntryBytes)]
  let layer ← byte 0
  let sourceRank ← byte 1
  let destinationRank ← byte 2
  let position ← u32 4
  let entries ← listAt (fun i => expertEntry (8 + i * expertEntryBytes)) count.toNat
  accept validateExpertResult (fillExpertResult layer sourceRank destinationRank count position entries)

/-- The entries past the selected ones are not carried. -/
def carriedExpertResult (result : ExpertResult) : ExpertResult :=
  fillExpertResult result.layer result.sourceRank result.destinationRank result.selectedCount result.position
    (resultEntries result)

theorem putExpertEntry_length (entry : ExpertEntry) : (putExpertEntry entry).length = expertEntryBytes := by
  simp [putExpertEntry, expertEntryBytes]
  omega

@[simp] theorem putExpertEntries_length (entries : List ExpertEntry) :
    (putExpertEntries entries).length = entries.length * expertEntryBytes :=
  flatMap_length putExpertEntry_length entries

variable {result : ExpertResult}

theorem resultEntries_length (h : result.selectedCount.toNat ≤ topK) :
    (resultEntries result).length = result.selectedCount.toNat := by
  simp [resultEntries, h]

theorem resultEntries_fill {layer sourceRank destinationRank count : UInt8} {position : UInt32}
    {entries : List ExpertEntry} (hlength : entries.length = count.toNat) (hcount : count.toNat ≤ topK) :
    resultEntries (fillExpertResult layer sourceRank destinationRank count position entries) = entries := by
  apply List.ext_getElem
  · rw [resultEntries_length hcount, hlength]
    rfl
  · intro i hi hentry
    simp [resultEntries, fillExpertResult, hentry]

variable {offset : Nat}

theorem expertEntry_ok {entry : ExpertEntry} :
    (expertEntry offset).run p = .ok entry ↔ At p offset (putExpertEntry entry) := by
  obtain ⟨slot, output⟩ := entry
  simp [expertEntry, putExpertEntry, and_assoc]

theorem expertEntries_ok {n : Nat} {entries : List ExpertEntry} :
    (listAt (fun i => expertEntry (8 + i * expertEntryBytes)) n).run p = .ok entries ↔
      entries.length = n ∧ At p 8 (putExpertEntries entries) := by
  rw [listAt_entries putExpertEntry_length fun k x => by rw [expertEntry_ok, and_iff_left trivial], putExpertEntries]
  simp

theorem selectedCount_le (h : validateExpertResult result = .ok ()) : result.selectedCount.toNat ≤ topK := by
  rw [validateExpertResult] at h
  split at h
  · cases h
  · omega

theorem expertResultDecode_ok : expertResultDecode.run p = .ok result ↔
      p = expertResultWire result ∧ validateExpertResult result = .ok () ∧ carriedExpertResult result = result := by
  rw [eq_iff_at]
  simp [expertResultDecode, expertResultWire, expertEntries_ok]
  constructor
  · rintro ⟨-, count, h3, ⟨hcount, hlength⟩, layer, h0, source, h1, destination, h2, position, h4, entries,
      ⟨hcounted, hentries⟩, hvalid, rfl⟩
    have hfill : resultEntries (fillExpertResult layer source destination count position entries) = entries :=
      resultEntries_fill hcounted hcount
    rw [carriedExpertResult, hfill, hcounted]
    exact ⟨⟨by omega, h0, h1, h2, h3, h4, hentries⟩, hvalid, rfl⟩
  · rintro ⟨⟨hlength, h0, h1, h2, h3, h4, hentries⟩, hvalid, hcarried⟩
    have hcount := selectedCount_le hvalid
    rw [resultEntries_length hcount] at hlength
    exact ⟨by omega, _, h3, ⟨hcount, by omega⟩, _, h0, _, h1, _, h2, _, h4, _,
      ⟨resultEntries_length hcount, hentries⟩, by rwa [← hcarried] at hvalid, hcarried⟩

theorem validate_carriedExpertResult (h : validateExpertResult result = .ok ()) :
    validateExpertResult (carriedExpertResult result) = .ok () := by
  have hcount := selectedCount_le h
  rw [validateExpertResult, carriedExpertResult, resultEntries_fill (resultEntries_length hcount) hcount]
  exact h

theorem expertResult_roundTrip {capacity : Nat} (h : expertResultEncode capacity result = .ok p) :
    expertResultDecode.run p = .ok (carriedExpertResult result) := by
  simp [expertResultEncode] at h
  obtain ⟨hvalid, -, rfl⟩ := h
  have hcount := selectedCount_le hvalid
  have hfill : resultEntries (carriedExpertResult result) = resultEntries result :=
    resultEntries_fill (resultEntries_length hcount) hcount
  refine expertResultDecode_ok.mpr ⟨?_, validate_carriedExpertResult hvalid, ?_⟩
  · rw [expertResultWire, expertResultWire, hfill]
    rfl
  · rw [carriedExpertResult, hfill]
    rfl

theorem expertResult_canonical {capacity : Nat}
    (h : expertResultDecode.run p = .ok result) (hcapacity : p.length ≤ capacity) :
    expertResultEncode capacity result = .ok p := by
  obtain ⟨rfl, hvalid, -⟩ := expertResultDecode_ok.mp h
  simp [expertResultWire, resultEntries_length (selectedCount_le hvalid)] at hcapacity
  simp [expertResultEncode, hvalid]
  omega

theorem expertEntry_safe (h : offset + expertEntryBytes ≤ p.length) : (expertEntry offset).Safe p := by
  rw [expertEntryBytes] at h
  simp +contextual (disch := omega) [expertEntry, safe_f32s]
  omega

theorem expertResultDecode_safe : expertResultDecode.Safe p := by
  simp +contextual (disch := omega) [expertResultDecode, safe_u32, safe_entries _ fun _ => expertEntry_safe]
  omega

/-! `fg_prefill_work`. -/

/-- `fg_prefill_pair`, in the widths of its fields. -/
structure PairRecord where
  tokenSlot : UInt16
  expertId : UInt16
  routingSlot : UInt8
  gate : Binary32

def PairRecord.toPair (pair : PairRecord) : PrefillPair where
  tokenSlot := pair.tokenSlot.toNat
  expertId := pair.expertId.toNat
  routingSlot := pair.routingSlot.toNat
  gate := pair.gate

@[irreducible] def activationBytes (tokenCount : UInt16) : Nat := tokenCount.toNat * q8kActivationBytes

/-- `fg_prefill_work`, with the activations of its tokens. -/
structure PrefillWorkRecord where
  layer : UInt8
  sourceRank : UInt8
  destinationRank : UInt8
  firstPosition : UInt32
  tokenCount : UInt16
  activations : Vector UInt8 (activationBytes tokenCount)
  pairs : List PairRecord

def PrefillWorkRecord.toWork (work : PrefillWorkRecord) : PrefillWork where
  layer := work.layer.toNat
  sourceRank := work.sourceRank.toNat
  destinationRank := work.destinationRank.toNat
  firstPosition := work.firstPosition
  tokenCount := work.tokenCount.toNat
  pairs := work.pairs.map PairRecord.toPair

def validatePrefillWorkRecord (work : PrefillWorkRecord) : Except Error Unit := validatePrefillWork work.toWork

def prefillWorkVersion : UInt8 := 1

/-- `FG_PREFILL_PAIR_BYTES`. -/
def prefillPairBytes : Nat := 12

def putPair (pair : PairRecord) : List UInt8 :=
  putU16 pair.tokenSlot ++ putU16 pair.expertId ++ [pair.routingSlot, 0, 0, 0] ++ putF32 pair.gate

def putPairs (pairs : List PairRecord) : List UInt8 := pairs.flatMap putPair

def PrefillWorkRecord.bytes (work : PrefillWorkRecord) : Nat :=
  16 + activationBytes work.tokenCount + work.pairs.length * prefillPairBytes

def PrefillWorkRecord.wire (work : PrefillWorkRecord) : List UInt8 :=
  [work.layer, work.sourceRank, work.destinationRank, prefillWorkVersion] ++ putU32 work.firstPosition ++
    putU16 work.tokenCount ++ putU16 (.ofNat work.pairs.length) ++
    putU32 (.ofNat (activationBytes work.tokenCount)) ++ work.activations.toList ++ putPairs work.pairs

def prefillWorkEncode (capacity : Nat) (work : PrefillWorkRecord) : Except Error (List UInt8) := do
  validatePrefillWorkRecord work
  failIf (maxFrameBytes < work.bytes ∨ capacity < work.bytes) ⟨.limit, "prefill work buffer is too small"⟩
  .ok work.wire

def pairRecord (offset : Nat) : Decoder PairRecord := do
  let tokenSlot ← u16 offset
  let expertId ← u16 (offset + 2)
  let routingSlot ← byte (offset + 4)
  refuseIf (malformed "non-zero prefill pair reserved bytes")
    [nonzero (offset + 5), nonzero (offset + 6), nonzero (offset + 7)]
  let gate ← f32 (offset + 8)
  pure ⟨tokenSlot, expertId, routingSlot, gate⟩

def prefillWorkDecode (activationCapacity pairCapacity : Nat) : Decoder PrefillWorkRecord := do
  refuseIf ⟨.argument, "invalid prefill work input"⟩ [shorter 16]
  let tokenCount ← u16 8
  let pairCount ← u16 10
  let stated ← u32 12
  refuseIf (malformed "invalid prefill work payload size or header")
    [differs 3 prefillWorkVersion, test (tokenCount = 0), test (prefillMaxTokens < tokenCount.toNat),
      test (pairCount = 0), test (tokenCount.toNat * topK < pairCount.toNat),
      test (stated.toNat ≠ activationBytes tokenCount),
      missized (16 + stated.toNat + pairCount.toNat * prefillPairBytes),
      test (activationCapacity < stated.toNat), test (pairCapacity < pairCount.toNat)]
  let layer ← byte 0
  let sourceRank ← byte 1
  let destinationRank ← byte 2
  let firstPosition ← u32 4
  let activations ← Reader.bytes 16 (activationBytes tokenCount)
  let pairs ← listAt (fun i => pairRecord (16 + stated.toNat + i * prefillPairBytes)) pairCount.toNat
  accept validatePrefillWorkRecord
    ⟨layer, sourceRank, destinationRank, firstPosition, tokenCount, activations, pairs⟩

theorem putPair_length (pair : PairRecord) : (putPair pair).length = prefillPairBytes := rfl

@[simp] theorem putPairs_length (pairs : List PairRecord) : (putPairs pairs).length = pairs.length * prefillPairBytes :=
  flatMap_length putPair_length pairs

theorem pairRecord_ok {pair : PairRecord} : (pairRecord offset).run p = .ok pair ↔ At p offset (putPair pair) := by
  obtain ⟨tokenSlot, expertId, routingSlot, gate⟩ := pair
  simp [pairRecord, putPair]
  grind

theorem pairRecords_ok {start n : Nat} {pairs : List PairRecord} :
    (listAt (fun i => pairRecord (start + i * prefillPairBytes)) n).run p = .ok pairs ↔
      pairs.length = n ∧ At p start (putPairs pairs) := by
  rw [listAt_entries putPair_length fun k x => by rw [pairRecord_ok, and_iff_left trivial], putPairs]
  simp

theorem activationBytes_lt (tokenCount : UInt16) : activationBytes tokenCount < 2 ^ 32 := by
  have hcount := tokenCount.toNat_lt
  have hbytes : q8kActivationBytes = 2960 := rfl
  rw [activationBytes, hbytes]
  omega

variable {work : PrefillWorkRecord}

theorem validatePrefillWorkRecord_counts (h : validatePrefillWorkRecord work = .ok ()) :
    work.tokenCount ≠ 0 ∧ work.tokenCount.toNat ≤ prefillMaxTokens ∧ work.pairs.length ≠ 0 ∧
      work.pairs.length ≤ work.tokenCount.toNat * topK := by
  rw [validatePrefillWorkRecord, validatePrefillWork] at h
  split at h
  · cases h
  next hheader =>
    simp [PrefillWorkRecord.toWork] at hheader
    obtain ⟨-, -, -, htokens, hmax, hpairs, hmany⟩ := hheader
    exact ⟨fun hzero => htokens (by rw [hzero]; rfl), hmax, by simpa using hpairs, hmany⟩

theorem prefillWorkDecode_ok {activationCapacity pairCapacity : Nat} :
    (prefillWorkDecode activationCapacity pairCapacity).run p = .ok work ↔
      p = work.wire ∧ validatePrefillWorkRecord work = .ok () ∧
        activationBytes work.tokenCount ≤ activationCapacity ∧ work.pairs.length ≤ pairCapacity := by
  obtain ⟨layer, sourceRank, destinationRank, firstPosition, tokenCount, activations, pairs⟩ := work
  rw [eq_iff_at]
  simp [prefillWorkDecode, PrefillWorkRecord.wire, pairRecords_ok]
  constructor
  · rintro ⟨-, _, h8, pairCount, h10, stated, h12, ⟨h3, -, -, -, -, hstated, hlength, hroom, hpairRoom⟩, h0, h1, h2,
      h4, _, h16, ⟨hcounted, hpairs⟩, hvalid, rfl, h⟩
    cases h
    rw [toNat_eq_iff16.mp hcounted |>.1] at h10
    rw [toNat_eq_iff32.mp hstated.symm |>.1] at h12
    rw [← hcounted] at hlength hpairRoom
    rw [hstated] at hlength hroom hpairs
    exact ⟨⟨by omega, h0, h1, h2, h3, h4, h8, h10, h12, h16, hpairs⟩, hvalid, hroom, hpairRoom⟩
  · rintro ⟨⟨hlength, h0, h1, h2, h3, h4, h8, h10, h12, h16, hpairs⟩, hvalid, hroom, hpairRoom⟩
    obtain ⟨hpositive, htokens, hnonempty, hmany⟩ := validatePrefillWorkRecord_counts hvalid
    have hcounted : pairs.length = (UInt16.ofNat pairs.length).toNat := by
      apply toNat_eq_iff16.mpr ⟨rfl, ?_⟩
      simp [prefillMaxTokens, topK] at htokens hmany
      omega
    have hstated : activationBytes tokenCount = (UInt32.ofNat (activationBytes tokenCount)).toNat :=
      toNat_eq_iff32.mpr ⟨rfl, activationBytes_lt tokenCount⟩
    refine ⟨by omega, _, h8, _, h10, _, h12, ⟨h3, hpositive, htokens, ?_, ?_, hstated.symm, ?_, ?_, ?_⟩, h0, h1, h2,
      h4, _, h16, ⟨hcounted, ?_⟩, hvalid, rfl, HEq.rfl⟩
    · intro hzero
      rw [hzero] at hcounted
      exact hnonempty hcounted
    · rwa [← hcounted]
    · rw [← hstated, ← hcounted]
      omega
    · rwa [← hstated]
    · rwa [← hcounted]
    · rwa [← hstated]

theorem PrefillWorkRecord.wire_length (work : PrefillWorkRecord) : work.wire.length = work.bytes := by
  simp [PrefillWorkRecord.wire, PrefillWorkRecord.bytes]
  omega

theorem PrefillWorkRecord.bytes_le (h : validatePrefillWorkRecord work = .ok ()) : work.bytes ≤ maxFrameBytes := by
  obtain ⟨-, htokens, -, hmany⟩ := validatePrefillWorkRecord_counts h
  have hsize : q8kActivationBytes = 2960 := rfl
  rw [PrefillWorkRecord.bytes, activationBytes, hsize]
  simp only [prefillMaxTokens, topK, prefillPairBytes, maxFrameBytes] at *
  omega

theorem prefillWork_roundTrip {capacity activationCapacity pairCapacity : Nat}
    (h : prefillWorkEncode capacity work = .ok p)
    (hroom : activationBytes work.tokenCount ≤ activationCapacity) (hpairs : work.pairs.length ≤ pairCapacity) :
    (prefillWorkDecode activationCapacity pairCapacity).run p = .ok work := by
  simp [prefillWorkEncode] at h
  exact prefillWorkDecode_ok.mpr ⟨h.2.2.symm, h.1, hroom, hpairs⟩

theorem prefillWork_canonical {capacity activationCapacity pairCapacity : Nat}
    (h : (prefillWorkDecode activationCapacity pairCapacity).run p = .ok work)
    (hcapacity : p.length ≤ capacity) : prefillWorkEncode capacity work = .ok p := by
  obtain ⟨rfl, hvalid, -, -⟩ := prefillWorkDecode_ok.mp h
  rw [PrefillWorkRecord.wire_length] at hcapacity
  simp [prefillWorkEncode, hvalid, hcapacity, PrefillWorkRecord.bytes_le hvalid]

theorem pairRecord_safe (h : offset + prefillPairBytes ≤ p.length) : (pairRecord offset).Safe p := by
  rw [prefillPairBytes] at h
  simp +contextual (disch := omega) [pairRecord, safe_f32]
  grind

theorem prefillWorkDecode_safe {activationCapacity pairCapacity : Nat} :
    (prefillWorkDecode activationCapacity pairCapacity).Safe p := by
  simp +contextual (disch := omega) [prefillWorkDecode, safe_u32, safe_bytes, safe_entries _ fun _ => pairRecord_safe]
  grind

/-! `fg_prefill_result`. -/

structure ResultPairRecord where
  tokenSlot : UInt16
  routingSlot : UInt8

def ResultPairRecord.toPair (pair : ResultPairRecord) : ResultPair where
  tokenSlot := pair.tokenSlot.toNat
  routingSlot := pair.routingSlot.toNat

@[irreducible] def outputValues (tokenCount : UInt16) : Nat := tokenCount.toNat * hiddenSize

/-- `fg_prefill_result`, with the output rows of its tokens. -/
structure PrefillResultRecord where
  layer : UInt8
  sourceRank : UInt8
  destinationRank : UInt8
  contributorMask : UInt8
  firstPosition : UInt32
  tokenCount : UInt16
  pairs : List ResultPairRecord
  outputs : Vector Binary32 (outputValues tokenCount)

def checkOutputs (present : Nat → Bool) : Nat → List Binary32 → Except Error Unit
  | _, [] => .ok ()
  | i, value :: rest =>
    let token := i / hiddenSize
    let element := i % hiddenSize
    if value.isFinite = false ∨ (present token = false ∧ value.order ≠ 0) then
      .error (malformed s!"invalid shard sum token {token} element {element}")
    else checkOutputs present (i + 1) rest

/-- `validate_prefill_result`. -/
def validatePrefillResultRecord (result : PrefillResultRecord) : Except Error Unit := do
  failIf (layerCount ≤ result.layer.toNat ∨ rankCount ≤ result.sourceRank.toNat ∨
      rankCount ≤ result.destinationRank.toNat ∨
      result.contributorMask.toNat &&& 2 ^ result.sourceRank.toNat = 0 ∨ result.tokenCount = 0 ∨
      prefillMaxTokens < result.tokenCount.toNat ∨ result.tokenCount.toNat * topK < result.pairs.length)
    (malformed "invalid prefill result header")
  checkResultPairs result.tokenCount.toNat [] (result.pairs.map ResultPairRecord.toPair)
  checkOutputs (fun token => result.pairs.any fun pair => pair.tokenSlot.toNat = token) 0 result.outputs.toList

def prefillResultVersion : UInt8 := 3

def putResultPair (pair : ResultPairRecord) : List UInt8 := putU16 pair.tokenSlot ++ [pair.routingSlot, 0]

def putResultPairs (pairs : List ResultPairRecord) : List UInt8 := pairs.flatMap putResultPair

def PrefillResultRecord.bytes (result : PrefillResultRecord) : Nat :=
  16 + result.pairs.length * 4 + outputValues result.tokenCount * 4

def PrefillResultRecord.wire (result : PrefillResultRecord) : List UInt8 :=
  [result.layer, result.sourceRank, result.destinationRank, prefillResultVersion] ++ putU32 result.firstPosition ++
    putU16 result.tokenCount ++ putU16 (.ofNat result.pairs.length) ++ [result.contributorMask, 0, 0, 0] ++
    putResultPairs result.pairs ++ putF32s result.outputs.toList

def prefillResultEncode (capacity : Nat) (result : PrefillResultRecord) : Except Error (List UInt8) := do
  validatePrefillResultRecord result
  failIf (maxFrameBytes < result.bytes ∨ capacity < result.bytes) ⟨.limit, "prefill result buffer is too small"⟩
  .ok result.wire

def resultPairRecord (offset : Nat) : Decoder ResultPairRecord := do
  let tokenSlot ← u16 offset
  let routingSlot ← byte (offset + 2)
  refuseIf (malformed "non-zero prefill result pair reserved byte") [nonzero (offset + 3)]
  pure ⟨tokenSlot, routingSlot⟩

def prefillResultDecode (pairCapacity outputCapacity : Nat) : Decoder PrefillResultRecord := do
  refuseIf ⟨.argument, "invalid prefill result input"⟩ [shorter 16]
  let tokenCount ← u16 8
  let pairCount ← u16 10
  let contributorMask ← byte 12
  refuseIf (malformed "invalid prefill shard result version, size or header")
    [differs 3 prefillResultVersion, test (contributorMask = 0), nonzero 13, nonzero 14, nonzero 15,
      test (tokenCount = 0), test (prefillMaxTokens < tokenCount.toNat),
      test (tokenCount.toNat * topK < pairCount.toNat),
      missized (16 + pairCount.toNat * 4 + outputValues tokenCount * 4),
      test (pairCapacity < pairCount.toNat), test (outputCapacity < outputValues tokenCount)]
  let layer ← byte 0
  let sourceRank ← byte 1
  let destinationRank ← byte 2
  let firstPosition ← u32 4
  let pairs ← listAt (fun i => resultPairRecord (16 + i * 4)) pairCount.toNat
  let outputs ← f32s (16 + pairCount.toNat * 4) (outputValues tokenCount)
  accept validatePrefillResultRecord
    ⟨layer, sourceRank, destinationRank, contributorMask, firstPosition, tokenCount, pairs, outputs⟩

theorem putResultPair_length (pair : ResultPairRecord) : (putResultPair pair).length = 4 := rfl

@[simp] theorem putResultPairs_length (pairs : List ResultPairRecord) :
    (putResultPairs pairs).length = pairs.length * 4 :=
  flatMap_length putResultPair_length pairs

theorem resultPairRecord_ok {pair : ResultPairRecord} :
    (resultPairRecord offset).run p = .ok pair ↔ At p offset (putResultPair pair) := by
  obtain ⟨tokenSlot, routingSlot⟩ := pair
  simp [resultPairRecord, putResultPair]

theorem resultPairRecords_ok {start n : Nat} {pairs : List ResultPairRecord} :
    (listAt (fun i => resultPairRecord (start + i * 4)) n).run p = .ok pairs ↔
      pairs.length = n ∧ At p start (putResultPairs pairs) := by
  rw [listAt_entries putResultPair_length fun k x => by rw [resultPairRecord_ok, and_iff_left trivial], putResultPairs]
  simp

variable {result : PrefillResultRecord}

theorem validatePrefillResultRecord_counts (h : validatePrefillResultRecord result = .ok ()) :
    result.contributorMask ≠ 0 ∧ result.tokenCount ≠ 0 ∧ result.tokenCount.toNat ≤ prefillMaxTokens ∧
      result.pairs.length ≤ result.tokenCount.toNat * topK := by
  rw [validatePrefillResultRecord, except_bind_unit_ok, failIf_ok] at h
  simp only [not_or, not_le, not_lt] at h
  obtain ⟨⟨-, -, -, hmask, htokens, hmax, hmany⟩, -⟩ := h
  refine ⟨fun hzero => hmask ?_, htokens, hmax, hmany⟩
  rw [hzero]
  exact Nat.zero_and _

theorem prefillResultDecode_ok {pairCapacity outputCapacity : Nat} :
    (prefillResultDecode pairCapacity outputCapacity).run p = .ok result ↔
      p = result.wire ∧ validatePrefillResultRecord result = .ok () ∧
        result.pairs.length ≤ pairCapacity ∧ outputValues result.tokenCount ≤ outputCapacity := by
  obtain ⟨layer, sourceRank, destinationRank, mask, firstPosition, tokenCount, pairs, outputs⟩ := result
  rw [eq_iff_at]
  simp [prefillResultDecode, PrefillResultRecord.wire, resultPairRecords_ok]
  constructor
  · rintro ⟨-, _, h8, pairCount, h10, h12, ⟨h3, -, h13, h14, h15, -, -, -, hlength, hpairRoom, hroom⟩, h0, h1, h2, h4,
      ⟨hcounted, hpairs⟩, _, houtputs, hvalid, rfl, h⟩
    cases h
    rw [(toNat_eq_iff16.mp hcounted).1] at h10
    rw [← hcounted] at hlength hpairRoom houtputs
    exact ⟨⟨by omega, h0, h1, h2, h3, h4, h8, h10, h12, h13, h14, h15, hpairs, houtputs⟩, hvalid, hpairRoom, hroom⟩
  · rintro ⟨⟨hlength, h0, h1, h2, h3, h4, h8, h10, h12, h13, h14, h15, hpairs, houtputs⟩, hvalid, hpairRoom, hroom⟩
    obtain ⟨hmask, hpositive, htokens, hmany⟩ := validatePrefillResultRecord_counts hvalid
    have hcounted : pairs.length = (UInt16.ofNat pairs.length).toNat := by
      apply toNat_eq_iff16.mpr ⟨rfl, ?_⟩
      simp [prefillMaxTokens, topK] at htokens hmany
      omega
    refine ⟨by omega, _, h8, _, h10, h12, ⟨h3, hmask, h13, h14, h15, hpositive, htokens, ?_, ?_, ?_, hroom⟩, h0, h1, h2,
      h4, ⟨hcounted, hpairs⟩, _, ?_, hvalid, rfl, HEq.rfl⟩
    · rwa [← hcounted]
    · rw [← hcounted]
      omega
    · rwa [← hcounted]
    · rwa [← hcounted]

theorem PrefillResultRecord.wire_length (result : PrefillResultRecord) : result.wire.length = result.bytes := by
  simp [PrefillResultRecord.wire, PrefillResultRecord.bytes]
  omega

theorem PrefillResultRecord.bytes_le
    (h : validatePrefillResultRecord result = .ok ()) : result.bytes ≤ maxFrameBytes := by
  obtain ⟨-, -, htokens, hmany⟩ := validatePrefillResultRecord_counts h
  rw [PrefillResultRecord.bytes, outputValues]
  simp only [prefillMaxTokens, topK, hiddenSize, maxFrameBytes] at *
  omega

theorem prefillResult_roundTrip {capacity pairCapacity outputCapacity : Nat}
    (h : prefillResultEncode capacity result = .ok p) (hpairs : result.pairs.length ≤ pairCapacity)
    (hroom : outputValues result.tokenCount ≤ outputCapacity) :
    (prefillResultDecode pairCapacity outputCapacity).run p = .ok result := by
  simp [prefillResultEncode] at h
  exact prefillResultDecode_ok.mpr ⟨h.2.2.symm, h.1, hpairs, hroom⟩

theorem prefillResult_canonical {capacity pairCapacity outputCapacity : Nat}
    (h : (prefillResultDecode pairCapacity outputCapacity).run p = .ok result)
    (hcapacity : p.length ≤ capacity) : prefillResultEncode capacity result = .ok p := by
  obtain ⟨rfl, hvalid, -, -⟩ := prefillResultDecode_ok.mp h
  rw [PrefillResultRecord.wire_length] at hcapacity
  simp [prefillResultEncode, hvalid, hcapacity, PrefillResultRecord.bytes_le hvalid]

theorem resultPairRecord_safe (h : offset + 4 ≤ p.length) : (resultPairRecord offset).Safe p := by
  simp +contextual (disch := omega) [resultPairRecord]
  grind

theorem prefillResultDecode_safe {pairCapacity outputCapacity : Nat} :
    (prefillResultDecode pairCapacity outputCapacity).Safe p := by
  simp +contextual (disch := omega) [prefillResultDecode, safe_u32, safe_f32s,
    safe_entries _ fun _ => resultPairRecord_safe]
  grind

end FlashGordon.Wire
