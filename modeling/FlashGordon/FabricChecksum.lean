import FlashGordon.FabricFrame
import FlashGordon.ShiftRegister

/-! The checksum of a frame (`protocol.c`). `fgCrc32c` takes it bit by bit; with the instructions of SSE4.2 it is taken
eight bytes at a time. Both are the shift register of the payload as one number, and a payload in which 32 consecutive
bits have changed, in the order in which they go through the register, has another checksum. -/

namespace FlashGordon.Fabric

open ShiftRegister

/-- `_mm_crc32_u8`. -/
def mmCrc32U8 (crc : UInt32) (x : UInt8) : UInt32 :=
  (List.range 8).foldl (fun crc _ => crc32cBit crc) (crc ^^^ x.toUInt32)

/-- One bit in the register of `_mm_crc32_u64`, which holds the word on top of the checksum. -/
def crc32cWordBit (r : UInt64) : UInt64 := (r >>> 1) ^^^ (if r &&& 1 = 1 then 0x82f63b78 else 0)

/-- `_mm_crc32_u64`, which reads the low half of `crc`. -/
def mmCrc32U64 (crc word : UInt64) : UInt64 :=
  (List.range 64).foldl (fun r _ => crc32cWordBit r) (crc.toUInt32.toUInt64 ^^^ word)

/-- The word that `memcpy` takes, with its lowest byte first. -/
def loadWord (p : List UInt8) : UInt64 := .ofNat (Nat.ofDigits (2 ^ 8) ((p.take 8).map UInt8.toNat))

def crc32cWords (crc : UInt64) (p : List UInt8) : UInt32 :=
  if 8 ≤ p.length then crc32cWords (mmCrc32U64 crc (loadWord p)) (p.drop 8) else p.foldl mmCrc32U8 crc.toUInt32
termination_by p.length
decreasing_by
  rw [List.length_drop]
  omega

def crc32cSse42 (data : List UInt8) : UInt32 := ~~~crc32cWords 0xffffffff data

/-- The bit `i` of a payload: from the lowest bit of its first byte on. -/
def payloadBit (payload : List UInt8) (i : Nat) : Bool := (payload.getD (i / 8) 0).toNat.testBit (i % 8)

/-- The bits that differ lie in 32 consecutive ones. -/
def Burst (payload changed : List UInt8) : Prop :=
  ∃ first, ∀ i, payloadBit payload i ≠ payloadBit changed i → first ≤ i ∧ i < first + 32

/-! ## The register as a number -/

def polynomial : Nat := 0x82f63b78

theorem toNat_crc32cBit (crc : UInt32) : (crc32cBit crc).toNat = shift polynomial crc.toNat := by
  have hbit : crc &&& 1 = 1 ↔ crc.toNat.testBit 0 = true := by
    rw [← UInt32.toNat_inj, UInt32.toNat_and, Nat.testBit_zero, decide_eq_true_iff]
    exact (congrArg (· = 1) (Nat.and_one_is_mod _)).to_iff
  rw [crc32cBit, shift, UInt32.toNat_xor, UInt32.toNat_shiftRight]
  by_cases h : crc &&& 1 = 1
  · rw [if_pos h, if_pos (hbit.mp h)]
    rfl
  · rw [if_neg h, if_neg (mt hbit.mpr h)]
    rfl

theorem toNat_crc32cWordBit (r : UInt64) : (crc32cWordBit r).toNat = shift polynomial r.toNat := by
  have hbit : r &&& 1 = 1 ↔ r.toNat.testBit 0 = true := by
    rw [← UInt64.toNat_inj, UInt64.toNat_and, Nat.testBit_zero, decide_eq_true_iff]
    exact (congrArg (· = 1) (Nat.and_one_is_mod _)).to_iff
  rw [crc32cWordBit, shift, UInt64.toNat_xor, UInt64.toNat_shiftRight]
  by_cases h : r &&& 1 = 1
  · rw [if_pos h, if_pos (hbit.mp h)]
    rfl
  · rw [if_neg h, if_neg (mt hbit.mpr h)]
    rfl

theorem foldl_range_shifts {α : Type} {toNat : α → Nat} {bit : α → α}
    (hbit : ∀ r, toNat (bit r) = shift polynomial (toNat r)) (n : Nat) (r : α) :
    toNat ((List.range n).foldl (fun r _ => bit r) r) = shifts polynomial n (toNat r) := by
  rw [List.foldl_const, List.length_range]
  exact (Function.Semiconj.iterate_right hbit n) r

theorem toNat_lt_of_mem {data : List UInt8} : ∀ x ∈ data.map UInt8.toNat, x < 2 ^ 8 :=
  List.forall_mem_map.mpr fun x _ => x.toNat_lt

theorem toNat_foldl_mmCrc32U8 (crc : UInt32) (data : List UInt8) : (data.foldl mmCrc32U8 crc).toNat =
    shifts polynomial (8 * data.length) (crc.toNat ^^^ Nat.ofDigits (2 ^ 8) (data.map UInt8.toNat)) := by
  have hbytes := foldl_shifts (@toNat_lt_of_mem data) polynomial crc.toNat
  rw [List.length_map, List.foldl_map] at hbytes
  rw [← hbytes]
  refine (List.foldl_hom UInt32.toNat fun crc x => ?_).symm
  rw [mmCrc32U8, foldl_range_shifts toNat_crc32cBit, UInt32.toNat_xor, UInt8.toNat_toUInt32]

/-! ## The two ways to take it -/

theorem toUInt32_mmCrc32U64 (crc : UInt64) {p : List UInt8} (h : 8 ≤ p.length) :
    (mmCrc32U64 crc (loadWord p)).toUInt32 = (p.take 8).foldl mmCrc32U8 crc.toUInt32 := by
  have hlength : (p.take 8).length = 8 := List.length_take_of_le h
  have hword : (loadWord p).toNat = Nat.ofDigits (2 ^ 8) ((p.take 8).map UInt8.toNat) := by
    have hlt := Nat.ofDigits_lt_base_pow_length (by decide : 1 < 2 ^ 8) (@toNat_lt_of_mem (p.take 8))
    rw [List.length_map, hlength] at hlt
    exact Nat.mod_eq_of_lt hlt
  have hregister := toNat_foldl_mmCrc32U8 crc.toUInt32 (p.take 8)
  rw [hlength] at hregister
  rw [← UInt32.toNat_inj, UInt64.toNat_toUInt32, mmCrc32U64, foldl_range_shifts toNat_crc32cWordBit, UInt64.toNat_xor,
    UInt32.toNat_toUInt64, hword, ← hregister]
  exact Nat.mod_eq_of_lt (UInt32.toNat_lt _)

theorem crc32cWords_eq (crc : UInt64) (p : List UInt8) : crc32cWords crc p = p.foldl mmCrc32U8 crc.toUInt32 := by
  fun_induction crc32cWords crc p with
  | case1 crc p h ih =>
    rw [ih, toUInt32_mmCrc32U64 crc h, ← List.foldl_append, List.take_append_drop]
  | case2 crc p h => rfl

theorem crc32cSse42_eq (data : List UInt8) : crc32cSse42 data = fgCrc32c data := by
  rw [crc32cSse42, crc32cWords_eq]
  rfl

theorem testBit_payload (payload : List UInt8) (i : Nat) :
    (Nat.ofDigits (2 ^ 8) (payload.map UInt8.toNat)).testBit i = payloadBit payload i := by
  rw [testBit_ofDigits (by decide) toNat_lt_of_mem, payloadBit, show 0 = UInt8.toNat 0 from rfl, List.getD_map]

theorem fgCrc32c_ne {payload changed : List UInt8} (hlength : changed.length = payload.length) (hne : changed ≠ payload)
    (hburst : Burst payload changed) : fgCrc32c payload ≠ fgCrc32c changed := by
  intro heq
  obtain ⟨first, hfirst⟩ := hburst
  set a := Nat.ofDigits (2 ^ 8) (payload.map UInt8.toNat) with ha
  set b := Nat.ofDigits (2 ^ 8) (changed.map UInt8.toNat) with hb
  have hdiffer {i : Nat} (hi : (a ^^^ b).testBit i = true) : first ≤ i ∧ i < first + 32 := by
    refine hfirst i fun hsame => ?_
    rw [Nat.testBit_xor, ha, hb, testBit_payload, testBit_payload, hsame, Bool.xor_self] at hi
    cases hi
  have hsplit : a ^^^ b = ((a ^^^ b) >>> first) <<< first := by
    refine Nat.eq_of_testBit_eq fun i => ?_
    rw [Nat.testBit_shiftLeft, Nat.testBit_shiftRight]
    by_cases hi : first ≤ i
    · simp [hi]
    · cases hbit : (a ^^^ b).testBit i with
      | false => simp [hi]
      | true => exact absurd (hdiffer hbit).1 hi
  have hwidth : (a ^^^ b) >>> first < 2 ^ 32 := by
    refine Nat.lt_pow_two_of_testBit _ fun i hi => ?_
    rw [Nat.testBit_shiftRight]
    cases hbit : (a ^^^ b).testBit (first + i) with
    | false => rfl
    | true => exact absurd (hdiffer hbit).2 (by omega)
  have hxor : a ^^^ b ≠ 0 := by
    rw [Ne, Nat.xor_eq_zero_iff]
    intro hsame
    refine hne (List.map_injective_iff.mpr (fun x y => UInt8.toNat_inj.mp) ?_)
    exact Nat.ofDigits_inj_of_len_eq (by decide) (by simpa) toNat_lt_of_mem toNat_lt_of_mem hsame.symm
  have hbits : first ≤ 8 * payload.length := by
    obtain ⟨i, hi⟩ := Nat.exists_testBit_of_ne_zero hxor
    have hle := (hdiffer hi).1
    have hlt (p : List UInt8) : Nat.ofDigits (2 ^ 8) (p.map UInt8.toNat) < 2 ^ (8 * p.length) := by
      rw [Nat.pow_mul, ← List.length_map UInt8.toNat]
      exact Nat.ofDigits_lt_base_pow_length (by decide) toNat_lt_of_mem
    have hsmall := Nat.xor_lt_two_pow (hlt payload) (hlength ▸ hlt changed)
    by_contra hover
    rw [Nat.testBit_lt_two_pow (hsmall.trans_le (Nat.pow_le_pow_right (by decide) (by omega)))] at hi
    cases hi
  refine @shifts_ne polynomial 31 (8 * payload.length) first a b (by decide) (by decide) _ hsplit hwidth (fun hzero => ?_)
    hbits (0xffffffff : UInt32).toNat ?_
  · rw [hzero, Nat.zero_shiftLeft] at hsplit
    exact hxor hsplit
  · have hregister := congrArg UInt32.toNat (UInt32.not_inj.mp heq)
    refine (toNat_foldl_mmCrc32U8 _ payload).symm.trans (hregister.trans ?_)
    rw [← hlength]
    exact toNat_foldl_mmCrc32U8 _ changed

/-- The two ways to take the checksum agree, and no frame is valid with a payload in which a burst has changed. -/
theorem crc32c_detects : (∀ data, crc32cSse42 data = fgCrc32c data) ∧
    ∀ payload changed : List UInt8, changed.length = payload.length → changed ≠ payload → Burst payload changed →
      fgCrc32c payload ≠ fgCrc32c changed ∧
        ∀ header, fgFrameValidate header payload = .ok () →
          fgFrameValidate header changed =
            let request := header.requestId
            .error ⟨.mismatch, s!"frame CRC32C mismatch for request {request}"⟩ := by
  refine ⟨crc32cSse42_eq, fun payload changed hlength hne hburst => ?_⟩
  have hcrc := fgCrc32c_ne hlength hne hburst
  refine ⟨hcrc, fun header hvalid => ?_⟩
  unfold fgFrameValidate at hvalid ⊢
  dsimp only at hvalid ⊢
  split at hvalid
  · cases hvalid
  split at hvalid
  · cases hvalid
  split at hvalid
  · cases hvalid
  next hmagic htype hsum =>
    rw [if_neg hmagic, if_neg htype, if_pos (not_not.mp hsum ▸ hcrc.symm)]

theorem crc32c_detects_last_bit : crc32cSse42 [1, 2] = fgCrc32c [1, 2] ∧ fgCrc32c [1, 2] ≠ fgCrc32c [1, 3] := by
  have hburst : Burst [1, 2] [1, 3] := ⟨0, fun i hi => ⟨Nat.zero_le i, ?_⟩⟩
  · exact ⟨crc32c_detects.1 _, (crc32c_detects.2 [1, 2] [1, 3] rfl (by decide) hburst).1⟩
  · by_contra hover
    have hbyte : 2 ≤ i / 8 := by omega
    exact hi (by rw [payloadBit, payloadBit, List.getD_eq_default _ _ hbyte, List.getD_eq_default _ _ hbyte])

/-! A channel that damages payloads. -/

structure Delivery where
  type : UInt16
  requestId : UInt64
  sequence : UInt32
  flags : UInt32
  payload : List UInt8
  arrived : List UInt8

def Delivery.header (version : UInt16) (d : Delivery) : FrameHeader :=
  frameHeader version d.type d.requestId d.sequence d.flags d.payload

/-- The frame could be sent and fits the buffer, and a burst at most has changed its payload. -/
structure Delivery.Fair (version : UInt16) (cap : Nat) (d : Delivery) : Prop where
  allowed : Allowed version d.type d.payload
  fits : d.payload.length ≤ cap
  length : d.arrived.length = d.payload.length
  burst : d.arrived ≠ d.payload → Burst d.payload d.arrived

def Delivery.answer (version : UInt16) (d : Delivery) : Except Error (FrameHeader × List UInt8) :=
  let request := d.requestId
  if d.arrived = d.payload then .ok (d.header version, d.payload)
  else .error ⟨.mismatch, s!"frame CRC32C mismatch for request {request}"⟩

/-- So many receives, one after another. -/
def fabricRecvs (version : UInt16) (cap : Nat) :
    Nat → List UInt8 → Option (List (Except Error (FrameHeader × List UInt8)) × List UInt8)
  | 0, channel => some ([], channel)
  | n + 1, channel => do
    let (answer, channel) ← fgFabricRecv version cap channel
    let (answers, channel) ← fabricRecvs version cap n channel
    some (answer :: answers, channel)

theorem fgFrameValidateVersion_changed {header : FrameHeader} {version : UInt16} {payload changed : List UInt8}
    (hvalid : fgFrameValidateVersion header version payload = .ok ()) (hcrc : fgCrc32c payload ≠ fgCrc32c changed) :
    fgFrameValidateVersion header version changed =
      let request := header.requestId
      .error ⟨.mismatch, s!"frame CRC32C mismatch for request {request}"⟩ := by
  simp only [fgFrameValidateVersion, fgFrameValidate] at hvalid ⊢
  split_ifs at hvalid ⊢ <;> simp_all

theorem Delivery.Fair.recv {version : UInt16} {cap : Nat} {d : Delivery} (h : d.Fair version cap) (rest : List UInt8) :
    fgFabricRecv version cap (frameHeaderWire (d.header version) ++ (d.arrived ++ rest)) =
      some (d.answer version, rest) := by
  have hread : readFrameHeader.run (frameHeaderWire (d.header version) ++ (d.arrived ++ rest)) = .ok (d.header version) := by
    rw [readFrameHeader_ok, ByteCodec.At, List.drop_zero]
    exact List.prefix_append _ _
  have hversion : (d.header version).version = version := rfl
  have hlength := (h.allowed.length d.requestId d.sequence d.flags).trans h.length.symm
  have hfits : ¬cap < d.arrived.length := Nat.not_lt.mpr (h.length ▸ h.fits)
  have hvalid : fgFrameValidateVersion (d.header version) version d.payload = .ok () := h.allowed.validate ..
  rw [fgFabricRecv, hread]
  simp only [← frameHeaderWire_length (d.header version), List.drop_left]
  rw [if_neg (not_not.mpr hversion), show (d.header version).bytes.toNat = d.arrived.length from hlength, if_neg hfits,
    if_neg (by simp), List.take_left, List.drop_left, Delivery.answer]
  by_cases hsame : d.arrived = d.payload
  · rw [if_pos hsame, hsame, hvalid]
  · rw [if_neg hsame, fgFrameValidateVersion_changed hvalid (fgCrc32c_ne h.length hsame (h.burst hsame))]
    rfl

/-- On a channel where bursts damage payloads, every damaged frame is refused and every other one received as it was
sent, in the order of sending: a damaged frame costs no other frame. -/
theorem fabricRecvs_damaged {version : UInt16} {cap : Nat} (sent : List Delivery)
    (h : ∀ d ∈ sent, d.Fair version cap) (rest : List UInt8) :
    fabricRecvs version cap sent.length
        (sent.flatMap (fun d => frameHeaderWire (d.header version) ++ d.arrived) ++ rest) =
      some (sent.map (Delivery.answer version), rest) := by
  induction sent with
  | nil => rfl
  | cons d sent ih =>
    obtain ⟨hd, hsent⟩ := List.forall_mem_cons.mp h
    rw [List.flatMap_cons, List.append_assoc, List.append_assoc, List.length_cons, fabricRecvs, hd.recv]
    simp only [Option.bind_eq_bind, Option.bind_some, ih hsent, List.map_cons]

theorem fabricRecvs_damaged_first :
    let sent : List Delivery := [⟨msgQsaPageBarrier, 7, 0, 0, [1, 2], [1, 3]⟩, ⟨msgQsaPageBarrierAck, 7, 1, 0, [5], [5]⟩]
    fabricRecvs 6 64 2 (sent.flatMap (fun d => frameHeaderWire (d.header 6) ++ d.arrived) ++ [9]) =
      some (sent.map (Delivery.answer 6), [9]) := by
  intro sent
  refine fabricRecvs_damaged sent (fun d hd => ?_) [9]
  simp only [sent, List.mem_cons, List.not_mem_nil, or_false] at hd
  rcases hd with rfl | rfl
  · refine ⟨⟨by decide, by decide, by decide⟩, by decide, rfl, fun _ => ⟨0, fun i hi => ⟨Nat.zero_le i, ?_⟩⟩⟩
    by_contra hover
    have hbyte : 2 ≤ i / 8 := by omega
    exact hi (by rw [payloadBit, payloadBit, List.getD_eq_default _ _ hbyte, List.getD_eq_default _ _ hbyte])
  · exact ⟨⟨by decide, by decide, by decide⟩, by decide, rfl, fun hne => absurd rfl hne⟩

end FlashGordon.Fabric
