import FlashGordon.WireSession

/-! The session identity and the session frontier (`session.c`): what a checkpoint says of the session it belongs
to, as bytes. Both carry digests over their own bytes; the digest function is a parameter. -/

namespace FlashGordon.Session

open ByteCodec Reader Wire Prefill QsaOwner

variable (sha256 : List UInt8 → Digest)

/-! `fg_session_identity`. -/

structure SessionIdentity where
  version : UInt32
  modelSha256 : Digest
  tokenizerSha256 : Digest
  quantizationSha256 : Digest
  manifestSha256 : Digest
  ropePolicySha256 : Digest
  visionProjectorSha256 : Digest
  stateFormatSha256 : Digest
  identitySha256 : Digest

def identityMagic : UInt64 := 0x314449534746474c

def identityVersion : UInt32 := 1

def identityWireBytes : Nat := 272

/-- The bytes the identity's own digest is taken over. -/
def SessionIdentity.body (identity : SessionIdentity) : List UInt8 :=
  putU64 identityMagic ++ putU32 identity.version ++ putU32 (.ofNat identityWireBytes) ++
    identity.modelSha256.toList ++ identity.tokenizerSha256.toList ++ identity.quantizationSha256.toList ++
    identity.manifestSha256.toList ++ identity.ropePolicySha256.toList ++
    identity.visionProjectorSha256.toList ++ identity.stateFormatSha256.toList

def identityDigest (identity : SessionIdentity) : Digest := sha256 identity.body

def validateIdentity (identity : SessionIdentity) : Except Error Unit := do
  failIf (identity.version ≠ identityVersion ∨ DigestZero identity.manifestSha256 ∨
      DigestZero identity.ropePolicySha256 ∨ DigestZero identity.stateFormatSha256)
    ⟨.mismatch, "session identity is incomplete or has an unsupported version"⟩
  failIf (identityDigest sha256 identity ≠ identity.identitySha256)
    ⟨.mismatch, "session identity fingerprint mismatch"⟩

def SessionIdentity.wire (identity : SessionIdentity) : List UInt8 := identity.body ++ identity.identitySha256.toList

def sessionIdentityEncode (identity : SessionIdentity) : Except Error (List UInt8) := do
  validateIdentity sha256 identity
  .ok identity.wire

def sessionIdentityDecode : Decoder SessionIdentity := do
  refuseIf ⟨.mismatch, "unsupported session identity payload"⟩
    [missized identityWireBytes,
      do
        let magic ← u64 0
        test (magic ≠ identityMagic),
      do
        let version ← u32 8
        test (version ≠ identityVersion),
      do
        let bytes ← u32 12
        test (bytes ≠ .ofNat identityWireBytes)]
  let version ← u32 8
  let modelSha256 ← bytes 16 32
  let tokenizerSha256 ← bytes 48 32
  let quantizationSha256 ← bytes 80 32
  let manifestSha256 ← bytes 112 32
  let ropePolicySha256 ← bytes 144 32
  let visionProjectorSha256 ← bytes 176 32
  let stateFormatSha256 ← bytes 208 32
  let identitySha256 ← bytes 240 32
  accept (validateIdentity sha256)
    ⟨version, modelSha256, tokenizerSha256, quantizationSha256, manifestSha256, ropePolicySha256,
      visionProjectorSha256, stateFormatSha256, identitySha256⟩

def sessionIdentityValidateCompatible (expected actual : SessionIdentity) : Except Error Unit := do
  let same (name : String) (field : SessionIdentity → Digest) : Except Error Unit :=
    failIf (field expected ≠ field actual) ⟨.mismatch, s!"session {name} fingerprint mismatch"⟩
  validateIdentity sha256 expected
  validateIdentity sha256 actual
  same "model" (·.modelSha256)
  same "tokenizer" (·.tokenizerSha256)
  same "quantization" (·.quantizationSha256)
  same "manifest" (·.manifestSha256)
  same "RoPE policy" (·.ropePolicySha256)
  same "vision projector" (·.visionProjectorSha256)
  same "state format" (·.stateFormatSha256)
  same "identity" (·.identitySha256)

/-! `fg_session_frontier`. -/

def maxContext : Nat := 1048576

def frontierMagic : UInt64 := 0x315246534746474c

def frontierVersion : UInt32 := 1

def frontierHeaderBytes : Nat := 1356

def frontierDigestBytes : Nat := 32

abbrev LayerLengths := Vector UInt64 layerCount

structure SessionFrontier where
  version : UInt32
  positionMode : UInt32
  generation : UInt64
  committedTokens : UInt64
  nextTokenValid : Bool
  nextToken : UInt32
  nextLogit : Binary32
  position : Vector UInt32 4
  identitySha256 : Digest
  renderedTranscriptSha256 : Digest
  nextTokenStateSha256 : Digest
  tokenHistorySha256 : Digest
  qsaLengths : LayerLengths
  gdnLengths : LayerLengths
  pleLengths : LayerLengths
  tokens : List Int32
  frontierSha256 : Digest

def SessionFrontier.exceeds (frontier : SessionFrontier) (layer : Fin layerCount) : Bool :=
  frontier.committedTokens < frontier.qsaLengths[layer] || frontier.committedTokens < frontier.gdnLengths[layer] ||
    frontier.committedTokens < frontier.pleLengths[layer]

def outsideVocabulary (token : Int32) : Bool := token < 0 || vocabSize ≤ token.toUInt32.toNat

def SessionFrontier.checkLayers (frontier : SessionFrontier) : Except Error Unit :=
  match (List.finRange layerCount).find? frontier.exceeds with
  | some layer => .error ⟨.mismatch, s!"session frontier layer {layer} exceeds committed tokens"⟩
  | none => .ok ()

def SessionFrontier.checkTokens (frontier : SessionFrontier) : Except Error Unit :=
  match frontier.tokens.findIdx? outsideVocabulary with
  | some token => .error ⟨.mismatch, s!"session frontier token {token} is outside vocabulary"⟩
  | none => .ok ()

def validateFrontier (frontier : SessionFrontier) : Except Error Unit := do
  failIf (frontier.version ≠ frontierVersion ∨ 1 < frontier.positionMode ∨
      frontier.positionMode = 0 ∧ frontier.position[3] ≠ 0 ∨ maxContext < frontier.tokens.length ∨
      frontier.tokens.length < frontier.committedTokens.toNat ∨ DigestZero frontier.identitySha256 ∨
      DigestZero frontier.renderedTranscriptSha256 ∨
      frontier.nextTokenValid ∧ (vocabSize ≤ frontier.nextToken.toNat ∨ frontier.nextLogit.isFinite = false) ∨
      ¬frontier.nextTokenValid ∧ (frontier.nextToken ≠ 0 ∨ frontier.nextLogit.bits ≠ 0))
    ⟨.mismatch, "invalid or incompatible session frontier"⟩
  failIf (frontier.nextTokenValid ∧ DigestZero frontier.nextTokenStateSha256)
    ⟨.mismatch, "session frontier lacks next-token state"⟩
  failIf (¬frontier.nextTokenValid ∧ ¬DigestZero frontier.nextTokenStateSha256)
    ⟨.mismatch, "session frontier has state without a next token"⟩
  frontier.checkLayers
  frontier.checkTokens

def putTokens (tokens : List Int32) : List UInt8 := tokens.flatMap fun token => putU32 token.toUInt32

def frontierBytes (count : Nat) : Nat := frontierHeaderBytes + count * 4 + frontierDigestBytes

def SessionFrontier.header (frontier : SessionFrontier) : List UInt8 :=
  putU64 frontierMagic ++ putU32 frontier.version ++ putU32 (.ofNat frontierHeaderBytes) ++
    putU32 (.ofNat (frontierBytes frontier.tokens.length)) ++ putU32 frontier.positionMode ++
    putU32 (if frontier.nextTokenValid then 1 else 0) ++ putU64 frontier.generation ++
    putU64 frontier.committedTokens ++ putU64 (.ofNat frontier.tokens.length) ++ putU32 frontier.nextToken ++
    putF32 frontier.nextLogit ++ putU32s frontier.position.toList ++ frontier.identitySha256.toList ++
    frontier.renderedTranscriptSha256.toList ++ frontier.nextTokenStateSha256.toList ++
    putU64s frontier.qsaLengths.toList ++ putU64s frontier.gdnLengths.toList ++ putU64s frontier.pleLengths.toList

def tokenHistoryDigest (frontier : SessionFrontier) : Digest := sha256 (putTokens frontier.tokens)

/-- Everything before the last digest, which is taken over it. -/
def SessionFrontier.body (frontier : SessionFrontier) : List UInt8 :=
  frontier.header ++ (tokenHistoryDigest sha256 frontier).toList ++ putTokens frontier.tokens

def frontierDigest (frontier : SessionFrontier) : Digest := sha256 (frontier.body sha256)

def SessionFrontier.wire (frontier : SessionFrontier) : List UInt8 :=
  frontier.body sha256 ++ (frontierDigest sha256 frontier).toList

def sessionFrontierEncode (capacity : Nat) (frontier : SessionFrontier) : Except Error (List UInt8) := do
  validateFrontier frontier
  failIf (2 ^ 32 - 1 < frontierBytes frontier.tokens.length ∨ capacity < frontierBytes frontier.tokens.length)
    ⟨.limit, "session frontier output buffer is too small"⟩
  .ok (frontier.wire sha256)

def tokenAt (offset : Nat) : Decoder Int32 := do
  let token ← u32 offset
  pure token.toInt32

/-- The length is compared as the source computes it, modulo the width of its integer. -/
def sessionFrontierDecode (tokenCapacity : Nat) : Decoder SessionFrontier := do
  refuseIf ⟨.mismatch, "unsupported session frontier payload"⟩
    [shorter (frontierHeaderBytes + frontierDigestBytes),
      do
        let magic ← u64 0
        test (magic ≠ frontierMagic),
      do
        let version ← u32 8
        test (version ≠ frontierVersion),
      do
        let headerBytes ← u32 12
        test (headerBytes ≠ .ofNat frontierHeaderBytes),
      do
        let total ← u32 16
        missized total.toNat]
  let tokenCount ← u64 44
  refuseIf (malformed "invalid session frontier token storage or length")
    [missized ((frontierBytes tokenCount.toNat) % 2 ^ 64), test (tokenCapacity < tokenCount.toNat)]
  let total ← size
  let hashed ← slice 0 (total - frontierDigestBytes)
  let frontierSha256 ← bytes (total - frontierDigestBytes) 32
  refuseIf ⟨.mismatch, "session frontier fingerprint mismatch"⟩ [test (sha256 hashed ≠ frontierSha256)]
  let version ← u32 8
  let positionMode ← u32 20
  let flags ← u32 24
  refuseIf (malformed "session frontier has unknown flags") [test (flags &&& ~~~1 ≠ 0)]
  let generation ← u64 28
  let committedTokens ← u64 36
  let nextToken ← u32 52
  let nextLogit ← f32 56
  let position ← u32s 60 4
  let identitySha256 ← bytes 76 32
  let renderedTranscriptSha256 ← bytes 108 32
  let nextTokenStateSha256 ← bytes 140 32
  let qsaLengths ← u64s 172 layerCount
  let gdnLengths ← u64s 556 layerCount
  let pleLengths ← u64s 940 layerCount
  let tokenHistorySha256 ← bytes 1324 32
  let tokens ← listAt (fun token => tokenAt (frontierHeaderBytes + token * 4)) tokenCount.toNat
  refuseIf ⟨.mismatch, "session frontier token history fingerprint mismatch"⟩
    [test (sha256 (putTokens tokens) ≠ tokenHistorySha256)]
  accept validateFrontier
    ⟨version, positionMode, generation, committedTokens, decide (flags &&& 1 ≠ 0), nextToken, nextLogit, position,
      identitySha256, renderedTranscriptSha256, nextTokenStateSha256, tokenHistorySha256, qsaLengths, gdnLengths,
      pleLengths, tokens, frontierSha256⟩

def filled (frontier : SessionFrontier) : SessionFrontier :=
  { frontier with
    tokenHistorySha256 := tokenHistoryDigest sha256 frontier
    frontierSha256 := frontierDigest sha256 frontier }

variable {sha256} {p : List UInt8}

theorem sessionIdentityDecode_ok {identity : SessionIdentity} : (sessionIdentityDecode sha256).run p = .ok identity ↔
    p = identity.wire ∧ validateIdentity sha256 identity = .ok () := by
  rw [eq_iff_at]
  have hversion : validateIdentity sha256 identity = .ok () → identity.version = identityVersion := by
    intro h
    simp [validateIdentity] at h
    exact h.1.1
  obtain ⟨version, model, tokenizer, quantization, manifest, rope, vision, format, digest⟩ := identity
  have hbytes : identityWireBytes = 272 := rfl
  simp [sessionIdentityDecode, SessionIdentity.wire, SessionIdentity.body] at hversion ⊢
  grind

theorem putToken_length (token : Int32) : (putU32 token.toUInt32).length = 4 := putU32_length _

@[simp] theorem putTokens_length (tokens : List Int32) : (putTokens tokens).length = tokens.length * 4 :=
  flatMap_length putToken_length tokens

theorem tokenAt_ok {offset : Nat} {token : Int32} :
    (tokenAt offset).run p = .ok token ↔ At p offset (putU32 token.toUInt32) := by
  simp [tokenAt]
  constructor
  · rintro ⟨x, hx, rfl⟩
    exact hx
  · intro h
    exact ⟨_, h, token.toInt32_toUInt32⟩

theorem tokens_ok {n : Nat} {tokens : List Int32} :
    (listAt (fun token => tokenAt (frontierHeaderBytes + token * 4)) n).run p = .ok tokens ↔
      tokens.length = n ∧ At p frontierHeaderBytes (putTokens tokens) := by
  have htoken : ∀ k token, (tokenAt (frontierHeaderBytes + k * 4)).run p = .ok token ↔
      At p (frontierHeaderBytes + k * 4) (putU32 token.toUInt32) ∧ True := by
    intro k token
    rw [tokenAt_ok, and_true]
  rw [listAt_entries putToken_length htoken, putTokens]
  simp

theorem frontierFlags_iff {flags : UInt32} {valid : Bool} :
    (flags &&& ~~~1 = 0 ∧ (!decide (flags &&& 1 = 0)) = valid) ↔ flags = if valid then 1 else 0 := by
  constructor
  · rintro ⟨hunknown, rfl⟩
    have hone : flags &&& 1 = flags := by
      calc flags &&& 1 = (flags &&& 1) ||| (flags &&& ~~~1) := by rw [hunknown, UInt32.or_zero]
        _ = flags &&& (1 ||| ~~~1) := UInt32.toBitVec_inj.mp BitVec.and_or_distrib_left.symm
        _ = flags := by simp
    have hbit : flags.toNat = flags.toNat % 2 := by
      rw [← Nat.and_one_is_mod, ← UInt32.toNat_one, ← UInt32.toNat_and, hone]
    rw [hone]
    rcases Nat.mod_two_eq_zero_or_one flags.toNat with hzero | hodd
    · have hflags : flags = 0 := UInt32.toNat_inj.mp (hbit.trans hzero)
      simp [hflags]
    · have hflags : flags = 1 := UInt32.toNat_inj.mp (hbit.trans hodd)
      simp [hflags]
  · rintro rfl
    cases valid <;> decide

variable {frontier : SessionFrontier}

theorem validateFrontier_counts (h : validateFrontier frontier = .ok ()) :
    frontier.version = frontierVersion ∧ frontier.tokens.length ≤ maxContext := by
  have hheader := failIf_ok.mp (except_bind_unit_ok.mp h).1
  exact ⟨not_not.mp fun hne => hheader (.inl hne), not_lt.mp fun hlt => hheader (.inr (.inr (.inr (.inl hlt))))⟩

@[simp] theorem header_length (frontier : SessionFrontier) : frontier.header.length = 1324 := by
  simp only [SessionFrontier.header, List.length_append, putU64_length, putU32_length, putF32_length,
    putU32s_length, putU64s_length, Vector.length_toList]
  rfl

theorem body_length (frontier : SessionFrontier) :
    (frontier.body sha256).length = frontierHeaderBytes + frontier.tokens.length * 4 := by
  simp [SessionFrontier.body, frontierHeaderBytes]
  omega

theorem wire_length (frontier : SessionFrontier) :
    (frontier.wire sha256).length = frontierBytes frontier.tokens.length := by
  simp [SessionFrontier.wire, body_length, frontierBytes, frontierDigestBytes]

theorem header_at : At p 0 frontier.header ↔
    At p 0 (putU64 frontierMagic) ∧ At p 8 (putU32 frontier.version) ∧
    At p 12 (putU32 (.ofNat frontierHeaderBytes)) ∧ At p 16 (putU32 (.ofNat (frontierBytes frontier.tokens.length))) ∧
    At p 20 (putU32 frontier.positionMode) ∧ At p 24 (putU32 (if frontier.nextTokenValid then 1 else 0)) ∧
    At p 28 (putU64 frontier.generation) ∧ At p 36 (putU64 frontier.committedTokens) ∧
    At p 44 (putU64 (.ofNat frontier.tokens.length)) ∧ At p 52 (putU32 frontier.nextToken) ∧
    At p 56 (putF32 frontier.nextLogit) ∧ At p 60 (putU32s frontier.position.toList) ∧
    At p 76 frontier.identitySha256.toList ∧ At p 108 frontier.renderedTranscriptSha256.toList ∧
    At p 140 frontier.nextTokenStateSha256.toList ∧ At p 172 (putU64s frontier.qsaLengths.toList) ∧
    At p 556 (putU64s frontier.gdnLengths.toList) ∧ At p 940 (putU64s frontier.pleLengths.toList) := by
  have hlayers : layerCount * 8 = 384 := rfl
  simp only [SessionFrontier.header, at_append, List.length_append, putU64_length, putU32_length, putF32_length,
    putU32s_length, putU64s_length, Vector.length_toList, hlayers, and_assoc]

theorem body_at : At p 0 (frontier.body sha256) ↔
    At p 0 frontier.header ∧ At p 1324 (tokenHistoryDigest sha256 frontier).toList ∧
      At p frontierHeaderBytes (putTokens frontier.tokens) := by
  have hheader : frontierHeaderBytes = 1324 + 32 := rfl
  simp only [SessionFrontier.body, at_append, List.length_append, header_length, Vector.length_toList, Nat.zero_add,
    hheader, and_assoc]

theorem frontierBytes_lt {count : Nat} (h : count ≤ maxContext) : frontierBytes count < 2 ^ 32 := by
  rw [maxContext] at h
  rw [frontierBytes, frontierHeaderBytes, frontierDigestBytes]
  omega

theorem wire_of_decode {tokenCapacity : Nat} (h : (sessionFrontierDecode sha256 tokenCapacity).run p = .ok frontier) :
    p = frontier.wire sha256 ∧ validateFrontier frontier = .ok () ∧ filled sha256 frontier = frontier := by
  simp [sessionFrontierDecode, tokens_ok] at h
  obtain ⟨⟨-, h0, h8, h12, total, h16, htotal⟩, count, h44, ⟨hlength, -⟩, hashed, ⟨hhashed, hat⟩, hdigest, version, hv,
    mode, h20, flags, h24, hknown, generation, h28, committed, h36, next, h52, logit, h56, position, h60, identity, h76,
    rendered, h108, state, h140, qsa, h172, gdn, h556, ple, h940, tokens, hhistory, ⟨hcount, htokens⟩, hvalid,
    hfrontier⟩ := h
  have hbound := frontierBytes_lt (validateFrontier_counts hvalid).2
  rw [← hcount, Nat.mod_eq_of_lt (hbound.trans (by decide))] at hlength
  rw [(toNat_eq_iff32.mp (hlength.symm.trans htotal)).1] at h16
  rw [(toNat_eq_iff64.mp hcount).1] at h44
  rw [frontierFlags_iff.mp ⟨hknown, rfl⟩] at h24
  have htokenList : frontier.tokens = tokens := by rw [← hfrontier]
  have hbodyAt : At p 0 (frontier.body sha256) := by
    rw [← hfrontier]
    exact body_at.mpr ⟨header_at.mpr ⟨h0, hv, h12, h16, h20, h24, h28, h36, h44, h52, h56, h60, h76, h108, h140, h172,
      h556, h940⟩, hhistory, htokens⟩
  have hbodyLength : (frontier.body sha256).length = p.length - frontierDigestBytes := by
    rw [body_length, htokenList, hlength, frontierBytes, Nat.add_sub_cancel]
  have hbody : hashed = frontier.body sha256 := at_unique hat hbodyAt (hhashed.trans hbodyLength.symm)
  refine ⟨eq_iff_at.mpr ⟨?_, ?_⟩, ?_, ?_⟩
  · rw [wire_length, htokenList, hlength]
  · rw [SessionFrontier.wire, at_append, Nat.zero_add, hbodyLength]
    rw [hbody] at hdigest
    exact ⟨hbodyAt, hdigest⟩
  · rw [← hfrontier]
    exact hvalid
  · have hhistoryField : frontier.tokenHistorySha256 = tokenHistoryDigest sha256 frontier := by
      rw [tokenHistoryDigest, htokenList, ← hfrontier]
    have hdigestField : frontier.frontierSha256 = frontierDigest sha256 frontier := by
      rw [frontierDigest, ← hbody, ← hfrontier]
    rw [filled, ← hhistoryField, ← hdigestField]

theorem validate_filled (frontier : SessionFrontier) :
    validateFrontier (filled sha256 frontier) = validateFrontier frontier := rfl

theorem decode_wire {tokenCapacity : Nat} (hvalid : validateFrontier frontier = .ok ())
    (hroom : frontier.tokens.length ≤ tokenCapacity) :
    (sessionFrontierDecode sha256 tokenCapacity).run (frontier.wire sha256) = .ok (filled sha256 frontier) := by
  have hlength := @wire_length sha256 frontier
  have hwireAt : At (frontier.wire sha256) 0 (frontier.body sha256 ++ (frontierDigest sha256 frontier).toList) :=
    (eq_iff_at.mp rfl).2
  obtain ⟨hbodyAt, hdigest⟩ := at_append.mp hwireAt
  obtain ⟨hheaderAt, hhistory, htokens⟩ := body_at.mp hbodyAt
  obtain ⟨h0, h8, h12, h16, h20, h24, h28, h36, h44, h52, h56, h60, h76, h108, h140, h172, h556, h940⟩ :=
    header_at.mp hheaderAt
  obtain ⟨hversion, hcount⟩ := validateFrontier_counts hvalid
  have hbound := frontierBytes_lt hcount
  have htotal : frontierBytes frontier.tokens.length = (UInt32.ofNat (frontierBytes frontier.tokens.length)).toNat :=
    toNat_eq_iff32.mpr ⟨rfl, hbound⟩
  have hcounted : frontier.tokens.length = (UInt64.ofNat frontier.tokens.length).toNat :=
    toNat_eq_iff64.mpr ⟨rfl, by rw [maxContext] at hcount; omega⟩
  obtain ⟨hknown, hflag⟩ := frontierFlags_iff.mpr (rfl : (if frontier.nextTokenValid then 1 else 0 : UInt32) = _)
  have hbodyLength : (frontier.body sha256).length = frontierBytes frontier.tokens.length - frontierDigestBytes := by
    rw [body_length, frontierBytes, Nat.add_sub_cancel]
  have hheader : frontierHeaderBytes + frontierDigestBytes ≤ frontierBytes frontier.tokens.length := by
    rw [frontierBytes]
    omega
  rw [Nat.zero_add, hbodyLength] at hdigest
  have hcurrent := h8
  rw [hversion] at hcurrent
  simp [sessionFrontierDecode, tokens_ok, hlength]
  refine ⟨⟨hheader, h0, hcurrent, h12, _, h16, htotal⟩, _, h44, ⟨?_, ?_⟩, _, ⟨hbodyLength, hbodyAt⟩, hdigest, _, h8, _, h20, _,
    h24, hknown, _, h28, _, h36, _, h52, _, h56, _, h60, _, h76, _, h108, _, h140, _, h172, _, h556, _, h940, _, hhistory,
    ⟨hcounted, htokens⟩, ?_, ?_⟩
  · rw [← hcounted, Nat.mod_eq_of_lt (hbound.trans (by decide))]
  · rwa [← hcounted]
  · rw [hflag]
    exact (validate_filled frontier).trans hvalid
  · rw [hflag]
    rfl

/-- A checkpoint is taken up under an identity just if its identity payload is, byte for byte, the encoding of it. -/
theorem sessionIdentity_resumed_iff (sha256 : List UInt8 → Digest) (expected : SessionIdentity) (p : List UInt8) :
    (∃ actual, (sessionIdentityDecode sha256).run p = .ok actual ∧
      sessionIdentityValidateCompatible sha256 expected actual = .ok ()) ↔
    sessionIdentityEncode sha256 expected = .ok p := by
  constructor
  · rintro ⟨actual, hdecode, hcompatible⟩
    obtain ⟨rfl, hvalid⟩ := sessionIdentityDecode_ok.mp hdecode
    simp [sessionIdentityValidateCompatible] at hcompatible
    obtain ⟨hexpected, -, hfields⟩ := hcompatible
    have hsame : expected = actual := by
      simp [validateIdentity] at hvalid hexpected
      cases expected
      cases actual
      simp_all
    rw [hsame, sessionIdentityEncode, hvalid]
    rfl
  · intro hencode
    simp [sessionIdentityEncode] at hencode
    refine ⟨expected, sessionIdentityDecode_ok.mpr ⟨hencode.2.symm, hencode.1⟩, ?_⟩
    simp [sessionIdentityValidateCompatible, hencode.1]

theorem sessionFrontier_roundTrip {capacity tokenCapacity : Nat}
    (h : sessionFrontierEncode sha256 capacity frontier = .ok p) (hroom : frontier.tokens.length ≤ tokenCapacity) :
    (sessionFrontierDecode sha256 tokenCapacity).run p = .ok (filled sha256 frontier) := by
  simp [sessionFrontierEncode] at h
  obtain ⟨hvalid, -, rfl⟩ := h
  exact decode_wire hvalid hroom

theorem sessionFrontier_canonical {capacity tokenCapacity : Nat}
    (h : (sessionFrontierDecode sha256 tokenCapacity).run p = .ok frontier) (hcapacity : p.length ≤ capacity) :
    sessionFrontierEncode sha256 capacity frontier = .ok p := by
  obtain ⟨hwire, hvalid, -⟩ := wire_of_decode h
  have hbound := frontierBytes_lt (validateFrontier_counts hvalid).2
  rw [hwire, wire_length] at hcapacity
  rw [hwire]
  simp [sessionFrontierEncode, hvalid, hcapacity]
  omega

/-- Encoding and decoding a frontier undo each other, whatever the digest function: what is encoded is decoded,
with its digests filled in, and what is decoded is encoded again to the same bytes, so that equal frontiers come
from equal bytes. -/
theorem sessionFrontier_codec (sha256 : List UInt8 → Digest) :
    (∀ capacity tokenCapacity frontier p, sessionFrontierEncode sha256 capacity frontier = .ok p →
      frontier.tokens.length ≤ tokenCapacity →
      (sessionFrontierDecode sha256 tokenCapacity).run p = .ok (filled sha256 frontier)) ∧
    (∀ capacity tokenCapacity frontier p, (sessionFrontierDecode sha256 tokenCapacity).run p = .ok frontier →
      p.length ≤ capacity → sessionFrontierEncode sha256 capacity frontier = .ok p) ∧
    (∀ tokenCapacity tokenCapacity' frontier p p', (sessionFrontierDecode sha256 tokenCapacity).run p = .ok frontier →
      (sessionFrontierDecode sha256 tokenCapacity').run p' = .ok frontier → p = p') := by
  refine ⟨fun _ _ _ _ h hroom => sessionFrontier_roundTrip h hroom,
    fun _ _ _ _ h hcapacity => sessionFrontier_canonical h hcapacity, ?_⟩
  intro _ _ frontier p p' h h'
  rw [(wire_of_decode h).1, (wire_of_decode h').1]

/-- A frontier after two tokens. -/
def shortFrontier : SessionFrontier :=
  ⟨1, 0, 1, 2, false, 0, ⟨0⟩, .replicate 4 0, .replicate 32 1, .replicate 32 1, .replicate 32 0, .replicate 32 0,
    .replicate layerCount 2, .replicate layerCount 2, .replicate layerCount 2, [5, 7], .replicate 32 0⟩

theorem shortFrontier_valid : validateFrontier shortFrontier = .ok () := by
  have hlayers : shortFrontier.checkLayers = .ok () := by
    have hnone : (List.finRange layerCount).find? shortFrontier.exceeds = none :=
      List.find?_eq_none.mpr fun layer _ => by simp [SessionFrontier.exceeds, shortFrontier]
    rw [SessionFrontier.checkLayers, hnone]
  have htokens : shortFrontier.checkTokens = .ok () := by rfl
  have hone : ¬DigestZero (.replicate 32 1) := by simp [DigestZero]
  have hzero : DigestZero (.replicate 32 0) := by simp [DigestZero]
  simp only [validateFrontier, except_bind_unit_ok, failIf_ok]
  refine ⟨?_, ?_, ?_, hlayers, htokens⟩ <;>
    simp [shortFrontier, frontierVersion, maxContext, hone, hzero]

theorem sessionFrontier_codec_short : ∃ p,
    sessionFrontierEncode (fun _ => .replicate 32 9) 4096 shortFrontier = .ok p ∧
    (sessionFrontierDecode (fun _ => .replicate 32 9) 2).run p = .ok (filled (fun _ => .replicate 32 9) shortFrontier) := by
  have hbytes : frontierBytes shortFrontier.tokens.length = 1396 := by
    simp [frontierBytes, frontierHeaderBytes, frontierDigestBytes, shortFrontier]
  have hencode : sessionFrontierEncode (fun _ => .replicate 32 9) 4096 shortFrontier =
      .ok (shortFrontier.wire fun _ => .replicate 32 9) := by
    simp [sessionFrontierEncode, shortFrontier_valid, hbytes]
  exact ⟨_, hencode, (sessionFrontier_codec _).1 4096 2 shortFrontier _ hencode (by decide)⟩

end FlashGordon.Session
