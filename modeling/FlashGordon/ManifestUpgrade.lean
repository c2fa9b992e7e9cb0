import FlashGordon.ManifestValidate

/-!
`fg_manifest_upgrade_with_profile`: the manifest of a file, perhaps under another runtime profile, is
written again in the current format. A profile gives every rank new scratch and state ledgers, which
nothing compares with the residency cap before the next read does.
-/

namespace FlashGordon.SealedManifest

open Checks

def nativeContext : UInt32 := 262144

/-- `fg_runtime_profile_definition`. -/
structure RuntimeProfile where
  id : UInt32
  name : String
  logicalContextTokens : UInt32
  gpuIndexTokens : UInt32
  qsaHotTokens : UInt32
  qsaPageCacheBytes : UInt64
  prefillMicrobatch : UInt32
  prefillWindow : UInt32
  maxContext : UInt32
  positionMode : UInt32

def profileNone : UInt32 := 0

def runtimeProfiles : List RuntimeProfile :=
  [⟨1, "native-262k-microbatch-128", nativeContext, nativeContext, 0, 16777216, 128, 2, nativeContext,
      positionText⟩,
    ⟨2, "native-262k-microbatch-256", nativeContext, nativeContext, 0, 16777216, 256, 2, nativeContext,
      positionText⟩]

/-- `fg_runtime_profile_definition_get`. -/
def profileGet (profile : UInt32) : Option RuntimeProfile := runtimeProfiles.find? fun p => p.id = profile

def stagedContext (tokens : UInt32) : Prop :=
  tokens = 32768 ∨ tokens = 65536 ∨ tokens = 131072 ∨ tokens = 262144

instance (tokens : UInt32) : Decidable (stagedContext tokens) := inferInstanceAs (Decidable (_ ∨ _))

/-- `fg_runtime_profile_validate`, on the options of a profile. -/
def profileValidate (p : RuntimeProfile) (native : UInt32) : Except Error Unit := do
  refuse (native = 0) ⟨.argument, "invalid runtime profile"⟩
  refuse (native < p.logicalContextTokens)
    ⟨.limit, s!"logical context {p.logicalContextTokens} exceeds native context {native}"⟩
  if p.logicalContextTokens = defaultContextTokens then
    refuse (p.gpuIndexTokens ≠ defaultContextTokens ∨ p.qsaHotTokens ≠ defaultContextTokens ∨
        p.qsaPageCacheBytes ≠ 0)
      ⟨.mismatch, "default QSA profile must be 8192/8192/8192/0"⟩
  else do
    refuse (¬ stagedContext p.logicalContextTokens)
      ⟨.unavailable,
        s!"logical context {p.logicalContextTokens} is not a staged 32K, 64K, 128K, or 262K profile"⟩
    refuse (p.gpuIndexTokens ≠ p.logicalContextTokens)
      ⟨.mismatch, s!"native QSA requires GPU index tokens {p.gpuIndexTokens} to equal logical context {p.logicalContextTokens}"⟩
    refuse (p.qsaHotTokens ≠ 0 ∧ p.qsaHotTokens ≠ defaultContextTokens)
      ⟨.mismatch, "tiered QSA hot-token compatibility hint must be zero or 8192"⟩
    refuse (p.qsaPageCacheBytes < 16777216 ∨ 1073741824 < p.qsaPageCacheBytes ∨
        p.qsaPageCacheBytes &&& 1048575 ≠ 0)
      ⟨.argument, "staged QSA page cache must be a whole MiB from 16 to 1024 MiB"⟩

def qualified (microbatch : UInt32) : Prop := microbatch = 128 ∨ microbatch = 256 ∨ microbatch = 512

instance (microbatch : UInt32) : Decidable (qualified microbatch) := inferInstanceAs (Decidable (_ ∨ _))

def defaultBudgets (m : Manifest) : Prop :=
  m.session.logicalContextTokens = bootContext m ∧ m.session.gpuIndexTokens = bootContext m ∧
    m.session.qsaHotRecordTokens = bootContext m ∧ m.session.hostPageCacheBytes = 0

def profileBudgets (m : Manifest) (p : RuntimeProfile) : Prop :=
  m.session.logicalContextTokens = p.logicalContextTokens ∧ m.session.gpuIndexTokens = p.gpuIndexTokens ∧
    m.session.qsaHotRecordTokens = p.qsaHotTokens ∧ m.session.hostPageCacheBytes = p.qsaPageCacheBytes

instance (m : Manifest) : Decidable (defaultBudgets m) := inferInstanceAs (Decidable (_ ∧ _))

instance (m : Manifest) (p : RuntimeProfile) : Decidable (profileBudgets m p) :=
  inferInstanceAs (Decidable (_ ∧ _))

/-- What `fg_runtime_profile_apply` asks of a manifest before it writes the profile into it. -/
def profileCompatible (m : Manifest) (p : RuntimeProfile) : Except Error Unit := do
  refuse (m.formatVersion ≠ legacyFormatVersion ∧ m.formatVersion ≠ sessionFormatVersion ∧
      m.formatVersion ≠ formatVersion)
    ⟨.mismatch, s!"runtime profile {p.name} is incompatible with manifest format v{m.formatVersion}"⟩
  refuse (m.magic ≠ manifestMagic ∨ m.nativeContext ≠ p.logicalContextTokens)
    ⟨.mismatch, s!"runtime profile {p.name} is incompatible with manifest native context"⟩
  refuse (m.executionMode ≠ expertParallel)
    ⟨.mismatch, "retired pipeline manifest is unsupported; repack for expert-parallel"⟩
  refuse (m.session.positionMode ≠ p.positionMode)
    ⟨.mismatch, s!"runtime profile {p.name} requires text position mode"⟩
  refuse (m.prefillWindow ≠ p.prefillWindow)
    ⟨.mismatch, s!"runtime profile {p.name} requires prefill window {p.prefillWindow}"⟩
  refuse (m.prefillMicrobatch ≠ 256 ∧ m.prefillMicrobatch ≠ p.prefillMicrobatch ∧
      ¬ (qualified m.prefillMicrobatch ∧ qualified p.prefillMicrobatch))
    ⟨.mismatch, s!"runtime profile {p.name} cannot replace prefill microbatch {m.prefillMicrobatch}"⟩
  whenever (m.formatVersion ≠ legacyFormatVersion) <|
    refuse (¬ defaultBudgets m ∧ ¬ profileBudgets m p)
      ⟨.mismatch, s!"runtime profile {p.name} is incompatible with existing session budgets"⟩
  profileValidate p m.nativeContext

variable (sha : List UInt8 → Digest)

def RankRecord.reprofile (r : RankRecord) (m : Manifest) (p : RuntimeProfile) (rank : Fin rankCount) :
    RankRecord :=
  { r with
    scratchBytes := runtimeScratchBytes rank p.prefillMicrobatch p.prefillWindow p.maxContext
    kvBytes := (sessionStateBytes m.layerOwner p.maxContext rank).1
    stateFileBytes := (sessionStateBytes m.layerOwner p.maxContext rank).2 }

def Manifest.reprofile (m : Manifest) (p : RuntimeProfile) : Manifest :=
  let m' := { m with
    maxContext := p.maxContext
    prefillMicrobatch := p.prefillMicrobatch
    prefillWindow := p.prefillWindow
    session := { m.session with
      logicalContextTokens := p.logicalContextTokens
      gpuIndexTokens := p.gpuIndexTokens
      qsaHotRecordTokens := p.qsaHotTokens
      hostPageCacheBytes := p.qsaPageCacheBytes } }
  let m' := if m.formatVersion = SealedManifest.formatVersion then
    { m'.setExpertParallelMetadata sha with protocolVersion := SealedManifest.protocolVersion } else m'
  { m' with ranks := fun rank => (m.ranks rank).reprofile m p rank }

/-- `fg_runtime_profile_apply`. -/
def profileApply (m : Manifest) (profile : UInt32) : Except Error Manifest :=
  match profileGet profile with
  | none => .error ⟨.argument, s!"unsupported runtime profile {profile}"⟩
  | some p => do
    profileCompatible m p
    pure (m.reprofile sha p)

/-- `fg_manifest_upgrade_with_profile`; `sameFile` says that both paths lead to one file. -/
def upgradeWithProfile (inputPath outputPath : String) (sameFile : Bool) (profile : UInt32) (file : File) :
    Except Error File := do
  refuse (inputPath = outputPath)
    ⟨.argument, "manifest upgrade requires distinct input and output paths"⟩
  refuse (sameFile = true) ⟨.argument, "manifest upgrade input and output refer to the same file"⟩
  let m ← read sha inputPath file
  let m ← if profile ≠ profileNone then profileApply sha m profile else pure m
  write sha { m with formatVersion := formatVersion }

/-! What reading establishes. -/

/-- What the checks other than the ledgers ask, once the manifest is in the current format. -/
structure Sealable (m : Manifest) : Prop where
  magic : m.magic = manifestMagic
  model : m.rankCount.toNat = rankCount ∧ m.layerCount.toNat = layerCount ∧ m.expertCount.toNat = expertCount ∧
    m.hiddenSize = hiddenSize ∧ m.topK = topK
  limits : checkLimits m = .ok ()
  shards : checkShards m = .ok ()
  tensors : ∀ i ∈ m.tensorIndexes, checkTensor m layoutDenseCompact i = .ok ()
  budgets : GoodBudgets m.nativeContext m.session

/-- What an upgrade has to keep. -/
structure SameContents (m m' : Manifest) : Prop where
  tensorCount : m'.tensorCount = m.tensorCount
  tensors : m'.tensors = m.tensors
  layerOwner : m'.layerOwner = m.layerOwner
  layerGroups : m'.layerGroups = m.layerGroups
  expertRank : m'.expertRank = m.expertRank
  persistent : ∀ rank, (m'.ranks rank).persistentBytes = (m.ranks rank).persistentBytes

theorem SameContents.symm {a b : Manifest} (h : SameContents a b) : SameContents b a where
  tensorCount := h.tensorCount.symm
  tensors := h.tensors.symm
  layerOwner := h.layerOwner.symm
  layerGroups := h.layerGroups.symm
  expertRank := h.expertRank.symm
  persistent := fun rank => (h.persistent rank).symm

theorem SameContents.trans {a b c : Manifest} (hab : SameContents a b) (hbc : SameContents b c) :
    SameContents a c where
  tensorCount := hbc.tensorCount.trans hab.tensorCount
  tensors := hbc.tensors.trans hab.tensors
  layerOwner := hbc.layerOwner.trans hab.layerOwner
  layerGroups := hbc.layerGroups.trans hab.layerGroups
  expertRank := hbc.expertRank.trans hab.expertRank
  persistent := fun rank => (hbc.persistent rank).trans (hab.persistent rank)

variable {sha}

variable {m : Manifest}

theorem goodBudgets_of_validateContract (h : validateContract sha m = .ok ()) :
    GoodBudgets m.nativeContext m.session := by
  simp only [validateContract, bind_eq_ok, exists_unit, refuse_eq_ok, not_or, not_not, UInt32.not_lt] at h
  obtain ⟨⟨-, -, hmode, -⟩, ⟨hlogical, hnative, hindex, hle, hhot, hrecords⟩, -, -⟩ := h
  exact ⟨hmode, hlogical, hnative, hindex, hle, hhot, hrecords⟩

theorem goodBudgets_boot (hsession : m.session = zeroContract) (hnative : m.nativeContext ≠ 0) :
    GoodBudgets m.nativeContext (buildContract sha m) := by
  have hle : bootContext m ≤ m.nativeContext := by
    rw [bootContext]
    split
    · exact UInt32.le_refl _
    · exact UInt32.not_lt.mp ‹_›
  have hne : bootContext m ≠ 0 := by
    rw [bootContext]
    split
    · exact hnative
    · decide
  have hfill : fillBudgets m m.session =
      { zeroContract with
        version := contractVersion, minimumProtocolVersion := minimumProtocol m, flags := 0
        logicalContextTokens := bootContext m, gpuIndexTokens := bootContext m
        qsaHotRecordTokens := bootContext m } := by
    rw [hsession]
    rfl
  rw [buildContract, hfill]
  have hmode : zeroContract.positionMode ≤ positionFourAxis := by decide
  exact ⟨hmode, hne, hle, hne, UInt32.le_refl _, UInt32.le_refl _, fun h => hne h.1⟩

theorem File.load_formatVersion (file : File) : file.load.formatVersion = file.image.formatVersion := by
  rw [File.load]
  split
  · rfl
  · split <;> rfl

theorem checkShards_load {file : File} (hversion : file.image.formatVersion = legacyFormatVersion ∨
    file.image.formatVersion = sessionFormatVersion) : checkShards file.load = .ok () := by
  have hclear (m : Manifest) : checkShards m.clearTail = .ok () := by
    simp only [checkShards, bind_eq_ok, exists_unit, refuse_eq_ok]
    refine ⟨fun h => h.elim (Nat.not_lt_zero _) (fun h => h rfl), ?_, ?_⟩
    · rintro ⟨i, -, hi⟩
      exact hi rfl
    · rintro ⟨-, rank, hrank⟩
      exact hrank rfl
  rw [File.load]
  split
  · exact hclear file.image
  · rw [if_pos (hversion.resolve_left ‹_›)]
    exact hclear file.image

theorem maximumLayout_le (m : Manifest) : maximumLayout m ≤ layoutDenseCompact := by
  rw [maximumLayout]
  split <;> decide

theorem Sealable.setMetadata (h : Sealable m) : Sealable (m.setExpertParallelMetadata sha) where
  magic := h.magic
  model := h.model
  limits := h.limits
  shards := h.shards
  tensors := fun i hi => checkTensor_mono (UInt8.le_refl _) rfl rfl (h.tensors i hi)
  budgets := h.budgets

variable {rank : Fin rankCount}

theorem checkResident_ok {r : RankRecord} {required : UInt64}
    {resident : Option UInt64} : checkResident m rank r required resident = .ok () ↔
      (required ≠ u64Max ∧ required ≤ r.scratchBytes) ∧ r.persistentBytes ≤ m.persistentCapBytes ∧
        ∃ total, resident = some total ∧ total ≤ m.residencyCapBytes := by
  cases resident with
  | none => simp [checkResident]
  | some total =>
    simp only [checkResident, bind_eq_ok, exists_unit, refuse_eq_ok, not_or, UInt64.not_lt,
      Option.some.injEq, exists_eq_left']

variable {m m' : Manifest}

theorem checkRank_congr (hledger : m'.ranks rank = m.ranks rank)
    (hmicrobatch : m'.prefillMicrobatch = m.prefillMicrobatch) (hwindow : m'.prefillWindow = m.prefillWindow)
    (hcontext : m'.maxContext = m.maxContext) (hpersistent : m'.persistentCapBytes = m.persistentCapBytes)
    (hresidency : m'.residencyCapBytes = m.residencyCapBytes) :
    checkRank m' rank = .ok () ↔ checkRank m rank = .ok () := by
  rw [checkRank, checkRank, checkResident_ok, checkResident_ok, hledger, hmicrobatch, hwindow, hcontext,
    hpersistent, hresidency]

section

variable (h : validate sha m = .ok ())
include h

theorem sealable_of_validate (hshards : m.formatVersion ≠ formatVersion → checkShards m = .ok ()) {c : Contract}
    (hc : GoodBudgets m.nativeContext c) :
    Sealable { m with session := c } ∧ ∀ rank, checkRank { m with session := c } rank = .ok () := by
  simp only [validate, checkHeader, bind_eq_ok, exists_unit, refuse_eq_ok, whenever_eq_ok, forM_eq_ok,
    not_or, not_not] at h
  obtain ⟨⟨hmagic, -, hmodel⟩, hlimits, hcurrent, htensors, hranks, -, -, -⟩ := h
  constructor
  · refine ⟨hmagic, hmodel, hlimits, ?_, fun i hi => ?_, hc⟩
    · by_cases hversion : m.formatVersion = formatVersion
      · exact hcurrent hversion
      · exact hshards hversion
    · exact checkTensor_mono (maximumLayout_le m) rfl rfl (htensors i hi)
  · intro rank
    have hcongr : checkRank { m with session := c } rank = .ok () ↔ checkRank m rank = .ok () :=
      checkRank_congr rfl rfl rfl rfl rfl rfl
    exact hcongr.mpr (hranks rank (List.mem_finRange rank))

theorem goodBudgets_of_validate (hversion : m.formatVersion = sessionFormatVersion ∨ m.formatVersion = formatVersion) :
    GoodBudgets m.nativeContext m.session := by
  simp only [validate, bind_eq_ok, exists_unit, whenever_eq_ok] at h
  obtain ⟨-, -, -, -, -, -, hcontract, -⟩ := h
  exact goodBudgets_of_validateContract (hcontract hversion)

theorem native_ne_of_validate : m.nativeContext ≠ 0 := by
  simp only [validate, checkLimits, bind_eq_ok, exists_unit, refuse_eq_ok, not_or] at h
  obtain ⟨-, ⟨⟨hnative, -⟩, -⟩, -⟩ := h
  exact hnative

theorem sealable_finish (hversion : m.formatVersion = legacyFormatVersion ∨ m.formatVersion = sessionFormatVersion ∨
      m.formatVersion = formatVersion)
    (hshards : m.formatVersion ≠ formatVersion → checkShards m = .ok ())
    (hsession : m.formatVersion = legacyFormatVersion → m.session = zeroContract) :
    Sealable (finish sha m) ∧ ∀ rank, checkRank (finish sha m) rank = .ok () := by
  have hmetadata {m' : Manifest} (hm' : Sealable m' ∧ ∀ rank, checkRank m' rank = .ok ()) :
      Sealable (m'.setExpertParallelMetadata sha) ∧
        ∀ rank, checkRank (m'.setExpertParallelMetadata sha) rank = .ok () := by
    refine ⟨hm'.1.setMetadata, fun rank => ?_⟩
    have hcongr : checkRank (m'.setExpertParallelMetadata sha) rank = .ok () ↔ checkRank m' rank = .ok () :=
      checkRank_congr rfl rfl rfl rfl rfl rfl
    exact hcongr.mpr (hm'.2 rank)
  by_cases hlegacy : m.formatVersion = legacyFormatVersion
  · have hgood : GoodBudgets m.nativeContext (buildContract sha m) :=
      goodBudgets_boot (hsession hlegacy) (native_ne_of_validate h)
    have hne : m.formatVersion ≠ formatVersion := by
      rw [hlegacy]
      decide
    rw [finish, if_pos hlegacy, if_pos hne]
    exact hmetadata (sealable_of_validate h hshards hgood)
  · have hgood := goodBudgets_of_validate h (hversion.resolve_left hlegacy)
    have hloaded : Sealable m ∧ ∀ rank, checkRank m rank = .ok () := sealable_of_validate h hshards hgood
    rw [finish, if_neg hlegacy]
    by_cases hcurrent : m.formatVersion = formatVersion
    · rw [if_neg (not_not.mpr hcurrent)]
      exact hloaded
    · rw [if_pos hcurrent]
      exact hmetadata hloaded

end

theorem sealable_of_read {path : String} {file : File} (h : read sha path file = .ok m) :
    Sealable m ∧ ∀ rank, checkRank m rank = .ok () := by
  simp only [read, bind_eq_ok, exists_unit, refuse_eq_ok, pure_eq_ok] at h
  obtain ⟨-, hversion, -, hvalid, hfinish⟩ := h
  have hversion' : file.image.formatVersion = legacyFormatVersion ∨
      file.image.formatVersion = sessionFormatVersion ∨ file.image.formatVersion = formatVersion := by
    by_contra hnot
    rw [not_or, not_or] at hnot
    exact hversion hnot
  have hshards (hne : file.load.formatVersion ≠ formatVersion) : checkShards file.load = .ok () := by
    rw [file.load_formatVersion] at hne
    exact checkShards_load (by rcases hversion' with h | h | h <;> simp_all)
  have hsession (hlegacy : file.load.formatVersion = legacyFormatVersion) : file.load.session = zeroContract := by
    rw [file.load_formatVersion] at hlegacy
    rw [File.load, if_pos hlegacy]
  rw [← file.load_formatVersion] at hversion'
  rw [← hfinish]
  exact sealable_finish hvalid hversion' hshards hsession

/-! What writing leaves, and when it can be read again. -/

def Manifest.restamp (sha : List UInt8 → Digest) (m : Manifest) : Manifest :=
  ({ m with protocolVersion := SealedManifest.protocolVersion, headerBytes := .ofNat manifestSize }).sealTopology
    sha

/-- The manifest that `fg_manifest_write` writes in the current format. -/
def Manifest.reseal (sha : List UInt8 → Digest) (m : Manifest) : Manifest :=
  let m := { m.restamp sha with session := buildContract sha (m.restamp sha) }
  { m with manifestSha256 := manifestDigest sha m }

theorem manifestBytes_reseal (hversion : m.formatVersion = formatVersion) :
    manifestBytes (m.reseal sha) = manifestSize := by
  have hformat : (m.reseal sha).formatVersion = formatVersion := hversion
  rw [manifestBytes, hformat]
  rfl

theorem write_current {out : File} (hversion : m.formatVersion = formatVersion) (h : write sha m = .ok out) :
    topologyValidate sha (m.restamp sha) = .ok () ∧ out = ⟨manifestSize, m.reseal sha⟩ := by
  simp only [write, prepare, if_pos hversion, bind_eq_ok, exists_unit, refuse_eq_ok, pure_eq_ok] at h
  obtain ⟨b, ⟨htopology, rfl⟩, -, rfl⟩ := h
  exact ⟨htopology, congrArg (File.mk · (m.reseal sha)) (manifestBytes_reseal hversion)⟩

theorem buildContract_manifestSha256 (m : Manifest) (d : Digest) :
    buildContract sha { m with manifestSha256 := d } = buildContract sha m := rfl

theorem validateContract_reseal (h : Sealable m) : validateContract sha (m.reseal sha) = .ok () := by
  have hbudgets : GoodBudgets (m.restamp sha).nativeContext (m.restamp sha).session := h.budgets
  have hsession : (m.reseal sha).session = buildContract sha (m.restamp sha) := rfl
  have hexpected : buildContract sha (m.reseal sha) = buildContract sha (m.restamp sha) := by
    rw [Manifest.reseal, buildContract_manifestSha256, buildContract_idem hbudgets]
  have hgood : GoodBudgets m.nativeContext (buildContract sha (m.restamp sha)) := hbudgets.built
  simp only [validateContract, bind_eq_ok, exists_unit, refuse_eq_ok, hexpected, hsession]
  refine ⟨?_, ?_, fun hreserved => hreserved rfl, ?_⟩
  · rintro (hne | hne | hmode | hne)
    · exact hne rfl
    · exact hne rfl
    · exact UInt32.not_lt.mpr hgood.mode hmode
    · exact hne rfl
  · rintro (hzero | hnative | hzero | hindex | hhot | hrecords)
    · exact hgood.logical_ne hzero
    · exact UInt32.not_lt.mpr hgood.logical_le hnative
    · exact hgood.index_ne hzero
    · exact UInt32.not_lt.mpr hgood.index_le hindex
    · exact UInt32.not_lt.mpr hgood.hot_le hhot
    · exact hgood.records hrecords
  · rintro (hne | hne | hne | ⟨i, hne⟩ | ⟨rank, hne⟩) <;> exact hne rfl

theorem validate_reseal (hversion : m.formatVersion = formatVersion) (h : Sealable m)
    (htopology : topologyValidate sha (m.restamp sha) = .ok ()) :
    validate sha (m.reseal sha) = .ok () ↔ ∀ rank, checkRank m rank = .ok () := by
  have hformat : (m.reseal sha).formatVersion = formatVersion := hversion
  have hheader : checkHeader (m.reseal sha) = .ok () := by
    have hminimum : minimumProtocol (m.reseal sha) = protocolVersion := by
      rw [minimumProtocol, hformat]
      rfl
    have hbytes : manifestBytes (m.reseal sha) = manifestSize := manifestBytes_reseal hversion
    obtain ⟨hranks, hlayers, hexperts, hhidden, htop⟩ := h.model
    simp only [checkHeader, bind_eq_ok, exists_unit, refuse_eq_ok, hminimum, hbytes, hformat]
    refine ⟨fun hne => hne h.magic, ?_, ?_⟩
    · rintro (⟨-, -, hne⟩ | hne | hne) <;> exact hne rfl
    · rintro (hne | hne | hne | hne | hne)
      · exact hne hranks
      · exact hne hlayers
      · exact hne hexperts
      · exact hne hhidden
      · exact hne htop
  have hlimits : checkLimits (m.reseal sha) = .ok () := h.limits
  have hshards : checkShards (m.reseal sha) = .ok () := h.shards
  have htensors (i) (hi : i ∈ (m.reseal sha).tensorIndexes) :
      checkTensor (m.reseal sha) (maximumLayout (m.reseal sha)) i = .ok () := by
    rw [maximumLayout, if_pos hformat]
    exact checkTensor_mono (UInt8.le_refl _) rfl rfl (h.tensors i hi)
  have hsealed : topologyValidate sha (m.reseal sha) = .ok () := htopology
  have hcontract : validateContract sha (m.reseal sha) = .ok () := validateContract_reseal h
  have hdigest : manifestDigest sha (m.reseal sha) = (m.reseal sha).manifestSha256 := rfl
  have hrank (rank) : checkRank (m.reseal sha) rank = .ok () ↔ checkRank m rank = .ok () :=
    checkRank_congr rfl rfl rfl rfl rfl rfl
  simp only [validate, bind_eq_ok, exists_unit, refuse_eq_ok, whenever_eq_ok, forM_eq_ok]
  constructor
  · rintro ⟨-, -, -, -, hranks, -⟩ rank
    exact (hrank rank).mp (hranks rank (List.mem_finRange rank))
  · intro hranks
    refine ⟨hheader, hlimits, fun _ => hshards, htensors, fun rank _ => (hrank rank).mpr (hranks rank), hsealed,
      fun _ => hcontract, fun hne => hne hdigest⟩

theorem read_reseal {path : String} (hversion : m.formatVersion = formatVersion) :
    read sha path ⟨manifestSize, m.reseal sha⟩ = .ok m' ↔
      validate sha (m.reseal sha) = .ok () ∧ m' = m.reseal sha := by
  have hformat : (m.reseal sha).formatVersion = formatVersion := hversion
  have hload : File.load ⟨manifestSize, m.reseal sha⟩ = m.reseal sha := by
    rw [File.load]
    simp only [hformat]
    rfl
  have hbytes : manifestBytes (m.reseal sha) = manifestSize := manifestBytes_reseal hversion
  have hfinish : finish sha (m.reseal sha) = m.reseal sha := by
    have hlater : ¬ (m.reseal sha).formatVersion = legacyFormatVersion := by
      rw [hformat]
      decide
    rw [finish, if_neg hlater]
    exact if_neg (not_not.mpr hformat)
  simp only [read, bind_eq_ok, exists_unit, refuse_eq_ok, pure_eq_ok, hload, hbytes, hformat, hfinish]
  constructor
  · rintro ⟨-, -, -, hvalid, hm⟩
    exact ⟨hvalid, hm.symm⟩
  · rintro ⟨hvalid, rfl⟩
    exact ⟨by decide, fun hnone => hnone.2.2 rfl, fun hne => hne rfl, hvalid, rfl⟩

theorem Sealable.setVersion (h : Sealable m) : Sealable { m with formatVersion := formatVersion } where
  magic := h.magic
  model := h.model
  limits := h.limits
  shards := h.shards
  tensors := fun i hi => checkTensor_mono (UInt8.le_refl _) rfl rfl (h.tensors i hi)
  budgets := h.budgets

structure Staged (p : RuntimeProfile) : Prop where
  logical : p.logicalContextTokens = nativeContext
  index : p.gpuIndexTokens = nativeContext
  hot : p.qsaHotTokens = 0
  cache : p.qsaPageCacheBytes ≠ 0
  microbatch : p.prefillMicrobatch = 128 ∨ p.prefillMicrobatch = 256
  window : p.prefillWindow = 2
  context : p.maxContext = nativeContext
  scratch : ∀ rank : Fin rankCount,
    runtimeScratchBytes rank p.prefillMicrobatch p.prefillWindow p.maxContext ≠ u64Max

variable {p : RuntimeProfile}

variable {profile : UInt32}

theorem staged_of_profileGet (h : profileGet profile = some p) : Staged p := by
  have hmem : p ∈ runtimeProfiles := List.mem_of_find?_eq_some h
  rw [runtimeProfiles, List.mem_cons, List.mem_singleton] at hmem
  rcases hmem with rfl | rfl
  · exact ⟨rfl, rfl, rfl, by decide, .inl rfl, rfl, rfl, by decide +kernel⟩
  · exact ⟨rfl, rfl, rfl, by decide, .inr rfl, rfl, rfl, by decide +kernel⟩

def Manifest.restage (m : Manifest) (p : RuntimeProfile) : Manifest :=
  { m with
    maxContext := p.maxContext
    prefillMicrobatch := p.prefillMicrobatch
    prefillWindow := p.prefillWindow
    session := { m.session with
      logicalContextTokens := p.logicalContextTokens
      gpuIndexTokens := p.gpuIndexTokens
      qsaHotRecordTokens := p.qsaHotTokens
      hostPageCacheBytes := p.qsaPageCacheBytes }
    ranks := fun rank => (m.ranks rank).reprofile m p rank }

theorem reprofile_eq (m : Manifest) (p : RuntimeProfile) :
    m.reprofile sha p = m.restage p ∨ m.reprofile sha p =
      { (m.restage p).setExpertParallelMetadata sha with protocolVersion := protocolVersion } := by
  rw [Manifest.reprofile]
  split
  · exact .inr rfl
  · exact .inl rfl

theorem Sealable.restage (h : Sealable m) (hp : Staged p)
    (hnative : m.nativeContext = p.logicalContextTokens) : Sealable (m.restage p) where
  magic := h.magic
  model := h.model
  limits := by
    have hlimits := h.limits
    simp only [checkLimits, bind_eq_ok, exists_unit, refuse_eq_ok, not_or] at hlimits ⊢
    have hcontext : (m.restage p).maxContext = nativeContext := hp.context
    have hnative' : (m.restage p).nativeContext = nativeContext := hnative.trans hp.logical
    have hmicrobatch : (m.restage p).prefillMicrobatch = 128 ∨ (m.restage p).prefillMicrobatch = 256 :=
      hp.microbatch
    have hwindow : (m.restage p).prefillWindow = 2 := hp.window
    rw [hcontext, hnative', hwindow]
    refine ⟨⟨by decide, by decide, by decide⟩, ?_, by decide, by decide, hlimits.2.2.2.2⟩
    rcases hmicrobatch with hm | hm
    · exact fun hne => hne.1 hm
    · exact fun hne => hne.2.1 hm
  shards := h.shards
  tensors := fun i hi => checkTensor_mono (UInt8.le_refl _) rfl rfl (h.tensors i hi)
  budgets := by
    have hlogical : p.logicalContextTokens ≠ 0 := by
      rw [hp.logical]
      decide
    have hindex : p.gpuIndexTokens = p.logicalContextTokens := hp.index.trans hp.logical.symm
    have hhot : p.qsaHotTokens ≤ p.logicalContextTokens := by
      rw [hp.hot, hp.logical]
      decide
    have hrecords : ¬ (p.qsaHotTokens = 0 ∧ p.qsaPageCacheBytes = 0) := fun h => hp.cache h.2
    exact ⟨h.budgets.mode, hlogical, UInt32.le_of_eq hnative.symm, fun hz => hlogical (hindex.symm.trans hz),
      UInt32.le_of_eq hindex, hhot, hrecords⟩

/-- A rank's ledger under a profile, below the residency cap. -/
def Fits (m : Manifest) (p : RuntimeProfile) (rank : Fin rankCount) : Prop :=
  (m.ranks rank).persistentBytes.toNat + (m.ranks rank).transientBytes.toNat +
      (sessionStateBytes m.layerOwner p.maxContext rank).1.toNat +
      (runtimeScratchBytes rank p.prefillMicrobatch p.prefillWindow p.maxContext).toNat +
      (m.ranks rank).driverReserveBytes.toNat ≤ m.residencyCapBytes.toNat

instance (m : Manifest) (p : RuntimeProfile) (rank : Fin rankCount) : Decidable (Fits m p rank) :=
  inferInstanceAs (Decidable (_ ≤ _))

theorem addParts_le {cap : UInt64} : ∀ {parts : List UInt64} {total : UInt64},
    (∃ sum, addParts total parts = some sum ∧ sum ≤ cap) ↔
      total.toNat + (parts.map UInt64.toNat).sum ≤ cap.toNat
  | [], total => by
    simp [addParts, UInt64.le_iff_toNat_le]
  | part :: parts, total => by
    have htotal := total.toNat_lt
    have hcap := cap.toNat_lt
    have hroom : (u64Max - total).toNat = 2 ^ 64 - 1 - total.toNat := by
      rw [UInt64.toNat_sub_of_le _ _ (UInt64.le_iff_toNat_le.mpr (by rw [show u64Max.toNat = 2 ^ 64 - 1 from rfl]; omega))]
      rfl
    rw [List.map_cons, List.sum_cons, addParts]
    by_cases hover : u64Max - total < part
    · rw [if_pos hover]
      rw [UInt64.lt_iff_toNat_lt, hroom] at hover
      constructor
      · rintro ⟨sum, hsum, -⟩
        exact absurd hsum (by simp)
      · omega
    · rw [if_neg hover, addParts_le]
      rw [UInt64.lt_iff_toNat_lt, hroom] at hover
      have hadd : (total + part).toNat = total.toNat + part.toNat := by
        rw [UInt64.toNat_add, Nat.mod_eq_of_lt (by omega)]
      rw [hadd, Nat.add_assoc]

theorem checkRank_restage (hp : Staged p)
    (h : checkRank m rank = .ok ()) : checkRank (m.restage p) rank = .ok () ↔ Fits m p rank := by
  have hpersistent : (m.ranks rank).persistentBytes ≤ m.persistentCapBytes := by
    rw [checkRank, checkResident_ok] at h
    exact h.2.1
  rw [checkRank, checkResident_ok]
  have hsum := @addParts_le m.residencyCapBytes
    [(m.ranks rank).transientBytes, (sessionStateBytes m.layerOwner p.maxContext rank).1,
      runtimeScratchBytes rank p.prefillMicrobatch p.prefillWindow p.maxContext,
      (m.ranks rank).driverReserveBytes] (m.ranks rank).persistentBytes
  have hfits : Fits m p rank ↔ ∃ total, ((m.restage p).ranks rank).resident = some total ∧
      total ≤ (m.restage p).residencyCapBytes := by
    refine Iff.trans ?_ hsum.symm
    simp only [Fits, List.map_cons, List.map_nil, List.sum_cons, List.sum_nil]
    omega
  rw [hfits]
  constructor
  · exact fun hok => hok.2.2
  · exact fun hok => ⟨⟨hp.scratch rank, UInt64.le_refl _⟩, hpersistent, hok⟩

theorem checkRank_written :
    checkRank ({ m.reprofile sha p with formatVersion := formatVersion }.reseal sha) rank = .ok () ↔
      checkRank (m.restage p) rank = .ok () := by
  rcases @reprofile_eq sha m p with h | h
  · rw [h]
    exact checkRank_congr rfl rfl rfl rfl rfl rfl
  · rw [h]
    exact checkRank_congr rfl rfl rfl rfl rfl rfl

theorem sameContents_restage (m : Manifest) (p : RuntimeProfile) : SameContents m (m.restage p) :=
  ⟨rfl, rfl, rfl, rfl, rfl, fun _ => rfl⟩

theorem read_write {out : File} {path : String} (h : Sealable m)
    (hw : write sha { m with formatVersion := formatVersion } = .ok out) :
    (∃ m', read sha path out = .ok m' ∧ SameContents m m') ↔ ∀ rank, checkRank m rank = .ok () := by
  obtain ⟨htopology, rfl⟩ := write_current rfl hw
  have hcurrent (rank) : checkRank { m with formatVersion := formatVersion } rank = .ok () ↔
      checkRank m rank = .ok () := checkRank_congr rfl rfl rfl rfl rfl rfl
  have hvalid := validate_reseal rfl h.setVersion htopology
  rw [← forall_congr' hcurrent, ← hvalid]
  constructor
  · rintro ⟨m', hread, -⟩
    exact ((read_reseal rfl).mp hread).1
  · intro hok
    exact ⟨_, (read_reseal rfl).mpr ⟨hok, rfl⟩, rfl, rfl, rfl, rfl, rfl, fun _ => rfl⟩

/-- An upgrade writes a manifest that can be read again, with the contents of the one it read, exactly
when no profile was asked for or every rank fits under the residency cap with the ledgers of the profile. -/
theorem upgrade_readable_iff {inputPath outputPath : String} {sameFile : Bool} {profile : UInt32}
    {file out : File} {m : Manifest} (hread : read sha inputPath file = .ok m)
    (hup : upgradeWithProfile sha inputPath outputPath sameFile profile file = .ok out) :
    (∃ m', read sha outputPath out = .ok m' ∧ SameContents m m') ↔
      profile = profileNone ∨ ∃ p, profileGet profile = some p ∧ ∀ rank, Fits m p rank := by
  obtain ⟨hsealable, hledger⟩ := sealable_of_read hread
  simp only [upgradeWithProfile, bind_eq_ok, exists_unit, refuse_eq_ok] at hup
  obtain ⟨-, -, m₀, hm₀, hrest⟩ := hup
  obtain rfl : m = m₀ := Except.ok.inj (hread.symm.trans hm₀)
  by_cases hnone : profile = profileNone
  · rw [if_neg (not_not.mpr hnone)] at hrest
    exact iff_of_true ((read_write hsealable hrest).mpr hledger) (.inl hnone)
  · rw [if_pos hnone, bind_eq_ok] at hrest
    obtain ⟨m₁, hm₁, hw⟩ := hrest
    rw [profileApply] at hm₁
    cases hp : profileGet profile with
    | none =>
      rw [hp] at hm₁
      cases hm₁
    | some p =>
      rw [hp] at hm₁
      simp only [bind_eq_ok, exists_unit, pure_eq_ok] at hm₁
      obtain ⟨hcompatible, rfl⟩ := hm₁
      have hstaged : Staged p := staged_of_profileGet hp
      have hnative : m.nativeContext = p.logicalContextTokens := by
        simp only [profileCompatible, bind_eq_ok, exists_unit, refuse_eq_ok, not_or, not_not] at hcompatible
        exact hcompatible.2.1.2
      have hrestaged : Sealable (m.restage p) := hsealable.restage hstaged hnative
      have hfits (rank) : checkRank (m.restage p) rank = .ok () ↔ Fits m p rank :=
        checkRank_restage hstaged (hledger rank)
      have hsealed : Sealable (m.reprofile sha p) ∧
          (∀ rank, checkRank (m.reprofile sha p) rank = .ok () ↔ Fits m p rank) ∧
          SameContents m (m.reprofile sha p) := by
        rcases @reprofile_eq sha m p with h | h
        · rw [h]
          exact ⟨hrestaged, hfits, sameContents_restage m p⟩
        · rw [h]
          have hmeta : Sealable ((m.restage p).setExpertParallelMetadata sha) := hrestaged.setMetadata
          refine ⟨⟨hmeta.magic, hmeta.model, hmeta.limits, hmeta.shards,
            fun i hi => checkTensor_mono (UInt8.le_refl _) rfl rfl (hmeta.tensors i hi), hmeta.budgets⟩,
            fun rank => ?_, rfl, rfl, rfl, rfl, rfl, fun _ => rfl⟩
          rw [← hfits rank]
          exact checkRank_congr rfl rfl rfl rfl rfl rfl
      obtain ⟨hprofiled, hranks, hsame⟩ := hsealed
      have hreadable := @read_write sha (m.reprofile sha p) out outputPath hprofiled hw
      rw [forall_congr' hranks] at hreadable
      have hcontents : (∃ m', read sha outputPath out = .ok m' ∧ SameContents m m') ↔ ∀ rank, Fits m p rank := by
        rw [← hreadable]
        refine exists_congr fun m' => and_congr_right fun _ => ?_
        exact ⟨fun h => hsame.symm.trans h, fun h => hsame.trans h⟩
      rw [hcontents]
      constructor
      · exact fun h => .inr ⟨p, rfl, h⟩
      · rintro (h | ⟨p', hp', h⟩)
        · exact absurd h hnone
        · obtain rfl : p = p' := Option.some.inj hp'
          exact h

/-! A fleet without room: the ledgers of rank 0 add up to the residency cap at microbatch 128. -/

def onesSha (_ : List UInt8) : Digest := Vector.replicate 32 1

def fullRank (rank : Fin rankCount) : RankRecord where
  endpoint := Vector.replicate 64 0
  persistentBytes := 10737418240
  transientBytes := if rank.val = 0 then 14495514624 - 10737418240 - 19857408 - 201326592 - 536870912 else 536870912
  kvBytes := if rank.val % 4 = 3 then 217055232 else 19857408
  stateFileBytes := 0
  scratchBytes := runtimeScratchBytes rank 128 2 nativeContext
  driverReserveBytes := 536870912
  tensorBegin := 0
  tensorCount := 0

def fullContract : Contract where
  version := contractVersion
  minimumProtocolVersion := protocolVersion
  positionMode := positionText
  flags := 0
  gpuIndexTokens := defaultContextTokens
  qsaHotRecordTokens := defaultContextTokens
  hostPageCacheBytes := 0
  ropePolicySha256 := onesSha []
  quantizationSha256 := onesSha []
  stateFormatSha256 := onesSha []
  componentSha256 := fun _ => zeroDigest
  rankStateFormatSha256 := fun _ => onesSha []
  logicalContextTokens := defaultContextTokens
  reserved := Vector.replicate 60 0

/-- A manifest without tensors whose layers have a single owner each, sealed at microbatch 128. -/
def fullManifest : Manifest where
  magic := manifestMagic
  formatVersion := formatVersion
  protocolVersion := protocolVersion
  headerBytes := .ofNat manifestSize
  rankCount := 8
  layerCount := 48
  expertCount := 512
  hiddenSize := hiddenSize
  topK := topK
  requiredCu := 0
  nativeContext := nativeContext
  maxContext := nativeContext
  prefillMicrobatch := 128
  prefillWindow := 2
  tensorCount := 0
  flags := 0
  padding := Vector.replicate 4 0
  persistentCapBytes := 11166914969
  residencyCapBytes := 14495514624
  sourceSha256 := zeroDigest
  quantProfileSha256 := zeroDigest
  manifestSha256 := onesSha []
  ranks := fullRank
  layerOwner := fun layer => .ofNat (layer.val % 8)
  layerGroups := fun layer _ => .ofNat (layer.val % 8)
  expertRank := fun layer _ => .ofNat (layer.val % 8)
  tensors := fun _ => ⟨Vector.replicate 96 0, 0, 0, 0, 0, fun _ => 0, 0, 0, 0, 0, 0, Vector.replicate 4 0, zeroDigest,
    Vector.replicate 4 0⟩
  session := fullContract
  executionMode := expertParallel
  stageCount := 0
  stageRanks := fun _ => 0
  layerOffsets := fun _ => 0
  slotCount := 0
  topologySha256 := onesSha []
  topologyReserved := Vector.replicate 32 0
  ngramShardCount := 0
  deploymentReserved := 0
  ngramShards := fun _ => zeroShard
  hostResidentBytes := fun _ => 0

def fullFile : File := ⟨manifestSize, fullManifest⟩

theorem fullManifest_layer (layer : Fin layerCount) :
    checkLayer fullManifest.layerOwner fullManifest.layerGroups fullManifest.expertRank layer = .ok () := by
  have hsmall : ∀ layer : Fin layerCount, (UInt8.ofNat (layer.val % 8)).toNat < rankCount ∧
      (UInt16.ofNat (layer.val % 8)).toNat = (UInt8.ofNat (layer.val % 8)).toNat := by decide
  exact checkLayer_single (hsmall layer).1 (hsmall layer).1 rfl (fun _ => (hsmall layer).2)

theorem fullTopology_valid (howner : m.layerOwner = fullManifest.layerOwner)
    (hgroups : m.layerGroups = fullManifest.layerGroups) (hexperts : m.expertRank = fullManifest.expertRank)
    (hmode : m.executionMode = expertParallel) (hcount : m.stageCount = 0 ∧ m.slotCount = 0)
    (hstages : ∀ rank, m.stageRanks rank = 0) (hoffsets : ∀ i, m.layerOffsets i = 0)
    (hreserved : m.topologyReserved = Vector.replicate 32 0) (hsha : m.topologySha256 = onesSha []) :
    topologyValidate onesSha m = .ok () := by
  simp only [topologyValidate, bind_eq_ok, exists_unit, refuse_eq_ok, whenever_eq_ok, forM_eq_ok, howner,
    hgroups, hexperts]
  refine ⟨fun hne => hne hmode, fun _ => ⟨?_, ?_, ?_⟩, fun layer _ => fullManifest_layer layer,
    fun _ => ⟨fun hne => hne hreserved, fun hne => hne hsha.symm⟩⟩
  · rintro (hne | hne)
    · exact hne hcount.1
    · exact hne hcount.2
  · rintro ⟨rank, hne⟩
    exact hne (hstages rank)
  · rintro ⟨i, hne⟩
    exact hne (hoffsets i)

theorem fullManifest_valid : validate onesSha fullManifest = .ok () := by
  have hheader : checkHeader fullManifest = .ok () := by decide +kernel
  have hlimits : checkLimits fullManifest = .ok () := by decide +kernel
  have hshards : checkShards fullManifest = .ok () := by decide +kernel
  have hranks : ∀ rank, checkRank fullManifest rank = .ok () := by decide +kernel
  have htopology : topologyValidate onesSha fullManifest = .ok () :=
    fullTopology_valid rfl rfl rfl rfl ⟨rfl, rfl⟩ (fun _ => rfl) (fun _ => rfl) rfl rfl
  have hcontract : validateContract onesSha fullManifest = .ok () := by decide +kernel
  have hnone : fullManifest.tensorIndexes = [] := rfl
  simp only [validate, bind_eq_ok, exists_unit, refuse_eq_ok, whenever_eq_ok, forM_eq_ok, hnone]
  exact ⟨hheader, hlimits, fun _ => hshards, fun _ hi => absurd hi List.not_mem_nil, fun rank _ => hranks rank, htopology,
    fun _ => hcontract, fun hne => hne rfl⟩

theorem fullFile_read : read onesSha "input.fgm" fullFile = .ok fullManifest := by
  have hload : fullFile.load = fullManifest := rfl
  simp only [read, bind_eq_ok, exists_unit, refuse_eq_ok, pure_eq_ok, hload]
  exact ⟨by decide, by decide, by decide, fullManifest_valid, rfl⟩

theorem fullFile_write (hversion : m.formatVersion = formatVersion)
    (htopology : topologyValidate onesSha (m.restamp onesSha) = .ok ()) :
    write onesSha m = .ok ⟨manifestSize, m.reseal onesSha⟩ := by
  simp only [write, prepare, if_pos hversion, bind_eq_ok, exists_unit, refuse_eq_ok, pure_eq_ok]
  refine ⟨_, ⟨htopology, rfl⟩, ?_, congrArg (File.mk · (m.reseal onesSha)) (manifestBytes_reseal hversion)⟩
  show ¬ onesSha [] = zeroDigest
  decide

theorem upgrade_none {inputPath outputPath : String} {file out : File}
    (hpaths : inputPath ≠ outputPath) (hread : read sha inputPath file = .ok m)
    (hwrite : write sha { m with formatVersion := formatVersion } = .ok out) :
    upgradeWithProfile sha inputPath outputPath false profileNone file = .ok out := by
  simp only [upgradeWithProfile, bind_eq_ok, exists_unit, refuse_eq_ok]
  refine ⟨hpaths, Bool.false_ne_true, m, hread, ?_⟩
  rw [if_neg (fun h => h rfl)]
  exact hwrite

theorem upgrade_some {inputPath outputPath : String} {file out : File}
    (hpaths : inputPath ≠ outputPath) (hprofile : profile ≠ profileNone)
    (hread : read sha inputPath file = .ok m) (happly : profileApply sha m profile = .ok m')
    (hwrite : write sha { m' with formatVersion := formatVersion } = .ok out) :
    upgradeWithProfile sha inputPath outputPath false profile file = .ok out := by
  simp only [upgradeWithProfile, bind_eq_ok, exists_unit, refuse_eq_ok]
  refine ⟨hpaths, Bool.false_ne_true, m, hread, ?_⟩
  rw [if_pos hprofile, bind_eq_ok]
  exact ⟨m', happly, hwrite⟩

theorem profileApply_of (hget : profileGet profile = some p) (hcompatible : profileCompatible m p = .ok ()) :
    profileApply sha m profile = .ok (m.reprofile sha p) := by
  rw [profileApply, hget]
  show (profileCompatible m p >>= fun _ => pure (m.reprofile sha p)) = .ok (m.reprofile sha p)
  rw [hcompatible]
  rfl

/-- Without a profile the manifest is upgraded to one that can be read. -/
theorem fullFile_upgrade_readable : ∃ m out, read onesSha "input.fgm" fullFile = .ok m ∧
    upgradeWithProfile onesSha "input.fgm" "output.fgm" false profileNone fullFile = .ok out ∧
      ((∃ m', read onesSha "output.fgm" out = .ok m' ∧ SameContents m m') ↔
        profileNone = profileNone ∨ ∃ p, profileGet profileNone = some p ∧ ∀ rank, Fits m p rank) := by
  have hwrite := fullFile_write (m := { fullManifest with formatVersion := formatVersion }) rfl
    (fullTopology_valid rfl rfl rfl rfl ⟨rfl, rfl⟩ (fun _ => rfl) (fun _ => rfl) rfl rfl)
  have hpaths : "input.fgm" ≠ "output.fgm" := by decide
  have hup := upgrade_none hpaths fullFile_read hwrite
  exact ⟨_, _, fullFile_read, hup, upgrade_readable_iff fullFile_read hup⟩

def microbatch256 : RuntimeProfile :=
  ⟨2, "native-262k-microbatch-256", nativeContext, nativeContext, 0, 16777216, 256, 2, nativeContext, positionText⟩

theorem fullManifest_reprofile : fullManifest.reprofile onesSha microbatch256 =
    { (fullManifest.restage microbatch256).setExpertParallelMetadata onesSha with
      protocolVersion := protocolVersion } := by
  have hformat : fullManifest.formatVersion = formatVersion := rfl
  rw [Manifest.reprofile, if_pos hformat]
  rfl

/-- The manifest can be read and upgraded to microbatch 256, and the result cannot be read. -/
theorem fullFile_upgrade_unreadable : (∃ m, read onesSha "input.fgm" fullFile = .ok m) ∧
    ∃ out, upgradeWithProfile onesSha "input.fgm" "output.fgm" false 2 fullFile = .ok out ∧
      ¬ ∃ m', read onesSha "output.fgm" out = .ok m' := by
  have hget : profileGet 2 = some microbatch256 := rfl
  have hcompatible : profileCompatible fullManifest microbatch256 = .ok () := by decide +kernel
  have happly : profileApply onesSha fullManifest 2 = .ok (fullManifest.reprofile onesSha microbatch256) :=
    profileApply_of hget hcompatible
  have hwrite := fullFile_write (m := { fullManifest.reprofile onesSha microbatch256 with
    formatVersion := formatVersion }) rfl (by
      rw [fullManifest_reprofile]
      exact fullTopology_valid rfl rfl rfl rfl ⟨rfl, rfl⟩ (fun _ => rfl) (fun _ => rfl) rfl rfl)
  refine ⟨⟨_, fullFile_read⟩, _, upgrade_some (by decide) (by decide) fullFile_read happly hwrite, ?_⟩
  rintro ⟨m', hread⟩
  let rank : Fin rankCount := ⟨0, by decide⟩
  have hrank := (sealable_of_read hread).2 rank
  rw [((read_reseal rfl).mp hread).2, checkRank_written] at hrank
  have hfits := (checkRank_restage (staged_of_profileGet hget) ((sealable_of_read fullFile_read).2 rank)).mp hrank
  exact absurd hfits (by decide +kernel)

end FlashGordon.SealedManifest
