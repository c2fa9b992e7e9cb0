import FlashGordon.Status
import Mathlib.Data.List.Range
import Mathlib.Tactic.Ring

/-! The frontier guard of a QSA owner (`qsa_owner.c`). The guard belongs to one session at a time, opened
by a begin request under a nonce, and keeps for every layer the number of tokens whose pages it has
accepted. The functions take the guard and return their status with the guard they leave behind, as the
source writes through the pointer. Every request carries its own manifest: nothing here relies on the
requests of a run agreeing on one. -/

namespace FlashGordon.QsaOwner

/-- A page of `FG_Q38_QSA_COMPRESS_RATIO` tokens. -/
def compressRatio : Nat := 4

/-- `FG_QSA_PAGE_APPEND_LAYER_MAX_PAGES`: the pages of one layer in one prefill chunk. -/
def appendLayerMaxPages : Nat := 512 / compressRatio

def protocolMinVersion : UInt32 := 5

def ownerSessionControlVersion : UInt16 := 2

/-- `FG_OWNER_SESSION_BEGIN`. -/
def ownerSessionBegin : UInt8 := 1

abbrev Digest := Vector UInt8 32

/-- The fields of `fg_manifest` that the guard reads. -/
structure Manifest where
  layerOwner : Nat → UInt8
  protocolVersion : UInt32
  nativeContext : UInt32
  positionMode : UInt32
  logicalContextTokens : UInt32
  rankStateFormatSha256 : Nat → Digest

/-- The fields of `fg_owner_session_control` that opening a session reads. -/
structure Control where
  version : UInt16
  operation : UInt8
  rank : UInt8
  positionMode : UInt32
  stateSlot : UInt8
  sessionNonce : UInt64
  identitySha256 : Digest
  stateFormatSha256 : Digest
  logicalContextTokens : UInt32
  gpuIndexTokens : UInt32
  qsaHotTokens : UInt32
  qsaPageCacheBytes : UInt64

/-- `fg_runtime_options`, as far as a profile is checked. -/
structure Profile where
  logicalContextTokens : UInt32
  gpuIndexTokens : UInt32
  qsaHotTokens : UInt32
  qsaPageCacheBytes : UInt64

structure Guard where
  sessionNonce : UInt64
  generation : UInt64
  contextLimit : UInt32
  nextToken : Nat → UInt32
  nextAppendBatch : UInt32
  nextFetchBatch : UInt32
  rank : UInt8
  positionMode : UInt32
  active : Bool

/-- One page entry; `records` is `none` for a null pointer. -/
structure Page (Records : Type) where
  layer : UInt8
  block : UInt32
  records : Option Records

structure PageBatch (Records : Type) where
  sourceRank : UInt8
  destinationRank : UInt8
  batchId : UInt32
  pages : List (Page Records)

structure PageBarrier where
  sourceRank : UInt8
  destinationRank : UInt8
  batchId : UInt32

variable {Records : Type}

def ownedQsaLayer (manifest : Manifest) (rank : UInt8) (layer : Nat) : Bool :=
  rank.toNat < rankCount && layer < layerCount && layer % 4 == 3 && manifest.layerOwner layer == rank

def guardInit (rank : UInt32) : Guard where
  sessionNonce := 0
  generation := 0
  contextLimit := 0
  nextToken := fun _ => 0
  nextAppendBatch := 0
  nextFetchBatch := 0
  rank := rank.toUInt8
  positionMode := 0
  active := false

def qsaLayers : List Nat := (List.range (layerCount / 4)).map fun i => 4 * i + 3

def ownedLayerCount (manifest : Manifest) (rank : UInt8) : Nat :=
  qsaLayers.countP fun layer => manifest.layerOwner layer == rank

def stagedContext (tokens : UInt32) : Bool :=
  tokens == 32768 || tokens == 65536 || tokens == 131072 || tokens == 262144

/-- `fg_runtime_profile_validate`. -/
def runtimeProfileValidate (options : Profile) (nativeContext : UInt32) : Except Error Unit :=
  if nativeContext = 0 then .error ⟨.argument, "invalid runtime profile"⟩
  else if options.logicalContextTokens > nativeContext then
    .error ⟨.limit, s!"logical context {options.logicalContextTokens} exceeds native context {nativeContext}"⟩
  else if options.logicalContextTokens = 8192 then
    if options.gpuIndexTokens ≠ 8192 ∨ options.qsaHotTokens ≠ 8192 ∨ options.qsaPageCacheBytes ≠ 0 then
      .error ⟨.mismatch, "default QSA profile must be 8192/8192/8192/0"⟩
    else .ok ()
  else if !stagedContext options.logicalContextTokens then
    .error ⟨.unavailable,
      s!"logical context {options.logicalContextTokens} is not a staged 32K, 64K, 128K, or 262K profile"⟩
  else if options.gpuIndexTokens ≠ options.logicalContextTokens then
    .error ⟨.mismatch, s!"native QSA requires GPU index tokens {options.gpuIndexTokens} to equal " ++
      s!"logical context {options.logicalContextTokens}"⟩
  else if options.qsaHotTokens ≠ 0 ∧ options.qsaHotTokens ≠ 8192 then
    .error ⟨.mismatch, "tiered QSA hot-token compatibility hint must be zero or 8192"⟩
  else if options.qsaPageCacheBytes.toNat < 16 * 2 ^ 20 ∨ 1024 * 2 ^ 20 < options.qsaPageCacheBytes.toNat ∨
      options.qsaPageCacheBytes.toNat % 2 ^ 20 ≠ 0 then
    .error ⟨.argument, "staged QSA page cache must be a whole MiB from 16 to 1024 MiB"⟩
  else .ok ()

/-- What a begin request must carry beside its nonce: nothing under the minimum protocol version, and a
control record that names this session, rank and state format under a later one. -/
def beginControlCheck (guard : Guard) (manifest : Manifest) (identitySha256 : Digest) (requestId : UInt64)
    (control : Option Control) : Except Error Unit :=
  if manifest.protocolVersion = protocolMinVersion then
    match control with
    | some _ => .error ⟨.format, "legacy QSA owner begin has a control payload"⟩
    | none => .ok ()
  else
    match control with
    | none => .error ⟨.mismatch, "QSA owner session identity or rank mismatch"⟩
    | some control =>
      if control.version ≠ ownerSessionControlVersion ∨ control.operation ≠ ownerSessionBegin ∨
          control.rank ≠ guard.rank ∨ control.positionMode ≠ manifest.positionMode ∨
          control.sessionNonce ≠ requestId ∨ control.identitySha256 ≠ identitySha256 ∨
          control.stateFormatSha256 ≠ manifest.rankStateFormatSha256 guard.rank.toNat then
        .error ⟨.mismatch, "QSA owner session identity or rank mismatch"⟩
      else
        runtimeProfileValidate ⟨control.logicalContextTokens, control.gpuIndexTokens, control.qsaHotTokens,
          control.qsaPageCacheBytes⟩ manifest.nativeContext

def sessionContext (manifest : Manifest) : Option Control → UInt32
  | some control => control.logicalContextTokens
  | none => manifest.logicalContextTokens

def begun (guard : Guard) (manifest : Manifest) (requestId : UInt64) (control : Option Control) : Guard where
  sessionNonce := requestId
  generation := guard.generation + 1
  contextLimit := sessionContext manifest control
  nextToken := fun _ => 0
  nextAppendBatch := 0
  nextFetchBatch := 0
  rank := guard.rank
  positionMode := manifest.positionMode
  active := true

/-- `fg_qsa_owner_guard_begin`. -/
def guardBegin (guard : Guard) (manifest : Manifest) (identitySha256 : Digest) (requestId : UInt64)
    (control : Option Control) : Except Error Unit × Guard :=
  if rankCount ≤ guard.rank.toNat ∨ requestId = 0 then
    (.error ⟨.argument, "invalid QSA owner session begin"⟩, guard)
  else
    let layers := ownedLayerCount manifest guard.rank
    if layers = 0 ∨ 6 < layers then
      (.error ⟨.mismatch, s!"rank {guard.rank} owns {layers} QSA layers, expected 1..6"⟩, guard)
    else if guard.active ∧ requestId ≤ guard.sessionNonce then
      (.error ⟨.mismatch, "stale or duplicate QSA owner session begin"⟩, guard)
    else
      match beginControlCheck guard manifest identitySha256 requestId control with
      | .error err => (.error err, guard)
      | .ok () => (.ok (), begun guard manifest requestId control)

def validatePageRoute (guard : Guard) (requestId : UInt64) (source destination : UInt8) : Except Error Unit :=
  if !guard.active ∨ requestId ≠ guard.sessionNonce then
    .error ⟨.mismatch, "stale QSA page-service session"⟩
  else if source ≠ 0 ∨ destination ≠ guard.rank then
    .error ⟨.mismatch, "misrouted QSA page-service request"⟩
  else .ok ()

def appendEntries (guard : Guard) (manifest : Manifest) :
    Nat → (Nat → UInt32) → (Nat → Nat) → List (Page Records) → Except Error (Nat → UInt32)
  | _, frontier, _, [] => .ok frontier
  | i, frontier, pagesPerLayer, page :: rest =>
    let layer := page.layer.toNat
    let first := page.block.toNat * compressRatio
    let pages := pagesPerLayer layer + 1
    if page.records.isNone ∨ !ownedQsaLayer manifest guard.rank layer ∨ appendLayerMaxPages < pages ∨
        first ≠ (frontier layer).toNat ∨ guard.contextLimit.toNat < first + compressRatio then
      .error ⟨.mismatch, s!"non-contiguous or misowned QSA page append entry {i}"⟩
    else
      appendEntries guard manifest (i + 1)
        (Function.update frontier layer (frontier layer + UInt32.ofNat compressRatio))
        (Function.update pagesPerLayer layer pages) rest

/-- `fg_qsa_owner_guard_accept_append`. -/
def guardAcceptAppend (guard : Guard) (manifest : Manifest) (requestId : UInt64) (batch : PageBatch Records) :
    Except Error Unit × Guard :=
  match validatePageRoute guard requestId batch.sourceRank batch.destinationRank with
  | .error err => (.error err, guard)
  | .ok () =>
    if batch.batchId ≠ guard.nextAppendBatch then
      (.error ⟨.mismatch, "stale or out-of-order QSA page append batch"⟩, guard)
    else
      match appendEntries guard manifest 0 guard.nextToken (fun _ => 0) batch.pages with
      | .error err => (.error err, guard)
      | .ok frontier =>
        (.ok (), { guard with nextToken := frontier, nextAppendBatch := guard.nextAppendBatch + 1 })

def fetchEntries (guard : Guard) (manifest : Manifest) (layer : UInt8) :
    Nat → List (Page Records) → Except Error Unit
  | _, [] => .ok ()
  | i, page :: rest =>
    let fetchEnd := (page.block.toNat + 1) * compressRatio
    if page.layer ≠ layer ∨ !ownedQsaLayer manifest guard.rank page.layer.toNat ∨
        (guard.nextToken page.layer.toNat).toNat < fetchEnd then
      .error ⟨.mismatch, s!"future or misowned QSA page fetch entry {i}"⟩
    else fetchEntries guard manifest layer (i + 1) rest

/-- `fg_qsa_owner_guard_accept_fetch`. The layer of the first entry is the one all must have; a batch
without entries leaves it unread. -/
def guardAcceptFetch (guard : Guard) (manifest : Manifest) (requestId : UInt64) (batch : PageBatch Records) :
    Except Error Unit × Guard :=
  match validatePageRoute guard requestId batch.sourceRank batch.destinationRank with
  | .error err => (.error err, guard)
  | .ok () =>
    if batch.batchId ≠ guard.nextFetchBatch then
      (.error ⟨.mismatch, "stale or out-of-order QSA page fetch batch"⟩, guard)
    else
      match fetchEntries guard manifest ((batch.pages.head?.map Page.layer).getD 0) 0 batch.pages with
      | .error err => (.error err, guard)
      | .ok () => (.ok (), { guard with nextFetchBatch := guard.nextFetchBatch + 1 })

/-- `fg_qsa_owner_guard_accept_barrier`, which only reads the guard. -/
def guardAcceptBarrier (guard : Guard) (requestId : UInt64) (barrier : PageBarrier) : Except Error Unit × Guard :=
  if !guard.active ∨ requestId ≠ guard.sessionNonce ∨ barrier.sourceRank ≠ 0 ∨
      barrier.destinationRank ≠ guard.rank ∨ barrier.batchId ≠ guard.nextAppendBatch then
    (.error ⟨.mismatch, "stale or out-of-order QSA page barrier"⟩, guard)
  else (.ok (), guard)

/-! ## What an accepted request says -/

def layerBlocks (pages : List (Page Records)) (layer : Nat) : List Nat :=
  (pages.filter fun page => page.layer.toNat = layer).map fun page => page.block.toNat

@[simp] theorem layerBlocks_nil (layer : Nat) : layerBlocks ([] : List (Page Records)) layer = [] := rfl

theorem layerBlocks_cons_self (page : Page Records) (pages : List (Page Records)) :
    layerBlocks (page :: pages) page.layer.toNat =
      page.block.toNat :: layerBlocks pages page.layer.toNat := by
  simp [layerBlocks]

theorem layerBlocks_cons_of_ne {page : Page Records} (pages : List (Page Records)) {layer : Nat}
    (h : page.layer.toNat ≠ layer) : layerBlocks (page :: pages) layer = layerBlocks pages layer := by
  simp [layerBlocks, h]

/-- The entries take every layer's frontier on from where it stood, block by block. -/
structure Extends (guard : Guard) (manifest : Manifest) (frontier frontier' : Nat → UInt32)
    (pagesPerLayer : Nat → Nat) (pages : List (Page Records)) : Prop where
  recorded : ∀ page ∈ pages, page.records.isSome
  owned : ∀ page ∈ pages, ownedQsaLayer manifest guard.rank page.layer.toNat = true
  capped : ∀ layer, layerBlocks pages layer ≠ [] →
    pagesPerLayer layer + (layerBlocks pages layer).length ≤ appendLayerMaxPages
  advanced : ∀ layer, (frontier' layer).toNat =
    (frontier layer).toNat + compressRatio * (layerBlocks pages layer).length
  contiguous : ∀ layer k, (frontier layer).toNat = compressRatio * k →
    layerBlocks pages layer = List.range' k (layerBlocks pages layer).length
  bounded : ∀ layer, (frontier layer).toNat ≤ guard.contextLimit.toNat →
    (frontier' layer).toNat ≤ guard.contextLimit.toNat

theorem toNat_add_compressRatio {frontier limit : UInt32}
    (h : frontier.toNat + compressRatio ≤ limit.toNat) :
    (frontier + UInt32.ofNat compressRatio).toNat = frontier.toNat + compressRatio := by
  have hlimit := limit.toNat_lt
  have hratio : (UInt32.ofNat compressRatio).toNat = compressRatio := rfl
  rw [UInt32.toNat_add, hratio, Nat.mod_eq_of_lt (by omega)]

variable {pages : List (Page Records)}

variable {guard : Guard} {manifest : Manifest}

theorem appendEntries_extends {i : Nat} {frontier frontier' : Nat → UInt32} {pagesPerLayer : Nat → Nat}
    (h : appendEntries guard manifest i frontier pagesPerLayer pages = .ok frontier') :
    Extends guard manifest frontier frontier' pagesPerLayer pages := by
  induction pages generalizing i frontier pagesPerLayer with
  | nil =>
    obtain rfl : frontier = frontier' := by simpa [appendEntries] using h
    constructor <;> simp
  | cons page rest ih =>
    simp only [appendEntries] at h
    split at h
    · cases h
    next hpage =>
      have hnext := ih h
      simp only [not_or, Bool.not_eq_true, Option.isNone_eq_false_iff, Bool.not_eq_false', not_lt,
        ne_eq, not_not] at hpage
      obtain ⟨hrecords, howned, hcount, hfirst, hlimit⟩ := hpage
      -- the frontier of the page's own layer has moved on by one page; the others stand
      have hstep : (Function.update frontier page.layer.toNat
          (frontier page.layer.toNat + UInt32.ofNat compressRatio) page.layer.toNat).toNat =
          (frontier page.layer.toNat).toNat + compressRatio := by
        rw [Function.update_self]
        exact toNat_add_compressRatio (hfirst ▸ hlimit)
      refine ⟨?_, ?_, ?_, ?_, ?_, ?_⟩
      · rintro other (_ | ⟨_, hother⟩)
        · exact hrecords
        · exact hnext.recorded other hother
      · rintro other (_ | ⟨_, hother⟩)
        · exact howned
        · exact hnext.owned other hother
      · intro layer hne
        by_cases hlayer : page.layer.toNat = layer
        · subst hlayer
          rw [layerBlocks_cons_self, List.length_cons]
          have hrest := hnext.capped page.layer.toNat
          rw [Function.update_self] at hrest
          by_cases hnil : layerBlocks rest page.layer.toNat = []
          · rw [hnil]
            exact hcount
          · have := hrest hnil
            omega
        · rw [layerBlocks_cons_of_ne rest hlayer] at hne ⊢
          have hrest := hnext.capped layer hne
          rwa [Function.update_of_ne (Ne.symm hlayer)] at hrest
      · intro layer
        by_cases hlayer : page.layer.toNat = layer
        · subst hlayer
          rw [layerBlocks_cons_self, List.length_cons, hnext.advanced, hstep]
          ring
        · rw [layerBlocks_cons_of_ne rest hlayer, hnext.advanced, Function.update_of_ne (Ne.symm hlayer)]
      · intro layer k hk
        by_cases hlayer : page.layer.toNat = layer
        · subst hlayer
          have hblock : page.block.toNat = k := by
            rw [hk, Nat.mul_comm] at hfirst
            exact Nat.eq_of_mul_eq_mul_left (by decide) hfirst
          have hrest := hnext.contiguous page.layer.toNat (k + 1) (by rw [hstep, hk]; ring)
          rw [layerBlocks_cons_self, List.length_cons, List.range'_succ, ← hrest, hblock]
        · rw [layerBlocks_cons_of_ne rest hlayer]
          exact hnext.contiguous layer k (by rwa [Function.update_of_ne (Ne.symm hlayer)])
      · intro layer hle
        apply hnext.bounded
        by_cases hlayer : page.layer.toNat = layer
        · subst hlayer
          rw [hstep, ← hfirst]
          exact hlimit
        · rwa [Function.update_of_ne (Ne.symm hlayer)]

theorem fetchEntries_ok {layer : UInt8} {i : Nat} (h : fetchEntries guard manifest layer i pages = .ok ()) :
    ∀ page ∈ pages, (page.block.toNat + 1) * compressRatio ≤ (guard.nextToken page.layer.toNat).toNat := by
  induction pages generalizing i with
  | nil => simp
  | cons page rest ih =>
    simp only [fetchEntries] at h
    split at h
    · cases h
    next hpage =>
      rintro other (_ | ⟨_, hother⟩)
      · simp only [not_or, not_lt] at hpage
        exact hpage.2.2
      · exact ih h other hother

theorem validatePageRoute_ok {requestId : UInt64} {source destination : UInt8}
    (h : validatePageRoute guard requestId source destination = .ok ()) :
    guard.active = true ∧ requestId = guard.sessionNonce := by
  unfold validatePageRoute at h
  split at h
  · cases h
  next hroute =>
    simpa using hroute

theorem guardBegin_cases (guard : Guard) (manifest : Manifest) (identitySha256 : Digest) (requestId : UInt64)
    (control : Option Control) :
    (∃ err, guardBegin guard manifest identitySha256 requestId control = (.error err, guard)) ∨
    ((guard.active = true → guard.sessionNonce < requestId) ∧
      guardBegin guard manifest identitySha256 requestId control =
        (.ok (), begun guard manifest requestId control)) := by
  simp only [guardBegin]
  split
  · exact .inl ⟨_, rfl⟩
  split
  · exact .inl ⟨_, rfl⟩
  split
  · exact .inl ⟨_, rfl⟩
  next hfresh =>
    split
    · exact .inl ⟨_, rfl⟩
    · refine .inr ⟨fun hactive => ?_, rfl⟩
      exact UInt64.not_le.mp fun hle => hfresh ⟨hactive, hle⟩

theorem guardAcceptAppend_cases (guard : Guard) (manifest : Manifest) (requestId : UInt64)
    (batch : PageBatch Records) :
    (∃ err, guardAcceptAppend guard manifest requestId batch = (.error err, guard)) ∨
    (guard.active = true ∧ requestId = guard.sessionNonce ∧
      ∃ frontier, Extends guard manifest guard.nextToken frontier (fun _ => 0) batch.pages ∧
        guardAcceptAppend guard manifest requestId batch =
          (.ok (), { guard with nextToken := frontier, nextAppendBatch := guard.nextAppendBatch + 1 })) := by
  simp only [guardAcceptAppend]
  split
  · exact .inl ⟨_, rfl⟩
  next hroute =>
    split
    · exact .inl ⟨_, rfl⟩
    split
    · exact .inl ⟨_, rfl⟩
    next frontier hentries =>
      obtain ⟨hactive, hnonce⟩ := validatePageRoute_ok hroute
      exact .inr ⟨hactive, hnonce, frontier, appendEntries_extends hentries, rfl⟩

theorem guardAcceptFetch_cases (guard : Guard) (manifest : Manifest) (requestId : UInt64)
    (batch : PageBatch Records) :
    (∃ err, guardAcceptFetch guard manifest requestId batch = (.error err, guard)) ∨
    (guard.active = true ∧ requestId = guard.sessionNonce ∧
      (∀ page ∈ batch.pages,
        (page.block.toNat + 1) * compressRatio ≤ (guard.nextToken page.layer.toNat).toNat) ∧
      guardAcceptFetch guard manifest requestId batch =
        (.ok (), { guard with nextFetchBatch := guard.nextFetchBatch + 1 })) := by
  simp only [guardAcceptFetch]
  split
  · exact .inl ⟨_, rfl⟩
  next hroute =>
    split
    · exact .inl ⟨_, rfl⟩
    split
    · exact .inl ⟨_, rfl⟩
    next hentries =>
      obtain ⟨hactive, hnonce⟩ := validatePageRoute_ok hroute
      exact .inr ⟨hactive, hnonce, fetchEntries_ok hentries, rfl⟩

theorem guardAcceptBarrier_cases (guard : Guard) (requestId : UInt64) (barrier : PageBarrier) :
    (∃ err, guardAcceptBarrier guard requestId barrier = (.error err, guard)) ∨
    guardAcceptBarrier guard requestId barrier = (.ok (), guard) := by
  unfold guardAcceptBarrier
  split
  · exact .inl ⟨_, rfl⟩
  · exact .inr rfl

inductive Request (Records : Type) where
  | begin (manifest : Manifest) (identitySha256 : Digest) (requestId : UInt64) (control : Option Control)
  | append (manifest : Manifest) (requestId : UInt64) (batch : PageBatch Records)
  | fetch (manifest : Manifest) (requestId : UInt64) (batch : PageBatch Records)
  | barrier (requestId : UInt64) (barrier : PageBarrier)

/-- The accepted page requests, with the nonce they came under. -/
inductive Event (Records : Type) where
  | appended (nonce : UInt64) (pages : List (Page Records))
  | fetched (nonce : UInt64) (pages : List (Page Records))

def Request.events : Request Records → List (Event Records)
  | .append _ requestId batch => [.appended requestId batch.pages]
  | .fetch _ requestId batch => [.fetched requestId batch.pages]
  | .begin _ _ _ _ => []
  | .barrier _ _ => []

def respond (guard : Guard) : Request Records → Except Error Unit × Guard
  | .begin manifest identitySha256 requestId control =>
    guardBegin guard manifest identitySha256 requestId control
  | .append manifest requestId batch => guardAcceptAppend guard manifest requestId batch
  | .fetch manifest requestId batch => guardAcceptFetch guard manifest requestId batch
  | .barrier requestId barrier => guardAcceptBarrier guard requestId barrier

/-- The guard and the page requests it has accepted so far. -/
structure Service (Records : Type) where
  guard : Guard
  events : List (Event Records)

def Service.take (service : Service Records) (request : Request Records) : Service Records where
  guard := (respond service.guard request).2
  events :=
    match (respond service.guard request).1 with
    | .ok () => service.events ++ request.events
    | .error _ => service.events

def serve (rank : UInt32) (requests : List (Request Records)) : Service Records :=
  requests.foldl Service.take ⟨guardInit rank, []⟩

def Event.acceptedBlocks (nonce : UInt64) (layer : Nat) : Event Records → List Nat
  | .appended requestId pages => if requestId = nonce then layerBlocks pages layer else []
  | .fetched _ _ => []

def acceptedBlocks (events : List (Event Records)) (nonce : UInt64) (layer : Nat) : List Nat :=
  events.flatMap (Event.acceptedBlocks nonce layer)

@[simp] theorem acceptedBlocks_append (events more : List (Event Records)) (nonce : UInt64) (layer : Nat) :
    acceptedBlocks (events ++ more) nonce layer =
      acceptedBlocks events nonce layer ++ acceptedBlocks more nonce layer := by
  simp [acceptedBlocks]

@[simp] theorem acceptedBlocks_appended (nonce requestId : UInt64) (pages : List (Page Records)) (layer : Nat) :
    acceptedBlocks [.appended requestId pages] nonce layer =
      if requestId = nonce then layerBlocks pages layer else [] := by
  simp [acceptedBlocks, Event.acceptedBlocks]

@[simp] theorem acceptedBlocks_fetched (nonce requestId : UInt64) (pages : List (Page Records)) (layer : Nat) :
    acceptedBlocks [.fetched requestId pages] nonce layer = [] := by
  simp [acceptedBlocks, Event.acceptedBlocks]

/-- Every accepted fetch names only pages accepted before it under its own nonce. -/
def FetchesAccepted (events : List (Event Records)) : Prop :=
  ∀ before nonce pages after, events = before ++ .fetched nonce pages :: after →
    ∀ page ∈ pages, page.block.toNat ∈ acceptedBlocks before nonce page.layer.toNat

theorem FetchesAccepted.concat {events : List (Event Records)} {event : Event Records}
    (h : FetchesAccepted events)
    (hevent : ∀ nonce pages, event = .fetched nonce pages →
      ∀ page ∈ pages, page.block.toNat ∈ acceptedBlocks events nonce page.layer.toNat) :
    FetchesAccepted (events ++ [event]) := by
  intro before nonce pages after heq
  rcases List.eq_nil_or_concat after with rfl | ⟨init, last, rfl⟩
  · obtain ⟨rfl, hlast⟩ := List.append_inj' heq rfl
    exact hevent nonce pages (List.singleton_inj.mp hlast)
  · have hsplit : events ++ [event] = (before ++ .fetched nonce pages :: init) ++ [last] := by
      simpa using heq
    obtain ⟨hinit, -⟩ := List.append_inj' hsplit rfl
    exact h before nonce pages init hinit

/-- The guard says what its session has accepted: each nonce has a contiguous run of blocks, the frontiers
of the open session stand behind its own, and no nonce after it has been seen. -/
structure Tracked (service : Service Records) : Prop where
  contiguous : ∀ nonce layer, acceptedBlocks service.events nonce layer =
    List.range (acceptedBlocks service.events nonce layer).length
  current : service.guard.active = true → ∀ layer, (service.guard.nextToken layer).toNat =
    compressRatio * (acceptedBlocks service.events service.guard.sessionNonce layer).length
  unseen : ∀ nonce, (service.guard.active = true → service.guard.sessionNonce < nonce) →
    ∀ layer, acceptedBlocks service.events nonce layer = []
  within : ∀ layer, (service.guard.nextToken layer).toNat ≤ service.guard.contextLimit.toNat
  fetched : FetchesAccepted service.events

theorem guardInit_tracked (rank : UInt32) : Tracked (⟨guardInit rank, []⟩ : Service Records) where
  contiguous _ _ := rfl
  current h := by cases h
  unseen _ _ _ := rfl
  within _ := Nat.le_refl 0
  fetched := by
    intro before nonce pages after h
    simp at h

inductive Accepted (guard : Guard) : Request Records → Guard → Prop where
  | begin {manifest identitySha256 requestId control}
      (hnew : guard.active = true → guard.sessionNonce < requestId) :
      Accepted guard (.begin manifest identitySha256 requestId control) (begun guard manifest requestId control)
  | append {manifest batch frontier} (hactive : guard.active = true)
      (hext : Extends guard manifest guard.nextToken frontier (fun _ => 0) batch.pages) :
      Accepted guard (.append manifest guard.sessionNonce batch)
        { guard with nextToken := frontier, nextAppendBatch := guard.nextAppendBatch + 1 }
  | fetch {manifest batch} (hactive : guard.active = true)
      (hpages : ∀ page ∈ batch.pages,
        (page.block.toNat + 1) * compressRatio ≤ (guard.nextToken page.layer.toNat).toNat) :
      Accepted guard (.fetch manifest guard.sessionNonce batch)
        { guard with nextFetchBatch := guard.nextFetchBatch + 1 }
  | barrier {requestId barrier} : Accepted guard (.barrier requestId barrier) guard

theorem respond_cases (guard : Guard) (request : Request Records) :
    (∃ err, respond guard request = (.error err, guard)) ∨
    ∃ after, Accepted guard request after ∧ respond guard request = (.ok (), after) := by
  cases request with
  | begin manifest identitySha256 requestId control =>
    rcases guardBegin_cases guard manifest identitySha256 requestId control with h | ⟨hnew, h⟩
    · exact .inl h
    · exact .inr ⟨_, .begin hnew, h⟩
  | append manifest requestId batch =>
    rcases guardAcceptAppend_cases guard manifest requestId batch with
      h | ⟨hactive, rfl, frontier, hext, h⟩
    · exact .inl h
    · exact .inr ⟨_, .append hactive hext, h⟩
  | fetch manifest requestId batch =>
    rcases guardAcceptFetch_cases guard manifest requestId batch with h | ⟨hactive, rfl, hpages, h⟩
    · exact .inl h
    · exact .inr ⟨_, .fetch hactive hpages, h⟩
  | barrier requestId barrier =>
    rcases guardAcceptBarrier_cases guard requestId barrier with h | h
    · exact .inl h
    · exact .inr ⟨_, .barrier, h⟩

variable {request : Request Records}

theorem respond_error {err : Error}
    (h : (respond guard request).1 = .error err) : (respond guard request).2 = guard := by
  rcases respond_cases guard request with ⟨_, heq⟩ | ⟨_, _, heq⟩
  · rw [heq]
  · rw [heq] at h
    cases h

variable {service : Service Records}

theorem Service.take_of_error {err : Error}
    (h : respond service.guard request = (.error err, service.guard)) : service.take request = service := by
  simp only [Service.take, h]

theorem Service.take_of_ok (h : respond service.guard request = (.ok (), guard)) :
    service.take request = ⟨guard, service.events ++ request.events⟩ := by
  simp only [Service.take, h]

section

variable (h : Tracked service)
include h

theorem Tracked.begin {requestId : UInt64} {control : Option Control}
    (hnew : service.guard.active = true → service.guard.sessionNonce < requestId) :
    Tracked (⟨begun service.guard manifest requestId control, service.events⟩ : Service Records) where
  contiguous := h.contiguous
  current _ layer := by
    show (0 : UInt32).toNat = compressRatio * (acceptedBlocks service.events requestId layer).length
    rw [h.unseen requestId hnew layer]
    rfl
  unseen nonce hnonce layer := by
    apply h.unseen nonce
    intro hactive
    exact UInt64.lt_trans (hnew hactive) (hnonce rfl)
  within _ := Nat.zero_le _
  fetched := h.fetched

theorem Tracked.append {frontier : Nat → UInt32} {batch : UInt32}
    (hactive : service.guard.active = true)
    (hext : Extends service.guard manifest service.guard.nextToken frontier (fun _ => 0) pages) :
    Tracked ⟨{ service.guard with nextToken := frontier, nextAppendBatch := batch },
      service.events ++ [.appended service.guard.sessionNonce pages]⟩ where
  contiguous nonce layer := by
    rw [acceptedBlocks_append, acceptedBlocks_appended]
    split
    next hnonce =>
      subst hnonce
      have hpages := hext.contiguous layer _ (h.current hactive layer)
      rw [List.length_append, List.range_add, ← h.contiguous, ← List.range'_eq_map_range, ← hpages]
    · rw [List.append_nil]
      exact h.contiguous nonce layer
  current _ layer := by
    rw [acceptedBlocks_append, acceptedBlocks_appended, if_pos rfl, List.length_append,
      Nat.mul_add, ← h.current hactive]
    exact hext.advanced layer
  unseen nonce hnonce layer := by
    have hlt : service.guard.sessionNonce < nonce := hnonce hactive
    rw [acceptedBlocks_append, acceptedBlocks_appended, if_neg (UInt64.ne_of_lt hlt),
      h.unseen nonce (fun _ => hlt) layer]
    rfl
  within layer := hext.bounded layer (h.within layer)
  fetched := by
    apply h.fetched.concat
    rintro nonce fetched ⟨⟩

theorem Tracked.fetch {batch : UInt32} (hactive : service.guard.active = true)
    (hpages : ∀ page ∈ pages,
      (page.block.toNat + 1) * compressRatio ≤ (service.guard.nextToken page.layer.toNat).toNat) :
    Tracked ⟨{ service.guard with nextFetchBatch := batch },
      service.events ++ [.fetched service.guard.sessionNonce pages]⟩ where
  contiguous nonce layer := by
    rw [acceptedBlocks_append, acceptedBlocks_fetched, List.append_nil]
    exact h.contiguous nonce layer
  current _ layer := by
    rw [acceptedBlocks_append, acceptedBlocks_fetched, List.append_nil]
    exact h.current hactive layer
  unseen nonce hnonce layer := by
    rw [acceptedBlocks_append, acceptedBlocks_fetched, List.append_nil]
    exact h.unseen nonce hnonce layer
  within := h.within
  fetched := by
    apply h.fetched.concat
    rintro nonce fetched ⟨⟩ page hpage
    -- a page below the frontier is one of the blocks the session has accepted
    have hbelow := hpages page hpage
    rw [h.current hactive, Nat.mul_comm] at hbelow
    rw [h.contiguous, List.mem_range]
    exact Nat.le_of_mul_le_mul_left hbelow (by decide)

theorem Service.take_tracked (request : Request Records) : Tracked (service.take request) := by
  rcases respond_cases service.guard request with ⟨err, heq⟩ | ⟨after, haccepted, heq⟩
  · rwa [Service.take_of_error heq]
  · rw [Service.take_of_ok heq]
    cases haccepted with
    | begin hnew =>
      rw [Request.events, List.append_nil]
      exact h.begin hnew
    | append hactive hext => exact h.append hactive hext
    | fetch hactive hpages => exact h.fetch hactive hpages
    | barrier =>
      rw [Request.events, List.append_nil]
      exact h

end

theorem serve_tracked (rank : UInt32) (requests : List (Request Records)) : Tracked (serve rank requests) := by
  induction requests using List.reverseRecOn with
  | nil => exact guardInit_tracked rank
  | append_singleton requests request ih =>
    rw [serve, List.foldl_append]
    exact Service.take_tracked ih request

/-- Over every run of requests, with any manifests and field values: the blocks accepted for a layer under
one nonce are 0, 1, 2 and so on, each once and in order; the frontier of the open session is four tokens for
each of its blocks and within its context limit; an accepted fetch names only pages accepted before it
under the same nonce; and a refused request leaves the guard as it was. -/
theorem serve_guarded (rank : UInt32) (requests : List (Request Records)) :
    (∀ nonce layer, ∃ pages, acceptedBlocks (serve rank requests).events nonce layer = List.range pages) ∧
    ((serve rank requests).guard.active = true → ∀ layer,
      ((serve rank requests).guard.nextToken layer).toNat = compressRatio *
        (acceptedBlocks (serve rank requests).events (serve rank requests).guard.sessionNonce layer).length) ∧
    (∀ layer, (serve rank requests).guard.nextToken layer ≤ (serve rank requests).guard.contextLimit) ∧
    FetchesAccepted (serve rank requests).events ∧
    ∀ (request : Request Records) (err : Error), (respond (serve rank requests).guard request).1 = .error err →
      (respond (serve rank requests).guard request).2 = (serve rank requests).guard := by
  have h := serve_tracked rank requests
  refine ⟨fun nonce layer => ⟨_, h.contiguous nonce layer⟩, h.current, ?_, h.fetched, ?_⟩
  · intro layer
    exact UInt32.le_iff_toNat_le.mpr (h.within layer)
  · intro request err herr
    exact respond_error herr

end FlashGordon.QsaOwner
