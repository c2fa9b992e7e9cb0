import FlashGordon.TensorStorage
import FlashGordon.CookedLayout

/-!
The writer of `pack.c`. GGUF tensors come one after another; a common tensor goes to the output of its owner or
of the n-gram table, a routed tensor expert by expert to the ranks of its layer, and each piece is recorded in
the manifest. A dry run keeps only the offsets of the outputs.
-/

namespace FlashGordon.Pack

open SealedManifest Checks Cooked

/-! ## Tensors of a GGUF file -/

/-- `fg_gguf_tensor`, as a file that has been opened gives it: its bytes are those of its type and shape. -/
structure GgufTensor where
  name : List UInt8
  type : UInt32
  dims : UInt32
  shape : Fin 4 → UInt64
  offset : UInt64
  bytes : UInt64
  sized : ggufTensorBytes type dims shape = some bytes

/-- `strstr`, as a test. -/
def contains (name : List UInt8) (text : String) : Bool := name.tails.any ((ascii text).isPrefixOf ·)

def startsWith (name : List UInt8) (text : String) : Bool := (ascii text).isPrefixOf name

/-- `strtol` in base ten, where it converts anything. -/
def parseLong (text : List UInt8) : Option Int :=
  let text := text.dropWhile fun c => c = 32 || (9 ≤ c && c ≤ 13)
  let digits (text : List UInt8) : Option Nat :=
    match text.takeWhile fun c => 48 ≤ c && c ≤ 57 with
    | [] => none
    | digits => some (digits.foldl (fun value c => value * 10 + (c.toNat - 48)) 0)
  match text with
  | 45 :: rest => (digits rest).map fun value => -(value : Int)
  | 43 :: rest => (digits rest).map fun value => (value : Int)
  | _ => (digits text).map fun value => (value : Int)

/-- `fg_gguf_tensor_layer`; `none` is -1. -/
def tensorLayer (name : List UInt8) : Option (Fin layerCount) :=
  match name.tails.find? ((ascii "blk.").isPrefixOf ·) with
  | none => none
  | some found =>
    match parseLong (found.drop 4) with
    | none => none
    | some value => if h : 0 ≤ value ∧ value.toNat < layerCount then some ⟨value.toNat, h.2⟩ else none

/-- `fg_gguf_tensor_kind`. -/
def tensorKind (name : List UInt8) : UInt8 :=
  if contains name "per_layer_token_embd" then tensorNgram
  else if startsWith name "v." || startsWith name "mm." || contains name "vision" || contains name "visual" then
    tensorVision
  else if startsWith name "blk.48." || contains name "nextn" || contains name "mtp" || contains name "draft" then tensorMtp
  else if contains name "_exps" || contains name "experts" then tensorRoutedExpert
  else tensorCommon

def GgufTensor.text (t : GgufTensor) : String := String.ofList (t.name.map fun c => Char.ofNat c.toNat)

/-- `pack_output`; a dry run has no file. -/
structure Output where
  file : Option (List UInt8)
  offset : UInt64

/-- What `fseeko` and `fread` get of a source. -/
def readAt (src : List UInt8) (offset bytes : Nat) : Option (List UInt8) :=
  if offset < 2 ^ 63 ∧ offset + bytes ≤ src.length then some ((src.drop offset).take bytes) else none

def Output.write (out : Output) (data : List UInt8) : Output := { out with file := out.file.map (· ++ data) }

def padTo (out : Output) (target : UInt64) : Output :=
  if out.offset < target then
    { out.write (List.replicate (target - out.offset).toNat 0) with offset := target }
  else out

/-- `copy_range`, with the bytes that go into the hash. -/
def copyRange (src : List UInt8) (offset bytes : UInt64) (out : Output) (hash : List UInt8) :
    Except Error (Output × List UInt8) :=
  match out.file with
  | none => .ok ({ out with offset := out.offset + bytes }, hash ++ (leU64 offset ++ leU64 bytes))
  | some _ =>
    match readAt src offset.toNat bytes.toNat with
    | none => .error ⟨.io, "copy tensor: unexpected end of source"⟩
    | some data => .ok ({ out.write data with offset := out.offset + bytes }, hash ++ data)

def memory (data : List UInt8) : Nat → UInt8 := fun i => data.getD i 0

def buffer (mem : Nat → UInt8) (bytes : Nat) : List UInt8 := (List.range bytes).map mem

/-- `use_cooked_q8_0`. -/
def useCookedQ8 (t : GgufTensor) : Bool :=
  if t.type ≠ 8 ∨ t.dims ≠ 2 ∨ t.shape 0 > u32Max ∨ t.shape 1 > u32Max ∨ t.shape 0 % 32 ≠ 0 ∨ t.shape 1 < 2560 ∨
      t.name = tokenEmbedding then false
  else
    let bytes := q8CookedMatrixBytes (t.shape 0) (t.shape 1)
    bytes ≠ 0 ∧ bytes ≤ u32Max

/-- The loop of `process_cooked_q8_0` over the tiles, from row `first` on. -/
def cookTiles (src : List UInt8) (t : GgufTensor) (sourceRow tileBytes : UInt64) :
    Nat → Nat → Except Error (List UInt8)
  | 0, _ => .ok []
  | n + 1, first =>
    let rows := min (t.shape 1).toNat (first + 16) - first
    match readAt src (t.offset.toNat + first * sourceRow.toNat) (sourceRow.toNat * rows) with
    | none => .error ⟨.io, s!"cook Q8_0 tensor {t.text}: unexpected end of source"⟩
    | some packed =>
      match cookQ8Rows (memory packed) (fun _ => 0) tileBytes (t.shape 0).toUInt32 (.ofNat rows) with
      | none => .error ⟨.io, s!"cook Q8_0 tensor {t.text}: Success"⟩
      | some cooked => do
        let rest ← cookTiles src t sourceRow tileBytes n (first + 16)
        .ok (buffer cooked tileBytes.toNat ++ rest)

/-- `process_cooked_q8_0`: the bytes it writes and hashes. -/
def processCookedQ8 (src : List UInt8) (t : GgufTensor) : Except Error (List UInt8) :=
  let sourceRow := t.shape 0 / 32 * 34
  let tileBytes := q8CookedTileBytes (t.shape 0)
  if sourceRow = 0 ∨ tileBytes = 0 ∨ t.shape 0 > u32Max ∨ t.shape 1 > u32Max ∨ t.shape 1 > u64Max / sourceRow ∨
      t.bytes ≠ sourceRow * t.shape 1 then
    .error ⟨.format, s!"invalid Q8_0 matrix {t.text} for cooking"⟩
  else cookTiles src t sourceRow tileBytes (((t.shape 1).toNat + 15) / 16) 0

def expertLayout (t : GgufTensor) : UInt8 :=
  if t.dims ≠ 3 ∨ t.shape 0 > u32Max ∨ t.shape 1 > u32Max then layoutGgml
  else if (t.type = 12 ∨ t.type = 13) ∧ kQuantCookedMatrixBytes (t.shape 0) (t.shape 1) t.type ≠ 0 then
    layoutKQuantExpertCooked
  else if t.type = 7 ∧ q51CookedMatrixBytes (t.shape 0) (t.shape 1) ≠ 0 then layoutQ51ExpertCooked
  else if t.type = 8 ∧ q8CookedMatrixBytes (t.shape 0) (t.shape 1) ≠ 0 ∧
      ggufTensorBytes t.type 2 t.shape = some (q8CookedMatrixBytes (t.shape 0) (t.shape 1)) then layoutQ8ExpertCooked
  else layoutGgml

def cookExpert (t : GgufTensor) (layout : UInt8) (bytes : UInt64) (packed : List UInt8) : Option (List UInt8) :=
  let width := (t.shape 0).toUInt32
  let rows := (t.shape 1).toUInt32
  let cooked :=
    if layout = layoutKQuantExpertCooked then cookKQuantRows (memory packed) (fun _ => 0) bytes width rows t.type
    else if layout = layoutQ51ExpertCooked then cookQ51Rows (memory packed) (fun _ => 0) bytes width rows
    else if layout = layoutQ8ExpertCooked then cookQ8Rows (memory packed) (fun _ => 0) bytes width rows
    else none
  cooked.map fun mem => buffer mem bytes.toNat

def processCookedExpert (src : List UInt8) (t : GgufTensor) (offset bytes : UInt64) (layout : UInt8) (out : Output)
    (hash : List UInt8) : Except Error (Output × List UInt8) :=
  match out.file with
  | none =>
    .ok ({ out with offset := out.offset + bytes },
      hash ++ (leU64 offset ++ leU64 bytes ++ leU64 layout.toUInt64))
  | some _ =>
    match readAt src offset.toNat bytes.toNat with
    | none => .error ⟨.io, s!"read expert tensor {t.text}: unexpected end of source"⟩
    | some packed =>
      match cookExpert t layout bytes packed with
      | none => .error ⟨.io, s!"cook expert tensor {t.text}: invalid layout"⟩
      | some cooked => .ok ({ out.write cooked with offset := out.offset + bytes }, hash ++ cooked)

def nameField (text : List UInt8) : Vector UInt8 96 := Vector.ofFn fun i => (text.take 95).getD i 0

/-- `fg_manifest_add_tensor`. -/
def addTensor (m : Manifest) (r : TensorRecord) : Except Error Manifest :=
  if h : m.tensorCount.toNat < maxTensors then
    .ok { m with tensors := Function.update m.tensors ⟨m.tensorCount.toNat, h⟩ r, tensorCount := m.tensorCount + 1 }
  else .error ⟨.limit, "manifest tensor limit exceeded"⟩

def kindFlag (kind : UInt8) : UInt32 :=
  if kind = tensorCommon ∨ kind = tensorRoutedExpert ∨ kind = tensorHostCache then 1
  else if kind = tensorNgram then 2
  else if kind = tensorVision then 4
  else if kind = tensorMtp then 8
  else if kind = tensorTokenizer then 16
  else 0

def lastDim (dims : UInt32) : Fin 4 := ⟨(dims.toNat - 1) % 4, Nat.mod_lt _ (by decide)⟩

/-- The rank of a piece as the records hold it; the n-gram table has none. -/
def rankWord : Option (Fin rankCount) → UInt16
  | some rank => .ofNat rank
  | none => noRank

/-- Where a piece lies, and what `record_segment` is told of it. -/
structure Segment where
  name : List UInt8
  start : UInt64
  bytes : UInt64
  place : Option (Fin rankCount)
  layer : Option (Fin layerCount)
  kind : UInt8
  layout : UInt8
  localExperts : UInt64

def Segment.record (s : Segment) (t : GgufTensor) (sha256 : Digest) : TensorRecord where
  name := nameField s.name
  offset := s.start
  bytes := s.bytes
  ggmlType := t.type
  dims := t.dims
  shape := if s.localExperts = 0 then t.shape else Function.update t.shape (lastDim t.dims) s.localExperts
  rank := rankWord s.place
  layer := s.layer.elim 0xffff fun layer => .ofNat layer
  expert := 0xffff
  kind := s.kind
  layout := s.layout
  reserved := Vector.replicate 4 0
  sha256 := sha256
  padding := Vector.replicate 4 0

def recordSegment (m : Manifest) (t : GgufTensor) (s : Segment) (sha256 : Digest) : Except Error Manifest := do
  let m ← addTensor m (s.record t sha256)
  let m := { m with flags := m.flags ||| kindFlag s.kind }
  match s.place with
  | none => .ok m
  | some rank =>
    if s.kind = tensorHostCache then .ok m
    else
      let ledger := m.ranks rank
      .ok { m with
        ranks := Function.update m.ranks rank
          { ledger with
            tensorCount := ledger.tensorCount + 1
            persistentBytes := ledger.persistentBytes + alignUp s.bytes alignment } }

/-- What a pack run holds: the manifest, and the outputs, `rank[r]` at `some r` and `ngram` at `none`. -/
structure State where
  manifest : Manifest
  outputs : Option (Fin rankCount) → Output

section Writers

variable (sha : List UInt8 → Digest) (embedRank : Option (Fin rankCount))

/-- `common_owner`; `embedRank` is what `FG_PACK_EMBED_RANK` says, if it names a rank. -/
def commonOwner (m : Manifest) (t : GgufTensor) (layer : Option (Fin layerCount)) : Nat :=
  match layer with
  | some layer => (m.layerOwner layer).toNat
  | none =>
    if t.name = tokenEmbedding then embedRank.elim (rankCount - 1) fun rank => rank
    else if t.name = outputWeight ∨ startsWith t.name "output_hc_" then 4
    else 0

def writeCommon (t : GgufTensor) (src : List UInt8) (out : Output) (layout : UInt8) (bytes : UInt64) :
    Except Error (Output × List UInt8) :=
  if layout = layoutQ8Cooked then
    match out.file with
    | none => .ok ({ out with offset := out.offset + bytes }, leU64 t.offset ++ leU64 t.bytes ++ leU64 bytes)
    | some _ => do
      let cooked ← processCookedQ8 src t
      .ok ({ out.write cooked with offset := out.offset + bytes }, cooked)
  else copyRange src t.offset t.bytes out []

/-- `pack_common` once it has its output. -/
def packAt (st : State) (t : GgufTensor) (src : List UInt8) (kind : UInt8) (layer : Option (Fin layerCount))
    (place : Option (Fin rankCount)) : Except Error State := do
  let out := st.outputs place
  let start := alignUp out.offset alignment
  let layout := if useCookedQ8 t then layoutQ8Cooked else layoutGgml
  let bytes := if useCookedQ8 t then q8CookedMatrixBytes (t.shape 0) (t.shape 1) else t.bytes
  refuse (useCookedQ8 t ∧ bytes = 0) ⟨.limit, s!"cooked Q8_0 tensor {t.text} is too large"⟩
  let (out, hash) ← writeCommon t src (padTo out start) layout bytes
  let manifest ← recordSegment st.manifest t ⟨t.name, start, bytes, place, layer, kind, layout, 0⟩ (sha hash)
  .ok ⟨manifest, Function.update st.outputs place out⟩

def packCommon (st : State) (t : GgufTensor) (src : List UInt8) : Except Halt State :=
  let kind := tensorKind t.name
  let layer := tensorLayer t.name
  let owner := commonOwner embedRank st.manifest t layer
  if kind = tensorNgram then (packAt sha st t src kind layer none).mapError .error
  else if h : owner < rankCount then (packAt sha st t src kind layer (some ⟨owner, h⟩)).mapError .error
  else .error .overrun

def writeExpert (src : List UInt8) (t : GgufTensor) (bytes : UInt64) (layout : UInt8) (expert : Fin expertCount)
    (out : Output) (hash : List UInt8) : Except Error (Output × List UInt8) :=
  let offset := t.offset + .ofNat expert * bytes
  if layout = layoutGgml then copyRange src offset bytes out hash
  else processCookedExpert src t offset bytes layout out hash

/-- The loop over the experts of a rank, and how many it copied. -/
def writeExperts (src : List UInt8) (t : GgufTensor) (bytes : UInt64) (layout : UInt8) :
    List (Fin expertCount) → Output → List UInt8 → Except Error (Output × List UInt8)
  | [], out, hash => .ok (out, hash)
  | expert :: rest, out, hash => do
    let (out, hash) ← writeExpert src t bytes layout expert out hash
    writeExperts src t bytes layout rest out hash

def expertsOf (m : Manifest) (layer : Fin layerCount) (rank : Fin rankCount) : List (Fin expertCount) :=
  (List.finRange expertCount).filter fun expert => (m.expertRank layer expert).toNat = rank

def expertName (t : GgufTensor) (rank : Fin rankCount) : List UInt8 := t.name.take 80 ++ ascii s!".rank{rank.val}"

def packPiece (st : State) (t : GgufTensor) (src : List UInt8) (layer : Fin layerCount) (rank : Fin rankCount) :
    Except Error State := do
  let bytes := t.bytes / 512
  let layout := expertLayout t
  let out := st.outputs (some rank)
  let start := alignUp out.offset alignment
  let experts := expertsOf st.manifest layer rank
  let (out, hash) ← writeExperts src t bytes layout experts (padTo out start) []
  let expected := layerRankExperts st.manifest layer rank
  refuse (UInt64.ofNat experts.length ≠ expected)
    ⟨.format, s!"layer {layer.val} rank {rank.val} selected {experts.length} experts"⟩
  let manifest ← recordSegment st.manifest t
    ⟨expertName t rank, start, bytes * .ofNat experts.length, some rank, some layer, tensorRoutedExpert, layout, expected⟩
    (sha hash)
  .ok ⟨manifest, Function.update st.outputs (some rank) out⟩

/-- The loop over the slots of the group; a rank is served once. -/
def packGroup (t : GgufTensor) (src : List UInt8) (layer : Fin layerCount) :
    List (Fin groupSize) → List Nat → State → Except Halt State
  | [], _, st => .ok st
  | slot :: rest, processed, st =>
    let rank := (st.manifest.layerGroups layer slot).toNat
    if rank ∈ processed then packGroup t src layer rest processed st
    else if h : rank < rankCount then
      match packPiece sha st t src layer ⟨rank, h⟩ with
      | .error err => .error (.error err)
      | .ok st => packGroup t src layer rest (processed ++ [rank]) st
    else .error .overrun

def packExpertTensor (st : State) (t : GgufTensor) (src : List UInt8) : Except Halt State :=
  match tensorLayer t.name with
  | none => .error (.error ⟨.format, s!"routed tensor {t.text} is not a 512-expert layer tensor"⟩)
  | some layer =>
    if t.shape (lastDim t.dims) ≠ 512 ∨ t.bytes % 512 ≠ 0 then
      .error (.error ⟨.format, s!"routed tensor {t.text} is not a 512-expert layer tensor"⟩)
    else packGroup sha t src layer (List.finRange groupSize) [] st

/-- The body of the loop of `fg_pack_run`. -/
def packTensor (st : State) (t : GgufTensor) (src : List UInt8) : Except Halt State :=
  let kind := tensorKind t.name
  if kind = tensorVision then
    .error (.error ⟨.mismatch, s!"vision tensor {t.text} belongs in a separate tower pack"⟩)
  else if kind = tensorRoutedExpert then packExpertTensor sha st t src
  else packCommon sha embedRank st t src

def packTensors : List (GgufTensor × List UInt8) → State → Except Halt State
  | [], st => .ok st
  | (t, src) :: rest, st => do packTensors rest (← packTensor sha embedRank st t src)

/-- `close_outputs`, and the ledger that follows it. -/
def closeOutputs (st : State) : State :=
  let outputs := fun place => padTo (st.outputs place) (alignUp (st.outputs place).offset alignment)
  { manifest :=
      { st.manifest with
        ranks := fun rank => { st.manifest.ranks rank with persistentBytes := (outputs (some rank)).offset } }
    outputs }

end Writers

end FlashGordon.Pack
