import FlashGordon.IoQueues
import FlashGordon.Runs
import FlashGordon.Status

/-! The ring of `uring.c`: single operations, read batches and write batches that share one pair of queues with the
kernel. The kernel takes entries in order, may take a part of what a call submits, may fail a call before or after it
took something, and completes in any order; all of this is the call's script. -/

namespace FlashGordon.Uring

inductive Op where
  | read
  | write
  | send
  | recv
  deriving DecidableEq

/-- `fg_uring_read`, and the buffer, length and offset of a single operation. -/
structure Request where
  buffer : Nat
  bytes : Nat
  offset : Nat

/-- The fields of a submission entry that the ring sets. The last two say which call queued it and for which of its
requests; neither the ring nor the kernel looks at them. -/
structure Sqe where
  op : Op
  fd : Nat
  addr : Nat
  len : Nat
  off : Nat
  userData : Nat
  call : Nat
  request : Nat
  deriving DecidableEq

abbrev Queues := IoQueues Sqe Int

/-- What `fg_uring` holds beside the queues. -/
structure Ring where
  entries : Nat
  entries_pos : 0 < entries
  fileCount : Nat
  fixedBuffer : Nat
  fixedBufferBytes : Nat
  bufferRegistered : Bool

/-- What the kernel does from one look at the completion queue to the next: how many entries it is ready to take at
`io_uring_enter`, the errno of a failed call, and the completions it posts. -/
structure Tick where
  taken : Nat
  failed : Option Int
  posts : List (Nat × Int)

/-- `uring_enter`: the number of entries that were taken, or the errno. -/
def uringEnter (q : Queues) (submit : Nat) (tick : Tick) : Except Int Nat × Queues :=
  let n := min tick.taken (min submit q.queued.length)
  (match tick.failed with
    | none => .ok n
    | some errno => .error errno,
   (q.take n).postAll tick.posts)

def Ring.inFixedBuffer (r : Ring) (request : Request) : Prop :=
  let displacement := if r.fixedBuffer ≤ request.buffer then request.buffer - r.fixedBuffer else 2 ^ 64 - 1
  r.bufferRegistered = true ∧ displacement ≤ r.fixedBufferBytes ∧ request.bytes ≤ r.fixedBufferBytes - displacement

instance (r : Ring) (request : Request) : Decidable (r.inFixedBuffer request) := by
  unfold Ring.inFixedBuffer
  infer_instance

/-- What a call queued, what it read, and where the queues stand. -/
structure Progress where
  queues : Queues
  entries : List Sqe
  consumed : List (Sqe × Int)
  results : List Int
  completed : Nat
  badTag : Bool

def Progress.start (queues : Queues) (count : Nat) : Progress :=
  ⟨queues, [], [], List.replicate count (-2147483648), 0, false⟩

def Progress.push (p : Progress) (entries : List Sqe) : Progress :=
  { p with queues := p.queues.push entries, entries := p.entries ++ entries }

section Calls

variable (strerror : Int → String)

def singleSqe (call : Nat) (op : Op) (slot : Nat) (request : Request) : Sqe where
  op := op
  fd := slot
  addr := request.buffer
  len := request.bytes
  off := request.offset
  userData := (request.offset * 2 ^ 16 % 2 ^ 64) ^^^ request.bytes
  call := call
  request := 0

/-- What `submit_once` makes of the completion that it read. -/
def readSingle (p : Progress) (completion : Sqe × Int) : Except Error (List Int) × Progress :=
  (if completion.2 < 0 then .error ⟨.io, "io_uring operation: " ++ strerror (-completion.2)⟩ else .ok [completion.2],
   { p with queues := p.queues.read 1, consumed := p.consumed ++ [completion] })

/-- The wait of `submit_once`: it takes the first completion that there is. -/
def waitOne : List Tick → Progress → Option (Except Error (List Int) × Progress)
  | script, p =>
    match script, p.queues.completed with
    | _, completion :: _ => some (readSingle strerror p completion)
    | [], [] => none
    | tick :: rest, [] =>
      match uringEnter p.queues 0 tick with
      | (.error errno, queues) => some (.error ⟨.io, "wait io_uring: " ++ strerror errno⟩, { p with queues })
      | (.ok _, queues) => waitOne rest { p with queues }

def submitOnce (r : Ring) (call : Nat) (op : Op) (slot : Nat) (request : Request) (script : List Tick) (q : Queues) :
    Option (Except Error (List Int) × Progress) :=
  let p := Progress.start q 1
  if request.buffer = 0 ∨ request.bytes = 0 ∨ r.fileCount ≤ slot then
    some (.error ⟨.argument, "invalid io_uring I/O request"⟩, p)
  else if (op = .read ∨ op = .write) ∧ ¬r.inFixedBuffer request then
    some (.error ⟨.argument, "direct I/O is outside the registered fixed buffer"⟩, p)
  else if r.entries ≤ q.queued.length then some (.error ⟨.limit, "io_uring submission queue full"⟩, p)
  else
    let p := p.push [singleSqe call op slot request]
    match script with
    | [] => none
    | tick :: rest =>
      match uringEnter p.queues 1 tick with
      | (.error errno, queues) => some (.error ⟨.io, "io_uring_enter: " ++ strerror errno⟩, { p with queues })
      | (.ok _, queues) => waitOne strerror rest { p with queues }

/-- The requests of a batch; their number is a `uint32_t`. -/
abbrev Requests := { requests : List Request // requests.length < 2 ^ 32 }

def batchSqe (call : Nat) (op : Op) (slot i : Nat) (request : Request) : Sqe where
  op := op
  fd := slot
  addr := request.buffer
  len := request.bytes
  off := request.offset
  userData := i + 1
  call := call
  request := i

def tagRequest (tag : Nat) : Nat := if tag = 0 then 2 ^ 32 - 1 else (tag - 1) % 2 ^ 32

def Progress.readOne (count : Nat) (p : Progress) (completion : Sqe × Int) : Progress :=
  let request := tagRequest completion.1.userData
  { p with
    consumed := p.consumed ++ [completion]
    results := if request < count then p.results.set request completion.2 else p.results
    completed := p.completed + 1
    badTag := p.badTag || decide (count ≤ request) }

/-- The inner loop reads what is there, at most as much as the batch still waits for. -/
def Progress.readReady (count batch : Nat) (p : Progress) : Progress :=
  let ready := p.queues.completed.take (batch - p.completed)
  ready.foldl (Progress.readOne count) { p with queues := p.queues.read (batch - p.completed) }

def collect (count batch : Nat) (script : List Tick) (p : Progress) : Option (Option Int × List Tick × Progress) :=
  let p := p.readReady count batch
  if batch ≤ p.completed then some (none, script, p)
  else
    match script with
    | [] => none
    | tick :: rest =>
      match uringEnter p.queues 0 tick with
      | (.error errno, queues) => some (some errno, rest, { p with queues })
      | (.ok _, queues) => collect count batch rest { p with queues }

structure BatchKind where
  op : Op
  name : String
  refused : Except Int Nat → Nat → Option String

def readKind : BatchKind where
  op := .read
  name := "read"
  refused submitted batch :=
    match submitted with
    | .error errno => some (strerror errno)
    | .ok n => if n ≠ batch then some "partial submission" else none

def writeKind : BatchKind where
  op := .write
  name := "write"
  refused submitted _ :=
    match submitted with
    | .error errno => some (strerror errno)
    | .ok _ => none

/-- The entries of the requests from `base` on. -/
def batchSqes (call : Nat) (op : Op) (slot : Nat) (requests : List Request) (base batch : Nat) : List Sqe :=
  ((requests.drop base).take batch).mapIdx fun i request => batchSqe call op slot (base + i) request

/-- The loop over submissions of `fg_uring_pread_batch_results` and `fg_uring_pwrite_batch`. -/
def submissions (r : Ring) (call : Nat) (kind : BatchKind) (slot : Nat) (requests : List Request) :
    Nat → Nat → List Tick → Progress → Option (Except Error (List Int) × Progress)
  | 0, _, _, p => some (.ok p.results, p)
  | fuel + 1, base, script, p =>
    if requests.length ≤ base then some (.ok p.results, p)
    else
      let batch := min (requests.length - base) r.entries
      if r.entries < p.queues.queued.length + batch then
        some (.error ⟨.limit, "io_uring batch exceeds submission queue"⟩, p)
      else
        let p := p.push (batchSqes call kind.op slot requests base batch)
        match script with
        | [] => none
        | tick :: rest =>
          let (submitted, queues) := uringEnter p.queues batch tick
          match kind.refused submitted batch with
          | some text =>
            some (.error ⟨.io, "submit io_uring " ++ kind.name ++ " batch: " ++ text⟩, { p with queues })
          | none =>
            match collect requests.length batch rest { p with queues, completed := 0 } with
            | none => none
            | some (some errno, _, p) =>
              some (.error ⟨.io, "wait io_uring " ++ kind.name ++ " batch: " ++ strerror errno⟩, p)
            | some (none, rest, p) =>
              if p.badTag then some (.error ⟨.format, "invalid io_uring completion tag"⟩, p)
              else submissions r call kind slot requests fuel (base + batch) rest p

/-- The first request that the fixed buffer does not hold. -/
def outside (r : Ring) (requests : List Request) : Option Nat :=
  requests.findIdx? fun request => request.buffer = 0 ∨ request.bytes = 0 ∨ ¬r.inFixedBuffer request

/-- `fg_uring_pread_batch_results`. -/
def preadBatchResults (r : Ring) (call slot : Nat) (reads : Requests) (resultCapacity : Nat) (script : List Tick)
    (q : Queues) : Option (Except Error (List Int) × Progress) :=
  let count := reads.1.length
  let p := Progress.start q count
  if r.fileCount ≤ slot ∨ count = 0 ∨ resultCapacity < count then
    some (.error ⟨.argument, "invalid io_uring read batch"⟩, p)
  else
    match outside r reads.1 with
    | some i => some (.error ⟨.argument, "read batch item " ++ toString i ++ " is outside the fixed buffer"⟩, p)
    | none => submissions strerror r call (readKind strerror) slot reads.1 count 0 script p

/-- The first write that failed or came short. -/
def checkWrites : List Request → List Int → Nat → Option Error
  | request :: requests, result :: results, i =>
    if result < 0 then
      some ⟨.io, "io_uring write batch item " ++ toString i ++ ": " ++ strerror (-result)⟩
    else if result.toNat ≠ request.bytes then
      some ⟨.io, "short write batch item " ++ toString i ++ ": got " ++ toString result ++ " of " ++
        toString request.bytes ++ " bytes"⟩
    else checkWrites requests results (i + 1)
  | _, _, _ => none

/-- `fg_uring_pwrite_batch`. -/
def pwriteBatch (r : Ring) (call slot : Nat) (writes : Requests) (script : List Tick) (q : Queues) :
    Option (Except Error (List Int) × Progress) :=
  let count := writes.1.length
  let p := Progress.start q count
  if r.fileCount ≤ slot ∨ count = 0 then some (.error ⟨.argument, "invalid io_uring write batch"⟩, p)
  else
    match outside r writes.1 with
    | some i => some (.error ⟨.argument, "write batch item " ++ toString i ++ " is outside the fixed buffer"⟩, p)
    | none =>
      match submissions strerror r call (writeKind strerror) slot writes.1 count 0 script p with
      | some (.ok results, p) =>
        match checkWrites strerror writes.1 results 0 with
        | some e => some (.error e, p)
        | none => some (.ok results, p)
      | other => other

end Calls

inductive Call where
  | submitOnce (op : Op) (slot : Nat) (request : Request)
  | preadBatchResults (slot : Nat) (reads : Requests) (resultCapacity : Nat)
  | pwriteBatch (slot : Nat) (writes : Requests)

/-- A call with what the kernel does during it. -/
structure Action where
  call : Call
  script : List Tick

structure Report where
  call : Nat
  answer : Except Error (List Int)
  entries : List Sqe
  consumed : List (Sqe × Int)

structure System where
  queues : Queues
  calls : Nat
  reports : List Report

/-- A ring that was just created. -/
def init : System := ⟨.empty, 0, []⟩

variable (strerror : Int → String) (r : Ring)

def perform (call : Nat) (action : Action) (q : Queues) : Option (Except Error (List Int) × Progress) :=
  match action.call with
  | .submitOnce op slot request => submitOnce strerror r call op slot request action.script q
  | .preadBatchResults slot reads capacity => preadBatchResults strerror r call slot reads capacity action.script q
  | .pwriteBatch slot writes => pwriteBatch strerror r call slot writes action.script q

/-- One call; a call that waits for ever has no result. -/
def step (s : System) (action : Action) : Option System :=
  (perform strerror r s.calls action s.queues).map fun (answer, p) =>
    ⟨p.queues, s.calls + 1, s.reports ++ [⟨s.calls, answer, p.entries, p.consumed⟩]⟩

end FlashGordon.Uring
