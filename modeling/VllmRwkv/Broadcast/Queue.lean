import VllmRwkv.Broadcast.Framing

/-!
# The broadcast queue

`MessageQueue` of `shm_broadcast.py` with one writer and its local readers: a ring of chunks in shared memory,
each with a written flag and one read flag per reader, and a publish socket for messages that do not fit.
Every access to shared memory and every use of the socket is a step of its own, so that a run of the
`System` is any interleaving of the processes. The notifications that wake idle readers are left out: a
reader that waits looks at the flags again at any time.
-/

namespace VllmRwkv.Broadcast

open Function

/-- What the queue asks of pickling: `dumps` with the callback that keeps a buffer in the pickle, and
`loads`. -/
structure Pickler (Obj : Type) where
  dumps : (Buffer → Bool) → Obj → Buffer × List Buffer
  loads : Buffer → List Buffer → Obj
  loads_dumps : ∀ inBand obj, loads (dumps inBand obj).1 (dumps inBand obj).2 = obj

/-- `oob_callback`: buffers smaller than 1 MiB stay in the pickle. -/
def oobCallback (buf : Buffer) : Bool := buf.length < 1024 * 1024

/-- The sizes of `ShmRingBuffer`. Shared memory of size 0 cannot be created. -/
structure RingConfig where
  nReader : ℕ
  maxChunkBytes : ℕ
  maxChunks : ℕ
  maxChunks_pos : 0 < maxChunks

/-- The chunks and their metadata. -/
structure Memory (n : ℕ) where
  writtenFlag : ℕ → Bool := fun _ => false
  readFlag : ℕ → Fin n → Bool := fun _ _ => false
  data : ℕ → ℕ → UInt8 := fun _ _ => 0

namespace Memory

variable {n : ℕ}

def setWritten (m : Memory n) (chunk : ℕ) (flag : Bool) : Memory n :=
  { m with writtenFlag := update m.writtenFlag chunk flag }

def setRead (m : Memory n) (chunk : ℕ) (reader : Fin n) (flag : Bool) : Memory n :=
  { m with readFlag := update m.readFlag chunk (update (m.readFlag chunk) reader flag) }

def setData (m : Memory n) (chunk offset : ℕ) (byte : UInt8) : Memory n :=
  { m with data := update m.data chunk (update (m.data chunk) offset byte) }

end Memory

/-- Where the writer is in `enqueue` and `acquire_write`. -/
inductive WriterPc (Obj : Type) where
  | idle
  /-- Adding up the read flags of the readers from `i` on. -/
  | sum (obj : Obj) (i readCount : ℕ)
  /-- Before the written flag is read. -/
  | check (obj : Obj) (readCount : ℕ)
  /-- Before the chunk is marked as not written. -/
  | mark (obj : Obj)
  /-- Writing the message, byte by byte. -/
  | fill (obj : Obj) (offset : ℕ) (pending : List (Option UInt8))
  /-- Resetting the read flags from `i` on. -/
  | clear (obj : Obj) (i : ℕ)
  /-- Before the chunk is marked as written. -/
  | publish (obj : Obj)
  /-- Before an overflow message is sent over the socket. -/
  | send (obj : Obj)

/-- What a chunk says. -/
inductive Message (Obj : Type) where
  | overflow
  | inline (obj : Obj)

/-- Where a reader is in `dequeue` and `acquire_read`. -/
inductive ReaderPc (Obj : Type) where
  | idle
  /-- Before the reader's own flag is read. -/
  | readFlag
  /-- Before the written flag is read. -/
  | writtenFlag (readFlag : Bool)
  /-- The chunk is not ready. -/
  | wait
  /-- Reading the chunk, byte by byte. -/
  | read (bytes : Buffer)
  /-- Before the read flag is set; with `none`, the chunk made no sense. -/
  | release (message : Option (Message Obj))
  /-- Before an overflow message is received from the socket. -/
  | recv

structure Reader (Obj : Type) where
  pc : ReaderPc Obj := .idle
  currentIdx : ℕ := 0
  /-- What `dequeue` has returned so far; no code reads this. -/
  got : List Obj := []
  /-- The number of chunks the reader has marked as read; no code reads this. -/
  taken : ℕ := 0

structure System (Obj : Type) (n : ℕ) where
  mem : Memory n := {}
  writer : WriterPc Obj := .idle
  currentIdx : ℕ := 0
  readers : Fin n → Reader Obj := fun _ => {}
  /-- What the socket still has for each reader. -/
  sockets : Fin n → List (Buffer × List Buffer) := fun _ => []
  /-- The enqueued objects; no code reads this. -/
  log : List Obj := []

/-- One step of one process; `enqueue` and `dequeue` are calls of the processes' own programs. -/
inductive Action (Obj : Type) (n : ℕ) where
  | enqueue (obj : Obj)
  | write
  | dequeue (reader : Fin n)
  | read (reader : Fin n)
  /-- The time of a `dequeue` is up. -/
  | timeout (reader : Fin n)

variable {Obj : Type}

section Model

variable (cfg : RingConfig) (pk : Pickler Obj)

/-- The message does not fit into a chunk. -/
def overflows (obj : Obj) : Bool :=
  let (main, oob) := pk.dumps oobCallback obj
  cfg.maxChunkBytes ≤ totalBytes main oob

/-- What `enqueue` writes into the chunk. -/
def plan (obj : Obj) : List (Option UInt8) :=
  if overflows cfg pk obj then [some 1]
  else
    let (main, oob) := pk.dumps oobCallback obj
    framePlan (main :: oob)

/-- What `dequeue` makes of a chunk. -/
def decode (bytes : Buffer) : Option (Message Obj) :=
  match bytes with
  | [] => none
  | flag :: _ =>
    if flag = 1 then some .overflow
    else match unframe bytes with
      | [] => none
      | main :: oob => some (.inline (pk.loads main oob))

/-- Slices of a chunk that start after `offset` bytes, each after its length, as the chunk has them now. -/
def viewed (data : ℕ → UInt8) : ℕ → List ℕ → List Buffer
  | _, [] => []
  | offset, size :: sizes =>
    (List.range size).map (fun i => data (offset + 4 + i)) :: viewed data (offset + 4 + size) sizes

/-- What a reader has of the `k`-th object after its `dequeue`. `loads` gets the out-of-band buffers of a
message in line as views of the chunk: a tensor is copied out of it (`_rebuild_tensor`), but an object that
keeps its views goes on reading the chunk. -/
def present (keepsViews : Obj → Bool) (mem : Memory cfg.nReader) (k : ℕ) (obj : Obj) : Obj :=
  if overflows cfg pk obj = false ∧ keepsViews obj then
    let (main, oob) := pk.dumps oobCallback obj
    pk.loads main (viewed (mem.data (k % cfg.maxChunks)) (7 + main.length) (oob.map List.length))
  else obj

section

variable (s : System Obj cfg.nReader)

/-- The next step of the writer. -/
def writeStep : Option (System Obj cfg.nReader) :=
  match s.writer with
  | .idle => none
  | .sum obj i readCount =>
    if h : i < cfg.nReader then
      some { s with writer := .sum obj (i + 1) (readCount + (s.mem.readFlag s.currentIdx ⟨i, h⟩).toNat) }
    else some { s with writer := .check obj readCount }
  | .check obj readCount =>
    if s.mem.writtenFlag s.currentIdx ∧ readCount ≠ cfg.nReader then some { s with writer := .sum obj 0 0 }
    else some { s with writer := .mark obj }
  | .mark obj =>
    some { s with mem := s.mem.setWritten s.currentIdx false, writer := .fill obj 0 (plan cfg pk obj) }
  | .fill obj offset (some byte :: pending) =>
    if offset < cfg.maxChunkBytes then
      some { s with mem := s.mem.setData s.currentIdx offset byte, writer := .fill obj (offset + 1) pending }
    else some { s with writer := .idle }
  | .fill _ _ (none :: _) => some { s with writer := .idle }
  | .fill obj _ [] => some { s with writer := .clear obj 0 }
  | .clear obj i =>
    if h : i < cfg.nReader then
      some { s with mem := s.mem.setRead s.currentIdx ⟨i, h⟩ false, writer := .clear obj (i + 1) }
    else some { s with writer := .publish obj }
  | .publish obj =>
    some { s with
      mem := s.mem.setWritten s.currentIdx true
      currentIdx := (s.currentIdx + 1) % cfg.maxChunks
      log := s.log ++ [obj]
      writer := if overflows cfg pk obj then .send obj else .idle }
  | .send obj => some { s with sockets := fun r => s.sockets r ++ [pk.dumps oobCallback obj], writer := .idle }

/-- Replace one reader. -/
def System.setReader {n : ℕ} (s : System Obj n) (r : Fin n) (reader : Reader Obj) : System Obj n :=
  { s with readers := update s.readers r reader }

/-- The next step of a reader. -/
def readStep (r : Fin cfg.nReader) : Option (System Obj cfg.nReader) :=
  let me := s.readers r
  match me.pc with
  | .idle => none
  | .readFlag => some (s.setReader r { me with pc := .writtenFlag (s.mem.readFlag me.currentIdx r) })
  | .writtenFlag readFlag =>
    if s.mem.writtenFlag me.currentIdx = false ∨ readFlag then some (s.setReader r { me with pc := .wait })
    else some (s.setReader r { me with pc := .read [] })
  | .wait => some (s.setReader r { me with pc := .readFlag })
  | .read bytes =>
    if bytes.length < cfg.maxChunkBytes then
      some (s.setReader r { me with pc := .read (bytes ++ [s.mem.data me.currentIdx bytes.length]) })
    else some (s.setReader r { me with pc := .release (decode pk bytes) })
  | .release message =>
    let s := { s with mem := s.mem.setRead me.currentIdx r true }
    let me := { me with currentIdx := (me.currentIdx + 1) % cfg.maxChunks, taken := me.taken + 1 }
    match message with
    | none => some (s.setReader r { me with pc := .idle })
    | some .overflow => some (s.setReader r { me with pc := .recv })
    | some (.inline obj) => some (s.setReader r { me with pc := .idle, got := me.got ++ [obj] })
  | .recv =>
    match s.sockets r with
    | [] => none
    | (main, oob) :: rest =>
      some ({ s with sockets := update s.sockets r rest }.setReader r
        { me with pc := .idle, got := me.got ++ [pk.loads main oob] })

/-- `TimeoutError`: the chunk is not ready, or the socket has nothing. -/
def timeoutStep {n : ℕ} (s : System Obj n) (r : Fin n) : Option (System Obj n) :=
  let me := s.readers r
  match me.pc, s.sockets r with
  | .wait, _ => some (s.setReader r { me with pc := .idle })
  | .recv, [] => some (s.setReader r { me with pc := .idle })
  | _, _ => none

def step : Action Obj cfg.nReader → Option (System Obj cfg.nReader)
  | .enqueue obj =>
    match s.writer with
    | .idle => some { s with writer := .sum obj 0 0 }
    | _ => none
  | .write => writeStep cfg pk s
  | .dequeue r =>
    match (s.readers r).pc with
    | .idle => some (s.setReader r { s.readers r with pc := .readFlag })
    | _ => none
  | .read r => readStep cfg pk s r
  | .timeout r => timeoutStep s r

end

/-- The systems before and after steps that all meet `P`. -/
def Runs (P : System Obj cfg.nReader → Action Obj cfg.nReader → Prop) :
    System Obj cfg.nReader → System Obj cfg.nReader → Prop :=
  Relation.ReflTransGen fun s s' => ∃ a, P s a ∧ step cfg pk s a = some s'

end Model

end VllmRwkv.Broadcast
