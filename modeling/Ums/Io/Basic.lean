import Ums.Lib.Ring
import Ums.Runtime.System

/-!
# File input and output

A worker that reads or writes a file submits a request to the ring of its own thread and parks
itself among the workers that wait for I/O; whichever worker runs the scheduler asks for the state
of each of their requests. `uringSubmit` and `uringUpdate` are the two functions on the ring, and
`machine` is the runtime in which every request goes through them. An assertion that fails ends
the run.
-/

namespace Ums.Io

open Lib

/-! ## Requests -/

/-- `IO_Request::Type`. -/
inductive IoType where
  | read
  | write
  deriving DecidableEq

/-- `IO_Request::State`. -/
inductive IoState where
  | init
  | error
  | pending
  | completed
  deriving DecidableEq

/-- `IO_Buffer`. -/
structure IoBuffer where
  /-- `m_buffer`. -/
  buffer : BitVec 64
  /-- `m_size`. -/
  size : BitVec 64
  deriving DecidableEq

/-- `os::IO_handle`. -/
structure IoHandle (τ : Type) where
  /-- `m_uring`: the thread whose ring it is. -/
  uring : τ
  /-- `m_id`. -/
  id : BitVec 64

/-- `IO_Request`. -/
structure IoRequest (τ : Type) where
  /-- `m_file_handle`: the file descriptor it points to. -/
  fileHandle : BitVec 32
  /-- `m_io_buffer`. -/
  ioBuffer : IoBuffer
  /-- `m_offset`. -/
  offset : BitVec 64
  /-- `m_io_handle`. -/
  ioHandle : IoHandle τ
  /-- `m_type`. -/
  type : IoType
  /-- `m_state`. -/
  state : IoState

/-- `IO_Request::pending`. -/
def IoRequest.pending {τ : Type} (io : IoRequest τ) : Bool := io.state == .pending

/-- `io_uring_sqe`, as `uring_submit` fills it in. -/
structure Sqe where
  /-- `io_uring_prep_readv` or `io_uring_prep_writev`. -/
  prep : IoType
  /-- The file descriptor. -/
  fd : BitVec 32
  /-- The only `iovec`. -/
  ioVec : IoBuffer
  /-- The offset. -/
  offset : BitVec 64
  /-- `data64`. -/
  data64 : BitVec 64
  deriving DecidableEq

/-- `io_uring_cqe`. -/
structure Cqe where
  /-- `data64`. -/
  data64 : BitVec 64
  /-- `res`. -/
  res : BitVec 32
  deriving DecidableEq

/-- The completion of an operation carries its data. -/
def completion (sqe : Sqe) (res : BitVec 32) : Cqe := ⟨sqe.data64, res⟩

/-- `io_uring`. Its library and the system behind it are not modelled: that a ring behaves as a
`Ring` does, is what is assumed of them. -/
abbrev Uring := Ring Sqe Cqe

/-- The number of entries `io_uring_queue_init` asks for. -/
def uringEntries : Nat := 1

section

variable {τ : Type} [DecidableEq τ]

/-- The entry that `uring_submit` prepares for a request. -/
def IoRequest.sqe (io : IoRequest τ) : Sqe where
  prep := io.type
  fd := io.fileHandle
  ioVec := io.ioBuffer
  offset := io.offset
  data64 := io.ioHandle.id

/-- `os::uring_submit`, on the rings of all threads. -/
def uringSubmit (rings : τ → Uring) (io : IoRequest τ) : Option ((τ → Uring) × IoRequest τ) :=
  match (rings io.ioHandle.uring).prepare uringEntries io.sqe with
  -- `io_uring_get_sqe returned nullptr!`
  | none => none
  | some ring =>
    if ring.submit.1 = 1 then
      some (Function.update rings io.ioHandle.uring ring.submit.2, { io with state := .pending })
    -- `io_uring_submit should return 1!`
    else none

/-- `os::uring_update`. -/
def uringUpdate (rings : τ → Uring) (io : IoRequest τ) : Option ((τ → Uring) × IoRequest τ) :=
  if io.state ≠ .pending then some (rings, io)
  else
    match (rings io.ioHandle.uring).peek with
    | none => some (rings, io)
    | some cqe =>
      let state := if cqe.res.signExtend 64 ≠ io.ioBuffer.size then IoState.error else .completed
      if cqe.data64 = io.ioHandle.id then
        some (Function.update rings io.ioHandle.uring (rings io.ioHandle.uring).seen,
          { io with state := state })
      -- `Missmatch between req_id and cqe data64!`
      else none

/-- What the constructor of `IO_Request` has set up when it calls `os::read_file` or
`os::write_file`, on the thread `t` and with the counter of `IO_handle` at `ioCnt`. -/
def IoRequest.new (t : τ) (ioCnt : BitVec 64) (type : IoType) (fileHandle : BitVec 32)
    (ioBuffer : IoBuffer) (offset : BitVec 64) : IoRequest τ where
  fileHandle := fileHandle
  ioBuffer := ioBuffer
  offset := offset
  ioHandle := ⟨t, ioCnt⟩
  type := type
  state := .init

end

/-! ## The runtime with its requests -/

variable {c : Config}

/-- The workers, each with a thread of its own. -/
abbrev Thread (c : Config) := SchedId c × WorkerId c

/-- The runtime, the rings and the requests. -/
structure System (c : Config) where
  /-- The runtime. -/
  runtime : Runtime.System c
  /-- `tls_uring` of each thread. -/
  rings : Thread c → Uring
  /-- `m_io_request` of each worker. -/
  requests : Thread c → Option (IoRequest (Thread c))
  /-- `io_cnt`. -/
  ioCnt : BitVec 64

/-- A label. -/
inductive Event (c : Config) where
  /-- The running worker's task calls `read_file` or `write_file`. -/
  | file (i : SchedId c) (type : IoType) (fileHandle : BitVec 32) (ioBuffer : IoBuffer)
    (offset : BitVec 64)
  /-- The operating system reports an operation on the ring of a thread. -/
  | report (t : Thread c) (n : Nat) (res : BitVec 32)
  /-- Anything else that happens in the runtime. -/
  | runtime (e : Runtime.Event c)
  deriving DecidableEq

/-- The worker whose request a step of the runtime asks for, and the answer it goes on with. -/
def polls (s : Runtime.System c) : Runtime.Event c → Option (Thread c × Bool)
  | .code i completed =>
    match s.pc i with
    | .scheduleIo it => ((s.sched i).pendingIoQueue[it]?).map fun v => ((i, v), completed)
    | _ => none
  | _ => none

/-- `Worker::read_file` and `Worker::write_file`, of the worker `v`. Until it has parked itself,
nobody asks for its request, so that the submission and `sync<Sync_context::io>` are one step. -/
def fileStep (s : System c) (i : SchedId c) (v : WorkerId c) (io : IoRequest (Thread c)) :
    Option (System c) :=
  match uringSubmit s.rings io with
  | none => none
  | some (rings, io) =>
    let s := { s with
      rings := rings, requests := Function.update s.requests (i, v) (some io)
      ioCnt := s.ioCnt + 1 }
    if io.pending then
      (Runtime.next s.runtime (.user i .io)).map fun r => { s with runtime := r }
    else some s

/-- `io_completed` in `schedule_io_workers`: the request of the worker `t` is updated, and the
answer is whether it is pending no more. -/
def pollStep (s : System c) (t : Thread c) : Option (System c × Bool) :=
  match s.requests t with
  | none => none
  | some io =>
    (uringUpdate s.rings io).map fun r =>
      ({ s with rings := r.1, requests := Function.update s.requests t (some r.2) }, !r.2.pending)

/-- One step. -/
def next (s : System c) : Event c → Option (System c)
  | .file i type fileHandle ioBuffer offset =>
    match s.runtime.taskWorker i with
    | none => none
    | some v => fileStep s i v (.new (i, v) s.ioCnt type fileHandle ioBuffer offset)
  | .report t n res =>
    ((s.rings t).report completion n res).map fun ring =>
      { s with rings := Function.update s.rings t ring }
  | .runtime (.user _ .io) => none
  | .runtime e =>
    match polls s.runtime e with
    | none => (Runtime.next s.runtime e).map fun r => { s with runtime := r }
    | some (t, completed) =>
      match pollStep s t with
      | none => none
      | some (s, answer) =>
        if completed = answer then
          (Runtime.next s.runtime e).map fun r => { s with runtime := r }
        else none

/-- The runtime with its requests as a machine: nobody has issued any yet. -/
def machine (c : Config) : Machine (System c) (Event c) where
  init s := (Runtime.machine c).init s.runtime ∧ (∀ t, s.rings t = {}) ∧
    (∀ t, s.requests t = none) ∧ s.ioCnt = 0
  next := next

end Ums.Io
