import PyProxy.Os
import PyProxy.Protocol.Message

namespace PyProxy.Master
open Stream Protocol Server

inductive Error where
  | io (action : String) (err : IoError)
  | protocol (e : Protocol.Error)
  deriving DecidableEq, Repr

-- a failed `expect` unwinds the process instead of returning from `run_forever`
inductive Halt where
  | err (e : Error)
  | panic (msg : String)
  deriving DecidableEq, Repr

def fatalIoErr {T : Type} (action : String) : IoResult T → Except Error T
  | .ok t => .ok t
  | .error e => .error (.io action e)

abbrev Request := Vector UInt8 requestHeaderSize × Sock

structure WorkerStream where
  outFds : List Sock
  outbuffer : List UInt8
  inbuffer : List UInt8
  interest : Interest

namespace WorkerStream

def new (interest : Interest) : WorkerStream := ⟨[], [], [], interest⟩

def hasData (s : WorkerStream) : Bool := !s.outbuffer.isEmpty

def setInterest (s : WorkerStream) (interest : Interest) : WorkerStream :=
  { s with interest := interest }

def sendFd (fdQueue : FdQueue) (s : WorkerStream) (fd : Sock) : Option WorkerStream :=
  (fdQueue.enqueue s.outFds fd).map fun fds => { s with outFds := fds }

def appendBuf (s : WorkerStream) (header : Vector UInt8 requestHeaderSize) : WorkerStream :=
  { s with outbuffer := s.outbuffer ++ header.toList }

def dispatch (fdQueue : FdQueue) (s : WorkerStream) (req : Request) : WorkerStream :=
  match s.sendFd fdQueue req.2 with
  | none => s
  | some s => s.appendBuf req.1

def write (fdQueue : FdQueue) (s : WorkerStream) : IoResult Nat → Except Error Unit × WorkerStream
  | .error e =>
    (.error (.io "failed to write to worker stream" e), { s with outFds := fdQueue.unsent s.outFds (.error e) })
  | .ok bytesWritten =>
    (.ok (), { s with
      outFds := fdQueue.unsent s.outFds (.ok bytesWritten)
      outbuffer := compact bytesWritten s.outbuffer })

inductive Notice where
  | log (msg : LogMessage)
  | print (msg : PrintMessage)
  | unrecognised (msgType : UInt8)

def msgHeader (raw : Vector UInt8 5) : Except String (UInt8 × Nat) :=
  .ok (raw[0], (fromBeBytes #v[raw[1], raw[2], raw[3], raw[4]]).toNat)

variable (mc : MessageCodecs)

def decode (header : UInt8 × Nat) (msg : List UInt8) : Except String Notice :=
  if header.1 = logMessage then
    match mc.logMessage.deserialize msg with
    | .ok msg => .ok (.log msg)
    | .error _ => .error "master couldn't deserialize LogMessage"
  else if header.1 = printMessage then
    match mc.printMessage.deserialize msg with
    | .ok msg => .ok (.print msg)
    | .error _ => .error "master couldn't deserialze PrintMessage"
  else .ok (.unrecognised header.1)

def framer : Framer String Notice UInt8 := headed 5 msgHeader Prod.snd (decode mc) (by decide)

inductive ReadResult where
  | ok (notices : List Notice)
  | error (e : IoError)
  | panic (msg : String)

-- the notices are printed to the master's own stdout or logged; none of them is kept
def read (s : WorkerStream) : IoResult (List UInt8) → ReadResult × WorkerStream
  | .error e => (.error e, s)
  | .ok [] => (.error .connectionAborted, s)
  | .ok bytes =>
    let parsed := (framer mc).drain (s.inbuffer ++ bytes)
    let s := { s with inbuffer := parsed.rest }
    match parsed.err with
    | some msg => (.panic msg, s)
    | none => (.ok parsed.msgs, s)

theorem read_ok {s : WorkerStream} {bytes : List UInt8} (hne : bytes ≠ [])
    (h : ((framer mc).drain (s.inbuffer ++ bytes)).err = none) :
    s.read mc (.ok bytes) = (.ok ((framer mc).drain (s.inbuffer ++ bytes)).msgs,
      { s with inbuffer := ((framer mc).drain (s.inbuffer ++ bytes)).rest }) := by
  cases bytes with
  | nil => exact absurd rfl hne
  | cons b bs => simp only [read, h]

end WorkerStream

-- what the `Rc<RefCell<Inner>>` of a stream holds, under the stream's socket
abbrev Workers := Sock → WorkerStream

def Workers.set (heap : Workers) (k : Sock) (s : WorkerStream) : Workers :=
  fun j => if j = k then s else heap j

@[simp] theorem Workers.set_same (heap : Workers) (k : Sock) (s : WorkerStream) :
    heap.set k s k = s := if_pos rfl

theorem Workers.set_other (heap : Workers) {j k : Sock} (s : WorkerStream) (h : j ≠ k) :
    heap.set k s j = heap j := if_neg h

@[simp] theorem Workers.set_self (heap : Workers) (k : Sock) : heap.set k (heap k) = heap := by
  funext j
  simp only [set]
  split
  · rename_i hj
    rw [hj]
  · rfl

structure WorkerStreams where
  streams : List (Token × Sock)
  lastSend : Nat

namespace WorkerStreams

def new : WorkerStreams := ⟨[], 0⟩

def add (s : WorkerStreams) (tk : Token) (stream : Sock) : WorkerStreams :=
  { s with streams := s.streams ++ [(tk, stream)] }

-- the stream under the round-robin index; `none` when there is no stream
def chosen (s : WorkerStreams) : Option Sock :=
  (s.streams[(s.lastSend + 1) % s.streams.length]?).map Prod.snd

structure Dispatched where
  streams : WorkerStreams
  heap : Workers
  newRequests : List Request

def dispatch (fdQueue : FdQueue) (s : WorkerStreams) (heap : Workers) (newRequests : List Request) :
    Dispatched :=
  match s.chosen with
  | none => ⟨s, heap, newRequests⟩
  | some k =>
    ⟨{ s with lastSend := (s.lastSend + 1) % s.streams.length },
      heap.set k (newRequests.foldl (WorkerStream.dispatch fdQueue) (heap k)), []⟩

theorem chosen_none {s : WorkerStreams} : s.chosen = none ↔ s.streams = [] := by
  rw [chosen, Option.map_eq_none_iff, List.getElem?_eq_none_iff, Nat.le_iff_lt_or_eq]
  constructor
  · intro h
    by_contra hne
    have := Nat.mod_lt (s.lastSend + 1) (List.length_pos_iff.mpr hne)
    omega
  · intro h
    simp [h]

theorem dispatch_streams {fdQueue : FdQueue} (s : WorkerStreams) (heap : Workers)
    (newRequests : List Request) : (s.dispatch fdQueue heap newRequests).streams.streams = s.streams := by
  rw [dispatch]
  split <;> rfl

theorem chosen_mem {s : WorkerStreams} {k : Sock} (h : s.chosen = some k) :
    k ∈ s.streams.map Prod.snd := by
  obtain ⟨x, hx, rfl⟩ := Option.map_eq_some_iff.mp h
  exact List.mem_map_of_mem (List.mem_of_getElem? hx)

end WorkerStreams
end PyProxy.Master
