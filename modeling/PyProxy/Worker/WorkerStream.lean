import PyProxy.Os
import PyProxy.Protocol.Message
import PyProxy.Stream.Buffer

namespace PyProxy.Worker
open Stream Protocol Server

structure WorkerStream where
  stream : Sock
  inFds : List Sock
  inbuffer : List UInt8
  outbuffer : List UInt8
  newMsgs : List (Vector UInt8 requestHeaderSize × Sock)

namespace WorkerStream

def new (stream : Sock) : WorkerStream := ⟨stream, [], [], [], []⟩

def hasData (s : WorkerStream) : Bool := !s.outbuffer.isEmpty

def newMsg (s : WorkerStream) (msgType : UInt8) (msgLen : Vector UInt8 4) (msg : List UInt8) :
    WorkerStream :=
  { s with outbuffer := s.outbuffer ++ [msgType] ++ msgLen.toList ++ msg }

def takeHeader (s : WorkerStream) : WorkerStream :=
  if s.inbuffer.length ≥ requestHeaderSize then
    match s.inFds with
    | [] => s
    | fd :: fds =>
      { s with
        inFds := fds
        newMsgs := s.newMsgs ++ [(copyHeader requestHeaderSize s.inbuffer, fd)]
        inbuffer := compact requestHeaderSize s.inbuffer }
  else s

-- the loop of the source ends with `break`, so a read takes at most one header
def read (s : WorkerStream) (fds : List Sock) :
    IoResult (List UInt8) → Except IoError Unit × WorkerStream
  | .error e => (.error e, s)
  | .ok [] => (.error .connectionAborted, s)
  | .ok bytes =>
    (.ok (), { s with inFds := s.inFds ++ fds, inbuffer := s.inbuffer ++ bytes }.takeHeader)

def nextMsg (s : WorkerStream) : Option (Vector UInt8 requestHeaderSize × Sock) × WorkerStream :=
  match s.newMsgs with
  | [] => (none, s)
  | msg :: msgs => (some msg, { s with newMsgs := msgs })

def write (s : WorkerStream) : IoResult Nat → Except IoError WorkerStream
  | .error e => .error e
  | .ok bytesWritten => .ok { s with outbuffer := compact bytesWritten s.outbuffer }

variable (mc : MessageCodecs)

def log (s : WorkerStream) (level : LogLevel) (msg : String) (tags : List (String × LogValue))
    (ts : String) : WorkerStream :=
  let msg := mc.logMessage.serialize { level := level, ts := ts, msg := msg, tags := tags }
  s.newMsg logMessage (toBeBytes (asU32 msg.length)) msg

def info (s : WorkerStream) (msg : String) (tags : List (String × LogValue)) (ts : String) :
    WorkerStream := s.log mc .info msg tags ts

def error (s : WorkerStream) (msg : String) (tags : List (String × LogValue)) (ts : String) :
    WorkerStream := s.log mc .error msg tags ts

def print (s : WorkerStream) (message : String) : WorkerStream :=
  let msg := mc.printMessage.serialize { message := message }
  s.newMsg printMessage (toBeBytes (asU32 msg.length)) msg

def sockets (s : WorkerStream) : List Sock := s.newMsgs.map Prod.snd ++ s.inFds

theorem takeHeader_sockets (s : WorkerStream) : s.takeHeader.sockets = s.sockets := by
  simp only [takeHeader]
  split
  · cases hfds : s.inFds <;> simp [sockets, hfds]
  · rfl

theorem read_stream (s : WorkerStream) (fds : List Sock) (r : IoResult (List UInt8)) :
    (s.read fds r).2.stream = s.stream := by
  rcases r with e | _ | ⟨b, bs⟩
  · rfl
  · rfl
  · simp only [read, takeHeader]
    split
    · split <;> rfl
    · rfl

theorem read_sockets (s : WorkerStream) (fds : List Sock) (r : IoResult (List UInt8)) :
    (s.read fds r).2.sockets = s.sockets ∨ (s.read fds r).2.sockets = s.sockets ++ fds := by
  rcases r with e | _ | ⟨b, bs⟩
  · exact .inl rfl
  · exact .inl rfl
  · right
    change (takeHeader _).sockets = _
    rw [takeHeader_sockets]
    simp [sockets]

end WorkerStream

structure Job where
  sessionId : String
  msg : RequestMessage

namespace Job

def futureId (j : Job) : String :=
  match j.msg with
  | .hello => "0000"
  | .codePickle _ => "0000"
  | .codeString s => s.futureId

-- a `Hello` is matched and nothing is executed for it
def executes (j : Job) : Bool :=
  match j.msg with
  | .hello => false
  | .codePickle _ => true
  | .codeString _ => true

variable (mc : MessageCodecs)

def start (j : Job) (logger : WorkerStream) : WorkerStream :=
  logger.print mc (newRequestStart ++ j.sessionId)

-- `pyErr` is the error python raised; only `res_handler`, for a `CodeString`, logs it
def handle (j : Job) (logger : WorkerStream) (pyErr : Option String) (ts : String) : WorkerStream :=
  match j.msg, pyErr with
  | .codeString _, some pyErr =>
    logger.error mc "failed to run python code on pyproxy server" [("error", .string pyErr)] ts
  | _, _ => logger

def finish (j : Job) (logger : WorkerStream) (pyErr : Option String) (ts : String) : WorkerStream :=
  (j.handle mc logger pyErr ts).info mc "finished processing pyproxyatom"
    [("session_id", .string j.sessionId), ("future_id", .string j.futureId)] ts

end Job

end PyProxy.Worker
