import PyProxy.Master.WorkerStream
import PyProxy.Protocol.Output

namespace PyProxy.Master
open Stream Protocol

structure OutputStream where
  token : Token
  interest : Interest
  inbuffer : List UInt8
  outbuffer : List UInt8
  sessionId : Option String

namespace OutputStream

def new (token : Token) (interest : Interest) : OutputStream := ⟨token, interest, [], [], none⟩

def setInterest (s : OutputStream) (interest : Interest) : OutputStream :=
  { s with interest := interest }

def hasOutData (s : OutputStream) : Bool := !s.outbuffer.isEmpty

variable (bc : Bincode)

-- A message is taken only when it fills the buffer, so the loop of the source runs its body once.
def hello (s : OutputStream) : Except Error OutputStream :=
  if s.inbuffer.length < requestHeaderSize then .ok s
  else match RequestMessageHeader.fromBuf (copyHeader requestHeaderSize s.inbuffer) with
    | .error e => .error (.protocol e)
    | .ok header =>
      let msgEnd := header.msgLenUsize + requestHeaderSize
      if msgEnd < s.inbuffer.length then .ok s
      else if s.inbuffer.length < msgEnd then .ok s
      else match Output.readHello bc ((s.inbuffer.drop requestHeaderSize).take header.msgLenUsize) with
        | .error e => .error (.protocol e)
        | .ok msg =>
          .ok { s with sessionId := some msg.streamToken, inbuffer := compact msgEnd s.inbuffer }

def read (s : OutputStream) : IoResult (List UInt8) → Except Error Unit × OutputStream
  | .error e => (.error (.io "failed to read output stream" e), s)
  | .ok bytes =>
    let s := { s with inbuffer := s.inbuffer ++ bytes }
    match s.hello bc with
    | .error e => (.error e, s)
    | .ok s => (.ok (), s)

def write (s : OutputStream) : IoResult Nat → IoResult Unit × OutputStream
  | .error e => (.error e, s)
  | .ok bytesWritten => (.ok (), { s with outbuffer := compact bytesWritten s.outbuffer })

def takeSessionId (s : OutputStream) : Option String × OutputStream :=
  (s.sessionId, { s with sessionId := none })

def send (msgType : Output.MessageType) (s : OutputStream) (line : List UInt8) : OutputStream :=
  { s with outbuffer := s.outbuffer ++ Output.newMsg ⟨msgType, line.length⟩ line }

def sendStdout (s : OutputStream) (line : List UInt8) : OutputStream := s.send .stdout line

def sendStderr (s : OutputStream) (line : List UInt8) : OutputStream := s.send .stderr line

theorem hello_token {s s' : OutputStream} (h : s.hello bc = .ok s') : s'.token = s.token := by
  simp only [hello] at h
  split at h
  · cases h
    rfl
  · split at h
    · cases h
    · split at h
      · cases h
        rfl
      · split at h
        · cases h
          rfl
        · split at h <;> cases h
          rfl

theorem read_token (s : OutputStream) (res : IoResult (List UInt8)) :
    (s.read bc res).2.token = s.token := by
  cases res with
  | error e => rfl
  | ok bytes =>
    simp only [read]
    split
    · rfl
    · rename_i s' hs
      have htoken := hello_token bc hs
      exact htoken

theorem read_error {s s' : OutputStream} {res : IoResult (List UInt8)} {e : Error}
    (h : s.read bc res = (.error e, s')) : s'.sessionId = s.sessionId := by
  cases res with
  | error e =>
    cases h
    rfl
  | ok bytes =>
    simp only [read] at h
    split at h
    · cases h
      rfl
    · cases h

theorem unbound_eq {s : OutputStream} (h : s.sessionId = none) : { s with sessionId := none } = s := by
  cases s
  cases h
  rfl

theorem write_token (s : OutputStream) (res : IoResult Nat) : (s.write res).2.token = s.token := by
  cases res <;> rfl

end OutputStream

-- keyed like `Workers`
abbrev Outputs := Sock → OutputStream

def Outputs.set (heap : Outputs) (k : Sock) (s : OutputStream) : Outputs :=
  fun j => if j = k then s else heap j

@[simp] theorem Outputs.set_same (heap : Outputs) (k : Sock) (s : OutputStream) :
    heap.set k s k = s := if_pos rfl

theorem Outputs.set_other (heap : Outputs) {j k : Sock} (s : OutputStream) (h : j ≠ k) :
    heap.set k s j = heap j := if_neg h

theorem Outputs.set_set (heap : Outputs) (k : Sock) (s s' : OutputStream) :
    (heap.set k s).set k s' = heap.set k s' := by
  funext j
  simp only [set]
  split <;> rfl

@[simp] theorem Outputs.set_self (heap : Outputs) (k : Sock) : heap.set k (heap k) = heap := by
  funext j
  simp only [set]
  split
  · rename_i hj
    rw [hj]
  · rfl

theorem Outputs.set_token {heap : Outputs} {k : Sock} {s : OutputStream}
    (h : s.token = (heap k).token) (j : Sock) : (heap.set k s j).token = (heap j).token := by
  simp only [set]
  split
  · rename_i hj
    rw [hj, h]
  · rfl

end PyProxy.Master
