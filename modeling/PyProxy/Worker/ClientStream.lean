import PyProxy.Os
import PyProxy.Protocol.Message

namespace PyProxy.Worker
open Stream Protocol

inductive Error where
  | io (action : String) (error : IoError)
  | streamClosed
  | protocol (e : Protocol.Error)
  deriving DecidableEq, Repr

def fatalIoErr {T : Type} (action : String) : IoResult T → Except Error T
  | .ok t => .ok t
  | .error e => .error (.io action e)

structure Config where
  outputAddr : String

structure ClientStream where
  stream : Sock
  outbuffer : List UInt8
  inbuffer : List UInt8
  interest : Interest
  sessionId : String
  seqNum : UInt32
  reqMsgs : List RequestMessage

namespace ClientStream

variable (bc : Bincode)

def new (hex : List UInt8 → String) (cfg : Config) (header : Vector UInt8 requestHeaderSize)
    (stream : Sock) (interest : Interest) (sessionId : Vector UInt8 sessionIdLength) :
    Except Protocol.Error ClientStream :=
  match RequestMessageHeader.fromBuf header with
  | .error e => .error e
  | .ok msgHeader =>
    match msgHeader.msgType with
    | .hello =>
      let streamToken := sessionId
      let serverHello := bc.responseClientHello.serialize {
        sessionId := hex sessionId.toList
        streamToken := hex streamToken.toList
        outputAddr := cfg.outputAddr }
      let respHeader := (ResponseMessageHeader.new .hello 0 serverHello.length 1).intoBuf
      .ok {
        stream := stream
        outbuffer := respHeader.toList ++ serverHello
        inbuffer := []
        interest := interest
        sessionId := hex sessionId.toList
        seqNum := 1
        reqMsgs := [] }
    | t => .error (.unexpectedMessageType t)

def setInterest (s : ClientStream) (interest : Interest) : ClientStream :=
  { s with interest := interest }

def hasOutData (s : ClientStream) : Bool := !s.outbuffer.isEmpty

def write (s : ClientStream) : IoResult Nat → Except IoError ClientStream
  | .error e => .error e
  | .ok bytesWritten => .ok { s with outbuffer := compact bytesWritten s.outbuffer }

def framer : Framer Protocol.Error RequestMessage UInt8 :=
  headed requestHeaderSize RequestMessageHeader.fromBuf RequestMessageHeader.msgLenUsize
    (readReq bc) (by decide)

def read (s : ClientStream) : IoResult (List UInt8) → Except Error Unit × ClientStream
  | .error e => (.error (.io "failed to read from tcp stream" e), s)
  | .ok [] => (.error .streamClosed, s)
  | .ok bytes =>
    let parsed := (framer bc).drain (s.inbuffer ++ bytes)
    let s := { s with inbuffer := parsed.rest, reqMsgs := s.reqMsgs ++ parsed.msgs }
    match parsed.err with
    | some e => (.error (.protocol e), s)
    | none => (.ok (), s)

theorem new_fields {hex : List UInt8 → String} {cfg : Config}
    {header : Vector UInt8 requestHeaderSize} {stream : Sock} {interest : Interest}
    {sessionId : Vector UInt8 sessionIdLength} {cs : ClientStream}
    (h : new bc hex cfg header stream interest sessionId = .ok cs) :
    cs.stream = stream ∧ cs.inbuffer = [] ∧ cs.reqMsgs = [] ∧ cs.interest = interest ∧
      cs.sessionId = hex sessionId.toList := by
  simp only [new] at h
  split at h
  · cases h
  · split at h
    · cases h
      exact ⟨rfl, rfl, rfl, rfl, rfl⟩
    · cases h

theorem read_fields (s : ClientStream) (r : IoResult (List UInt8)) :
    (s.read bc r).2.stream = s.stream ∧ (s.read bc r).2.sessionId = s.sessionId ∧
      (s.read bc r).2.interest = s.interest := by
  rcases r with e | _ | ⟨b, bs⟩
  · exact ⟨rfl, rfl, rfl⟩
  · exact ⟨rfl, rfl, rfl⟩
  · simp only [read]
    split <;> exact ⟨rfl, rfl, rfl⟩

theorem read_bytes (s : ClientStream) (bytes : List UInt8) (hne : bytes ≠ []) :
    (s.read bc (.ok bytes)).2.inbuffer = ((framer bc).drain (s.inbuffer ++ bytes)).rest ∧
      (s.read bc (.ok bytes)).2.reqMsgs =
        s.reqMsgs ++ ((framer bc).drain (s.inbuffer ++ bytes)).msgs := by
  cases bytes with
  | nil => exact absurd rfl hne
  | cons b bs =>
    simp only [read]
    split <;> exact ⟨rfl, rfl⟩

end ClientStream
end PyProxy.Worker
