import PyProxy.Os
import PyProxy.Protocol.Message
import PyProxy.Protocol.Output

namespace PyProxy.Client
open Stream Protocol

inductive Error where
  | io (action : String) (error : IoError)
  | serverDidntSendHello
  | missingMainStream
  | protocol (e : Protocol.Error)
  | clientThreadDoesNotExist
  | threadClosed
  | outputStreamClosed
  | mainStreamClosed
  | pythonResultError (e : List UInt8)
  | futureTimeout
  deriving DecidableEq, Repr

def fatalIoError {T : Type} (action : String) : IoResult T → Except Error T
  | .ok t => .ok t
  | .error e => .error (.io action e)

structure MainStream where
  outbuffer : List UInt8
  inbuffer : List UInt8
  interest : Interest
  respMsgs : List ResponseMessage

namespace MainStream

def new (interest : Interest) : MainStream := ⟨[], [], interest, []⟩

def setInterest (s : MainStream) (interest : Interest) : MainStream :=
  { s with interest := interest }

def hasOutData (s : MainStream) : Bool := !s.outbuffer.isEmpty

def nextRespMsg (s : MainStream) : Option (ResponseMessage × MainStream) :=
  match s.respMsgs with
  | [] => none
  | msg :: rest => some (msg, { s with respMsgs := rest })

variable (bc : Bincode)

def queueSourceCode (s : MainStream) (id code : String) (locals globals : List UInt8) :
    MainStream :=
  let msg : CodeString := { futureId := id, code := code, locals := locals, globals := globals }
  { s with outbuffer := s.outbuffer ++ newReq bc.codeString .codeString 0 msg }

def write (s : MainStream) : IoResult Nat → Except IoError MainStream
  | .error e => .error e
  | .ok bytesWritten => .ok { s with outbuffer := compact bytesWritten s.outbuffer }

def readBody (header : ResponseMessageHeader) (body : List UInt8) :
    Except Protocol.Error ResponseMessage :=
  match readResponse bc header body with
  | .error e => .error e
  | .ok msg => if msg.isHello then .error (.unexpectedMessageType .hello) else .ok msg

def framer : Framer Protocol.Error ResponseMessage UInt8 :=
  headed responseHeaderSize ResponseMessageHeader.fromBuf ResponseMessageHeader.msgLenUsize
    (readBody bc) (by decide)

def read (s : MainStream) : IoResult (List UInt8) → Except Error Unit × MainStream
  | .error e => (.error (.io "couldn't read on mainstream session" e), s)
  | .ok [] => (.error .mainStreamClosed, s)
  | .ok bytes =>
    let parsed := (framer bc).drain (s.inbuffer ++ bytes)
    let s := { s with inbuffer := parsed.rest, respMsgs := s.respMsgs ++ parsed.msgs }
    match parsed.err with
    | some e => (.error (.protocol e), s)
    | none => (.ok (), s)

theorem readBody_isHello {header : ResponseMessageHeader} {body : List UInt8}
    {msg : ResponseMessage} (h : readBody bc header body = .ok msg) : msg.isHello = false := by
  simp only [readBody] at h
  split at h
  · cases h
  · split at h
    · cases h
    · rename_i hello
      cases h
      simpa using hello

theorem read_respMsgs (s : MainStream) (r : IoResult (List UInt8)) :
    ∀ resp ∈ (s.read bc r).2.respMsgs, resp ∈ s.respMsgs ∨ resp.isHello = false := by
  rcases r with e | _ | ⟨b, bs⟩
  · exact fun resp h => .inl h
  · exact fun resp h => .inl h
  · have hm : ∀ resp ∈ ((framer bc).drain (s.inbuffer ++ b :: bs)).msgs, resp.isHello = false := by
      apply Framer.drain_forall
      intro b m n h
      obtain ⟨header, raw, hr⟩ := headed_frame _ _ _ _ _ h
      exact readBody_isHello bc hr
    intro resp h
    have hmem : resp ∈ s.respMsgs ++ ((framer bc).drain (s.inbuffer ++ b :: bs)).msgs := by
      simp only [read] at h
      split at h <;> exact h
    rcases List.mem_append.mp hmem with h | h
    · exact .inl h
    · exact .inr (hm resp h)

end MainStream

structure PipeOut where
  line : List UInt8
  fd : Protocol.Output.MessageType
  deriving DecidableEq, Repr

structure OutputStream where
  buffer : List UInt8

namespace OutputStream

def framer : Framer Protocol.Error PipeOut UInt8 :=
  headed Protocol.Output.headerSize Protocol.Output.MessageHeader.fromRaw
    Protocol.Output.MessageHeader.msgLen
    (fun header body => .ok { fd := header.msgType, line := body }) Protocol.Output.headerSize_pos

def read (s : OutputStream) : IoResult (List UInt8) → Except Error (List PipeOut) × OutputStream
  | .error e => (.error (.io "failed to read bytes on outputstream" e), s)
  | .ok [] => (.error .outputStreamClosed, s)
  | .ok bytes =>
    let parsed := framer.drain (s.buffer ++ bytes)
    let s := { s with buffer := parsed.rest }
    match parsed.err with
    | some e => (.error (.protocol e), s)
    | none => (.ok parsed.msgs, s)

theorem read_ok {s : OutputStream} {bytes : List UInt8} (hne : bytes ≠ [])
    (h : (framer.drain (s.buffer ++ bytes)).err = none) :
    s.read (.ok bytes) = (.ok (framer.drain (s.buffer ++ bytes)).msgs,
      { s with buffer := (framer.drain (s.buffer ++ bytes)).rest }) := by
  cases bytes with
  | nil => exact absurd rfl hne
  | cons b bs => simp only [read, h]

end OutputStream

end PyProxy.Client
