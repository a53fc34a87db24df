import PyProxy.Protocol.Header
import PyProxy.Stream.Headed

namespace PyProxy.Protocol
open Stream

structure CodeString where
  futureId : String
  code : String
  locals : List UInt8
  globals : List UInt8
  deriving DecidableEq, Repr

structure CodePickle where
  futureId : String
  pickle : List UInt8
  locals : List UInt8
  globals : List UInt8
  deriving DecidableEq, Repr

inductive PythonResult where
  | error (e : List UInt8)
  | return (ret : List UInt8)
  deriving DecidableEq, Repr

structure ResponseCodeString where
  futureId : String
  pyResult : PythonResult
  deriving DecidableEq, Repr

structure ResponseCodePickle where
  futureId : String
  pyResult : PythonResult
  deriving DecidableEq, Repr

structure ResponseClientHello where
  sessionId : String
  streamToken : String
  outputAddr : String
  deriving DecidableEq, Repr

structure ClientHello where
  streamToken : String
  deriving DecidableEq, Repr

structure Codec (T : Type) where
  serialize : T → List UInt8
  deserialize : List UInt8 → Except String T

def Codec.RoundTrips {T : Type} (c : Codec T) : Prop :=
  ∀ t, (c.serialize t).length < 2 ^ 32 → c.deserialize (c.serialize t) = .ok t

structure Bincode where
  codeString : Codec CodeString
  codePickle : Codec CodePickle
  responseCodeString : Codec ResponseCodeString
  responseCodePickle : Codec ResponseCodePickle
  responseClientHello : Codec ResponseClientHello
  clientHello : Codec ClientHello

inductive RequestMessage where
  | hello
  | codeString (s : CodeString)
  | codePickle (p : CodePickle)
  deriving DecidableEq, Repr

def RequestMessage.futureId : RequestMessage → Option String
  | .hello => none
  | .codeString s => some s.futureId
  | .codePickle p => some p.futureId

-- The source pairs each variant with the other payload type.
inductive ResponseMessage where
  | hello (h : ResponseClientHello)
  | codeString (p : ResponseCodePickle)
  | codePickle (s : ResponseCodeString)
  deriving DecidableEq, Repr

def ResponseMessage.isHello : ResponseMessage → Bool
  | .hello _ => true
  | _ => false

def ResponseMessage.futureId : ResponseMessage → String
  | .hello _ => "000000"
  | .codeString s => s.futureId
  | .codePickle s => s.futureId

variable (bc : Bincode)

def newReq {T : Type} (c : Codec T) (msgType : MessageType) (msgSubType : UInt8) (msg : T) :
    List UInt8 :=
  let payload := c.serialize msg
  (RequestMessageHeader.new msgType msgSubType payload.length).intoBuf.toList ++ payload

def bincodeErr {T : Type} : Except String T → Except Error T
  | .ok t => .ok t
  | .error e => .error (.deserialize e)

def readReq (header : RequestMessageHeader) (body : List UInt8) : Except Error RequestMessage :=
  match header.msgType with
  | .hello => .ok .hello
  | .codeString => (bincodeErr (bc.codeString.deserialize body)).map .codeString
  | .codePickle => (bincodeErr (bc.codePickle.deserialize body)).map .codePickle

def readMsg {T : Type} (c : Codec T) (buf : List UInt8) : Except Error T :=
  match c.deserialize buf with
  | .ok t => .ok t
  | .error e => .error (.failedDeserialze e)

def readResponse (header : ResponseMessageHeader) (body : List UInt8) :
    Except Error ResponseMessage :=
  match header.msgType with
  | .hello => (readMsg bc.responseClientHello body).map .hello
  | .codeString => (readMsg bc.responseCodePickle body).map .codeString
  | .codePickle => (readMsg bc.responseCodeString body).map .codePickle

theorem newReq_encodes {T : Type} (c : Codec T) (t : MessageType) (sub : UInt8) (msg : T)
    {m : RequestMessage} (len : (c.serialize msg).length < 2 ^ 32)
    (body : readReq bc (.new t sub (c.serialize msg).length) (c.serialize msg) = .ok m) :
    (headed requestHeaderSize RequestMessageHeader.fromBuf RequestMessageHeader.msgLenUsize
      (readReq bc) (by decide)).Encodes (newReq c t sub msg) m :=
  headed_encodes _ _ _ _ _ (RequestMessageHeader.fromBuf_intoBuf_new t sub _)
    (RequestMessageHeader.msgLenUsize_new len) body

-- the digits of `hex::encode`: two lower-case ones for each byte
structure HexDigits (hex : List UInt8 → String) : Prop where
  length : ∀ b, (asBytes (hex b)).length = 2 * b.length
  digits : ∀ b, ∀ x ∈ asBytes (hex b), 48 ≤ x ∧ x ≤ 57 ∨ 97 ≤ x ∧ x ≤ 102

-- a string takes an eight-byte length and its bytes
structure HelloSizes (bc : Bincode) : Prop where
  clientHello : ∀ h, (bc.clientHello.serialize h).length = 8 + (asBytes h.streamToken).length
  responseClientHello : ∀ h, (bc.responseClientHello.serialize h).length =
    24 + (asBytes h.sessionId).length + (asBytes h.streamToken).length + (asBytes h.outputAddr).length

variable {hex : List UInt8 → String}

theorem HexDigits.clean (h : HexDigits hex) (b : List UInt8) {x : UInt8} (low : x < 48) :
    x ∉ asBytes (hex b) := by
  intro hx
  rcases h.digits b x hx with hd | hd
  · exact absurd (UInt8.lt_of_lt_of_le low hd.1) (UInt8.lt_irrefl x)
  · have := UInt8.le_trans (show (48 : UInt8) ≤ 97 by decide) hd.1
    exact absurd (UInt8.lt_of_lt_of_le low this) (UInt8.lt_irrefl x)

theorem HexDigits.sessionId (h : HexDigits hex) (b : Vector UInt8 sessionIdLength) :
    (asBytes (hex b.toList)).length = sessionIdLength * 2 := by
  rw [h.length, Vector.length_toList, Nat.mul_comm]

end PyProxy.Protocol

namespace PyProxy.Server
open Protocol

def logMessage : UInt8 := 1
def printMessage : UInt8 := 2

inductive LogLevel where
  | info
  | warn
  | error
  deriving DecidableEq, Repr

inductive LogValue where
  | string (s : String)
  | uint (n : UInt64)
  | int (n : Int64)
  | bool (b : Bool)
  deriving DecidableEq, Repr

structure LogMessage where
  level : LogLevel
  msg : String
  ts : String
  tags : List (String × LogValue)
  deriving DecidableEq, Repr

structure PrintMessage where
  message : String
  deriving DecidableEq, Repr

structure MessageCodecs where
  logMessage : Codec LogMessage
  printMessage : Codec PrintMessage

def newRequestStart : String :=
  "8b588b6fbb7eaa6a66da438c0dc1cced45c9c55cdf1eb137ba133ba1d7d95b5b"

def newRequestEnd : String :=
  "962375a5e9ffb94b822a69902f462e3394b33a51fbd17d9639cd0f6a9640268d"

end PyProxy.Server
