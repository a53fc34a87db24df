import PyProxy.Protocol.Wire

namespace PyProxy.Protocol

def version : UInt8 := 0
abbrev requestHeaderSize : Nat := 8
abbrev responseHeaderSize : Nat := 12
def sessionIdLength : Nat := 16

inductive MessageType where
  | hello
  | codeString
  | codePickle
  deriving DecidableEq, Repr

inductive Error where
  | wrongVersion (version : UInt8)
  | unrecognisedMessageType (msgType : UInt8)
  | failedDeserialze (err : String)
  | unexpectedMessageType (msgType : MessageType)
  | deserialize (err : String)
  deriving DecidableEq, Repr

def MessageType.asU8 : MessageType → UInt8
  | .hello => 1
  | .codeString => 2
  | .codePickle => 3

def MessageType.fromU8 (b : UInt8) : Except Error MessageType :=
  if b = 1 then .ok .hello
  else if b = 2 then .ok .codeString
  else if b = 3 then .ok .codePickle
  else .error (.unrecognisedMessageType b)

@[simp] theorem MessageType.fromU8_asU8 (t : MessageType) : fromU8 t.asU8 = .ok t := by
  cases t <;> rfl

structure RequestMessageHeader where
  zero : UInt8
  version : UInt8
  msgType : MessageType
  msgSubType : UInt8
  msgLen : Vector UInt8 4

namespace RequestMessageHeader

def new (msgType : MessageType) (msgSubType : UInt8) (msgLen : Nat) : RequestMessageHeader where
  zero := 0
  version := Protocol.version
  msgType := msgType
  msgSubType := msgSubType
  msgLen := toBeBytes (asU32 msgLen)

def intoBuf (h : RequestMessageHeader) : Vector UInt8 requestHeaderSize :=
  #v[h.zero, h.version, h.msgType.asU8, h.msgSubType,
    h.msgLen[0], h.msgLen[1], h.msgLen[2], h.msgLen[3]]

def msgLenUsize (h : RequestMessageHeader) : Nat := (fromBeBytes h.msgLen).toNat

def fromBuf (buf : Vector UInt8 requestHeaderSize) : Except Error RequestMessageHeader :=
  if buf[1] ≠ Protocol.version then .error (.wrongVersion (buf[1]))
  else match MessageType.fromU8 (buf[2]) with
    | .error e => .error e
    | .ok msgType => .ok {
        zero := 0
        version := buf[1]
        msgType := msgType
        msgSubType := buf[3]
        msgLen := #v[buf[4], buf[5], buf[6], buf[7]] }

theorem fromBuf_intoBuf_new (t : MessageType) (sub : UInt8) (n : Nat) :
    fromBuf (new t sub n).intoBuf = .ok (new t sub n) := by
  simp only [fromBuf, intoBuf, new, requestHeaderSize, Vector.getElem_mk, List.getElem_toArray,
    List.getElem_cons_zero, List.getElem_cons_succ, ne_eq, not_true_eq_false, if_false,
    MessageType.fromU8_asU8]
  congr 1

theorem msgLenUsize_new {t : MessageType} {sub : UInt8} {n : Nat} (h : n < 2 ^ 32) :
    (new t sub n).msgLenUsize = n := by
  simp [msgLenUsize, new, fromBeBytes_toBeBytes, asU32_toNat h]

end RequestMessageHeader

structure ResponseMessageHeader where
  zero : UInt8
  version : UInt8
  msgType : MessageType
  msgSubType : UInt8
  msgLen : Vector UInt8 4
  seqNum : Vector UInt8 4

namespace ResponseMessageHeader

def new (msgType : MessageType) (msgSubType : UInt8) (msgLen : Nat) (seqNum : UInt32) :
    ResponseMessageHeader where
  zero := 0
  version := Protocol.version
  msgType := msgType
  msgSubType := msgSubType
  msgLen := toBeBytes (asU32 msgLen)
  seqNum := toBeBytes seqNum

def intoBuf (h : ResponseMessageHeader) : Vector UInt8 responseHeaderSize :=
  #v[h.zero, h.version, h.msgType.asU8, h.msgSubType,
    h.msgLen[0], h.msgLen[1], h.msgLen[2], h.msgLen[3],
    h.seqNum[0], h.seqNum[1], h.seqNum[2], h.seqNum[3]]

def fromBuf (buf : Vector UInt8 responseHeaderSize) : Except Error ResponseMessageHeader :=
  match MessageType.fromU8 (buf[2]) with
  | .error e => .error e
  | .ok msgType =>
    let header : ResponseMessageHeader := {
      zero := 0
      version := buf[1]
      msgType := msgType
      msgSubType := buf[3]
      msgLen := #v[buf[4], buf[5], buf[6], buf[7]]
      seqNum := #v[buf[8], buf[9], buf[10], buf[11]] }
    if header.version ≠ Protocol.version then .error (.wrongVersion header.version)
    else .ok header

def msgLenUsize (h : ResponseMessageHeader) : Nat := (fromBeBytes h.msgLen).toNat

theorem fromBuf_intoBuf_new (t : MessageType) (sub : UInt8) (n : Nat) (seq : UInt32) :
    fromBuf (new t sub n seq).intoBuf = .ok (new t sub n seq) := by
  simp only [fromBuf, intoBuf, new, responseHeaderSize, Vector.getElem_mk, List.getElem_toArray,
    List.getElem_cons_zero, List.getElem_cons_succ, ne_eq, not_true_eq_false, if_false,
    MessageType.fromU8_asU8]
  congr 1

theorem msgLenUsize_new {t : MessageType} {sub : UInt8} {n : Nat} {seq : UInt32} (h : n < 2 ^ 32) :
    (new t sub n seq).msgLenUsize = n := by
  simp [msgLenUsize, new, fromBeBytes_toBeBytes, asU32_toNat h]

end ResponseMessageHeader
end PyProxy.Protocol
