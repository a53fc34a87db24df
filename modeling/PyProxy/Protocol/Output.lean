import PyProxy.Protocol.Message

namespace PyProxy.Protocol.Output
open Stream

abbrev headerSize : Nat := 5

inductive MessageType where
  | stdout
  | stderr
  deriving DecidableEq, Repr

def MessageType.asU8 : MessageType → UInt8
  | .stdout => 1
  | .stderr => 2

def MessageType.fromU8 (b : UInt8) : Except Error MessageType :=
  if b = 1 then .ok .stdout
  else if b = 2 then .ok .stderr
  else .error (.unrecognisedMessageType b)

@[simp] theorem MessageType.fromU8_asU8 (t : MessageType) : fromU8 t.asU8 = .ok t := by
  cases t <;> rfl

structure MessageHeader where
  msgType : MessageType
  msgLen : Nat

def MessageHeader.intoBuf (h : MessageHeader) : Vector UInt8 headerSize :=
  let len := toBeBytes (asU32 h.msgLen)
  #v[h.msgType.asU8, len.get 0, len.get 1, len.get 2, len.get 3]

theorem headerSize_pos : 0 < headerSize := by decide

def MessageHeader.fromRaw (raw : Vector UInt8 headerSize) : Except Error MessageHeader :=
  let msgLen := fromBeBytes #v[raw[1], raw[2], raw[3], raw[4]]
  match MessageType.fromU8 (raw[0]) with
  | .error e => .error e
  | .ok msgType => .ok { msgType := msgType, msgLen := msgLen.toNat }

theorem MessageHeader.fromRaw_intoBuf {t : MessageType} {n : Nat} (h : n < 2 ^ 32) :
    fromRaw (intoBuf ⟨t, n⟩) = .ok ⟨t, n⟩ := by
  have hlen : (fromBeBytes (toBeBytes (asU32 n))).toNat = n := by
    rw [fromBeBytes_toBeBytes, asU32_toNat h]
  simp only [fromRaw, intoBuf, headerSize, Vector.getElem_mk, List.getElem_toArray,
    List.getElem_cons_zero, List.getElem_cons_succ, MessageType.fromU8_asU8]
  exact congrArg (fun k => Except.ok (MessageHeader.mk t k)) hlen

def newMsg (header : MessageHeader) (data : List UInt8) : List UInt8 :=
  header.intoBuf.toList ++ data

def readHello (bc : Bincode) (body : List UInt8) : Except Error ClientHello :=
  bincodeErr (bc.clientHello.deserialize body)

end PyProxy.Protocol.Output
