import PyProxy.Stream.Honest
import PyProxy.Client.Streams
import PyProxy.Worker.ClientStream
import PyProxy.Worker.WorkerStream
import PyProxy.Master.WorkerStream

namespace PyProxy.Session
open Stream Protocol Server

def lengthField (n : Nat) : Nat := (fromBeBytes (toBeBytes (asU32 n))).toNat

theorem lengthField_eq (n : Nat) : lengthField n = n % 2 ^ 32 := by
  rw [lengthField, fromBeBytes_toBeBytes]
  exact UInt32.toNat_ofNat

theorem lengthField_eq_self_iff (n : Nat) : lengthField n = n ↔ n < 2 ^ 32 := by
  rw [lengthField_eq]
  exact Nat.mod_eq_iff_lt (by decide)

theorem output_fromRaw (fd : Output.MessageType) (n : Nat) :
    Output.MessageHeader.fromRaw (Output.MessageHeader.intoBuf ⟨fd, n⟩) = .ok ⟨fd, lengthField n⟩ := by
  cases fd <;> rfl

def noticeHeader (msgType : UInt8) (n : Nat) : Vector UInt8 5 :=
  #v[msgType] ++ toBeBytes (asU32 n)

theorem newMsg_outbuffer (s : Worker.WorkerStream) (msgType : UInt8) (msg : List UInt8) :
    (s.newMsg msgType (toBeBytes (asU32 msg.length)) msg).outbuffer =
      s.outbuffer ++ ((noticeHeader msgType msg.length).toList ++ msg) := by
  rw [Worker.WorkerStream.newMsg, List.append_assoc, List.append_assoc]
  rfl

theorem notice_msgHeader (msgType : UInt8) (n : Nat) :
    Master.WorkerStream.msgHeader (noticeHeader msgType n) = .ok (msgType, lengthField n) := rfl

variable (bc : Bincode) (mc : MessageCodecs)

theorem newReq_honest_iff {T : Type} (c : Codec T) (t : MessageType) (sub : UInt8) (msg : T) :
    Honest (Worker.ClientStream.framer bc) RequestMessageHeader.fromBuf
        RequestMessageHeader.msgLenUsize (readReq bc) (newReq c t sub msg) (c.serialize msg) ↔
      (c.serialize msg).length < 2 ^ 32 :=
  (honest_iff _ (RequestMessageHeader.fromBuf_intoBuf_new t sub _) _).trans
    (lengthField_eq_self_iff _)

theorem response_honest_iff (t : MessageType) (sub : UInt8) (seq : UInt32) (payload : List UInt8) :
    Honest (Client.MainStream.framer bc) ResponseMessageHeader.fromBuf
        ResponseMessageHeader.msgLenUsize (Client.MainStream.readBody bc)
        ((ResponseMessageHeader.new t sub payload.length seq).intoBuf.toList ++ payload) payload ↔
      payload.length < 2 ^ 32 :=
  (honest_iff _ (ResponseMessageHeader.fromBuf_intoBuf_new t sub _ seq) _).trans
    (lengthField_eq_self_iff _)

theorem output_honest_iff (fd : Output.MessageType) (line : List UInt8) :
    Honest Client.OutputStream.framer Output.MessageHeader.fromRaw Output.MessageHeader.msgLen
        (fun header body => .ok { fd := header.msgType, line := body })
        (Output.newMsg ⟨fd, line.length⟩ line) line ↔ line.length < 2 ^ 32 :=
  (honest_iff _ (output_fromRaw fd _) _).trans (lengthField_eq_self_iff _)

theorem notice_honest_iff (msgType : UInt8) (msg : List UInt8) :
    Honest (Master.WorkerStream.framer mc) Master.WorkerStream.msgHeader Prod.snd
        (Master.WorkerStream.decode mc) ((noticeHeader msgType msg.length).toList ++ msg) msg ↔
      msg.length < 2 ^ 32 :=
  (honest_iff _ (notice_msgHeader msgType _) _).trans (lengthField_eq_self_iff _)

theorem lengths_honest_iff :
    (∀ {T : Type} (c : Codec T) t sub (msg : T),
      Honest (Worker.ClientStream.framer bc) RequestMessageHeader.fromBuf
          RequestMessageHeader.msgLenUsize (readReq bc) (newReq c t sub msg) (c.serialize msg) ↔
        (c.serialize msg).length < 2 ^ 32) ∧
    (∀ t sub seq payload,
      Honest (Client.MainStream.framer bc) ResponseMessageHeader.fromBuf
          ResponseMessageHeader.msgLenUsize (Client.MainStream.readBody bc)
          ((ResponseMessageHeader.new t sub payload.length seq).intoBuf.toList ++ payload) payload ↔
        payload.length < 2 ^ 32) ∧
    (∀ fd line,
      Honest Client.OutputStream.framer Output.MessageHeader.fromRaw Output.MessageHeader.msgLen
          (fun header body => .ok { fd := header.msgType, line := body })
          (Output.newMsg ⟨fd, line.length⟩ line) line ↔ line.length < 2 ^ 32) ∧
    (∀ (s : Worker.WorkerStream) level msg tags ts,
      let payload := mc.logMessage.serialize { level := level, ts := ts, msg := msg, tags := tags }
      ∃ frame, (s.log mc level msg tags ts).outbuffer = s.outbuffer ++ frame ∧
        (Honest (Master.WorkerStream.framer mc) Master.WorkerStream.msgHeader Prod.snd
          (Master.WorkerStream.decode mc) frame payload ↔ payload.length < 2 ^ 32)) ∧
    ∀ (s : Worker.WorkerStream) message,
      let payload := mc.printMessage.serialize { message := message }
      ∃ frame, (s.print mc message).outbuffer = s.outbuffer ++ frame ∧
        (Honest (Master.WorkerStream.framer mc) Master.WorkerStream.msgHeader Prod.snd
          (Master.WorkerStream.decode mc) frame payload ↔ payload.length < 2 ^ 32) := by
  refine ⟨newReq_honest_iff bc, response_honest_iff bc, output_honest_iff, ?_, ?_⟩
  · intro s level msg tags ts payload
    exact ⟨_, newMsg_outbuffer s logMessage payload, notice_honest_iff mc logMessage payload⟩
  · intro s message payload
    exact ⟨_, newMsg_outbuffer s printMessage payload, notice_honest_iff mc printMessage payload⟩

theorem output_next (b : List UInt8) :
    Client.OutputStream.framer.next b =
      headedNext Output.headerSize Output.MessageHeader.fromRaw Output.MessageHeader.msgLen
        (fun header body => .ok { fd := header.msgType, line := body }) b := rfl

theorem output_wrapped {fd : Output.MessageType} {line : List UInt8}
    (h : lengthField line.length = 0) :
    Client.OutputStream.framer.next (Output.newMsg ⟨fd, line.length⟩ line) = .frame ⟨[], fd⟩ 5 := by
  rw [output_next, Output.newMsg, headedNext_announced (output_fromRaw fd line.length)]
  simp only [h]
  rfl

theorem output_zeros (n : Nat) :
    Client.OutputStream.framer.next (List.replicate (5 + n) 0) =
      .fail (.unrecognisedMessageType 0) := by
  have hhead : copyHeader Output.headerSize (List.replicate (5 + n) (0 : UInt8)) =
      #v[0, 0, 0, 0, 0] := by
    rw [List.replicate_add]
    exact copyHeader_toList (#v[0, 0, 0, 0, 0] : Vector UInt8 5) _
  rw [output_next, headedNext, if_neg (by simp [Output.headerSize]), hhead]
  rfl

theorem long_line_misread :
    let line := List.replicate (5 + (2 ^ 32 - 5)) 0
    ¬ Honest Client.OutputStream.framer Output.MessageHeader.fromRaw Output.MessageHeader.msgLen
        (fun header body => .ok { fd := header.msgType, line := body })
        (Output.newMsg ⟨.stdout, line.length⟩ line) line ∧
      Client.OutputStream.framer.drain (Output.newMsg ⟨.stdout, line.length⟩ line) =
        ⟨[⟨[], .stdout⟩], some (.unrecognisedMessageType 0), line⟩ := by
  intro line
  have hlen : line.length = 5 + (2 ^ 32 - 5) := List.length_replicate
  have hnext : Client.OutputStream.framer.next line = .fail (.unrecognisedMessageType 0) :=
    output_zeros _
  clear_value line
  constructor
  · rw [output_honest_iff, hlen]
    exact Nat.lt_irrefl _
  · have hfirst := @output_wrapped .stdout line (by rw [hlen]; rfl)
    have hdrop : (Output.newMsg ⟨.stdout, line.length⟩ line).drop 5 = line := List.drop_left' rfl
    rw [Framer.drain_frame _ hfirst, hdrop, Framer.drain_fail _ hnext]

end PyProxy.Session
