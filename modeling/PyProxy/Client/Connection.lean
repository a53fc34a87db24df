import PyProxy.Client.Streams

namespace PyProxy.Client
open Stream Protocol

structure PyConnection where
  sessionId : String
  streamToken : String
  outputAddr : String
  deriving DecidableEq, Repr

-- `incoming` is what the reads of a blocking stream return, one after the other, until it ends
structure ConnectIo where
  connect : IoResult Unit
  write : IoResult Unit
  incoming : List (List UInt8)
  nonBlocking : IoResult Unit

def readExact : Nat → List (List UInt8) → IoResult (List UInt8 × List (List UInt8))
  | n, [] => if n = 0 then .ok ([], []) else .error .other
  | n, chunk :: incoming =>
    if n ≤ chunk.length then .ok (chunk.take n, chunk.drop n :: incoming)
    else match readExact (n - chunk.length) incoming with
      | .error e => .error e
      | .ok (bytes, rest) => .ok (chunk ++ bytes, rest)

def requestClientHello : List UInt8 := []

def clientHello : List UInt8 :=
  (RequestMessageHeader.new .hello 0 requestClientHello.length).intoBuf.toList ++ requestClientHello

def protocolErr {T : Type} : Except Protocol.Error T → Except Error T
  | .ok t => .ok t
  | .error e => .error (.protocol e)

variable (bc : Bincode)

def newSimpleConnection (io : ConnectIo) : Except Error PyConnection := do
  fatalIoError "failed to open TCP stream to PyProxy Server" io.connect
  fatalIoError "failed to write client hello on mainstream to open TCP Stream with PyProxy server"
    io.write
  let (headerBuf, incoming) ←
    fatalIoError "reading failed on mainstream with open TCP Stream to PyProxyServer"
      (readExact responseHeaderSize io.incoming)
  let respHeader ←
    protocolErr (ResponseMessageHeader.fromBuf (copyHeader responseHeaderSize headerBuf))
  match respHeader.msgType with
  | .hello =>
    let (buffer, _) ←
      fatalIoError "reading failed on mainstream with open TCP Stream to PyProxyServer"
        (readExact respHeader.msgLenUsize incoming)
    let serverHello ← protocolErr (readMsg bc.responseClientHello buffer)
    fatalIoError "setting mainstream open socket to non-blocking failed" io.nonBlocking
    .ok ⟨serverHello.sessionId, serverHello.streamToken, serverHello.outputAddr⟩
  | _ => .error .serverDidntSendHello

def outputHello (streamToken : String) : List UInt8 :=
  newReq bc.clientHello .hello 0 ⟨streamToken⟩

-- the bytes that the new output stream has carried
def connectOutputStream (io : ConnectIo) (streamToken : String) : Except Error (List UInt8) := do
  let msg := outputHello bc streamToken
  fatalIoError "failed to open TCP Stream for output stream" io.connect
  fatalIoError "failed to write client hello on output stream" io.write
  fatalIoError "failed to set output stream TCP Stream to non-blocking" io.nonBlocking
  .ok msg

theorem readExact_flatten {n : Nat} {incoming : List (List UInt8)} {a b : List UInt8}
    (h : incoming.flatten = a ++ b) (hn : a.length = n) :
    ∃ rest, readExact n incoming = .ok (a, rest) ∧ rest.flatten = b := by
  induction incoming generalizing n a with
  | nil =>
    obtain ⟨rfl, rfl⟩ := List.append_eq_nil_iff.mp h.symm
    obtain rfl := hn.symm
    exact ⟨[], rfl, rfl⟩
  | cons chunk incoming ih =>
    rw [List.flatten_cons] at h
    rw [readExact]
    split
    · rename_i hle
      have ha : chunk.take n = a := by
        rw [← List.take_append_of_le_length hle, h, ← hn, List.take_left]
      have hb : chunk.drop n ++ incoming.flatten = b := by
        rw [← List.drop_append_of_le_length hle, h, ← hn, List.drop_left]
      exact ⟨chunk.drop n :: incoming, by rw [ha], hb⟩
    · rename_i hlt
      have hchunk : a.take chunk.length = chunk := by
        rw [← List.take_append_of_le_length (by omega), ← h, List.take_left]
      have hrest : incoming.flatten = a.drop chunk.length ++ b := by
        rw [← List.drop_append_of_le_length (by omega), ← h, List.drop_left]
      obtain ⟨rest, hread, hflat⟩ :=
        ih hrest (show (a.drop chunk.length).length = n - chunk.length by rw [List.length_drop, hn])
      refine ⟨rest, ?_, hflat⟩
      rw [hread]
      dsimp only
      nth_rewrite 1 [← hchunk]
      rw [List.take_append_drop]

variable {bc}

theorem connection_of_hello (roundTrips : bc.responseClientHello.RoundTrips)
    {hello : ResponseClientHello} (fits : (bc.responseClientHello.serialize hello).length < 2 ^ 32)
    {seq : UInt32} {incoming : List (List UInt8)} {later : List UInt8}
    (h : incoming.flatten = (ResponseMessageHeader.new .hello 0
      (bc.responseClientHello.serialize hello).length seq).intoBuf.toList ++
        bc.responseClientHello.serialize hello ++ later) :
    newSimpleConnection bc ⟨.ok (), .ok (), incoming, .ok ()⟩ =
      .ok ⟨hello.sessionId, hello.streamToken, hello.outputAddr⟩ := by
  rw [List.append_assoc] at h
  obtain ⟨rest, hhead, hflat⟩ := @readExact_flatten responseHeaderSize _ _ _ h Vector.length_toList
  obtain ⟨rest', hbody, -⟩ := readExact_flatten hflat rfl
  have hcopy := copyHeader_toList (ResponseMessageHeader.new .hello 0
    (bc.responseClientHello.serialize hello).length seq).intoBuf []
  rw [List.append_nil] at hcopy
  have hlen : (ResponseMessageHeader.new .hello 0 (bc.responseClientHello.serialize hello).length
      seq).msgLenUsize = (bc.responseClientHello.serialize hello).length :=
    ResponseMessageHeader.msgLenUsize_new fits
  simp only [newSimpleConnection, fatalIoError, hhead, hcopy,
    ResponseMessageHeader.fromBuf_intoBuf_new, protocolErr, bind, Except.bind]
  rw [show (ResponseMessageHeader.new MessageType.hello 0
    (bc.responseClientHello.serialize hello).length seq).msgType = .hello from rfl]
  simp only [hlen, hbody, readMsg, roundTrips hello fits]

theorem readExact_ok {n : Nat} {incoming rest : List (List UInt8)} {bytes : List UInt8}
    (h : readExact n incoming = .ok (bytes, rest)) :
    incoming.flatten = bytes ++ rest.flatten ∧ bytes.length = n := by
  induction incoming generalizing n bytes with
  | nil =>
    rw [readExact] at h
    split at h
    · rename_i zero
      cases h
      exact ⟨rfl, zero.symm⟩
    · cases h
  | cons chunk incoming ih =>
    rw [readExact] at h
    split at h
    · rename_i hle
      cases h
      refine ⟨?_, List.length_take_of_le hle⟩
      rw [List.flatten_cons, List.flatten_cons, ← List.append_assoc, List.take_append_drop]
    · rename_i hlt
      cases hr : readExact (n - chunk.length) incoming with
      | error e => simp [hr] at h
      | ok r =>
        obtain ⟨more, rest'⟩ := r
        simp only [hr] at h
        cases h
        obtain ⟨split, length⟩ := ih hr
        rw [List.flatten_cons, split, List.append_assoc, List.length_append, length]
        exact ⟨rfl, by omega⟩

-- a connection is made of a whole hello
theorem connection_whole (roundTrips : bc.responseClientHello.RoundTrips)
    {hello : ResponseClientHello} (fits : (bc.responseClientHello.serialize hello).length < 2 ^ 32)
    {seq : UInt32} {incoming : List (List UInt8)} {out : List UInt8} {conn : PyConnection}
    (split : incoming.flatten ++ out = (ResponseMessageHeader.new .hello 0
      (bc.responseClientHello.serialize hello).length seq).intoBuf.toList ++
        bc.responseClientHello.serialize hello)
    (h : newSimpleConnection bc ⟨.ok (), .ok (), incoming, .ok ()⟩ = .ok conn) :
    out = [] ∧ conn = ⟨hello.sessionId, hello.streamToken, hello.outputAddr⟩ := by
  have whole : out = [] := by
    have made := h
    simp only [newSimpleConnection, fatalIoError, bind, Except.bind] at made
    cases hhead : readExact responseHeaderSize incoming with
    | error e => simp [hhead] at made
    | ok r =>
      obtain ⟨headerBuf, rest⟩ := r
      obtain ⟨flat, length⟩ := readExact_ok hhead
      rw [flat, List.append_assoc] at split
      obtain ⟨rfl, body⟩ := List.append_inj split (length.trans Vector.length_toList.symm)
      have hcopy := copyHeader_toList (ResponseMessageHeader.new .hello 0
        (bc.responseClientHello.serialize hello).length seq).intoBuf []
      rw [List.append_nil] at hcopy
      simp only [hhead, hcopy, ResponseMessageHeader.fromBuf_intoBuf_new, protocolErr] at made
      cases hbody : readExact (ResponseMessageHeader.new .hello 0
          (bc.responseClientHello.serialize hello).length seq).msgLenUsize rest with
      | error e =>
        rw [show (ResponseMessageHeader.new MessageType.hello 0
          (bc.responseClientHello.serialize hello).length seq).msgType = .hello from rfl] at made
        simp [hbody] at made
      | ok r =>
        obtain ⟨buffer, rest'⟩ := r
        obtain ⟨flat', length'⟩ := readExact_ok hbody
        rw [ResponseMessageHeader.msgLenUsize_new fits] at length'
        rw [flat', List.append_assoc] at body
        have ends := (List.append_inj (body.trans (List.append_nil _).symm) length').2
        exact (List.append_eq_nil_iff.mp ends).2
  subst whole
  rw [List.append_nil] at split
  have made := connection_of_hello roundTrips fits (split.trans (List.append_nil _).symm)
  exact ⟨rfl, Except.ok.inj (h.symm.trans made)⟩

end PyProxy.Client
