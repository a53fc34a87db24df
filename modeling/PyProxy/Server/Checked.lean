import PyProxy.Master.ClientStream
import PyProxy.Master.OutputStream
import PyProxy.Master.Attribution
import PyProxy.Stream.Checked
import PyProxy.Worker.ClientStream
import PyProxy.Worker.WorkerStream

namespace PyProxy
open Stream Protocol Server Lines Framer

-- the parsers of both loops with every slice, index and subtraction checked

namespace Master

def ClientStream.checkedRead (s : ClientStream) (res : IoResult (List UInt8)) :
    Option (ReadResult × ClientStream) :=
  (checkedSlice s.buffer.toList s.bytesRead requestHeaderSize).map fun _ => s.read res

theorem ClientStream.checkedRead_eq {s : ClientStream} (h : s.bytesRead ≤ requestHeaderSize)
    (res : IoResult (List UInt8)) : s.checkedRead res = some (s.read res) := by
  have size : requestHeaderSize ≤ s.buffer.toList.length := Nat.le_of_eq s.buffer.length_toList.symm
  rw [checkedRead, checkedSlice_eq h size]
  rfl

namespace OutputStream

variable (bc : Bincode)

def checkedHello (s : OutputStream) : Option (Except Error OutputStream) :=
  if s.inbuffer.length < requestHeaderSize then some (.ok s)
  else match RequestMessageHeader.fromBuf (copyHeader requestHeaderSize s.inbuffer) with
    | .error e => some (.error (.protocol e))
    | .ok header =>
      let msgEnd := header.msgLenUsize + requestHeaderSize
      if msgEnd < s.inbuffer.length then some (.ok s)
      else if s.inbuffer.length < msgEnd then some (.ok s)
      else match checkedSlice s.inbuffer requestHeaderSize msgEnd with
        | none => none
        | some payload =>
          match Output.readHello bc payload with
          | .error e => some (.error (.protocol e))
          | .ok msg =>
            (checkedCompact msgEnd s.inbuffer).map fun inbuffer =>
              .ok { s with sessionId := some msg.streamToken, inbuffer := inbuffer }

theorem checkedHello_eq (s : OutputStream) : s.checkedHello bc = some (s.hello bc) := by
  simp only [checkedHello, hello]
  split
  · rfl
  · cases RequestMessageHeader.fromBuf (copyHeader requestHeaderSize s.inbuffer) with
    | error e => rfl
    | ok header =>
      dsimp only
      split
      · rfl
      · split
        · rfl
        · rename_i hle
          have fits : header.msgLenUsize + requestHeaderSize ≤ s.inbuffer.length := Nat.not_lt.mp hle
          rw [checkedSlice_eq (Nat.le_add_left _ _) fits, Nat.add_sub_cancel, checkedCompact_eq fits]
          dsimp only
          cases Output.readHello bc ((s.inbuffer.drop requestHeaderSize).take header.msgLenUsize) <;> rfl

def checkedRead (s : OutputStream) : IoResult (List UInt8) → Option (Except Error Unit × OutputStream)
  | .error e => some (.error (.io "failed to read output stream" e), s)
  | .ok bytes =>
    let s := { s with inbuffer := s.inbuffer ++ bytes }
    (s.checkedHello bc).map fun
      | .error e => (.error e, s)
      | .ok s => (.ok (), s)

theorem checkedRead_eq (s : OutputStream) (res : IoResult (List UInt8)) :
    s.checkedRead bc res = some (s.read bc res) := by
  cases res with
  | error e => rfl
  | ok bytes =>
    simp only [checkedRead, checkedHello_eq, read]
    cases hello bc { s with inbuffer := s.inbuffer ++ bytes } <;> simp only [Option.map_some]

def checkedWrite (s : OutputStream) : IoResult Nat → Option (IoResult Unit × OutputStream)
  | .error e => some (.error e, s)
  | .ok bytesWritten => (checkedCompact bytesWritten s.outbuffer).map fun outbuffer =>
    (.ok (), { s with outbuffer := outbuffer })

theorem checkedWrite_eq {s : OutputStream} {res : IoResult Nat}
    (h : ∀ n, res = .ok n → n ≤ s.outbuffer.length) : s.checkedWrite res = some (s.write res) := by
  cases res with
  | error e => rfl
  | ok n => rw [checkedWrite, checkedCompact_eq (h n rfl), Option.map_some, write]

end OutputStream

namespace WorkerStream

variable (mc : MessageCodecs)

def checkedRead (s : WorkerStream) : IoResult (List UInt8) → Option (ReadResult × WorkerStream)
  | .error e => some (.error e, s)
  | .ok [] => some (.error .connectionAborted, s)
  | .ok bytes =>
    (checkedDrain (checkedHeaded 5 msgHeader Prod.snd (decode mc)) (s.inbuffer ++ bytes)).map fun parsed =>
      let s := { s with inbuffer := parsed.rest }
      match parsed.err with
      | some msg => (.panic msg, s)
      | none => (.ok parsed.msgs, s)

theorem checkedRead_eq (s : WorkerStream) (res : IoResult (List UInt8)) :
    s.checkedRead mc res = some (s.read mc res) := by
  rcases res with e | _ | ⟨b, bytes⟩
  · rfl
  · rfl
  · simp only [checkedRead, read]
    rw [@checkedDrain_eq _ _ _ (framer mc) _ fun b => checkedHeaded_eq b]
    cases failed : ((framer mc).drain (s.inbuffer ++ b :: bytes)).err <;> simp only [Option.map_some, failed]

def checkedWrite (fdQueue : FdQueue) (s : WorkerStream) : IoResult Nat → Option (Except Error Unit × WorkerStream)
  | .error e => some
    (.error (.io "failed to write to worker stream" e), { s with outFds := fdQueue.unsent s.outFds (.error e) })
  | .ok bytesWritten => (checkedCompact bytesWritten s.outbuffer).map fun outbuffer =>
    (.ok (), { s with outFds := fdQueue.unsent s.outFds (.ok bytesWritten), outbuffer := outbuffer })

theorem checkedWrite_eq {fdQueue : FdQueue} {s : WorkerStream} {res : IoResult Nat}
    (h : ∀ n, res = .ok n → n ≤ s.outbuffer.length) :
    s.checkedWrite fdQueue res = some (s.write fdQueue res) := by
  cases res with
  | error e => rfl
  | ok n => rw [checkedWrite, checkedCompact_eq (h n rfl), Option.map_some, write]

end WorkerStream

def checkedMarker (line : List UInt8) : Option (Option String) :=
  if line.length = (asBytes newRequestStart).length + sessionIdLength * 2 then
    if (asBytes newRequestStart).isPrefixOf line then
      (checkedSlice line (asBytes newRequestStart).length line.length).map fromUtf8
    else some none
  else some none

theorem checkedMarker_eq (line : List UInt8) : checkedMarker line = some (startMarker line) := by
  simp only [checkedMarker, startMarker]
  split
  · rename_i hlen
    split
    · have hle : (asBytes newRequestStart).length ≤ line.length := by omega
      rw [checkedSlice_eq hle (Nat.le_refl _), ← List.length_drop, List.take_length, Option.map_some]
    · rfl
  · rfl

def Scan.checkedLine (buffer : List UInt8) (w : Nat → IoResult Unit) (s : Scan) (span : Span) :
    Option Scan :=
  match s.err with
  | some _ => some s
  | none =>
    match checkedSlice buffer span.start span.stop with
    | none => none
    | some line =>
      let s := { s with lastNewline := some span.stop }
      match checkedMarker line with
      | none => none
      | some (some sessionId) => some { s with session := some sessionId }
      | some none =>
        if line = asBytes newRequestEnd then some { s with session := none }
        else if s.session.isSome then some { s with lines := s.lines ++ [span] }
        else match w span.stop with
          | .ok _ => some { s with written := s.written ++ line ++ [newline] }
          | .error e => some { s with err := some e }

theorem Scan.checkedLine_eq {buffer : List UInt8} {span : Span} (w : Nat → IoResult Unit) (s : Scan)
    (h : span.start ≤ span.stop) (h' : span.stop ≤ buffer.length) :
    s.checkedLine buffer w span = some (s.line buffer w span) := by
  simp only [checkedLine, line]
  cases s.err with
  | some e => rfl
  | none =>
    rw [checkedSlice_span h h']
    dsimp only
    rw [checkedMarker_eq]
    cases startMarker (slice buffer span) with
    | some sessionId => rfl
    | none =>
      dsimp only
      split
      · rfl
      · split
        · rfl
        · cases w span.stop <;> rfl

namespace PipeFrame

def checkedScan (f : PipeFrame) (w : Nat → IoResult Unit) : Option Scan :=
  (f.buffer.zipIdx.foldlM (checkedScanStep newline (Scan.checkedLine f.buffer w))
    (0, ⟨none, f.currentSessionId, [], [], none⟩)).map Prod.snd

theorem checkedScan_eq (f : PipeFrame) (w : Nat → IoResult Unit) :
    f.checkedScan w = some (f.scan w) := by
  have inside : ∀ z, ∀ s ∈ spansFrom newline 0 0 f.buffer,
      Scan.checkedLine f.buffer w z s = some (z.line f.buffer w s) := by
    intro z s hs
    obtain ⟨-, hlt, hstart⟩ := mem_spansFrom newline hs
    exact Scan.checkedLine_eq w z (hstart (Nat.le_refl _)).2 (by omega)
  rw [checkedScan, Lines.checkedScan_eq _ inside]
  rfl

def checkedRead (f : PipeFrame) (w : Nat → IoResult Unit) :
    IoResult (List UInt8) → Option (IoResult (Option (String × List Span)) × List UInt8 × PipeFrame)
  | .error e => some (.error e, [], f)
  | .ok bytes =>
    let f := { f with buffer := f.buffer ++ bytes }
    (f.checkedScan w).map fun s =>
      let f := { f with currentSessionId := s.session, lastNewline := s.lastNewline }
      match s.err with
      | some e => (.error e, s.written, f)
      | none => (.ok (s.session.map fun sessionId => (sessionId, s.lines)), s.written, f)

theorem checkedRead_eq (f : PipeFrame) (w : Nat → IoResult Unit) (res : IoResult (List UInt8)) :
    f.checkedRead w res = some (f.read w res) := by
  cases res with
  | error e => rfl
  | ok bytes =>
    simp only [checkedRead, checkedScan_eq, read]
    cases failed : (scan { f with buffer := f.buffer ++ bytes } w).err <;> simp only [Option.map_some, failed]

def checkedClear (f : PipeFrame) : Option PipeFrame :=
  match f.lastNewline with
  | some lastNewline => (checkedCompact lastNewline f.buffer).map fun buffer =>
    { f with buffer := buffer, lastNewline := none }
  | none => some { f with lastNewline := none }

theorem checkedClear_eq {f : PipeFrame} (h : ∀ n ∈ f.lastNewline, n ≤ f.buffer.length) :
    f.checkedClear = some f.clear := by
  simp only [checkedClear, clear]
  cases hn : f.lastNewline with
  | none => rfl
  | some n =>
    dsimp only
    rw [checkedCompact_eq (h n hn), Option.map_some]

end PipeFrame
end Master

namespace Worker

namespace ClientStream

variable (bc : Bincode)

def checkedWrite (s : ClientStream) : IoResult Nat → Option (Except IoError ClientStream)
  | .error e => some (.error e)
  | .ok bytesWritten => (checkedCompact bytesWritten s.outbuffer).map fun outbuffer =>
    .ok { s with outbuffer := outbuffer }

theorem checkedWrite_eq {s : ClientStream} {res : IoResult Nat}
    (h : ∀ n, res = .ok n → n ≤ s.outbuffer.length) : s.checkedWrite res = some (s.write res) := by
  cases res with
  | error e => rfl
  | ok n => rw [checkedWrite, checkedCompact_eq (h n rfl), Option.map_some, write]

def checkedRead (s : ClientStream) : IoResult (List UInt8) → Option (Except Error Unit × ClientStream)
  | .error e => some (.error (.io "failed to read from tcp stream" e), s)
  | .ok [] => some (.error .streamClosed, s)
  | .ok bytes =>
    (checkedDrain (checkedHeaded requestHeaderSize RequestMessageHeader.fromBuf
      RequestMessageHeader.msgLenUsize (readReq bc)) (s.inbuffer ++ bytes)).map fun parsed =>
        let s := { s with inbuffer := parsed.rest, reqMsgs := s.reqMsgs ++ parsed.msgs }
        match parsed.err with
        | some e => (.error (.protocol e), s)
        | none => (.ok (), s)

theorem checkedRead_eq (s : ClientStream) (res : IoResult (List UInt8)) :
    s.checkedRead bc res = some (s.read bc res) := by
  rcases res with e | _ | ⟨b, bytes⟩
  · rfl
  · rfl
  · simp only [checkedRead, read]
    rw [@checkedDrain_eq _ _ _ (framer bc) _ fun b => checkedHeaded_eq b]
    cases failed : ((framer bc).drain (s.inbuffer ++ b :: bytes)).err <;> simp only [Option.map_some, failed]

end ClientStream

namespace WorkerStream

def checkedTakeHeader (s : WorkerStream) : Option WorkerStream :=
  if s.inbuffer.length ≥ requestHeaderSize then
    match s.inFds with
    | [] => some s
    | fd :: fds => (checkedCompact requestHeaderSize s.inbuffer).map fun inbuffer =>
      { s with
        inFds := fds
        newMsgs := s.newMsgs ++ [(copyHeader requestHeaderSize s.inbuffer, fd)]
        inbuffer := inbuffer }
  else some s

theorem checkedTakeHeader_eq (s : WorkerStream) : s.checkedTakeHeader = some s.takeHeader := by
  simp only [checkedTakeHeader, takeHeader]
  split
  · rename_i hle
    rw [checkedCompact_eq hle]
    cases s.inFds <;> rfl
  · rfl

def checkedRead (s : WorkerStream) (fds : List Sock) :
    IoResult (List UInt8) → Option (Except IoError Unit × WorkerStream)
  | .error e => some (.error e, s)
  | .ok [] => some (.error .connectionAborted, s)
  | .ok bytes =>
    { s with inFds := s.inFds ++ fds, inbuffer := s.inbuffer ++ bytes }.checkedTakeHeader.map (Prod.mk (.ok ()))

theorem checkedRead_eq (s : WorkerStream) (fds : List Sock) (res : IoResult (List UInt8)) :
    s.checkedRead fds res = some (s.read fds res) := by
  rcases res with e | _ | ⟨b, bytes⟩
  · rfl
  · rfl
  · simp only [checkedRead, read]
    rw [checkedTakeHeader_eq, Option.map_some]

def checkedWrite (s : WorkerStream) : IoResult Nat → Option (Except IoError WorkerStream)
  | .error e => some (.error e)
  | .ok bytesWritten => (checkedCompact bytesWritten s.outbuffer).map fun outbuffer =>
    .ok { s with outbuffer := outbuffer }

theorem checkedWrite_eq {s : WorkerStream} {res : IoResult Nat}
    (h : ∀ n, res = .ok n → n ≤ s.outbuffer.length) : s.checkedWrite res = some (s.write res) := by
  cases res with
  | error e => rfl
  | ok n => rw [checkedWrite, checkedCompact_eq (h n rfl), Option.map_some, write]

end WorkerStream
end Worker
end PyProxy
