import PyProxy.Os
import PyProxy.Protocol.Wire
import PyProxy.Protocol.Header
import PyProxy.Protocol.Message
import PyProxy.Stream.Buffer
import PyProxy.Stream.Lines
import PyProxy.Stream.Sections

namespace PyProxy.Master
open Stream Protocol Server Lines

def newline : UInt8 := 10

structure PipeFrame where
  recv : Sock
  buffer : List UInt8
  currentSessionId : Option String
  lastNewline : Option Nat

structure Scan where
  lastNewline : Option Nat
  session : Option String
  lines : List Span
  written : List UInt8
  err : Option IoError

def startMarker (line : List UInt8) : Option String :=
  if line.length = (asBytes newRequestStart).length + sessionIdLength * 2 then
    if (asBytes newRequestStart).isPrefixOf line then
      fromUtf8 (line.drop (asBytes newRequestStart).length)
    else none
  else none

def Scan.line (buffer : List UInt8) (w : Nat → IoResult Unit) (s : Scan) (span : Span) : Scan :=
  match s.err with
  | some _ => s
  | none =>
    let line := slice buffer span
    let s := { s with lastNewline := some span.stop }
    match startMarker line with
    | some sessionId => { s with session := some sessionId }
    | none =>
      if line = asBytes newRequestEnd then { s with session := none }
      else if s.session.isSome then { s with lines := s.lines ++ [span] }
      else match w span.stop with
        | .ok _ => { s with written := s.written ++ line ++ [newline] }
        | .error e => { s with err := some e }

namespace PipeFrame

def new (recv : Sock) : PipeFrame := ⟨recv, [], none, none⟩

def scan (f : PipeFrame) (w : Nat → IoResult Unit) : Scan :=
  (f.buffer.zipIdx.foldl (scanStep newline (Scan.line f.buffer w))
    (0, ⟨none, f.currentSessionId, [], [], none⟩)).2

def read (f : PipeFrame) (w : Nat → IoResult Unit) :
    IoResult (List UInt8) → IoResult (Option (String × List Span)) × List UInt8 × PipeFrame
  | .error e => (.error e, [], f)
  | .ok bytes =>
    let f := { f with buffer := f.buffer ++ bytes }
    let s := f.scan w
    let f := { f with currentSessionId := s.session, lastNewline := s.lastNewline }
    match s.err with
    | some e => (.error e, s.written, f)
    | none => (.ok (s.session.map fun sessionId => (sessionId, s.lines)), s.written, f)

def clear (f : PipeFrame) : PipeFrame :=
  match f.lastNewline with
  | some lastNewline => { f with buffer := compact lastNewline f.buffer, lastNewline := none }
  | none => { f with lastNewline := none }

theorem read_recv (f : PipeFrame) (w : Nat → IoResult Unit) (res : IoResult (List UInt8)) :
    (f.read w res).2.2.recv = f.recv := by
  cases res with
  | error e => rfl
  | ok bytes =>
    simp only [read]
    split <;> rfl

theorem clear_recv (f : PipeFrame) : f.clear.recv = f.recv := by
  simp only [clear]
  split <;> rfl

end PipeFrame
end PyProxy.Master
