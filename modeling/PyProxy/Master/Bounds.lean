import PyProxy.Master.Custody
import PyProxy.Master.Handshake
import PyProxy.Server.Checked

namespace PyProxy.Master
open Stream Protocol Server Poll Lines

namespace PipeFrame

theorem read_lines {f f' : PipeFrame} {w : Nat → IoResult Unit} {res : IoResult (List UInt8)}
    {sessionId : String} {lines : List Span} {out : List UInt8}
    (h : f.read w res = (.ok (some (sessionId, lines)), out, f')) :
    ∀ s ∈ lines, s ∈ spans newline f'.buffer := by
  cases res with
  | error e => cases h
  | ok bytes =>
    simp only [read] at h
    generalize hs : scan { f with buffer := f.buffer ++ bytes } w = s at h
    cases he : s.err with
    | some e => simp [he] at h
    | none =>
      simp only [he, Prod.mk.injEq, Except.ok.injEq, Option.map_eq_some_iff] at h
      obtain ⟨⟨S, session, rfl, rfl⟩, -, rfl⟩ := h
      rw [scan_eq] at hs
      have spec := (@Scan.lines_spec (f.buffer ++ bytes) w ⟨none, f.currentSessionId, [], [], none⟩
        (spans newline (f.buffer ++ bytes)) rfl).2
      rw [hs] at spec
      rw [(spec he).2.1, List.nil_append]
      exact fun t ht => (Sections.collected_sublist _ _ _).subset ht

end PipeFrame

namespace Loop

variable (env : Env)

-- no slice, index or subtraction of what an event runs is out of bounds

def ClientBounds (c : Loop) (s : ClientStream) (io : EventIo) : Prop :=
  let res := (c.os.read s.stream s.room io.read).1
  s.checkedRead res = some (s.read res)

def OutputReadBounds (c : Loop) (k : Sock) (io : EventIo) : Prop :=
  let res := (c.os.read k bufferSize io.read).1
  (c.outputs k).checkedRead env.bc res = some ((c.outputs k).read env.bc res)

def OutputWriteBounds (c : Loop) (k : Sock) (io : EventIo) : Prop :=
  let res := (c.os.write k (c.outputs k).outbuffer.length io.write).1
  (c.outputs k).checkedWrite res = some ((c.outputs k).write res)

def WorkerReadBounds (c : Loop) (k : Sock) (io : EventIo) : Prop :=
  let res := (c.os.read k bufferSize io.read).1
  (c.workers k).checkedRead env.mc res = some ((c.workers k).read env.mc res)

def WorkerWriteBounds (c : Loop) (k : Sock) (io : EventIo) : Prop :=
  let res := (c.os.write k (c.workers k).outbuffer.length io.write).1
  (c.workers k).checkedWrite env.fdQueue res = some ((c.workers k).write env.fdQueue res)

def PipeBounds (c : Loop) (f : PipeFrame) (io : EventIo) : Prop :=
  let res := (c.os.read f.recv bufferSize io.read).1
  f.checkedRead io.echo res = some (f.read io.echo res) ∧
    ∀ sessionId lines out f', f.read io.echo res = (.ok (some (sessionId, lines)), out, f') →
      (∀ s ∈ lines, checkedSlice f'.buffer s.start s.stop = some (slice f'.buffer s)) ∧
        f'.checkedClear = some f'.clear

-- what the read of a worker event leaves to its write
def workerSeen (c : Loop) (ev : Event) (k : Sock) (io : EventIo) : Loop :=
  if ev.readable then
    let (res, os) := c.os.read k bufferSize io.read
    { c with os := os, workers := c.workers.set k ((c.workers k).read env.mc res).2 }
  else c

def InBounds (c : Loop) (ev : Event) (io : EventIo) : Prop :=
  match c.ioActions ev.token with
  | some (.clientStream s) => c.ClientBounds s io
  | some (.outputStream k) => (ev.readable = true → c.OutputReadBounds env k io) ∧
      (ev.writable = true → (c.outputRead env ev k io).OutputWriteBounds k io)
  | some (.workerStream k) => (ev.readable = true → c.WorkerReadBounds env k io) ∧
      (ev.writable = true → (c.workerSeen env ev k io).WorkerWriteBounds env k io)
  | some (.stdout f) => c.PipeBounds f io
  | some (.stderr f) => c.PipeBounds f io
  | _ => True

variable {env} {c : Loop} {ev : Event} {io : EventIo} {k : Sock}

theorem clientBounds {s : ClientStream} (h : s.bytesRead ≤ requestHeaderSize) : c.ClientBounds s io :=
  ClientStream.checkedRead_eq h _

theorem outputReadBounds : c.OutputReadBounds env k io := OutputStream.checkedRead_eq env.bc _ _

theorem outputWriteBounds : c.OutputWriteBounds k io :=
  OutputStream.checkedWrite_eq fun _ h => World.written_le h

theorem workerReadBounds : c.WorkerReadBounds env k io := WorkerStream.checkedRead_eq env.mc _ _

theorem workerWriteBounds : c.WorkerWriteBounds env k io :=
  WorkerStream.checkedWrite_eq fun _ h => World.written_le h

theorem pipeBounds (f : PipeFrame) : c.PipeBounds f io := by
  refine ⟨PipeFrame.checkedRead_eq f _ _, fun sessionId lines out f' read => ⟨fun s hs => ?_, ?_⟩⟩
  · obtain ⟨-, hlt, hstart⟩ := mem_spansFrom newline (PipeFrame.read_lines read s hs)
    exact checkedSlice_span (hstart (Nat.le_refl _)).2 (by omega)
  · refine PipeFrame.checkedClear_eq fun n hn => Nat.le_of_lt (PipeFrame.lastStop_lt ?_)
    exact (PipeFrame.read_session read).2.symm.trans hn

theorem in_bounds {ns : List Note} {pend : List Token} {issues : List Issue}
    (custody : Custody ns (ev.token :: pend) c) (w : Wired issues (ev.token :: pend) c) :
    c.InBounds env ev io := by
  simp only [InBounds]
  split
  · rename_i s ha
    refine clientBounds ?_
    cases (custody.clients _ s (w.act_of ha)).stage with
    | reading _ _ short _ _ _ => exact Nat.le_of_lt short
    | handedOff _ full _ _ _ _ => exact Nat.le_of_eq full
    | failed _ spent _ => exact absurd List.mem_cons_self spent
  · exact ⟨fun _ => outputReadBounds, fun _ => outputWriteBounds⟩
  · exact ⟨fun _ => workerReadBounds, fun _ => workerWriteBounds⟩
  · exact pipeBounds _
  · exact pipeBounds _
  · trivial

end Loop

namespace System

variable (env : Env)

def InBounds (s : System) (l : Label) : Prop :=
  match s.flow, l, s.phase with
  | .running c, .event io, .turn (ev :: _) => c.InBounds env ev io
  | _, _, _ => True

variable {env}

theorem in_bounds_run {next : Sock} {ls : List Label} : (machine env next).Along (InBounds env) ls := by
  intro pre l post s eq run
  obtain ⟨ns, run⟩ := @Machine.traced_exec _ _ _ (machine env next) noted _ _ run
  obtain ⟨custody, issues, wired⟩ := custody_run run
  simp only [InBounds]
  split
  · rename_i c io ev batch hc phase
    have hcustody := custody.custody c hc
    have hwired := wired.wired c hc
    rw [phase] at hcustody hwired
    exact Loop.in_bounds hcustody hwired
  · trivial

end System
end PyProxy.Master
