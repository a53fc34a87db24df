import PyProxy.Machine.Run
import PyProxy.Poll.Notify
import PyProxy.Worker.RunForever

namespace PyProxy.Worker
open Protocol Server Poll

def Loop.sockOf (c : Loop) (tk : Token) : Option Sock :=
  if tk = workerStreamTk then some c.workerStream.stream
  else (c.clientStreams.lookup tk).map ClientStream.stream

def Loop.pythread (c : Loop) (msgType : UInt8) (msg : List UInt8) : Loop :=
  { c with workerStream := c.workerStream.newMsg msgType (toBeBytes (asU32 msg.length)) msg }

-- the descriptors of a read are numbers the worker has not had before
def Loop.bindFds (c : Loop) (n : Nat) : Loop := { c with os := { c.os with next := c.os.next + n } }

def unixStream : Sock := 0

def booted : World Token UInt8 := { source := fun _ => .idle, next := 1 }

def start : Loop where
  os := booted.modify unixStream (·.attach workerStreamTk ro)
  workerStream := .new unixStream
  wsInterest := ro
  tokenIo := tokenStart
  clientStreams := ∅
  toRemove := []
  threadSender := []

example : Loop.new booted unixStream false = .ok start := rfl

inductive Phase where
  | turn (batch : List Event)
  | polling

-- the worker against whatever its master and the clients behind its sockets do
structure Daemon where
  flow : Flow Error Loop
  phase : Phase

namespace Daemon

inductive Label where
  | head (io : HeadIo)
  | poll (events : List Event)
  | event (read : ReadIo) (fds : Nat) (write : WriteIo)
  | master (bytes : List UInt8)
  | hangup
  | arrive (k : Sock) (bytes : List UInt8)
  | close (k : Sock)
  | pythread (msgType : UInt8) (msg : List UInt8)

variable (env : Env)

def touch (s : Daemon) (c : Loop) (k : Sock) (f : Source Token UInt8 → Source Token UInt8) : Daemon :=
  { s with flow := .running { c with os := c.os.modify k f } }

def step (s : Daemon) (l : Label) : Option Daemon :=
  match s.flow with
  | .returned _ _ => none
  | .running c =>
    match l, s.phase with
    | .head io, .turn [] =>
      if io.order.Perm (c.takeStreams env io).clientStreams.keys then some ⟨c.head env io, .polling⟩
      else none
    | .poll events, .polling =>
      match c.os.notifyAll c.sockOf events with
      | none => none
      | some os => some ⟨.running { c with os := os }, .turn events⟩
    | .event read fds write, .turn (ev :: batch) =>
      some ⟨(c.bindFds fds).event env ev ⟨read, List.range' c.os.next fds, write⟩, .turn batch⟩
    | .master bytes, _ => some (s.touch c c.workerStream.stream (·.arrive bytes))
    | .hangup, _ => some (s.touch c c.workerStream.stream .close)
    | .arrive k bytes, _ =>
      if k = c.workerStream.stream then none else some (s.touch c k (·.arrive bytes))
    | .close k, _ => if k = c.workerStream.stream then none else some (s.touch c k .close)
    | .pythread msgType msg, _ => some { s with flow := .running (c.pythread msgType msg) }
    | _, _ => none

def machine : Machine Daemon Label where
  init := ⟨.running start, .turn []⟩
  step := step env

inductive StepCase (s : Daemon) (c : Loop) : Label → Daemon → Prop where
  | head (io) (phase : s.phase = .turn [])
      (order : io.order.Perm (c.takeStreams env io).clientStreams.keys) :
      StepCase s c (.head io) ⟨c.head env io, .polling⟩
  | poll (events os) (phase : s.phase = .polling)
      (notified : c.os.notifyAll c.sockOf events = some os) :
      StepCase s c (.poll events) ⟨.running { c with os := os }, .turn events⟩
  | event (read fds write ev batch) (phase : s.phase = .turn (ev :: batch)) :
      StepCase s c (.event read fds write)
        ⟨(c.bindFds fds).event env ev ⟨read, List.range' c.os.next fds, write⟩, .turn batch⟩
  | master (bytes) : StepCase s c (.master bytes) (s.touch c c.workerStream.stream (·.arrive bytes))
  | hangup : StepCase s c .hangup (s.touch c c.workerStream.stream .close)
  | arrive (k bytes) (client : k ≠ c.workerStream.stream) :
      StepCase s c (.arrive k bytes) (s.touch c k (·.arrive bytes))
  | close (k) (client : k ≠ c.workerStream.stream) : StepCase s c (.close k) (s.touch c k .close)
  | pythread (msgType msg) :
      StepCase s c (.pythread msgType msg) { s with flow := .running (c.pythread msgType msg) }

-- the steps of the sockets' other ends, and the poll that tells of them
def Label.outer : Label → Bool
  | .head _ => false
  | .event _ _ _ => false
  | .pythread _ _ => false
  | _ => true

inductive Move (s : Daemon) (c : Loop) : Label → Daemon → Prop where
  | head (io) (phase : s.phase = .turn [])
      (order : io.order.Perm (c.takeStreams env io).clientStreams.keys) :
      Move s c (.head io) ⟨c.head env io, .polling⟩
  | event (read fds write ev batch) (phase : s.phase = .turn (ev :: batch)) :
      Move s c (.event read fds write)
        ⟨(c.bindFds fds).event env ev ⟨read, List.range' c.os.next fds, write⟩, .turn batch⟩
  | pythread (msgType msg) :
      Move s c (.pythread msgType msg) { s with flow := .running (c.pythread msgType msg) }
  | outside (l os phase) (outer : l.outer = true) (same : c.os.SameReg os) :
      Move s c l ⟨.running { c with os := os }, phase⟩

variable {env}

theorem StepCase.move {s s' : Daemon} {c : Loop} {l : Label} (h : StepCase env s c l s') :
    Move env s c l s' := by
  cases h with
  | head io phase order => exact .head io phase order
  | poll events os phase notified => exact .outside _ os _ rfl (World.notifyAll_some notified).1
  | event read fds write ev batch phase => exact .event read fds write ev batch phase
  | master bytes => exact .outside _ _ _ rfl (c.os.sameReg_modify _ (Source.arrive_reg _ bytes))
  | hangup => exact .outside _ _ _ rfl (c.os.sameReg_modify _ rfl)
  | arrive k bytes client => exact .outside _ _ _ rfl (c.os.sameReg_modify _ (Source.arrive_reg _ bytes))
  | close k client => exact .outside _ _ _ rfl (c.os.sameReg_modify _ rfl)
  | pythread msgType msg => exact .pythread msgType msg

theorem step_cases {s s' : Daemon} {l : Label} (h : step env s l = some s') :
    ∃ c, s.flow = .running c ∧ StepCase env s c l s' := by
  simp only [step] at h
  cases hf : s.flow with
  | returned => simp [hf] at h
  | running c =>
    refine ⟨c, rfl, ?_⟩
    simp only [hf] at h
    split at h
    · rename_i phase
      obtain ⟨order, heq⟩ := Option.ite_none_right_eq_some.mp h
      cases heq
      exact .head _ phase order
    · rename_i events phase
      cases hos : c.os.notifyAll c.sockOf events with
      | none => simp [hos] at h
      | some os =>
        simp only [hos] at h
        cases h
        exact .poll _ _ phase hos
    · rename_i phase
      cases h
      exact .event _ _ _ _ _ phase
    · cases h
      exact .master _
    · cases h
      exact .hangup
    · obtain ⟨client, heq⟩ := Option.ite_none_left_eq_some.mp h
      cases heq
      exact .arrive _ _ client
    · obtain ⟨client, heq⟩ := Option.ite_none_left_eq_some.mp h
      cases heq
      exact .close _ client
    · cases h
      exact .pythread _ _
    · cases h

end Daemon
end PyProxy.Worker
