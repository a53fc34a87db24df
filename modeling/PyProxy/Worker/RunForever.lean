import Mathlib.Data.List.AList
import PyProxy.Worker.ClientStream
import PyProxy.Worker.WorkerStream

namespace PyProxy.Worker
open Protocol Server Poll

def workerStreamTk : Token := 0
def tokenStart : Token := 1
def bufferSize : Nat := 4096

-- `token` is not sent: it says which client stream the pair came from
structure Sent where
  token : Token
  sessionId : String
  msg : RequestMessage

structure Loop where
  os : World Token UInt8
  workerStream : WorkerStream
  wsInterest : Interest
  tokenIo : Token
  clientStreams : AList fun _ : Token => ClientStream
  toRemove : List Token
  threadSender : List Sent

structure HeadIo where
  rng : Token → Vector UInt8 sessionIdLength
  registerRefused : Token → Bool
  newStreamTs : Token → String
  wsRefused : Bool
  order : List Token
  queueTs : Nat → String
  refused : Token → Bool
  poll : IoResult Unit

structure EventIo where
  read : ReadIo
  fds : List Sock
  write : WriteIo

abbrev Event := Poll.Event Token

structure Env where
  bc : Bincode
  mc : MessageCodecs
  hex : List UInt8 → String
  cfg : Config

namespace Loop

variable (env : Env)

def new (os : World Token UInt8) (unixStream : Sock) (refused : Bool) : Except Error Loop :=
  match fatalIoErr "worker couldn't register unix stream with mio poll"
      (registered (os.register refused unixStream workerStreamTk ro)) with
  | .error e => .error e
  | .ok os => .ok {
      os := os
      workerStream := .new unixStream
      wsInterest := ro
      tokenIo := tokenStart
      clientStreams := ∅
      toRemove := []
      threadSender := [] }

def addStream (c : Loop) (ts : String) (cs : ClientStream) (os : World Token UInt8) : Loop :=
  { c with
    os := os
    workerStream := c.workerStream.info env.mc "new client mainstream started"
      [("session_id", .string cs.sessionId)] ts
    clientStreams := c.clientStreams.insert c.tokenIo cs
    tokenIo := c.tokenIo + 1 }

def takeStream (io : HeadIo) (c : Loop) (msg : Vector UInt8 requestHeaderSize × Sock) : Loop :=
  match ClientStream.new env.bc env.hex env.cfg msg.1 msg.2 ro (io.rng c.tokenIo) with
  | .error _ => c
  | .ok cs =>
    match c.os.register (io.registerRefused c.tokenIo) cs.stream c.tokenIo ro with
    | none => { c with tokenIo := c.tokenIo + 1 }
    | some os => c.addStream env (io.newStreamTs c.tokenIo) cs os

def takeStreams (c : Loop) (io : HeadIo) : Loop :=
  c.workerStream.newMsgs.foldl (takeStream env io)
    { c with workerStream := { c.workerStream with newMsgs := [] } }

def updateInterest (c : Loop) (refused : Bool) : Except Error Loop :=
  if c.wsInterest = ro ∧ c.workerStream.hasData = true then
    match fatalIoErr "worker couldn't register unix stream RO"
        (registered (c.os.reregister refused c.workerStream.stream workerStreamTk rw)) with
    | .error e => .error e
    | .ok os => .ok { c with os := os, wsInterest := rw }
  else if c.wsInterest.writable = true ∧ c.workerStream.hasData = false then
    match fatalIoErr "worker couldn't register unix stream RW"
        (registered (c.os.reregister refused c.workerStream.stream workerStreamTk ro)) with
    | .error e => .error e
    | .ok os => .ok { c with os := os, wsInterest := ro }
  else .ok c

def sendMsg (tk : Token) (sessionId : String) (queueTs : Nat → String) (c : Loop)
    (msg : RequestMessage) : Loop :=
  { c with
    workerStream := c.workerStream.info env.mc "queueing new pyproxy atom processing"
      [("session_id", .string sessionId), ("future_id", .string (msg.futureId.getD "0000"))]
      (queueTs c.threadSender.length)
    threadSender := c.threadSender ++ [⟨tk, sessionId, msg⟩] }

def setStreamInterest (c : Loop) (tk : Token) (cs : ClientStream) (refused : Bool)
    (interest : Interest) : Loop :=
  let c := { c with clientStreams := c.clientStreams.insert tk (cs.setInterest interest) }
  match c.os.reregister refused cs.stream tk interest with
  | none => { c with toRemove := c.toRemove ++ [tk] }
  | some os => { c with os := os }

def forward (io : HeadIo) (c : Loop) (tk : Token) : Loop :=
  match c.clientStreams.lookup tk with
  | none => c
  | some cs =>
    let c := cs.reqMsgs.foldl (sendMsg env tk cs.sessionId io.queueTs) c
    let cs : ClientStream := { cs with reqMsgs := [] }
    if cs.interest = ro ∧ cs.hasOutData = true then c.setStreamInterest tk cs (io.refused tk) rw
    else if cs.interest.writable = true ∧ cs.hasOutData = false then
      c.setStreamInterest tk cs (io.refused tk) ro
    else { c with clientStreams := c.clientStreams.insert tk cs }

-- the loop as it calls the poll
def atPoll (c : Loop) (io : HeadIo) : Except Error Loop :=
  match (c.takeStreams env io).updateInterest io.wsRefused with
  | .error e => .error e
  | .ok c => .ok (io.order.foldl (forward env io) c)

def head (c : Loop) (io : HeadIo) : Flow Error Loop :=
  let c := c.takeStreams env io
  match c.updateInterest io.wsRefused with
  | .error e => .returned c (.error e)
  | .ok c =>
    let c := io.order.foldl (forward env io) c
    match fatalIoErr "worker couldn't call mio poll" io.poll with
    | .error e => .returned c (.error e)
    | .ok _ => .running c

def workerRead (c : Loop) (ev : Event) (io : EventIo) : Except Error Unit × Loop :=
  if ev.readable then
    let (res, os) := c.os.read c.workerStream.stream bufferSize io.read
    let (res, ws) := c.workerStream.read io.fds res
    (fatalIoErr "worker failed to read worker stream" res, { c with os := os, workerStream := ws })
  else (.ok (), c)

def workerWrite (c : Loop) (ev : Event) (io : EventIo) : Except Error Unit × Loop :=
  if ev.writable then
    let (res, os) := c.os.write c.workerStream.stream c.workerStream.outbuffer.length io.write
    let c := { c with os := os }
    match fatalIoErr "worker failed to write on worker stream" (c.workerStream.write res) with
    | .error e => (.error e, c)
    | .ok ws => (.ok (), { c with workerStream := ws })
  else (.ok (), c)

def drop (c : Loop) (tk : Token) (cs : ClientStream) : Loop :=
  { c with os := c.os.deregister cs.stream, toRemove := c.toRemove ++ [tk] }

def dropIfErr (c : Loop) (tk : Token) (cs : ClientStream) : Except Error Unit → Loop
  | .ok _ => c
  | .error _ => c.drop tk cs

def clientRead (c : Loop) (ev : Event) (cs : ClientStream) (io : EventIo) : Loop × ClientStream :=
  if ev.readable then
    let (res, os) := c.os.read cs.stream bufferSize io.read
    let (res, cs) := cs.read env.bc res
    let c := { c with os := os, clientStreams := c.clientStreams.insert ev.token cs }
    (c.dropIfErr ev.token cs res, cs)
  else (c, cs)

def clientWrite (c : Loop) (ev : Event) (cs : ClientStream) (io : EventIo) : Loop :=
  if ev.writable then
    let (res, os) := c.os.write cs.stream cs.outbuffer.length io.write
    let c := { c with os := os }
    match cs.write res with
    | .ok cs => { c with clientStreams := c.clientStreams.insert ev.token cs }
    | .error _ => c.drop ev.token cs
  else c

def event (c : Loop) (ev : Event) (io : EventIo) : Flow Error Loop :=
  if ev.token = workerStreamTk then
    match c.workerRead ev io with
    | (.error e, c) => .returned c (.error e)
    | (.ok _, c) =>
      match c.workerWrite ev io with
      | (.error e, c) => .returned c (.error e)
      | (.ok _, c) => .running c
  else
    match c.clientStreams.lookup ev.token with
    | none => .running c
    | some cs =>
      let (c, cs) := c.clientRead env ev cs io
      .running (c.clientWrite ev cs io)

variable {env : Env} {c c' : Loop}

theorem fatalIoErr_registered {T : Type} {action : String} {o : Option T} {t : T}
    (h : fatalIoErr action (registered o) = .ok t) : o = some t := by
  cases o with
  | none => cases h
  | some t' =>
    cases h
    rfl

theorem updateInterest_cases {refused : Bool} (hu : c.updateInterest refused = .ok c') :
    c' = c ∨ ∃ i os, (i = ro ∨ i = rw) ∧
      c.os.reregister refused c.workerStream.stream workerStreamTk i = some os ∧
        c' = { c with os := os, wsInterest := i } := by
  simp only [updateInterest] at hu
  split at hu
  · split at hu
    · cases hu
    · rename_i os hos
      cases hu
      exact .inr ⟨rw, os, .inr rfl, fatalIoErr_registered hos, rfl⟩
  · split at hu
    · split at hu
      · cases hu
      · rename_i os hos
        cases hu
        exact .inr ⟨ro, os, .inl rfl, fatalIoErr_registered hos, rfl⟩
    · cases hu
      exact .inl rfl

theorem head_eq (c : Loop) (io : HeadIo) : c.head env io =
    match c.atPoll env io with
    | .error e => .returned (c.takeStreams env io) (.error e)
    | .ok c =>
      match fatalIoErr "worker couldn't call mio poll" io.poll with
      | .error e => .returned c (.error e)
      | .ok _ => .running c := by
  simp only [head, atPoll]
  cases (c.takeStreams env io).updateInterest io.wsRefused <;> rfl

theorem atPoll_ok {io : HeadIo} {p : Loop} : c.atPoll env io = .ok p ↔ ∃ d,
    (c.takeStreams env io).updateInterest io.wsRefused = .ok d ∧ io.order.foldl (forward env io) d = p := by
  simp only [atPoll]
  cases (c.takeStreams env io).updateInterest io.wsRefused <;> simp

theorem head_turns {io : HeadIo} (hc : c.head env io = .running c') : ∃ d,
    (c.takeStreams env io).updateInterest io.wsRefused = .ok d ∧
      c' = io.order.foldl (forward env io) d := by
  rw [head_eq] at hc
  cases hp : c.atPoll env io with
  | error e => simp [hp] at hc
  | ok p =>
    simp only [hp] at hc
    cases poll : io.poll with
    | error e => simp [poll, fatalIoErr] at hc
    | ok u =>
      simp only [poll, fatalIoErr] at hc
      cases hc
      obtain ⟨d, hu, rfl⟩ := atPoll_ok.mp hp
      exact ⟨d, hu, rfl⟩

inductive EventCase (env : Env) (c : Loop) (ev : Event) (io : EventIo) : Loop → Prop where
  | worker (token : ev.token = workerStreamTk) (d d') (read : c.workerRead ev io = (.ok (), d))
      (write : d.workerWrite ev io = (.ok (), d')) : EventCase env c ev io d'
  | unknown (token : ev.token ≠ workerStreamTk) (found : c.clientStreams.lookup ev.token = none) :
      EventCase env c ev io c
  | client (token : ev.token ≠ workerStreamTk) (cs)
      (found : c.clientStreams.lookup ev.token = some cs) :
      EventCase env c ev io ((c.clientRead env ev cs io).1.clientWrite ev (c.clientRead env ev cs io).2 io)

theorem event_turns {ev : Event} {io : EventIo} (hc : c.event env ev io = .running c') :
    EventCase env c ev io c' := by
  simp only [event] at hc
  split at hc
  · rename_i token
    split at hc
    · cases hc
    · rename_i d read
      split at hc
      · cases hc
      · rename_i d' write
        cases hc
        exact .worker token d _ read write
  · rename_i token
    cases found : c.clientStreams.lookup ev.token with
    | none =>
      simp only [found] at hc
      cases hc
      exact .unknown token found
    | some cs =>
      simp only [found] at hc
      cases hc
      exact .client token cs found

end Loop
end PyProxy.Worker
