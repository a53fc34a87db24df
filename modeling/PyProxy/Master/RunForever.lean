import Mathlib.Data.List.AList
import PyProxy.Master.ClientStream
import PyProxy.Master.OutputStream
import PyProxy.Master.PipeFrame
import PyProxy.Master.WorkerStream

namespace PyProxy.Master
open Stream Protocol Server Poll Lines

def mainListenerTk : Token := 0
def outputListenerTk : Token := 1
def unixListenerTk : Token := 2
def tokenStart : Token := 3
def bufferSize : Nat := 4096

inductive IoAction where
  | mainListener (listener : Sock)
  | clientStream (stream : ClientStream)
  | outputListener (listener : Sock)
  | outputStream (stream : Sock)
  | unixListener (listener : Sock)
  | stderr (frame : PipeFrame)
  | stdout (frame : PipeFrame)
  | workerStream (stream : Sock)

def IoAction.sock : IoAction → Sock
  | .mainListener k => k
  | .clientStream s => s.stream
  | .outputListener k => k
  | .outputStream k => k
  | .unixListener k => k
  | .stderr f => f.recv
  | .stdout f => f.recv
  | .workerStream k => k

inductive Kind where
  | mainListener
  | clientStream
  | outputListener
  | outputStream
  | unixListener
  | stderr
  | stdout
  | workerStream
  deriving DecidableEq, Repr

def IoAction.kind : IoAction → Kind
  | .mainListener _ => .mainListener
  | .clientStream _ => .clientStream
  | .outputListener _ => .outputListener
  | .outputStream _ => .outputStream
  | .unixListener _ => .unixListener
  | .stderr _ => .stderr
  | .stdout _ => .stdout
  | .workerStream _ => .workerStream

abbrev IoActions := Token → Option IoAction

def IoActions.insert (m : IoActions) (tk : Token) (act : IoAction) : IoActions :=
  fun t => if t = tk then some act else m t

def IoActions.remove (m : IoActions) (tk : Token) : IoActions := fun t => if t = tk then none else m t

def IoActions.insertAll (m : IoActions) (l : List (Token × IoAction)) : IoActions :=
  l.foldl (fun m p => m.insert p.1 p.2) m

def IoActions.removeAll (m : IoActions) (l : List Token) : IoActions := l.foldl .remove m

structure Loop where
  os : World Token UInt8
  ioToken : Token
  ioActions : IoActions
  toRemove : List Token
  toInsert : List (Token × IoAction)
  workerStreams : WorkerStreams
  newRequests : List Request
  outputStreams : AList fun _ : String => Sock
  workers : Workers
  outputs : Outputs

structure HeadIo where
  workerRefused : Token → Bool
  order : List String
  outputRefused : String → Bool
  poll : IoResult Unit

structure EventIo where
  accept : AcceptIo UInt8
  registerRefused : Bool
  adopted : IoResult Unit
  reregisterRefused : Bool
  read : ReadIo
  write : WriteIo
  echo : Nat → IoResult Unit

abbrev Event := Poll.Event Token

structure Env where
  bc : Bincode
  mc : MessageCodecs
  fdQueue : FdQueue

namespace Loop

variable (env : Env)

def new (os : World Token UInt8) : Loop where
  os := os
  ioToken := tokenStart
  ioActions := fun _ => none
  toRemove := []
  toInsert := []
  workerStreams := .new
  newRequests := []
  outputStreams := ∅
  workers := fun _ => .new ro
  outputs := fun _ => .new 0 ro

def listen (c : Loop) (action : String) (refused : Bool) (tk : Token) (act : IoAction) :
    Except Error Loop :=
  match fatalIoErr action (registered (c.os.register refused act.sock tk ro)) with
  | .error e => .error e
  | .ok os => .ok { c with os := os, ioActions := c.ioActions.insert tk act }

def addPipe (c : Loop) (action : String) (refused : Bool) (act : IoAction) : Except Error Loop :=
  match c.listen action refused c.ioToken act with
  | .error e => .error e
  | .ok c => .ok { c with ioToken := c.ioToken + 1 }

def addPipes (refused : Sock → Bool) : List (Sock × Sock) → Loop → Except Error Loop
  | [], c => .ok c
  | (stdout, stderr) :: workers, c =>
    match c.addPipe "master couldn't register worker stdout for reading" (refused stdout)
        (.stdout (.new stdout)) with
    | .error e => .error e
    | .ok c =>
      match c.addPipe "master couldn't register worker stderr for reading" (refused stderr)
          (.stderr (.new stderr)) with
      | .error e => .error e
      | .ok c => addPipes refused workers c

def boot (c : Loop) (refused : Sock → Bool) (main output unix : Sock) (workers : List (Sock × Sock)) :
    Except Error Loop :=
  match c.listen "master failed to register main tcp listener for reading" (refused main)
      mainListenerTk (.mainListener main) with
  | .error e => .error e
  | .ok c =>
    match c.listen "master failed to register output tcp listener for reading" (refused output)
        outputListenerTk (.outputListener output) with
    | .error e => .error e
    | .ok c =>
      match c.listen "master failed to register unix listener for reading" (refused unix)
          unixListenerTk (.unixListener unix) with
      | .error e => .error e
      | .ok c => c.addPipes refused workers

def settle (c : Loop) : Loop :=
  { c with
    ioActions := (c.ioActions.removeAll c.toRemove).insertAll c.toInsert
    toRemove := []
    toInsert := [] }

def dispatch (c : Loop) : Loop :=
  let d := c.workerStreams.dispatch env.fdQueue c.workers c.newRequests
  { c with workerStreams := d.streams, workers := d.heap, newRequests := d.newRequests }

-- The second `if` of the source needs an empty outbuffer, so at most one of the two is taken.
def updateWorker (io : HeadIo) (c : Loop) (tk : Token) (k : Sock) : Except Error Loop :=
  let s := c.workers k
  if s.hasData = true ∧ s.interest = ro then
    match fatalIoErr "master couldn't re-register worker stream RW"
        (registered (c.os.reregister (io.workerRefused tk) k tk rw)) with
    | .error e => .error e
    | .ok os => .ok { c with os := os, workers := c.workers.set k (s.setInterest rw) }
  else if s.hasData = false ∧ s.interest.writable = true then
    match fatalIoErr "master couldn't re-register worker stream RO"
        (registered (c.os.reregister (io.workerRefused tk) k tk ro)) with
    | .error e => .error e
    | .ok os => .ok { c with os := os, workers := c.workers.set k (s.setInterest ro) }
  else .ok c

def updateWorkers (io : HeadIo) : List (Token × Sock) → Loop → Except Error Loop
  | [], c => .ok c
  | (tk, k) :: streams, c =>
    match c.updateWorker io tk k with
    | .error e => .error e
    | .ok c => updateWorkers io streams c

def drop (c : Loop) (tk : Token) (k : Sock) : Loop :=
  { c with os := c.os.deregister k, toRemove := c.toRemove ++ [tk] }

def setOutputInterest (c : Loop) (k : Sock) (refused : Bool) (interest : Interest) : Loop :=
  let s := (c.outputs k).setInterest interest
  let c := { c with outputs := c.outputs.set k s }
  match c.os.reregister refused k s.token interest with
  | none => c.drop s.token k
  | some os => { c with os := os }

def updateOutput (io : HeadIo) (c : Loop) (sessionId : String) : Loop :=
  match c.outputStreams.lookup sessionId with
  | none => c
  | some k =>
    let s := c.outputs k
    if s.interest = ro ∧ s.hasOutData = true then
      c.setOutputInterest k (io.outputRefused sessionId) rw
    else if s.interest.writable = true ∧ s.hasOutData = false then
      c.setOutputInterest k (io.outputRefused sessionId) ro
    else c

def head (c : Loop) (io : HeadIo) : Flow Halt Loop :=
  let c := c.settle.dispatch env
  match updateWorkers io c.workerStreams.streams c with
  | .error e => .returned c (.error (.err e))
  | .ok c =>
    let c := io.order.foldl (updateOutput io) c
    match fatalIoErr "master failed to poll mio for events" io.poll with
    | .error e => .returned c (.error (.err e))
    | .ok _ => .running c

def acceptMain (c : Loop) (k : Sock) (io : EventIo) : Flow Halt Loop :=
  match c.os.accept k io.accept with
  | (.error _, os) => .running { c with os := os }
  | (.ok conn, os) =>
    let c := { c with os := os }
    let c :=
      match c.os.register io.registerRefused conn c.ioToken ro with
      | none => c
      | some os =>
        { c with os := os, toInsert := c.toInsert ++ [(c.ioToken, .clientStream (.new conn))] }
    match fatalIoErr "couldn't reregister main_listener to accept more mainstreams"
        (registered (c.os.reregister io.reregisterRefused k mainListenerTk ro)) with
    | .error e => .returned c (.error (.err e))
    | .ok os => .running { c with os := os, ioToken := c.ioToken + 1 }

def acceptOutput (c : Loop) (k : Sock) (io : EventIo) : Loop :=
  match c.os.accept k io.accept with
  | (.error _, os) => { c with os := os }
  | (.ok conn, os) =>
    let c := { c with os := os }
    match c.os.register io.registerRefused conn c.ioToken ro with
    | none => { c with ioToken := c.ioToken + 1 }
    | some os =>
      { c with
        os := os
        outputs := c.outputs.set conn (.new c.ioToken ro)
        ioActions := c.ioActions.insert c.ioToken (.outputStream conn)
        ioToken := c.ioToken + 1 }

def acceptUnix (c : Loop) (k : Sock) (io : EventIo) : Flow Halt Loop :=
  match c.os.accept k io.accept with
  | (.error _, os) => .running { c with os := os }
  | (.ok conn, os) =>
    let c := { c with os := os }
    match fatalIoErr "master failed to register worker stream for reading"
        (registered (c.os.register io.registerRefused conn c.ioToken ro)) with
    | .error e => .returned c (.error (.err e))
    | .ok os =>
      let c := { c with os := os }
      match fatalIoErr "master couldn't create worker stream instance" io.adopted with
      | .error e => .returned c (.error (.err e))
      | .ok _ => .running { c with
          workers := c.workers.set conn (.new ro)
          ioActions := c.ioActions.insert c.ioToken (.workerStream conn)
          workerStreams := c.workerStreams.add c.ioToken conn
          ioToken := c.ioToken + 1 }

def clientEvent (c : Loop) (tk : Token) (s : ClientStream) (io : EventIo) : Loop :=
  let (res, os) := c.os.read s.stream s.room io.read
  let (res, s) := s.read res
  let c := { c with os := os, ioActions := c.ioActions.insert tk (.clientStream s) }
  match res with
  | .continue => c
  | .closed => c.drop tk s.stream
  -- the stream stays in io_actions, where it keeps the fd open
  | .done =>
    { c with
      os := c.os.deregister s.stream
      newRequests := c.newRequests ++ [(s.header, s.rawFd)] }
  | .error _ => c.drop tk s.stream

def dropIfErr {ε T : Type} (c : Loop) (tk : Token) (k : Sock) : Except ε T → Loop
  | .ok _ => c
  | .error _ => c.drop tk k

def openOutput (c : Loop) (tk : Token) (k : Sock) (refused : Bool) : Loop :=
  let (sessionId, s) := (c.outputs k).takeSessionId
  let c := { c with outputs := c.outputs.set k s }
  match sessionId with
  | none => c
  | some sessionId =>
    match c.os.reregister refused k tk rw with
    | none => c
    | some os => { c with os := os, outputStreams := c.outputStreams.insert sessionId k }

def outputRead (c : Loop) (ev : Event) (k : Sock) (io : EventIo) : Loop :=
  if ev.readable then
    let (res, os) := c.os.read k bufferSize io.read
    let (res, s) := (c.outputs k).read env.bc res
    let c := { c with os := os, outputs := c.outputs.set k s }
    (c.dropIfErr ev.token k res).openOutput ev.token k io.reregisterRefused
  else c

def outputWrite (c : Loop) (ev : Event) (k : Sock) (io : EventIo) : Loop :=
  if ev.writable then
    let (res, os) := c.os.write k (c.outputs k).outbuffer.length io.write
    let (res, s) := (c.outputs k).write res
    { c with os := os, outputs := c.outputs.set k s }.dropIfErr ev.token k res
  else c

def workerWrite (c : Loop) (ev : Event) (k : Sock) (io : EventIo) : Loop :=
  if ev.writable then
    let (res, os) := c.os.write k (c.workers k).outbuffer.length io.write
    let (_, s) := (c.workers k).write env.fdQueue res
    { c with os := os, workers := c.workers.set k s }
  else c

def workerEvent (c : Loop) (ev : Event) (k : Sock) (io : EventIo) : Flow Halt Loop :=
  if ev.readable then
    let (res, os) := c.os.read k bufferSize io.read
    let (res, s) := (c.workers k).read env.mc res
    let c := { c with os := os, workers := c.workers.set k s }
    match res with
    | .panic msg => .returned c (.error (.panic msg))
    | .error _ => .running ((c.drop ev.token k).workerWrite env ev k io)
    | .ok _ => .running (c.workerWrite env ev k io)
  else .running (c.workerWrite env ev k io)

def sendLines (send : OutputStream → List UInt8 → OutputStream) (c : Loop) (sessionId : String)
    (lines : List (List UInt8)) : Loop :=
  match c.outputStreams.lookup sessionId with
  | none => c
  | some k => { c with outputs := c.outputs.set k (lines.foldl send (c.outputs k)) }

def pipeEvent (send : OutputStream → List UInt8 → OutputStream) (wrap : PipeFrame → IoAction)
    (c : Loop) (tk : Token) (f : PipeFrame) (io : EventIo) : Loop :=
  let (res, os) := c.os.read f.recv bufferSize io.read
  let c := { c with os := os }
  match f.read io.echo res with
  | (.error _, _, f) => { c with ioActions := c.ioActions.insert tk (wrap f) }.drop tk f.recv
  | (.ok none, _, f) => { c with ioActions := c.ioActions.insert tk (wrap f) }
  | (.ok (some (sessionId, lines)), _, f) =>
    let c := c.sendLines send sessionId (lines.map (slice f.buffer))
    { c with ioActions := c.ioActions.insert tk (wrap f.clear) }

def stdoutEvent (c : Loop) (tk : Token) (f : PipeFrame) (io : EventIo) : Loop :=
  c.pipeEvent OutputStream.sendStdout .stdout tk f io

def stderrEvent (c : Loop) (tk : Token) (f : PipeFrame) (io : EventIo) : Loop :=
  c.pipeEvent OutputStream.sendStderr .stderr tk f io

def event (c : Loop) (ev : Event) (io : EventIo) : Flow Halt Loop :=
  match c.ioActions ev.token with
  | none => .running c
  | some (.mainListener k) => c.acceptMain k io
  | some (.outputListener k) => .running (c.acceptOutput k io)
  | some (.clientStream s) => .running (c.clientEvent ev.token s io)
  | some (.outputStream k) => .running ((c.outputRead env ev k io).outputWrite ev k io)
  | some (.unixListener k) => c.acceptUnix k io
  | some (.workerStream k) => c.workerEvent env ev k io
  | some (.stdout f) => .running (c.stdoutEvent ev.token f io)
  | some (.stderr f) => .running (c.stderrEvent ev.token f io)

-- `i` is what the loop head registers a stream with, given whether it has data to write
structure Retunes (hasData : Bool) (interest i : Interest) : Prop where
  stale : if hasData = true then interest = ro else interest.writable = true
  tuned : i = if hasData = true then rw else ro

theorem Retunes.readable {hasData : Bool} {interest i : Interest} (h : Retunes hasData interest i) :
    i.readable = true := by
  rw [h.tuned]
  split <;> rfl

def Tuned (hasData : Bool) (interest : Interest) : Prop :=
  if hasData = true then interest ≠ ro else interest.writable = false

theorem tuned_of {hasData : Bool} {interest : Interest} (up : ¬ (hasData = true ∧ interest = ro))
    (down : ¬ (hasData = false ∧ interest.writable = true)) : Tuned hasData interest := by
  cases hasData with
  | true => exact fun h => up ⟨rfl, h⟩
  | false => exact Bool.eq_false_iff.mpr fun h => down ⟨rfl, h⟩

theorem updateWorker_cases {io : HeadIo} {c c' : Loop} {tk : Token} {k : Sock}
    (h : c.updateWorker io tk k = .ok c') :
    c' = c ∧ Tuned (c.workers k).hasData (c.workers k).interest ∨
      ∃ i, Retunes (c.workers k).hasData (c.workers k).interest i ∧
        (c.os.source k).reg.isSome = true ∧
        c' = { c with
          os := c.os.modify k (·.attach tk i)
          workers := c.workers.set k ((c.workers k).setInterest i) } := by
  have retune : ∀ {action : String} {i : Interest},
      (match fatalIoErr action (registered (c.os.reregister (io.workerRefused tk) k tk i)) with
        | .error e => Except.error e
        | .ok os => Except.ok { c with
            os := os, workers := c.workers.set k ((c.workers k).setInterest i) }) = .ok c' →
      (c.os.source k).reg.isSome = true ∧ c' = { c with
        os := c.os.modify k (·.attach tk i)
        workers := c.workers.set k ((c.workers k).setInterest i) } := by
    intro action i h
    cases hr : c.os.reregister (io.workerRefused tk) k tk i with
    | none => simp [hr, fatalIoErr, registered] at h
    | some os =>
      obtain ⟨hreg, rfl⟩ := World.reregister_some hr
      simp only [hr, fatalIoErr, registered] at h
      exact ⟨hreg, (Except.ok.inj h).symm⟩
  simp only [updateWorker] at h
  split at h
  · rename_i hup
    obtain ⟨hreg, hc⟩ := retune h
    exact .inr ⟨rw, ⟨by simp [hup], by simp [hup]⟩, hreg, hc⟩
  · rename_i hup
    split at h
    · rename_i hdown
      obtain ⟨hreg, hc⟩ := retune h
      exact .inr ⟨ro, ⟨by simp [hdown], by simp [hdown]⟩, hreg, hc⟩
    · rename_i hdown
      exact .inl ⟨(Except.ok.inj h).symm, tuned_of hup hdown⟩

theorem setOutputInterest_cases (c : Loop) (k : Sock) (refused : Bool) (i : Interest) :
    ((c.os.source k).reg.isSome = true ∧ c.setOutputInterest k refused i = { c with
      os := c.os.modify k (·.attach (c.outputs k).token i)
      outputs := c.outputs.set k ((c.outputs k).setInterest i) }) ∨
    c.setOutputInterest k refused i =
      { c with outputs := c.outputs.set k ((c.outputs k).setInterest i) }.drop (c.outputs k).token k := by
  simp only [setOutputInterest]
  cases hr : c.os.reregister refused k (c.outputs k).token i with
  | none => exact .inr (by simp only [OutputStream.setInterest, hr])
  | some os =>
    obtain ⟨hreg, rfl⟩ := World.reregister_some hr
    exact .inl ⟨hreg, by simp only [OutputStream.setInterest, hr]⟩

theorem updateOutput_cases (io : HeadIo) (c : Loop) (sessionId : String) :
    c.updateOutput io sessionId = c ∧ (∀ k, c.outputStreams.lookup sessionId = some k →
        Tuned (c.outputs k).hasOutData (c.outputs k).interest) ∨
      ∃ k i, c.outputStreams.lookup sessionId = some k ∧
        Retunes (c.outputs k).hasOutData (c.outputs k).interest i ∧
        c.updateOutput io sessionId = c.setOutputInterest k (io.outputRefused sessionId) i := by
  simp only [updateOutput]
  cases hk : c.outputStreams.lookup sessionId with
  | none => exact .inl ⟨rfl, by simp⟩
  | some k =>
    dsimp only
    split
    · rename_i hup
      exact .inr ⟨k, rw, rfl, ⟨by simp [hup], by simp [hup]⟩, rfl⟩
    · rename_i hup
      split
      · rename_i hdown
        exact .inr ⟨k, ro, rfl, ⟨by simp [hdown], by simp [hdown]⟩, rfl⟩
      · rename_i hdown
        refine .inl ⟨rfl, fun j hj => ?_⟩
        cases hj
        exact tuned_of (fun h => hup h.symm) fun h => hdown h.symm

theorem head_cases {env : Env} {io : HeadIo} {c c' : Loop} (h : c.head env io = .running c') : ∃ c₁,
    updateWorkers io (c.settle.dispatch env).workerStreams.streams (c.settle.dispatch env) = .ok c₁ ∧
      io.poll = .ok () ∧ c' = io.order.foldl (updateOutput io) c₁ := by
  simp only [head] at h
  cases hu : updateWorkers io (c.settle.dispatch env).workerStreams.streams
      (c.settle.dispatch env) with
  | error e => simp [hu] at h
  | ok c₁ =>
    simp only [hu] at h
    cases hp : io.poll with
    | error e => simp [hp, fatalIoErr] at h
    | ok u =>
      simp only [hp, fatalIoErr] at h
      cases h
      exact ⟨c₁, rfl, rfl, rfl⟩

end Loop
end PyProxy.Master
