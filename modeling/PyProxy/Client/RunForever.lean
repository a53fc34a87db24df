import Mathlib.Data.List.AList
import PyProxy.Client.Streams

namespace PyProxy.Client
open Protocol

def mainStreamTk : Token := 0
def outputStreamTk : Token := 1

abbrev Sender := Nat

structure EvalCode where
  id : String
  code : String
  locals : List UInt8
  globals : List UInt8
  futureSend : Sender
  deriving DecidableEq, Repr

inductive TryRecv where
  | ok
  | disconnected
  | empty
  deriving DecidableEq, Repr

structure Loop where
  mainStream : MainStream
  outputStream : OutputStream
  codeRecv : List EvalCode
  nextSender : Sender
  pendingFutures : AList fun _ : String => Sender
  threadSend : List PipeOut
  futures : List (Sender × PythonResult)

structure HeadIo where
  close : TryRecv
  codeDisconnected : Bool
  reregister : IoResult Unit
  poll : IoResult Unit

structure Event where
  token : Token
  readable : Bool
  writable : Bool
  deriving DecidableEq, Repr

structure EventIo where
  write : IoResult Nat
  read : IoResult (List UInt8)
  threadAlive : Bool

namespace Loop

def new : Loop where
  mainStream := .new ro
  outputStream := ⟨[]⟩
  codeRecv := []
  nextSender := 0
  pendingFutures := ∅
  threadSend := []
  futures := []

def evalStr (c : Loop) (id code : String) (locals globals : List UInt8) : Loop × Sender :=
  let msg : EvalCode := {
    id := id, code := code, locals := locals, globals := globals, futureSend := c.nextSender }
  ({ c with codeRecv := c.codeRecv ++ [msg], nextSender := c.nextSender + 1 }, c.nextSender)

variable (bc : Bincode)

def takeEval (c : Loop) (msg : EvalCode) : Loop :=
  { c with
    pendingFutures := c.pendingFutures.insert msg.id msg.futureSend
    mainStream := c.mainStream.queueSourceCode bc msg.id msg.code msg.locals msg.globals }

def takeCode (c : Loop) : Loop :=
  c.codeRecv.foldl (takeEval bc) { c with codeRecv := [] }

def send (c : Loop) (sender : Sender) (res : PythonResult) : Loop :=
  { c with futures := c.futures ++ [(sender, res)] }

def resolveMsg (c : Loop) (resp : ResponseMessage) : Loop :=
  match c.pendingFutures.lookup resp.futureId with
  | none => c
  | some sender =>
    let c := { c with pendingFutures := c.pendingFutures.erase resp.futureId }
    match resp with
    | .codePickle p => c.send sender p.pyResult
    | .codeString p => c.send sender p.pyResult
    | .hello _ => c

def resolve (c : Loop) : Loop :=
  c.mainStream.respMsgs.foldl resolveMsg
    { c with mainStream := { c.mainStream with respMsgs := [] } }

def updateInterest (c : Loop) (reregister : IoResult Unit) : Except Error Loop :=
  if c.mainStream.interest = ro ∧ c.mainStream.hasOutData = true then
    match fatalIoError "failed to reregister mainstream RO with mio Poll" reregister with
    | .error e => .error e
    | .ok _ => .ok { c with mainStream := c.mainStream.setInterest rw }
  else if c.mainStream.interest.writable = true ∧ c.mainStream.hasOutData = false then
    match fatalIoError "failed to reregister mainstream RW with mio Poll" reregister with
    | .error e => .error e
    | .ok _ => .ok { c with mainStream := c.mainStream.setInterest ro }
  else .ok c

def head (c : Loop) (io : HeadIo) : Flow Error Loop :=
  match io.close with
  | .ok => .returned c (.ok ())
  | .disconnected => .returned c (.ok ())
  | .empty =>
    let c := c.takeCode bc
    if io.codeDisconnected then .returned c (.ok ())
    else
      let c := c.resolve
      match c.updateInterest io.reregister with
      | .error e => .returned c (.error e)
      | .ok c =>
        match fatalIoError "failed to call mio poll" io.poll with
        | .error e => .returned c (.error e)
        | .ok _ => .running c

def mainWrite (c : Loop) (ev : Event) (io : EventIo) : Except Error Loop :=
  if ev.writable then
    match fatalIoError "failed to write bytes to mainstream session" (c.mainStream.write io.write) with
    | .error e => .error e
    | .ok stream => .ok { c with mainStream := stream }
  else .ok c

def mainEvent (c : Loop) (ev : Event) (io : EventIo) : Flow Error Loop :=
  match c.mainWrite ev io with
  | .error e => .returned c (.error e)
  | .ok c =>
    -- read whatever the event's readiness flags are
    match c.mainStream.read bc io.read with
    | (.error e, stream) => .returned { c with mainStream := stream } (.error e)
    | (.ok _, stream) => .running { c with mainStream := stream }

def outputEvent (c : Loop) (io : EventIo) : Flow Error Loop :=
  match c.outputStream.read io.read with
  | (.error e, stream) => .returned { c with outputStream := stream } (.error e)
  | (.ok lines, stream) =>
    let c := { c with outputStream := stream }
    if io.threadAlive || lines.isEmpty then .running { c with threadSend := c.threadSend ++ lines }
    else .returned c (.ok ())

def event (c : Loop) (ev : Event) (io : EventIo) : Flow Error Loop :=
  if ev.token = mainStreamTk then c.mainEvent bc ev io
  else if ev.token = outputStreamTk then c.outputEvent io
  else .running c

end Loop

inductive Label where
  | evalStr (id code : String) (locals globals : List UInt8)
  | head (io : HeadIo)
  | event (ev : Event) (io : EventIo)

namespace Loop

variable (bc : Bincode)

def step (c : Loop) : Label → Flow Error Loop
  | .evalStr id code locals globals => .running (c.evalStr id code locals globals).1
  | .head io => c.head bc io
  | .event ev io => c.event bc ev io

def withInterest (c : Loop) (interest : Interest) : Loop :=
  { c with mainStream := c.mainStream.setInterest interest }

theorem updateInterest_eq {c c' : Loop} {reregister : IoResult Unit}
    (h : c.updateInterest reregister = .ok c') : ∃ interest, c' = c.withInterest interest := by
  simp only [updateInterest] at h
  split at h
  · split at h
    · cases h
    · exact ⟨rw, (Except.ok.inj h).symm⟩
  · split at h
    · split at h
      · cases h
      · exact ⟨ro, (Except.ok.inj h).symm⟩
    · exact ⟨c.mainStream.interest, (Except.ok.inj h).symm⟩

theorem takeCode_frame (c : Loop) :
    ∃ o p, c.takeCode bc = { c with
      codeRecv := [], mainStream := { c.mainStream with outbuffer := o }, pendingFutures := p } := by
  suffices h : ∀ (l : List EvalCode) (c : Loop), ∃ o p, l.foldl (takeEval bc) c =
      { c with mainStream := { c.mainStream with outbuffer := o }, pendingFutures := p } from
    h c.codeRecv { c with codeRecv := [] }
  intro l
  induction l with
  | nil => exact fun c => ⟨c.mainStream.outbuffer, c.pendingFutures, rfl⟩
  | cons msg l ih =>
    intro c
    obtain ⟨o, p, hc⟩ := ih (c.takeEval bc msg)
    exact ⟨o, p, hc⟩

theorem resolve_frame (c : Loop) :
    ∃ p f, c.resolve = { c with
      mainStream := { c.mainStream with respMsgs := [] }, pendingFutures := p, futures := f } := by
  suffices h : ∀ (l : List ResponseMessage) (c : Loop), ∃ p f,
      l.foldl resolveMsg c = { c with pendingFutures := p, futures := f } from
    h _ { c with mainStream := { c.mainStream with respMsgs := [] } }
  intro l
  induction l with
  | nil => exact fun c => ⟨c.pendingFutures, c.futures, rfl⟩
  | cons resp l ih =>
    intro c
    obtain ⟨p, f, hc⟩ := ih (c.resolveMsg resp)
    have hstep : ∃ p f, c.resolveMsg resp = { c with pendingFutures := p, futures := f } := by
      simp only [resolveMsg]
      split
      · exact ⟨_, _, rfl⟩
      · split <;> exact ⟨_, _, rfl⟩
    obtain ⟨p', f', hr⟩ := hstep
    exact ⟨p, f, by rw [List.foldl_cons, hc, hr]⟩

theorem head_cases (c : Loop) (io : HeadIo) :
    (io.close ≠ .empty ∧ (c.head bc io).state = c) ∨
      (io.close = .empty ∧ io.codeDisconnected = true ∧
        c.head bc io = .returned (c.takeCode bc) (.ok ())) ∨
      io.close = .empty ∧ io.codeDisconnected = false ∧
        ∃ interest, (c.head bc io).state = (c.takeCode bc).resolve.withInterest interest := by
  cases hclose : io.close with
  | ok => exact .inl ⟨by simp, by simp [head, hclose, Flow.state]⟩
  | disconnected => exact .inl ⟨by simp, by simp [head, hclose, Flow.state]⟩
  | empty =>
    cases hcode : io.codeDisconnected with
    | true => exact .inr (.inl ⟨rfl, rfl, by simp [head, hclose, hcode]⟩)
    | false =>
      refine .inr (.inr ⟨rfl, rfl, ?_⟩)
      simp only [head, hclose, hcode, Bool.false_eq_true, if_false]
      cases hu : (c.takeCode bc).resolve.updateInterest io.reregister with
      | error e => exact ⟨_, rfl⟩
      | ok c' =>
        obtain ⟨interest, rfl⟩ := updateInterest_eq hu
        refine ⟨interest, ?_⟩
        cases io.poll <;> rfl

theorem event_frame (c : Loop) (ev : Event) (io : EventIo) :
    ∃ s o t, (c.event bc ev io).state =
        { c with mainStream := s, outputStream := o, threadSend := t } ∧
      ∀ resp ∈ s.respMsgs, resp ∈ c.mainStream.respMsgs ∨ resp.isHello = false := by
  simp only [event]
  split
  · simp only [mainEvent]
    cases hw : c.mainWrite ev io with
    | error e => exact ⟨c.mainStream, c.outputStream, c.threadSend, rfl, fun r h => .inl h⟩
    | ok c' =>
      have hc : ∃ s, c' = { c with mainStream := s } ∧ s.respMsgs = c.mainStream.respMsgs := by
        simp only [mainWrite] at hw
        split at hw
        · cases hio : io.write with
          | error e => simp [hio, MainStream.write, fatalIoError] at hw
          | ok n =>
            simp only [hio, MainStream.write, fatalIoError] at hw
            exact ⟨_, (Except.ok.inj hw).symm, rfl⟩
        · exact ⟨c.mainStream, (Except.ok.inj hw).symm, rfl⟩
      obtain ⟨s, rfl, hs⟩ := hc
      dsimp only
      have hm := MainStream.read_respMsgs bc s io.read
      rw [hs] at hm
      generalize s.read bc io.read = r at hm ⊢
      obtain ⟨res, s'⟩ := r
      exact ⟨s', c.outputStream, c.threadSend, by cases res <;> rfl, hm⟩
  · split
    · simp only [outputEvent]
      generalize c.outputStream.read io.read = r
      obtain ⟨res, o⟩ := r
      cases res with
      | error e => exact ⟨c.mainStream, o, c.threadSend, rfl, fun r h => .inl h⟩
      | ok lines =>
        dsimp only
        split
        · exact ⟨c.mainStream, o, c.threadSend ++ lines, rfl, fun r h => .inl h⟩
        · exact ⟨c.mainStream, o, c.threadSend, rfl, fun r h => .inl h⟩
    · exact ⟨c.mainStream, c.outputStream, c.threadSend, rfl, fun r h => .inl h⟩

end Loop
end PyProxy.Client
