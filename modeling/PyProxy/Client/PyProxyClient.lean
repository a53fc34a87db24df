import PyProxy.Client.Connection
import PyProxy.Client.RemoteProcess
import PyProxy.Client.Wire

namespace PyProxy.Client
open Protocol Rpc

inductive Exception where
  | pyProxyIOError
  | pyProxyProtocolError
  | pyProxyClosedSessionError
  | pyProxyRemoteExceptionPickle
  | pyProxyFutureTimeout
  | pyRuntimeError
  deriving DecidableEq, Repr

def Error.exception : Error → Exception
  | .io _ _ => .pyProxyIOError
  | .serverDidntSendHello => .pyProxyProtocolError
  | .missingMainStream => .pyRuntimeError
  | .protocol _ => .pyProxyProtocolError
  | .clientThreadDoesNotExist => .pyProxyClosedSessionError
  | .threadClosed => .pyProxyClosedSessionError
  | .outputStreamClosed => .pyProxyIOError
  | .mainStreamClosed => .pyProxyIOError
  | .pythonResultError _ => .pyProxyRemoteExceptionPickle
  | .futureTimeout => .pyProxyFutureTimeout

structure StartIo where
  connect : ConnectIo
  poll : IoResult Unit
  mainStream : IoResult Unit
  outputStream : IoResult Unit

-- what `run_forever` does before its loop
def startThread (bc : Bincode) (streamToken : String) (io : StartIo) : Except Error Unit := do
  let _ ← connectOutputStream bc io.connect streamToken
  fatalIoError "failed to create mio Poll instance" io.poll
  fatalIoError "failed to register mainstream with mio for polling" io.mainStream
  fatalIoError "failed to register outputstream with mio for polling" io.outputStream

-- a thread that has returned goes on to drop what it holds, and only then has finished
inductive Background where
  | starting (c : Loop)
  | looping (c : Loop)
  | returned (c : Loop) (res : Except Error Unit)
  | finished (c : Loop) (res : Except Error Unit)

namespace Background

def loop : Background → Loop
  | .starting c => c
  | .looping c => c
  | .returned c _ => c
  | .finished c _ => c

def receives : Background → Bool
  | .starting _ => true
  | .looping _ => true
  | .returned _ _ => false
  | .finished _ _ => false

def withLoop (c : Loop) : Background → Background
  | .starting _ => .starting c
  | .looping _ => .looping c
  | .returned _ res => .returned c res
  | .finished _ res => .finished c res

def ofFlow : Flow Error Loop → Background
  | .running c => .looping c
  | .returned c res => .returned c res

end Background

structure PyProxyClient where
  handle : Bool
  thread : Background
  -- the messages of the close channel, and how many of the thread's have been received
  closeSend : Nat
  received : Nat
  dropped : Bool

namespace PyProxyClient

def new : PyProxyClient := ⟨true, .starting .new, 0, 0, false⟩

def checkThread (s : PyProxyClient) : Except Error Unit × PyProxyClient :=
  match s.handle with
  | false => (.error .clientThreadDoesNotExist, s)
  | true =>
    match s.thread with
    | .finished _ (.ok _) => (.error .clientThreadDoesNotExist, { s with handle := false })
    | .finished _ (.error e) => (.error e, { s with handle := false })
    | _ => (.ok (), s)

def evalStr (s : PyProxyClient) (id code : String) (locs globs : List UInt8) :
    Except Error Sender × PyProxyClient :=
  match s.checkThread with
  | (.error e, s) => (.error e, s)
  | (.ok _, s) =>
    if s.thread.receives then
      let (c, future) := s.thread.loop.evalStr id code locs globs
      (.ok future, { s with thread := s.thread.withLoop c })
    else (.error .threadClosed, s)

def threadRecv (s : PyProxyClient) : Channel PipeOut where
  sent := s.thread.loop.threadSend
  taken := s.received
  connected := s.thread.receives

def nextOutput (s : PyProxyClient) : Except Error (Option (Nat × List UInt8)) × PyProxyClient :=
  let (out, recv) := Client.nextOutput s.threadRecv
  (out, { s with received := recv.taken })

def disconnect (s : PyProxyClient) : PyProxyClient :=
  if s.thread.receives then { s with closeSend := s.closeSend + 1 } else s

def closeRecv (s : PyProxyClient) : TryRecv :=
  if 0 < s.closeSend then .ok else if s.dropped then .disconnected else .empty

-- the channels answer the thread as the process has left them
def answers (s : PyProxyClient) : Client.Label → Bool
  | .evalStr _ _ _ _ => false
  | .head io => decide (io.close = s.closeRecv) && io.codeDisconnected == s.dropped
  | .event _ io => io.threadAlive == !s.dropped

end PyProxyClient

-- a connection, and the client made over it
structure Handle where
  conn : PyConnection
  inner : Bool
  client : Option PyProxyClient

namespace Handle

inductive Label where
  | new (spawn : IoResult Unit)
  | start (io : StartIo)
  | thread (l : Client.Label)
  | finish
  | checkThread
  | evalStr (id code : String) (locs globs : List UInt8)
  | nextOutput
  | disconnect
  | drop

def new (s : Handle) (spawn : IoResult Unit) : Except Error Unit × Handle :=
  if s.inner then
    match fatalIoError "PyProxyClient failed to spawn OS thread" spawn with
    | .error e => (.error e, { s with inner := false })
    | .ok _ => (.ok (), { s with inner := false, client := some .new })
  else (.error .missingMainStream, s)

variable (bc : Bincode)

def stepThread (conn : PyConnection) (p : PyProxyClient) : Label → Option PyProxyClient
  | .start io =>
    match p.thread with
    | .starting c =>
      match startThread bc conn.streamToken io with
      | .ok _ => some { p with thread := .looping c }
      | .error e => some { p with thread := .returned c (.error e) }
    | _ => none
  | .thread l =>
    match p.thread with
    | .looping c => if p.answers l then some { p with thread := .ofFlow (c.step bc l) } else none
    | _ => none
  | .finish =>
    match p.thread with
    | .returned c res => some { p with thread := .finished c res }
    | _ => none
  | _ => none

def stepProcess (p : PyProxyClient) : Label → Option PyProxyClient
  | .checkThread => some p.checkThread.2
  | .evalStr id code locs globs => some (p.evalStr id code locs globs).2
  | .nextOutput => some p.nextOutput.2
  | .disconnect => some p.disconnect
  | .drop => some { p with dropped := true }
  | _ => none

def step (s : Handle) (l : Label) : Option Handle :=
  match l with
  | .new spawn => some (s.new spawn).2
  | l =>
    match s.client with
    | none => none
    | some p =>
      match stepThread bc s.conn p l with
      | some p => some { s with client := some p }
      | none => if p.dropped then none else (stepProcess p l).map fun p => { s with client := some p }

def machine (conn : PyConnection) : Machine Handle Label where
  init := ⟨conn, true, none⟩
  step := step bc

inductive Outcome where
  | opened (res : Except Error Unit)
  | checked (res : Except Error Unit)
  | future (res : Except Error Sender)
  | output (res : Except Error (Option (Nat × List UInt8)))

def outcome (s : Handle) : Label → List Outcome
  | .new spawn => [.opened (s.new spawn).1]
  | .checkThread => s.client.toList.map fun p => .checked p.checkThread.1
  | .evalStr id code locs globs => s.client.toList.map fun p => .future (p.evalStr id code locs globs).1
  | .nextOutput => s.client.toList.map fun p => .output p.nextOutput.1
  | _ => []

-- a call that needs the thread, and whether it asks for an evaluation
structure Call where
  asks : Bool
  res : Except Error Unit

def Outcome.opening : Outcome → Option (Except Error Unit)
  | .opened res => some res
  | _ => none

def Outcome.call : Outcome → Option Call
  | .checked res => some ⟨false, res⟩
  | .future res => some ⟨true, res.map fun _ => ()⟩
  | _ => none

def Outcome.accepted : Outcome → Option Sender
  | .future (.ok f) => some f
  | _ => none

def Outcome.out : Outcome → Option (Except Error (Option (Nat × List UInt8)))
  | .output res => some res
  | _ => none

-- what joining the thread tells the caller
def joined : Except Error Unit → Except Error Unit
  | .ok _ => .error .clientThreadDoesNotExist
  | .error e => .error e

def late (c : Call) : Prop := c.res = if c.asks then .error .threadClosed else .ok ()

-- the calls of a client: while its thread runs, while it ends, and from when it has been joined
inductive Calls : Background → Bool → List Call → Prop where
  | serving (t before) (receives : t.receives = true) (ok : ∀ c ∈ before, c.res = .ok ()) :
      Calls t true before
  | ending (t before during) (ended : t.receives = false) (ok : ∀ c ∈ before, c.res = .ok ())
      (closed : ∀ c ∈ during, late c) : Calls t true (before ++ during)
  | finished (c res before during after n) (ok : ∀ c ∈ before, c.res = .ok ())
      (closed : ∀ c ∈ during, late c)
      (told : after.map Call.res = joined res :: List.replicate n (.error .clientThreadDoesNotExist)) :
      Calls (.finished c res) false (before ++ during ++ after)

-- what `next_output` has given: the lines in order, and once there are no more the end
inductive Outputs (t : Background) (received : Nat) : List (Except Error (Option (Nat × List UInt8))) → Prop where
  | intro (outs n) (clean : ∀ o ∈ outs, ∃ line, o = .ok line)
      (told : outs.filterMap (fun o => o.toOption.join) =
        (t.loop.threadSend.take received).map RemoteProcess.shown)
      (known : received ≤ t.loop.threadSend.length)
      (ended : n ≠ 0 → t.receives = false ∧ received = t.loop.threadSend.length) :
      Outputs t received (outs ++ List.replicate n (.error .clientThreadDoesNotExist))

inductive Opened : Bool → Bool → List (Except Error Unit) → Prop where
  | unused : Opened true false []
  | used (first n) (open_ : first = .ok () ∨ ∃ e, first = .error (.io "PyProxyClient failed to spawn OS thread" e)) :
      Opened false (first.toOption.isSome) (first :: List.replicate n (.error .missingMainStream))

structure Told (p : PyProxyClient) (os : List Outcome) : Prop where
  calls : Calls p.thread p.handle (os.filterMap Outcome.call)
  futures : os.filterMap Outcome.accepted = List.range p.thread.loop.nextSender
  outputs : Outputs p.thread p.received (os.filterMap Outcome.out)

variable {bc} {conn : PyConnection} {p p' : PyProxyClient} {os : List Outcome} {t t' : Background}
  {cs : List Call}

theorem checkThread_cases (p : PyProxyClient) :
    (p.handle = false ∧ p.checkThread = (.error .clientThreadDoesNotExist, p)) ∨
      (p.handle = true ∧ (∀ c res, p.thread ≠ .finished c res) ∧ p.checkThread = (.ok (), p)) ∨
      ∃ c res, p.handle = true ∧ p.thread = .finished c res ∧
        p.checkThread = (joined res, { p with handle := false }) := by
  cases handle : p.handle with
  | false => exact .inl ⟨rfl, by simp [PyProxyClient.checkThread, handle]⟩
  | true =>
    cases thread : p.thread with
    | starting c => exact .inr (.inl ⟨rfl, by simp, by simp [PyProxyClient.checkThread, handle, thread]⟩)
    | looping c => exact .inr (.inl ⟨rfl, by simp, by simp [PyProxyClient.checkThread, handle, thread]⟩)
    | returned c res => exact .inr (.inl ⟨rfl, by simp, by simp [PyProxyClient.checkThread, handle, thread]⟩)
    | finished c res =>
      refine .inr (.inr ⟨c, res, rfl, rfl, ?_⟩)
      cases res <;> simp [PyProxyClient.checkThread, handle, thread, joined]

namespace Calls

variable {b : Bool} {call : Call}

theorem served (h : Calls t true cs) (receives : t.receives = true) (ok : call.res = .ok ()) :
    Calls t true (cs ++ [call]) := by
  cases h with
  | serving _ before receives' all =>
    refine .serving _ _ receives fun c hc => ?_
    rcases List.mem_append.mp hc with hc | hc
    · exact all c hc
    · rw [List.mem_singleton.mp hc, ok]
  | ending _ before during ended =>
    rw [ended] at receives
    cases receives

theorem missed (h : Calls t true cs) (ended : t.receives = false) (closed : late call) :
    Calls t true (cs ++ [call]) := by
  cases h with
  | serving _ before receives =>
    rw [ended] at receives
    cases receives
  | ending _ before during ended' ok all =>
    rw [List.append_assoc]
    refine .ending _ _ _ ended ok fun c hc => ?_
    rcases List.mem_append.mp hc with hc | hc
    · exact all c hc
    · rw [List.mem_singleton.mp hc]
      exact closed

theorem joins {c : Loop} {res : Except Error Unit} (h : Calls (.finished c res) true cs)
    (told : call.res = joined res) : Calls (.finished c res) false (cs ++ [call]) := by
  cases h with
  | serving _ before receives => cases receives
  | ending _ before during ended ok closed =>
    exact .finished c res before during [call] 0 ok closed (by simp [told])

theorem after (h : Calls t false cs) (told : call.res = .error .clientThreadDoesNotExist) :
    Calls t false (cs ++ [call]) := by
  cases h with
  | finished c res before during after n ok closed all =>
    rw [List.append_assoc]
    refine .finished c res before during _ (n + 1) ok closed ?_
    rw [List.map_append, all, List.map_singleton, told, List.replicate_succ']
    rfl

theorem check (h : Calls p.thread p.handle cs) :
    Calls p.checkThread.2.thread p.checkThread.2.handle (cs ++ [⟨false, p.checkThread.1⟩]) := by
  rcases checkThread_cases p with ⟨handle, eq⟩ | ⟨handle, -, eq⟩ | ⟨c, res, handle, thread, eq⟩
  · rw [eq]
    rw [handle] at h ⊢
    exact h.after rfl
  · rw [eq]
    rw [handle] at h ⊢
    cases receives : p.thread.receives with
    | true => exact h.served receives rfl
    | false => exact h.missed receives rfl
  · rw [eq]
    rw [handle, thread] at h
    rw [thread]
    exact h.joins rfl

-- a thread that no longer receives does not come back
theorem moves (h : Calls t b cs) (alive : ∀ c res, t ≠ .finished c res)
    (gone : t.receives = false → t'.receives = false) : Calls t' b cs := by
  cases h with
  | serving _ before receives ok =>
    cases receives' : t'.receives with
    | true => exact .serving _ _ receives' ok
    | false =>
      rw [← List.append_nil cs]
      exact .ending _ _ [] receives' ok (List.forall_mem_nil _)
  | ending _ before during ended ok closed => exact .ending _ _ _ (gone ended) ok closed
  | finished c res => exact absurd rfl (alive c res)

end Calls

theorem withLoop_receives (t : Background) (c : Loop) : (t.withLoop c).receives = t.receives := by
  cases t <;> rfl

theorem withLoop_loop (t : Background) (c : Loop) : (t.withLoop c).loop = c := by
  cases t <;> rfl

-- what a call for an evaluation comes to
inductive Eval (p : PyProxyClient) (id code : String) (locs globs : List UInt8) :
    Except Error Sender × PyProxyClient → Prop where
  | refused (e) (check : p.checkThread.1 = .error e) :
      Eval p id code locs globs (.error e, p.checkThread.2)
  | closed (check : p.checkThread = (.ok (), p)) (handle : p.handle = true) (ended : p.thread.receives = false) :
      Eval p id code locs globs (.error .threadClosed, p)
  | accepted (check : p.checkThread = (.ok (), p)) (handle : p.handle = true) (receives : p.thread.receives = true) :
      Eval p id code locs globs (.ok p.thread.loop.nextSender,
        { p with thread := p.thread.withLoop (p.thread.loop.evalStr id code locs globs).1 })

theorem evalStr_cases (p : PyProxyClient) (id code : String) (locs globs : List UInt8) :
    Eval p id code locs globs (p.evalStr id code locs globs) := by
  rw [PyProxyClient.evalStr]
  rcases checkThread_cases p with ⟨handle, eq⟩ | ⟨handle, -, eq⟩ | ⟨c, res, handle, thread, eq⟩
  · rw [eq]
    have refused := @Eval.refused p id code locs globs .clientThreadDoesNotExist (by rw [eq])
    rwa [eq] at refused
  · rw [eq]
    dsimp only
    split
    · rename_i receives
      exact .accepted eq handle receives
    · rename_i ended
      exact .closed eq handle (Bool.not_eq_true _ ▸ ended)
  · have refused := fun e h => @Eval.refused p id code locs globs e h
    rw [eq] at refused ⊢
    cases res with
    | ok u => exact refused _ rfl
    | error e => exact refused _ rfl

namespace Outputs

variable {received : Nat} {os : List (Except Error (Option (Nat × List UInt8)))}

theorem grow (h : Outputs t received os) (lines : t.loop.threadSend <+: t'.loop.threadSend)
    (gone : t.receives = false → t'.receives = false ∧ t'.loop = t.loop) : Outputs t' received os := by
  cases h with
  | intro outs n clean told known ended =>
    refine .intro outs n clean ?_ (Nat.le_trans known lines.length_le) fun hn => ?_
    · obtain ⟨more, eq⟩ := lines
      rw [told, ← eq, List.take_append_of_le_length known]
    · obtain ⟨dead, all⟩ := ended hn
      obtain ⟨dead', same⟩ := gone dead
      exact ⟨dead', by rw [same]; exact all⟩

theorem same (h : Outputs t received os) (receives : t'.receives = t.receives)
    (lines : t'.loop.threadSend = t.loop.threadSend) : Outputs t' received os := by
  cases h with
  | intro outs n clean told known ended =>
    exact .intro outs n clean (lines ▸ told) (lines ▸ known) fun hn => by
      rw [receives, lines]
      exact ended hn

theorem next {p : PyProxyClient} (h : Outputs p.thread p.received os) :
    Outputs p.thread p.nextOutput.2.received (os ++ [p.nextOutput.1]) := by
  cases h with
  | intro outs n clean told known ended =>
    cases queue : p.thread.loop.threadSend.drop p.received with
    | cons line rest =>
      have next : p.nextOutput = (.ok (some (RemoteProcess.shown line)), { p with received := p.received + 1 }) := by
        simp only [PyProxyClient.nextOutput, Client.nextOutput, Channel.tryRecv, Channel.queue,
          PyProxyClient.threadRecv, queue]
        rfl
      have zero : n = 0 := by
        by_contra hn
        rw [(ended hn).2, List.drop_length] at queue
        cases queue
      subst zero
      rw [next]
      rw [List.replicate_zero, List.append_nil]
      have below : p.received < p.thread.loop.threadSend.length := by
        by_contra hle
        rw [List.drop_eq_nil_of_le (Nat.not_lt.mp hle)] at queue
        cases queue
      have all := @intro p.thread (p.received + 1) (outs ++ [.ok (some (RemoteProcess.shown line))]) 0 ?_ ?_
        below (fun hn => absurd rfl hn)
      · rwa [List.replicate_zero, List.append_nil] at all
      · intro o ho
        rcases List.mem_append.mp ho with ho | ho
        · exact clean o ho
        · exact ⟨_, List.mem_singleton.mp ho⟩
      · have head : p.thread.loop.threadSend[p.received]? = some line := by
          rw [← List.head?_drop, queue]
          rfl
        rw [List.filterMap_append, told, List.take_add_one, head, List.map_append]
        rfl
    | nil =>
      cases receives : p.thread.receives with
      | true =>
        have next : p.nextOutput = (.ok none, p) := by
          simp only [PyProxyClient.nextOutput, Client.nextOutput, Channel.tryRecv, Channel.queue,
            PyProxyClient.threadRecv, queue, receives]
          rfl
        have zero : n = 0 := by
          by_contra hn
          rw [receives] at ended
          cases (ended hn).1
        subst zero
        rw [next, List.replicate_zero, List.append_nil]
        have all := @intro p.thread p.received (outs ++ [.ok none]) 0 ?_ ?_ known (fun hn => absurd rfl hn)
        · rwa [List.replicate_zero, List.append_nil] at all
        · intro o ho
          rcases List.mem_append.mp ho with ho | ho
          · exact clean o ho
          · exact ⟨_, List.mem_singleton.mp ho⟩
        · rw [List.filterMap_append, told]
          exact List.append_nil _
      | false =>
        have next : p.nextOutput = (.error .clientThreadDoesNotExist, p) := by
          simp only [PyProxyClient.nextOutput, Client.nextOutput, Channel.tryRecv, Channel.queue,
            PyProxyClient.threadRecv, queue, receives]
          rfl
        rw [next, List.append_assoc, ← List.replicate_succ']
        refine .intro outs (n + 1) clean told known fun _ => ⟨receives, Nat.le_antisymm known ?_⟩
        exact List.drop_eq_nil_iff.mp queue

end Outputs

theorem checkThread_same (p : PyProxyClient) :
    p.checkThread.2.thread = p.thread ∧ p.checkThread.2.received = p.received := by
  rcases checkThread_cases p with ⟨-, eq⟩ | ⟨-, -, eq⟩ | ⟨c, res, -, -, eq⟩ <;> simp [eq]

namespace Told

theorem check (h : Told p os) : Told p.checkThread.2 (os ++ [.checked p.checkThread.1]) := by
  obtain ⟨thread, received⟩ := checkThread_same p
  refine ⟨?_, ?_, ?_⟩
  · rw [List.filterMap_append]
    exact h.calls.check
  · rw [List.filterMap_append, h.futures, thread]
    exact List.append_nil _
  · rw [List.filterMap_append, thread, received]
    exact (List.append_nil (os.filterMap Outcome.out)).symm ▸ h.outputs

theorem eval (h : Told p os) (id code : String) (locs globs : List UInt8) :
    Told (p.evalStr id code locs globs).2 (os ++ [.future (p.evalStr id code locs globs).1]) := by
  have out : ∀ res : Except Error Sender,
      (os ++ [Outcome.future res]).filterMap Outcome.out = os.filterMap Outcome.out := by
    intro res
    rw [List.filterMap_append]
    exact List.append_nil _
  have calls : ∀ res : Except Error Sender, (os ++ [Outcome.future res]).filterMap Outcome.call =
      os.filterMap Outcome.call ++ [⟨true, res.map fun _ => ()⟩] := by
    intro res
    rw [List.filterMap_append]
    rfl
  have refused : ∀ e,
      (os ++ [Outcome.future (.error e)]).filterMap Outcome.accepted = os.filterMap Outcome.accepted := by
    intro e
    rw [List.filterMap_append]
    exact List.append_nil _
  have made := evalStr_cases p id code locs globs
  generalize p.evalStr id code locs globs = r at made ⊢
  cases made with
  | refused e check =>
    obtain ⟨thread, received⟩ := checkThread_same p
    refine ⟨?_, ?_, ?_⟩
    · rw [calls]
      rcases checkThread_cases p with ⟨handle, eq⟩ | ⟨-, -, eq⟩ | ⟨c, res, handle, finished, eq⟩
      · rw [eq] at check ⊢
        cases check
        have before := h.calls
        rw [handle] at before ⊢
        exact before.after rfl
      · rw [eq] at check
        cases check
      · rw [eq] at check ⊢
        have before := h.calls
        rw [handle, finished] at before
        rw [finished]
        exact before.joins check.symm
    · rw [refused, thread]
      exact h.futures
    · rw [out, thread, received]
      exact h.outputs
  | closed check handle ended =>
    have before := h.calls
    rw [handle] at before
    refine ⟨?_, ?_, ?_⟩
    · rw [calls, handle]
      exact before.missed ended rfl
    · rw [refused]
      exact h.futures
    · rw [out]
      exact h.outputs
  | accepted check handle receives =>
    have before := h.calls
    rw [handle] at before
    refine ⟨?_, ?_, ?_⟩
    · have next : Calls p.thread true (os.filterMap Outcome.call ++ [⟨true, .ok ()⟩]) :=
        before.served receives rfl
      rw [calls]
      dsimp only
      rw [handle]
      refine next.moves ?_ fun ended => ?_
      · intro c res finished
        rw [finished] at receives
        cases receives
      · rw [receives] at ended
        cases ended
    · rw [List.filterMap_append, h.futures, withLoop_loop]
      exact List.range_succ.symm
    · rw [out]
      refine h.outputs.same (withLoop_receives _ _) ?_
      rw [withLoop_loop]
      rfl

theorem next (h : Told p os) : Told p.nextOutput.2 (os ++ [.output p.nextOutput.1]) := by
  refine ⟨?_, ?_, ?_⟩
  · rw [List.filterMap_append]
    exact (List.append_nil (os.filterMap Outcome.call)).symm ▸ h.calls
  · rw [List.filterMap_append]
    exact (List.append_nil (os.filterMap Outcome.accepted)).symm ▸ h.futures
  · rw [List.filterMap_append]
    exact h.outputs.next

theorem moves (h : Told p os) (alive : ∀ c res, p.thread ≠ .finished c res)
    (lines : p.thread.loop.threadSend <+: t'.loop.threadSend)
    (senders : t'.loop.nextSender = p.thread.loop.nextSender)
    (gone : p.thread.receives = false → t'.receives = false ∧ t'.loop = p.thread.loop) :
    Told { p with thread := t' } os where
  calls := h.calls.moves alive fun ended => (gone ended).1
  futures := senders ▸ h.futures
  outputs := h.outputs.grow lines gone

end Told

theorem step_nextSender (c : Loop) {l : Client.Label} (silent : l.asks = none) :
    (c.step bc l).state.nextSender = c.nextSender := by
  cases l with
  | evalStr => cases silent
  | head io =>
    obtain ⟨o, q, taken⟩ := c.takeCode_frame bc
    obtain ⟨q', f, resolved⟩ := (c.takeCode bc).resolve_frame
    simp only [Loop.step]
    rcases c.head_cases bc io with ⟨-, hs⟩ | ⟨-, -, hs⟩ | ⟨-, -, i, hs⟩
    · rw [hs]
    · rw [hs, taken]
      rfl
    · rw [hs, resolved, taken]
      rfl
  | event ev io =>
    obtain ⟨m, o, t, hs, -⟩ := c.event_frame bc ev io
    simp only [Loop.step]
    rw [hs]

theorem ofFlow_loop (f : Flow Error Loop) : (Background.ofFlow f).loop = f.state := by
  cases f <;> rfl

theorem Told.thread {l : Label} (h : Told p os) (hs : stepThread bc conn p l = some p') : Told p' os := by
  have receiving : ∀ {c}, p.thread = .starting c ∨ p.thread = .looping c → p.thread.receives = true ∧
      p.thread.loop = c ∧ ∀ c res, p.thread ≠ .finished c res := by
    rintro c (h | h) <;> simp [h, Background.receives, Background.loop]
  have running : ∀ {t : Background}, p.thread.receives = true → p.thread.receives = false →
      t.receives = false ∧ t.loop = p.thread.loop := fun yes no => by
    rw [yes] at no
    cases no
  cases l with
  | start io =>
    simp only [stepThread] at hs
    split at hs
    · rename_i c thread
      obtain ⟨receives, loop, alive⟩ := receiving (.inl thread)
      split at hs
      · cases hs
        exact h.moves alive (loop ▸ List.prefix_rfl) (by rw [loop]; rfl) (running receives)
      · cases hs
        exact h.moves alive (loop ▸ List.prefix_rfl) (by rw [loop]; rfl) (running receives)
    · cases hs
  | thread l =>
    simp only [stepThread] at hs
    split at hs
    · rename_i c thread
      obtain ⟨receives, loop, alive⟩ := receiving (.inr thread)
      obtain ⟨answers, eq⟩ := Option.ite_none_right_eq_some.mp hs
      cases eq
      have silent : l.asks = none := by
        cases l with
        | evalStr => cases answers
        | _ => rfl
      refine h.moves alive ?_ ?_ (running receives)
      · rw [loop, ofFlow_loop]
        exact c.step_threadSend bc l
      · rw [loop, ofFlow_loop]
        exact step_nextSender c silent
    · cases hs
  | finish =>
    simp only [stepThread] at hs
    split at hs
    · rename_i c res thread
      cases hs
      refine h.moves (by simp [thread]) ?_ ?_ fun _ => ?_ <;> rw [thread]
      · exact List.prefix_rfl
      · rfl
      · exact ⟨rfl, rfl⟩
    · cases hs
  | _ => cases hs

theorem Told.process {l : Label} {s : Handle} (h : Told p os) (client : s.client = some p)
    (hs : stepProcess p l = some p') : Told p' (os ++ outcome s l) := by
  have silent : ∀ {q : PyProxyClient}, q.thread = p.thread → q.handle = p.handle → q.received = p.received →
      Told q (os ++ []) := by
    intro q thread handle received
    rw [List.append_nil]
    refine ⟨?_, ?_, ?_⟩
    · rw [thread, handle]
      exact h.calls
    · rw [thread]
      exact h.futures
    · rw [thread, received]
      exact h.outputs
  cases l with
  | checkThread =>
    cases hs
    simp only [outcome, client, Option.toList_some, List.map_singleton]
    exact h.check
  | evalStr id code locs globs =>
    cases hs
    simp only [outcome, client, Option.toList_some, List.map_singleton]
    exact h.eval id code locs globs
  | nextOutput =>
    cases hs
    simp only [outcome, client, Option.toList_some, List.map_singleton]
    exact h.next
  | disconnect =>
    cases hs
    refine silent ?_ ?_ ?_ <;> (simp only [PyProxyClient.disconnect]; split <;> rfl)
  | drop =>
    cases hs
    exact silent rfl rfl rfl
  | _ => cases hs

inductive StepCase (bc : Bincode) (s : Handle) : Label → Handle → Prop where
  | new (spawn) : StepCase bc s (.new spawn) (s.new spawn).2
  | thread (l p p') (client : s.client = some p) (moved : stepThread bc s.conn p l = some p') :
      StepCase bc s l { s with client := some p' }
  | process (l p p') (client : s.client = some p) (held : p.dropped = false) (called : stepProcess p l = some p') :
      StepCase bc s l { s with client := some p' }

theorem step_cases {s s' : Handle} {l : Label} (h : step bc s l = some s') : StepCase bc s l s' := by
  have known : ∀ {l : Label}, (match s.client with
      | none => none
      | some p =>
        match stepThread bc s.conn p l with
        | some p => some { s with client := some p }
        | none => if p.dropped then none else (stepProcess p l).map fun p => { s with client := some p }) = some s' →
      StepCase bc s l s' := by
    intro l h
    cases client : s.client with
    | none => simp [client] at h
    | some p =>
      simp only [client] at h
      cases moved : stepThread bc s.conn p l with
      | some p' =>
        rw [moved] at h
        cases h
        exact .thread l p p' client moved
      | none =>
        rw [moved] at h
        obtain ⟨held, h⟩ := Option.ite_none_left_eq_some.mp h
        obtain ⟨p', called, rfl⟩ := Option.map_eq_some_iff.mp h
        exact .process l p p' client (Bool.not_eq_true _ ▸ held) called
  cases l with
  | new spawn =>
    cases h
    exact .new spawn
  | _ => exact known h

theorem thread_silent {s : Handle} {l : Label} (moved : stepThread bc conn p l = some p') : outcome s l = [] := by
  cases l with
  | start => rfl
  | thread => rfl
  | finish => rfl
  | _ => cases moved

structure Reported (s : Handle) (os : List Outcome) : Prop where
  opened : Opened s.inner s.client.isSome (os.filterMap Outcome.opening)
  told : ∀ p, s.client = some p → Told p os
  unmade : s.client = none → ∀ o ∈ os, ∃ res, o = .opened res

theorem process_opening {s : Handle} {l : Label} (client : s.client = some p) (called : stepProcess p l = some p') :
    (outcome s l).filterMap Outcome.opening = [] := by
  cases l with
  | new => cases called
  | checkThread => simp [outcome, client, Outcome.opening]
  | evalStr => simp [outcome, client, Outcome.opening]
  | nextOutput => simp [outcome, client, Outcome.opening]
  | _ => rfl

theorem Opened.again {b : Bool} {opens : List (Except Error Unit)} (h : Opened false b opens) :
    Opened false b (opens ++ [.error .missingMainStream]) := by
  cases h with
  | used first n open_ =>
    rw [List.cons_append, ← List.replicate_succ']
    exact .used first (n + 1) open_

theorem Opened.first {b : Bool} {opens : List (Except Error Unit)} (h : Opened true b opens) :
    b = false ∧ opens = [] := by
  cases h
  exact ⟨rfl, rfl⟩

theorem Reported.new {s : Handle} (h : Reported s os) (spawn : IoResult Unit) :
    Reported (s.new spawn).2 (os ++ [.opened (s.new spawn).1]) := by
  have opening : ∀ res, (os ++ [Outcome.opened res]).filterMap Outcome.opening =
      os.filterMap Outcome.opening ++ [res] := by
    intro res
    rw [List.filterMap_append]
    rfl
  have kept : ∀ {p res}, Told p os → Told p (os ++ [.opened res]) := by
    intro p res told
    refine ⟨?_, ?_, ?_⟩
    · rw [List.filterMap_append]
      exact (List.append_nil (os.filterMap Outcome.call)).symm ▸ told.calls
    · rw [List.filterMap_append]
      exact (List.append_nil (os.filterMap Outcome.accepted)).symm ▸ told.futures
    · rw [List.filterMap_append]
      exact (List.append_nil (os.filterMap Outcome.out)).symm ▸ told.outputs
  have more : ∀ {res}, (∀ o ∈ os, ∃ res, o = .opened res) →
      ∀ o ∈ os ++ [Outcome.opened res], ∃ res, o = .opened res := by
    intro res all o ho
    rcases List.mem_append.mp ho with ho | ho
    · exact all o ho
    · exact ⟨res, List.mem_singleton.mp ho⟩
  obtain ⟨conn, inner, client⟩ := s
  have opened := h.opened
  dsimp only at opened
  cases inner with
  | false =>
    refine ⟨?_, fun p hp => kept (h.told p hp), fun none => more (h.unmade none)⟩
    rw [opening]
    exact opened.again
  | true =>
    obtain ⟨unmade, fresh⟩ := opened.first
    obtain rfl := Option.not_isSome_iff_eq_none.mp (ne_true_of_eq_false unmade)
    have only := h.unmade rfl
    cases spawn with
    | error e =>
      refine ⟨?_, fun p hp => (by cases hp), fun _ => more only⟩
      rw [opening, fresh]
      exact .used (.error (.io "PyProxyClient failed to spawn OS thread" e)) 0 (.inr ⟨e, rfl⟩)
    | ok u =>
      refine ⟨?_, fun p hp => ?_, fun made => (by cases made)⟩
      · rw [opening, fresh]
        exact .used (.ok ()) 0 (.inl rfl)
      · cases hp
        have empty : ∀ {β : Type} (f : Outcome → Option β), (∀ res, f (.opened res) = none) →
            (os ++ [Outcome.opened (.ok ())]).filterMap f = [] := by
          intro β f hf
          rw [List.filterMap_eq_nil_iff]
          intro o ho
          obtain ⟨res, rfl⟩ := more only o ho
          exact hf res
        refine ⟨?_, ?_, ?_⟩
        · rw [show ((⟨conn, true, none⟩ : Handle).new (.ok u)).1 = .ok () from rfl, empty Outcome.call fun _ => rfl]
          exact .serving _ [] rfl (List.forall_mem_nil _)
        · exact empty Outcome.accepted fun _ => rfl
        · rw [show ((⟨conn, true, none⟩ : Handle).new (.ok u)).1 = .ok () from rfl, empty Outcome.out fun _ => rfl]
          exact .intro [] 0 (List.forall_mem_nil _) rfl (Nat.zero_le _) fun hn => absurd rfl hn

theorem Reported.step {s s' : Handle} {l : Label} (h : Reported s os) (hs : step bc s l = some s') :
    Reported s' (os ++ outcome s l) := by
  have opened : ∀ {p p' l}, s.client = some p → (outcome s l).filterMap Outcome.opening = [] →
      Opened s.inner (some p' : Option PyProxyClient).isSome ((os ++ outcome s l).filterMap Outcome.opening) := by
    intro p p' l client quiet
    have before := h.opened
    rw [client] at before
    rw [List.filterMap_append, quiet, List.append_nil]
    exact before
  cases step_cases hs with
  | new spawn => exact h.new spawn
  | thread l p p' client moved =>
    refine ⟨opened client (by rw [thread_silent moved]; rfl), fun q hq => ?_, fun none => (by cases none)⟩
    cases hq
    rw [thread_silent moved, List.append_nil]
    exact (h.told p client).thread moved
  | process l p p' client held called =>
    refine ⟨opened client (process_opening client called), fun q hq => ?_, fun none => (by cases none)⟩
    cases hq
    exact (h.told p client).process client called

-- an error that is not of a closed session is told once, and from then on the session is closed
theorem Calls.told_once {b : Bool} (h : Calls t b cs) {pre post : List Call} {c : Call} {e : Error}
    (split : cs = pre ++ c :: post) (fails : c.res = .error e) (own : e.exception ≠ .pyProxyClosedSessionError) :
    (∀ d ∈ pre, d.res = .ok () ∨ d.res = .error .threadClosed) ∧
      ∀ d ∈ post, d.res = .error .clientThreadDoesNotExist := by
  have early : ∀ {before during : List Call}, (∀ c ∈ before, c.res = .ok ()) → (∀ c ∈ during, late c) →
      ∀ d ∈ before ++ during, d.res = .ok () ∨ d.res = .error .threadClosed := by
    intro before during ok closed d hd
    rcases List.mem_append.mp hd with hd | hd
    · exact .inl (ok d hd)
    · have now := closed d hd
      rw [late] at now
      split at now
      · exact .inr now
      · exact .inl now
  have proper : c.res ≠ .ok () ∧ c.res ≠ .error .threadClosed ∧ c.res ≠ .error .clientThreadDoesNotExist := by
    rw [fails]
    refine ⟨by simp, fun h => ?_, fun h => ?_⟩
    · cases h
      exact own rfl
    · cases h
      exact own rfl
  cases h with
  | serving _ _ receives ok => exact absurd (ok c (by simp [split])) proper.1
  | ending _ before during ended ok closed =>
    rcases early ok closed c (by simp [split]) with h | h
    · exact absurd h proper.1
    · exact absurd h proper.2.1
  | finished lp res before during after n ok closed told =>
    cases after with
    | nil => cases told
    | cons first rest =>
      rw [List.map_cons, List.cons.injEq] at told
      have ends : ∀ d ∈ rest, d.res = .error .clientThreadDoesNotExist := fun d hd =>
        List.eq_of_mem_replicate (told.2 ▸ List.mem_map_of_mem hd)
      rcases List.append_eq_append_iff.mp split with ⟨mid, hpre, hafter⟩ | ⟨mid, hbefore, hpost⟩
      · cases mid with
        | nil =>
          rw [List.append_nil] at hpre
          rw [List.nil_append] at hafter
          cases hafter
          exact ⟨hpre ▸ early ok closed, ends⟩
        | cons d mid =>
          rw [List.cons_append, List.cons.injEq] at hafter
          have inside : c ∈ rest := by rw [hafter.2]; simp
          exact absurd (ends c inside) proper.2.2
      · cases mid with
        | nil =>
          rw [List.append_nil] at hbefore
          rw [List.nil_append] at hpost
          cases hpost
          exact ⟨hbefore ▸ early ok closed, ends⟩
        | cons d mid =>
          rw [List.cons_append, List.cons.injEq] at hpost
          have inside : c ∈ before ++ during := by rw [hbefore, hpost.1]; simp
          rcases early ok closed c inside with h | h
          · exact absurd h proper.1
          · exact absurd h proper.2.1

theorem reported_run {ls : List Label} {s : Handle}
    (run : ((machine bc conn).traced outcome).exec ls = some (s, os)) : Reported s os := by
  refine @Machine.invariant _ _ _ (fun q => Reported q.1 q.2) ?_ (fun q l q' reported hl => ?_) ls (s, os) run
  · exact ⟨.unused, fun p hp => (by cases hp), fun _ => List.forall_mem_nil _⟩
  · obtain ⟨hs, trace⟩ := Machine.traced_step hl
    rw [trace]
    exact reported.step hs

theorem calls_told {ls : List Label} {s : Handle}
    (run : ((machine bc conn).traced outcome).exec ls = some (s, os)) :
    Opened s.inner s.client.isSome (os.filterMap Outcome.opening) ∧
      ∀ p, s.client = some p → Told p os ∧
        ∀ before c after e, os.filterMap Outcome.call = before ++ c :: after → c.res = .error e →
          e.exception ≠ .pyProxyClosedSessionError →
            (∀ d ∈ before, d.res = .ok () ∨ d.res = .error .threadClosed) ∧
              ∀ d ∈ after, d.res = .error .clientThreadDoesNotExist := by
  have reported := reported_run run
  refine ⟨reported.opened, fun p client => ⟨reported.told p client, ?_⟩⟩
  intro before c after e split fails own
  exact (reported.told p client).calls.told_once split fails own

def started : StartIo := ⟨⟨.ok (), .ok (), [], .ok ()⟩, .ok (), .ok (), .ok ()⟩

-- one evaluation, and a thread whose poll fails
def pollFails : List Label := [.new (.ok ()), .start started, .evalStr "a" "x" [] [],
  .thread (.head ⟨.empty, false, .ok (), .error .other⟩), .evalStr "b" "y" [] [], .finish, .checkThread,
  .evalStr "c" "z" [] [], .new (.ok ())]

theorem calls_told_pollFails : ∃ s os,
    ((machine fixint ⟨"s", "t", "o"⟩).traced outcome).exec pollFails = some (s, os) ∧
      os.filterMap Outcome.call = [⟨true, .ok ()⟩, ⟨true, .error .threadClosed⟩,
        ⟨false, .error (.io "failed to call mio poll" .other)⟩, ⟨true, .error .clientThreadDoesNotExist⟩] ∧
      Opened false true (os.filterMap Outcome.opening) ∧
      ∀ d ∈ [(⟨true, .error .clientThreadDoesNotExist⟩ : Call)], d.res = .error .clientThreadDoesNotExist := by
  have run : ((machine fixint ⟨"s", "t", "o"⟩).traced outcome).exec pollFails =
      some (⟨⟨"s", "t", "o"⟩, false, some _⟩, _) := rfl
  obtain ⟨opened, told⟩ := calls_told run
  obtain ⟨-, once⟩ := told _ rfl
  refine ⟨_, _, run, rfl, opened, ?_⟩
  exact (once [⟨true, .ok ()⟩, ⟨true, .error .threadClosed⟩] _ [⟨true, .error .clientThreadDoesNotExist⟩]
    (.io "failed to call mio poll" .other) rfl rfl (by decide)).2

end Handle
end PyProxy.Client
