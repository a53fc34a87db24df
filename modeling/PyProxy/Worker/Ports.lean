import PyProxy.Worker.RunForever

namespace PyProxy.Worker
open Stream Protocol Server Poll

structure Port where
  stream : Sock
  inbuffer : List UInt8
  sessionId : String
  reqMsgs : List RequestMessage

def ClientStream.port (s : ClientStream) : Port := ⟨s.stream, s.inbuffer, s.sessionId, s.reqMsgs⟩

def portOf (m : AList fun _ : Token => ClientStream) (tk : Token) : Option Port :=
  (m.lookup tk).map ClientStream.port

theorem portOf_insert (m : AList fun _ : Token => ClientStream) (tk tk' : Token)
    (cs : ClientStream) : portOf (m.insert tk cs) tk' = if tk' = tk then some cs.port else portOf m tk' := by
  by_cases h : tk' = tk
  · subst h
    simp [portOf]
  · simp [portOf, h, AList.lookup_insert_ne h]

theorem portOf_insert_same {m : AList fun _ : Token => ClientStream} {tk : Token}
    {cs cs' : ClientStream} (h : m.lookup tk = some cs) (hp : cs'.port = cs.port) (tk' : Token) :
    portOf (m.insert tk cs') tk' = portOf m tk' := by
  rw [portOf_insert]
  split
  · rename_i ht
    subst ht
    simp [portOf, h, hp]
  · rfl

namespace Loop

def port (c : Loop) (tk : Token) : Option Port := portOf c.clientStreams tk

def input (c : Loop) (k : Sock) : List UInt8 := (c.os.source k).input

structure Same (c c' : Loop) : Prop where
  input : ∀ k, c'.input k = c.input k
  next : c'.os.next = c.os.next
  unix : c'.workerStream.stream = c.workerStream.stream
  sockets : c'.workerStream.sockets = c.workerStream.sockets
  tokenIo : c'.tokenIo = c.tokenIo
  port : ∀ tk, c'.port tk = c.port tk
  sent : c'.threadSender = c.threadSender

structure Frame (c c' : Loop) : Prop where
  next : c'.os.next = c.os.next
  unix : c'.workerStream.stream = c.workerStream.stream
  sockets : c'.workerStream.sockets = c.workerStream.sockets
  tokenIo : c'.tokenIo = c.tokenIo
  port : ∀ tk, c'.port tk = c.port tk
  sent : c'.threadSender = c.threadSender

theorem Same.frame {c c' : Loop} (h : Same c c') : Frame c c' :=
  ⟨h.next, h.unix, h.sockets, h.tokenIo, h.port, h.sent⟩

theorem Same.refl (c : Loop) : Same c c := ⟨fun _ => rfl, rfl, rfl, rfl, rfl, fun _ => rfl, rfl⟩

theorem Same.trans {a b c : Loop} (h : Same a b) (g : Same b c) : Same a c where
  input k := (g.input k).trans (h.input k)
  next := g.next.trans h.next
  unix := g.unix.trans h.unix
  sockets := g.sockets.trans h.sockets
  tokenIo := g.tokenIo.trans h.tokenIo
  port tk := (g.port tk).trans (h.port tk)
  sent := g.sent.trans h.sent

theorem same_os {c : Loop} {os : World Token UInt8} (input : ∀ k, (os.source k).input = c.input k)
    (next : os.next = c.os.next) : Same c { c with os := os } :=
  ⟨input, next, rfl, rfl, rfl, fun _ => rfl, rfl⟩

theorem same_attach {c : Loop} {os : World Token UInt8} {k : Sock} {tk : Token} {i : Interest}
    (h : os = c.os.modify k (·.attach tk i)) : Same c { c with os := os } := by
  subst h
  exact same_os (World.modify_input _ _ fun _ => rfl) rfl

theorem same_drop (c : Loop) (tk : Token) (cs : ClientStream) : Same c (c.drop tk cs) := by
  have h : Same c { c with os := c.os.deregister cs.stream } :=
    same_os (World.modify_input _ _ fun _ => rfl) rfl
  exact ⟨h.input, h.next, h.unix, h.sockets, h.tokenIo, h.port, h.sent⟩

theorem Same.dropIfErr {c d : Loop} (h : Same d c) (tk : Token) (cs : ClientStream)
    (res : Except Error Unit) : Same d (c.dropIfErr tk cs res) := by
  cases res with
  | ok => exact h
  | error => exact h.trans (same_drop c tk cs)

theorem dropIfErr_clientStreams (c : Loop) (tk : Token) (cs : ClientStream)
    (res : Except Error Unit) : (c.dropIfErr tk cs res).clientStreams = c.clientStreams := by
  cases res <;> rfl

theorem same_updateInterest {c c' : Loop} {refused : Bool}
    (h : c.updateInterest refused = .ok c') : Same c c' := by
  rcases updateInterest_cases h with rfl | ⟨i, os, -, hr, rfl⟩
  · exact Same.refl c'
  · obtain ⟨-, hos⟩ := World.reregister_some hr
    have hs : Same c { c with os := os } := same_attach hos
    exact ⟨hs.input, hs.next, hs.unix, hs.sockets, hs.tokenIo, hs.port, hs.sent⟩

theorem same_setStreamInterest {c d : Loop} {tk : Token} {cs : ClientStream}
    (h : Same d { c with clientStreams := c.clientStreams.insert tk cs }) (refused : Bool)
    (i : Interest) : Same d (c.setStreamInterest tk cs refused i) := by
  apply h.trans
  have hp : ∀ tk', ({ c with clientStreams := c.clientStreams.insert tk (cs.setInterest i) } :
      Loop).port tk' = ({ c with clientStreams := c.clientStreams.insert tk cs } : Loop).port tk' := by
    intro tk'
    simp only [port, portOf_insert]
    rfl
  simp only [setStreamInterest]
  cases hr : c.os.reregister refused cs.stream tk i with
  | none => exact ⟨fun _ => rfl, rfl, rfl, rfl, rfl, hp, rfl⟩
  | some os =>
    obtain ⟨-, hos⟩ := World.reregister_some hr
    have hs : Same c { c with os := os } := same_attach hos
    exact ⟨hs.input, hs.next, hs.unix, hs.sockets, hs.tokenIo, hp, rfl⟩

variable (env : Env)

theorem sendMsgs (tk : Token) (sessionId : String) (ts : Nat → String) (msgs : List RequestMessage)
    (c : Loop) : ∃ o, msgs.foldl (sendMsg env tk sessionId ts) c = { c with
      workerStream := { c.workerStream with outbuffer := o }
      threadSender := c.threadSender ++ msgs.map fun msg => ⟨tk, sessionId, msg⟩ } := by
  induction msgs generalizing c with
  | nil => exact ⟨c.workerStream.outbuffer, by simp⟩
  | cons msg msgs ih =>
    obtain ⟨o, ho⟩ := ih (c.sendMsg env tk sessionId ts msg)
    refine ⟨o, ?_⟩
    rw [List.foldl_cons, ho]
    simp [sendMsg, WorkerStream.info, WorkerStream.log, WorkerStream.newMsg]

def forwarded (c : Loop) (tk : Token) (cs : ClientStream) : Loop :=
  { c with
    clientStreams := c.clientStreams.insert tk { cs with reqMsgs := [] }
    threadSender := c.threadSender ++ cs.reqMsgs.map fun msg => ⟨tk, cs.sessionId, msg⟩ }

theorem forward_none {c : Loop} {tk : Token} (io : HeadIo) (h : c.clientStreams.lookup tk = none) :
    c.forward env io tk = c := by simp [forward, h]

theorem forward_some {c : Loop} {tk : Token} {cs : ClientStream} (io : HeadIo)
    (h : c.clientStreams.lookup tk = some cs) :
    Same (c.forwarded tk cs) (c.forward env io tk) := by
  obtain ⟨o, ho⟩ := sendMsgs env tk cs.sessionId io.queueTs cs.reqMsgs c
  have base : Same (c.forwarded tk cs) { c with
      workerStream := { c.workerStream with outbuffer := o }
      threadSender := c.threadSender ++ cs.reqMsgs.map fun msg => ⟨tk, cs.sessionId, msg⟩
      clientStreams := c.clientStreams.insert tk { cs with reqMsgs := [] } } :=
    ⟨fun _ => rfl, rfl, rfl, rfl, rfl, fun _ => rfl, rfl⟩
  simp only [forward, h, ho]
  split
  · exact same_setStreamInterest base _ _
  · split
    · exact same_setStreamInterest base _ _
    · exact base

theorem takeStream_cases (io : HeadIo) (c : Loop) (msg : Vector UInt8 requestHeaderSize × Sock) :
    c.takeStream env io msg = c ∨
      c.takeStream env io msg = { c with tokenIo := c.tokenIo + 1 } ∨
      ∃ cs, cs.port = ⟨msg.2, [], cs.sessionId, []⟩ ∧ cs.interest = ro ∧
        (c.os.source msg.2).reg = none ∧ cs.sessionId = env.hex (io.rng c.tokenIo).toList ∧
        c.takeStream env io msg = c.addStream env (io.newStreamTs c.tokenIo) cs
          (c.os.modify msg.2 (·.attach c.tokenIo ro)) := by
  simp only [takeStream]
  cases hn : ClientStream.new env.bc env.hex env.cfg msg.1 msg.2 ro (io.rng c.tokenIo) with
  | error e => exact .inl rfl
  | ok cs =>
    obtain ⟨hstream, hin, hreq, hint, hid⟩ := ClientStream.new_fields _ hn
    dsimp only
    cases hr : c.os.register (io.registerRefused c.tokenIo) cs.stream c.tokenIo ro with
    | none => exact .inr (.inl rfl)
    | some os =>
      obtain ⟨hreg, hos⟩ := World.register_some hr
      rw [hstream] at hreg hos
      refine .inr (.inr ⟨cs, ?_, hint, hreg, hid, by rw [hos]⟩)
      simp [ClientStream.port, hstream, hin, hreq]

structure Near (fds : List Sock) (c c' : Loop) : Prop where
  input : ∀ k, k ≠ c.workerStream.stream → c'.input k = c.input k
  next : c'.os.next = c.os.next
  unix : c'.workerStream.stream = c.workerStream.stream
  sockets : c'.workerStream.sockets = c.workerStream.sockets ∨
    c'.workerStream.sockets = c.workerStream.sockets ++ fds
  tokenIo : c'.tokenIo = c.tokenIo
  port : ∀ tk, c'.port tk = c.port tk
  sent : c'.threadSender = c.threadSender

theorem workerRead_near (c : Loop) (ev : Event) (io : EventIo) :
    Near io.fds c (c.workerRead ev io).2 := by
  simp only [workerRead]
  split
  · refine ⟨?_, rfl, ?_, c.workerStream.read_sockets _ _, rfl, fun _ => rfl, rfl⟩
    · intro k hk
      exact congrArg Source.input (c.os.read_other _ _ hk)
    · exact c.workerStream.read_stream _ _
  · exact ⟨fun _ _ => rfl, rfl, rfl, .inl rfl, rfl, fun _ => rfl, rfl⟩

theorem workerWrite_same (c : Loop) (ev : Event) (io : EventIo) :
    Same c (c.workerWrite ev io).2 := by
  simp only [workerWrite]
  split
  · have hs : Same c { c with os := (c.os.write c.workerStream.stream
        c.workerStream.outbuffer.length io.write).2 } :=
      same_os (World.modify_input _ _ fun s => s.put_input _ _) rfl
    generalize c.os.write c.workerStream.stream c.workerStream.outbuffer.length io.write = r at hs ⊢
    obtain ⟨_ | n, os⟩ := r
    · exact hs
    · exact ⟨hs.input, hs.next, rfl, rfl, rfl, fun _ => rfl, rfl⟩
  · exact Same.refl c

def received (c : Loop) (tk : Token) (cs : ClientStream) (n : Nat) : Loop :=
  let parsed := (ClientStream.framer env.bc).drain (cs.inbuffer ++ (c.input cs.stream).take n)
  { c with
    os := c.os.modify cs.stream fun s => { s with input := s.input.drop n }
    clientStreams := c.clientStreams.insert tk
      { cs with inbuffer := parsed.rest, reqMsgs := cs.reqMsgs ++ parsed.msgs } }

theorem clientRead_spec {c : Loop} {ev : Event} {cs : ClientStream} (io : EventIo)
    (h : c.clientStreams.lookup ev.token = some cs) :
    (c.clientRead env ev cs io).1.clientStreams.lookup ev.token = some (c.clientRead env ev cs io).2 ∧
      (Same c (c.clientRead env ev cs io).1 ∨
        ∃ n, Same (c.received env ev.token cs n) (c.clientRead env ev cs io).1) := by
  simp only [clientRead]
  split
  · have stale : ∀ {os : World Token UInt8}, World.SameInput c.os os → Same c { c with
        os := os, clientStreams := c.clientStreams.insert ev.token cs } := fun hos =>
      ⟨hos.1, hos.2, rfl, rfl, rfl, portOf_insert_same h rfl, rfl⟩
    constructor
    · rw [dropIfErr_clientStreams]
      exact AList.lookup_insert _
    · have pos : 0 < bufferSize := by decide
      rcases c.os.read_cases cs.stream pos io.read with
        ⟨e, os, he, hos⟩ | ⟨os, he, hos⟩ | ⟨n, os, he, hne, hos⟩
      · left
        rw [he]
        dsimp only
        exact (stale hos).dropIfErr _ _ _
      · left
        rw [he]
        dsimp only
        exact (stale hos).dropIfErr _ _ _
      · right
        refine ⟨n, ?_⟩
        rw [he]
        dsimp only
        apply Same.dropIfErr
        obtain ⟨hin, hreq⟩ := cs.read_bytes env.bc _ hne
        obtain ⟨hstream, hid, -⟩ := cs.read_fields env.bc (.ok ((c.os.source cs.stream).input.take n))
        refine ⟨hos.1, hos.2, rfl, rfl, rfl, fun tk => ?_, rfl⟩
        simp only [received, port, portOf_insert, ClientStream.port, hin, hreq, hstream, hid]
        rfl
  · exact ⟨h, .inl (Same.refl c)⟩

theorem clientWrite_same {c : Loop} {ev : Event} {cs : ClientStream} (io : EventIo)
    (h : c.clientStreams.lookup ev.token = some cs) : Same c (c.clientWrite ev cs io) := by
  simp only [clientWrite]
  split
  · have hs : Same c { c with os := (c.os.write cs.stream cs.outbuffer.length io.write).2 } :=
      same_os (World.modify_input _ _ fun s => s.put_input _ _) rfl
    generalize c.os.write cs.stream cs.outbuffer.length io.write = r at hs ⊢
    obtain ⟨_ | n, os⟩ := r
    · exact hs.trans (same_drop _ _ _)
    · exact ⟨hs.input, hs.next, rfl, rfl, rfl, portOf_insert_same h rfl, rfl⟩
  · exact Same.refl c

theorem event_kept (c : Loop) (ev : Event) (io : EventIo) :
    (c.event env ev io).state.threadSender = c.threadSender ∧
      (c.event env ev io).state.tokenIo = c.tokenIo := by
  simp only [event]
  split
  · have read := c.workerRead_near ev io
    generalize c.workerRead ev io = r at read ⊢
    obtain ⟨_ | u, d⟩ := r
    · exact ⟨read.sent, read.tokenIo⟩
    · have write := d.workerWrite_same ev io
      dsimp only at read ⊢
      generalize d.workerWrite ev io = r at write ⊢
      obtain ⟨_ | u, d'⟩ := r <;>
        exact ⟨write.sent.trans read.sent, write.tokenIo.trans read.tokenIo⟩
  · cases hl : c.clientStreams.lookup ev.token with
    | none => exact ⟨rfl, rfl⟩
    | some cs =>
      obtain ⟨held, same⟩ := c.clientRead_spec env io hl
      have write := clientWrite_same io held
      rcases same with same | ⟨n, same⟩ <;>
        exact ⟨write.sent.trans same.sent, write.tokenIo.trans same.tokenIo⟩

end Loop
end PyProxy.Worker
