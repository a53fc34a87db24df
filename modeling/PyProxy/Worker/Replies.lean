import PyProxy.Worker.Delivery

namespace PyProxy.Worker
open Stream Protocol Server Poll

-- what a client stream has for its client, and who that client is
structure Front where
  stream : Sock
  sessionId : String
  outbuffer : List UInt8

def ClientStream.front (s : ClientStream) : Front := ⟨s.stream, s.sessionId, s.outbuffer⟩

def Front.wrote (f : Front) (n : Nat) : Front := { f with outbuffer := f.outbuffer.drop n }

def Env.hello (env : Env) (rnd : Vector UInt8 sessionIdLength) : ResponseClientHello :=
  ⟨env.hex rnd.toList, env.hex rnd.toList, env.cfg.outputAddr⟩

def Env.serverHello (env : Env) (rnd : Vector UInt8 sessionIdLength) : List UInt8 :=
  (ResponseMessageHeader.new .hello 0
    (env.bc.responseClientHello.serialize (env.hello rnd)).length 1).intoBuf.toList ++
      env.bc.responseClientHello.serialize (env.hello rnd)

theorem ClientStream.new_front {env : Env} {header : Vector UInt8 requestHeaderSize} {stream : Sock}
    {interest : Interest} {rnd : Vector UInt8 sessionIdLength} {cs : ClientStream}
    (h : new env.bc env.hex env.cfg header stream interest rnd = .ok cs) :
    cs.front = ⟨stream, env.hex rnd.toList, env.serverHello rnd⟩ := by
  simp only [new] at h
  split at h
  · cases h
  · split at h
    · cases h
      rfl
    · cases h

theorem ClientStream.read_front (bc : Bincode) (s : ClientStream) (r : IoResult (List UInt8)) :
    (s.read bc r).2.front = s.front := by
  rcases r with e | _ | ⟨b, bs⟩
  · rfl
  · rfl
  · simp only [read]
    split <;> rfl

namespace Loop

def front (c : Loop) (tk : Token) : Option Front := (c.clientStreams.lookup tk).map ClientStream.front

theorem lookup_insert_map {β : Type} (f : ClientStream → β) (m : AList fun _ : Token => ClientStream)
    (tk tk' : Token) (cs : ClientStream) : ((m.insert tk cs).lookup tk').map f =
      if tk' = tk then some (f cs) else (m.lookup tk').map f := by
  by_cases h : tk' = tk
  · subst h
    simp
  · simp [h, AList.lookup_insert_ne h]

theorem front_insert {c : Loop} {m : AList fun _ : Token => ClientStream} {tk : Token} {cs : ClientStream}
    (h : c.clientStreams = m.insert tk cs) (tk' : Token) :
    c.front tk' = if tk' = tk then some cs.front else (m.lookup tk').map ClientStream.front := by
  rw [front, h]
  exact lookup_insert_map ..

variable {env : Env} {c c' : Loop}

theorem front_kept {tk : Token} {cs cs' : ClientStream} (found : c.clientStreams.lookup tk = some cs)
    (same : cs'.front = cs.front) (h : c'.clientStreams = c.clientStreams.insert tk cs') (tk' : Token) :
    c'.front tk' = c.front tk' := by
  rw [front_insert h]
  split
  · rename_i ht
    subst ht
    simp [front, found, same]
  · rfl

theorem forward_front (io : HeadIo) (c : Loop) (tk tk' : Token) :
    (c.forward env io tk).front tk' = c.front tk' := by
  cases found : c.clientStreams.lookup tk with
  | none => rw [c.forward_none env io found]
  | some cs =>
    obtain ⟨o, sent⟩ := sendMsgs env tk cs.sessionId io.queueTs cs.reqMsgs c
    have insert : ∃ cs', cs'.front = cs.front ∧
        (c.forward env io tk).clientStreams = c.clientStreams.insert tk cs' := by
      simp only [forward, found, sent]
      split
      · refine ⟨{ cs with reqMsgs := [], interest := rw }, rfl, ?_⟩
        simp only [setStreamInterest]
        split <;> rfl
      · split
        · refine ⟨{ cs with reqMsgs := [], interest := ro }, rfl, ?_⟩
          simp only [setStreamInterest]
          split <;> rfl
        · exact ⟨{ cs with reqMsgs := [] }, rfl, rfl⟩
    obtain ⟨cs', same, h⟩ := insert
    exact front_kept found same h tk'

def Bounded (c : Loop) : Prop := ∀ tk, c.tokenIo ≤ tk → c.front tk = none

-- the streams of `c'` are those of `c`, with what they have to say, and new ones about to say hello
structure Greets (env : Env) (c c' : Loop) : Prop where
  bounded : c'.Bounded
  fronts : ∀ tk, c'.front tk = c.front tk ∨
    c.front tk = none ∧ ∃ k rnd, c'.front tk = some ⟨k, env.hex rnd.toList, env.serverHello rnd⟩

theorem Greets.refl (h : c.Bounded) : Greets env c c := ⟨h, fun _ => .inl rfl⟩

theorem Greets.trans {c'' : Loop} (h : Greets env c c') (h' : Greets env c' c'') : Greets env c c'' := by
  refine ⟨h'.bounded, fun tk => ?_⟩
  rcases h'.fronts tk with same | ⟨fresh, hello⟩
  · rw [same]
    exact h.fronts tk
  · refine .inr ⟨?_, hello⟩
    rcases h.fronts tk with same | ⟨none, -⟩
    · rw [← same, fresh]
    · exact none

theorem Greets.congr {c'' : Loop} (h : Greets env c c') (fronts : ∀ tk, c''.front tk = c'.front tk)
    (tokenIo : c''.tokenIo = c'.tokenIo) : Greets env c c'' := by
  refine ⟨fun tk hle => ?_, fun tk => ?_⟩
  · rw [tokenIo] at hle
    rw [fronts, h.bounded tk hle]
  · rw [fronts]
    exact h.fronts tk

theorem takeStream_greets (io : HeadIo) (msg : Vector UInt8 requestHeaderSize × Sock) (h : c.Bounded) :
    Greets env c (c.takeStream env io msg) := by
  simp only [takeStream]
  cases hn : ClientStream.new env.bc env.hex env.cfg msg.1 msg.2 ro (io.rng c.tokenIo) with
  | error e => exact .refl h
  | ok cs =>
    dsimp only
    cases c.os.register (io.registerRefused c.tokenIo) cs.stream c.tokenIo ro with
    | none => exact ⟨fun tk hle => h tk (Nat.le_of_succ_le hle), fun tk => .inl rfl⟩
    | some os =>
      have fronts := fun tk => @front_insert (c.addStream env (io.newStreamTs c.tokenIo) cs os)
        c.clientStreams c.tokenIo cs rfl tk
      refine ⟨fun tk hle => ?_, fun tk => ?_⟩
      · rw [fronts, if_neg (Nat.ne_of_gt hle)]
        exact h tk (Nat.le_of_succ_le hle)
      · by_cases ht : tk = c.tokenIo
        · refine .inr ⟨h tk (Nat.le_of_eq ht.symm), msg.2, io.rng c.tokenIo, ?_⟩
          rw [fronts, if_pos ht, ClientStream.new_front hn]
        · refine .inl ?_
          rw [fronts, if_neg ht]
          rfl

theorem takeStreams_greets (io : HeadIo) (h : c.Bounded) : Greets env c (c.takeStreams env io) := by
  have fold : ∀ (msgs : List (Vector UInt8 requestHeaderSize × Sock)) (c : Loop), c.Bounded →
      Greets env c (msgs.foldl (takeStream env io) c) := by
    intro msgs
    induction msgs with
    | nil => exact fun c h => .refl h
    | cons msg msgs ih =>
      intro c h
      have one := @takeStream_greets env c io msg h
      exact one.trans (ih _ one.bounded)
  have all := fold c.workerStream.newMsgs
    { c with workerStream := { c.workerStream with newMsgs := [] } } h
  exact ⟨all.bounded, all.fronts⟩

theorem head_greets (io : HeadIo) (h : c.Bounded) : Greets env c (c.head env io).state := by
  have taken := @takeStreams_greets env _ io h
  simp only [head]
  cases hu : (c.takeStreams env io).updateInterest io.wsRefused with
  | error e => exact taken
  | ok d =>
    have fold : ∀ (order : List Token) (d : Loop), (∀ tk, (order.foldl (forward env io) d).front tk =
        d.front tk) ∧ (order.foldl (forward env io) d).tokenIo = d.tokenIo := by
      intro order
      induction order with
      | nil => exact fun d => ⟨fun _ => rfl, rfl⟩
      | cons tk order ih =>
        intro d
        obtain ⟨fronts, tokenIo⟩ := ih (d.forward env io tk)
        have kept : (d.forward env io tk).tokenIo = d.tokenIo := by
          cases found : d.clientStreams.lookup tk with
          | none => rw [d.forward_none env io found]
          | some cs => exact (d.forward_some env io found).tokenIo
        exact ⟨fun tk' => (fronts tk').trans (forward_front io d tk tk'), tokenIo.trans kept⟩
    have held : ∀ tk, d.front tk = (c.takeStreams env io).front tk := by
      rcases updateInterest_cases hu with rfl | ⟨i, os, -, -, rfl⟩ <;> exact fun _ => rfl
    obtain ⟨fronts, tokenIo⟩ := fold io.order d
    have all : Greets env c (io.order.foldl (forward env io) d) :=
      taken.congr (fun tk => (fronts tk).trans (held tk)) (tokenIo.trans (same_updateInterest hu).tokenIo)
    dsimp only
    cases io.poll <;> exact all

-- what an event puts on the stream of a client
def reply (env : Env) (c : Loop) (ev : Event) (io : EventIo) : Option (Sock × List UInt8) :=
  if ev.token = workerStreamTk then none
  else match c.clientStreams.lookup ev.token with
  | none => none
  | some cs =>
    if ev.writable then
      let (c, cs) := c.clientRead env ev cs io
      match (c.os.write cs.stream cs.outbuffer.length io.write).1 with
      | .error _ => none
      | .ok n => some (cs.stream, cs.outbuffer.take n)
    else none

inductive Replies (env : Env) (c : Loop) (ev : Event) (io : EventIo) (c' : Loop) : Prop where
  | nothing (reply : c.reply env ev io = none) (fronts : ∀ tk, c'.front tk = c.front tk)
  | bytes (f n) (found : c.front ev.token = some f)
      (reply : c.reply env ev io = some (f.stream, f.outbuffer.take n))
      (fronts : ∀ tk, c'.front tk = if tk = ev.token then some (f.wrote n) else c.front tk)

theorem workerRead_clientStreams (c : Loop) (ev : Event) (io : EventIo) :
    (c.workerRead ev io).2.clientStreams = c.clientStreams := by
  simp only [workerRead]
  split <;> rfl

theorem workerWrite_clientStreams (c : Loop) (ev : Event) (io : EventIo) :
    (c.workerWrite ev io).2.clientStreams = c.clientStreams := by
  simp only [workerWrite]
  split
  · split <;> rfl
  · rfl

theorem clientRead_front {ev : Event} {cs : ClientStream} (io : EventIo)
    (found : c.clientStreams.lookup ev.token = some cs) :
    (c.clientRead env ev cs io).2.front = cs.front ∧
      (c.clientRead env ev cs io).1.clientStreams.lookup ev.token = some (c.clientRead env ev cs io).2 ∧
      ∀ tk, (c.clientRead env ev cs io).1.front tk = c.front tk := by
  refine ⟨?_, (clientRead_spec env io found).1, ?_⟩
  · simp only [clientRead]
    split
    · exact cs.read_front ..
    · rfl
  · simp only [clientRead]
    split
    · exact front_kept found (cs.read_front env.bc _) (dropIfErr_clientStreams ..)
    · exact fun _ => rfl

theorem event_replies (c : Loop) (ev : Event) (io : EventIo) : Replies env c ev io (c.event env ev io).state := by
  simp only [event]
  split
  · rename_i token
    refine .nothing (by simp [reply, token]) fun tk => ?_
    have read := c.workerRead_clientStreams ev io
    generalize c.workerRead ev io = r at read ⊢
    obtain ⟨res, d⟩ := r
    cases res with
    | error e => exact congrArg (Option.map ClientStream.front) (congrArg (·.lookup tk) read)
    | ok =>
      have write := d.workerWrite_clientStreams ev io
      dsimp only
      generalize d.workerWrite ev io = r at write ⊢
      obtain ⟨res, d'⟩ := r
      have all := congrArg (Option.map ClientStream.front) (congrArg (·.lookup tk) (write.trans read))
      cases res <;> exact all
  · rename_i token
    cases found : c.clientStreams.lookup ev.token with
    | none => exact .nothing (by simp [reply, token, found]) fun _ => rfl
    | some cs =>
      obtain ⟨same, found', fronts⟩ := @clientRead_front env _ _ _ io found
      have replies : c.reply env ev io = if ev.writable then
          match ((c.clientRead env ev cs io).1.os.write (c.clientRead env ev cs io).2.stream
            (c.clientRead env ev cs io).2.outbuffer.length io.write).1 with
          | .error _ => none
          | .ok n => some ((c.clientRead env ev cs io).2.stream, (c.clientRead env ev cs io).2.outbuffer.take n)
          else none := by
        simp only [reply, token, if_false, found]
      dsimp only
      generalize c.clientRead env ev cs io = r at same found' fronts replies ⊢
      obtain ⟨d, cs'⟩ := r
      dsimp only at same found' fronts replies ⊢
      have front : c.front ev.token = some cs'.front := by simp [Loop.front, found, same]
      simp only [Flow.state, clientWrite]
      cases writable : ev.writable with
      | false => exact .nothing (by simp [replies, writable]) fronts
      | true =>
        simp only [if_true]
        rw [writable, if_pos rfl] at replies
        generalize d.os.write cs'.stream cs'.outbuffer.length io.write = r at replies ⊢
        obtain ⟨res, os⟩ := r
        cases res with
        | error e => exact .nothing replies fronts
        | ok n =>
          refine .bytes _ n front replies fun tk => ?_
          simp only [ClientStream.write]
          rw [front_insert rfl, ← fronts]
          simp only [compact_eq_drop]
          rfl

end Loop
end PyProxy.Worker
