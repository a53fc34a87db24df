import PyProxy.Poll.Wakeup
import PyProxy.Worker.Daemon
import PyProxy.Worker.Ports

namespace PyProxy.Worker
open Stream Protocol Server Poll Source

-- `owns` says which socket each token was given to
structure Tends (owns : Token → Option Sock) (w w' : World Token UInt8) : Prop where
  tended : World.Tended w w'
  keyed : ∀ k tk i, (w'.source k).reg = some (tk, i) →
    (w.source k).reg = some (tk, i) ∨ i.readable = true ∧ owns tk = some k

namespace Tends

variable {owns : Token → Option Sock} {w w' w'' : World Token UInt8}

theorem refl (owns : Token → Option Sock) (w : World Token UInt8) : Tends owns w w :=
  ⟨.refl w, fun _ _ _ => .inl⟩

theorem trans (h : Tends owns w w') (h' : Tends owns w' w'') : Tends owns w w'' where
  tended := h.tended.trans h'.tended
  keyed k tk i reg := by
    rcases h'.keyed k tk i reg with reg | own
    · exact h.keyed k tk i reg
    · exact .inr own

theorem same (tended : World.Tended w w') (reg : ∀ k, (w'.source k).reg = (w.source k).reg) :
    Tends owns w w' := ⟨tended, fun k _ _ h => .inl ((reg k).symm.trans h)⟩

theorem read (w : World Token UInt8) (k : Sock) (size : Nat) (io : ReadIo) :
    Tends owns w (w.read k size io).2 :=
  .same (w.tended_read k size io) fun j => ((w.read_quiet k size io).2 j).reg

theorem write (w : World Token UInt8) (k : Sock) (len : Nat) (io : WriteIo) :
    Tends owns w (w.write k len io).2 :=
  .same (w.tended_write k len io) fun j => ((w.write_quiet k len io).2 j).reg

theorem attach (w : World Token UInt8) {k : Sock} {tk : Token} {i : Interest} (readable : i.readable = true)
    (own : owns tk = some k) : Tends owns w (w.modify k (·.attach tk i)) where
  tended := w.tended_attach k tk readable
  keyed j t i' reg := by
    rw [World.attach_reg] at reg
    split at reg
    · rename_i hj
      cases reg
      exact .inr ⟨readable, hj ▸ own⟩
    · exact .inl reg

theorem deregister (w : World Token UInt8) (k : Sock) : Tends owns w (w.deregister k) where
  tended := w.tended_deregister k
  keyed j t i reg := by
    rw [World.deregister_reg] at reg
    split at reg
    · cases reg
    · exact .inl reg

end Tends

namespace Loop

variable {env : Env} {c c' : Loop} {ev : Event} {io : EventIo} {k : Sock} {tk : Token} {cs : ClientStream}

def streamOf (c : Loop) (tk : Token) : Option Sock :=
  (c.clientStreams.lookup tk).map ClientStream.stream

theorem sockOf_eq (c : Loop) (tk : Token) : c.sockOf tk =
    if tk = workerStreamTk then some c.workerStream.stream else c.streamOf tk := rfl

theorem streamOf_insert (h : c'.clientStreams = c.clientStreams.insert tk cs) (t : Token) :
    c'.streamOf t = if t = tk then some cs.stream else c.streamOf t := by
  rw [streamOf, h]
  split
  · rename_i ht
    subst ht
    simp
  · rename_i ht
    rw [AList.lookup_insert_ne ht]
    rfl

theorem streamOf_update (hl : c.clientStreams.lookup tk = some cs) {cs' : ClientStream}
    (stream : cs'.stream = cs.stream) (h : c'.clientStreams = c.clientStreams.insert tk cs') (t : Token) :
    c'.streamOf t = c.streamOf t := by
  rw [streamOf_insert h]
  split
  · rename_i ht
    rw [ht, streamOf, hl, stream]
    rfl
  · rfl

-- what the loop can do without giving out a token
structure Upkeep (c c' : Loop) : Prop where
  tends : Tends c.sockOf c.os c'.os
  unix : c'.workerStream.stream = c.workerStream.stream
  streamOf : ∀ tk, c'.streamOf tk = c.streamOf tk
  tokenIo : c'.tokenIo = c.tokenIo

namespace Upkeep

theorem sockOf (h : Upkeep c c') : c'.sockOf = c.sockOf := by
  funext tk
  rw [sockOf_eq, sockOf_eq, h.unix, h.streamOf]

theorem refl (c : Loop) : Upkeep c c := ⟨.refl _ _, rfl, fun _ => rfl, rfl⟩

theorem trans {c'' : Loop} (h : Upkeep c c') (h' : Upkeep c' c'') : Upkeep c c'' where
  tends := h.tends.trans (h.sockOf ▸ h'.tends)
  unix := h'.unix.trans h.unix
  streamOf tk := (h'.streamOf tk).trans (h.streamOf tk)
  tokenIo := h'.tokenIo.trans h.tokenIo

theorem updateInterest {refused : Bool} (hc : c.updateInterest refused = .ok c') :
    Upkeep c c' := by
  rcases updateInterest_cases hc with rfl | ⟨i, os, known, hr, rfl⟩
  · exact .refl c'
  · obtain ⟨-, rfl⟩ := World.reregister_some hr
    have readable : i.readable = true := by
      rcases known with rfl | rfl <;> rfl
    exact ⟨.attach c.os readable rfl, rfl, fun _ => rfl, rfl⟩

theorem clientRead (hl : c.clientStreams.lookup ev.token = some cs) (io : EventIo) :
    Upkeep c (c.clientRead env ev cs io).1 := by
  simp only [Loop.clientRead]
  split
  · obtain ⟨stream, -⟩ := cs.read_fields env.bc (c.os.read cs.stream bufferSize io.read).1
    have read := @Tends.read c.sockOf c.os cs.stream bufferSize io.read
    generalize cs.read env.bc (c.os.read cs.stream bufferSize io.read).1 = r at stream ⊢
    obtain ⟨_ | ⟨⟩, cs'⟩ := r
    · exact ⟨read.trans (.deregister _ cs'.stream), rfl, streamOf_update hl stream rfl, rfl⟩
    · exact ⟨read, rfl, streamOf_update hl stream rfl, rfl⟩
  · exact .refl c

theorem clientWrite (hl : c.clientStreams.lookup ev.token = some cs) (io : EventIo) :
    Upkeep c (c.clientWrite ev cs io) := by
  simp only [Loop.clientWrite]
  split
  · have write := @Tends.write c.sockOf c.os cs.stream cs.outbuffer.length io.write
    generalize c.os.write cs.stream cs.outbuffer.length io.write = r at write ⊢
    obtain ⟨_ | n, os⟩ := r
    · exact ⟨write.trans (.deregister _ cs.stream), rfl, fun _ => rfl, rfl⟩
    · have stream : ({ cs with outbuffer := compact n cs.outbuffer } : ClientStream).stream = cs.stream := rfl
      exact ⟨write, rfl, streamOf_update hl stream rfl, rfl⟩
  · exact .refl c

theorem workerRead (c : Loop) (ev : Event) (io : EventIo) : Upkeep c (c.workerRead ev io).2 := by
  simp only [Loop.workerRead]
  split
  · exact ⟨.read c.os c.workerStream.stream bufferSize io.read, c.workerStream.read_stream _ _,
      fun _ => rfl, rfl⟩
  · exact .refl c

theorem workerWrite (c : Loop) (ev : Event) (io : EventIo) : Upkeep c (c.workerWrite ev io).2 := by
  simp only [Loop.workerWrite]
  split
  · have write := @Tends.write c.sockOf c.os c.workerStream.stream
      c.workerStream.outbuffer.length io.write
    generalize c.os.write c.workerStream.stream c.workerStream.outbuffer.length io.write = r at write ⊢
    obtain ⟨_ | n, os⟩ := r
    · exact ⟨write, rfl, fun _ => rfl, rfl⟩
    · exact ⟨write, rfl, fun _ => rfl, rfl⟩
  · exact .refl c

theorem event (hc : c.event env ev io = .running c') : Upkeep c c' := by
  cases event_turns hc with
  | worker token d d' read write =>
    have reads := workerRead c ev io
    have writes := workerWrite d ev io
    rw [read] at reads
    rw [write] at writes
    exact reads.trans writes
  | unknown token found => exact .refl _
  | client token cs found =>
    obtain ⟨held, -⟩ := clientRead_spec env io found
    exact (clientRead found io).trans (clientWrite held io)

end Upkeep

-- every token in use was given out, and none of them is the token of the unix stream
structure Plugged (c : Loop) : Prop where
  calm : ∀ k, (c.os.source k).backlog = 0
  registered : ∀ k tk i, (c.os.source k).reg = some (tk, i) → i.readable = true ∧ c.sockOf tk = some k
  positive : 0 < c.tokenIo
  tokens : ∀ tk k, c.streamOf tk = some k → 0 < tk ∧ tk < c.tokenIo

namespace Plugged

theorem owner (h : Plugged c) (hl : c.clientStreams.lookup tk = some cs) : c.sockOf tk = some cs.stream := by
  have own : c.streamOf tk = some cs.stream := by rw [streamOf, hl, Option.map_some]
  rw [sockOf_eq, if_neg]
  · exact own
  · exact Nat.ne_of_gt (h.tokens tk _ own).1

theorem tended (h : Plugged c) {w : World Token UInt8} (tended : World.Tended c.os w) (k : Sock) :
    (w.source k).backlog = 0 := by
  rcases tended.2 k with served | ⟨-, s, -, calm, served⟩
  · exact served.keeps.2 (h.calm k)
  · exact served.keeps.2 calm

theorem upkeep (h : Plugged c) (up : Upkeep c c') : Plugged c' where
  calm := h.tended up.tends.tended
  registered k tk i reg := by
    rw [up.sockOf]
    rcases up.tends.keyed k tk i reg with reg | own
    · exact h.registered k tk i reg
    · exact own
  positive := up.tokenIo ▸ h.positive
  tokens tk k own := by
    rw [up.streamOf] at own
    rw [up.tokenIo]
    exact h.tokens tk k own

theorem addStream (h : Plugged c) (cs : ClientStream) (ts : String) :
    Plugged (c.addStream env ts cs (c.os.modify cs.stream (·.attach c.tokenIo ro))) ∧
      World.Tended c.os (c.os.modify cs.stream (·.attach c.tokenIo ro)) := by
  have tended := c.os.tended_attach cs.stream c.tokenIo (i := ro) rfl
  have streams := @streamOf_insert c (c.addStream env ts cs
    (c.os.modify cs.stream (·.attach c.tokenIo ro))) c.tokenIo cs rfl
  have unused : c.streamOf c.tokenIo = none := by
    cases own : c.streamOf c.tokenIo with
    | none => rfl
    | some k => exact absurd (h.tokens _ k own).2 (Nat.lt_irrefl _)
  have io : c.tokenIo ≠ workerStreamTk := Nat.ne_of_gt h.positive
  refine ⟨⟨h.tended tended, fun k tk i reg => ?_, Nat.succ_pos _, fun tk k own => ?_⟩, tended⟩
  · rw [sockOf_eq, streams]
    dsimp only [Loop.addStream] at reg
    rw [World.attach_reg] at reg
    split at reg
    · rename_i hk
      cases reg
      rw [if_neg io, if_pos rfl, hk]
      exact ⟨rfl, rfl⟩
    · obtain ⟨readable, own⟩ := h.registered k tk i reg
      refine ⟨readable, ?_⟩
      split
      · rename_i ht
        rw [sockOf_eq, if_pos ht] at own
        exact own
      · rename_i ht
        rw [sockOf_eq, if_neg ht] at own
        rw [if_neg, own]
        rintro rfl
        rw [unused] at own
        cases own
  · rw [streams] at own
    split at own
    · rename_i ht
      rw [ht]
      exact ⟨h.positive, Nat.lt_succ_self _⟩
    · obtain ⟨pos, below⟩ := h.tokens tk k own
      exact ⟨pos, Nat.lt_succ_of_lt below⟩

theorem takeStream (h : Plugged c) (io : HeadIo) (msg : Vector UInt8 requestHeaderSize × Sock) :
    Plugged (c.takeStream env io msg) ∧ World.Tended c.os (c.takeStream env io msg).os := by
  rcases c.takeStream_cases env io msg with he | he | ⟨cs, hport, -, -, -, he⟩
  · rw [he]
    exact ⟨h, .refl _⟩
  · rw [he]
    exact ⟨{ h with
      positive := Nat.succ_pos _
      tokens := fun tk k own => ⟨(h.tokens tk k own).1, Nat.lt_succ_of_lt (h.tokens tk k own).2⟩ },
      .refl _⟩
  · rw [he]
    have stream : cs.stream = msg.2 := congrArg Port.stream hport
    rw [← stream]
    exact h.addStream cs _

theorem takeStreams (h : Plugged c) (io : HeadIo) :
    Plugged (c.takeStreams env io) ∧ World.Tended c.os (c.takeStreams env io).os := by
  have base : Plugged { c with workerStream := { c.workerStream with newMsgs := [] } } :=
    ⟨h.calm, h.registered, h.positive, h.tokens⟩
  refine List.foldlRecOn (motive := fun d : Loop => Plugged d ∧ World.Tended c.os d.os)
    c.workerStream.newMsgs _ ⟨base, .refl _⟩ fun d hd msg _ => ?_
  obtain ⟨held, tended⟩ := @takeStream env d hd.1 io msg
  exact ⟨held, hd.2.trans tended⟩

theorem setStreamInterest (h : Plugged c) {cs₀ : ClientStream} (hl : c.clientStreams.lookup tk = some cs₀)
    (stream : cs.stream = cs₀.stream) (refused : Bool) {i : Interest} (readable : i.readable = true) :
    Upkeep c (c.setStreamInterest tk cs refused i) := by
  have own := h.owner hl
  rw [← stream] at own
  have kept : (cs.setInterest i).stream = cs₀.stream := stream
  simp only [Loop.setStreamInterest]
  cases hr : c.os.reregister refused cs.stream tk i with
  | none => exact ⟨.refl _ _, rfl, streamOf_update hl kept rfl, rfl⟩
  | some os =>
    obtain ⟨-, rfl⟩ := World.reregister_some hr
    exact ⟨.attach c.os readable own, rfl, streamOf_update hl kept rfl, rfl⟩

theorem forward (h : Plugged c) (io : HeadIo) (tk : Token) : Upkeep c (c.forward env io tk) := by
  cases hl : c.clientStreams.lookup tk with
  | none =>
    rw [c.forward_none env io hl]
    exact .refl c
  | some cs =>
    obtain ⟨o, ho⟩ := sendMsgs env tk cs.sessionId io.queueTs cs.reqMsgs c
    simp only [Loop.forward, hl, ho]
    generalize c.threadSender ++ cs.reqMsgs.map (fun msg => (⟨tk, cs.sessionId, msg⟩ : Sent)) = sent
    have queued : Upkeep c { c with
        workerStream := { c.workerStream with outbuffer := o }, threadSender := sent } :=
      ⟨.refl _ _, rfl, fun _ => rfl, rfl⟩
    have held := h.upkeep queued
    have kept : ({ cs with reqMsgs := [] } : ClientStream).stream = cs.stream := rfl
    split
    · exact queued.trans (held.setStreamInterest hl kept _ rfl)
    · split
      · exact queued.trans (held.setStreamInterest hl kept _ rfl)
      · exact ⟨.refl _ _, rfl, streamOf_update hl kept rfl, rfl⟩

theorem head {io : HeadIo} (h : Plugged c) (hc : c.head env io = .running c') :
    Plugged c' ∧ World.Tended c.os c'.os := by
  obtain ⟨taken, first⟩ := @takeStreams env c h io
  obtain ⟨d, hu, rfl⟩ := head_turns hc
  have up := Upkeep.updateInterest hu
  refine List.foldlRecOn (motive := fun d : Loop => Plugged d ∧ World.Tended c.os d.os)
    io.order _ ⟨taken.upkeep up, first.trans up.tends.tended⟩ fun d hd tk _ => ?_
  have next := @forward env d hd.1 io tk
  exact ⟨hd.1.upkeep next, hd.2.trans next.tends.tended⟩

end Plugged
def rejects (env : Env) (c : Loop) (cs : ClientStream) (io : EventIo) : Bool :=
  match (cs.read env.bc (c.os.read cs.stream bufferSize io.read).1).1 with
  | .error _ => true
  | .ok _ => false

-- the one read that answers a readable event leaves nothing behind
def drains (env : Env) (c : Loop) (ev : Event) (io : EventIo) : Bool :=
  if ev.token = workerStreamTk then
    (c.os.source c.workerStream.stream).readsAll bufferSize io.read
  else match c.clientStreams.lookup ev.token with
    | none => true
    | some cs => (c.os.source cs.stream).readsAll bufferSize io.read || c.rejects env cs io

-- the source of the event is gone, armed again since, or left with nothing
def attends (env : Env) (c : Loop) (ev : Event) (io : EventIo) : Bool :=
  !ev.readable ||
    (c.sockOf ev.token).all (fun k => (c.os.source k).reg.isNone || (c.os.source k).readArmed) ||
    c.drains env ev io

theorem workerRead_drained (readable : ev.readable = true)
    (calm : (c.os.source c.workerStream.stream).backlog = 0)
    (all : (c.os.source c.workerStream.stream).readsAll bufferSize io.read = true)
    (ok : (c.workerRead ev io).1 = .ok ()) :
    ((c.workerRead ev io).2.os.source c.workerStream.stream).Unmissed := by
  have unmissed := World.read_all all calm
  simp only [workerRead, readable, if_true] at ok ⊢
  rcases unmissed with ⟨e, he⟩ | unmissed
  · simp [he, WorkerStream.read, fatalIoErr] at ok
  · exact unmissed

theorem clientRead_drained (readable : ev.readable = true) (calm : (c.os.source cs.stream).backlog = 0)
    (drains : ((c.os.source cs.stream).readsAll bufferSize io.read || c.rejects env cs io) = true) :
    ((c.clientRead env ev cs io).1.os.source cs.stream).Unmissed := by
  have unmissed := fun all => @World.read_all _ _ c.os cs.stream bufferSize io.read all calm
  simp only [rejects] at drains
  simp only [clientRead, readable, if_true]
  obtain ⟨stream, -⟩ := cs.read_fields env.bc (c.os.read cs.stream bufferSize io.read).1
  generalize c.os.read cs.stream bufferSize io.read = r at unmissed drains stream ⊢
  obtain ⟨res, os⟩ := r
  dsimp only at unmissed drains stream ⊢
  generalize read : cs.read env.bc res = r at drains stream ⊢
  obtain ⟨_ | ⟨⟩, cs'⟩ := r
  · rw [← stream]
    exact os.deregister_unmissed cs'.stream
  · rcases unmissed (by simpa using drains) with ⟨e, rfl⟩ | unmissed
    · cases read
    · exact unmissed

theorem event_drained (h : Plugged c) (own : c.sockOf ev.token = some k) (readable : ev.readable = true)
    (attends : c.attends env ev io = true) (hc : c.event env ev io = .running c') :
    (c'.os.source k).Unmissed := by
  have tended := (Upkeep.event hc).tends.tended
  simp only [Loop.attends, readable, own, Option.all_some, Bool.not_true, Bool.false_or] at attends
  rcases Bool.or_eq_true_iff.mp attends with before | drains
  · refine tended.unmissed ?_
    rcases Bool.or_eq_true_iff.mp before with free | armed
    · exact .inl (Option.isNone_iff_eq_none.mp free)
    · exact .inr fun _ => armed
  · rw [sockOf_eq] at own
    simp only [Loop.drains] at drains
    cases event_turns hc with
    | worker token d d' reads writes =>
      rw [if_pos token] at own drains
      cases own
      have read := workerRead_drained readable (h.calm _) drains (congrArg Prod.fst reads)
      have write := Upkeep.workerWrite d ev io
      rw [reads] at read
      rw [writes] at write
      exact write.tends.tended.unmissed read
    | unknown token found =>
      rw [if_neg token, streamOf, found] at own
      cases own
    | client token cs found =>
      rw [if_neg token, streamOf, found] at own
      cases own
      simp only [if_neg token, found] at drains
      have read := @clientRead_drained env _ ev io cs readable (h.calm _) drains
      obtain ⟨held, -⟩ := clientRead_spec env io found
      exact (Upkeep.clientWrite held io).tends.tended.unmissed read

theorem alert_event {batch : List Event} (h : Plugged c) (alert : c.os.Alert (ev :: batch))
    (attends : c.attends env ev io = true) (hc : c.event env ev io = .running c') :
    c'.os.Alert batch :=
  alert.handled (Upkeep.event hc).tends.tended fun readable k i reg =>
    event_drained h (h.registered k ev.token i reg).2 readable attends hc

theorem Plugged.rewire (h : Plugged c) {os : World Token UInt8} (same : c.os.SameReg os)
    (calm : ∀ k, (os.source k).backlog = (c.os.source k).backlog) : Plugged { c with os := os } :=
  ⟨fun k => (calm k).trans (h.calm k), fun k tk i reg => h.registered k tk i ((same.2 k).symm.trans reg),
    h.positive, h.tokens⟩

end Loop

def Phase.batch : Phase → List Event
  | .turn batch => batch
  | .polling => []

namespace Daemon

variable {env : Env}

def attends (env : Env) (s : Daemon) (l : Label) : Bool :=
  match s.flow, l, s.phase with
  | .running c, .event read fds write, .turn (ev :: _) =>
    (c.bindFds fds).attends env ev ⟨read, List.range' c.os.next fds, write⟩
  | _, _, _ => true

structure Watchful (s : Daemon) : Prop where
  plugged : ∀ c, s.flow = .running c → c.Plugged
  alert : ∀ c, s.flow = .running c → c.os.Alert (Phase.batch s.phase)

theorem start_plugged : start.Plugged where
  calm k := by
    simp only [start, World.modify]
    split <;> rfl
  registered k tk i reg := by
    simp only [start, World.attach_reg] at reg
    split at reg
    · rename_i hk
      subst hk
      cases reg
      exact ⟨rfl, rfl⟩
    · cases reg
  positive := Nat.zero_lt_one
  tokens tk k own := by cases own

theorem start_watchful : Watchful (⟨.running start, .turn []⟩ : Daemon) := by
  constructor
  · intro c hc
    cases hc
    exact start_plugged
  · intro c hc
    cases hc
    refine World.Alert.tended ?_ (booted.tended_attach unixStream workerStreamTk (i := ro) rfl)
    rw [World.alert_nil]
    exact fun _ => .inl rfl

theorem Watchful.touch {s : Daemon} (h : Watchful s) {c : Loop} (hc : s.flow = .running c) (k : Sock)
    {f : Source Token UInt8 → Source Token UInt8}
    (kept : ∀ src, (f src).reg = src.reg ∧ (f src).backlog = src.backlog)
    (stirred : ∀ src : Source Token UInt8, src.Stirred (f src)) : Watchful (s.touch c k f) := by
  have plugged := h.plugged c hc
  constructor
  · intro c' hc'
    cases hc'
    refine plugged.rewire (c.os.sameReg_modify k (kept _).1) fun j => ?_
    by_cases hj : j = k
    · rw [hj, World.modify_same, (kept _).2]
    · rw [World.modify_other _ _ hj]
  · intro c' hc'
    cases hc'
    exact (h.alert c hc).stirred (stirred _) fun tk i reg => (plugged.registered k tk i reg).1

theorem Watchful.step {s s' : Daemon} {l : Label} (h : Watchful s) (attends : s.attends env l = true)
    (hs : step env s l = some s') : Watchful s' := by
  obtain ⟨c, hc, hcase⟩ := step_cases hs
  have plugged := h.plugged c hc
  have alert := h.alert c hc
  have arrived : ∀ bytes (src : Source Token UInt8),
      (src.arrive bytes).reg = src.reg ∧ (src.arrive bytes).backlog = src.backlog := by
    intro bytes src
    simp only [arrive]
    split <;> exact ⟨rfl, rfl⟩
  cases hcase with
  | head io phase order =>
    rw [phase] at alert
    exact ⟨fun c' hc' => (plugged.head hc').1, fun c' hc' => alert.tended (plugged.head hc').2⟩
  | poll events os phase notified =>
    rw [phase] at alert
    constructor
    · intro c' hc'
      cases hc'
      refine plugged.rewire (World.notifyAll_some notified).1 fun k => ?_
      obtain ⟨r, wr, source, -⟩ := World.notifyAll_deliver notified k
      rw [source]
      rfl
    · intro c' hc'
      cases hc'
      exact alert.polled notified
  | event read fds write ev batch phase =>
    simp only [Daemon.attends, hc, phase] at attends
    rw [phase] at alert
    have bound : (c.bindFds fds).Plugged :=
      ⟨plugged.calm, plugged.registered, plugged.positive, plugged.tokens⟩
    have told : (c.bindFds fds).os.Alert (ev :: batch) := alert
    exact ⟨fun c' hc' => bound.upkeep (Loop.Upkeep.event hc'),
      fun c' hc' => Loop.alert_event bound told attends hc'⟩
  | master bytes => exact h.touch hc _ (arrived bytes) (stirred_arrive · bytes)
  | hangup => exact h.touch hc _ (fun _ => ⟨rfl, rfl⟩) stirred_close
  | arrive k bytes client => exact h.touch hc k (arrived bytes) (stirred_arrive · bytes)
  | close k client => exact h.touch hc k (fun _ => ⟨rfl, rfl⟩) stirred_close
  | pythread msgType msg =>
    constructor
    · intro c' hc'
      cases hc'
      exact ⟨plugged.calm, plugged.registered, plugged.positive, plugged.tokens⟩
    · intro c' hc'
      cases hc'
      exact alert

theorem watchful_run {ls : List Label} {s : Daemon} (run : (machine env).exec ls = some s)
    (attends : (machine env).Along (fun s l => s.attends env l = true) ls) : Watchful s :=
  Machine.invariant_along start_watchful (fun _ _ _ h => h.step) run attends

end Daemon
end PyProxy.Worker
