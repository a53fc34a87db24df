import PyProxy.Worker.Standing

namespace PyProxy.Worker
open Stream Protocol Server Poll Channel

abbrev Notice := Master.WorkerStream.Notice

-- a message of which the four length bytes can hold the length
def Short (mc : MessageCodecs) : Notice → Prop
  | .log msg => (mc.logMessage.serialize msg).length < 2 ^ 32
  | .print msg => (mc.printMessage.serialize msg).length < 2 ^ 32
  | .unrecognised _ => False

theorem short_encodes {mc : MessageCodecs} (logs : mc.logMessage.RoundTrips)
    (prints : mc.printMessage.RoundTrips) {n : Notice} (h : Short mc n) :
    (Master.WorkerStream.framer mc).Encodes (MessageChannel.frame mc n) n := by
  cases n with
  | log msg => exact MessageChannel.log_encodes mc logs h
  | print msg => exact MessageChannel.print_encodes mc prints h
  | unrecognised t => exact h.elim

namespace Loop

variable (env : Env)

def takeNotices (io : HeadIo) : List (Vector UInt8 requestHeaderSize × Sock) → Loop → List Notice
  | [], _ => []
  | msg :: msgs, c =>
    (match ClientStream.new env.bc env.hex env.cfg msg.1 msg.2 ro (io.rng c.tokenIo) with
    | .error _ => []
    | .ok cs =>
      match c.os.register (io.registerRefused c.tokenIo) cs.stream c.tokenIo ro with
      | none => []
      | some _ => [.log {
          level := .info
          msg := "new client mainstream started"
          ts := io.newStreamTs c.tokenIo
          tags := [("session_id", .string cs.sessionId)] }]) ++
      takeNotices io msgs (c.takeStream env io msg)

def sendNotices (tk : Token) (sessionId : String) (queueTs : Nat → String) :
    List RequestMessage → Loop → List Notice
  | [], _ => []
  | msg :: msgs, c =>
    .log {
      level := .info
      msg := "queueing new pyproxy atom processing"
      ts := queueTs c.threadSender.length
      tags := [("session_id", .string sessionId), ("future_id", .string (msg.futureId.getD "0000"))] } ::
    sendNotices tk sessionId queueTs msgs (c.sendMsg env tk sessionId queueTs msg)

def forwardNotices (io : HeadIo) : List Token → Loop → List Notice
  | [], _ => []
  | tk :: order, c =>
    (match c.clientStreams.lookup tk with
    | none => []
    | some cs => sendNotices env tk cs.sessionId io.queueTs cs.reqMsgs c) ++
      forwardNotices io order (c.forward env io tk)

-- the messages a loop head logs
def headNotices (c : Loop) (io : HeadIo) : List Notice :=
  takeNotices env io c.workerStream.newMsgs { c with workerStream := { c.workerStream with newMsgs := [] } } ++
    match (c.takeStreams env io).updateInterest io.wsRefused with
    | .error _ => []
    | .ok c => forwardNotices env io io.order c

-- what an event puts on the unix stream
def wrote (c : Loop) (ev : Event) (io : EventIo) : List UInt8 :=
  if ev.token = workerStreamTk ∧ ev.writable = true then
    match c.workerRead ev io with
    | (.error _, _) => []
    | (.ok _, c) =>
      match (c.os.write c.workerStream.stream c.workerStream.outbuffer.length io.write).1 with
      | .error _ => []
      | .ok n => c.workerStream.outbuffer.take n
  else []

def Adds (ns : List Notice) (c c' : Loop) : Prop :=
  c'.workerStream.outbuffer = c.workerStream.outbuffer ++ ns.flatMap (MessageChannel.frame env.mc)

variable {env} {c c' c'' : Loop} {ns ns' : List Notice} {io : HeadIo} {tk : Token}

theorem adds_same (h : c'.workerStream.outbuffer = c.workerStream.outbuffer) : Adds env [] c c' :=
  h.trans (List.append_nil _).symm

theorem Adds.trans (h : Adds env ns c c') (h' : Adds env ns' c' c'') : Adds env (ns ++ ns') c c'' := by
  rw [Adds] at h h' ⊢
  rw [h', h, List.flatMap_append, List.append_assoc]

theorem info_adds {msg ts : String} {tags : List (String × LogValue)}
    (h : c'.workerStream = c.workerStream.info env.mc msg tags ts) :
    Adds env [.log ⟨.info, msg, ts, tags⟩] c c' := by
  rw [Adds, h]
  simp [WorkerStream.info, WorkerStream.log, WorkerStream.newMsg, MessageChannel.frame]

theorem takeNotices_adds (msgs : List (Vector UInt8 requestHeaderSize × Sock)) :
    Adds env (takeNotices env io msgs c) c (msgs.foldl (takeStream env io) c) := by
  induction msgs generalizing c with
  | nil => exact adds_same rfl
  | cons msg msgs ih =>
    refine Adds.trans ?_ ih
    simp only [takeStream]
    cases ClientStream.new env.bc env.hex env.cfg msg.1 msg.2 ro (io.rng c.tokenIo) with
    | error e => exact adds_same rfl
    | ok cs =>
      dsimp only
      cases c.os.register (io.registerRefused c.tokenIo) cs.stream c.tokenIo ro with
      | none => exact adds_same rfl
      | some os => exact info_adds rfl

theorem sendNotices_adds (sessionId : String) (ts : Nat → String) (msgs : List RequestMessage) :
    Adds env (sendNotices env tk sessionId ts msgs c) c (msgs.foldl (sendMsg env tk sessionId ts) c) := by
  induction msgs generalizing c with
  | nil => exact adds_same rfl
  | cons msg msgs ih =>
    have first : Adds env _ c (c.sendMsg env tk sessionId ts msg) := info_adds rfl
    exact first.trans ih

theorem setStreamInterest_outbuffer (c : Loop) (tk : Token) (cs : ClientStream) (refused : Bool)
    (i : Interest) : (c.setStreamInterest tk cs refused i).workerStream = c.workerStream := by
  simp only [setStreamInterest]
  split <;> rfl

theorem forwardNotices_adds (order : List Token) :
    Adds env (forwardNotices env io order c) c (order.foldl (forward env io) c) := by
  induction order generalizing c with
  | nil => exact adds_same rfl
  | cons tk order ih =>
    refine Adds.trans ?_ ih
    simp only [forward]
    cases c.clientStreams.lookup tk with
    | none => exact adds_same rfl
    | some cs =>
      dsimp only
      have sent := @sendNotices_adds env c tk cs.sessionId io.queueTs cs.reqMsgs
      generalize cs.reqMsgs.foldl (sendMsg env tk cs.sessionId io.queueTs) c = d at sent ⊢
      rw [Adds] at sent ⊢
      split
      · rw [setStreamInterest_outbuffer, sent]
      · split
        · rw [setStreamInterest_outbuffer, sent]
        · exact sent

theorem updateInterest_outbuffer {refused : Bool} (h : c.updateInterest refused = .ok c') :
    c'.workerStream = c.workerStream := by
  rcases updateInterest_cases h with rfl | ⟨i, os, -, -, rfl⟩ <;> rfl

theorem head_adds (hc : c.head env io = .running c') : Adds env (c.headNotices env io) c c' := by
  obtain ⟨d, hu, rfl⟩ := head_turns hc
  simp only [headNotices, hu]
  have taken : Adds env _ c (c.takeStreams env io) := @takeNotices_adds env _ io c.workerStream.newMsgs
  have tuned : Adds env [] (c.takeStreams env io) d :=
    adds_same (congrArg WorkerStream.outbuffer (updateInterest_outbuffer hu))
  exact taken.trans (tuned.trans (forwardNotices_adds io.order))

variable {ev : Event} {eio : EventIo}

theorem read_outbuffer (s : WorkerStream) (fds : List Sock) (res : IoResult (List UInt8)) :
    (s.read fds res).2.outbuffer = s.outbuffer := by
  rcases res with e | _ | ⟨b, bytes⟩
  · rfl
  · rfl
  · simp only [WorkerStream.read, WorkerStream.takeHeader]
    split
    · split <;> rfl
    · rfl

theorem workerRead_outbuffer (c : Loop) (ev : Event) (io : EventIo) :
    (c.workerRead ev io).2.workerStream.outbuffer = c.workerStream.outbuffer := by
  simp only [workerRead]
  split
  · exact read_outbuffer _ _ _
  · rfl

theorem clientEvent_workerStream (c : Loop) (ev : Event) (cs : ClientStream) (io : EventIo) :
    ((c.clientRead env ev cs io).1.clientWrite ev (c.clientRead env ev cs io).2 io).workerStream =
      c.workerStream := by
  have read : (c.clientRead env ev cs io).1.workerStream = c.workerStream := by
    simp only [clientRead]
    split
    · generalize cs.read env.bc (c.os.read cs.stream bufferSize io.read).1 = r
      obtain ⟨_ | u, cs'⟩ := r <;> rfl
    · rfl
  rw [← read]
  simp only [clientWrite]
  split
  · split <;> rfl
  · rfl

theorem workerWrite_writes {u : Unit} (hc : c.workerWrite ev eio = (.ok u, c')) :
    (if ev.writable = true then
      match (c.os.write c.workerStream.stream c.workerStream.outbuffer.length eio.write).1 with
      | .error _ => []
      | .ok n => c.workerStream.outbuffer.take n
    else []) ++ c'.workerStream.outbuffer = c.workerStream.outbuffer := by
  simp only [workerWrite] at hc
  cases hw : ev.writable with
  | false =>
    simp only [hw, Bool.false_eq_true, if_false] at hc ⊢
    cases hc
    rfl
  | true =>
    simp only [hw, if_true] at hc ⊢
    generalize (c.os.write c.workerStream.stream c.workerStream.outbuffer.length eio.write) = r at hc ⊢
    obtain ⟨_ | n, os⟩ := r
    · cases hc
    · simp only [WorkerStream.write, fatalIoErr, compact_eq_drop] at hc
      cases hc
      exact List.take_append_drop _ _

theorem event_writes (hc : c.event env ev eio = .running c') :
    c.wrote ev eio ++ c'.workerStream.outbuffer = c.workerStream.outbuffer := by
  simp only [wrote]
  cases event_turns hc with
  | worker token d d' read write =>
    have kept := c.workerRead_outbuffer ev eio
    rw [read] at kept ⊢
    simp only [token, true_and]
    rw [workerWrite_writes write, kept]
  | unknown token found => rw [if_neg fun h => token h.1, List.nil_append]
  | client token cs found =>
    rw [if_neg fun h => token h.1, List.nil_append, clientEvent_workerStream]

end Loop

namespace Daemon

variable (env : Env)

def wrote (s : Daemon) (l : Label) : List UInt8 :=
  match s.flow, l, s.phase with
  | .running c, .event read fds write, .turn (ev :: _) =>
    (c.bindFds fds).wrote ev ⟨read, List.range' c.os.next fds, write⟩
  | _, _, _ => []

-- the python thread talks to the master through the same logger
def Logs : Label → Prop
  | .pythread msgType msg => ∃ n,
    [msgType] ++ (toBeBytes (asU32 msg.length)).toList ++ msg = MessageChannel.frame env.mc n
  | _ => True

def Brief (s : Daemon) (l : Label) : Prop :=
  match s.flow, l with
  | .running c, .head io => ∀ n ∈ c.headNotices env io, Short env.mc n
  | .running _, .pythread _ msg => msg.length < 2 ^ 32
  | _, _ => True

def Spoken (bytes : List UInt8) (s : Daemon) : Prop :=
  ∀ c, s.flow = .running c → ∃ sent : List Notice, (∀ n ∈ sent, Short env.mc n) ∧
    bytes ++ c.workerStream.outbuffer = sent.flatMap (MessageChannel.frame env.mc)

variable {env}

theorem short_of_frame {msgType : UInt8} {msg : List UInt8} {n : Notice} (brief : msg.length < 2 ^ 32)
    (h : [msgType] ++ (toBeBytes (asU32 msg.length)).toList ++ msg = MessageChannel.frame env.mc n) :
    Short env.mc n := by
  have hlen := congrArg List.length h
  cases n with
  | log m =>
    simp only [MessageChannel.frame, List.length_append, List.length_singleton,
      Vector.length_toList] at hlen
    rw [Short]
    omega
  | print m =>
    simp only [MessageChannel.frame, List.length_append, List.length_singleton,
      Vector.length_toList] at hlen
    rw [Short]
    omega
  | unrecognised t => simp [MessageChannel.frame] at hlen

theorem wrote_outer {s : Daemon} {l : Label} (outer : l.outer = true) : wrote s l = [] := by
  cases l with
  | event read fds write => cases outer
  | _ => cases hf : s.flow <;> simp [wrote, hf]

theorem Spoken.step {bytes : List UInt8} {s s' : Daemon} {l : Label} (h : Spoken env bytes s)
    (logs : Logs env l) (brief : Brief env s l) (hs : step env s l = some s') : Spoken env (bytes ++ wrote s l) s' := by
  obtain ⟨c, hc, hcase⟩ := step_cases hs
  obtain ⟨sent, short, all⟩ := h c hc
  have adds : ∀ {c' : Loop} {ns : List Notice}, Loop.Adds env ns c c' → (∀ n ∈ ns, Short env.mc n) →
      ∃ sent : List Notice, (∀ n ∈ sent, Short env.mc n) ∧
        bytes ++ c'.workerStream.outbuffer = sent.flatMap (MessageChannel.frame env.mc) := by
    intro c' ns hadds hshort
    refine ⟨sent ++ ns, fun n hn => (List.mem_append.mp hn).elim (short n) (hshort n), ?_⟩
    rw [hadds, ← List.append_assoc, all, List.flatMap_append]
  have silent : wrote s l = [] → Spoken env bytes s' → Spoken env (bytes ++ wrote s l) s' := by
    intro hw h'
    rwa [hw, List.append_nil]
  simp only [Brief, hc] at brief
  cases hcase.move with
  | head io phase order =>
    exact silent (by simp [wrote, hc]) fun c' hc' => adds (Loop.head_adds hc') brief
  | event read fds write ev batch phase =>
    have hw : wrote s (.event read fds write) =
        (c.bindFds fds).wrote ev ⟨read, List.range' c.os.next fds, write⟩ := by simp [wrote, hc, phase]
    rw [hw]
    intro c' hc'
    refine ⟨sent, short, ?_⟩
    rw [List.append_assoc, Loop.event_writes hc']
    exact all
  | outside l os phase outer same =>
    refine silent (wrote_outer outer) fun c' hc' => ?_
    cases hc'
    exact ⟨sent, short, all⟩
  | pythread msgType msg =>
    obtain ⟨n, eq⟩ := logs
    have hn := short_of_frame brief eq
    refine silent (by simp [wrote, hc]) fun c' hc' => ?_
    cases hc'
    have added : Loop.Adds env [n] c (c.pythread msgType msg) := by
      rw [Loop.Adds, List.flatMap_singleton, ← eq]
      simp [Loop.pythread, WorkerStream.newMsg]
    exact adds added fun m hm => List.mem_singleton.mp hm ▸ hn

theorem spoken_run {ls : List Label} {s : Daemon} {bytes : List UInt8}
    (run : ((machine env).traced wrote).exec ls = some (s, bytes)) (logs : ∀ l ∈ ls, Logs env l)
    (brief : (machine env).Along (Brief env) ls) : Spoken env bytes s := by
  refine @Machine.invariant_along _ _ ((machine env).traced wrote) (fun p => Spoken env p.2 p.1)
    (fun p l => Logs env l ∧ Brief env p.1 l) (fun c hc => ?_) (fun p l p' hp hall hl => ?_) _ _ run
    (fun pre l post p eq hp => ?_)
  · cases hc
    exact ⟨[], by simp, rfl⟩
  · obtain ⟨hs, heq⟩ := Machine.traced_step hl
    rw [heq]
    exact hp.step hall.1 hall.2 hs
  · exact ⟨logs l (by simp [eq]), Machine.along_traced.mpr brief pre l post p eq hp⟩

-- `Smooth` as a run can check it
def smoothly (s : Daemon) (l : Label) : Bool :=
  match s.flow, l, s.phase with
  | .running _, .head io, _ => !io.wsRefused && (io.poll matches .ok _)
  | .running c, .event read fds write, .turn (ev :: _) =>
    let d := ((c.bindFds fds).workerRead ev ⟨read, List.range' c.os.next fds, write⟩).2
    ev.token != workerStreamTk ||
      (!ev.readable || ((c.os.read c.workerStream.stream bufferSize read).1 matches .ok (_ :: _))) &&
        (!ev.writable ||
          ((d.os.write d.workerStream.stream d.workerStream.outbuffer.length write).1 matches .ok _))
  | _, _, _ => true

theorem smooth_of {s : Daemon} {l : Label} (h : s.smoothly l = true) : Smooth s l := by
  simp only [Smooth]
  split
  · rename_i io hc
    simp only [smoothly, hc] at h
    obtain ⟨refused, poll⟩ := Bool.and_eq_true_iff.mp h
    refine ⟨by simpa using refused, ?_⟩
    cases hio : io.poll with
    | ok u => rfl
    | error e =>
      rw [hio] at poll
      cases poll
  · rename_i c read fds write ev batch hc phase
    simp only [smoothly, hc, phase] at h
    intro htk
    simp only [htk, bne_self_eq_false, Bool.false_or, Bool.and_eq_true] at h
    refine ⟨fun readable => ?_, fun writable => ?_⟩
    · have reads := h.1
      rw [readable, Bool.not_true, Bool.false_or] at reads
      split at reads
      · rename_i b bs hread
        exact ⟨b :: bs, List.cons_ne_nil _ _, hread⟩
      · cases reads
    · have writes := h.2
      rw [writable, Bool.not_true, Bool.false_or] at writes
      split at writes
      · exact ⟨_, ‹_›⟩
      · cases writes
  · trivial

theorem smooth_along {ls : List Label}
    (h : (machine env).checks smoothly (machine env).init ls = true) : (machine env).Along Smooth ls :=
  (Machine.along_of_checks h).imp fun _ _ _ => smooth_of

end Daemon
end PyProxy.Worker
