import PyProxy.Worker.Delivery
import PyProxy.Worker.Flushing

namespace PyProxy.Worker
open Stream Protocol Server Poll

namespace Loop

variable {env : Env} {held : List Sock} {c c' : Loop} {k : Sock} {l : Link RequestMessage UInt8}

-- what was sent to the thread was sent for a stream that the loop still has
structure Told (c : Loop) : Prop where
  unix : c.workerStream.stream = unixStream
  sent : ∀ q ∈ c.threadSender, ∃ p, c.port q.token = some p ∧ q.sessionId = p.sessionId

-- what the loop has made of the bytes of one socket; the far end of the link is left open
structure Inlet (c : Loop) (k : Sock) (l : Link RequestMessage UInt8) : Prop where
  wire : c.input k = l.wire
  owned : ∀ tk p, c.port tk = some p → p.stream = k →
    p.inbuffer = l.inbuf ∧ (c.sentBy tk).map Sent.msg ++ p.reqMsgs = l.got
  idle : (∀ tk p, c.port tk = some p → p.stream ≠ k) → l.inbuf = [] ∧ l.got = []

theorem streamOf_port {tk : Token} {p : Port} (h : c.port tk = some p) : c.streamOf tk = some p.stream := by
  obtain ⟨cs, found, rfl⟩ := lookup_port h
  exact streamOf_lookup found

theorem Told.same (h : Told c) (s : Same c c') : Told c' where
  unix := s.unix.trans h.unix
  sent q hq := by
    rw [s.sent] at hq
    rw [s.port]
    exact h.sent q hq

theorem Inlet.same (h : Inlet c k l) (s : Same c c') : Inlet c' k l where
  wire := (s.input k).trans h.wire
  owned tk p hp own := by
    rw [s.port] at hp
    rw [sentBy, s.sent]
    exact h.owned tk p hp own
  idle none := h.idle fun tk p hp => none tk p ((s.port tk).trans hp)

theorem Told.unsent (told : Told c) (plugged : Plugged c) : c.sentBy c.tokenIo = [] := by
  rw [sentBy, List.filter_eq_nil_iff]
  intro q hq
  obtain ⟨p, hp, -⟩ := told.sent q hq
  have below := (plugged.tokens _ _ (streamOf_port hp)).2
  exact fun own => absurd below (Nat.not_lt.mpr (Nat.le_of_eq (of_decide_eq_true own).symm))

theorem unported (plugged : Plugged c) : c.port c.tokenIo = none := by
  cases hp : c.port c.tokenIo with
  | none => rfl
  | some p => exact absurd (plugged.tokens _ _ (streamOf_port hp)).2 (Nat.lt_irrefl _)

section
variable {cs : ClientStream} {ts : String} {os : World Token UInt8}

theorem addStream_port (tk : Token) : (c.addStream env ts cs os).port tk =
    if tk = c.tokenIo then some cs.port else c.port tk := portOf_insert _ _ _ _

theorem Told.addStream (told : Told c) (plugged : Plugged c) : Told (c.addStream env ts cs os) where
  unix := told.unix
  sent q hq := by
    obtain ⟨p, hp, id⟩ := told.sent q hq
    refine ⟨p, ?_, id⟩
    rw [addStream_port, if_neg]
    · exact hp
    · intro fresh
      rw [fresh, unported plugged] at hp
      cases hp

theorem Inlet.addStream (h : Inlet c k l) (told : Told c) (plugged : Plugged c)
    (housed : Housed (cs.stream :: held) c) (port : cs.port = ⟨cs.stream, [], cs.sessionId, []⟩) :
    Inlet (c.addStream env ts cs (c.os.modify cs.stream (·.attach c.tokenIo ro))) k l where
  wire := (World.modify_input c.os cs.stream (fun s => s.attach_input c.tokenIo ro) k).trans h.wire
  owned tk p hp own := by
    rw [addStream_port, port] at hp
    split at hp
    · rename_i fresh
      cases hp
      obtain ⟨inbuf, got⟩ := h.idle fun tk' p' hp' same =>
        (housed.streams tk' _ (streamOf_port hp')).2.2 (same.trans own.symm ▸ List.mem_cons_self ..)
      have none : (c.addStream env ts cs (c.os.modify cs.stream (·.attach c.tokenIo ro))).sentBy tk = [] :=
        fresh ▸ told.unsent plugged
      rw [none, inbuf, got]
      exact ⟨rfl, rfl⟩
    · exact h.owned tk p hp own
  idle none := by
    refine h.idle fun tk p hp => none tk p ?_
    rw [addStream_port, if_neg]
    · exact hp
    · rintro rfl
      rw [unported plugged] at hp
      cases hp

end

-- the parts of the loop's state that every step of its head keeps, and one inlet
structure HeadInv (held : List Sock) (c : Loop) (k : Sock) (l : Link RequestMessage UInt8) : Prop where
  told : Told c
  plugged : Plugged c
  housed : Housed held c
  inlet : Inlet c k l

theorem HeadInv.takeStream {msg : Vector UInt8 requestHeaderSize × Sock} (h : HeadInv (msg.2 :: held) c k l)
    (io : HeadIo) : HeadInv held (c.takeStream env io msg) k l := by
  have plugged := (@Plugged.takeStream env c h.plugged io msg).1
  have housed := @Housed.takeStream env held c io msg h.housed
  rcases c.takeStream_cases env io msg with he | he | ⟨cs, hport, -, -, -, he⟩
  · rw [he] at plugged housed ⊢
    exact ⟨h.told, plugged, housed, h.inlet⟩
  · rw [he] at plugged housed ⊢
    exact ⟨⟨h.told.unix, h.told.sent⟩, plugged, housed, h.inlet.wire, h.inlet.owned, h.inlet.idle⟩
  · rw [he] at plugged housed ⊢
    have stream : cs.stream = msg.2 := congrArg Port.stream hport
    rw [← stream] at plugged housed hport ⊢
    have held := h.housed
    rw [← stream] at held
    exact ⟨h.told.addStream h.plugged, plugged, housed, h.inlet.addStream h.told h.plugged held hport⟩

theorem HeadInv.takeStreams (h : HeadInv [] c k l) (io : HeadIo) : HeadInv [] (c.takeStreams env io) k l := by
  have fold : ∀ (msgs : List (Vector UInt8 requestHeaderSize × Sock)) (c : Loop),
      HeadInv (msgs.map Prod.snd) c k l → HeadInv [] (msgs.foldl (Loop.takeStream env io) c) k l := by
    intro msgs
    induction msgs with
    | nil => exact fun c h => h
    | cons msg msgs ih => exact fun c h => ih _ (h.takeStream io)
  refine fold c.workerStream.newMsgs { c with workerStream := { c.workerStream with newMsgs := [] } } ?_
  obtain ⟨told, plugged, housed, inlet⟩ := h
  exact ⟨⟨told.unix, told.sent⟩, ⟨plugged.calm, plugged.registered, plugged.positive, plugged.tokens⟩,
    ⟨housed.unix, housed.waiting, housed.fresh, housed.streams, housed.distinct⟩,
    inlet.wire, inlet.owned, inlet.idle⟩

theorem Told.forward (h : Told c) (io : HeadIo) (tk : Token) : Told (c.forward env io tk) := by
  cases found : c.clientStreams.lookup tk with
  | none =>
    rw [c.forward_none env io found]
    exact h
  | some cs =>
    refine Told.same (c := c.forwarded tk cs) ⟨h.unix, fun q hq => ?_⟩ (c.forward_some env io found)
    have port : ∀ t, (c.forwarded tk cs).port t = if t = tk then some { cs.port with reqMsgs := [] } else c.port t :=
      fun t => portOf_insert _ _ _ _
    rcases List.mem_append.mp hq with old | new
    · obtain ⟨p, hp, id⟩ := h.sent q old
      rw [port]
      split
      · rename_i own
        rw [own, port_lookup found] at hp
        cases hp
        exact ⟨_, rfl, id⟩
      · exact ⟨p, hp, id⟩
    · obtain ⟨msg, -, rfl⟩ := List.mem_map.mp new
      exact ⟨_, (port tk).trans (if_pos rfl), rfl⟩

theorem Inlet.forward (h : Inlet c k l) (io : HeadIo) (tk : Token) : Inlet (c.forward env io tk) k l := by
  cases found : c.clientStreams.lookup tk with
  | none =>
    rw [c.forward_none env io found]
    exact h
  | some cs =>
    refine Inlet.same (c := c.forwarded tk cs) ⟨h.wire, fun t p hp own => ?_, fun none => ?_⟩
      (c.forward_some env io found)
    · have port : (c.forwarded tk cs).port t = if t = tk then some { cs.port with reqMsgs := [] } else c.port t :=
        portOf_insert _ _ _ _
      rw [port] at hp
      split at hp
      · rename_i same
        cases hp
        subst same
        obtain ⟨inbuf, got⟩ := h.owned t _ (port_lookup found) own
        refine ⟨inbuf, ?_⟩
        rw [← got]
        simp [sentBy, forwarded, List.filter_map, Function.comp_def, ClientStream.port]
      · rename_i other
        obtain ⟨inbuf, got⟩ := h.owned t p hp own
        refine ⟨inbuf, ?_⟩
        rw [← got]
        simp [sentBy, forwarded, List.filter_map, Function.comp_def, Ne.symm other]
    · refine h.idle fun t p hp own => ?_
      have port : (c.forwarded tk cs).port t = if t = tk then some { cs.port with reqMsgs := [] } else c.port t :=
        portOf_insert _ _ _ _
      by_cases same : t = tk
      · rw [if_pos same] at port
        rw [same, port_lookup found] at hp
        cases hp
        exact none t _ port own
      · rw [if_neg same] at port
        exact none t p (port.trans hp) own

theorem Inlet.head (h : Inlet c k l) (told : Told c) (plugged : Plugged c) (housed : Housed [] c) (io : HeadIo) :
    Told (c.head env io).state ∧ Inlet (c.head env io).state k l := by
  obtain ⟨told, -, -, inlet⟩ := @HeadInv.takeStreams env c k l ⟨told, plugged, housed, h⟩ io
  simp only [Loop.head]
  cases hu : (c.takeStreams env io).updateInterest io.wsRefused with
  | error e => exact ⟨told, inlet⟩
  | ok d =>
    have fold : ∀ (order : List Token) (d : Loop), Told d → Inlet d k l →
        Told (order.foldl (Loop.forward env io) d) ∧ Inlet (order.foldl (Loop.forward env io) d) k l := by
      intro order
      induction order with
      | nil => exact fun d told inlet => ⟨told, inlet⟩
      | cons tk order ih => exact fun d told inlet => ih _ (told.forward io tk) (inlet.forward io tk)
    have same := same_updateInterest hu
    have all := fold io.order d (told.same same) (inlet.same same)
    dsimp only
    cases io.poll <;> exact all

theorem Told.near {fds : List Sock} (h : Told c) (n : Near fds c c') : Told c' where
  unix := n.unix.trans h.unix
  sent q hq := by
    rw [n.sent] at hq
    rw [n.port]
    exact h.sent q hq

theorem Inlet.near {fds : List Sock} (h : Inlet c k l) (n : Near fds c c') (apart : k ≠ c.workerStream.stream) :
    Inlet c' k l where
  wire := (n.input k apart).trans h.wire
  owned tk p hp own := by
    rw [n.port] at hp
    rw [sentBy, n.sent]
    exact h.owned tk p hp own
  idle none := h.idle fun tk p hp => none tk p ((n.port tk).trans hp)

theorem Told.received {tk : Token} {cs : ClientStream} (h : Told c) (found : c.clientStreams.lookup tk = some cs)
    (n : Nat) : Told (c.received env tk cs n) where
  unix := h.unix
  sent q hq := by
    obtain ⟨p, hp, id⟩ := h.sent q hq
    by_cases own : q.token = tk
    · rw [own, port_lookup found] at hp
      cases hp
      rw [own]
      exact ⟨_, (portOf_insert _ _ _ _).trans (if_pos rfl), id⟩
    · exact ⟨p, (portOf_insert _ _ _ _).trans ((if_neg own).trans hp), id⟩

-- what the loop does to the link of a socket: its far end is not touched
structure Reads (env : Env) (l l' : Link RequestMessage UInt8) : Prop where
  step : Link.Step (ClientStream.framer env.bc) l l'
  queued : l'.queued = l.queued
  out : l'.out = l.out

theorem Reads.idle (l : Link RequestMessage UInt8) : Reads env l l := ⟨.idle l, rfl, rfl⟩

theorem Inlet.received {tk : Token} {cs : ClientStream} (h : Inlet c k l) (housed : Housed [] c)
    (found : c.clientStreams.lookup tk = some cs) (n : Nat) :
    ∃ l', Reads env l l' ∧ Inlet (c.received env tk cs n) k l' := by
  have own := streamOf_lookup found
  have input : ∀ j, j ≠ cs.stream → (c.received env tk cs n).input j = c.input j := fun j hj =>
    congrArg Source.input (World.modify_other c.os (fun s => { s with input := s.input.drop n }) hj)
  have port : ∀ t, (c.received env tk cs n).port t = if t = tk then some ⟨cs.stream,
      ((ClientStream.framer env.bc).drain (cs.inbuffer ++ (c.input cs.stream).take n)).rest, cs.sessionId,
      cs.reqMsgs ++ ((ClientStream.framer env.bc).drain (cs.inbuffer ++ (c.input cs.stream).take n)).msgs⟩
      else c.port t := fun t => portOf_insert _ _ _ _
  by_cases here : cs.stream = k
  · subst here
    obtain ⟨inbuf, got⟩ := h.owned tk _ (port_lookup found) rfl
    refine ⟨_, ⟨.read l n, rfl, rfl⟩, ?_, fun t p hp same => ?_,
      fun none => absurd rfl (none tk _ ((port tk).trans (if_pos rfl)))⟩
    · rw [← h.wire]
      simp [Loop.received, Loop.input]
    · rw [port] at hp
      split at hp
      · rename_i ht
        cases hp
        subst ht
        dsimp only
        rw [← inbuf, ← h.wire, ← got]
        exact ⟨rfl, (List.append_assoc _ _ _).symm⟩
      · rename_i ht
        have own' := streamOf_port hp
        rw [same] at own'
        exact absurd (housed.distinct t tk _ own' own) ht
  · refine ⟨l, .idle l, (input k (Ne.symm here)).trans h.wire, fun t p hp same => ?_, fun none => ?_⟩
    · rw [port] at hp
      split at hp
      · cases hp
        exact absurd same here
      · exact h.owned t p hp same
    · refine h.idle fun t p hp same => ?_
      by_cases ht : t = tk
      · rw [ht, port_lookup found] at hp
        cases hp
        exact here same
      · exact none t p ((port t).trans ((if_neg ht).trans hp)) same

-- an event is nothing to the socket, or a read off it
theorem Inlet.event (h : Inlet c k l) (told : Told c) (housed : Housed [] c) (apart : k ≠ c.workerStream.stream)
    (ev : Event) (io : EventIo) : Told (c.event env ev io).state ∧
      ∃ l', Reads env l l' ∧ Inlet (c.event env ev io).state k l' := by
  simp only [Loop.event]
  split
  · have near := c.workerRead_near ev io
    have told := told.near near
    have inlet := h.near near apart
    generalize c.workerRead ev io = r at told inlet ⊢
    obtain ⟨res, d⟩ := r
    cases res with
    | error e => exact ⟨told, l, .idle l, inlet⟩
    | ok =>
      have same := d.workerWrite_same ev io
      dsimp only at told inlet ⊢
      generalize d.workerWrite ev io = r at same ⊢
      obtain ⟨res, d'⟩ := r
      cases res <;> exact ⟨told.same same, l, .idle l, inlet.same same⟩
  · cases found : c.clientStreams.lookup ev.token with
    | none => exact ⟨told, l, .idle l, h⟩
    | some cs =>
      obtain ⟨found', same⟩ := c.clientRead_spec env io found
      have wrote := clientWrite_same io found'
      rcases same with same | ⟨n, same⟩
      · exact ⟨(told.same same).same wrote, l, .idle l, (h.same same).same wrote⟩
      · obtain ⟨l', step, inlet⟩ := @Inlet.received env c k l ev.token cs h housed found n
        exact ⟨((told.received found n).same same).same wrote, l', step, (inlet.same same).same wrote⟩

-- what was sent stays sent, and a token stays with its socket
structure Keeps (c c' : Loop) : Prop where
  sent : c.threadSender <+: c'.threadSender
  streams : ∀ tk k, c.streamOf tk = some k → c'.streamOf tk = some k

namespace Keeps

theorem refl (c : Loop) : Keeps c c := ⟨List.prefix_rfl, fun _ _ own => own⟩

theorem trans {c'' : Loop} (h : Keeps c c') (g : Keeps c' c'') : Keeps c c'' :=
  ⟨h.sent.trans g.sent, fun tk k own => g.streams tk k (h.streams tk k own)⟩

theorem of_ports (sent : c.threadSender <+: c'.threadSender)
    (ports : ∀ tk p, c.port tk = some p → ∃ p', c'.port tk = some p' ∧ p'.stream = p.stream) : Keeps c c' where
  sent := sent
  streams tk k own := by
    obtain ⟨cs, found, rfl⟩ := Option.map_eq_some_iff.mp own
    obtain ⟨p, hp, stream⟩ := ports tk _ (port_lookup found)
    exact (streamOf_port hp).trans (congrArg some stream)

theorem same (h : Same c c') : Keeps c c' :=
  of_ports (h.sent ▸ List.prefix_rfl) fun tk p hp => ⟨p, (h.port tk).trans hp, rfl⟩

theorem near {fds : List Sock} (h : Near fds c c') : Keeps c c' :=
  of_ports (h.sent ▸ List.prefix_rfl) fun tk p hp => ⟨p, (h.port tk).trans hp, rfl⟩

theorem insert {tk : Token} {cs cs' : ClientStream} (found : c.clientStreams.lookup tk = some cs)
    (streams : c'.clientStreams = c.clientStreams.insert tk cs') (stream : cs'.stream = cs.stream)
    (sent : c.threadSender <+: c'.threadSender) : Keeps c c' where
  sent := sent
  streams t k own := by
    rw [streamOf_insert streams]
    split
    · rename_i ht
      rw [ht, streamOf_lookup found] at own
      rw [stream]
      exact own
    · exact own

theorem addStream (plugged : Plugged c) {cs : ClientStream} {ts : String} {os : World Token UInt8} :
    Keeps c (c.addStream env ts cs os) where
  sent := List.prefix_rfl
  streams tk k own := by
    rw [streamOf_insert rfl, if_neg]
    · exact own
    · exact Nat.ne_of_lt (plugged.tokens tk k own).2

theorem takeStreams (plugged : Plugged c) (io : HeadIo) : Keeps c (c.takeStreams env io) := by
  have base : Plugged { c with workerStream := { c.workerStream with newMsgs := [] } } :=
    ⟨plugged.calm, plugged.registered, plugged.positive, plugged.tokens⟩
  have fold := List.foldlRecOn (motive := fun d : Loop => Plugged d ∧ Keeps c d) c.workerStream.newMsgs
    (Loop.takeStream env io) ⟨base, List.prefix_rfl, fun tk k own => own⟩ fun d hd msg _ => ?_
  · exact fold.2
  · refine ⟨(hd.1.takeStream io msg).1, hd.2.trans ?_⟩
    rcases d.takeStream_cases env io msg with he | he | ⟨cs, -, -, -, -, he⟩
    · rw [he]
      exact .refl d
    · rw [he]
      exact ⟨List.prefix_rfl, fun tk k own => own⟩
    · rw [he]
      exact .addStream hd.1

theorem forward (io : HeadIo) (tk : Token) : Keeps c (c.forward env io tk) := by
  cases found : c.clientStreams.lookup tk with
  | none =>
    rw [c.forward_none env io found]
    exact .refl c
  | some cs =>
    have first : Keeps c (c.forwarded tk cs) := insert found rfl rfl (List.prefix_append _ _)
    exact first.trans (same (c.forward_some env io found))

theorem head (plugged : Plugged c) (io : HeadIo) : Keeps c (c.head env io).state := by
  have taken := @takeStreams env c plugged io
  simp only [Loop.head]
  cases hu : (c.takeStreams env io).updateInterest io.wsRefused with
  | error e => exact taken
  | ok d =>
    have all : Keeps c (io.order.foldl (Loop.forward env io) d) :=
      List.foldlRecOn (motive := fun d : Loop => Keeps c d) io.order _ (taken.trans (same (same_updateInterest hu)))
        fun d hd tk _ => hd.trans (.forward io tk)
    dsimp only
    cases io.poll <;> exact all

theorem event (ev : Event) (io : EventIo) : Keeps c (c.event env ev io).state := by
  simp only [Loop.event]
  split
  · have read := near (c.workerRead_near ev io)
    generalize c.workerRead ev io = r at read ⊢
    obtain ⟨_ | u, d⟩ := r
    · exact read
    · have wrote := read.trans (same (d.workerWrite_same ev io))
      dsimp only at wrote ⊢
      generalize d.workerWrite ev io = r at wrote ⊢
      obtain ⟨_ | u, d'⟩ := r <;> exact wrote
  · cases found : c.clientStreams.lookup ev.token with
    | none => exact .refl c
    | some cs =>
      obtain ⟨found', read⟩ := c.clientRead_spec env io found
      have wrote := same (clientWrite_same io found')
      rcases read with read | ⟨n, read⟩
      · exact (same read).trans wrote
      · have taken : Keeps c (c.received env ev.token cs n) := insert found rfl rfl List.prefix_rfl
        exact (taken.trans (same read)).trans wrote

end Keeps

theorem Told.os (h : Told c) {os : World Token UInt8} : Told { c with os := os } := ⟨h.unix, h.sent⟩

theorem Inlet.os (h : Inlet c k l) {os : World Token UInt8} (input : (os.source k).input = c.input k) :
    Inlet { c with os := os } k l := ⟨input.trans h.wire, h.owned, h.idle⟩

end Loop

namespace Daemon

variable {env : Env} {s s' : Daemon} {lbl : Label} {k : Sock} {l : Link RequestMessage UInt8}

-- what a step brings to a client's socket
def Label.comesTo (k : Sock) : Label → List UInt8
  | .arrive j bytes => if j = k then bytes else []
  | _ => []

structure Inlets (s : Daemon) (k : Sock) (l : Link RequestMessage UInt8) : Prop where
  told : Loop.Told s.flow.state
  inlet : Loop.Inlet s.flow.state k l

theorem start_inlets (k : Sock) : Inlets ⟨.running start, .turn []⟩ k .empty where
  told := ⟨rfl, fun q hq => by cases hq⟩
  inlet := by
    refine ⟨World.modify_input booted unixStream (fun s => s.attach_input workerStreamTk ro) k,
      fun tk p hp => ?_, fun _ => ⟨rfl, rfl⟩⟩
    simp [start, Loop.port, portOf, Flow.state] at hp

theorem step_keeps (settled : Settled s) (hs : Daemon.step env s lbl = some s') :
    Loop.Keeps s.flow.state s'.flow.state := by
  obtain ⟨c, hc, hcase⟩ := step_cases hs
  rw [hc]
  cases hcase with
  | head io phase order => exact .head (settled.settled c hc).plugged io
  | event read fds write ev batch phase =>
    have bound : Loop.Keeps c (c.bindFds fds) := ⟨List.prefix_rfl, fun tk k own => own⟩
    exact bound.trans (.event ev _)
  | poll => exact ⟨List.prefix_rfl, fun tk k own => own⟩
  | master => exact ⟨List.prefix_rfl, fun tk k own => own⟩
  | hangup => exact ⟨List.prefix_rfl, fun tk k own => own⟩
  | arrive => exact ⟨List.prefix_rfl, fun tk k own => own⟩
  | close => exact ⟨List.prefix_rfl, fun tk k own => own⟩
  | pythread => exact ⟨List.prefix_rfl, fun tk k own => own⟩

theorem Inlets.step (h : Inlets s k l) (settled : Settled s) (client : k ≠ unixStream)
    (hs : Daemon.step env s lbl = some s') :
    ∃ l', Loop.Reads env { l with wire := l.wire ++ lbl.comesTo k } l' ∧ Inlets s' k l' := by
  obtain ⟨c, hc, hcase⟩ := step_cases hs
  obtain ⟨told, inlet⟩ := h
  rw [hc] at told inlet
  replace told : Loop.Told c := told
  replace inlet : Loop.Inlet c k l := inlet
  have own := settled.settled c hc
  have quiet : lbl.comesTo k = [] → Inlets s' k l →
      ∃ l', Loop.Reads env { l with wire := l.wire ++ lbl.comesTo k } l' ∧ Inlets s' k l' := by
    intro none kept
    rw [none, List.append_nil]
    exact ⟨l, .idle l, kept⟩
  have apart : k ≠ c.workerStream.stream := told.unix ▸ client
  cases hcase with
  | head io phase order =>
    obtain ⟨told, inlet⟩ := @Loop.Inlet.head env c k l inlet told own.plugged own.housed io
    exact quiet rfl ⟨told, inlet⟩
  | poll events os phase notified =>
    refine quiet rfl ⟨told.os, inlet.os ?_⟩
    obtain ⟨r, w, source, -⟩ := World.notifyAll_deliver notified k
    rw [source]
    rfl
  | event read fds write ev batch phase =>
    have bound : Loop.Inlet (c.bindFds fds) k l := ⟨inlet.wire, inlet.owned, inlet.idle⟩
    obtain ⟨told, l', read, inlet⟩ := @Loop.Inlet.event env _ k l bound ⟨told.unix, told.sent⟩
      ⟨Nat.lt_add_right fds own.housed.unix, own.housed.waiting,
        fun j hj => ⟨Nat.lt_add_right fds (own.housed.fresh j hj).1, (own.housed.fresh j hj).2⟩,
        fun tk j hj => ⟨Nat.lt_add_right fds (own.housed.streams tk j hj).1, (own.housed.streams tk j hj).2⟩,
        own.housed.distinct⟩ apart ev ⟨read, List.range' c.os.next fds, write⟩
    refine ⟨l', ?_, told, inlet⟩
    rwa [show Label.comesTo k (.event _ fds write) = [] from rfl, List.append_nil]
  | master bytes => exact quiet rfl ⟨told.os, inlet.os (congrArg Source.input (World.modify_other _ _ apart))⟩
  | hangup => exact quiet rfl ⟨told.os, inlet.os (congrArg Source.input (World.modify_other _ _ apart))⟩
  | arrive j bytes other =>
    by_cases here : j = k
    · subst here
      rw [Label.comesTo, if_pos rfl]
      exact ⟨_, .idle _, told.os, (by simp [Loop.input, touch, Flow.state, ← inlet.wire]), inlet.owned, inlet.idle⟩
    · refine quiet (if_neg here) ⟨told.os, inlet.os ?_⟩
      exact congrArg Source.input (World.modify_other _ _ (Ne.symm here))
  | close j other =>
    exact quiet rfl ⟨told.os, inlet.os (World.modify_input c.os j (fun s => (rfl : s.close.input = s.input)) k)⟩
  | pythread msgType msg => exact quiet rfl ⟨⟨told.unix, told.sent⟩, inlet.wire, inlet.owned, inlet.idle⟩

end Daemon
end PyProxy.Worker
