import PyProxy.Channel.Report
import PyProxy.Client.Wire
import PyProxy.Worker.Audit
import PyProxy.Worker.Delivery

namespace PyProxy.Session
open Stream Protocol Server Poll Worker

variable {Py Obj : Type}

-- a client behind a socket of the worker; `queued` is what its loop has put in its buffer so far
structure Site where
  client : Flow Client.Error Client.Loop
  queued : List CodeString

structure Cluster where
  flow : Flow Worker.Error Loop
  sites : Sock → Site

namespace Cluster

inductive Label where
  | client (k : Sock) (l : Client.Label)
  | close (k : Sock)
  | master (bytes : List UInt8)
  | head (io : HeadIo)
  | event (ev : Event) (read : ReadIo) (fds : Nat) (write : WriteIo)
  | pythread (msgType : UInt8) (msg : List UInt8)

variable (env : Env)

def setSite (s : Cluster) (k : Sock) (site : Site) : Cluster :=
  { s with sites := fun j => if j = k then site else s.sites j }

def step (s : Cluster) (l : Label) : Option Cluster :=
  match s.flow with
  | .returned _ _ => none
  | .running w =>
    match l with
    | .client k l =>
      match (s.sites k).client with
      | .returned _ _ => none
      | .running c =>
        if k = w.workerStream.stream then none
        else some { s.setSite k ⟨c.step env.bc l, (s.sites k).queued ++ c.takes l⟩ with
          flow := .running (w.arrive k (c.wrote l)) }
    | .close k => some { s with flow := .running { w with os := w.os.modify k .close } }
    | .master bytes => some { s with flow := .running (w.arrive w.workerStream.stream bytes) }
    | .head io =>
      if io.order.Perm (w.takeStreams env io).clientStreams.keys then
        some { s with flow := w.head env io }
      else none
    | .event ev read fds write =>
      some { s with
        flow := (w.bindFds fds).event env ev ⟨read, List.range' w.os.next fds, write⟩ }
    | .pythread msgType msg => some { s with flow := .running (w.pythread msgType msg) }

def host : Host Cluster Label where
  machine := {
    init := ⟨.running start, fun _ => ⟨.running .new, []⟩⟩
    step := step env }
  flow := Cluster.flow
  resume s c := { s with flow := .running c }
  pythread := .pythread
  outside
    | .pythread _ _ => false
    | _ => true

def peers (s : Cluster) (k : Sock) : Peer where
  main := ⟨(s.sites k).client.state.mainStream.outbuffer, [], ro, []⟩
  queued := (s.sites k).queued

variable {env : Env} {python : Python Py Obj} {py : Py} {s s' : Cluster} {l : Label}

inductive StepCase (env : Env) (s : Cluster) (w : Loop) : Label → Cluster → Prop where
  | client (k l c) (running : (s.sites k).client = .running c) (apart : k ≠ w.workerStream.stream) :
      StepCase env s w (.client k l)
        { s.setSite k ⟨c.step env.bc l, (s.sites k).queued ++ c.takes l⟩ with
          flow := .running (w.arrive k (c.wrote l)) }
  | close (k) : StepCase env s w (.close k) { s with flow := .running { w with os := w.os.modify k .close } }
  | master (bytes) :
      StepCase env s w (.master bytes) { s with flow := .running (w.arrive w.workerStream.stream bytes) }
  | head (io) : StepCase env s w (.head io) { s with flow := w.head env io }
  | event (ev read fds write) : StepCase env s w (.event ev read fds write)
      { s with flow := (w.bindFds fds).event env ev ⟨read, List.range' w.os.next fds, write⟩ }
  | pythread (msgType msg) :
      StepCase env s w (.pythread msgType msg) { s with flow := .running (w.pythread msgType msg) }

theorem step_cases (h : step env s l = some s') : ∃ w, s.flow = .running w ∧ StepCase env s w l s' := by
  simp only [step] at h
  cases hf : s.flow with
  | returned => simp [hf] at h
  | running w =>
    refine ⟨w, rfl, ?_⟩
    simp only [hf] at h
    cases l with
    | client k l =>
      dsimp only at h
      cases hc : (s.sites k).client with
      | returned => simp [hc] at h
      | running c =>
        simp only [hc] at h
        obtain ⟨apart, eq⟩ := Option.ite_none_left_eq_some.mp h
        cases eq
        exact .client k l c hc apart
    | close k =>
      cases h
      exact .close k
    | master bytes =>
      cases h
      exact .master bytes
    | head io =>
      obtain ⟨-, eq⟩ := Option.ite_none_right_eq_some.mp h
      cases eq
      exact .head io
    | event ev read fds write =>
      cases h
      exact .event ev read fds write
    | pythread msgType msg =>
      cases h
      exact .pythread msgType msg

theorem host_lawful : (host env).Lawful where
  resumed s c := rfl
  logged s c hc t msg := by
    have hf : s.flow = .running c := hc
    change step env s (.pythread t msg) = _
    simp only [step, hf]
    rfl
  grows s l s' outside h := by
    obtain ⟨w, hw, hcase⟩ := step_cases h
    have hf : (host env).flow s = .running w := hw
    rw [hf]
    cases hcase with
    | client => exact List.prefix_rfl
    | close => exact List.prefix_rfl
    | master => exact List.prefix_rfl
    | head io =>
      obtain ⟨js, queues⟩ := w.head_queues io
      exact ⟨js, queues.sent.symm⟩
    | event ev read fds write =>
      have same := (@Loop.event_kept env (w.bindFds fds) ev ⟨read, List.range' w.os.next fds, write⟩).1
      have jobs : ((w.bindFds fds).event env ev ⟨read, List.range' w.os.next fds, write⟩).state.jobs =
          w.jobs := congrArg (List.map Sent.job) same
      exact ⟨[], (List.append_nil _).trans jobs.symm⟩
    | pythread => cases outside

def setPeer (peers : Sock → Peer) (k : Sock) (p : Peer) : Sock → Peer := fun j => if j = k then p else peers j

theorem queue_all (msgs : List CodeString) (p : Peer) : msgs.foldl (Peer.queue env) p =
    ⟨{ p.main with outbuffer := p.main.outbuffer ++ msgs.flatMap (Client.request env.bc) },
      p.queued ++ msgs⟩ := by
  induction msgs generalizing p with
  | nil => simp
  | cons msg msgs ih =>
    rw [List.foldl_cons, ih]
    simp [Peer.queue, Client.MainStream.queueSourceCode, Client.request]

theorem queues_inv (roundTrips : env.bc.codeString.RoundTrips) {c : Loop} {peers : Sock → Peer} {k : Sock}
    (msgs : List CodeString) (small : ∀ m ∈ msgs, (env.bc.codeString.serialize m).length < 2 ^ 32)
    (p : Peer) (h : Inv env [] c (setPeer peers k p)) :
    Inv env [] c (setPeer peers k (msgs.foldl (Peer.queue env) p)) := by
  induction msgs generalizing p with
  | nil => exact h
  | cons msg msgs ih =>
    refine ih (fun m hm => small m (by simp [hm])) _ ?_
    have queued := @Inv.queue env [] c _ k msg h (frame_encodes roundTrips (small msg (by simp)))
    have same : (fun j => if j = k then (setPeer peers k p k).queue env msg else setPeer peers k p j) =
        setPeer peers k (p.queue env msg) := by
      funext j
      by_cases hj : j = k <;> simp [setPeer, hj]
    rwa [same] at queued

def Small (env : Env) (msg : CodeString) : Prop := (env.bc.codeString.serialize msg).length < 2 ^ 32

def Label.asks (k : Sock) : Label → Option CodeString
  | .client j l => if j = k then l.asks else none
  | _ => none

def waiting (s : Cluster) (k : Sock) : List CodeString :=
  (s.sites k).client.state.codeRecv.map Client.EvalCode.msg

theorem client_inv (roundTrips : env.bc.codeString.RoundTrips) {w : Loop} {k : Sock} {l : Client.Label}
    {c : Client.Loop} (inv : Inv env [] w s.peers) (running : (s.sites k).client = .running c)
    (small : ∀ m ∈ c.takes l, Small env m) :
    Inv env [] (w.arrive k (c.wrote l))
      ({ s.setSite k ⟨c.step env.bc l, (s.sites k).queued ++ c.takes l⟩ with
        flow := .running (w.arrive k (c.wrote l)) } : Cluster).peers := by
  obtain ⟨out, -⟩ := @Client.Loop.step_spec env.bc c l
  have own : s.peers = setPeer s.peers k (s.peers k) := by
    funext j
    by_cases hj : j = k <;> simp [setPeer, hj]
  rw [own] at inv
  have queued := queues_inv roundTrips (c.takes l) small _ inv
  rw [queue_all] at queued
  have buffer : (s.peers k).main.outbuffer = c.mainStream.outbuffer := by simp [peers, running, Flow.state]
  have written := @Inv.write env [] w _ k _ (c.wrote l).length queued rfl
  simp only [setPeer, if_true, buffer, ← out, List.take_left, compact_eq_drop, List.drop_left] at written
  convert written using 1
  funext j
  by_cases hj : j = k
  · simp [peers, setSite, hj]
  · simp [peers, setSite, hj]

structure Delivers (env : Env) (asked : Sock → List CodeString) (s : Cluster) : Prop where
  inv : Inv env [] s.flow.state s.peers
  asked : ∀ k, (s.sites k).queued ++ s.waiting k = asked k

theorem Delivers.step (roundTrips : env.bc.codeString.RoundTrips) {asked : Sock → List CodeString}
    (h : Delivers env asked s) (small : ∀ k, ∀ m ∈ asked k, Small env m)
    (hs : step env s l = some s') : Delivers env (fun k => asked k ++ (l.asks k).toList) s' := by
  obtain ⟨w, hw, hcase⟩ := step_cases hs
  have inv := h.inv
  rw [hw] at inv
  have silent : ∀ k, (s.sites k).queued ++ s.waiting k = asked k ++ [] :=
    fun k => (h.asked k).trans (List.append_nil _).symm
  cases hcase with
  | client k l c running apart =>
    constructor
    · refine client_inv roundTrips inv running fun m hm => small k m ?_
      rw [← h.asked k, waiting, running]
      exact List.mem_append_right _ (Client.Loop.takes_waiting hm)
    · intro j
      rw [← h.asked j]
      by_cases hj : j = k
      · subst hj
        obtain ⟨-, pending⟩ := @Client.Loop.step_spec env.bc c l
        simp only [waiting, setSite, running, if_true, List.append_assoc, Label.asks]
        rw [pending]
        rfl
      · simp [waiting, setSite, hj, Label.asks, Ne.symm hj]
  | close k => exact ⟨inv.same (Loop.same_os (World.modify_input _ _ fun _ => rfl) rfl), silent⟩
  | master bytes => exact ⟨inv.master bytes, silent⟩
  | head io => exact ⟨inv.head io, silent⟩
  | event ev read fds write => exact ⟨inv.event ev read fds write, silent⟩
  | pythread msgType msg => exact ⟨inv.pythread msgType msg, silent⟩

-- the code that the client at `k` is asked to evaluate
def asks (k : Sock) : ThreadLabel Label → Option CodeString
  | .host l => l.asks k
  | _ => none

theorem delivers_run (roundTrips : env.bc.codeString.RoundTrips) {ls : List (ThreadLabel Label)}
    {s : Threaded Cluster Py} (small : ∀ k, ∀ m ∈ ls.filterMap (asks k), Small env m)
    (run : ((host env).threaded env.mc python py).exec ls = some s) :
    Delivers env (fun k => ls.filterMap (asks k)) s.host := by
  induction ls using List.reverseRecOn generalizing s with
  | nil =>
    cases run
    exact ⟨Inv.start, fun k => rfl⟩
  | append_singleton ls l ih =>
    obtain ⟨s₀, hs₀, hl⟩ := Machine.exec_concat_some _ run
    have before : ∀ k, ∀ m ∈ ls.filterMap (asks k), Small env m := by
      intro k m hm
      exact small k m (by rw [List.filterMap_append]; exact List.mem_append_left _ hm)
    have inv := ih before hs₀
    have more : ∀ k, (ls ++ [l]).filterMap (asks k) = ls.filterMap (asks k) ++ (asks k l).toList := by
      intro k
      rw [List.filterMap_append]
      cases hk : asks k l <;> simp [hk]
    simp only [more]
    have quiet : (∀ l', l ≠ .host l') → ∀ k, asks k l = none := by
      intro inner k
      cases l with
      | host l => exact absurd rfl (inner l)
      | _ => rfl
    cases ((Host.step_cases hl).hosted host_lawful).2 with
    | outside l outside step => exact inv.step roundTrips before step
    | same l inner same =>
      simp only [quiet inner, same]
      simpa using inv
    | logged l t msg inner logs step =>
      have step' : Cluster.step env s₀.host (.pythread t msg) = some s.host := step
      simp only [quiet inner]
      exact inv.step roundTrips before step'

def drained (s : Cluster) (k : Sock) : Prop :=
  s.waiting k = [] ∧ (s.sites k).client.state.mainStream.outbuffer = [] ∧ s.flow.state.input k = []

theorem Delivers.sentBy {asked : Sock → List CodeString} (h : Delivers env asked s) {tk : Token}
    {cs : ClientStream} (found : s.flow.state.clientStreams.lookup tk = some cs) :
    (s.flow.state.sentBy tk).map Sent.msg <+: (asked cs.stream).map .codeString ∧
      (s.drained cs.stream → cs.reqMsgs = [] →
        (s.flow.state.sentBy tk).map Sent.msg = (asked cs.stream).map .codeString) := by
  have link := h.inv.links tk _ (Loop.port_lookup found)
  have queued : ((s.peers cs.stream).queued.map (frame env)).map Prod.snd =
      (s.sites cs.stream).queued.map RequestMessage.codeString := by
    simp [frame, peers]
  have part := (List.prefix_append _ _).trans link.got_initial
  rw [← h.asked cs.stream, List.map_append]
  constructor
  · refine part.trans ?_
    simp only [Worker.link, ClientStream.port, queued]
    exact List.prefix_append _ _
  · rintro ⟨waiting, out, input⟩ taken
    have all := link.got_all input out
    simp only [Worker.link, ClientStream.port, queued, taken, List.append_nil] at all
    rw [all, waiting, List.map_nil, List.append_nil]

-- what the interpreter goes through for a session is what its client asked for, each once and in order
theorem executed {env : Env} {python : Python Py Obj} {py : Py}
    (roundTrips : env.bc.codeString.RoundTrips) {ls : List (ThreadLabel Label)} {s : Threaded Cluster Py}
    (small : ∀ k, ∀ m ∈ ls.filterMap (asks k), Small env m)
    (run : ((host env).threaded env.mc python py).exec ls = some s) :
    ∃ done, done <+: s.host.flow.state.threadSender ∧
      s.thread.py = (done.map Sent.job).foldl python.serve py ∧
      (∀ q ∈ done, ∃ cs, s.host.flow.state.clientStreams.lookup q.token = some cs ∧
        q.sessionId = cs.sessionId) ∧
      ∀ tk cs, s.host.flow.state.clientStreams.lookup tk = some cs →
        (done.filter fun q => q.token = tk).map Sent.msg <+:
            (ls.filterMap (asks cs.stream)).map .codeString ∧
          (s.thread.stage = .waiting → s.thread.taken = s.host.flow.state.threadSender.length →
            s.host.drained cs.stream → cs.reqMsgs = [] →
              (done.filter fun q => q.token = tk).map Sent.msg =
                (ls.filterMap (asks cs.stream)).map .codeString) := by
  have delivers := delivers_run roundTrips small run
  obtain ⟨jobs, serving⟩ := Host.serving_run host_lawful run
  have begun : jobs <+: s.host.flow.state.threadSender.map Sent.job :=
    (List.prefix_append _ _).trans serving.split
  have taken : jobs = (s.host.flow.state.threadSender.take jobs.length).map Sent.job := by
    rw [List.map_take]
    exact List.prefix_iff_eq_take.mp begun
  refine ⟨s.host.flow.state.threadSender.take jobs.length, List.take_prefix _ _, ?_, ?_, ?_⟩
  · rw [← taken]
    exact serving.py
  · intro q hq
    obtain ⟨p, hp, id⟩ := delivers.inv.sent q (List.mem_of_mem_take hq)
    obtain ⟨cs, found, rfl⟩ := Loop.lookup_port hp
    exact ⟨cs, found, id⟩
  · intro tk cs found
    obtain ⟨part, whole⟩ := delivers.sentBy found
    refine ⟨(((List.take_prefix _ _).filter _).map _).trans part, fun rest count drained idle => ?_⟩
    have all : jobs.length = s.host.flow.state.threadSender.length := by
      rw [serving.whole (by rw [rest]; rfl) (count.trans (List.length_map ..).symm)]
      exact List.length_map ..
    rw [all, List.take_length]
    exact whole drained idle

def executing : List (ThreadLabel Label) :=
  [.host (.master helloBytes), .host (.event ⟨0, true, false⟩ ⟨8, false⟩ 1 ⟨none, false⟩),
    .host (.head (loopbackHead [1])), .host (.client 1 (.evalStr "a" "x" [] [1])),
    .host (.client 1 (.head Client.quietHead)), .host (.client 1 Client.writeA),
    .host (.event ⟨1, true, false⟩ ⟨4096, false⟩ 0 ⟨none, false⟩),
    .host (.head (loopbackHead [1])), .receive, .print, .handle "t", .finish "t"]

def asking : ThreadLabel Label → Option CodeString
  | .host (.client _ l) => l.asks
  | _ => none

theorem asks_asking {k : Sock} {l : ThreadLabel Label} {m : CodeString} (h : asks k l = some m) :
    asking l = some m := by
  cases l with
  | host l =>
    cases l with
    | client j l => exact (Option.ite_none_right_eq_some.mp h).2
    | _ => cases h
  | _ => cases h

theorem executed_executing : ∃ s, ∃ done : List Sent,
    ((host loopback).threaded loopback.mc Channel.Report.nameless []).exec executing = some s ∧
      s.thread.py = (done.map Sent.job).foldl Channel.Report.nameless.serve [] ∧
      (done.filter fun q => q.token = 1).map Sent.msg = [.codeString loopbackMsg] := by
  have small : ∀ k, ∀ m ∈ executing.filterMap (asks k), Small loopback m := by
    intro k m hm
    obtain ⟨l, hl, h⟩ := List.mem_filterMap.mp hm
    have one : executing.filterMap asking = [loopbackMsg] := rfl
    have asked := List.mem_filterMap.mpr ⟨l, hl, asks_asking h⟩
    rw [one, List.mem_singleton] at asked
    rw [asked, Small]
    decide
  have run : ((host loopback).threaded loopback.mc Channel.Report.nameless []).exec executing =
      some ⟨⟨.running _, _⟩, _⟩ := rfl
  obtain ⟨done, -, py, -, sessions⟩ := executed fixint_codeString_roundTrips small run
  exact ⟨_, done, run, py, (sessions 1 _ rfl).2 rfl rfl ⟨rfl, rfl, rfl⟩ rfl⟩

end Cluster
end PyProxy.Session
