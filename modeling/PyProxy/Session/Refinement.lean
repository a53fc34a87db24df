import PyProxy.Rpc.Service
import PyProxy.Session.Carriage

namespace PyProxy.Session
open Stream Protocol Server Poll Worker Rpc
open Master.Note (bytesOf)

namespace Proxy

variable {Py Obj : Type} {menv : Master.Env} {wenv : Worker.Env} {python : Python Py Obj} {s s' : Proxy Py}
  {next : Sock} {hs : List Handover}

def connAt (s : Proxy Py) (k : Sock) (tk : Token) : Option Sock :=
  ((s.pool.workers k).flow.state.streamOf tk).bind (Pool.Link.conn (s.pool.links k))

structure Serves (python : Python Py Obj) (py : Py) (s : Proxy Py) (k : Sock)
    (performed : List (Sock × RequestMessage)) (done : List Sent) : Prop where
  begun : done <+: (s.pool.workers k).flow.state.threadSender
  serving : Serving python py (s.pool.workers k).flow.state.jobs (s.threads k) (done.map Sent.job)
  served : (performed.map fun p => (some p.1, p.2)) = done.map fun q => (s.connAt k q.token, q.msg)

def Label.asks (conn : Sock) : Label → Option CodeString
  | .client j l => if j = conn then l.asks else none
  | _ => none

def asked (conn : Sock) (ls : List Label) : List CodeString := ls.filterMap (Label.asks conn)

structure Refines (menv : Master.Env) (wenv : Worker.Env) (python : Python Py Obj) (next : Sock) (py : Py)
    (ls : List Label) (s : Proxy Py) (hs : List Handover) (a : Service Sock Sock RequestMessage)
    (done : Sock → List Sent) : Prop where
  wired : Wired menv wenv next s hs
  carried : Carried wenv s
  queue : ∀ conn, (s.parties conn).queued ++ (s.parties conn).waiting = asked conn ls
  runs : Service.Runs .idle a
  caller : ∀ conn, a.caller conn ↔ (s.parties conn).isCaller = true
  wants : ∀ conn, a.asked conn = (asked conn ls).map .codeString
  home : ∀ conn k, a.home conn = some k → ∃ fd, fd ≠ 0 ∧ Pool.Link.conn (s.pool.links k) fd = some conn
  serves : ∀ k, Serves python py s k (a.done k) (done k)

variable {py : Py} {k conn : Sock}

theorem connAt_mono (streams : ∀ tk fd, (s.pool.workers k).flow.state.streamOf tk = some fd →
      (s'.pool.workers k).flow.state.streamOf tk = some fd)
    (passed : (s.pool.links k).passed <+: (s'.pool.links k).passed) {tk : Token} (h : s.connAt k tk = some conn) :
    s'.connAt k tk = some conn := by
  obtain ⟨fd, own, behind⟩ := Option.bind_eq_some_iff.mp h
  rw [connAt, streams tk fd own]
  exact Pool.Link.conn_mono passed behind

theorem served_mono {performed : List (Sock × RequestMessage)} {done : List Sent}
    (mono : ∀ tk conn, s.connAt k tk = some conn → s'.connAt k tk = some conn)
    (h : (performed.map fun p => (some p.1, p.2)) = done.map fun q => (s.connAt k q.token, q.msg)) :
    (performed.map fun p => (some p.1, p.2)) = done.map fun q => (s'.connAt k q.token, q.msg) := by
  rw [h]
  refine List.map_congr_left fun q hq => ?_
  have mem : (s.connAt k q.token, q.msg) ∈ performed.map fun p => (some p.1, p.2) := h ▸ List.mem_map_of_mem hq
  obtain ⟨p, -, eq⟩ := List.mem_map.mp mem
  have found : s.connAt k q.token = some p.1 := (congrArg Prod.fst eq).symm
  rw [found, mono q.token p.1 found]

theorem Serves.mono {performed : List (Sock × RequestMessage)} {done : List Sent}
    (h : Serves python py s k performed done)
    (keeps : Loop.Keeps (s.pool.workers k).flow.state (s'.pool.workers k).flow.state)
    (passed : (s.pool.links k).passed <+: (s'.pool.links k).passed) (same : s'.threads k = s.threads k) :
    Serves python py s' k performed done where
  begun := h.begun.trans keeps.sent
  serving := by
    rw [same]
    exact h.serving.grow (keeps.sent.map Sent.job)
  served := served_mono (fun _ _ => connAt_mono keeps.streams passed) h.served

theorem Serves.performedFor {performed : List (Sock × RequestMessage)} {done : List Sent} {tk : Token}
    (h : Serves python py s k performed done) (one : ∀ tk', s.connAt k tk' = some conn → tk' = tk)
    (here : s.connAt k tk = some conn) :
    ((performed.filter fun p => p.1 = conn).map Prod.snd) = (done.filter fun q => q.token = tk).map Sent.msg := by
  have filtered := congrArg (fun l => (l.filter fun p => p.1 = some conn).map Prod.snd) h.served
  simp only [List.filter_map, List.map_map, Function.comp_def] at filtered
  have mine : ∀ q : Sent, decide (s.connAt k q.token = some conn) = decide (q.token = tk) := by
    intro q
    refine decide_eq_decide.mpr ⟨one q.token, fun own => own ▸ here⟩
  simpa only [Option.some.injEq, mine] using filtered

theorem connAt_running {w : Loop} (running : (s.pool.workers k).flow = .running w) (tk : Token) :
    s.connAt k tk = s.pool.connOf k tk := by
  rw [connAt, Pool.connOf, running]
  rfl

theorem Carried.got (h : Carried wenv s) {tk : Token} {p : Port} (client : p.stream ≠ 0)
    (port : (s.pool.workers k).flow.state.port tk = some p)
    (behind : Pool.Link.conn (s.pool.links k) p.stream = some conn) (caller : (s.parties conn).isCaller = true) :
    ((s.pool.workers k).flow.state.sentBy tk).map Sent.msg ++ p.reqMsgs <+:
        (s.parties conn).queued.map .codeString ∧
      ((s.pool.workers k).flow.state.input p.stream = [] → (s.parties conn).rest = [] → (s.parties conn).unsent = [] →
        ((s.pool.workers k).flow.state.sentBy tk).map Sent.msg ++ p.reqMsgs =
          (s.parties conn).queued.map .codeString) := by
  obtain ⟨l, inlets, carries⟩ := h.links k p.stream client
  rw [behind] at carries
  obtain ⟨sound, queued, out⟩ := carries caller
  obtain ⟨-, got⟩ := inlets.inlet.owned tk p port rfl
  have msgs : l.queued.map Prod.snd = (s.parties conn).queued.map .codeString := by
    rw [queued, List.map_map]
    rfl
  rw [got, ← msgs]
  refine ⟨sound.got_initial, fun input rest unsent => sound.got_all (inlets.inlet.wire.symm.trans input) ?_⟩
  rw [out, rest, unsent, List.append_nil]

section
variable {ls : List Label} {a : Service Sock Sock RequestMessage} {done : Sock → List Sent}

theorem Refines.alone (h : Refines menv wenv python next py ls s hs a done) {w : Loop}
    (running : (s.pool.workers k).flow = .running w) {tk : Token} (here : s.connAt k tk = some conn) (tk' : Token)
    (there : s.connAt k tk' = some conn) : tk' = tk := by
  rw [connAt_running running] at here there
  exact (h.wired.pool.one_token there here).2

theorem Refines.perform (h : Refines menv wenv python next py ls s hs a done) {w : Loop}
    (running : (s.pool.workers k).flow = .running w) {q : Sent} (begins : done k ++ [q] <+: w.threadSender) :
    ∃ fd conn, fd ≠ 0 ∧ Pool.Link.conn (s.pool.links k) fd = some conn ∧ s.connAt k q.token = some conn ∧
      Service.Step a (a.perform k conn q.msg) := by
  have state : (s.pool.workers k).flow.state = w := by rw [running]; rfl
  obtain ⟨l, inlets, -⟩ := h.carried.links k 1 (by decide)
  obtain ⟨p, port, -⟩ := inlets.told.sent q (state ▸ begins.subset (by simp))
  have own := Loop.streamOf_port port
  rw [state] at own
  obtain ⟨header, conn, -, -, pos, behind, -⟩ := h.wired.pool.numbered running own
  have here : s.connAt k q.token = some conn := by rw [connAt, state, own]; exact behind
  refine ⟨p.stream, conn, Nat.ne_of_gt pos, behind, here, .perform k conn q.msg (fun v home => ?_) fun caller => ?_⟩
  · obtain ⟨fd', pos', behind'⟩ := h.home conn v home
    exact (h.wired.pool.one_descriptor (Nat.pos_of_ne_zero pos') pos behind' behind).1
  · have before : a.doneFor k conn = ((done k).filter fun q' => q'.token = q.token).map Sent.msg :=
      (h.serves k).performedFor (h.alone running here) here
    have sent : a.doneFor k conn ++ [q.msg] <+: (w.sentBy q.token).map Sent.msg := by
      have part := (begins.filter fun q' => decide (q'.token = q.token)).map Sent.msg
      rw [before]
      simpa [List.filter_append, Loop.sentBy] using part
    have got := (h.carried.got (Nat.ne_of_gt pos) port behind ((h.caller conn).mp caller)).1
    rw [state] at got
    have wants : (s.parties conn).queued.map RequestMessage.codeString <+: a.asked conn := by
      rw [h.wants, ← h.queue, List.map_append]
      exact List.prefix_append _ _
    exact (sent.trans (List.prefix_append _ _)).trans (got.trans wants)

theorem asked_concat (conn : Sock) (ls : List Label) (l : Label) :
    asked conn (ls ++ [l]) = asked conn ls ++ (l.asks conn).toList := by
  rw [asked, List.filterMap_append]
  cases hl : l.asks conn <;> simp [asked, hl]

theorem Refines.still (h : Refines menv wenv python next py ls s hs a done) {l : Label} {hs' : List Handover}
    (silent : ∀ conn, l.asks conn = none) (wired : Wired menv wenv next s' hs') (carried : Carried wenv s')
    (parties : ∀ conn, (s'.parties conn).client = (s.parties conn).client ∧
      (s'.parties conn).queued = (s.parties conn).queued)
    (passed : ∀ k, (s.pool.links k).passed <+: (s'.pool.links k).passed)
    (keeps : ∀ k, Loop.Keeps (s.pool.workers k).flow.state (s'.pool.workers k).flow.state)
    (threads : s'.threads = s.threads) : Refines menv wenv python next py (ls ++ [l]) s' hs' a done := by
  have same : ∀ conn, asked conn (ls ++ [l]) = asked conn ls := fun conn => by
    rw [asked_concat, silent]
    exact List.append_nil _
  refine ⟨wired, carried, fun conn => ?_, h.runs, fun conn => ?_, fun conn => ?_, fun conn k home => ?_, fun k => ?_⟩
  · rw [same, ← h.queue, (parties conn).2, Party.waiting, Party.waiting, (parties conn).1]
  · rw [h.caller, Party.isCaller, Party.isCaller, (parties conn).1]
  · rw [same, h.wants]
  · obtain ⟨fd, pos, behind⟩ := h.home conn k home
    exact ⟨fd, pos, Pool.Link.conn_mono (passed k) behind⟩
  · exact (h.serves k).mono (keeps k) (passed k) (congrFun threads k)

theorem Refines.dial (h : Refines menv wenv python next py ls s hs a done)
    (stranger : (s.parties conn).client = none) (unwritten : (s.parties conn).written = []) :
    Refines menv wenv python next py (ls ++ [.dial conn]) (s.setParty conn (s.parties conn).dial) hs
      (a.dial conn) done := by
  have same : ∀ j, asked j (ls ++ [.dial conn]) = asked j ls := fun j => by
    rw [asked_concat]
    exact List.append_nil _
  have fresh : a.home conn = none := by
    cases home : a.home conn with
    | none => rfl
    | some k =>
      obtain ⟨fd, -, behind⟩ := h.home conn k home
      have long := h.wired.written_length behind
      rw [unwritten] at long
      exact absurd long (by decide)
  refine ⟨h.wired.dial stranger unwritten, h.carried.dial h.wired unwritten, fun j => ?_,
    h.runs.tail (.dial conn fresh), fun j => ?_, fun j => (h.wants j).trans ?_, h.home, fun k => ?_⟩
  · rw [same, ← h.queue]
    rcases s.setParty_cases conn (s.parties conn).dial j with ⟨rfl, eq⟩ | ⟨-, eq⟩ <;> rw [eq]
    simp [Party.dial, Party.waiting, stranger, Client.Loop.new, Flow.state]
  · rcases s.setParty_cases conn (s.parties conn).dial j with ⟨rfl, eq⟩ | ⟨other, eq⟩ <;> rw [eq]
    · simp [Service.dial, Party.dial, Party.isCaller]
    · simp [Service.dial, other, h.caller]
  · rw [same]
  · exact (h.serves k).mono (.refl _) List.prefix_rfl rfl

theorem Refines.act (h : Refines menv wenv python next py ls s hs a done)
    (roundTrips : wenv.bc.codeString.RoundTrips) (small : ∀ conn, ∀ m ∈ asked conn ls, Cluster.Small wenv m)
    {c : Client.Loop} (running : (s.parties conn).client = some (.running c)) (l : Client.Label) :
    ∃ a', Refines menv wenv python next py (ls ++ [.client conn l])
      (s.setParty conn ((s.parties conn).act wenv.bc c l)) hs a' done := by
  have mine : asked conn (ls ++ [.client conn l]) = asked conn ls ++ l.asks.toList := by
    rw [asked_concat, Label.asks, if_pos rfl]
  have other : ∀ j, j ≠ conn → asked j (ls ++ [.client conn l]) = asked j ls := fun j apart => by
    rw [asked_concat, Label.asks, if_neg (Ne.symm apart)]
    exact List.append_nil _
  have called : (s.parties conn).isCaller = true := by rw [Party.isCaller, running]; rfl
  have carried := h.carried.act h.wired roundTrips running l fun m hm =>
    small conn m (h.queue conn ▸ List.mem_append_right _ hm)
  have queue : ∀ j, ((s.setParty conn ((s.parties conn).act wenv.bc c l)).parties j).queued ++
      ((s.setParty conn ((s.parties conn).act wenv.bc c l)).parties j).waiting = asked j (ls ++ [.client conn l]) := by
    intro j
    rcases s.setParty_cases conn ((s.parties conn).act wenv.bc c l) j with ⟨rfl, eq⟩ | ⟨apart, eq⟩ <;> rw [eq]
    · have pending := (@Client.Loop.step_spec wenv.bc c l).2
      rw [mine, ← h.queue]
      simp only [Party.act, Party.waiting, running, Option.elim_some, List.append_assoc]
      rw [pending]
      rfl
    · rw [other j apart, ← h.queue]
  have callers : ∀ j, a.caller j ↔
      ((s.setParty conn ((s.parties conn).act wenv.bc c l)).parties j).isCaller = true := by
    intro j
    rw [h.caller]
    rcases s.setParty_cases conn ((s.parties conn).act wenv.bc c l) j with ⟨rfl, eq⟩ | ⟨-, eq⟩ <;> rw [eq]
    simp [Party.act, Party.isCaller, running]
  have serves : ∀ k, Serves python py (s.setParty conn ((s.parties conn).act wenv.bc c l)) k (a.done k) (done k) :=
    fun k => (h.serves k).mono (.refl _) List.prefix_rfl rfl
  cases asks : l.asks with
  | none =>
    refine ⟨a, h.wired.act running l, carried, queue, h.runs, callers, fun j => (h.wants j).trans ?_, h.home, serves⟩
    by_cases here : j = conn
    · rw [here, mine, asks, Option.toList_none, List.append_nil]
    · rw [other j here]
  | some m =>
    refine ⟨a.ask conn (.codeString m), h.wired.act running l, carried, queue,
      h.runs.tail (.ask conn _ ((h.caller conn).mpr called)), callers, fun j => ?_, h.home, serves⟩
    change (if j = conn then _ else _) = _
    split
    · rename_i here
      rw [here, mine, asks, h.wants, List.map_append]
      rfl
    · rename_i here
      rw [other j here, h.wants]

theorem keeps_worker (wired : Wired menv wenv next s hs) {j : Sock} {l : Daemon.Label} {pool : Pool}
    (step : s.pool.stepWorker wenv j l = some pool) :
    (∀ k, Loop.Keeps (s.pool.workers k).flow.state (pool.workers k).flow.state) ∧
      ∀ k, (s.pool.links k).passed <+: (pool.links k).passed := by
  obtain ⟨d, moved, workers, passed⟩ := Pool.stepWorker_keeps step
  refine ⟨fun k => ?_, fun k => passed k ▸ List.prefix_rfl⟩
  rw [workers]
  dsimp only
  split
  · rename_i here
    subst here
    exact Daemon.step_keeps (wired.pool.settled k) moved
  · exact .refl _

theorem Refines.worker (h : Refines menv wenv python next py ls s hs a done) {k : Sock} {l : Daemon.Label}
    {label : Label} {pool : Pool} (silent : ∀ conn, label.asks conn = none) (none : ∀ fd, l.comesTo fd = [])
    (step : s.pool.stepWorker wenv k l = some pool) :
    Refines menv wenv python next py (ls ++ [label]) { s with pool := pool }
      (hs ++ s.pool.handovers menv (.worker k l)) a done := by
  obtain ⟨keeps, passed⟩ := keeps_worker h.wired step
  exact h.still silent (h.wired.worker step s.threads) (h.carried.worker h.wired.pool.settled none step s.threads)
    (fun _ => ⟨rfl, rfl⟩) passed keeps rfl

theorem Refines.serve (h : Refines menv wenv python next py ls s hs a done) {threads : Sock → Thread Py}
    {a' : Service Sock Sock RequestMessage} {done' : Sock → List Sent} (runs : Service.Runs .idle a')
    (callers : a'.caller = a.caller) (wants : a'.asked = a.asked)
    (home : ∀ conn k, a'.home conn = some k → ∃ fd, fd ≠ 0 ∧ Pool.Link.conn (s.pool.links k) fd = some conn)
    (serves : ∀ k, Serves python py { s with threads := threads } k (a'.done k) (done' k)) :
    Refines menv wenv python next py ls { s with threads := threads } hs a' done' :=
  ⟨⟨h.wired.pool, h.wired.heard, h.wired.wrote, h.wired.unasked, h.wired.used, h.wired.room⟩,
    ⟨fun k fd client => by
      obtain ⟨l, inlets, carries⟩ := h.carried.links k fd client
      exact ⟨l, inlets, carries.party fun _ _ => rfl⟩⟩,
    h.queue, runs, fun conn => callers ▸ h.caller conn, fun conn => wants ▸ h.wants conn, home, serves⟩

theorem through_cases (st st' : Stage) : st.through st' = [] ∨ ∃ job, st = .printed job ∧ st.through st' = [job] := by
  cases st with
  | printed job => cases st' <;> first | exact .inl rfl | exact .inr ⟨job, rfl, rfl⟩
  | _ => exact .inl rfl

theorem next_sent {done sent : List Sent} {job : Job} (begun : done <+: sent)
    (next : done.map Sent.job ++ [job] <+: sent.map Sent.job) : ∃ q, q.job = job ∧ done ++ [q] <+: sent := by
  obtain ⟨rest, rfl⟩ := begun
  rw [List.map_append, List.prefix_append_right_inj] at next
  cases rest with
  | nil => exact absurd next.length_le (by simp)
  | cons q rest =>
    have eq := List.cons_prefix_cons.mp next
    exact ⟨q, eq.1.symm, rest, by simp⟩

theorem Refines.master (h : Refines menv wenv python next py ls s hs a done) (inOrder : menv.fdQueue.InOrder)
    (roundTrips : wenv.bc.codeString.RoundTrips) (small : ∀ conn, ∀ m ∈ asked conn ls, Cluster.Small wenv m)
    {l : Master.Label} {pool : Pool} (lossless : s.pool.master.Lossless menv l)
    (came : ∀ n ∈ s.pool.master.noted l, bytesOf n.sock (s.pool.master.noted l) <+:
      (s.parties n.sock).written.drop (s.parties n.sock).reached) (step : s.pool.stepMaster menv l = some pool) :
    Refines menv wenv python next py (ls ++ [.master l]) { s with
      pool := pool
      parties := fun conn => (s.parties conn).reach (bytesOf conn (s.pool.master.noted l)).length }
      (hs ++ s.pool.handovers menv (.master l)) a done := by
  obtain ⟨workers, passed⟩ := Pool.stepMaster_keeps step
  have wired := h.wired.master inOrder lossless came step
  refine h.still (fun _ => rfl) wired ?_ (fun j => ⟨rfl, rfl⟩) passed (fun k => ?_) rfl
  · refine h.carried.master h.wired roundTrips (fun conn _ m hm => small conn m ?_) workers passed wired
    exact h.queue conn ▸ List.mem_append_left _ hm
  · change Loop.Keeps _ (pool.workers k).flow.state
    rw [workers]
    exact .refl _

theorem Refines.arrive (h : Refines menv wenv python next py ls s hs a done) {fd : Sock} {bytes : List UInt8}
    {pool : Pool} (behind : Pool.Link.conn (s.pool.links k) fd = some conn) (came : bytes <+: (s.parties conn).rest)
    (step : s.pool.stepWorker wenv k (.arrive fd bytes) = some pool) :
    Refines menv wenv python next py (ls ++ [.worker k (.host (.arrive fd bytes))])
      ({ s with pool := pool }.setParty conn ((s.parties conn).take bytes.length))
      (hs ++ s.pool.handovers menv (.worker k (.arrive fd bytes))) a done := by
  obtain ⟨keeps, passed⟩ := keeps_worker h.wired step
  obtain ⟨d, moved, -, -⟩ := Pool.stepWorker_keeps step
  have client : fd ≠ 0 := by
    obtain ⟨l, inlets, -⟩ := h.carried.links k 1 (by decide)
    obtain ⟨c, hc, hcase⟩ := Daemon.step_cases moved
    cases hcase with
    | arrive _ _ other =>
      have unix := inlets.told.unix
      rw [hc] at unix
      exact fun zero => other (zero.trans unix.symm)
  have there : Pool.Link.conn (pool.links k) fd = some conn := Pool.Link.conn_mono (passed k) behind
  refine h.still (fun _ => rfl) (Wired.take (h.wired.worker step s.threads) client there came.length_le)
    (h.carried.arrive h.wired client behind came step) (fun j => ?_) passed keeps rfl
  rcases { s with pool := pool }.setParty_cases conn ((s.parties conn).take bytes.length) j with
    ⟨rfl, eq⟩ | ⟨-, eq⟩ <;> rw [eq] <;> exact ⟨rfl, rfl⟩

theorem Refines.beneath (h : Refines menv wenv python next py ls s hs a done) {l : ThreadLabel Daemon.Label}
    {d : Daemon} (inner : ∀ l', l ≠ .host l') (hosted : Host.Hosted (Daemon.host wenv) wenv.mc (s.pool.workers k) d l) :
    ∃ hs', Refines menv wenv python next py (ls ++ [.worker k l])
        { s with pool := { s.pool with workers := fun j => if j = k then d else s.pool.workers j } } hs' a done ∧
      Loop.Keeps (s.pool.workers k).flow.state (if k = k then d else s.pool.workers k).flow.state := by
  have silent : ∀ conn, (Label.worker k l).asks conn = none := fun _ => rfl
  rcases Pool.stepThread hosted inner with same | ⟨ty, msg, step⟩
  · have still := h.still silent h.wired h.carried (fun _ => ⟨rfl, rfl⟩) (fun _ => List.prefix_rfl)
      (fun _ => .refl _) rfl
    have workers := congrFun (congrArg Pool.workers same) k
    dsimp only at workers
    rw [same, workers]
    exact ⟨_, still, .refl _⟩
  · exact ⟨_, h.worker silent (fun _ => rfl) step, (keeps_worker h.wired step).1 k⟩

-- the interpreter has been through the next request of the queue, for the connection behind its stream
theorem Refines.performed (h : Refines menv wenv python next py ls s hs a done) {w : Loop}
    (running : (s.pool.workers k).flow = .running w) {job : Job} (stage : (s.threads k).stage = .printed job) :
    ∃ conn q, q.job = job ∧ done k ++ [q] <+: w.threadSender ∧ s.connAt k q.token = some conn ∧
      (∃ fd, fd ≠ 0 ∧ Pool.Link.conn (s.pool.links k) fd = some conn) ∧
        Service.Step a (a.perform k conn q.msg) := by
  have pending := (h.serves k).serving.split
  rw [stage, running] at pending
  have first := (h.serves k).begun
  rw [running] at first
  obtain ⟨q, same, begins⟩ := next_sent first pending
  obtain ⟨fd, conn, pos, behind, here, performs⟩ := h.perform running begins
  exact ⟨conn, q, same, begins, here, ⟨fd, pos, behind⟩, performs⟩

theorem Refines.thread (h : Refines menv wenv python next py ls s hs a done) {l : ThreadLabel Daemon.Label}
    {t : Threaded Daemon Py} {w : Loop} (running : (s.pool.workers k).flow = .running w)
    (inner : ∀ l', l ≠ .host l')
    (step : Host.StepCase (Daemon.host wenv) wenv.mc python ⟨s.pool.workers k, s.threads k⟩ l t) :
    ∃ hs' a' done', Refines menv wenv python next py (ls ++ [.worker k l]) { s with
      pool := { s.pool with workers := fun j => if j = k then t.host else s.pool.workers j }
      threads := fun j => if j = k then t.thread else s.threads j } hs' a' done' := by
  have state : (s.pool.workers k).flow.state = w := by rw [running]; rfl
  obtain ⟨hs', moved, keeps⟩ := h.beneath inner (step.hosted Daemon.host_lawful).2
  have serving := step.serving Daemon.host_lawful (h.serves k).serving
  have others : ∀ j, j ≠ k → Serves python py { s with
      pool := { s.pool with workers := fun j => if j = k then t.host else s.pool.workers j }
      threads := fun j => if j = k then t.thread else s.threads j } j (a.done j) (done j) :=
    fun j apart => (moved.serves j).mono (.refl _) List.prefix_rfl (if_neg apart)
  obtain ⟨begun, -, served⟩ := moved.serves k
  rcases through_cases (s.threads k).stage t.thread.stage with idle | ⟨job, stage, ran⟩
  · refine ⟨hs', a, done, moved.serve moved.runs rfl rfl moved.home fun j => ?_⟩
    by_cases here : j = k
    · subst here
      refine ⟨begun, ?_, served⟩
      dsimp only
      rw [if_pos rfl, if_pos rfl]
      rw [idle, List.append_nil] at serving
      exact serving
    · exact others j here
  · obtain ⟨conn, q, rfl, begins, here, behind, performs⟩ := h.performed running stage
    have after : connAt { s with
        pool := { s.pool with workers := fun j => if j = k then t.host else s.pool.workers j } } k q.token =
          some conn := by
      refine connAt_mono (s := s) ?_ ?_ here
      · exact keeps.streams
      · exact List.prefix_rfl
    refine ⟨hs', a.perform k conn q.msg, fun j => if j = k then done k ++ [q] else done j,
      moved.serve (h.runs.tail performs) rfl rfl (fun conn' v home => ?_) fun j => ?_⟩
    · change (if conn' = conn then some k else a.home conn') = some v at home
      split at home
      · rename_i same
        cases home
        exact same ▸ behind
      · exact h.home conn' v home
    · by_cases same : j = k
      · subst same
        simp only [Service.perform, if_true]
        refine ⟨?_, ?_, ?_⟩
        · rw [← state] at begins
          exact begins.trans keeps.sent
        · dsimp only
          rw [if_pos rfl, if_pos rfl, List.map_append]
          rw [ran] at serving
          exact serving
        · rw [List.map_append, List.map_append, served]
          exact congrArg (fun x => _ ++ [(x, q.msg)]) after.symm
      · simp only [Service.perform, if_neg same]
        exact others j same

theorem Refines.step {l : Label} (h : Refines menv wenv python next py ls s hs a done)
    (inOrder : menv.fdQueue.InOrder) (lossless : Lossless menv s l)
    (roundTrips : wenv.bc.codeString.RoundTrips) (small : ∀ conn, ∀ m ∈ asked conn ls, Cluster.Small wenv m)
    (hs : StepCase menv wenv python s l s') :
    ∃ hs' a' done', Refines menv wenv python next py (ls ++ [l]) s' hs' a' done' := by
  cases hs with
  | dial conn stranger unwritten => exact ⟨_, _, _, h.dial stranger unwritten⟩
  | client conn l c running =>
    obtain ⟨a', refines⟩ := h.act roundTrips small running l
    exact ⟨_, a', _, refines⟩
  | stranger conn bytes stranger =>
    refine ⟨_, _, _, h.still (fun _ => rfl) (h.wired.write stranger bytes) ?_ (fun j => ?_) (fun k => List.prefix_rfl)
      (fun _ => .refl _) rfl⟩
    · exact h.carried.write stranger bytes
    · rcases s.setParty_cases conn ((s.parties conn).write bytes) j with ⟨rfl, eq⟩ | ⟨-, eq⟩ <;> rw [eq] <;>
        exact ⟨rfl, rfl⟩
  | master l pool came step => exact ⟨_, _, _, h.master inOrder roundTrips small lossless came step⟩
  | arrive k fd bytes conn pool behind came step => exact ⟨_, _, _, h.arrive behind came step⟩
  | worker k l pool outside none step => exact ⟨_, _, _, h.worker (fun _ => rfl) none step⟩
  | thread k l t w running inner step => exact h.thread running inner step

theorem refines_run (inOrder : menv.fdQueue.InOrder) (roundTrips : wenv.bc.codeString.RoundTrips) {ls : List Label}
    (small : ∀ conn, ∀ m ∈ asked conn ls, Cluster.Small wenv m)
    (lossless : (machine menv wenv python next py).Along (Lossless menv) ls)
    (run : (machine menv wenv python next py).exec ls = some s) :
    ∃ hs a done, Refines menv wenv python next py ls s hs a done := by
  induction ls using List.reverseRecOn generalizing s with
  | nil =>
    cases run
    refine ⟨[], .idle, fun _ => [], Wired.init next py, Carried.init next py, fun _ => rfl, .refl, fun _ => ?_,
      fun _ => rfl, (fun _ _ home => by cases home), fun k => ⟨List.nil_prefix, ?_, rfl⟩⟩
    · exact ⟨fun known => known.elim, fun called => by cases called⟩
    · exact ⟨List.nil_prefix, rfl, rfl, fun _ => nofun⟩
  | append_singleton ls l ih =>
    obtain ⟨s₀, run₀, step⟩ := Machine.exec_concat_some _ run
    have before : ∀ conn, ∀ m ∈ asked conn ls, Cluster.Small wenv m := fun conn m hm => by
      refine small conn m ?_
      rw [asked_concat]
      exact List.mem_append_left _ hm
    obtain ⟨spared, last⟩ := (Machine.along_snoc run₀).mp lossless
    obtain ⟨hs, a, done, h⟩ := ih before spared run₀
    exact h.step inOrder last roundTrips before (step_cases step)

end

-- all that the process at `conn` asked for has come to the worker's thread, which waits for more
structure Drained (s : Proxy Py) (k : Sock) (tk : Token) (conn : Sock) : Prop where
  serves : s.pool.connOf k tk = some conn
  waiting : (s.parties conn).waiting = []
  unsent : (s.parties conn).unsent = []
  rest : (s.parties conn).rest = []
  port : ∀ p ∈ (s.pool.workers k).flow.state.port tk,
    (s.pool.workers k).flow.state.input p.stream = [] ∧ p.reqMsgs = []
  stage : (s.threads k).stage = .waiting
  taken : (s.threads k).taken = (s.pool.workers k).flow.state.threadSender.length

instance {tk : Token} : Decidable (s.Drained k tk conn) :=
  decidable_of_iff (s.pool.connOf k tk = some conn ∧ (s.parties conn).waiting = [] ∧ (s.parties conn).unsent = [] ∧
      (s.parties conn).rest = [] ∧ (∀ p ∈ (s.pool.workers k).flow.state.port tk,
        (s.pool.workers k).flow.state.input p.stream = [] ∧ p.reqMsgs = []) ∧ (s.threads k).stage = .waiting ∧
      (s.threads k).taken = (s.pool.workers k).flow.state.threadSender.length)
    ⟨fun ⟨serves, waiting, unsent, rest, port, stage, taken⟩ => ⟨serves, waiting, unsent, rest, port, stage, taken⟩,
      fun h => ⟨h.serves, h.waiting, h.unsent, h.rest, h.port, h.stage, h.taken⟩⟩

theorem Refines.drained {ls : List Label} {a : Service Sock Sock RequestMessage} {done : Sock → List Sent}
    (h : Refines menv wenv python next py ls s hs a done) {tk : Token} (drained : s.Drained k tk conn)
    (caller : a.caller conn) : a.doneFor k conn = a.asked conn := by
  obtain ⟨w, fd, running, own, behind⟩ := Pool.connOf_some.mp drained.serves
  have state : (s.pool.workers k).flow.state = w := by rw [running]; rfl
  obtain ⟨cs, found, rfl⟩ := Option.map_eq_some_iff.mp own
  have port := Loop.port_lookup found
  rw [← state] at port
  obtain ⟨input, idle⟩ := drained.port _ port
  obtain ⟨-, -, -, -, pos, -⟩ := h.wired.pool.numbered running own
  have whole := (h.carried.got (Nat.ne_of_gt pos) port behind ((h.caller conn).mp caller)).2 input drained.rest
    drained.unsent
  have all : done k = (s.pool.workers k).flow.state.threadSender := by
    have jobs := (h.serves k).serving.whole (by rw [drained.stage]; rfl) (drained.taken.trans (List.length_map ..).symm)
    refine (h.serves k).begun.eq_of_length ?_
    have count := congrArg List.length jobs
    rwa [List.length_map, Loop.jobs, List.length_map] at count
  have here : s.connAt k tk = some conn := (connAt_running running tk).trans drained.serves
  have performed : a.doneFor k conn = ((done k).filter fun q => q.token = tk).map Sent.msg :=
    (h.serves k).performedFor (h.alone running here) here
  rw [performed, all, h.wants, ← h.queue, drained.waiting, List.append_nil, ← whole, idle, List.append_nil]
  rfl

structure Realises (python : Python Py Obj) (py : Py) (ls : List Label) (s : Proxy Py)
    (a : Service Sock Sock RequestMessage) : Prop where
  caller : ∀ conn, a.caller conn ↔ (s.parties conn).isCaller = true
  asked : ∀ conn, a.asked conn = (asked conn ls).map .codeString
  home : ∀ conn k, a.home conn = some k → ∃ fd, Pool.Link.conn (s.pool.links k) fd = some conn
  done : ∀ k, (s.threads k).py = (a.done k).foldl (fun state p => (python.execute p.2 state).2) py
  all : ∀ k tk conn, a.caller conn → s.Drained k tk conn → a.performed conn = a.asked conn

theorem refines_service (inOrder : menv.fdQueue.InOrder) (roundTrips : wenv.bc.codeString.RoundTrips)
    {ls : List Label} (small : ∀ conn, ∀ m ∈ asked conn ls, Cluster.Small wenv m)
    (lossless : (machine menv wenv python next py).Along (Lossless menv) ls)
    (run : (machine menv wenv python next py).exec ls = some s) :
    ∃ a : Service Sock Sock RequestMessage, Service.Runs .idle a ∧ a.Sound ∧ Realises python py ls s a := by
  obtain ⟨hs, a, done, h⟩ := refines_run inOrder roundTrips small lossless run
  have sound := Service.sound_run h.runs
  refine ⟨a, h.runs, sound, h.caller, h.wants, fun conn k home => ?_, fun k => ?_, fun k tk conn caller drained => ?_⟩
  · obtain ⟨fd, -, behind⟩ := h.home conn k home
    exact ⟨fd, behind⟩
  · have msgs : (a.done k).map Prod.snd = (done k).map Sent.msg := by
      have both := congrArg (List.map Prod.snd) (h.serves k).served
      rwa [List.map_map, List.map_map] at both
    rw [(h.serves k).serving.py]
    calc ((done k).map Sent.job).foldl python.serve py
        = ((done k).map Sent.msg).foldl (fun state m => (python.execute m state).2) py := by
          rw [List.foldl_map, List.foldl_map]
          rfl
      _ = (a.done k).foldl (fun state p => (python.execute p.2 state).2) py := by
          rw [← msgs, List.foldl_map]
  · exact sound.performed_all caller (h.drained drained caller)

def Label.ofPool : Pool.Label → Label
  | .master l => .master l
  | .worker k l => .worker k (.host l)

def evaluation : List Label := .dial 6 :: Pool.introduction.map Label.ofPool ++
  [.client 6 (.evalStr "a" "x" [] [1]), .client 6 (.head Client.quietHead), .client 6 Client.writeA,
    .worker 5 (.host (.arrive 1 (Client.request fixint loopbackMsg))), .worker 5 (.host (.poll [⟨1, true, false⟩])),
    .worker 5 (.host (.event ⟨4096, false⟩ 0 ⟨none, false⟩)), .worker 5 (.host (.head (loopbackHead [1]))),
    .worker 5 .receive, .worker 5 .print, .worker 5 (.handle "t"), .worker 5 (.finish "t")]

theorem refines_service_evaluation : ∃ s, ∃ a : Service Sock Sock RequestMessage,
    (machine Master.System.fixintEnv loopback Channel.Report.nameless 5 []).exec evaluation = some s ∧
      Service.Runs .idle a ∧ Realises Channel.Report.nameless [] evaluation s a ∧
        a.performed 6 = [.codeString loopbackMsg] := by
  have small : ∀ conn, ∀ m ∈ asked conn evaluation, Cluster.Small loopback m := by
    intro conn m hm
    rcases eq_or_ne 6 conn with rfl | other
    · have one : asked 6 evaluation = [loopbackMsg] := rfl
      rw [one, List.mem_singleton] at hm
      rw [hm, Cluster.Small]
      decide
    · have none : asked conn evaluation = [] := by
        simp [asked, evaluation, Pool.introduction, Label.ofPool, Label.asks, other]
      rw [none] at hm
      cases hm
  have hrun : ((machine Master.System.fixintEnv loopback Channel.Report.nameless 5 []).exec evaluation).any
      (fun s => decide (s.Drained 5 1 6 ∧ (s.parties 6).isCaller = true)) = true := by
    decide +kernel
  obtain ⟨s, run, hs⟩ := (Option.any_eq_true _ _).mp hrun
  obtain ⟨drained, caller⟩ := of_decide_eq_true hs
  have lossless : (machine Master.System.fixintEnv loopback Channel.Report.nameless 5 []).Along
      (Lossless Master.System.fixintEnv) evaluation := Machine.along_of_decide (by decide +kernel)
  obtain ⟨a, runs, -, realises⟩ :=
    refines_service (FdQueue.draining_inOrder 2) fixint_codeString_roundTrips small lossless run
  have all := realises.all 5 1 6 ((realises.caller 6).mpr caller) drained
  exact ⟨s, a, run, runs, realises, all.trans (realises.asked 6)⟩

end Proxy
end PyProxy.Session
