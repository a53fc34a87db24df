import PyProxy.Client.Connection
import PyProxy.Client.Silence
import PyProxy.Session.Execution
import PyProxy.Worker.Replies

namespace PyProxy.Session
open Stream Protocol Server Poll Worker

variable {Py Obj : Type}

-- both directions of every main stream: `inbox` is what has been written to a client and not read
structure Duplex (Py : Type) where
  cluster : Threaded Cluster Py
  inbox : Sock → List UInt8
  conn : Sock → Option Client.PyConnection

namespace Duplex

inductive Label where
  | connect (k : Sock) (incoming : List (List UInt8))
  | run (l : ThreadLabel Cluster.Label)

-- what the blocking reads of a new connection leave
def afterHello (bytes : List UInt8) : List UInt8 :=
  match ResponseMessageHeader.fromBuf (copyHeader responseHeaderSize bytes) with
  | .error _ => bytes
  | .ok header => bytes.drop (responseHeaderSize + header.msgLenUsize)

variable (env : Env) (python : Python Py Obj) (py : Py)

abbrev loop (s : Duplex Py) : Worker.Loop := s.cluster.host.flow.state

abbrev client (s : Duplex Py) (k : Sock) : Client.Loop := (s.cluster.host.sites k).client.state

def permits (s : Duplex Py) : ThreadLabel Cluster.Label → Bool
  | .host (.client k l) => (s.conn k).isSome && ((s.client k).reads l).isPrefixOf (s.inbox k)
  | _ => true

def taken (s : Duplex Py) (k : Sock) : ThreadLabel Cluster.Label → Nat
  | .host (.client j l) => if j = k then ((s.client k).reads l).length else 0
  | _ => 0

def reply (s : Duplex Py) : ThreadLabel Cluster.Label → Option (Sock × List UInt8)
  | .host (.event ev read fds write) =>
    (s.loop.bindFds fds).reply env ev ⟨read, List.range' s.loop.os.next fds, write⟩
  | _ => none

def replied (reply : Option (Sock × List UInt8)) (k : Sock) : List UInt8 :=
  match reply with
  | some (j, bytes) => if j = k then bytes else []
  | none => []

-- a connection that fails leaves nobody to use the stream
def step (s : Duplex Py) : Label → Option (Duplex Py)
  | .connect k incoming =>
    if (s.conn k).isNone ∧ incoming.flatten = s.inbox k then
      match Client.newSimpleConnection env.bc ⟨.ok (), .ok (), incoming, .ok ()⟩ with
      | .error _ => none
      | .ok conn => some { s with
          inbox := fun j => if j = k then afterHello (s.inbox k) else s.inbox j
          conn := fun j => if j = k then some conn else s.conn j }
    else none
  | .run l =>
    if s.permits l then
      (((Cluster.host env).threaded env.mc python py).step s.cluster l).map fun cluster =>
        { s with
          cluster := cluster
          inbox := fun k => (s.inbox k).drop (s.taken k l) ++ replied (s.reply env l) k }
    else none

def machine : Machine (Duplex Py) Label where
  init := ⟨((Cluster.host env).threaded env.mc python py).init, fun _ => [], fun _ => none⟩
  step := step env python py

def Label.inner : Label → Option (ThreadLabel Cluster.Label)
  | .connect _ _ => none
  | .run l => some l

def asked (ls : List Label) (k : Sock) : List CodeString := (ls.filterMap Label.inner).filterMap (Cluster.asks k)

def connection (env : Env) (rnd : Vector UInt8 sessionIdLength) : Client.PyConnection :=
  ⟨env.hex rnd.toList, env.hex rnd.toList, env.cfg.outputAddr⟩

-- the hello is all that ever goes to the client of `f`
inductive Greeted (env : Env) (f : Front) : List UInt8 → Option Client.PyConnection → Prop where
  | greeting (rnd inbox) (named : f.sessionId = env.hex rnd.toList)
      (split : inbox ++ f.outbuffer = env.serverHello rnd) : Greeted env f inbox none
  | connected (rnd) (named : f.sessionId = env.hex rnd.toList) (out : f.outbuffer = []) :
      Greeted env f [] (some (connection env rnd))

structure Quiet (env : Env) (s : Duplex Py) : Prop where
  bounded : s.loop.Bounded
  greeted : ∀ tk f, s.loop.front tk = some f → Greeted env f (s.inbox f.stream) (s.conn f.stream)
  strange : ∀ k, (∀ tk f, s.loop.front tk = some f → f.stream ≠ k) → s.inbox k = [] ∧ s.conn k = none
  waits : ∀ k, (s.client k).Waits (s.cluster.host.sites k).queued

variable {env} {python} {py} {s s' : Duplex Py}

theorem Greeted.empty {f : Front} {inbox : List UInt8} {conn : Client.PyConnection}
    (h : Greeted env f inbox (some conn)) : inbox = [] := by
  cases h
  rfl

theorem Quiet.read (h : Quiet env s) {k : Sock} (connected : (s.conn k).isSome = true) : s.inbox k = [] := by
  by_cases known : ∃ tk f, s.loop.front tk = some f ∧ f.stream = k
  · obtain ⟨tk, f, front, rfl⟩ := known
    have greeted := h.greeted tk f front
    obtain ⟨conn, hconn⟩ := Option.isSome_iff_exists.mp connected
    rw [hconn] at greeted
    exact greeted.empty
  · exact (h.strange k fun tk f front stream => known ⟨tk, f, front, stream⟩).1

theorem Greeted.pending {f : Front} {inbox : List UInt8} (h : Greeted env f inbox none) :
    ∃ rnd, f.sessionId = env.hex rnd.toList ∧ inbox ++ f.outbuffer = env.serverHello rnd := by
  cases h with
  | greeting rnd inbox named split => exact ⟨rnd, named, split⟩

theorem connects (hello : env.bc.responseClientHello.RoundTrips)
    (fits : ∀ rnd, (env.bc.responseClientHello.serialize (env.hello rnd)).length < 2 ^ 32)
    {f : Front} {incoming : List (List UInt8)} {conn : Client.PyConnection}
    (h : Greeted env f incoming.flatten none)
    (made : Client.newSimpleConnection env.bc ⟨.ok (), .ok (), incoming, .ok ()⟩ = .ok conn) :
    Greeted env f (afterHello incoming.flatten) (some conn) := by
  obtain ⟨rnd, named, split⟩ := h.pending
  obtain ⟨out, rfl⟩ := Client.connection_whole hello (fits rnd) split made
  rw [out, List.append_nil] at split
  have none : afterHello incoming.flatten = [] := by
    rw [split, afterHello, Env.serverHello, copyHeader_toList, ResponseMessageHeader.fromBuf_intoBuf_new]
    dsimp only
    rw [ResponseMessageHeader.msgLenUsize_new (fits rnd), List.drop_eq_nil_iff, List.length_append,
      Vector.length_toList]
  rw [none]
  exact .connected rnd named out

theorem no_connection {conn : Client.PyConnection} {incoming : List (List UInt8)}
    (empty : incoming.flatten = []) :
    Client.newSimpleConnection env.bc ⟨.ok (), .ok (), incoming, .ok ()⟩ ≠ .ok conn := by
  intro h
  simp only [Client.newSimpleConnection, Client.fatalIoError, bind, Except.bind] at h
  cases hhead : Client.readExact responseHeaderSize incoming with
  | error e => simp [hhead] at h
  | ok r =>
    obtain ⟨split, length⟩ := Client.readExact_ok hhead
    rw [empty] at split
    rw [(List.append_eq_nil_iff.mp split.symm).1] at length
    cases length

theorem Quiet.connect (hello : env.bc.responseClientHello.RoundTrips)
    (fits : ∀ rnd, (env.bc.responseClientHello.serialize (env.hello rnd)).length < 2 ^ 32)
    {k : Sock} {incoming : List (List UInt8)} (h : Quiet env s)
    (hs : step env python py s (.connect k incoming) = some s') : Quiet env s' := by
  obtain ⟨⟨none, inbox⟩, hs⟩ := Option.ite_none_right_eq_some.mp hs
  split at hs
  · cases hs
  · rename_i conn made
    cases hs
    refine ⟨h.bounded, fun tk f front => ?_, fun j unknown => ?_, h.waits⟩
    · have greeted := h.greeted tk f front
      by_cases same : f.stream = k
      · simp only [same, if_true]
        rw [same, Option.isNone_iff_eq_none.mp none, ← inbox] at greeted
        rw [← inbox]
        exact connects hello fits greeted made
      · simp only [same, if_false]
        exact greeted
    · have strange := h.strange j unknown
      by_cases same : j = k
      · subst same
        exact absurd made (no_connection (inbox.trans strange.1))
      · simp only [same, if_false]
        exact strange

theorem front_injective (inv : Inv env [] s.loop s.cluster.host.peers) {tk tk' : Token} {f f' : Front}
    (hf : s.loop.front tk = some f) (hf' : s.loop.front tk' = some f') (same : f.stream = f'.stream) :
    tk = tk' := by
  obtain ⟨cs, found, rfl⟩ := Option.map_eq_some_iff.mp hf
  obtain ⟨cs', found', rfl⟩ := Option.map_eq_some_iff.mp hf'
  exact inv.streams _ _ _ _ (Loop.port_lookup found) (Loop.port_lookup found') same

theorem Quiet.greets (h : Quiet env s) (inv : Inv env [] s'.loop s'.cluster.host.peers)
    (greets : Worker.Loop.Greets env s.loop s'.loop) (inbox : s'.inbox = s.inbox) (conn : s'.conn = s.conn)
    (waits : ∀ k, (s'.client k).Waits (s'.cluster.host.sites k).queued) : Quiet env s' := by
  have old : ∀ {tk f}, s.loop.front tk = some f → s'.loop.front tk = some f := by
    intro tk f hf
    rcases greets.fronts tk with same | ⟨fresh, -⟩
    · rw [same, hf]
    · rw [fresh] at hf
      cases hf
  refine ⟨greets.bounded, fun tk f hf => ?_, fun k unknown => ?_, waits⟩
  · rw [inbox, conn]
    rcases greets.fronts tk with same | ⟨fresh, k, rnd, new⟩
    · exact h.greeted tk f (same.symm.trans hf)
    · obtain rfl := Option.some.inj (hf.symm.trans new)
      have alone : ∀ tk' f', s.loop.front tk' = some f' → f'.stream ≠ k := by
        intro tk' f' hf' stream
        obtain rfl := front_injective inv (old hf') hf stream
        rw [fresh] at hf'
        cases hf'
      obtain ⟨empty, none⟩ := h.strange k alone
      dsimp only
      rw [empty, none]
      exact .greeting rnd [] rfl rfl
  · rw [inbox, conn]
    exact h.strange k fun tk f hf => unknown tk f (old hf)

theorem Quiet.replies (h : Quiet env s) (inv : Inv env [] s.loop s.cluster.host.peers) {fds : Nat}
    {ev : Worker.Event} {io : Worker.EventIo}
    (spoken : Worker.Loop.Replies env (s.loop.bindFds fds) ev io s'.loop)
    (tokenIo : s'.loop.tokenIo = s.loop.tokenIo)
    (inbox : ∀ k, s'.inbox k = s.inbox k ++ replied ((s.loop.bindFds fds).reply env ev io) k) (conn : s'.conn = s.conn)
    (waits : ∀ k, (s'.client k).Waits (s'.cluster.host.sites k).queued) : Quiet env s' := by
  cases spoken with
  | nothing reply fronts =>
    change ∀ tk, s'.loop.front tk = s.loop.front tk at fronts
    have same : s'.inbox = s.inbox := by
      funext k
      rw [inbox, reply, replied, List.append_nil]
    refine ⟨fun tk hle => ?_, fun tk f hf => ?_, fun k unknown => ?_, waits⟩
    · rw [tokenIo] at hle
      rw [fronts, h.bounded tk hle]
    · rw [fronts] at hf
      rw [same, conn]
      exact h.greeted tk f hf
    · rw [same, conn]
      exact h.strange k fun tk f hf => unknown tk f ((fronts tk).trans hf)
  | bytes f n found reply fronts =>
    change s.loop.front ev.token = some f at found
    change ∀ tk, s'.loop.front tk = if tk = ev.token then some (f.wrote n) else s.loop.front tk at fronts
    have still : ∀ k, k ≠ f.stream → s'.inbox k = s.inbox k := by
      intro k other
      rw [inbox, reply, replied, if_neg (Ne.symm other), List.append_nil]
    refine ⟨fun tk hle => ?_, fun tk g hg => ?_, fun k unknown => ?_, waits⟩
    · rw [tokenIo] at hle
      have none := h.bounded tk hle
      rw [fronts]
      split
      · rename_i ht
        rw [ht, found] at none
        cases none
      · exact none
    · rw [fronts] at hg
      rw [conn]
      split at hg
      · cases hg
        have greeted := h.greeted _ _ found
        change Greeted env (f.wrote n) (s'.inbox f.stream) (s.conn f.stream)
        rw [inbox, reply, replied, if_pos rfl]
        generalize s.inbox f.stream = bytes, s.conn f.stream = c at greeted
        cases greeted with
        | greeting rnd bytes named split =>
          refine .greeting rnd _ named ?_
          rw [List.append_assoc, Front.wrote, List.take_append_drop, split]
        | connected rnd named out =>
          rw [out, List.take_nil, List.append_nil]
          exact .connected rnd named (by rw [Front.wrote, out, List.drop_nil])
      · rename_i ht
        rw [still _ fun stream => ht (front_injective inv hg found stream)]
        exact h.greeted tk g hg
    · have old : ∀ tk g, s.loop.front tk = some g → g.stream ≠ k := by
        intro tk g hg stream
        by_cases ht : tk = ev.token
        · rw [ht, found] at hg
          cases hg
          exact unknown ev.token (f.wrote n) (by rw [fronts, if_pos rfl]) stream
        · exact unknown tk g (by rw [fronts, if_neg ht, hg]) stream
      rw [still k fun hk => old _ _ found hk.symm, conn]
      exact h.strange k old

theorem Quiet.silent {k : Sock} {l : Client.Label} (h : Quiet env s)
    (permitted : s.permits (.host (.client k l)) = true) : (s.client k).reads l = [] := by
  obtain ⟨connected, part⟩ := Bool.and_eq_true_iff.mp permitted
  rw [h.read connected] at part
  exact List.prefix_nil.mp (List.isPrefixOf_iff_prefix.mp part)

theorem Quiet.host {host : Cluster} {l : Cluster.Label} (h : Quiet env s)
    (inv : Inv env [] s.loop s.cluster.host.peers) (permitted : s.permits (.host l) = true)
    (step : Cluster.step env s.cluster.host l = some host) (inv' : Inv env [] host.flow.state host.peers)
    {thread : Thread Py} : Quiet env ⟨⟨host, thread⟩,
      fun k => (s.inbox k).drop (s.taken k (.host l)) ++ replied (s.reply env (.host l)) k, s.conn⟩ := by
  obtain ⟨w, hw, hcase⟩ := Cluster.step_cases step
  have same : (fun k => (s.inbox k).drop 0 ++ replied none k) = s.inbox := by
    funext k
    rw [List.drop_zero, replied, List.append_nil]
  have loop : s.loop = w := congrArg Flow.state hw
  cases hcase with
  | client k l c running apart =>
    have client : s.client k = c := congrArg Flow.state running
    have silent := h.silent permitted
    refine h.greets inv' ?_ ?_ rfl fun j => ?_
    · rw [loop]
      exact ⟨loop ▸ h.bounded, fun tk => .inl rfl⟩
    · funext j
      simp only [taken, reply, replied, List.append_nil]
      split
      · rename_i hj
        subst hj
        rw [silent, List.length_nil, List.drop_zero]
      · rfl
    · by_cases hj : j = k
      · subst hj
        have waits := h.waits j
        rw [client] at waits silent
        simpa [Duplex.client, Cluster.setSite] using @Client.Loop.Waits.step env.bc _ _ waits _ silent
      · simpa [Duplex.client, Cluster.setSite, hj] using h.waits j
  | close k =>
    refine h.greets inv' ?_ same rfl h.waits
    rw [loop]
    exact ⟨loop ▸ h.bounded, fun tk => .inl rfl⟩
  | master bytes =>
    refine h.greets inv' ?_ same rfl h.waits
    rw [loop]
    exact ⟨loop ▸ h.bounded, fun tk => .inl rfl⟩
  | pythread msgType msg =>
    refine h.greets inv' ?_ same rfl h.waits
    rw [loop]
    exact ⟨loop ▸ h.bounded, fun tk => .inl rfl⟩
  | head io =>
    refine h.greets inv' ?_ same rfl h.waits
    rw [loop]
    exact Loop.head_greets io (loop ▸ h.bounded)
  | event ev read fds write =>
    subst loop
    exact h.replies inv (Loop.event_replies _ ev ⟨read, List.range' s.loop.os.next fds, write⟩)
      (Loop.event_kept env _ ev _).2 (fun k => rfl) rfl h.waits

theorem Quiet.run {l : ThreadLabel Cluster.Label} {cluster : Threaded Cluster Py} (h : Quiet env s)
    (inv : Inv env [] s.loop s.cluster.host.peers) (permitted : s.permits l = true)
    (hl : ((Cluster.host env).threaded env.mc python py).step s.cluster l = some cluster)
    (inv' : Inv env [] cluster.host.flow.state cluster.host.peers) : Quiet env ⟨cluster,
      fun k => (s.inbox k).drop (s.taken k l) ++ replied (s.reply env l) k, s.conn⟩ := by
  have same : ∀ {l : ThreadLabel Cluster.Label}, (∀ l', l ≠ .host l') →
      (fun k => (s.inbox k).drop (s.taken k l) ++ replied (s.reply env l) k) = s.inbox := by
    intro l inner
    funext k
    cases l with
    | host l => exact absurd rfl (inner l)
    | _ => exact List.append_nil _
  obtain ⟨host, thread⟩ := cluster
  cases ((Host.step_cases hl).hosted Cluster.host_lawful).2 with
  | outside l outside step =>
    have hosted : Cluster.step env s.cluster.host l = some host := step
    exact h.host inv permitted hosted inv'
  | same l inner eq =>
    dsimp only at eq
    subst eq
    rw [same inner]
    exact ⟨h.bounded, h.greeted, h.strange, h.waits⟩
  | logged l t msg inner logs step =>
    have hosted : Cluster.step env s.cluster.host (.pythread t msg) = some host := step
    have quiet := @Quiet.host _ _ _ _ _ h inv rfl hosted inv' thread
    have still : (fun k => (s.inbox k).drop (s.taken k (.host (.pythread t msg))) ++
        replied (s.reply env (.host (.pythread t msg))) k) = s.inbox := by
      funext k
      exact List.append_nil _
    rw [still] at quiet
    rwa [same inner]

theorem asked_run (ls : List Label) (l : ThreadLabel Cluster.Label) (k : Sock) :
    asked (ls ++ [.run l]) k = asked ls k ++ (Cluster.asks k l).toList := by
  rw [asked, List.filterMap_append, List.filterMap_append]
  cases hl : Cluster.asks k l <;> simp [asked, Label.inner, hl]

theorem asked_connect (ls : List Label) (k j : Sock) (incoming : List (List UInt8)) :
    asked (ls ++ [.connect j incoming]) k = asked ls k := by
  simp [asked, Label.inner]

theorem quiet_run (roundTrips : env.bc.codeString.RoundTrips) (hello : env.bc.responseClientHello.RoundTrips)
    (fits : ∀ rnd, (env.bc.responseClientHello.serialize (env.hello rnd)).length < 2 ^ 32)
    {ls : List Label} (small : ∀ k, ∀ m ∈ asked ls k, Cluster.Small env m)
    (run : (machine env python py).exec ls = some s) :
    ((Cluster.host env).threaded env.mc python py).exec (ls.filterMap Label.inner) = some s.cluster ∧
      Quiet env s := by
  induction ls using List.reverseRecOn generalizing s with
  | nil =>
    cases run
    refine ⟨rfl, fun tk _ => rfl, fun tk f hf => ?_, fun k _ => ⟨rfl, rfl⟩, fun k => Client.Loop.new_waits⟩
    cases hf
  | append_singleton ls l ih =>
    obtain ⟨s₀, hs₀, hl⟩ := Machine.exec_concat_some _ run
    cases l with
    | connect k incoming =>
      simp only [asked_connect] at small
      obtain ⟨inner, quiet⟩ := ih small hs₀
      have after := @Quiet.connect _ _ _ python py _ _ hello fits _ _ quiet hl
      refine ⟨?_, after⟩
      obtain ⟨-, hl⟩ := Option.ite_none_right_eq_some.mp hl
      split at hl
      · cases hl
      · cases hl
        rw [List.filterMap_append]
        exact (List.append_nil (ls.filterMap Label.inner)).symm ▸ inner
    | run l =>
      have before : ∀ k, ∀ m ∈ asked ls k, Cluster.Small env m := by
        intro k m hm
        exact small k m (by rw [asked_run]; exact List.mem_append_left _ hm)
      obtain ⟨inner, quiet⟩ := ih before hs₀
      obtain ⟨permitted, hl⟩ := Option.ite_none_right_eq_some.mp hl
      obtain ⟨cluster, step, rfl⟩ := Option.map_eq_some_iff.mp hl
      have inner' : ((Cluster.host env).threaded env.mc python py).exec
          ((ls ++ [Label.run l]).filterMap Label.inner) = some cluster := by
        rw [List.filterMap_append]
        exact (Machine.exec_concat ..).trans (by rw [inner]; exact step)
      have inv := (Cluster.delivers_run roundTrips before inner).inv
      have inv' := (Cluster.delivers_run roundTrips small inner').inv
      exact ⟨inner', quiet.run inv permitted step inv'⟩

theorem Quiet.fails (h : Quiet env s) {k : Sock} {ev : Client.Event} {io : Client.EventIo}
    (token : ev.token = Client.mainStreamTk)
    (hs : step env python py s (.run (.host (.client k (.event ev io)))) = some s') :
    (s'.cluster.host.sites k).client.Failed := by
  obtain ⟨permitted, hs⟩ := Option.ite_none_right_eq_some.mp hs
  obtain ⟨cluster, step, rfl⟩ := Option.map_eq_some_iff.mp hs
  dsimp only
  generalize hl : (.host (.client k (.event ev io)) : ThreadLabel Cluster.Label) = l at step
  cases ((Host.step_cases step).hosted Cluster.host_lawful).2 with
  | same l inner => exact absurd hl.symm (inner _)
  | logged l t msg inner => exact absurd hl.symm (inner _)
  | outside l outside hosted =>
    cases hl
    have silent := h.silent permitted
    have moved : Cluster.step env s.cluster.host (.client k (.event ev io)) = some cluster.host := hosted
    obtain ⟨w, -, hcase⟩ := Cluster.step_cases moved
    generalize cluster.host = host at hcase
    cases hcase with
    | client k l c running apart =>
      rw [show s.client k = c from congrArg Flow.state running] at silent
      simp only [Cluster.setSite, if_true]
      exact Client.Loop.event_fails token silent

-- nobody is ever answered: the hello is the only thing that a client hears
theorem unanswered {env : Env} {python : Python Py Obj} {py : Py}
    (roundTrips : env.bc.codeString.RoundTrips) (hello : env.bc.responseClientHello.RoundTrips)
    (fits : ∀ rnd, (env.bc.responseClientHello.serialize (env.hello rnd)).length < 2 ^ 32)
    {ls : List Label} {s : Duplex Py} (small : ∀ k, ∀ m ∈ asked ls k, Cluster.Small env m)
    (run : (machine env python py).exec ls = some s) :
    (∀ tk cs, s.loop.clientStreams.lookup tk = some cs →
        Greeted env cs.front (s.inbox cs.stream) (s.conn cs.stream)) ∧
      (∀ k, (s.client k).futures = [] ∧
        ∀ m ∈ asked ls k, m ∈ s.cluster.host.waiting k ∨ (s.client k).pends m.futureId) ∧
      ∀ k ev io s', (machine env python py).step s (.run (.host (.client k (.event ev io)))) = some s' →
        ev.token = Client.mainStreamTk → (s'.cluster.host.sites k).client.Failed := by
  obtain ⟨inner, quiet⟩ := quiet_run roundTrips hello fits small run
  have delivers := Cluster.delivers_run roundTrips small inner
  refine ⟨fun tk cs found => ?_, fun k => ⟨(quiet.waits k).futures, fun m hm => ?_⟩,
    fun k ev io s' step token => quiet.fails token step⟩
  · exact quiet.greeted tk cs.front (by rw [Loop.front, found]; rfl)
  · have all : (s.cluster.host.sites k).queued ++ s.cluster.host.waiting k = asked ls k := delivers.asked k
    rw [← all] at hm
    rcases List.mem_append.mp hm with queued | waiting
    · exact .inr ((quiet.waits k).pends m queued)
    · exact .inl waiting

def writeBlocked : Client.Label :=
  .event ⟨Client.mainStreamTk, false, true⟩ ⟨.ok 100, .error .wouldBlock, true⟩

-- the request is run, its client waits on, and ends when it looks for an answer
def talking : List Label :=
  ([.host (.master helloBytes), .host (.event ⟨0, true, false⟩ ⟨8, false⟩ 1 ⟨none, false⟩),
    .host (.head (loopbackHead [1])), .host (.event ⟨1, false, true⟩ ⟨8, false⟩ 0 ⟨some 4096, false⟩)].map
      Label.run) ++
    .connect 1 [loopback.serverHello (.replicate _ 7)] ::
      [.host (.client 1 (.evalStr "a" "x" [] [1])), .host (.client 1 (.head Client.quietHead)),
        .host (.client 1 writeBlocked), .host (.event ⟨1, true, false⟩ ⟨4096, false⟩ 0 ⟨none, false⟩),
        .host (.head (loopbackHead [1])), .receive, .print, .handle "t", .finish "t"].map Label.run

theorem loopback_fits (rnd : Vector UInt8 sessionIdLength) :
    (loopback.bc.responseClientHello.serialize (loopback.hello rnd)).length < 2 ^ 32 := by
  have named : (asBytes (loopback.hello rnd).sessionId).length = sessionIdLength * 2 :=
    lowerHex_digits.sessionId rnd
  have token : (asBytes (loopback.hello rnd).streamToken).length = sessionIdLength * 2 :=
    lowerHex_digits.sessionId rnd
  have addr : (asBytes (loopback.hello rnd).outputAddr).length < 2 ^ 31 := by
    change (asBytes loopback.cfg.outputAddr).length < 2 ^ 31
    decide
  have digits : sessionIdLength * 2 = 32 := rfl
  have size := fixint_helloSizes.responseClientHello (loopback.hello rnd)
  change (fixint.responseClientHello.serialize (loopback.hello rnd)).length < 2 ^ 32
  omega

theorem unanswered_talking : ∃ s, (machine loopback Channel.Report.nameless []).exec talking = some s ∧
    s.cluster.thread.py = ["x"] ∧ (s.client 1).futures = [] ∧ (s.client 1).pends "a" := by
  have hrun : ((machine loopback Channel.Report.nameless []).exec talking).any
      (fun s => s.cluster.thread.py == ["x"] && s.cluster.host.waiting 1 == []) = true := by
    decide +kernel
  obtain ⟨s, run, hs⟩ := (Option.any_eq_true _ _).mp hrun
  obtain ⟨executed, sent⟩ := Bool.and_eq_true_iff.mp hs
  have small : ∀ k, ∀ m ∈ asked talking k, Cluster.Small loopback m := by
    intro k m hm
    obtain ⟨l, hl, h⟩ := List.mem_filterMap.mp hm
    have one : (talking.filterMap Label.inner).filterMap Cluster.asking = [loopbackMsg] := rfl
    have asked := List.mem_filterMap.mpr ⟨l, hl, Cluster.asks_asking h⟩
    rw [one, List.mem_singleton] at asked
    rw [asked, Cluster.Small]
    decide
  obtain ⟨-, silent, -⟩ := unanswered fixint_codeString_roundTrips fixint_responseClientHello_roundTrips
    loopback_fits small run
  obtain ⟨none, pends⟩ := silent 1
  have waits := pends loopbackMsg (List.mem_singleton_self _)
  rw [beq_iff_eq.mp sent] at waits
  exact ⟨s, run, beq_iff_eq.mp executed, none, waits.resolve_left List.not_mem_nil⟩

end Duplex
end PyProxy.Session
