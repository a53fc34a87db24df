import PyProxy.Session.Proxy

namespace PyProxy.Session
open Stream Protocol Server Poll Worker

namespace Proxy

variable {Py Obj : Type} {menv : Master.Env} {wenv : Worker.Env} {python : Python Py Obj} {s s' : Proxy Py}
  {next : Sock} {hs : List Handover}

-- what a caller has put on its connection, and nothing on a descriptor that was not passed yet
def Carries (wenv : Worker.Env) (s : Proxy Py) (l : Stream.Link RequestMessage UInt8) : Option Sock → Prop
  | none => Stream.Link.Sound (ClientStream.framer wenv.bc) l ∧ l.queued = [] ∧ l.out = []
  | some conn => (s.parties conn).isCaller = true → Stream.Link.Sound (ClientStream.framer wenv.bc) l ∧
      l.queued = (s.parties conn).queued.map (frame wenv) ∧
      l.out = (s.parties conn).rest ++ (s.parties conn).unsent

structure Carried (wenv : Worker.Env) (s : Proxy Py) : Prop where
  links : ∀ k fd, fd ≠ unixStream → ∃ l, Daemon.Inlets (s.pool.workers k) fd l ∧
    Carries wenv s l (Pool.Link.conn (s.pool.links k) fd)

theorem frames_stream (msgs : List CodeString) :
    Framer.stream (msgs.map (frame wenv)) = msgs.flatMap (Client.request wenv.bc) := by
  rw [Framer.stream, List.flatMap_map]
  rfl

theorem frames_encode (roundTrips : wenv.bc.codeString.RoundTrips) {msgs : List CodeString}
    (small : ∀ m ∈ msgs, Cluster.Small wenv m) :
    ∀ p ∈ msgs.map (frame wenv), (ClientStream.framer wenv.bc).Encodes p.1 p.2 := by
  intro p hp
  obtain ⟨m, hm, rfl⟩ := List.mem_map.mp hp
  exact frame_encodes roundTrips (small m hm)

theorem Carries.party {l : Stream.Link RequestMessage UInt8} {behind : Option Sock} (h : Carries wenv s l behind)
    (same : ∀ conn, behind = some conn → s'.parties conn = s.parties conn) : Carries wenv s' l behind := by
  cases behind with
  | none => exact h
  | some conn =>
    rw [Carries, same conn rfl]
    exact h

-- the worker's side moves: what the caller has put in is as it was
theorem Carries.reads {l l' : Stream.Link RequestMessage UInt8} {behind : Option Sock} (h : Carries wenv s l behind)
    (reads : Loop.Reads wenv l l') : Carries wenv s l' behind := by
  cases behind with
  | none =>
    obtain ⟨sound, queued, out⟩ := h
    exact ⟨sound.step reads.step, reads.queued.trans queued, reads.out.trans out⟩
  | some conn =>
    intro caller
    obtain ⟨sound, queued, out⟩ := h caller
    exact ⟨sound.step reads.step, reads.queued.trans queued, reads.out.trans out⟩

theorem Inlets.far {d : Daemon} {k : Sock} {l : Stream.Link RequestMessage UInt8} (h : Daemon.Inlets d k l)
    (queued : List (List UInt8 × RequestMessage)) (out : List UInt8) :
    Daemon.Inlets d k { l with queued := queued, out := out } :=
  ⟨h.told, h.inlet.wire, h.inlet.owned, h.inlet.idle⟩

namespace Carried

variable {conn : Sock}

theorem init (next : Sock) (py : Py) : Carried wenv (machine menv wenv python next py).init where
  links _ fd _ := ⟨.empty, Daemon.start_inlets fd, Stream.Link.sound_empty _, rfl, rfl⟩

-- a party that no worker has been passed may change as it likes
theorem setParty (h : Carried wenv s) {p : Party}
    (own : ∀ k fd l, fd ≠ 0 → Pool.Link.conn (s.pool.links k) fd = some conn →
      Carries wenv s l (some conn) → ∃ queued out, Carries wenv (s.setParty conn p)
        { l with queued := queued, out := out } (some conn)) : Carried wenv (s.setParty conn p) where
  links k fd client := by
    obtain ⟨l, inlets, carries⟩ := h.links k fd client
    by_cases here : Pool.Link.conn (s.pool.links k) fd = some conn
    · rw [here] at carries
      obtain ⟨queued, out, carries⟩ := own k fd l client here carries
      refine ⟨_, Inlets.far inlets queued out, ?_⟩
      change Carries wenv _ _ (Pool.Link.conn (s.pool.links k) fd)
      rwa [here]
    · exact ⟨l, inlets, carries.party fun j behind => if_neg fun same : j = conn => here (same ▸ behind)⟩

theorem dial (h : Carried wenv s) (wired : Wired menv wenv next s hs) (unwritten : (s.parties conn).written = []) :
    Carried wenv (s.setParty conn (s.parties conn).dial) := by
  refine h.setParty fun k fd l _ behind _ => ?_
  have long := wired.written_length behind
  rw [unwritten] at long
  exact absurd long (by decide)

theorem act (h : Carried wenv s) (wired : Wired menv wenv next s hs) (roundTrips : wenv.bc.codeString.RoundTrips)
    {c : Client.Loop} (running : (s.parties conn).client = some (.running c)) (l : Client.Label)
    (small : ∀ m ∈ (s.parties conn).waiting, Cluster.Small wenv m) :
    Carried wenv (s.setParty conn ((s.parties conn).act wenv.bc c l)) := by
  refine h.setParty fun k fd link pos behind carries => ?_
  refine ⟨link.queued ++ (c.takes l).map (frame wenv), link.out ++ Framer.stream ((c.takes l).map (frame wenv)),
    fun _ => ?_⟩
  obtain ⟨sound, queued, out⟩ := carries (by rw [Party.isCaller, running]; rfl)
  have party : (s.setParty conn ((s.parties conn).act wenv.bc c l)).parties conn = (s.parties conn).act wenv.bc c l :=
    if_pos rfl
  have taken : ∀ m ∈ c.takes l, Cluster.Small wenv m := fun m hm => small m (by
    rw [Party.waiting, running]
    exact Client.Loop.takes_waiting hm)
  have long := wired.room k fd conn pos behind
  have written := (@Client.Loop.step_spec wenv.bc c l).1
  have unsent : (s.parties conn).unsent = c.mainStream.outbuffer := by rw [Party.unsent, running]; rfl
  refine ⟨sound.queueAll (frames_encode roundTrips taken), ?_, ?_⟩
  · rw [party, Party.act, List.map_append, queued]
  · have rest : ((s.parties conn).act wenv.bc c l).rest = (s.parties conn).rest ++ c.wrote l :=
      List.drop_append_of_le_length long
    rw [party, rest, List.append_assoc]
    dsimp only
    rw [out, unsent, frames_stream, List.append_assoc, ← written]
    rfl

theorem write (h : Carried wenv s) (stranger : (s.parties conn).client = none) (bytes : List UInt8) :
    Carried wenv (s.setParty conn ((s.parties conn).write bytes)) := by
  refine h.setParty fun k fd l _ _ _ => ⟨l.queued, l.out, fun called => ?_⟩
  simp [Proxy.setParty, Party.isCaller, Party.write, stranger] at called

-- a connection that a worker is passed carries what its caller wrote after the header
theorem passed (wired : Wired menv wenv next s hs) (roundTrips : wenv.bc.codeString.RoundTrips)
    {l : Stream.Link RequestMessage UInt8} (carries : Carries wenv s l none)
    (small : (s.parties conn).isCaller = true → ∀ m ∈ (s.parties conn).queued, Cluster.Small wenv m)
    (untaken : (s.parties conn).taken = 0) (long : requestHeaderSize ≤ (s.parties conn).written.length) :
    ∃ queued out, Carries wenv s { l with queued := queued, out := out } (some conn) := by
  refine ⟨(s.parties conn).queued.map (frame wenv), (s.parties conn).rest ++ (s.parties conn).unsent,
    fun caller => ⟨?_, rfl, rfl⟩⟩
  obtain ⟨sound, queued, out⟩ := carries
  have all := sound.queueAll (frames_encode roundTrips (small caller))
  rw [queued, out, List.nil_append, List.nil_append, frames_stream, ← wired.frames caller long] at all
  rw [Party.rest, untaken]
  exact all

theorem master (h : Carried wenv s) (wired : Wired menv wenv next s hs)
    (roundTrips : wenv.bc.codeString.RoundTrips)
    (small : ∀ conn, (s.parties conn).isCaller = true → ∀ m ∈ (s.parties conn).queued, Cluster.Small wenv m)
    {pool : Pool} {n : Sock → Nat} {hs' : List Handover} (workers : pool.workers = s.pool.workers)
    (passed : ∀ k, (s.pool.links k).passed <+: (pool.links k).passed)
    (after : Wired menv wenv next { s with pool := pool, parties := fun conn => (s.parties conn).reach (n conn) } hs') :
    Carried wenv { s with pool := pool, parties := fun conn => (s.parties conn).reach (n conn) } where
  links k fd client := by
    obtain ⟨l, inlets, carries⟩ := h.links k fd client
    have inlets : Daemon.Inlets (pool.workers k) fd l := workers ▸ inlets
    have same : ∀ {behind : Option Sock} {l : Stream.Link RequestMessage UInt8}, Carries wenv s l behind →
        Carries wenv { s with pool := pool, parties := fun conn => (s.parties conn).reach (n conn) } l behind := by
      intro behind l h
      cases behind <;> exact h
    cases before : Pool.Link.conn (s.pool.links k) fd with
    | some conn =>
      have behind := Pool.Link.conn_mono (passed k) before
      refine ⟨l, inlets, ?_⟩
      rw [before] at carries
      change Carries wenv _ _ (Pool.Link.conn (pool.links k) fd)
      rw [behind]
      exact same carries
    | none =>
      rw [before] at carries
      cases behind : Pool.Link.conn (pool.links k) fd with
      | none => exact ⟨l, inlets, same carries⟩
      | some conn =>
        have untaken : (s.parties conn).taken = 0 := by
          by_contra taken
          obtain ⟨k', fd', pos', before'⟩ := wired.used conn taken
          have behind' := Pool.Link.conn_mono (passed k') before'
          obtain ⟨rfl, rfl⟩ := after.pool.one_descriptor (Nat.pos_of_ne_zero client) (Nat.pos_of_ne_zero pos')
            behind behind'
          rw [before] at before'
          cases before'
        obtain ⟨queued, out, carries⟩ := Carried.passed wired roundTrips carries (small conn) untaken
          (after.written_length behind)
        exact ⟨_, Inlets.far inlets queued out, same carries⟩

-- a step of a worker that brings its sockets nothing
theorem worker (h : Carried wenv s) (settled : ∀ k, (s.pool.workers k).Settled) {j : Sock} {l : Daemon.Label}
    {pool : Pool} (none : ∀ fd, l.comesTo fd = []) (step : s.pool.stepWorker wenv j l = some pool)
    (threads : Sock → Thread Py) : Carried wenv ⟨pool, threads, s.parties⟩ where
  links k fd client := by
    obtain ⟨link, inlets, carries⟩ := h.links k fd client
    obtain ⟨d, moved, workers, passed⟩ := Pool.stepWorker_keeps step
    have behind : Pool.Link.conn (pool.links k) fd = Pool.Link.conn (s.pool.links k) fd := by
      rw [Pool.Link.conn, Pool.Link.conn, passed]
    change ∃ l, Daemon.Inlets (pool.workers k) fd l ∧ Carries wenv _ l (Pool.Link.conn (pool.links k) fd)
    rw [workers, behind]
    dsimp only
    split
    · rename_i here
      subst here
      obtain ⟨link', reads, inlets⟩ := inlets.step (settled k) client moved
      rw [none, List.append_nil] at reads
      exact ⟨link', inlets, (carries.reads reads).party fun _ _ => rfl⟩
    · exact ⟨link, inlets, carries.party fun _ _ => rfl⟩

theorem arrive (h : Carried wenv s) (wired : Wired menv wenv next s hs) {j fd conn : Sock} {bytes : List UInt8}
    {pool : Pool} (client : fd ≠ 0) (there : Pool.Link.conn (s.pool.links j) fd = some conn)
    (came : bytes <+: (s.parties conn).rest) (step : s.pool.stepWorker wenv j (.arrive fd bytes) = some pool) :
    Carried wenv ({ s with pool := pool }.setParty conn ((s.parties conn).take bytes.length)) where
  links k fd' client' := by
    obtain ⟨link, inlets, carries⟩ := h.links k fd' client'
    obtain ⟨d, moved, workers, passed⟩ := Pool.stepWorker_keeps step
    have behind : Pool.Link.conn (pool.links k) fd' = Pool.Link.conn (s.pool.links k) fd' := by
      rw [Pool.Link.conn, Pool.Link.conn, passed]
    change ∃ l, Daemon.Inlets (pool.workers k) fd' l ∧ Carries wenv _ l (Pool.Link.conn (pool.links k) fd')
    rw [workers, behind]
    dsimp only
    have elsewhere : ¬ (k = j ∧ fd' = fd) → ∀ conn', Pool.Link.conn (s.pool.links k) fd' = some conn' →
        ({ s with pool := pool }.setParty conn ((s.parties conn).take bytes.length)).parties conn' =
          s.parties conn' := by
      intro other conn' before
      refine if_neg fun same => other ?_
      subst same
      exact wired.pool.one_descriptor (Nat.pos_of_ne_zero client') (Nat.pos_of_ne_zero client) before there
    by_cases here : k = j ∧ fd' = fd
    · obtain ⟨rfl, rfl⟩ := here
      rw [if_pos rfl]
      rw [there] at carries ⊢
      have party : ({ s with pool := pool }.setParty conn ((s.parties conn).take bytes.length)).parties conn =
          (s.parties conn).take bytes.length := if_pos rfl
      have rest : bytes ++ ((s.parties conn).take bytes.length).rest = (s.parties conn).rest := by
        rw [Party.take, Party.rest, ← Nat.add_assoc, ← List.drop_drop]
        exact List.prefix_append_drop came |>.symm
      obtain ⟨link', reads, inlets⟩ := (Inlets.far inlets link.queued
        (((s.parties conn).take bytes.length).rest ++ (s.parties conn).unsent)).step
          (wired.pool.settled k) client' moved
      refine ⟨link', inlets, Carries.reads (fun caller => ?_) reads⟩
      rw [party] at caller ⊢
      obtain ⟨sound, queued, out⟩ := carries caller
      have cut : bytes ++ (((s.parties conn).take bytes.length).rest ++ (s.parties conn).unsent) = link.out := by
        rw [← List.append_assoc, rest, out]
      have flushed := sound.flush cut
      rw [Daemon.Label.comesTo, if_pos rfl]
      exact ⟨flushed, queued, rfl⟩
    · split
      · rename_i same
        subst same
        obtain ⟨link', reads, inlets⟩ := inlets.step (wired.pool.settled k) client' moved
        rw [Daemon.Label.comesTo, if_neg fun eq => here ⟨rfl, eq.symm⟩, List.append_nil] at reads
        exact ⟨link', inlets, (carries.reads reads).party (elsewhere here)⟩
      · exact ⟨link, inlets, carries.party (elsewhere here)⟩

end Carried

end Proxy
end PyProxy.Session
