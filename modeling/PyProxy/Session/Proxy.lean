import PyProxy.Client.Connection
import PyProxy.Session.Execution
import PyProxy.Session.Home
import PyProxy.Worker.Inlet

namespace PyProxy.Session
open Stream Protocol Server Poll Worker
open Master.Note (bytesOf pushes)

namespace Pool

variable {menv : Master.Env} {wenv : Worker.Env} {p p' : Pool} {k fd conn : Sock}

theorem Link.conn_mono {link link' : Link} (passed : link.passed <+: link'.passed)
    (behind : Link.conn link fd = some conn) : Link.conn link' fd = some conn := getElem?_of_prefix passed behind

theorem stepMaster_keeps {l : Master.Label} (h : p.stepMaster menv l = some p') :
    p'.workers = p.workers ∧ ∀ k, (p.links k).passed <+: (p'.links k).passed := by
  simp only [stepMaster] at h
  split at h
  · cases h
  · split at h
    · cases h
      exact ⟨rfl, fun k => List.prefix_append _ _⟩
    · cases h
      exact ⟨rfl, fun k => List.prefix_rfl⟩

theorem stepWorker_keeps {j : Sock} {l : Daemon.Label} (h : p.stepWorker wenv j l = some p') :
    ∃ d, Daemon.step wenv (p.workers j) l = some d ∧
      (p'.workers = fun k => if k = j then d else p.workers k) ∧ ∀ k, (p'.links k).passed = (p.links k).passed := by
  simp only [stepWorker] at h
  obtain ⟨-, moved⟩ := Option.ite_none_right_eq_some.mp h
  obtain ⟨d, step, rfl⟩ := Option.map_eq_some_iff.mp moved
  refine ⟨d, step, rfl, fun k => ?_⟩
  dsimp only
  split
  · rename_i same
    rw [same]
    cases l <;> rfl
  · rfl

theorem stepThread {j : Sock} {l : ThreadLabel Daemon.Label} {d : Daemon}
    (hosted : Host.Hosted (Daemon.host wenv) wenv.mc (p.workers j) d l) (inner : ∀ l', l ≠ .host l') :
    { p with workers := fun k => if k = j then d else p.workers k } = p ∨
      ∃ t msg, p.stepWorker wenv j (.pythread t msg) =
        some { p with workers := fun k => if k = j then d else p.workers k } := by
  have same : (fun k => if k = j then p.links j else p.links k) = p.links := by
    funext k
    split
    · rename_i eq
      rw [eq]
    · rfl
  cases hosted with
  | outside l outside step => exact absurd rfl (inner l)
  | same l inner same =>
    left
    have all : (fun k => if k = j then d else p.workers k) = p.workers := by
      funext k
      split
      · rename_i eq
        rw [eq, same]
      · rfl
    rw [all]
  | logged l t msg inner logs step =>
    right
    refine ⟨t, msg, ?_⟩
    have moved : Daemon.step wenv (p.workers j) (.pythread t msg) = some d := step
    simp only [stepWorker, admits, if_true, moved, Option.map_some, Link.take, same]

theorem Accounted.headed {next : Sock} {hs : List Handover} (h : Accounted menv next p hs)
    (behind : Link.conn (p.links k) fd = some conn) :
    ∃ header : Vector UInt8 requestHeaderSize, header.toList <+: bytesOf conn (heard hs) := by
  obtain ⟨req, found, rfl⟩ := List.mem_map.mp (List.mem_of_getElem? (h.behind behind))
  refine ⟨req.1, h.headers req (h.placed.subset ?_)⟩
  exact List.mem_map.mpr ⟨_, mem_givenTo.mp found, rfl⟩

end Pool

variable {Py Obj : Type}

-- the far end of a connection of the master: a process once it has dialled, and anyone before
structure Party where
  client : Option (Flow Client.Error Client.Loop)
  queued : List CodeString
  written : List UInt8
  reached : Nat
  taken : Nat

namespace Party

def stranger : Party := ⟨none, [], [], 0, 0⟩

def isCaller (p : Party) : Bool := p.client.isSome

def unsent (p : Party) : List UInt8 := p.client.elim [] fun f => f.state.mainStream.outbuffer

def waiting (p : Party) : List CodeString := p.client.elim [] fun f => f.state.codeRecv.map Client.EvalCode.msg

-- what it has written and no worker has been sent: the master reads the header and no more
def rest (p : Party) : List UInt8 := p.written.drop (requestHeaderSize + p.taken)

def dial (p : Party) : Party := { p with client := some (.running .new), written := Client.clientHello }

def act (bc : Bincode) (p : Party) (c : Client.Loop) (l : Client.Label) : Party :=
  { p with
    client := some (c.step bc l)
    queued := p.queued ++ c.takes l
    written := p.written ++ c.wrote l }

def write (p : Party) (bytes : List UInt8) : Party := { p with written := p.written ++ bytes }

def reach (p : Party) (n : Nat) : Party := { p with reached := p.reached + n }

def take (p : Party) (n : Nat) : Party := { p with taken := p.taken + n }

end Party

structure Proxy (Py : Type) where
  pool : Pool
  threads : Sock → Thread Py
  parties : Sock → Party

namespace Proxy

inductive Label where
  | dial (conn : Sock)
  | client (conn : Sock) (l : Client.Label)
  | stranger (conn : Sock) (bytes : List UInt8)
  | master (l : Master.Label)
  | worker (k : Sock) (l : ThreadLabel Daemon.Label)

variable (menv : Master.Env) (wenv : Worker.Env) (python : Python Py Obj)

def setParty (s : Proxy Py) (conn : Sock) (p : Party) : Proxy Py :=
  { s with parties := fun j => if j = conn then p else s.parties j }

def stepClient (s : Proxy Py) (conn : Sock) (l : Client.Label) : Option (Proxy Py) :=
  match (s.parties conn).client with
  | some (.running c) => some (s.setParty conn ((s.parties conn).act wenv.bc c l))
  | _ => none

def stepMaster (s : Proxy Py) (l : Master.Label) : Option (Proxy Py) :=
  if (s.pool.master.noted l).all fun n => (bytesOf n.sock (s.pool.master.noted l)).isPrefixOf
      ((s.parties n.sock).written.drop (s.parties n.sock).reached) then
    (s.pool.stepMaster menv l).map fun pool => { s with
      pool := pool
      parties := fun conn => (s.parties conn).reach (bytesOf conn (s.pool.master.noted l)).length }
  else none

def stepHost (s : Proxy Py) (k : Sock) (l : Daemon.Label) : Option (Proxy Py) :=
  match l with
  | .arrive fd bytes =>
    match Pool.Link.conn (s.pool.links k) fd with
    | none => none
    | some conn =>
      if bytes.isPrefixOf (s.parties conn).rest then
        (s.pool.stepWorker wenv k l).map fun pool =>
          { s with pool := pool }.setParty conn ((s.parties conn).take bytes.length)
      else none
  | .pythread _ _ => none
  | l => (s.pool.stepWorker wenv k l).map fun pool => { s with pool := pool }

-- a worker's thread ends with its loop
def stepWorker (s : Proxy Py) (k : Sock) (l : ThreadLabel Daemon.Label) : Option (Proxy Py) :=
  match (s.pool.workers k).flow with
  | .returned _ _ => none
  | .running _ =>
    match l with
    | .host l => s.stepHost wenv k l
    | l => ((Daemon.host wenv).step wenv.mc python ⟨s.pool.workers k, s.threads k⟩ l).map fun t => { s with
        pool := { s.pool with workers := fun j => if j = k then t.host else s.pool.workers j }
        threads := fun j => if j = k then t.thread else s.threads j }

def step (s : Proxy Py) : Label → Option (Proxy Py)
  | .dial conn =>
    if (s.parties conn).client.isNone && (s.parties conn).written.isEmpty then
      some (s.setParty conn (s.parties conn).dial)
    else none
  | .client conn l => s.stepClient wenv conn l
  | .stranger conn bytes =>
    if (s.parties conn).client.isNone then some (s.setParty conn ((s.parties conn).write bytes)) else none
  | .master l => s.stepMaster menv l
  | .worker k l => s.stepWorker wenv python k l

def machine (next : Sock) (py : Py) : Machine (Proxy Py) Label where
  init := ⟨(Pool.machine menv wenv next).init, fun _ => ⟨.waiting, 0, py⟩, fun _ => .stranger⟩
  step := step menv wenv python

def Lossless (s : Proxy Py) : Label → Prop
  | .master l => s.pool.master.Lossless menv l
  | _ => True

instance (s : Proxy Py) (l : Label) : Decidable (s.Lossless menv l) :=
  match l with
  | .master l => inferInstanceAs (Decidable (s.pool.master.Lossless menv l))
  | .dial _ | .client _ _ | .stranger _ _ | .worker _ _ => inferInstanceAs (Decidable True)

variable {menv wenv python} {s s' : Proxy Py}

theorem setParty_cases (s : Proxy Py) (conn : Sock) (p : Party) (j : Sock) :
    (j = conn ∧ (s.setParty conn p).parties j = p) ∨ (j ≠ conn ∧ (s.setParty conn p).parties j = s.parties j) := by
  by_cases same : j = conn
  · exact .inl ⟨same, if_pos same⟩
  · exact .inr ⟨same, if_neg same⟩

inductive StepCase (menv : Master.Env) (wenv : Worker.Env) (python : Python Py Obj) (s : Proxy Py) :
    Label → Proxy Py → Prop where
  | dial (conn) (stranger : (s.parties conn).client = none) (unwritten : (s.parties conn).written = []) :
      StepCase menv wenv python s (.dial conn) (s.setParty conn (s.parties conn).dial)
  | client (conn l c) (running : (s.parties conn).client = some (.running c)) :
      StepCase menv wenv python s (.client conn l) (s.setParty conn ((s.parties conn).act wenv.bc c l))
  | stranger (conn bytes) (stranger : (s.parties conn).client = none) :
      StepCase menv wenv python s (.stranger conn bytes) (s.setParty conn ((s.parties conn).write bytes))
  | master (l pool) (came : ∀ n ∈ s.pool.master.noted l, bytesOf n.sock (s.pool.master.noted l) <+:
        (s.parties n.sock).written.drop (s.parties n.sock).reached) (step : s.pool.stepMaster menv l = some pool) :
      StepCase menv wenv python s (.master l) { s with
        pool := pool
        parties := fun conn => (s.parties conn).reach (bytesOf conn (s.pool.master.noted l)).length }
  | arrive (k fd bytes conn pool) (behind : Pool.Link.conn (s.pool.links k) fd = some conn)
      (came : bytes <+: (s.parties conn).rest) (step : s.pool.stepWorker wenv k (.arrive fd bytes) = some pool) :
      StepCase menv wenv python s (.worker k (.host (.arrive fd bytes)))
        ({ s with pool := pool }.setParty conn ((s.parties conn).take bytes.length))
  | worker (k l pool) (outside : (Daemon.host wenv).outside l = true) (none : ∀ fd, l.comesTo fd = [])
      (step : s.pool.stepWorker wenv k l = some pool) :
      StepCase menv wenv python s (.worker k (.host l)) { s with pool := pool }
  | thread (k l t w) (running : (s.pool.workers k).flow = .running w) (inner : ∀ l', l ≠ .host l')
      (step : Host.StepCase (Daemon.host wenv) wenv.mc python ⟨s.pool.workers k, s.threads k⟩ l t) :
      StepCase menv wenv python s (.worker k l) { s with
        pool := { s.pool with workers := fun j => if j = k then t.host else s.pool.workers j }
        threads := fun j => if j = k then t.thread else s.threads j }

theorem step_cases {l : Label} (h : step menv wenv python s l = some s') : StepCase menv wenv python s l s' := by
  cases l with
  | dial conn =>
    obtain ⟨idle, eq⟩ := Option.ite_none_right_eq_some.mp h
    cases eq
    obtain ⟨stranger, unwritten⟩ := Bool.and_eq_true_iff.mp idle
    exact .dial conn (Option.isNone_iff_eq_none.mp stranger) (List.isEmpty_iff.mp unwritten)
  | client conn l =>
    simp only [step, stepClient] at h
    split at h
    · rename_i c hc
      cases h
      exact .client conn l c hc
    · cases h
  | stranger conn bytes =>
    obtain ⟨stranger, eq⟩ := Option.ite_none_right_eq_some.mp h
    cases eq
    exact .stranger conn bytes (Option.isNone_iff_eq_none.mp stranger)
  | master l =>
    simp only [step, stepMaster] at h
    obtain ⟨came, moved⟩ := Option.ite_none_right_eq_some.mp h
    obtain ⟨pool, step, rfl⟩ := Option.map_eq_some_iff.mp moved
    refine .master l pool (fun n hn => List.isPrefixOf_iff_prefix.mp ?_) step
    exact List.all_eq_true.mp came n hn
  | worker k l =>
    simp only [step, stepWorker] at h
    cases hf : (s.pool.workers k).flow with
    | returned w res => simp [hf] at h
    | running w =>
      simp only [hf] at h
      cases l with
      | host l =>
        have plain : (∀ fd, l.comesTo fd = []) → (Daemon.host wenv).outside l = true →
            (s.pool.stepWorker wenv k l).map (fun pool => { s with pool := pool }) = some s' →
              StepCase menv wenv python s (.worker k (.host l)) s' := by
          intro none outside moved
          obtain ⟨pool, step, rfl⟩ := Option.map_eq_some_iff.mp moved
          exact .worker k l pool outside none step
        cases l with
        | arrive fd bytes =>
          simp only [stepHost] at h
          split at h
          · cases h
          · rename_i conn behind
            obtain ⟨came, moved⟩ := Option.ite_none_right_eq_some.mp h
            obtain ⟨pool, step, rfl⟩ := Option.map_eq_some_iff.mp moved
            exact .arrive k fd bytes conn pool behind (List.isPrefixOf_iff_prefix.mp came) step
        | pythread msgType msg => cases h
        | head io => exact plain (fun _ => rfl) rfl h
        | poll events => exact plain (fun _ => rfl) rfl h
        | event read fds write => exact plain (fun _ => rfl) rfl h
        | master bytes => exact plain (fun _ => rfl) rfl h
        | hangup => exact plain (fun _ => rfl) rfl h
        | close fd => exact plain (fun _ => rfl) rfl h
      | receive =>
        obtain ⟨t, step, rfl⟩ := Option.map_eq_some_iff.mp h
        exact .thread k _ t w hf (by simp) (Host.step_cases step)
      | print =>
        obtain ⟨t, step, rfl⟩ := Option.map_eq_some_iff.mp h
        exact .thread k _ t w hf (by simp) (Host.step_cases step)
      | handle ts =>
        obtain ⟨t, step, rfl⟩ := Option.map_eq_some_iff.mp h
        exact .thread k _ t w hf (by simp) (Host.step_cases step)
      | finish ts =>
        obtain ⟨t, step, rfl⟩ := Option.map_eq_some_iff.mp h
        exact .thread k _ t w hf (by simp) (Host.step_cases step)

structure Wired (menv : Master.Env) (wenv : Worker.Env) (next : Sock) (s : Proxy Py) (hs : List Handover) : Prop where
  pool : Pool.Accounted menv next s.pool hs
  heard : ∀ conn, bytesOf conn (heard hs) = (s.parties conn).written.take (s.parties conn).reached ∧
    (s.parties conn).reached ≤ (s.parties conn).written.length
  wrote : ∀ conn, (s.parties conn).isCaller = true → (s.parties conn).written ++ (s.parties conn).unsent =
    Client.clientHello ++ (s.parties conn).queued.flatMap (Client.request wenv.bc)
  unasked : ∀ conn, (s.parties conn).client = none → (s.parties conn).queued = []
  used : ∀ conn, (s.parties conn).taken ≠ 0 → ∃ k fd, fd ≠ 0 ∧ Pool.Link.conn (s.pool.links k) fd = some conn
  room : ∀ k fd conn, fd ≠ 0 → Pool.Link.conn (s.pool.links k) fd = some conn →
    requestHeaderSize + (s.parties conn).taken ≤ (s.parties conn).written.length

namespace Wired

variable {next : Sock} {hs : List Handover} {conn : Sock} {p : Party}

theorem init (next : Sock) (py : Py) : Wired menv wenv next (machine menv wenv python next py).init [] where
  pool := Pool.accounted_init next
  heard conn := ⟨rfl, Nat.le_refl _⟩
  wrote conn called := by cases called
  unasked conn _ := rfl
  used conn taken := absurd rfl taken
  room k fd conn _ behind := by cases behind

theorem written_length (h : Wired menv wenv next s hs) {k fd : Sock}
    (behind : Pool.Link.conn (s.pool.links k) fd = some conn) :
    requestHeaderSize ≤ (s.parties conn).written.length := by
  obtain ⟨header, header_prefix⟩ := h.pool.headed behind
  have short := header_prefix.length_le
  rw [Vector.length_toList, (h.heard conn).1, List.length_take] at short
  exact Nat.le_trans short (Nat.min_le_right _ _)

theorem frames (h : Wired menv wenv next s hs) (called : (s.parties conn).isCaller = true)
    (long : requestHeaderSize ≤ (s.parties conn).written.length) :
    (s.parties conn).written.drop requestHeaderSize ++ (s.parties conn).unsent =
      (s.parties conn).queued.flatMap (Client.request wenv.bc) := by
  have whole := congrArg (List.drop requestHeaderSize) (h.wrote conn called)
  rwa [List.drop_append_of_le_length long, List.drop_left' (by rfl)] at whole

theorem setParty (h : Wired menv wenv next s hs)
    (heard : bytesOf conn (Session.heard hs) = p.written.take p.reached ∧ p.reached ≤ p.written.length)
    (wrote : p.isCaller = true → p.written ++ p.unsent =
      Client.clientHello ++ p.queued.flatMap (Client.request wenv.bc))
    (unasked : p.client = none → p.queued = [])
    (used : p.taken ≠ 0 → ∃ k fd, fd ≠ 0 ∧ Pool.Link.conn (s.pool.links k) fd = some conn)
    (room : ∀ k fd, fd ≠ 0 → Pool.Link.conn (s.pool.links k) fd = some conn →
      requestHeaderSize + p.taken ≤ p.written.length) : Wired menv wenv next (s.setParty conn p) hs := by
  refine ⟨h.pool, fun j => ?_, fun j => ?_, fun j => ?_, fun j => ?_, fun k fd j pos behind => ?_⟩
  · rcases s.setParty_cases conn p j with ⟨rfl, eq⟩ | ⟨-, eq⟩ <;> rw [eq]
    · exact heard
    · exact h.heard j
  · rcases s.setParty_cases conn p j with ⟨rfl, eq⟩ | ⟨-, eq⟩ <;> rw [eq]
    · exact wrote
    · exact h.wrote j
  · rcases s.setParty_cases conn p j with ⟨rfl, eq⟩ | ⟨-, eq⟩ <;> rw [eq]
    · exact unasked
    · exact h.unasked j
  · rcases s.setParty_cases conn p j with ⟨rfl, eq⟩ | ⟨-, eq⟩ <;> rw [eq]
    · exact used
    · exact h.used j
  · rcases s.setParty_cases conn p j with ⟨rfl, eq⟩ | ⟨-, eq⟩ <;> rw [eq]
    · exact room k fd pos behind
    · exact h.room k fd j pos behind

theorem dial (h : Wired menv wenv next s hs) (stranger : (s.parties conn).client = none)
    (unwritten : (s.parties conn).written = []) : Wired menv wenv next (s.setParty conn (s.parties conn).dial) hs := by
  obtain ⟨heard, reached⟩ := h.heard conn
  rw [unwritten] at heard reached
  have none : (s.parties conn).reached = 0 := Nat.le_zero.mp reached
  refine h.setParty ⟨?_, ?_⟩ (fun _ => ?_) (fun none => by cases none) (h.used conn) fun k fd pos behind => ?_
  · rw [heard, Party.dial, none]
    rfl
  · rw [Party.dial, none]
    exact Nat.zero_le _
  · simp [Party.dial, Party.unsent, h.unasked conn stranger, Flow.state, Client.Loop.new, Client.MainStream.new]
  · have long := h.written_length behind
    rw [unwritten] at long
    exact absurd long (by decide)

theorem act (h : Wired menv wenv next s hs) {c : Client.Loop} (running : (s.parties conn).client = some (.running c))
    (l : Client.Label) : Wired menv wenv next (s.setParty conn ((s.parties conn).act wenv.bc c l)) hs := by
  obtain ⟨heard, reached⟩ := h.heard conn
  have grows : (s.parties conn).written <+: ((s.parties conn).act wenv.bc c l).written := List.prefix_append _ _
  refine h.setParty ⟨?_, ?_⟩ (fun _ => ?_) (fun none => by cases none) (h.used conn) fun k fd pos behind => ?_
  · rw [heard]
    exact (List.take_append_of_le_length reached).symm
  · exact Nat.le_trans reached grows.length_le
  · have wrote := h.wrote conn (by rw [Party.isCaller, running]; rfl)
    have out := (@Client.Loop.step_spec wenv.bc c l).1
    simp only [Party.unsent, running, Option.elim_some, Flow.state] at wrote
    simp only [Party.act, Party.unsent, Option.elim_some, List.append_assoc, List.flatMap_append]
    rw [out, ← List.append_assoc, wrote, List.append_assoc]
  · exact Nat.le_trans (h.room k fd conn pos behind) grows.length_le

theorem write (h : Wired menv wenv next s hs) (stranger : (s.parties conn).client = none) (bytes : List UInt8) :
    Wired menv wenv next (s.setParty conn ((s.parties conn).write bytes)) hs := by
  obtain ⟨heard, reached⟩ := h.heard conn
  have grows : (s.parties conn).written <+: ((s.parties conn).write bytes).written := List.prefix_append _ _
  refine h.setParty ⟨?_, ?_⟩ (fun called => ?_) (h.unasked conn) (h.used conn) fun k fd pos behind => ?_
  · rw [heard]
    exact (List.take_append_of_le_length reached).symm
  · exact Nat.le_trans reached grows.length_le
  · simp [Party.isCaller, Party.write, stranger] at called
  · exact Nat.le_trans (h.room k fd conn pos behind) grows.length_le

theorem master (h : Wired menv wenv next s hs) (inOrder : menv.fdQueue.InOrder) {l : Master.Label} {pool : Pool}
    (lossless : s.pool.master.Lossless menv l)
    (came : ∀ n ∈ s.pool.master.noted l, bytesOf n.sock (s.pool.master.noted l) <+:
      (s.parties n.sock).written.drop (s.parties n.sock).reached)
    (step : s.pool.stepMaster menv l = some pool) : Wired menv wenv next { s with
      pool := pool
      parties := fun conn => (s.parties conn).reach (bytesOf conn (s.pool.master.noted l)).length }
      (hs ++ s.pool.handovers menv (.master l)) := by
  have kept := h.pool.master_step inOrder lossless step
  obtain ⟨-, passed⟩ := Pool.stepMaster_keeps step
  have all : ∀ conn, bytesOf conn (s.pool.master.noted l) <+:
      (s.parties conn).written.drop (s.parties conn).reached := by
    intro conn
    by_cases noted : ∃ n ∈ s.pool.master.noted l, n.sock = conn
    · obtain ⟨n, hn, rfl⟩ := noted
      exact came n hn
    · rw [Master.Note.bytesOf_other fun n hn same => noted ⟨n, hn, same⟩]
      exact List.nil_prefix
  have heard : ∀ conn, bytesOf conn (Session.heard (hs ++ s.pool.handovers menv (.master l))) =
      (s.parties conn).written.take ((s.parties conn).reached + (bytesOf conn (s.pool.master.noted l)).length) ∧
        (s.parties conn).reached + (bytesOf conn (s.pool.master.noted l)).length ≤ (s.parties conn).written.length := by
    intro conn
    obtain ⟨old, reached⟩ := h.heard conn
    have more := all conn
    constructor
    · rw [Pool.heard_append, (@Pool.master_handovers menv 0 s.pool l).1, Master.Note.bytesOf_append, old, List.take_add,
        ← List.prefix_iff_eq_take.mp more]
    · have short := more.length_le
      rw [List.length_drop] at short
      omega
  have used : ∀ conn, (s.parties conn).taken ≠ 0 → ∃ k fd, fd ≠ 0 ∧ Pool.Link.conn (pool.links k) fd = some conn := by
    intro conn taken
    obtain ⟨k, fd, pos, behind⟩ := h.used conn taken
    exact ⟨k, fd, pos, Pool.Link.conn_mono (passed k) behind⟩
  refine ⟨kept, heard, h.wrote, h.unasked, used, fun k fd conn pos behind => ?_⟩
  obtain ⟨header, first⟩ := kept.headed behind
  have short := first.length_le
  rw [Vector.length_toList, (heard conn).1, List.length_take] at short
  dsimp only [Party.reach]
  by_cases taken : (s.parties conn).taken = 0
  · rw [taken]
    exact Nat.le_trans short (Nat.min_le_right _ _)
  · obtain ⟨k', fd', pos', behind'⟩ := h.used conn taken
    exact h.room k' fd' conn pos' behind'

theorem worker (h : Wired menv wenv next s hs) {j : Sock} {l : Daemon.Label} {pool : Pool}
    (step : s.pool.stepWorker wenv j l = some pool) (threads : Sock → Thread Py) :
    Wired menv wenv next ⟨pool, threads, s.parties⟩ (hs ++ s.pool.handovers menv (.worker j l)) := by
  have kept := h.pool.worker_step step
  obtain ⟨d, -, -, passed⟩ := Pool.stepWorker_keeps step
  have behind : ∀ k fd, Pool.Link.conn (pool.links k) fd = Pool.Link.conn (s.pool.links k) fd := fun k fd => by
    rw [Pool.Link.conn, Pool.Link.conn, passed]
  refine ⟨kept, fun conn => ?_, h.wrote, h.unasked, fun conn taken => ?_, fun k fd conn pos there => ?_⟩
  · rw [Pool.heard_append, (@Pool.worker_handovers menv 0 s.pool j l).1, List.append_nil]
    exact h.heard conn
  · obtain ⟨k, fd, pos, there⟩ := h.used conn taken
    exact ⟨k, fd, pos, (behind k fd).trans there⟩
  · exact h.room k fd conn pos ((behind k fd).symm.trans there)

theorem take (h : Wired menv wenv next s hs) {k fd n : Nat} (pos : fd ≠ 0)
    (behind : Pool.Link.conn (s.pool.links k) fd = some conn) (came : n ≤ (s.parties conn).rest.length) :
    Wired menv wenv next (s.setParty conn ((s.parties conn).take n)) hs := by
  refine h.setParty (h.heard conn) (h.wrote conn) (h.unasked conn) (fun _ => ⟨k, fd, pos, behind⟩) fun _ _ _ _ => ?_
  have room := h.room k fd conn pos behind
  rw [Party.rest, List.length_drop] at came
  dsimp only [Party.take]
  omega

end Wired

end Proxy
end PyProxy.Session
