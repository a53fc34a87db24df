import PyProxy.Master.Outlets
import PyProxy.Worker.Intake

namespace PyProxy.Session
open Stream Protocol Server Poll

-- what the master has written to a worker: the bytes that are still under way, and all the descriptors
structure Link where
  sent : List UInt8
  passed : List Sock

-- the workers are keyed by the master's end of their streams
structure Pool where
  master : Master.System
  links : Sock → Link
  workers : Sock → Worker.Daemon

inductive Handover where
  | heard (n : Master.Note)
  | placed (worker : Option Sock) (req : Master.Request)
  | served (worker : Sock) (msg : Vector UInt8 requestHeaderSize × Sock)

namespace Handover

def heard? : Handover → Option Master.Note
  | .heard n => some n
  | _ => none

def placed? : Handover → Option (Option Sock × Master.Request)
  | .placed worker req => some (worker, req)
  | _ => none

def servedBy? (k : Sock) : Handover → Option (Vector UInt8 requestHeaderSize × Sock)
  | .served worker msg => if worker = k then some msg else none
  | _ => none

end Handover

def heard (hs : List Handover) : List Master.Note := hs.filterMap Handover.heard?

def placed (hs : List Handover) : List (Option Sock × Master.Request) := hs.filterMap Handover.placed?

def givenTo (k : Sock) (hs : List Handover) : List Master.Request :=
  ((placed hs).filter fun p => p.1 = some k).map Prod.snd

def servedBy (k : Sock) (hs : List Handover) : List (Vector UInt8 requestHeaderSize × Sock) :=
  hs.filterMap (Handover.servedBy? k)

namespace Pool

inductive Label where
  | master (l : Master.Label)
  | worker (k : Sock) (l : Worker.Daemon.Label)

variable (menv : Master.Env) (wenv : Worker.Env)

def Link.carry (fdQueue : FdQueue) (link : Link) (o : Master.Outlet) (n : Nat) : Link :=
  ⟨link.sent ++ o.outbuffer.take n, link.passed ++ o.passed fdQueue n⟩

def outlet (s : Master.System) (k : Sock) : Master.Outlet :=
  match s.flow with
  | .running c => c.outlet k
  | .returned _ _ => .empty

def stepMaster (s : Pool) (l : Master.Label) : Option Pool :=
  match Master.System.step menv s.master l with
  | none => none
  | some m =>
    if m.runs then
      some { s with
        master := m
        links := fun k => Link.carry menv.fdQueue (s.links k) (outlet s.master k) (s.master.sentOn l k) }
    else some { s with master := m }

-- the bytes a worker is sent are those of its link, and descriptors come with some of them
def admits (s : Pool) (k : Sock) (l : Worker.Daemon.Label) : Bool :=
  match l, (s.workers k).flow, (s.workers k).phase with
  | .master bytes, _, _ => bytes.isPrefixOf (s.links k).sent
  | .event read fds _, .running w, .turn (ev :: _) =>
    (fds == 0 || !(w.taken ev read).isEmpty) && decide (w.os.next + fds ≤ (s.links k).passed.length + 1)
  | _, _, _ => true

def Link.take (link : Link) : Worker.Daemon.Label → Link
  | .master bytes => { link with sent := link.sent.drop bytes.length }
  | _ => link

def stepWorker (s : Pool) (k : Sock) (l : Worker.Daemon.Label) : Option Pool :=
  if s.admits k l then
    (Worker.Daemon.step wenv (s.workers k) l).map fun d => { s with
      links := fun j => if j = k then Link.take (s.links k) l else s.links j
      workers := fun j => if j = k then d else s.workers j }
  else none

def step (s : Pool) : Label → Option Pool
  | .master l => s.stepMaster menv l
  | .worker k l => s.stepWorker wenv k l

def machine (next : Sock) : Machine Pool Label where
  init := ⟨(Master.System.machine menv next).init, fun _ => ⟨[], []⟩, fun _ => (Worker.Daemon.machine wenv).init⟩
  step := step menv wenv

def Lossless (s : Pool) : Label → Prop
  | .master l => s.master.Lossless menv l
  | .worker _ _ => True

instance (s : Pool) (l : Label) : Decidable (s.Lossless menv l) :=
  match l with
  | .master l => inferInstanceAs (Decidable (s.master.Lossless menv l))
  | .worker _ _ => inferInstanceAs (Decidable True)

-- what a worker makes client streams of
def popped (d : Worker.Daemon) : Worker.Daemon.Label → List (Vector UInt8 requestHeaderSize × Sock)
  | .head _ =>
    match d.flow with
    | .running w => w.workerStream.newMsgs
    | .returned _ _ => []
  | _ => []

def handovers (s : Pool) : Label → List Handover
  | .master l => (s.master.noted l).map .heard ++ (s.master.placed menv l).map fun p => .placed p.1 p.2
  | .worker k l => (popped (s.workers k) l).map (.served k)

-- what a worker has been given, against what it has served, what it holds and what is under way to it
structure Aligned (given : List Master.Request) (done : List (Vector UInt8 requestHeaderSize × Sock))
    (link : Link) (rest : Master.Outlet) (i : Worker.Intake) : Prop where
  headers : ∃ left, given.map Prod.fst = done.map Prod.fst ++ i.newMsgs.map Prod.fst ++ left ∧
    i.inbuffer ++ (i.input ++ (link.sent ++ rest.outbuffer)) = left.flatMap Vector.toList
  numbers : done.map Prod.snd ++ i.newMsgs.map Prod.snd ++ i.inFds = List.range' 1 (i.next - 1)
  bound : 0 < i.next ∧ i.next ≤ link.passed.length + 1

structure InTurn (given : List Master.Request) (done : List (Vector UInt8 requestHeaderSize × Sock))
    (link : Link) : Prop where
  headers : done.map Prod.fst <+: given.map Prod.fst
  numbers : done.map Prod.snd = List.range' 1 done.length
  bound : done.length ≤ link.passed.length

structure Paired (given : List Master.Request) (done : List (Vector UInt8 requestHeaderSize × Sock))
    (link : Link) (rest : Master.Outlet) (d : Worker.Daemon) : Prop where
  passed : link.passed ++ rest.outFds = given.map Prod.snd
  served : InTurn given done link
  running : ∀ w, d.flow = .running w → Aligned given done link rest w.intake

variable {given : List Master.Request} {done : List (Vector UInt8 requestHeaderSize × Sock)} {link : Link}
  {rest : Master.Outlet} {i : Worker.Intake} {d d' : Worker.Daemon} {fdQueue : FdQueue}

namespace Aligned

theorem carry (h : Aligned given done link rest i) (n : Nat) :
    Aligned given done (Link.carry fdQueue link rest n) (rest.write fdQueue n) i where
  headers := by
    obtain ⟨left, eq, bytes⟩ := h.headers
    refine ⟨left, eq, ?_⟩
    rw [← bytes, Link.carry, Master.Outlet.write, List.append_assoc, List.take_append_drop]
  numbers := h.numbers
  bound := by
    have := h.bound
    rw [Link.carry, List.length_append]
    omega

theorem give (h : Aligned given done link rest i) (reqs : List Master.Request) :
    Aligned (given ++ reqs) done link (rest.give reqs) i where
  headers := by
    obtain ⟨left, eq, bytes⟩ := h.headers
    refine ⟨left ++ reqs.map Prod.fst, ?_, ?_⟩
    · rw [List.map_append, eq, List.append_assoc]
    · rw [List.flatMap_append, ← bytes, Master.Outlet.give, List.flatMap_map]
      simp only [List.append_assoc]
  numbers := h.numbers
  bound := h.bound

theorem emptied (h : Aligned given done link rest i) :
    Aligned given (done ++ i.newMsgs) link rest i.emptied where
  headers := by
    obtain ⟨left, eq, bytes⟩ := h.headers
    refine ⟨left, ?_, bytes⟩
    rw [eq, List.map_append]
    exact congrArg (· ++ left) (List.append_nil _).symm
  numbers := by
    refine Eq.trans ?_ h.numbers
    rw [List.map_append]
    exact congrArg (· ++ i.inFds) (List.append_nil _)
  bound := h.bound

theorem received (h : Aligned given done link rest i) {bytes : List UInt8} (came : bytes <+: link.sent) :
    Aligned given done { link with sent := link.sent.drop bytes.length } rest (i.received bytes) where
  headers := by
    obtain ⟨left, eq, whole⟩ := h.headers
    obtain ⟨later, hl⟩ := came
    refine ⟨left, eq, ?_⟩
    rw [← whole, ← hl, Worker.Intake.received, List.drop_left]
    simp only [List.append_assoc]
  numbers := h.numbers
  bound := h.bound

-- descriptors come in
theorem bind (h : Aligned given done link rest i) {n : Nat} (room : i.next + n ≤ link.passed.length + 1) :
    Aligned given done link rest { i with inFds := i.inFds ++ List.range' i.next n, next := i.next + n } where
  headers := h.headers
  numbers := by
    obtain ⟨pos, -⟩ := h.bound
    dsimp only
    rw [← List.append_assoc, h.numbers]
    have whole := @List.range'_append_1 1 (i.next - 1) n
    rwa [show 1 + (i.next - 1) = i.next by omega, show i.next - 1 + n = i.next + n - 1 by omega] at whole
  bound := ⟨Nat.lt_add_right n h.bound.1, room⟩

-- and so do bytes
theorem took (h : Aligned given done link rest i) (n : Nat) :
    Aligned given done link rest { i with inbuffer := i.inbuffer ++ i.input.take n, input := i.input.drop n } where
  headers := by
    obtain ⟨left, eq, bytes⟩ := h.headers
    refine ⟨left, eq, ?_⟩
    rw [← bytes]
    dsimp only
    rw [List.append_assoc, ← List.append_assoc (i.input.take n), List.take_append_drop]
  numbers := h.numbers
  bound := h.bound

theorem takeHeader (h : Aligned given done link rest i) : Aligned given done link rest i.takeHeader := by
  rcases i.takeHeader_cases with same | ⟨fd, fds, inFds, full, eq⟩
  · rw [same]
    exact h
  · rw [eq]
    obtain ⟨left, names, bytes⟩ := h.headers
    cases left with
    | nil =>
      have none : i.inbuffer = [] := (List.append_eq_nil_iff.mp bytes).1
      rw [none] at full
      cases full
    | cons header left =>
      have first : copyHeader requestHeaderSize i.inbuffer = header := by
        rw [← copyHeader_append _ _ (i.input ++ (link.sent ++ rest.outbuffer)) full, bytes, List.flatMap_cons,
          copyHeader_toList]
      refine ⟨⟨left, ?_, ?_⟩, ?_, h.bound⟩
      · rw [names, first]
        simp
      · dsimp only
        rw [← List.drop_append_of_le_length full, bytes, List.flatMap_cons, List.drop_left' (by simp)]
      · rw [← h.numbers, inFds]
        simp

theorem read (h : Aligned given done link rest i) {n m : Nat} (room : i.next + m ≤ link.passed.length + 1) :
    Aligned given done link rest
      (Worker.Intake.read { i with next := i.next + m } n (List.range' i.next m)) :=
  ((h.bind room).took n).takeHeader

theorem inTurn (h : Aligned given done link rest i) : InTurn given (done ++ i.newMsgs) link := by
  obtain ⟨left, names, -⟩ := h.headers
  have count := congrArg List.length h.numbers
  rw [List.length_append, List.length_range', ← List.map_append, List.length_map] at count
  refine ⟨⟨left, ?_⟩, ?_, ?_⟩
  · rw [names, List.map_append]
  · have numbers := h.numbers
    have whole := @List.range'_append_1 1 (done ++ i.newMsgs).length (i.next - 1 - (done ++ i.newMsgs).length)
    rw [show (done ++ i.newMsgs).length + (i.next - 1 - (done ++ i.newMsgs).length) = i.next - 1 by omega] at whole
    rw [← List.map_append, ← whole] at numbers
    exact List.append_inj_left numbers (by simp)
  · have := h.bound
    omega

end Aligned

theorem InTurn.more (h : InTurn given done link) (reqs : List Master.Request) {link' : Link}
    (passed : link.passed <+: link'.passed) : InTurn (given ++ reqs) done link' where
  headers := by
    rw [List.map_append]
    exact h.headers.trans (List.prefix_append _ _)
  numbers := h.numbers
  bound := Nat.le_trans h.bound passed.length_le

namespace Paired

theorem carry (h : Paired given done link rest d) (inOrder : fdQueue.InOrder) (n : Nat) :
    Paired given done (Link.carry fdQueue link rest n) (rest.write fdQueue n) d where
  passed := by
    rw [Link.carry, List.append_assoc, Master.Outlet.passed_write inOrder]
    exact h.passed
  served := by
    have kept := @InTurn.more _ _ _ h.served [] (Link.carry fdQueue link rest n) (List.prefix_append _ _)
    rwa [List.append_nil] at kept
  running w hw := (h.running w hw).carry n

theorem give (h : Paired given done link rest d) (reqs : List Master.Request) :
    Paired (given ++ reqs) done link (rest.give reqs) d where
  passed := by
    rw [Master.Outlet.give, ← List.append_assoc, h.passed, List.map_append]
  served := h.served.more reqs List.prefix_rfl
  running w hw := (h.running w hw).give reqs

end Paired

-- a step of a worker, from what its loop holds
theorem Paired.worker {wenv : Worker.Env} {l : Worker.Daemon.Label} (h : Paired given done link rest d)
    (settled : Worker.Daemon.Settled d) (hs : Worker.Daemon.step wenv d l = some d')
    (came : ∀ bytes, l = .master bytes → bytes <+: link.sent)
    (room : ∀ read fds write w ev batch, l = .event read fds write → d.flow = .running w →
      d.phase = .turn (ev :: batch) → (fds = 0 ∨ w.taken ev read ≠ []) ∧ w.os.next + fds ≤ link.passed.length + 1) :
    Paired given (done ++ popped d l) (Link.take link l) rest d' := by
  obtain ⟨w, hw, hcase⟩ := Worker.Daemon.step_cases hs
  have aligned := h.running w hw
  have housed := (settled.settled w hw).housed
  have quiet : popped d l = [] → Link.take link l = link →
      (∀ w', d'.flow = .running w' → Aligned given done link rest w'.intake) →
      Paired given (done ++ popped d l) (Link.take link l) rest d' := by
    intro none same running
    rw [none, same, List.append_nil]
    exact ⟨h.passed, h.served, running⟩
  cases hcase with
  | head io phase order =>
    have taken : popped d (.head io) = w.intake.newMsgs := by
      simp only [popped, hw]
      rfl
    rw [taken]
    refine ⟨h.passed, aligned.inTurn, fun w' hw' => ?_⟩
    have intake := @Worker.Loop.head_intake wenv w io
    rw [show w.head wenv io = .running w' from hw', Flow.state] at intake
    rw [intake]
    exact aligned.emptied
  | poll events os phase notified =>
    refine quiet rfl rfl fun w' hw' => ?_
    cases hw'
    have same : Worker.Loop.intake { w with os := os } = w.intake :=
      Worker.Loop.intake_os (fun k => by
        obtain ⟨r, wr, source, -⟩ := World.notifyAll_deliver notified k
        rw [source]
        rfl) (World.notifyAll_some notified).1.1
    rw [same]
    exact aligned
  | event read fds write ev batch phase =>
    refine quiet rfl rfl fun w' hw' => ?_
    obtain ⟨bytes, fits⟩ := room read fds write w ev batch rfl hw phase
    have takes := @Worker.Loop.event_takes wenv (w.bindFds fds) ev ⟨read, List.range' w.os.next fds, write⟩
      fun tk k own => (housed.streams tk k own).2.1
    rw [show (w.bindFds fds).event wenv ev _ = .running w' from hw', Flow.state] at takes
    cases takes with
    | nothing none same =>
      obtain rfl := bytes.resolve_right fun some => some none
      rw [same]
      exact aligned
    | read n got some more =>
      rw [more]
      exact aligned.read fits
  | master bytes =>
    have none : popped d (.master bytes) = [] := rfl
    rw [none, List.append_nil]
    refine ⟨h.passed, ⟨h.served.headers, h.served.numbers, h.served.bound⟩, fun w' hw' => ?_⟩
    cases hw'
    have intake : Worker.Loop.intake { w with os := w.os.modify w.workerStream.stream (·.arrive bytes) } =
        w.intake.received bytes := by
      simp [Worker.Loop.intake, Worker.Loop.input, Worker.Intake.received]
    rw [intake]
    exact aligned.received (came bytes rfl)
  | hangup =>
    refine quiet rfl rfl fun w' hw' => ?_
    cases hw'
    rw [@Worker.Loop.intake_modify w w.workerStream.stream Source.close fun _ => rfl]
    exact aligned
  | arrive k bytes client =>
    refine quiet rfl rfl fun w' hw' => ?_
    cases hw'
    have same : Worker.Loop.intake { w with os := w.os.modify k (·.arrive bytes) } = w.intake := by
      simp [Worker.Loop.intake, Worker.Loop.input, World.modify_other _ _ client.symm]
    rw [same]
    exact aligned
  | close k client =>
    refine quiet rfl rfl fun w' hw' => ?_
    cases hw'
    rw [@Worker.Loop.intake_modify w k Source.close fun _ => rfl]
    exact aligned
  | pythread msgType msg =>
    refine quiet rfl rfl fun w' hw' => ?_
    cases hw'
    exact aligned

variable {menv : Master.Env} {wenv : Worker.Env} {s s' : Pool} {hs hs' : List Handover} {k : Sock}

theorem heard_append : heard (hs ++ hs') = heard hs ++ heard hs' := List.filterMap_append

theorem placed_append : placed (hs ++ hs') = placed hs ++ placed hs' := List.filterMap_append

theorem servedBy_append : servedBy k (hs ++ hs') = servedBy k hs ++ servedBy k hs' := List.filterMap_append

theorem givenTo_append : givenTo k (hs ++ hs') = givenTo k hs ++ givenTo k hs' := by
  rw [givenTo, placed_append, List.filter_append, List.map_append]
  rfl

theorem master_handovers (s : Pool) (l : Master.Label) :
    heard (s.handovers menv (.master l)) = s.master.noted l ∧
      placed (s.handovers menv (.master l)) = s.master.placed menv l ∧
      servedBy k (s.handovers menv (.master l)) = [] := by
  simp only [handovers, heard, placed, servedBy, List.filterMap_append, List.filterMap_map]
  refine ⟨?_, ?_, ?_⟩
  · simp [Function.comp_def, Handover.heard?]
  · simp [Function.comp_def, Handover.placed?]
  · simp [Function.comp_def, Handover.servedBy?]

theorem worker_handovers (s : Pool) (j : Sock) (l : Worker.Daemon.Label) :
    heard (s.handovers menv (.worker j l)) = [] ∧ placed (s.handovers menv (.worker j l)) = [] ∧
      servedBy k (s.handovers menv (.worker j l)) = if j = k then popped (s.workers j) l else [] := by
  simp only [handovers, heard, placed, servedBy, List.filterMap_map]
  refine ⟨?_, ?_, ?_⟩
  · simp [Function.comp_def, Handover.heard?]
  · simp [Function.comp_def, Handover.placed?]
  · split
    · rename_i same
      simp [Handover.servedBy?, same]
    · rename_i other
      simp [Function.comp_def, Handover.servedBy?, other]

-- the invariant of a pool: one place for every connection that the master has handed over
structure Accounted (menv : Master.Env) (next : Sock) (s : Pool) (hs : List Handover) : Prop where
  master : ∃ ls, ((Master.System.machine menv next).traced Master.System.noted).exec ls = some (s.master, heard hs)
  once : (Master.Note.handedOver (heard hs)).Nodup
  headers : ∀ req ∈ Master.Note.pushes (heard hs), req.1.toList <+: Master.Note.bytesOf req.2 (heard hs)
  placed : (placed hs).map Prod.snd <+: Master.Note.pushes (heard hs)
  waiting : ∀ c, s.master.flow = .running c →
    (Session.placed hs).map Prod.snd ++ c.newRequests = Master.Note.pushes (heard hs) ∧ c.Unused
  settled : ∀ k, (s.workers k).Settled
  streams : ∀ k w, (s.workers k).flow = .running w → ∀ tk fd, w.streamOf tk = some fd →
    ∃ header, (header, fd) ∈ servedBy k hs ∧ Worker.Loop.Opens header
  paired : ∀ k, ∃ rest, (∀ c, s.master.flow = .running c → c.outlet k = rest) ∧
    Paired (givenTo k hs) (servedBy k hs) (s.links k) rest (s.workers k)

theorem accounted_init (next : Sock) : Accounted menv next (machine menv wenv next).init [] where
  master := ⟨[], rfl⟩
  once := List.nodup_nil
  headers req h := by cases h
  placed := List.nil_prefix
  waiting c hc := by
    cases hc
    exact ⟨rfl, fun _ _ => rfl⟩
  settled k := Worker.Daemon.start_settled
  streams k w hw tk fd own := by
    cases hw
    cases own
  paired k := by
    refine ⟨.empty, fun c hc => ?_, rfl, ⟨List.prefix_rfl, rfl, Nat.zero_le _⟩, fun w hw => ?_⟩
    · cases hc
      rfl
    · cases hw
      exact ⟨⟨[], rfl, rfl⟩, rfl, Nat.one_pos, Nat.le_refl _⟩

theorem master_given (s : Pool) (l : Master.Label) (hs : List Handover) (k : Sock) :
    givenTo k (hs ++ s.handovers menv (.master l)) = givenTo k hs ++ s.master.givenTo menv l k := by
  have more : givenTo k (s.handovers menv (.master l)) = s.master.givenTo menv l k := by
    rw [givenTo, (@master_handovers menv k s l).2.1, Master.System.placed_givenTo]
  rw [givenTo_append, more]

theorem master_served (s : Pool) (l : Master.Label) (hs : List Handover) (k : Sock) :
    servedBy k (hs ++ s.handovers menv (.master l)) = servedBy k hs := by
  rw [servedBy_append, (@master_handovers menv k s l).2.2, List.append_nil]

theorem master_heard (s : Pool) (l : Master.Label) (hs : List Handover) :
    heard (hs ++ s.handovers menv (.master l)) = heard hs ++ s.master.noted l := by
  rw [heard_append, (@master_handovers menv 0 s l).1]

theorem master_placed (s : Pool) (l : Master.Label) (hs : List Handover) :
    placed (hs ++ s.handovers menv (.master l)) = placed hs ++ s.master.placed menv l := by
  rw [placed_append, (@master_handovers menv 0 s l).2.1]

section

variable {next : Sock} {l : Master.Label} {m : Master.System}

theorem Accounted.master_trace (h : Accounted menv next s hs) (hm : Master.System.step menv s.master l = some m) :
    ∃ ls, ((Master.System.machine menv next).traced Master.System.noted).exec ls =
      some (m, heard (hs ++ s.handovers menv (.master l))) := by
  obtain ⟨ls, run⟩ := h.master
  refine ⟨ls ++ [l], ?_⟩
  rw [Machine.exec_concat, run, master_heard]
  exact congrArg (Option.map _) hm

theorem Accounted.master_runs (h : Accounted menv next s hs) (inOrder : menv.fdQueue.InOrder)
    (lossless : s.master.Lossless menv l) (hm : Master.System.step menv s.master l = some m) {c' : Master.Loop}
    (hm' : m.flow = .running c') :
    Accounted menv next
      { s with
        master := m
        links := fun k => Link.carry menv.fdQueue (s.links k) (outlet s.master k) (s.master.sentOn l k) }
      (hs ++ s.handovers menv (.master l)) := by
  obtain ⟨ls, run⟩ := h.master
  obtain ⟨custody, issues, wired⟩ := Master.System.custody_run run
  obtain ⟨c, hc, -⟩ := Master.System.step_cases menv hm
  obtain ⟨queue, unused⟩ := h.waiting c hc
  obtain ⟨ls', run'⟩ := h.master_trace hm
  have carries := Master.System.carries custody wired hm lossless hc hm' unused
  have hands := Master.System.hands_off run' hm'
  have whole : (Session.placed (hs ++ s.handovers menv (.master l))).map Prod.snd ++ c'.newRequests =
      Master.Note.pushes (heard (hs ++ s.handovers menv (.master l))) := by
    rw [master_placed, List.map_append, List.append_assoc, carries.requests, ← List.append_assoc,
      queue, master_heard, Master.Note.pushes_append]
  exact {
    master := ⟨ls', run'⟩
    once := hands.once
    headers := fun req hreq => ⟨_, (hands.header req hreq).symm⟩
    placed := ⟨_, whole⟩
    waiting := fun d hd => by
      cases hm'.symm.trans hd
      exact ⟨whole, carries.unused⟩
    settled := h.settled
    streams := fun k w hw tk fd own => by
      rw [master_served]
      exact h.streams k w hw tk fd own
    paired := fun k => by
      obtain ⟨rest, same, paired⟩ := h.paired k
      have rest_eq := same c hc
      refine ⟨(rest.write menv.fdQueue (s.master.sentOn l k)).give (s.master.givenTo menv l k), fun d hd => ?_, ?_⟩
      · cases hm'.symm.trans hd
        rw [carries.outlet, rest_eq]
      · have out : outlet s.master k = rest := by
          rw [← rest_eq]
          simp only [outlet, hc]
        rw [master_given, master_served]
        dsimp only
        rw [out]
        exact (paired.carry inOrder _).give _ }

-- the step that ends the master's loop moves nothing on a link
theorem Accounted.master_halts (h : Accounted menv next s hs) (hm : Master.System.step menv s.master l = some m)
    (halted : ∀ d, m.flow ≠ .running d) :
    Accounted menv next { s with master := m } (hs ++ s.handovers menv (.master l)) := by
  obtain ⟨c, hc, -⟩ := Master.System.step_cases menv hm
  obtain ⟨queue, -⟩ := h.waiting c hc
  have pushes : Master.Note.pushes (heard (hs ++ s.handovers menv (.master l))) =
      Master.Note.pushes (heard hs) := by
    rw [master_heard, Master.Note.pushes_append, Master.System.halting_unpushed hm halted, List.append_nil]
  have handed : Master.Note.handedOver (heard (hs ++ s.handovers menv (.master l))) =
      Master.Note.handedOver (heard hs) := congrArg (List.map Prod.snd) pushes
  exact {
    master := h.master_trace hm
    once := handed ▸ h.once
    headers := fun req hreq => by
      rw [pushes] at hreq
      rw [master_heard, Master.Note.bytesOf_append]
      exact (h.headers req hreq).trans (List.prefix_append _ _)
    placed := by
      obtain ⟨later, more⟩ := @Master.System.placed_waiting menv s.master c hc l
      rw [pushes, master_placed, List.map_append, ← queue, ← more]
      exact ⟨later, List.append_assoc _ _ _⟩
    waiting := fun d hd => absurd hd (halted d)
    settled := h.settled
    streams := fun k w hw tk fd own => by
      rw [master_served]
      exact h.streams k w hw tk fd own
    paired := fun k => by
      obtain ⟨rest, -, paired⟩ := h.paired k
      refine ⟨rest.give (s.master.givenTo menv l k), fun d hd => absurd hd (halted d), ?_⟩
      rw [master_given, master_served]
      exact paired.give _ }

theorem Accounted.master_step (h : Accounted menv next s hs) (inOrder : menv.fdQueue.InOrder)
    (lossless : s.master.Lossless menv l) (step : s.stepMaster menv l = some s') :
    Accounted menv next s' (hs ++ s.handovers menv (.master l)) := by
  simp only [stepMaster] at step
  cases hm : Master.System.step menv s.master l with
  | none => simp [hm] at step
  | some m =>
    simp only [hm] at step
    by_cases runs : m.runs = true
    · rw [if_pos runs] at step
      cases step
      obtain ⟨c', hm'⟩ := Master.System.runs_iff.mp runs
      exact h.master_runs inOrder lossless hm hm'
    · rw [if_neg runs] at step
      cases step
      exact h.master_halts hm fun d hd => runs (Master.System.runs_iff.mpr ⟨d, hd⟩)

end

theorem popped_streams {d d' : Worker.Daemon} {l : Worker.Daemon.Label} (settled : d.Settled)
    (step : Worker.Daemon.step wenv d l = some d') {w' : Worker.Loop} (hw' : d'.flow = .running w') (tk : Token)
    (fd : Sock) (own : w'.streamOf tk = some fd) :
    (∃ w, d.flow = .running w ∧ w.streamOf tk = some fd) ∨
      ∃ header, (header, fd) ∈ popped d l ∧ Worker.Loop.Opens header := by
  obtain ⟨w, hw, hcase⟩ := Worker.Daemon.step_cases step
  cases hcase with
  | head io phase order =>
    have own' := settled.settled w hw
    rw [phase] at own'
    have taken : popped d (.head io) = w.workerStream.newMsgs := by simp only [popped, hw]
    rw [taken]
    rcases Worker.Loop.head_streamOf own' hw' tk fd own with old | new
    · exact .inl ⟨w, hw, old⟩
    · exact .inr new
  | event read fds write ev batch phase =>
    rw [(Worker.Loop.Upkeep.event hw').streamOf] at own
    exact .inl ⟨w, hw, own⟩
  | poll events os phase notified =>
    cases hw'
    exact .inl ⟨w, hw, own⟩
  | master bytes =>
    cases hw'
    exact .inl ⟨w, hw, own⟩
  | hangup =>
    cases hw'
    exact .inl ⟨w, hw, own⟩
  | arrive k bytes client =>
    cases hw'
    exact .inl ⟨w, hw, own⟩
  | close k client =>
    cases hw'
    exact .inl ⟨w, hw, own⟩
  | pythread msgType msg =>
    cases hw'
    exact .inl ⟨w, hw, own⟩

section

variable {next j : Sock} {l : Worker.Daemon.Label} {d : Worker.Daemon}

theorem Accounted.worker_streams (h : Accounted menv next s hs)
    (moved : Worker.Daemon.step wenv (s.workers j) l = some d) {w : Worker.Loop}
    (hw : (if k = j then d else s.workers k).flow = .running w) (tk : Token) (fd : Sock)
    (own : w.streamOf tk = some fd) :
    ∃ header, (header, fd) ∈ servedBy k (hs ++ s.handovers menv (.worker j l)) ∧ Worker.Loop.Opens header := by
  rw [servedBy_append, (@worker_handovers menv k s j l).2.2]
  have before : (∃ w, (s.workers k).flow = .running w ∧ w.streamOf tk = some fd) →
      ∃ header, (header, fd) ∈ servedBy k hs ++ (if j = k then popped (s.workers j) l else []) ∧
        Worker.Loop.Opens header := fun ⟨w₀, hw₀, old⟩ =>
    have ⟨header, mem, opens⟩ := h.streams k w₀ hw₀ tk fd old
    ⟨header, List.mem_append_left _ mem, opens⟩
  by_cases same : k = j
  · subst same
    rw [if_pos rfl] at hw
    rcases popped_streams (h.settled k) moved hw tk fd own with old | ⟨header, new, opens⟩
    · exact before old
    · rw [if_pos rfl]
      exact ⟨header, List.mem_append_right _ new, opens⟩
  · rw [if_neg same] at hw
    exact before ⟨w, hw, own⟩

theorem Paired.admitted (h : Paired given done (s.links j) rest (s.workers j)) (settled : (s.workers j).Settled)
    (moved : Worker.Daemon.step wenv (s.workers j) l = some d) (admitted : s.admits j l = true) :
    Paired given (done ++ popped (s.workers j) l) (Link.take (s.links j) l) rest d := by
  refine h.worker settled moved (fun bytes eq => ?_) fun read fds write w ev batch eq hw phase => ?_
  · subst eq
    exact List.isPrefixOf_iff_prefix.mp admitted
  · subst eq
    simp only [admits, hw, phase, Bool.and_eq_true, Bool.or_eq_true, beq_iff_eq, decide_eq_true_eq] at admitted
    refine ⟨admitted.1.imp id fun some none => ?_, admitted.2⟩
    simp [none] at some

theorem Accounted.worker_step (h : Accounted menv next s hs) (step : s.stepWorker wenv j l = some s') :
    Accounted menv next s' (hs ++ s.handovers menv (.worker j l)) := by
  simp only [stepWorker] at step
  obtain ⟨admitted, step⟩ := Option.ite_none_right_eq_some.mp step
  obtain ⟨d, moved, eq⟩ := Option.map_eq_some_iff.mp step
  subst eq
  obtain ⟨unheard, unplaced, -⟩ := @worker_handovers menv 0 s j l
  have heard : heard (hs ++ s.handovers menv (.worker j l)) = heard hs := by
    rw [heard_append, unheard, List.append_nil]
  have placed : Session.placed (hs ++ s.handovers menv (.worker j l)) = Session.placed hs := by
    rw [placed_append, unplaced, List.append_nil]
  have given : ∀ k, givenTo k (hs ++ s.handovers menv (.worker j l)) = givenTo k hs := fun k => by
    rw [givenTo, placed]
    rfl
  exact {
    master := heard ▸ h.master
    once := heard ▸ h.once
    headers := heard ▸ h.headers
    placed := by
      rw [heard, placed]
      exact h.placed
    waiting := by
      rw [heard, placed]
      exact h.waiting
    settled := fun k => by
      dsimp only
      split
      · exact (h.settled j).step moved
      · exact h.settled k
    streams := fun k w hw tk fd own => h.worker_streams moved hw tk fd own
    paired := fun k => by
      obtain ⟨rest, outlet, paired⟩ := h.paired k
      refine ⟨rest, outlet, ?_⟩
      rw [given, servedBy_append, (@worker_handovers menv k s j l).2.2]
      dsimp only
      by_cases same : k = j
      · subst same
        rw [if_pos rfl, if_pos rfl, if_pos rfl]
        exact paired.admitted (h.settled k) moved admitted
      · rw [if_neg same, if_neg fun other => same other.symm, List.append_nil, if_neg same]
        exact paired }

end

theorem accounted_run (inOrder : menv.fdQueue.InOrder) {next : Sock} {ls : List Label}
    (lossless : (machine menv wenv next).Along (Lossless menv) ls)
    (run : ((machine menv wenv next).traced (handovers menv)).exec ls = some (s, hs)) : Accounted menv next s hs := by
  refine @Machine.invariant_along _ _ _ (fun p => Accounted menv next p.1 p.2) (fun p => Lossless menv p.1)
    (accounted_init next) (fun p l p' kept spared hl => ?_) ls (s, hs) run (Machine.along_traced.mpr lossless)
  obtain ⟨step, trace⟩ := Machine.traced_step hl
  rw [trace]
  cases l with
  | master l => exact kept.master_step inOrder spared step
  | worker j l => exact kept.worker_step step

end Pool
end PyProxy.Session
