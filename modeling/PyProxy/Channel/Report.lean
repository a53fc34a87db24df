import PyProxy.Worker.Audit
import PyProxy.Worker.Sleep

namespace PyProxy.Channel
open Stream Protocol Server Worker

variable {Py Obj : Type}

-- the worker with its two threads, and the master's end of the unix stream
structure Report (Py : Type) where
  process : Threaded Daemon Py
  wire : List UInt8
  master : Master.WorkerStream
  got : List Notice
  panicked : Bool

inductive ReportLabel where
  | process (l : ThreadLabel Daemon.Label)
  | read (n : Nat)

namespace Report

variable (env : Env) (python : Python Py Obj)

def wrote (s : Threaded Daemon Py) : ThreadLabel Daemon.Label → List UInt8
  | .host l => s.host.wrote l
  | _ => []

def step (s : Report Py) : ReportLabel → Option (Report Py)
  | .process l =>
    ((Daemon.host env).step env.mc python s.process l).map fun process =>
      { s with process := process, wire := s.wire ++ wrote s.process l }
  | .read n =>
    if s.panicked ∨ s.wire.take n = [] then none
    else match s.master.read env.mc (.ok (s.wire.take n)) with
    | (.ok notices, master) =>
      some { s with wire := s.wire.drop n, master := master, got := s.got ++ notices }
    | (.error _, master) => some { s with wire := s.wire.drop n, master := master }
    | (.panic _, master) => some { s with wire := s.wire.drop n, master := master, panicked := true }

def machine (py : Py) (interest : Interest) : Machine (Report Py) ReportLabel where
  init := ⟨((Daemon.host env).threaded env.mc python py).init, [], .new interest, [], false⟩
  step := step env python

def notices (s : Report Py) : ReportLabel → List Notice
  | .process l => s.process.notices python (Daemon.hostNotices env) l
  | .read _ => []

def outbuffer (s : Threaded Daemon Py) : List UInt8 := s.host.flow.state.workerStream.outbuffer

variable {env : Env} {python : Python Py Obj} {py : Py}

theorem call_outbuffer {f : WorkerStream → WorkerStream} {s s' : Daemon} {n : Notice}
    (adds : ∀ w : WorkerStream, (f w).outbuffer = w.outbuffer ++ MessageChannel.frame env.mc n)
    (h : (Daemon.host env).call f s = some s') :
    s'.flow.state.workerStream.outbuffer =
      s.flow.state.workerStream.outbuffer ++ [n].flatMap (MessageChannel.frame env.mc) := by
  obtain ⟨c, hc, rfl⟩ := Host.call_some h
  have hf : s.flow = .running c := hc
  rw [hf, List.flatMap_singleton]
  exact adds c.workerStream

theorem step_writes {s s' : Threaded Daemon Py} {l : ThreadLabel Daemon.Label}
    (h : Host.StepCase (Daemon.host env) env.mc python s l s') :
    wrote s l ++ outbuffer s' = outbuffer s ++
      (s.notices python (Daemon.hostNotices env) l).flatMap (MessageChannel.frame env.mc) := by
  obtain ⟨host, stage, taken, py'⟩ := s
  have same : ∀ d : Threaded Daemon Py, outbuffer d = outbuffer d ++ [] := fun d => (List.append_nil _).symm
  cases h with
  | host l host' outside step =>
    obtain ⟨c, hc, hcase⟩ := Daemon.step_cases step
    replace hc : host.flow = .running c := hc
    simp only [outbuffer, wrote, Threaded.notices]
    cases hcase.move with
    | head io phase order =>
      have told : Daemon.hostNotices env host (.head io) = c.headNotices env io := by
        simp only [Daemon.hostNotices, hc]
      have silent : host.wrote (.head io) = [] := by simp [Daemon.wrote, hc]
      rw [told, silent, hc]
      exact c.head_state_adds io
    | event read fds write ev batch phase =>
      replace phase : host.phase = .turn (ev :: batch) := phase
      have silent : Daemon.hostNotices env host (.event read fds write) = [] := by
        simp [Daemon.hostNotices]
      have hw : host.wrote (.event read fds write) =
          (c.bindFds fds).wrote ev ⟨read, List.range' c.os.next fds, write⟩ := by
        simp [Daemon.wrote, hc, phase]
      rw [silent, hw, hc, Loop.event_state_writes]
      exact (List.append_nil _).symm
    | pythread msgType msg => cases outside
    | outside l os phase outer same =>
      have silent : Daemon.hostNotices env host l = [] := by
        cases l <;> simp [Daemon.hostNotices]
        cases outer
      rw [silent, Daemon.wrote_outer outer, hc]
      exact (List.append_nil _).symm
  | receive job jobs hstage queue => exact same _
  | print job host' hstage call =>
    dsimp only at hstage
    subst hstage
    refine call_outbuffer (fun w => ?_) call
    simp [Job.start, WorkerStream.print, WorkerStream.newMsg, MessageChannel.frame, Job.started]
  | done ts job py' hstage result =>
    dsimp only at hstage result
    subst hstage
    dsimp only [Threaded.notices]
    rw [result]
    exact same _
  | failed ts job pyErr py' host' hstage result call =>
    dsimp only at hstage result
    subst hstage
    obtain ⟨code, hmsg⟩ := Host.execute_failed result
    dsimp only [Threaded.notices]
    rw [result]
    refine call_outbuffer (fun w => ?_) call
    obtain ⟨id, msg⟩ := job
    cases hmsg
    simp [Job.handle, WorkerStream.error, WorkerStream.log, WorkerStream.newMsg, MessageChannel.frame,
      Job.failed]
  | panicked ts job py' hstage result =>
    dsimp only at hstage result
    subst hstage
    dsimp only [Threaded.notices]
    rw [result]
    exact same _
  | finish ts job host' hstage call =>
    dsimp only at hstage
    subst hstage
    refine call_outbuffer (fun w => ?_) call
    obtain ⟨id, msg⟩ := job
    cases msg <;> simp [Job.finish, Job.handle, WorkerStream.info, WorkerStream.log,
      WorkerStream.newMsg, MessageChannel.frame, Job.finished]

def link (s : Report Py) (said : List Notice) : Link Notice UInt8 where
  queued := said.map fun n => (MessageChannel.frame env.mc n, n)
  out := outbuffer s.process
  wire := s.wire
  inbuf := s.master.inbuffer
  got := s.got

structure Inv (env : Env) (python : Python Py Obj) (py : Py) (s : Report Py) (said : List Notice) :
    Prop where
  audited : ∃ done, Audited (Daemon.host env) python py s.process said done
  sound : Link.Sound (Master.WorkerStream.framer env.mc) (@link _ env s said)
  ok : s.panicked = false

theorem stream_frames (ns : List Notice) :
    Framer.stream (ns.map fun n => (MessageChannel.frame env.mc n, n)) =
      ns.flatMap (MessageChannel.frame env.mc) := by
  induction ns with
  | nil => rfl
  | cons n ns ih => simp [ih]

theorem step_inv (logs : env.mc.logMessage.RoundTrips) (prints : env.mc.printMessage.RoundTrips)
    {s s' : Report Py} {said : List Notice} {l : ReportLabel} (inv : Inv env python py s said)
    (short : ∀ n ∈ s.notices env python l, Short env.mc n) (h : step env python s l = some s') :
    Inv env python py s' (said ++ s.notices env python l) := by
  cases l with
  | process l =>
    obtain ⟨process, hl, rfl⟩ := Option.map_eq_some_iff.mp h
    have taken := Host.step_cases hl
    obtain ⟨done, audited⟩ := inv.audited
    refine ⟨⟨_, taken.audited Daemon.host_lawful
      (fun s l s' outside step => Daemon.host_queues outside step) audited⟩, ?_, inv.ok⟩
    have encodes : ∀ p ∈ (s.notices env python (.process l)).map fun n => (MessageChannel.frame env.mc n, n),
        (Master.WorkerStream.framer env.mc).Encodes p.1 p.2 := by
      intro p hp
      obtain ⟨n, hn, rfl⟩ := List.mem_map.mp hp
      exact short_encodes logs prints (short n hn)
    have queued := inv.sound.queueAll encodes
    rw [stream_frames] at queued
    simpa [link] using queued.flush (step_writes taken)
  | read n =>
    simp only [step] at h
    split at h
    · cases h
    · rename_i hread
      rw [not_or] at hread
      rw [Master.WorkerStream.read_ok env.mc hread.2 (inv.sound.read_ok n)] at h
      obtain rfl := Option.some.inj h
      refine ⟨?_, ?_, inv.ok⟩
      · simpa [notices] using inv.audited
      · have read := inv.sound.step (.read _ n)
        simpa [notices, link] using read

theorem init_inv {interest : Interest} : Inv env python py (machine env python py interest).init [] :=
  ⟨⟨[], @audited_init _ _ _ _ _ env.mc _ _ rfl⟩, Link.sound_empty _, rfl⟩

theorem inv_run (logs : env.mc.logMessage.RoundTrips) (prints : env.mc.printMessage.RoundTrips)
    {interest : Interest} {ls : List ReportLabel} {s : Report Py} {said : List Notice}
    (run : ((machine env python py interest).traced (notices env python)).exec ls = some (s, said))
    (short : ∀ n ∈ said, Short env.mc n) : Inv env python py s said := by
  induction ls using List.reverseRecOn generalizing s said with
  | nil =>
    cases run
    exact init_inv
  | append_singleton ls l ih =>
    obtain ⟨⟨s₀, said₀⟩, hs₀, hl⟩ := Machine.exec_concat_some _ run
    obtain ⟨step, rfl⟩ := Machine.traced_step hl
    have before := ih hs₀ fun n hn => short n (List.mem_append_left _ hn)
    exact step_inv logs prints before (fun n hn => short n (List.mem_append_right _ hn)) step

theorem orderly_prefix {jobs : List Job} {said got : List Notice} (h : Orderly python py jobs said)
    (part : got <+: said) : Orderly python py jobs got :=
  fun pre hpre => h pre (hpre.trans part)

-- the master's view of the two threads: what it is told comes in the order it happened
theorem reported {env : Env} {python : Python Py Obj} {py : Py} {interest : Interest}
    (logs : env.mc.logMessage.RoundTrips) (prints : env.mc.printMessage.RoundTrips)
    {ls : List ReportLabel} {s : Report Py} {said : List Notice}
    (run : ((machine env python py interest).traced (notices env python)).exec ls = some (s, said))
    (short : ∀ n ∈ said, Short env.mc n) :
    s.panicked = false ∧ s.got <+: said ∧
      Orderly python py s.process.host.flow.state.jobs s.got ∧
      (s.wire = [] → outbuffer s.process = [] →
        queueings s.got = s.process.host.flow.state.jobs.map (·.queueing "") ∧
        (s.process.thread.stage = .waiting →
          s.process.thread.taken = s.process.host.flow.state.jobs.length →
            threadNotices s.got = python.transcript py s.process.host.flow.state.jobs)) := by
  obtain ⟨⟨done, audited⟩, sound, ok⟩ := inv_run logs prints run short
  have pairs : (@link _ env s said).queued.map Prod.snd = said :=
    (List.map_map ..).trans (List.map_id said)
  have part : s.got <+: said := pairs ▸ sound.got_initial
  refine ⟨ok, part, orderly_prefix audited.orderly part, fun wire out => ?_⟩
  have all : s.got = said := pairs ▸ sound.got_all wire out
  refine ⟨all ▸ audited.queued, fun waiting taken => ?_⟩
  have tells := audited.tells
  rw [waiting, ← all, audited.serving.whole (by rw [waiting]; rfl) taken] at tells
  exact tells.at_rest

instance (mc : MessageCodecs) : DecidablePred (Short mc)
  | .log _ => inferInstanceAs (Decidable (_ < _))
  | .print _ => inferInstanceAs (Decidable (_ < _))
  | .unrecognised _ => inferInstanceAs (Decidable False)

-- remembers what it is to run, and knows no names
def nameless : Python (List String) (List UInt8) where
  loads bytes := pure bytes
  dumps obj := pure obj
  asDict obj := .ok obj
  isBytes _ := true
  run code _ _ := do
    modify (· ++ [code])
    throw "NameError"

def served : List ReportLabel :=
  (Daemon.hurried.map fun l => .process (.host l)) ++
    [.process .receive, .process .print, .process (.handle "t"), .process (.finish "t"),
      .process (.host (.poll [⟨0, false, true⟩])),
      .process (.host (.event ⟨0, false⟩ 0 ⟨some 4096, false⟩)), .read 4096]

def atRest (s : Report (List String)) : Bool :=
  s.wire.isEmpty && (outbuffer s.process).isEmpty && s.process.thread.stage == .waiting &&
    s.process.thread.taken == s.process.host.flow.state.jobs.length

def request : Job := ⟨"07070707070707070707070707070707", .codeString loopbackMsg⟩

theorem reported_served : ∃ s said,
    ((machine loopback nameless [] ro).traced (notices loopback nameless)).exec served = some (s, said) ∧
      Orderly nameless [] [request] s.got ∧ threadNotices s.got = nameless.transcript [] [request] := by
  have hrun : (((machine loopback nameless [] ro).traced (notices loopback nameless)).exec served).any
      (fun p => atRest p.1 && decide (∀ n ∈ p.2, Short fixintMessages n) &&
        p.1.process.host.flow.state.jobs == [request]) = true := by
    decide +kernel
  obtain ⟨⟨s, said⟩, run, hp⟩ := (Option.any_eq_true _ _).mp hrun
  simp only [Bool.and_eq_true, atRest, decide_eq_true_eq, List.isEmpty_iff, beq_iff_eq] at hp
  obtain ⟨⟨⟨⟨⟨wire, out⟩, stage⟩, taken⟩, short⟩, jobs⟩ := hp
  obtain ⟨-, -, orderly, rest⟩ := reported fixint_logMessage_roundTrips fixint_printMessage_roundTrips
    run short
  have told := (rest wire out).2 stage taken
  rw [jobs] at orderly told
  exact ⟨s, said, run, orderly, told⟩

end Report
end PyProxy.Channel
