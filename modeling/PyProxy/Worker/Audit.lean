import PyProxy.Worker.Talk
import PyProxy.Worker.Thread

namespace PyProxy.Worker
open Stream Protocol Server Poll Channel

variable {Py Obj σ ℓ : Type}

namespace Job

def queueing (j : Job) (ts : String) : Notice :=
  .log ⟨.info, "queueing new pyproxy atom processing", ts,
    [("session_id", .string j.sessionId), ("future_id", .string (j.msg.futureId.getD "0000"))]⟩

def started (j : Job) : Notice := .print ⟨newRequestStart ++ j.sessionId⟩

def failed (pyErr ts : String) : Notice :=
  .log ⟨.error, "failed to run python code on pyproxy server", ts, [("error", .string pyErr)]⟩

def finished (j : Job) (ts : String) : Notice :=
  .log ⟨.info, "finished processing pyproxyatom", ts,
    [("session_id", .string j.sessionId), ("future_id", .string j.futureId)]⟩

end Job

def undated : Notice → Notice
  | .log msg => .log { msg with ts := "" }
  | n => n

def isQueueing : Notice → Bool
  | .log msg => msg.msg == "queueing new pyproxy atom processing"
  | _ => false

def isThread : Notice → Bool
  | .log msg => msg.level == .error || msg.msg == "finished processing pyproxyatom"
  | .print _ => true
  | .unrecognised _ => false

def queueings (ns : List Notice) : List Notice := (ns.filter isQueueing).map undated

def threadNotices (ns : List Notice) : List Notice := (ns.filter isThread).map undated

namespace Python

variable (python : Python Py Obj)

def opening (py : Py) (job : Job) : List Notice :=
  job.started :: match (python.execute job.msg py).1 with
    | .failed pyErr => [Job.failed pyErr ""]
    | _ => []

def closing (py : Py) (job : Job) : List Notice :=
  match (python.execute job.msg py).1 with
  | .panicked => []
  | _ => [job.finished ""]

-- what the thread says of the jobs, one after the other
def transcript (py : Py) : List Job → List Notice
  | [] => []
  | job :: jobs =>
    python.opening py job ++ python.closing py job ++ transcript (python.serve py job) jobs

end Python

theorem queueings_append (ns ns' : List Notice) :
    queueings (ns ++ ns') = queueings ns ++ queueings ns' := by simp [queueings]

theorem threadNotices_append (ns ns' : List Notice) :
    threadNotices (ns ++ ns') = threadNotices ns ++ threadNotices ns' := by simp [threadNotices]

theorem Python.transcript_append (python : Python Py Obj) (py : Py) (jobs jobs' : List Job) :
    python.transcript py (jobs ++ jobs') =
      python.transcript py jobs ++ python.transcript (jobs.foldl python.serve py) jobs' := by
  induction jobs generalizing py with
  | nil => rfl
  | cons job jobs ih =>
    rw [List.cons_append, transcript, transcript, ih, List.foldl_cons]
    simp

namespace Loop

-- the notices tell of exactly the jobs that were added, and of nothing the thread says
structure Queues (c c' : Loop) (ns : List Notice) (js : List Job) : Prop where
  sent : c'.jobs = c.jobs ++ js
  told : queueings ns = js.map (·.queueing "")
  quiet : threadNotices ns = []

variable {env : Env} {c c' c'' : Loop} {ns ns' : List Notice} {js js' : List Job}

theorem queues_same (h : c'.threadSender = c.threadSender) : Queues c c' [] [] :=
  ⟨by rw [jobs, jobs, h, List.append_nil], rfl, rfl⟩

theorem Queues.trans (h : Queues c c' ns js) (h' : Queues c' c'' ns' js') :
    Queues c c'' (ns ++ ns') (js ++ js') where
  sent := by rw [h'.sent, h.sent, List.append_assoc]
  told := by rw [queueings_append, h.told, h'.told, List.map_append]
  quiet := by rw [threadNotices_append, h.quiet, h'.quiet, List.append_nil]

theorem takeNotices_queues (io : HeadIo) (msgs : List (Vector UInt8 requestHeaderSize × Sock)) :
    Queues c (msgs.foldl (takeStream env io) c) (takeNotices env io msgs c) [] := by
  induction msgs generalizing c with
  | nil => exact queues_same rfl
  | cons msg msgs ih =>
    refine @Queues.trans _ _ _ _ _ [] [] ?_ ih
    simp only [takeStream]
    cases ClientStream.new env.bc env.hex env.cfg msg.1 msg.2 ro (io.rng c.tokenIo) with
    | error e => exact queues_same rfl
    | ok cs =>
      dsimp only
      cases c.os.register (io.registerRefused c.tokenIo) cs.stream c.tokenIo ro with
      | none => exact queues_same rfl
      | some os => exact ⟨(List.append_nil _).symm, rfl, rfl⟩

theorem sendNotices_queues (tk : Token) (sessionId : String) (ts : Nat → String)
    (msgs : List RequestMessage) :
    Queues c (msgs.foldl (sendMsg env tk sessionId ts) c) (sendNotices env tk sessionId ts msgs c)
      (msgs.map (⟨sessionId, ·⟩)) := by
  induction msgs generalizing c with
  | nil => exact queues_same rfl
  | cons msg msgs ih =>
    have first : Queues c (c.sendMsg env tk sessionId ts msg)
        [(⟨sessionId, msg⟩ : Job).queueing (ts c.threadSender.length)] [⟨sessionId, msg⟩] :=
      ⟨by simp [Loop.jobs, sendMsg, Sent.job], rfl, rfl⟩
    exact first.trans ih

theorem setStreamInterest_threadSender (c : Loop) (tk : Token) (cs : ClientStream) (refused : Bool)
    (i : Interest) : (c.setStreamInterest tk cs refused i).threadSender = c.threadSender := by
  simp only [setStreamInterest]
  split <;> rfl

theorem forward_queues (io : HeadIo) (tk : Token) :
    ∃ js, Queues c (c.forward env io tk)
      (match c.clientStreams.lookup tk with
      | none => []
      | some cs => sendNotices env tk cs.sessionId io.queueTs cs.reqMsgs c) js := by
  simp only [forward]
  cases c.clientStreams.lookup tk with
  | none => exact ⟨[], queues_same rfl⟩
  | some cs =>
    dsimp only
    have sent := @sendNotices_queues env c tk cs.sessionId io.queueTs cs.reqMsgs
    rw [← List.append_nil (sendNotices env tk cs.sessionId io.queueTs cs.reqMsgs c)]
    refine ⟨cs.reqMsgs.map (⟨cs.sessionId, ·⟩) ++ [], sent.trans ?_⟩
    split
    · exact queues_same (setStreamInterest_threadSender _ _ _ _ _)
    · split
      · exact queues_same (setStreamInterest_threadSender _ _ _ _ _)
      · exact queues_same rfl

theorem forwardNotices_queues (io : HeadIo) (order : List Token) :
    ∃ js, Queues c (order.foldl (forward env io) c) (forwardNotices env io order c) js := by
  induction order generalizing c with
  | nil => exact ⟨[], queues_same rfl⟩
  | cons tk order ih =>
    obtain ⟨js, first⟩ := @forward_queues env c io tk
    obtain ⟨js', rest⟩ := @ih (c.forward env io tk)
    exact ⟨js ++ js', first.trans rest⟩

theorem head_state (c : Loop) (io : HeadIo) :
    (∃ e, (c.takeStreams env io).updateInterest io.wsRefused = .error e ∧
      (c.head env io).state = c.takeStreams env io) ∨
    ∃ d, (c.takeStreams env io).updateInterest io.wsRefused = .ok d ∧
      (c.head env io).state = io.order.foldl (forward env io) d := by
  simp only [head]
  cases hu : (c.takeStreams env io).updateInterest io.wsRefused with
  | error e => exact .inl ⟨e, rfl, rfl⟩
  | ok d =>
    right
    refine ⟨d, rfl, ?_⟩
    cases io.poll <;> rfl

theorem head_queues (c : Loop) (io : HeadIo) :
    ∃ js, Queues c (c.head env io).state (c.headNotices env io) js := by
  have taken := @takeNotices_queues env
    { c with workerStream := { c.workerStream with newMsgs := [] } } io c.workerStream.newMsgs
  have first : Queues c (c.takeStreams env io) _ [] := ⟨taken.sent, taken.told, taken.quiet⟩
  rcases @head_state env c io with ⟨e, hu, hs⟩ | ⟨d, hu, hs⟩
  · rw [hs, headNotices, hu]
    exact ⟨_, first.trans (queues_same rfl)⟩
  · rw [hs, headNotices, hu]
    have tuned : Queues (c.takeStreams env io) d [] [] := by
      rcases updateInterest_cases hu with rfl | ⟨i, os, -, -, rfl⟩ <;> exact queues_same rfl
    obtain ⟨js, rest⟩ := @forwardNotices_queues env d io io.order
    exact ⟨_, first.trans (tuned.trans rest)⟩

theorem head_state_adds (c : Loop) (io : HeadIo) :
    Adds env (c.headNotices env io) c (c.head env io).state := by
  have taken : Adds env _ c (c.takeStreams env io) := @takeNotices_adds env _ io c.workerStream.newMsgs
  rcases @head_state env c io with ⟨e, hu, hs⟩ | ⟨d, hu, hs⟩
  · rw [hs, headNotices, hu]
    exact taken.trans (adds_same rfl)
  · rw [hs, headNotices, hu]
    have tuned : Adds env [] (c.takeStreams env io) d :=
      adds_same (congrArg WorkerStream.outbuffer (updateInterest_outbuffer hu))
    exact taken.trans (tuned.trans (forwardNotices_adds io.order))

theorem workerWrite_state (c : Loop) (ev : Event) (io : EventIo) :
    (if ev.writable = true then
      match (c.os.write c.workerStream.stream c.workerStream.outbuffer.length io.write).1 with
      | .error _ => []
      | .ok n => c.workerStream.outbuffer.take n
    else []) ++ (c.workerWrite ev io).2.workerStream.outbuffer = c.workerStream.outbuffer := by
  generalize hw : c.workerWrite ev io = r
  obtain ⟨e | u, d⟩ := r
  · simp only [workerWrite] at hw
    split at hw
    · rename_i writable
      simp only [writable, if_true]
      generalize c.os.write c.workerStream.stream c.workerStream.outbuffer.length io.write = w at hw ⊢
      obtain ⟨_ | n, os⟩ := w
      · cases hw
        rfl
      · cases hw
    · cases hw
  · exact workerWrite_writes hw

theorem event_state_writes (c : Loop) (ev : Event) (io : EventIo) :
    c.wrote ev io ++ (c.event env ev io).state.workerStream.outbuffer = c.workerStream.outbuffer := by
  by_cases token : ev.token = workerStreamTk
  · have kept := c.workerRead_outbuffer ev io
    simp only [event, wrote, token, if_true, true_and]
    generalize c.workerRead ev io = r at kept ⊢
    obtain ⟨_ | u, d⟩ := r
    · rw [ite_self]
      exact kept
    · have written := (d.workerWrite_state ev io).trans kept
      dsimp only
      generalize d.workerWrite ev io = r at written ⊢
      obtain ⟨_ | u, d'⟩ := r <;> exact written
  · rw [wrote, if_neg fun h => token h.1, List.nil_append, event, if_neg token]
    cases c.clientStreams.lookup ev.token with
    | none => rfl
    | some cs => exact congrArg WorkerStream.outbuffer (c.clientEvent_workerStream ev cs io)

end Loop

namespace Daemon

def host (env : Env) : Host Daemon Label where
  machine := machine env
  flow := Daemon.flow
  resume s c := { s with flow := .running c }
  pythread := .pythread
  outside
    | .pythread _ _ => false
    | _ => true

def hostNotices (env : Env) (s : Daemon) (l : Label) : List Notice :=
  match s.flow, l with
  | .running c, .head io => c.headNotices env io
  | _, _ => []

variable {env : Env}

theorem host_queues {s s' : Daemon} {l : Label} (outside : (host env).outside l = true)
    (h : step env s l = some s') :
    ∃ js, Loop.Queues s.flow.state s'.flow.state (hostNotices env s l) js := by
  obtain ⟨c, hc, hcase⟩ := step_cases h
  rw [hc]
  cases hcase.move with
  | head io phase order =>
    have told : hostNotices env s (.head io) = c.headNotices env io := by simp only [hostNotices, hc]
    rw [told]
    exact c.head_queues io
  | event read fds write ev batch phase =>
    refine ⟨[], ?_⟩
    rw [hostNotices]
    · exact Loop.queues_same (Loop.event_kept _ _ _ _).1
    · simp
  | pythread msgType msg => cases outside
  | outside l os phase outer same =>
    refine ⟨[], ?_⟩
    rw [hostNotices]
    · exact Loop.queues_same rfl
    · rintro c' io - rfl
      cases outer

theorem host_lawful : (host env).Lawful where
  resumed s c := rfl
  logged s c hc t msg := by
    change step env s (.pythread t msg) = _
    have hf : s.flow = .running c := hc
    simp only [step, hf]
    rfl
  grows s l s' outside h := by
    obtain ⟨js, queues⟩ := host_queues outside h
    exact ⟨js, queues.sent.symm⟩

end Daemon

-- what the logger is told in a step; `told` says it of the host's own steps
def Threaded.notices (python : Python Py Obj) (told : σ → ℓ → List Notice) (s : Threaded σ Py) :
    ThreadLabel ℓ → List Notice
  | .host l => told s.host l
  | .receive => []
  | .print =>
    match s.thread.stage with
    | .received job => [job.started]
    | _ => []
  | .handle ts =>
    match s.thread.stage with
    | .printed job =>
      match (python.execute job.msg s.thread.py).1 with
      | .failed pyErr => [Job.failed pyErr ts]
      | _ => []
    | _ => []
  | .finish ts =>
    match s.thread.stage with
    | .handled job => [job.finished ts]
    | _ => []

inductive Tells (python : Python Py Obj) (py : Py) : Stage → List Job → List Notice → Prop where
  | waiting (done) : Tells python py .waiting done (python.transcript py done)
  | received (done job) : Tells python py (.received job) done (python.transcript py done)
  | printed (done job) :
      Tells python py (.printed job) done (python.transcript py done ++ [job.started])
  | handled (done job)
      (alive : python.closing (done.foldl python.serve py) job = [job.finished ""]) :
      Tells python py (.handled job) (done ++ [job])
        (python.transcript py done ++ python.opening (done.foldl python.serve py) job)
  | panicked (done) : Tells python py .panicked done (python.transcript py done)

section
variable {H : Host σ ℓ} {mc : MessageCodecs} {python : Python Py Obj} {py : Py}
  {s s' : Threaded σ Py} {told : σ → ℓ → List Notice} {said : List Notice} {done jobs : List Job}

theorem Python.transcript_prefix (h : done <+: jobs) :
    python.transcript py done <+: python.transcript py jobs := by
  obtain ⟨rest, rfl⟩ := h
  rw [transcript_append]
  exact List.prefix_append _ _

theorem Python.transcript_concat (done : List Job) (job : Job) :
    python.transcript py (done ++ [job]) = python.transcript py done ++
      (python.opening (done.foldl python.serve py) job ++
        python.closing (done.foldl python.serve py) job) := by
  rw [transcript_append, transcript, transcript, List.append_nil]

theorem Tells.within {stage : Stage} {ns : List Notice} (h : Tells python py stage done ns)
    (split : done ++ stage.pending <+: jobs) : ns <+: python.transcript py jobs := by
  have before : done <+: jobs := (List.prefix_append _ _).trans split
  cases h with
  | waiting => exact Python.transcript_prefix before
  | received _ job => exact Python.transcript_prefix before
  | printed _ job =>
    refine List.IsPrefix.trans ?_ (Python.transcript_prefix split)
    rw [Stage.pending, Python.transcript_concat]
    exact (List.prefix_append_right_inj _).mpr ⟨_, rfl⟩
  | handled done job alive =>
    refine List.IsPrefix.trans ?_ (Python.transcript_prefix before)
    rw [Python.transcript_concat, ← List.append_assoc]
    exact List.prefix_append _ _
  | panicked => exact Python.transcript_prefix before

theorem Tells.at_rest {ns : List Notice} (h : Tells python py .waiting done ns) :
    ns = python.transcript py done := by
  cases h
  rfl

theorem Host.StepCase.tells {l : ThreadLabel ℓ} {ns : List Notice}
    (inv : Serving python py (H.flow s.host).state.jobs s.thread done)
    (tells : Tells python py s.thread.stage done ns)
    (quiet : ∀ l host, H.outside l = true → H.machine.step s.host l = some host →
      threadNotices (told s.host l) = [])
    (h : StepCase H mc python s l s') :
    Tells python py s'.thread.stage (done ++ s.thread.stage.through s'.thread.stage)
      (ns ++ threadNotices (s.notices python told l)) := by
  have state := inv.py
  obtain ⟨host, stage, taken, py'⟩ := s
  dsimp only at state tells quiet ⊢
  subst state
  cases h with
  | host l host' outside step =>
    have idle : stage.through stage = [] := by cases stage <;> rfl
    dsimp only [Threaded.notices]
    rw [quiet l host' outside step, idle, List.append_nil, List.append_nil]
    exact tells
  | receive job jobs hstage queue =>
    dsimp only at hstage
    subst hstage
    cases tells
    dsimp only [Threaded.notices, Stage.through]
    simp only [threadNotices, List.filter_nil, List.map_nil, List.append_nil]
    exact .received done job
  | print job host' hstage call =>
    dsimp only at hstage
    subst hstage
    cases tells
    dsimp only [Threaded.notices, Stage.through]
    rw [List.append_nil]
    exact .printed done job
  | done ts job py' hstage result =>
    dsimp only at hstage result
    subst hstage
    cases tells
    have opening : python.opening (done.foldl python.serve py) job = [job.started] := by
      rw [Python.opening, result]
    have closing : python.closing (done.foldl python.serve py) job = [job.finished ""] := by
      rw [Python.closing, result]
    have handled := Tells.handled done job closing
    rw [opening] at handled
    dsimp only [Threaded.notices]
    rw [result]
    simpa [Stage.through, threadNotices] using handled
  | failed ts job pyErr py' host' hstage result call =>
    dsimp only at hstage result
    subst hstage
    cases tells
    have opening : python.opening (done.foldl python.serve py) job =
        [job.started, Job.failed pyErr ""] := by
      rw [Python.opening, result]
    have closing : python.closing (done.foldl python.serve py) job = [job.finished ""] := by
      rw [Python.closing, result]
    have handled := Tells.handled done job closing
    rw [opening] at handled
    dsimp only [Threaded.notices]
    rw [result, List.append_assoc]
    exact handled
  | panicked ts job py' hstage result =>
    dsimp only at hstage result
    subst hstage
    cases tells
    have panicked := @Tells.panicked _ _ python py (done ++ [job])
    have opening : python.opening (done.foldl python.serve py) job = [job.started] := by
      rw [Python.opening, result]
    have closing : python.closing (done.foldl python.serve py) job = [] := by
      rw [Python.closing, result]
    rw [Python.transcript_concat, opening, closing] at panicked
    dsimp only [Threaded.notices]
    rw [result]
    simpa [Stage.through, threadNotices] using panicked
  | finish ts job host' hstage call =>
    dsimp only at hstage
    subst hstage
    cases tells with
    | handled done job alive =>
      have waiting := @Tells.waiting _ _ python py (done ++ [job])
      rw [Python.transcript_concat, alive, ← List.append_assoc] at waiting
      dsimp only [Threaded.notices, Stage.through]
      rw [List.append_nil]
      exact waiting

-- `told` says what the host's own steps tell the logger
def Host.Told (H : Host σ ℓ) (told : σ → ℓ → List Notice) : Prop :=
  ∀ s l s', H.outside l = true → H.machine.step s l = some s' →
    ∃ js, Loop.Queues (H.flow s).state (H.flow s').state (told s l) js

-- what stands in the log of the thread is part of what the jobs queued so far come to
def Orderly (python : Python Py Obj) (py : Py) (jobs : List Job) (said : List Notice) : Prop :=
  ∀ pre, pre <+: said → ∃ m, queueings pre = (jobs.take m).map (·.queueing "") ∧
    threadNotices pre <+: python.transcript py (jobs.take m)

structure Audited (H : Host σ ℓ) (python : Python Py Obj) (py : Py) (s : Threaded σ Py)
    (said : List Notice) (done : List Job) : Prop where
  serving : Serving python py (H.flow s.host).state.jobs s.thread done
  tells : Tells python py s.thread.stage done (threadNotices said)
  queued : queueings said = (H.flow s.host).state.jobs.map (·.queueing "")
  orderly : Orderly python py (H.flow s.host).state.jobs said

theorem Orderly.extend {js : List Job} {new : List Notice} (h : Orderly python py jobs said)
    (all : queueings said = jobs.map (·.queueing "")) (queues : queueings new = js.map (·.queueing ""))
    (within : threadNotices (said ++ new) <+: python.transcript py jobs) :
    Orderly python py (jobs ++ js) (said ++ new) := by
  intro pre hpre
  rcases List.prefix_or_prefix_of_prefix hpre (List.prefix_append said new) with before | ⟨c, rfl⟩
  · obtain ⟨m, told, part⟩ := h pre before
    rw [List.take_eq_take_min] at told part
    refine ⟨min m jobs.length, ?_⟩
    rw [List.take_append_of_le_length (Nat.min_le_right _ _)]
    exact ⟨told, part⟩
  · have hc : c <+: new := (List.prefix_append_right_inj said).mp hpre
    have part : queueings c <+: js.map (·.queueing "") := queues ▸ (hc.filter _).map _
    obtain ⟨i, hi⟩ : ∃ i, queueings c = (js.take i).map (·.queueing "") := by
      refine ⟨(queueings c).length, ?_⟩
      rw [List.map_take]
      exact List.prefix_iff_eq_take.mp part
    refine ⟨jobs.length + i, ?_, ?_⟩
    · rw [List.take_length_add_append, List.map_append, queueings_append, all, hi]
    · have mono : threadNotices (said ++ c) <+: threadNotices (said ++ new) := (hpre.filter _).map _
      rw [List.take_length_add_append]
      exact (mono.trans within).trans (Python.transcript_prefix (List.prefix_append _ _))

theorem Host.StepCase.hears (lawful : H.Lawful) (tells : H.Told told) {l : ThreadLabel ℓ}
    (h : StepCase H mc python s l s') :
    ∃ js, (H.flow s'.host).state.jobs = (H.flow s.host).state.jobs ++ js ∧
      queueings (s.notices python told l) = js.map (·.queueing "") ∧
      (js = [] ∨ threadNotices (s.notices python told l) = []) := by
  obtain ⟨host, stage, taken, py'⟩ := s
  cases h with
  | host l host' outside step =>
    obtain ⟨js, queues⟩ := tells _ l _ outside step
    exact ⟨js, queues.sent, queues.told, .inr queues.quiet⟩
  | receive job jobs hstage queue => exact ⟨[], (List.append_nil _).symm, rfl, .inl rfl⟩
  | print job host' hstage call =>
    dsimp only at hstage
    subst hstage
    refine ⟨[], ?_, rfl, .inl rfl⟩
    rw [List.append_nil]
    exact (lawful.call (Host.call_start · job) call).1
  | done ts job py' hstage result =>
    dsimp only at hstage result
    subst hstage
    refine ⟨[], (List.append_nil _).symm, ?_, .inl rfl⟩
    dsimp only [Threaded.notices]
    rw [result]
    rfl
  | failed ts job pyErr py' host' hstage result call =>
    dsimp only at hstage result
    subst hstage
    obtain ⟨code, hmsg⟩ := Host.execute_failed result
    refine ⟨[], ?_, ?_, .inl rfl⟩
    · rw [List.append_nil]
      exact (lawful.call (Host.call_handle · hmsg pyErr ts) call).1
    · dsimp only [Threaded.notices]
      rw [result]
      rfl
  | panicked ts job py' hstage result =>
    dsimp only at hstage result
    subst hstage
    refine ⟨[], (List.append_nil _).symm, ?_, .inl rfl⟩
    dsimp only [Threaded.notices]
    rw [result]
    rfl
  | finish ts job host' hstage call =>
    dsimp only at hstage
    subst hstage
    refine ⟨[], ?_, rfl, .inl rfl⟩
    rw [List.append_nil]
    exact (lawful.call (Host.call_finish · job ts) call).1

theorem Host.StepCase.audited (lawful : H.Lawful) (tells : H.Told told) {l : ThreadLabel ℓ}
    (inv : Audited H python py s said done) (h : StepCase H mc python s l s') :
    Audited H python py s' (said ++ s.notices python told l)
      (done ++ s.thread.stage.through s'.thread.stage) := by
  have serving := h.serving lawful inv.serving
  have quiet : ∀ l host, H.outside l = true → H.machine.step s.host l = some host →
      threadNotices (told s.host l) = [] := by
    intro l host outside step
    obtain ⟨js, queues⟩ := tells _ l _ outside step
    exact queues.quiet
  have spoken := h.tells inv.serving inv.tells quiet
  rw [← threadNotices_append] at spoken
  obtain ⟨js, jobs, queued, idle⟩ := h.hears lawful tells
  have within : threadNotices (said ++ s.notices python told l) <+:
      python.transcript py (H.flow s.host).state.jobs := by
    rcases idle with rfl | none
    · rw [List.append_nil] at jobs
      rw [← jobs]
      exact spoken.within serving.split
    · rw [threadNotices_append, none, List.append_nil]
      exact inv.tells.within inv.serving.split
  refine ⟨serving, spoken, ?_, ?_⟩
  · rw [queueings_append, inv.queued, queued, jobs, List.map_append]
  · rw [jobs]
    exact inv.orderly.extend inv.queued queued within

theorem audited_init (fresh : (H.flow H.machine.init).state.threadSender = []) :
    Audited H python py (H.threaded mc python py).init [] [] := by
  have none : (H.flow H.machine.init).state.jobs = [] := by rw [Loop.jobs, fresh, List.map_nil]
  refine ⟨⟨List.nil_prefix, rfl, rfl, by simp [Host.threaded]⟩, .waiting [], ?_, ?_⟩
  · rw [Host.threaded, none]
    rfl
  · intro pre hpre
    obtain rfl := List.prefix_nil.mp hpre
    exact ⟨0, rfl, List.nil_prefix⟩

end
end PyProxy.Worker
