import PyProxy.Worker.Daemon

namespace PyProxy.Worker
open Protocol Server

variable {Py Obj σ ℓ : Type}

deriving instance DecidableEq for Job

abbrev PyResult (Py : Type) := ExceptT String (StateM Py)

-- the interpreter as the thread calls it; an exception is the text it is formatted to
structure Python (Py Obj : Type) where
  loads : List UInt8 → PyResult Py Obj
  dumps : Obj → PyResult Py Obj
  asDict : Obj → Except String Obj
  isBytes : Obj → Bool
  run : String → Obj → Obj → PyResult Py Obj

inductive Handled where
  | done
  | failed (pyErr : String)
  | panicked
  deriving DecidableEq, Repr

namespace Python

variable (python : Python Py Obj)

-- what is loaded is not used
def procCodePickle (msg : CodePickle) : PyResult Py Unit := do
  let _ ← python.loads msg.locals
  let _ ← python.loads msg.globals
  pure ()

def procCodeString (msg : CodeString) : PyResult Py Obj := do
  let locals ← python.loads msg.locals
  let globals ← python.loads msg.globals
  let localsDict ← liftExcept (python.asDict locals)
  let globalsDict ← liftExcept (python.asDict globals)
  python.run msg.code globalsDict localsDict

def errHandler (_ : Except String Unit) : Handled := .done

def pickled : Except String Obj → Handled
  | .ok bytes => if python.isBytes bytes then .done else .panicked
  | .error pyErr => .failed pyErr

def resHandler : Except String Obj → StateM Py Handled
  | .ok res => python.pickled <$> (python.dumps res).run
  | .error pyErr => pure (.failed pyErr)

def execute : RequestMessage → StateM Py Handled
  | .hello => pure .done
  | .codePickle p => errHandler <$> (python.procCodePickle p).run
  | .codeString s => (python.procCodeString s).run >>= python.resHandler

def serve (py : Py) (job : Job) : Py := (python.execute job.msg py).2

end Python

def Sent.job (q : Sent) : Job := ⟨q.sessionId, q.msg⟩

def Loop.jobs (c : Loop) : List Job := c.threadSender.map Sent.job

def Loop.withLogger (c : Loop) (f : WorkerStream → WorkerStream) : Loop :=
  { c with workerStream := f c.workerStream }

inductive Stage where
  | waiting
  | received (job : Job)
  | printed (job : Job)
  | handled (job : Job)
  | panicked
  deriving DecidableEq

structure Thread (Py : Type) where
  stage : Stage
  taken : Nat
  py : Py

-- a machine that runs the worker's loop
structure Host (σ ℓ : Type) where
  machine : Machine σ ℓ
  flow : σ → Flow Error Loop
  resume : σ → Loop → σ
  pythread : UInt8 → List UInt8 → ℓ
  outside : ℓ → Bool

inductive ThreadLabel (ℓ : Type) where
  | host (l : ℓ)
  | receive
  | print
  | handle (ts : String)
  | finish (ts : String)

structure Threaded (σ Py : Type) where
  host : σ
  thread : Thread Py

namespace Host

variable (H : Host σ ℓ) (mc : MessageCodecs) (python : Python Py Obj)

def call (f : WorkerStream → WorkerStream) (s : σ) : Option σ :=
  match H.flow s with
  | .running c => some (H.resume s (c.withLogger f))
  | .returned _ _ => none

def receive (s : Threaded σ Py) : Option (Threaded σ Py) :=
  match s.thread.stage, (H.flow s.host).state.jobs.drop s.thread.taken with
  | .waiting, job :: _ =>
    some { s with thread := ⟨.received job, s.thread.taken + 1, s.thread.py⟩ }
  | _, _ => none

def print (s : Threaded σ Py) : Option (Threaded σ Py) :=
  match s.thread.stage with
  | .received job => (H.call (job.start mc) s.host).map (⟨·, { s.thread with stage := .printed job }⟩)
  | _ => none

def handle (ts : String) (s : Threaded σ Py) : Option (Threaded σ Py) :=
  match s.thread.stage with
  | .printed job =>
    match python.execute job.msg s.thread.py with
    | (.done, py) => some { s with thread := ⟨.handled job, s.thread.taken, py⟩ }
    | (.failed pyErr, py) =>
      (H.call (job.handle mc · (some pyErr) ts) s.host).map (⟨·, ⟨.handled job, s.thread.taken, py⟩⟩)
    | (.panicked, py) => some { s with thread := ⟨.panicked, s.thread.taken, py⟩ }
  | _ => none

def finish (ts : String) (s : Threaded σ Py) : Option (Threaded σ Py) :=
  match s.thread.stage with
  | .handled job =>
    (H.call (job.finish mc · none ts) s.host).map (⟨·, { s.thread with stage := .waiting }⟩)
  | _ => none

def step (s : Threaded σ Py) : ThreadLabel ℓ → Option (Threaded σ Py)
  | .host l => if H.outside l then (H.machine.step s.host l).map (⟨·, s.thread⟩) else none
  | .receive => H.receive s
  | .print => H.print mc s
  | .handle ts => H.handle mc python ts s
  | .finish ts => H.finish mc ts s

-- the thread as it is spawned, before it is sent anything
def threaded (py : Py) : Machine (Threaded σ Py) (ThreadLabel ℓ) where
  init := ⟨H.machine.init, ⟨.waiting, 0, py⟩⟩
  step := H.step mc python

end Host

def Stage.pending : Stage → List Job
  | .received job => [job]
  | .printed job => [job]
  | _ => []

-- what the interpreter goes through between two stages
def Stage.through : Stage → Stage → List Job
  | .printed job, .handled _ => [job]
  | .printed job, .panicked => [job]
  | _, _ => []

-- `done` is what the interpreter has been through
structure Serving (python : Python Py Obj) (py : Py) (jobs : List Job) (t : Thread Py)
    (done : List Job) : Prop where
  split : done ++ t.stage.pending <+: jobs
  taken : t.taken = (done ++ t.stage.pending).length
  py : t.py = done.foldl python.serve py
  last : ∀ job, t.stage = .handled job → done.getLast? = some job

structure Host.Lawful (H : Host σ ℓ) : Prop where
  resumed : ∀ s c, H.flow (H.resume s c) = .running c
  logged : ∀ s c, H.flow s = .running c → ∀ t msg,
    H.machine.step s (H.pythread t msg) = some (H.resume s (c.pythread t msg))
  grows : ∀ s l s', H.outside l = true → H.machine.step s l = some s' →
    (H.flow s).state.jobs <+: (H.flow s').state.jobs

-- the calls of the logger
inductive Logs (mc : MessageCodecs) : UInt8 → List UInt8 → Prop where
  | log (msg : LogMessage) : Logs mc logMessage (mc.logMessage.serialize msg)
  | print (msg : PrintMessage) : Logs mc printMessage (mc.printMessage.serialize msg)

section
variable {H : Host σ ℓ} {mc : MessageCodecs} {python : Python Py Obj} {py : Py}
  {s s' : Threaded σ Py}

theorem Serving.grow {jobs jobs' done : List Job} {t : Thread Py} (more : jobs <+: jobs')
    (h : Serving python py jobs t done) : Serving python py jobs' t done :=
  { h with split := h.split.trans more }

theorem Serving.whole {jobs done : List Job} {t : Thread Py} (h : Serving python py jobs t done)
    (idle : t.stage.pending = []) (taken : t.taken = jobs.length) : done = jobs := by
  have split := h.split
  have count := h.taken
  rw [idle, List.append_nil] at split count
  exact split.eq_of_length (count.symm.trans taken)

namespace Host

theorem call_some {f : WorkerStream → WorkerStream} {s s' : σ} (h : H.call f s = some s') :
    ∃ c, H.flow s = .running c ∧ s' = H.resume s (c.withLogger f) := by
  simp only [call] at h
  split at h
  · exact ⟨_, ‹_›, (Option.some.inj h).symm⟩
  · cases h

inductive StepCase (H : Host σ ℓ) (mc : MessageCodecs) (python : Python Py Obj) (s : Threaded σ Py) :
    ThreadLabel ℓ → Threaded σ Py → Prop where
  | host (l host) (outside : H.outside l = true) (step : H.machine.step s.host l = some host) :
      StepCase H mc python s (.host l) ⟨host, s.thread⟩
  | receive (job jobs) (stage : s.thread.stage = .waiting)
      (queue : (H.flow s.host).state.jobs.drop s.thread.taken = job :: jobs) :
      StepCase H mc python s .receive ⟨s.host, .received job, s.thread.taken + 1, s.thread.py⟩
  | print (job host) (stage : s.thread.stage = .received job)
      (call : H.call (job.start mc) s.host = some host) :
      StepCase H mc python s .print ⟨host, .printed job, s.thread.taken, s.thread.py⟩
  | done (ts job py) (stage : s.thread.stage = .printed job)
      (result : python.execute job.msg s.thread.py = (.done, py)) :
      StepCase H mc python s (.handle ts) ⟨s.host, .handled job, s.thread.taken, py⟩
  | failed (ts job pyErr py host) (stage : s.thread.stage = .printed job)
      (result : python.execute job.msg s.thread.py = (.failed pyErr, py))
      (call : H.call (job.handle mc · (some pyErr) ts) s.host = some host) :
      StepCase H mc python s (.handle ts) ⟨host, .handled job, s.thread.taken, py⟩
  | panicked (ts job py) (stage : s.thread.stage = .printed job)
      (result : python.execute job.msg s.thread.py = (.panicked, py)) :
      StepCase H mc python s (.handle ts) ⟨s.host, .panicked, s.thread.taken, py⟩
  | finish (ts job host) (stage : s.thread.stage = .handled job)
      (call : H.call (job.finish mc · none ts) s.host = some host) :
      StepCase H mc python s (.finish ts) ⟨host, .waiting, s.thread.taken, s.thread.py⟩

theorem step_cases {l : ThreadLabel ℓ} (h : H.step mc python s l = some s') :
    StepCase H mc python s l s' := by
  cases l with
  | host l =>
    obtain ⟨outside, h⟩ := Option.ite_none_right_eq_some.mp h
    obtain ⟨host, step, rfl⟩ := Option.map_eq_some_iff.mp h
    exact .host l host outside step
  | receive =>
    simp only [step, receive] at h
    split at h
    · cases h
      exact .receive _ _ ‹_› ‹_›
    · cases h
  | print =>
    simp only [step, print] at h
    split at h
    · obtain ⟨host, call, rfl⟩ := Option.map_eq_some_iff.mp h
      exact .print _ host ‹_› call
    · cases h
  | handle ts =>
    simp only [step, handle] at h
    split at h
    · rename_i job stage
      split at h
      · cases h
        exact .done ts job _ stage ‹_›
      · obtain ⟨host, call, rfl⟩ := Option.map_eq_some_iff.mp h
        exact .failed ts job _ _ host stage ‹_› call
      · cases h
        exact .panicked ts job _ stage ‹_›
    · cases h
  | finish ts =>
    simp only [step, finish] at h
    split at h
    · obtain ⟨host, call, rfl⟩ := Option.map_eq_some_iff.mp h
      exact .finish ts _ host ‹_› call
    · cases h

theorem execute_failed {msg : RequestMessage} {py py' : Py} {pyErr : String}
    (h : python.execute msg py = (.failed pyErr, py')) : ∃ s, msg = .codeString s := by
  cases msg with
  | hello => cases h
  | codePickle p => cases h
  | codeString s => exact ⟨s, rfl⟩

theorem call_start (c : Loop) (job : Job) :
    ∃ t msg, Logs mc t msg ∧ c.withLogger (job.start mc) = c.pythread t msg :=
  ⟨_, _, .print ⟨newRequestStart ++ job.sessionId⟩, rfl⟩

theorem call_finish (c : Loop) (job : Job) (ts : String) :
    ∃ t msg, Logs mc t msg ∧ c.withLogger (job.finish mc · none ts) = c.pythread t msg := by
  obtain ⟨id, msg⟩ := job
  cases msg <;> exact ⟨_, _, .log _, rfl⟩

theorem call_handle (c : Loop) {job : Job} {code : CodeString} (h : job.msg = .codeString code)
    (pyErr ts : String) :
    ∃ t msg, Logs mc t msg ∧ c.withLogger (job.handle mc · (some pyErr) ts) = c.pythread t msg := by
  obtain ⟨id, msg⟩ := job
  cases h
  exact ⟨_, _, .log _, rfl⟩

theorem Lawful.call (lawful : H.Lawful) {f : WorkerStream → WorkerStream} {host host' : σ}
    (logs : ∀ c : Loop, ∃ t msg, Logs mc t msg ∧ c.withLogger f = c.pythread t msg)
    (h : H.call f host = some host') :
    (H.flow host').state.jobs = (H.flow host).state.jobs ∧
      ∃ t msg, Logs mc t msg ∧ H.machine.step host (H.pythread t msg) = some host' := by
  obtain ⟨c, hc, rfl⟩ := call_some h
  obtain ⟨t, msg, hlogs, eq⟩ := logs c
  rw [lawful.resumed, hc]
  refine ⟨rfl, t, msg, hlogs, ?_⟩
  rw [lawful.logged _ c hc, eq]

-- what a step does to the host
inductive Hosted (H : Host σ ℓ) (mc : MessageCodecs) (host host' : σ) : ThreadLabel ℓ → Prop where
  | outside (l) (outside : H.outside l = true) (step : H.machine.step host l = some host') :
      Hosted H mc host host' (.host l)
  | same (l) (inner : ∀ l', l ≠ .host l') (same : host' = host) : Hosted H mc host host' l
  | logged (l t msg) (inner : ∀ l', l ≠ .host l') (logs : Logs mc t msg)
      (step : H.machine.step host (H.pythread t msg) = some host') : Hosted H mc host host' l

theorem StepCase.hosted (lawful : H.Lawful) {l : ThreadLabel ℓ} (h : StepCase H mc python s l s') :
    (H.flow s.host).state.jobs <+: (H.flow s'.host).state.jobs ∧ Hosted H mc s.host s'.host l := by
  have called : ∀ {f : WorkerStream → WorkerStream} {host : σ} {l : ThreadLabel ℓ},
      (∀ c : Loop, ∃ t msg, Logs mc t msg ∧ c.withLogger f = c.pythread t msg) →
      H.call f s.host = some host → (∀ l', l ≠ .host l') →
        (H.flow s.host).state.jobs <+: (H.flow host).state.jobs ∧ Hosted H mc s.host host l := by
    intro f host l logs call inner
    obtain ⟨jobs, t, msg, logged, step⟩ := lawful.call logs call
    rw [jobs]
    exact ⟨List.prefix_rfl, .logged l t msg inner logged step⟩
  cases h with
  | host l host outside step => exact ⟨lawful.grows _ l _ outside step, .outside l outside step⟩
  | receive job jobs stage queue => exact ⟨List.prefix_rfl, .same _ (by simp) rfl⟩
  | print job host stage call => exact called (call_start · job) call (by simp)
  | done ts job py stage result => exact ⟨List.prefix_rfl, .same _ (by simp) rfl⟩
  | failed ts job pyErr py host stage result call =>
    obtain ⟨code, hmsg⟩ := execute_failed result
    exact called (call_handle · hmsg pyErr ts) call (by simp)
  | panicked ts job py stage result => exact ⟨List.prefix_rfl, .same _ (by simp) rfl⟩
  | finish ts job host stage call => exact called (call_finish · job ts) call (by simp)

theorem StepCase.serving (lawful : H.Lawful) {l : ThreadLabel ℓ} {done : List Job}
    (inv : Serving python py (H.flow s.host).state.jobs s.thread done)
    (h : StepCase H mc python s l s') :
    Serving python py (H.flow s'.host).state.jobs s'.thread
      (done ++ s.thread.stage.through s'.thread.stage) := by
  have grown := inv.grow (h.hosted lawful).1
  obtain ⟨host, stage, taken, py'⟩ := s
  have executed : ∀ {job : Job} {result : Handled} {py'' : Py} {jobs : List Job},
      stage = .printed job → python.execute job.msg py' = (result, py'') →
      Serving python py jobs ⟨stage, taken, py'⟩ done →
        ∀ stage' : Stage, stage'.pending = [] → (∀ job', stage' = .handled job' → job' = job) →
          Serving python py jobs ⟨stage', taken, py''⟩ (done ++ [job]) := by
    rintro job result py'' jobs rfl exec ⟨split, count, state, last⟩ stage' idle own
    refine ⟨?_, ?_, ?_, fun job' h' => ?_⟩
    · rw [idle, List.append_nil]
      exact split
    · rw [idle, List.append_nil]
      exact count
    · have hpy : py' = done.foldl python.serve py := state
      rw [List.foldl_append, ← hpy]
      exact (congrArg Prod.snd exec).symm
    · rw [own job' h', List.getLast?_concat]
  have idle : ∀ {jobs : List Job} {t : Thread Py}, stage.through t.stage = [] →
      Serving python py jobs t done → Serving python py jobs t (done ++ stage.through t.stage) := by
    intro jobs t none h
    rw [none, List.append_nil]
    exact h
  cases h with
  | host l host outside step => exact idle (by cases stage <;> rfl) grown
  | receive job jobs stage queue =>
    dsimp only at stage queue grown ⊢
    subst stage
    have next : done ++ [job] <+: (H.flow host).state.jobs := by
      obtain ⟨rest, hrest⟩ := grown.split
      have count : taken = done.length := by simpa [Stage.pending] using grown.taken
      rw [← hrest, count] at queue
      obtain rfl : rest = job :: jobs := by simpa [Stage.pending] using queue
      exact ⟨jobs, by simpa [Stage.pending] using hrest⟩
    have count : taken + 1 = (done ++ [job]).length := by
      rw [List.length_append, List.length_singleton]
      simpa [Stage.pending] using grown.taken
    exact idle rfl ⟨next, count, grown.py, by simp⟩
  | print job host' stage call =>
    dsimp only at stage grown ⊢
    subst stage
    exact idle rfl ⟨grown.split, grown.taken, grown.py, by simp⟩
  | done ts job py stage result =>
    rw [stage]
    exact executed stage result grown _ rfl fun _ h => (Stage.handled.inj h).symm
  | failed ts job pyErr py host stage result call =>
    rw [stage]
    exact executed stage result grown _ rfl fun _ h => (Stage.handled.inj h).symm
  | panicked ts job py stage result =>
    rw [stage]
    exact executed stage result grown _ rfl fun _ h => nomatch h
  | finish ts job host' stage call =>
    dsimp only at stage grown ⊢
    subst stage
    exact idle rfl ⟨grown.split, grown.taken, grown.py, by simp⟩

theorem serving_run (lawful : H.Lawful) {ls : List (ThreadLabel ℓ)}
    (run : (H.threaded mc python py).exec ls = some s) :
    ∃ done, Serving python py (H.flow s.host).state.jobs s.thread done := by
  refine @Machine.invariant _ _ (H.threaded mc python py)
    (fun s => ∃ done, Serving python py (H.flow s.host).state.jobs s.thread done) ?_
    (fun s l s' inv hl => ?_) _ _ run
  · exact ⟨[], List.nil_prefix, rfl, rfl, by simp [threaded]⟩
  · obtain ⟨done, inv⟩ := inv
    exact ⟨_, (step_cases hl).serving lawful inv⟩

end Host
end
end PyProxy.Worker
