import PyProxy.Master.Standing

namespace PyProxy.Master
open Stream Protocol Server Poll Lines

namespace Loop

-- the operating system fails neither a listener nor a newcomer; a worker stream may fail
def Mild (c : Loop) (ev : Event) (io : EventIo) : Prop :=
  match c.ioActions ev.token with
  | some (.mainListener _) => io.reregisterRefused = false
  | some (.unixListener _) => io.registerRefused = false ∧ io.adopted = .ok ()
  | _ => True

def fells (env : Env) (c : Loop) (ev : Event) (k : Sock) (io : EventIo) : Bool :=
  ev.readable && (((c.workers k).read env.mc (c.os.read k bufferSize io.read).1).1 matches .error _)

-- the worker streams whose read an event sees fail or end
def felled (env : Env) (c : Loop) (ev : Event) (io : EventIo) : List Sock :=
  match c.ioActions ev.token with
  | some (.workerStream k) => if c.fells env ev k io then [k] else []
  | _ => []

-- the next loop head hands a request to the stream
def takes (env : Env) (c : Loop) (k : Sock) : Bool :=
  decide (c.workerStreams.chosen = some k) && !c.newRequests.isEmpty &&
    decide ((c.workers k).outFds.length < env.fdQueue.capacity)

-- or has no reason to register it again
def rests (env : Env) (c : Loop) (k : Sock) : Bool :=
  let data := (c.workers k).hasData || c.takes env k
  !(data && decide ((c.workers k).interest = ro)) && !(!data && (c.workers k).interest.writable)

def outlived (dead : List Sock) (c : Loop) : Bool :=
  c.workerStreams.streams.any fun p => !dead.contains p.2

def copes (env : Env) (dead : List Sock) (c : Loop) : Bool :=
  dead.all fun k => c.rests env k && !(c.outlived dead && c.takes env k)

section

variable {env : Env} {c c' : Loop} {k : Sock}

theorem takes_iff : c.takes env k = true ↔
    c.workerStreams.chosen = some k ∧ (c.workers k).accepted env.fdQueue c.newRequests ≠ [] := by
  simp only [takes, Bool.and_eq_true, decide_eq_true_eq, Bool.not_eq_true', WorkerStream.accepted, ne_eq,
    List.take_eq_nil_iff, List.isEmpty_eq_false_iff, Nat.sub_eq_zero_iff_le, not_or, Nat.not_le, and_assoc]
  tauto

theorem dispatch_kept (h : c.takes env k = false) : (c.dispatch env).workers k = c.workers k := by
  cases hj : c.workerStreams.chosen with
  | none => rw [dispatch, WorkerStreams.dispatch_none hj]
  | some j =>
    simp only [dispatch]
    by_cases hk : k = j
    · subst hk
      have none : (c.workers k).accepted env.fdQueue c.newRequests = [] := by
        by_contra some
        rw [takes_iff.mpr ⟨hj, some⟩] at h
        cases h
      rw [WorkerStreams.dispatch_chosen hj, WorkerStream.dispatch_all, none]
      simp
    · rw [WorkerStreams.dispatch_other hj hk]

theorem dispatch_taken (h : c.takes env k = true) :
    ((c.dispatch env).workers k).outFds ≠ (c.workers k).outFds ∧
      ((c.dispatch env).workers k).hasData = true := by
  obtain ⟨hj, some⟩ := takes_iff.mp h
  simp only [dispatch, WorkerStreams.dispatch_chosen hj, WorkerStream.dispatch_all, WorkerStream.hasData]
  cases ha : (c.workers k).accepted env.fdQueue c.newRequests with
  | nil => exact absurd ha some
  | cons req reqs =>
    refine ⟨fun same => ?_, ?_⟩
    · simp at same
    · obtain ⟨header, fd⟩ := req
      have long : header.toList ≠ [] := fun nil => by
        have length := congrArg List.length nil
        simp [requestHeaderSize] at length
      simp [long]

theorem dispatch_kept_iff : (c.dispatch env).workers k = c.workers k ↔ c.takes env k = false := by
  constructor
  · intro same
    by_contra taken
    exact (dispatch_taken (Bool.not_eq_false _ ▸ taken)).1 (congrArg WorkerStream.outFds same)
  · exact dispatch_kept

theorem rests_iff : c.rests env k = true ↔
    Tuned ((c.dispatch env).workers k).hasData ((c.dispatch env).workers k).interest := by
  have interest : ((c.dispatch env).workers k).interest = (c.workers k).interest := by
    cases hj : c.workerStreams.chosen with
    | none => rw [dispatch, WorkerStreams.dispatch_none hj]
    | some j =>
      simp only [dispatch]
      by_cases hk : k = j
      · subst hk
        rw [WorkerStreams.dispatch_chosen hj, WorkerStream.dispatch_all_interest]
      · rw [WorkerStreams.dispatch_other hj hk]
  have data : ((c.dispatch env).workers k).hasData = ((c.workers k).hasData || c.takes env k) := by
    cases ht : c.takes env k with
    | false => rw [dispatch_kept ht, Bool.or_false]
    | true => rw [(dispatch_taken ht).2, Bool.or_true]
  rw [interest, data, rests]
  cases (c.workers k).hasData || c.takes env k with
  | false => simp [Tuned]
  | true => simp [Tuned]

theorem updateWorker_dead {io : HeadIo} {tk : Token} (free : (c.os.source k).reg = none) :
    (∃ c', c.updateWorker io tk k = .ok c') ↔ Tuned (c.workers k).hasData (c.workers k).interest := by
  constructor
  · rintro ⟨c', hc⟩
    rcases updateWorker_cases hc with ⟨-, tuned⟩ | ⟨i, -, reg, -⟩
    · exact tuned
    · rw [free] at reg
      cases reg
  · intro tuned
    refine ⟨c, ?_⟩
    simp only [updateWorker]
    rw [if_neg, if_neg]
    · rintro ⟨data, writable⟩
      rw [Tuned, data, if_neg Bool.false_ne_true, writable] at tuned
      cases tuned
    · rintro ⟨data, interest⟩
      rw [Tuned, data, if_pos rfl] at tuned
      exact tuned interest

theorem updateWorker_alive {io : HeadIo} {tk : Token} (smooth : io.workerRefused tk = false)
    (reg : (c.os.source k).reg.isSome = true) : ∃ c', c.updateWorker io tk k = .ok c' := by
  simp only [updateWorker, smooth, World.reregister_ok reg, fatalIoErr, registered]
  split
  · exact ⟨_, rfl⟩
  · split <;> exact ⟨_, rfl⟩

-- the interest loop fails at the first worker stream that it would register again and cannot
theorem updateWorkers_ok_iff {io : HeadIo} (smooth : ∀ tk, io.workerRefused tk = false)
    (streams : List (Token × Sock)) : (∃ c', updateWorkers io streams c = .ok c') ↔
      ∀ p ∈ streams, (c.os.source p.2).reg = none →
        Tuned (c.workers p.2).hasData (c.workers p.2).interest := by
  induction streams generalizing c with
  | nil => exact ⟨fun _ p hp => absurd hp List.not_mem_nil, fun _ => ⟨c, rfl⟩⟩
  | cons p streams ih =>
    obtain ⟨tk, k⟩ := p
    have later : ∀ {c₁}, c.updateWorker io tk k = .ok c₁ →
        ((∃ c', updateWorkers io ((tk, k) :: streams) c = .ok c') ↔ ∀ q ∈ streams,
          (c.os.source q.2).reg = none →
            Tuned (c.workers q.2).hasData (c.workers q.2).interest) := by
      intro c₁ hu
      simp only [updateWorkers, hu]
      rw [ih]
      rcases updateWorker_cases hu with ⟨rfl, -⟩ | ⟨i, -, reg, rfl⟩
      · rfl
      · refine forall₂_congr fun q _ => ?_
        cases hq : (c.os.source q.2).reg with
        | some r =>
          have still := attach_registered (k := k) tk i (Option.isSome_of_eq_some hq)
          refine iff_of_true (fun none => ?_) (fun none => by cases none)
          rw [none] at still
          cases still
        | none =>
          have hne : q.2 ≠ k := by
            rintro rfl
            rw [hq] at reg
            cases reg
          dsimp only
          rw [Workers.set_other _ _ hne, attach_unregistered tk i reg hq]
    cases hk : (c.os.source k).reg with
    | some r =>
      obtain ⟨c₁, hu⟩ := updateWorker_alive (smooth tk) (Option.isSome_of_eq_some hk)
      rw [later hu, List.forall_mem_cons]
      exact (and_iff_right fun none => by rw [hk] at none; cases none).symm
    | none =>
      rw [List.forall_mem_cons]
      constructor
      · rintro ⟨c', hc⟩
        have hc' := hc
        simp only [updateWorkers] at hc
        cases hu : c.updateWorker io tk k with
        | error e => simp [hu] at hc
        | ok c₁ => exact ⟨fun _ => (updateWorker_dead hk).mp ⟨c₁, hu⟩, (later hu).mp ⟨c', hc'⟩⟩
      · rintro ⟨first, rest⟩
        obtain ⟨c₁, hu⟩ := (updateWorker_dead hk).mpr (first hk)
        exact (later hu).mpr rest

end

theorem outlived_iff {c : Loop} {dead : List Sock} :
    c.outlived dead = true ↔ ∃ p ∈ c.workerStreams.streams, p.2 ∉ dead := by
  simp [outlived]

structure Mortal (issues : List Issue) (dead : List Sock) (c : Loop) : Prop where
  listed : ∀ tk k, ⟨tk, k, .workerStream⟩ ∈ issues → (tk, k) ∈ c.workerStreams.streams
  alive : ∀ p ∈ c.workerStreams.streams, p.2 ∉ dead → (c.os.source p.2).reg.isSome = true
  dead : ∀ k ∈ dead, (c.os.source k).reg = none ∧ ∃ p ∈ c.workerStreams.streams, p.2 = k

section

variable {env : Env} {c c' : Loop} {ev : Event} {io : EventIo} {k : Sock} {issues : List Issue}
  {dead : List Sock} {pend : List Token} {a : IoAction}

theorem workerEvent_fells (hc : c.workerEvent env ev k io = .running c') (j : Sock) :
    (c'.os.source j).reg =
      if c.fells env ev k io = true ∧ j = k then none else (c.os.source j).reg := by
  have wrote : ∀ d : Loop, ((d.workerWrite env ev k io).os.source j).reg = (d.os.source j).reg :=
    fun d => (@workerWrite_writes env d ev k io).reg j
  cases hr : ev.readable with
  | false =>
    simp only [workerEvent, hr, Bool.false_eq_true, if_false] at hc
    cases hc
    rw [wrote, fells, hr, Bool.false_and, if_neg]
    rintro ⟨h, -⟩
    cases h
  | true =>
    have read := (c.os.read_quiet k bufferSize io.read).sameReg.2 j
    simp only [workerEvent, hr, if_true] at hc
    cases hres : ((c.workers k).read env.mc (c.os.read k bufferSize io.read).1).1 with
    | panic msg =>
      rw [hres] at hc
      cases hc
    | error e =>
      rw [hres] at hc
      cases hc
      rw [wrote, fells, hr, hres]
      simp only [drop, World.deregister_reg, Bool.true_and, true_and]
      rw [read]
    | ok notices =>
      rw [hres] at hc
      cases hc
      rw [wrote, fells, hr, hres, if_neg]
      · exact read
      · rintro ⟨h, -⟩
        cases h

theorem Mortal.frame (h : Mortal issues dead c) (streams : c'.workerStreams = c.workerStreams)
    (reg : ∀ p ∈ c.workerStreams.streams, (c'.os.source p.2).reg = (c.os.source p.2).reg) :
    Mortal issues dead c' where
  listed tk k hx := by
    rw [streams]
    exact h.listed tk k hx
  alive p hp hne := by
    rw [streams] at hp
    rw [reg p hp]
    exact h.alive p hp hne
  dead k hk := by
    obtain ⟨free, p, hp, rfl⟩ := h.dead k hk
    rw [streams, reg p hp]
    exact ⟨free, p, hp, rfl⟩

theorem Mortal.event (h : Mortal issues dead c) (w : Wired issues (ev.token :: pend) c)
    (hc : c.event env ev io = .running c') :
    Mortal (issues ++ c.issued ev io) (dead ++ c.felled env ev io) c' := by
  obtain ⟨a, ha⟩ := Option.isSome_iff_exists.mp (w.held ev.token (by simp))
  have ap := event_apart ha hc
  have hown := w.issue ha
  have unfelled : a.kind ≠ .workerStream → c.felled env ev io = [] := by
    intro kind
    simp only [felled, ha]
    cases a with
    | workerStream j => exact absurd rfl kind
    | _ => rfl
  have beside : ∀ p ∈ c.workerStreams.streams, p.2 ≠ a.sock →
      (c'.os.source p.2).reg = (c.os.source p.2).reg := by
    intro p hp hne
    rw [ap.source p.2 hne (w.below _ (w.workers p hp)).2]
  have apart : a.kind ≠ .workerStream → ∀ p ∈ c.workerStreams.streams, p.2 ≠ a.sock :=
    fun kind p hp eq => kind (congrArg Issue.kind (w.same_sock (w.workers p hp) hown eq)).symm
  have served := event_serves ha hc
  have listed := served.listed ha h.listed
  cases served with
  | other _ _ kind workers streams issued =>
    rw [unfelled kind, List.append_nil]
    have frame := h.frame streams fun p hp => beside p hp (apart kind p hp)
    exact ⟨listed, frame.alive, frame.dead⟩
  | joined k os ready accept ok registered =>
    rw [unfelled Kind.noConfusion, List.append_nil]
    have old := fun p hp => beside p hp (apart Kind.noConfusion p hp)
    refine ⟨listed, fun p hp hne => ?_, fun j hj => ?_⟩
    · rcases List.mem_append.mp hp with hp | hp
      · rw [old p hp]
        exact h.alive p hp hne
      · rw [List.mem_singleton.mp hp]
        dsimp only
        rw [World.attach_reg, if_pos rfl]
        rfl
    · obtain ⟨free, p, hp, rfl⟩ := h.dead j hj
      rw [old p hp]
      exact ⟨free, p, List.mem_append_left _ hp, rfl⟩
  | worker k _ hw =>
    have member : (ev.token, k) ∈ c.workerStreams.streams := h.listed _ _ hown
    have streams := workerEvent_streams hw
    have reg := workerEvent_fells hw
    cases hf : c.fells env ev k io with
    | false =>
      have felled : c.felled env ev io = [] := by simp [Loop.felled, ha, hf]
      rw [felled, List.append_nil]
      have frame := h.frame streams fun p _ => by
        rw [reg, hf, if_neg]
        rintro ⟨h, -⟩
        cases h
      exact ⟨listed, frame.alive, frame.dead⟩
    | true =>
      have felled : c.felled env ev io = [k] := by simp [Loop.felled, ha, hf]
      simp only [hf, true_and] at reg
      rw [felled]
      refine ⟨listed, fun p hp hne => ?_, fun j hj => ?_⟩
      · rw [streams] at hp
        simp only [List.mem_append, List.mem_singleton, not_or] at hne
        rw [reg, if_neg hne.2]
        exact h.alive p hp hne.1
      · rw [reg, streams]
        rcases List.mem_append.mp hj with hj | hj
        · obtain ⟨free, p, hp, rfl⟩ := h.dead j hj
          exact ⟨by rw [free, ite_self], p, hp, rfl⟩
        · rw [List.mem_singleton.mp hj, if_pos rfl]
          exact ⟨rfl, _, member, rfl⟩

theorem Mortal.head {io : HeadIo} (h : Mortal issues dead c) (w : Wired issues [] c)
    (hc : c.head env io = .running c') : Mortal issues dead c' := by
  have tunes := head_tunes hc
  have streams : c'.workerStreams.streams = c.workerStreams.streams := by
    rw [tunes.streams, dispatch, WorkerStreams.dispatch_streams]
    rfl
  refine ⟨fun tk k hx => ?_, fun p hp hne => ?_, fun k hk => ?_⟩
  · rw [streams]
    exact h.listed tk k hx
  · rw [streams] at hp
    exact head_keeps w hc hp (h.alive p hp hne)
  · obtain ⟨free, listed⟩ := h.dead k hk
    rw [streams]
    exact ⟨tunes.unregistered k free, listed⟩

theorem event_no_err (w : Wired issues (ev.token :: pend) c) (mild : c.Mild ev io) {d : Loop} {e : Error} :
    c.event env ev io ≠ .returned d (.error (.err e)) := by
  intro hc
  simp only [event] at hc
  simp only [Mild] at mild
  cases ha : c.ioActions ev.token with
  | none =>
    rw [ha] at hc
    cases hc
  | some a =>
    simp only [ha] at mild hc
    cases a with
    | mainListener k =>
      obtain ⟨c', running⟩ := @acceptMain_running c io k (w.listener _ _ (w.act_of ha)).2
        (w.below _ (w.issue ha)).2 mild
      cases running.symm.trans hc
    | unixListener k =>
      obtain ⟨c', running⟩ := @acceptUnix_running c io k mild
      cases running.symm.trans hc
    | workerStream k =>
      simp only [workerEvent] at hc
      split at hc
      · split at hc <;> cases hc
      · cases hc
    | _ => cases hc

-- no other source makes the loop head fail
theorem head_no_err_iff {io : HeadIo} (h : Mortal issues dead c) (smooth : io.Smooth) :
    (¬ ∃ d e, c.head env io = .returned d (.error (.err e))) ↔ ∀ k ∈ dead, c.rests env k = true := by
  have streams : (c.settle.dispatch env).workerStreams.streams = c.workerStreams.streams := by
    rw [dispatch, WorkerStreams.dispatch_streams]
    rfl
  have ok := @updateWorkers_ok_iff (c.settle.dispatch env) io smooth.1 c.workerStreams.streams
  have runs : (¬ ∃ d e, c.head env io = .returned d (.error (.err e))) ↔
      ∃ c', updateWorkers io c.workerStreams.streams (c.settle.dispatch env) = .ok c' := by
    simp only [head, streams, smooth.2, fatalIoErr]
    cases updateWorkers io c.workerStreams.streams (c.settle.dispatch env) with
    | error e =>
      constructor
      · exact fun no => absurd ⟨_, e, rfl⟩ no
      · rintro ⟨c', hc⟩
        cases hc
    | ok c' =>
      refine ⟨fun _ => ⟨c', rfl⟩, fun _ => ?_⟩
      rintro ⟨d, e, hc⟩
      cases hc
  rw [runs, ok]
  constructor
  · intro all k hk
    obtain ⟨free, p, hp, rfl⟩ := h.dead k hk
    exact rests_iff.mpr (all p hp free)
  · intro all p hp free
    refine rests_iff.mp (all p.2 ?_)
    by_contra living
    have reg := h.alive p hp living
    rw [show (c.os.source p.2).reg = none from free] at reg
    cases reg

end

end Loop

namespace System

def Mild (s : System) (l : Label) : Prop :=
  match s.flow, l, s.phase with
  | .running _, .boot refused main output unix workers, _ => (∀ k, refused k = false) ∧
      (main :: output :: unix :: workers.flatMap fun w => [w.1, w.2]).Nodup
  | .running _, .head io, _ => io.Smooth
  | .running c, .event io, .turn (ev :: _) => c.Mild ev io
  | _, _, _ => True

def felled (env : Env) (s : System) (l : Label) : List Sock :=
  match s.flow, l, s.phase with
  | .running c, .event io, .turn (ev :: _) => c.felled env ev io
  | _, _, _ => []

def Errs (s : System) : Prop := ∃ c e, s.flow = .returned c (.error (.err e))

-- a loop head hands nothing to a dead worker while another one is connected
def Avoids (env : Env) (p : System × List Sock) (l : Label) : Prop :=
  match p.1.flow, l with
  | .running c, .head _ => ∀ k ∈ p.2, (∃ q ∈ c.workerStreams.streams, q.2 ∉ p.2) →
      (c.settle.dispatch env).workers k = c.workers k
  | _, _ => True

def copes (env : Env) (p : System × List Sock) (l : Label) : Bool :=
  match p.1.flow, l with
  | .running c, .head _ => c.copes env p.2
  | _, _ => true

variable {env : Env} {s s' : System} {l : Label} {issues : List Issue} {dead : List Sock}

theorem Mortal.step (w : Wired issues s) (h : ∀ c, s.flow = .running c → Loop.Mortal issues dead c)
    (hs : step env s l = some s') : ∀ c', s'.flow = .running c' →
      Loop.Mortal (issues ++ s.issued l) (dead ++ s.felled env l) c' := by
  obtain ⟨c, hc, hcase⟩ := step_cases env hs
  have wired := w.wired c hc
  have mortal := h c hc
  have same : ∀ {os : World Token UInt8}, c.os.SameReg os → Loop.Mortal issues dead { c with os := os } :=
    fun reg => mortal.frame rfl fun p _ => reg.2 p.2
  intro c' hc'
  cases hcase with
  | boot refused main output unix workers phase below =>
    obtain ⟨rfl, hnew⟩ := w.boot c hc phase
    have hissued : s.issued (.boot refused main output unix workers) =
        bootIssues main output unix workers := by simp [issued, hc, phase]
    have hfelled : s.felled env (.boot refused main output unix workers) = [] := by simp [felled, hc]
    have empty : c'.workerStreams.streams = [] := by
      cases hb : c.boot refused main output unix workers with
      | error e => simp [hb, outcome] at hc'
      | ok c₁ =>
        rw [hb] at hc'
        cases hc'
        rw [(Loop.boot_boots hb).rest, hnew]
        rfl
    rw [hissued, hfelled, List.append_nil]
    refine ⟨fun tk k hx => ?_, fun p hp => ?_, fun k hk => ?_⟩
    · exact absurd rfl (bootIssues_kind hx).2.2
    · rw [empty] at hp
      cases hp
    · obtain ⟨-, p, hp, -⟩ := mortal.dead k hk
      rw [hnew] at hp
      cases hp
  | head io phase order =>
    have hissued : s.issued (.head io) = [] := by simp [issued, hc]
    have hfelled : s.felled env (.head io) = [] := by simp [felled, hc]
    rw [hissued, hfelled, List.append_nil, List.append_nil]
    rw [phase] at wired
    exact mortal.head wired hc'
  | poll events os phase notified =>
    have hissued : s.issued (.poll events) = [] := by simp [issued, hc]
    have hfelled : s.felled env (.poll events) = [] := by simp [felled, hc]
    rw [hissued, hfelled, List.append_nil, List.append_nil]
    cases hc'
    exact same (World.notifyAll_some notified).1
  | event io ev batch phase =>
    have hissued : s.issued (.event io) = c.issued ev io := by simp [issued, hc, phase]
    have hfelled : s.felled env (.event io) = c.felled env ev io := by simp [felled, hc, phase]
    rw [hissued, hfelled]
    rw [phase] at wired
    exact mortal.event wired hc'
  | connect tk act found listens =>
    have hissued : s.issued (.connect tk) = [] := by simp [issued, hc]
    have hfelled : s.felled env (.connect tk) = [] := by simp [felled, hc]
    rw [hissued, hfelled, List.append_nil, List.append_nil]
    cases hc'
    exact same (c.os.sameReg_modify _ rfl)
  | arrive tk act bytes found listens =>
    have hissued : s.issued (.arrive tk bytes) = [] := by simp [issued, hc]
    have hfelled : s.felled env (.arrive tk bytes) = [] := by simp [felled, hc]
    rw [hissued, hfelled, List.append_nil, List.append_nil]
    cases hc'
    exact same (c.os.sameReg_modify _ (Source.arrive_reg _ bytes))
  | close tk act found listens =>
    have hissued : s.issued (.close tk) = [] := by simp [issued, hc]
    have hfelled : s.felled env (.close tk) = [] := by simp [felled, hc]
    rw [hissued, hfelled, List.append_nil, List.append_nil]
    cases hc'
    exact same (c.os.sameReg_modify _ rfl)

theorem mortal_run {next : Sock} {ls : List Label}
    (run : ((machine env next).traced (felled env)).exec ls = some (s, dead)) :
    ∃ issues, Wired issues s ∧ ∀ c, s.flow = .running c → Loop.Mortal issues dead c := by
  refine @Machine.invariant _ _ ((machine env next).traced (felled env))
    (fun p => ∃ issues, Wired issues p.1 ∧ ∀ c, p.1.flow = .running c → Loop.Mortal issues p.2 c)
    ⟨[], @wired_init env next, fun c hc => ?_⟩ (fun p l p' hp hl => ?_) _ _ run
  · cases hc
    exact ⟨fun tk k hx => (by cases hx), fun p hp => (by cases hp), fun k hk => (by cases hk)⟩
  · obtain ⟨issues, wired, mortal⟩ := hp
    obtain ⟨hs, heq⟩ := Machine.traced_step hl
    rw [heq]
    exact ⟨_, wired.step hs, Mortal.step wired mortal hs⟩

theorem not_errs_running {c : Loop} {phase : Phase} : ¬ Errs ⟨.running c, phase⟩ := by
  rintro ⟨d, e, h⟩
  cases h

theorem step_survives_iff (w : Wired issues s) (h : ∀ c, s.flow = .running c → Loop.Mortal issues dead c)
    (mild : Mild s l) (hs : step env s l = some s') :
    ¬ s'.Errs ∧ Avoids env (s, dead) l ↔ copes env (s, dead) l = true := by
  obtain ⟨c, hc, hcase⟩ := step_cases env hs
  have wired := w.wired c hc
  have mortal := h c hc
  simp only [Mild, hc] at mild
  simp only [Avoids, copes, hc]
  cases hcase with
  | boot refused main output unix workers phase below =>
    obtain ⟨rfl, hnew⟩ := w.boot c hc phase
    have free : ∀ k, (c.os.source k).reg = none := fun k => by rw [hnew]; rfl
    obtain ⟨c', hb⟩ := Loop.boot_ok mild.1 mild.2 free
    rw [hb]
    exact iff_of_true ⟨not_errs_running, trivial⟩ rfl
  | head io phase order =>
    have unfailed := @Loop.head_no_err_iff env _ _ _ _ mortal mild
    simp only [Errs, Loop.copes, List.all_eq_true, Bool.and_eq_true, Bool.not_eq_true']
    rw [unfailed, forall₂_and]
    refine and_congr_right fun _ => forall₂_congr fun k _ => ?_
    have kept : (c.settle.dispatch env).workers k = c.workers k ↔ c.takes env k = false :=
      Loop.dispatch_kept_iff (c := c.settle)
    rw [kept, ← Loop.outlived_iff]
    cases c.outlived dead <;> simp
  | poll events os phase notified => exact iff_of_true ⟨not_errs_running, trivial⟩ rfl
  | event io ev batch phase =>
    rw [phase] at wired mild
    refine iff_of_true ⟨?_, trivial⟩ rfl
    rintro ⟨d, e, hd⟩
    exact Loop.event_no_err wired mild hd
  | connect tk act found listens => exact iff_of_true ⟨not_errs_running, trivial⟩ rfl
  | arrive tk act bytes found listens => exact iff_of_true ⟨not_errs_running, trivial⟩ rfl
  | close tk act found listens => exact iff_of_true ⟨not_errs_running, trivial⟩ rfl

theorem survives_iff {next : Sock} {ls : List Label}
    (run : ((machine env next).traced (felled env)).exec ls = some (s, dead))
    (mild : (machine env next).Along Mild ls) :
    ¬ s.Errs ∧ ((machine env next).traced (felled env)).Along (Avoids env) ls ↔
      ((machine env next).traced (felled env)).Along (fun p l => copes env p l = true) ls := by
  induction ls using List.reverseRecOn generalizing s dead with
  | nil =>
    cases run
    exact iff_of_true ⟨not_errs_running, Machine.along_nil⟩ Machine.along_nil
  | append_singleton ls l ih =>
    obtain ⟨⟨s₀, dead₀⟩, run₀, hl⟩ := Machine.exec_concat_some _ run
    obtain ⟨mild₀, last⟩ := (Machine.along_snoc (Machine.exec_of_traced run₀)).mp mild
    obtain ⟨issues, wired, mortal⟩ := mortal_run run₀
    obtain ⟨hs, -⟩ := Machine.traced_step hl
    have step := step_survives_iff wired mortal last hs
    have before := ih run₀ mild₀
    have running : ¬ s₀.Errs := by
      rintro ⟨d, e, hd⟩
      obtain ⟨c, hc, -⟩ := step_cases env hs
      cases hd.symm.trans hc
    rw [Machine.along_snoc run₀, Machine.along_snoc run₀, ← step, ← before]
    tauto

def Label.Mild : Label → Prop
  | .boot refused main output unix workers => (∀ k, refused k = false) ∧
      (main :: output :: unix :: workers.flatMap fun w => [w.1, w.2]).Nodup
  | .head io => io.Smooth
  | .event io => io.reregisterRefused = false ∧ io.registerRefused = false ∧ io.adopted = .ok ()
  | _ => True

theorem mild_along {next : Sock} {ls : List Label} (mild : ∀ l ∈ ls, Label.Mild l) :
    (machine env next).Along Mild ls := by
  refine (Machine.along_of_forall mild).imp fun s l _ hl => ?_
  simp only [Mild]
  split
  · exact hl
  · exact hl
  · simp only [Loop.Mild]
    split
    · exact hl.1
    · exact hl.2
    · trivial
  · trivial

-- two workers and a client connect, and the first worker hangs up
def workerDeath : List Label :=
  [.boot (fun _ => false) 0 1 2 [(3, 4)], .head (calmHead []), .connect 2, .connect 0,
    .poll [⟨2, true, false⟩, ⟨0, true, false⟩], .event calmEvent, .event calmEvent,
    .head (calmHead []), .connect 2, .poll [⟨2, true, false⟩], .event calmEvent, .head (calmHead []),
    .close 5, .poll [⟨5, true, false⟩], .event calmEvent]

def request : List Label :=
  [.arrive 6 [1, 0, 0, 0, 0, 0, 0, 7], .poll [⟨6, true, false⟩], .event calmEvent]

theorem survives_workerDeath : ∃ s c, ((machine fixintEnv 5).traced (felled fixintEnv)).exec
      (workerDeath ++ .head (calmHead []) :: request ++ [.head (calmHead [])]) = some (s, [5]) ∧
    s.flow = .running c ∧ (c.workers 7).outFds = [6] ∧ ¬ s.Errs ∧
      ((machine fixintEnv 5).traced (felled fixintEnv)).Along (Avoids fixintEnv)
        (workerDeath ++ .head (calmHead []) :: request ++ [.head (calmHead [])]) := by
  generalize hls : workerDeath ++ .head (calmHead []) :: request ++ [.head (calmHead [])] = ls
  have hrun : (((machine fixintEnv 5).traced (felled fixintEnv)).exec ls).any (fun p =>
      decide (p.2 = [5]) && p.1.holds fun c => decide ((c.workers 7).outFds = [6])) = true := by
    rw [← hls]
    decide +kernel
  have copes : ((machine fixintEnv 5).traced (felled fixintEnv)).checks (copes fixintEnv)
      ((machine fixintEnv 5).traced (felled fixintEnv)).init ls = true := by
    rw [← hls]
    decide +kernel
  have mild : ∀ l ∈ ls, Label.Mild l := by
    rw [← hls]
    simp [workerDeath, request, Label.Mild, calmHead, calmEvent, HeadIo.Smooth]
  obtain ⟨⟨s, dead⟩, run, hp⟩ := (Option.any_eq_true _ _).mp hrun
  obtain ⟨felled, queued⟩ := Bool.and_eq_true_iff.mp hp
  obtain ⟨c, running, fds⟩ := holds_iff.mp queued
  obtain rfl : dead = [5] := of_decide_eq_true felled
  have survives := (survives_iff run (mild_along mild)).mpr (Machine.along_of_checks copes)
  exact ⟨s, c, run, running, of_decide_eq_true fds, survives.1, survives.2⟩

def lateRequest : List Label :=
  workerDeath ++ [.head (calmHead []), .poll [], .head (calmHead [])] ++ request

def failed (s : System) : Bool := s.flow matches .returned _ (.error (.err _))

theorem errs_of {s : System} (h : s.failed = true) : s.Errs := by
  simp only [failed] at h
  split at h
  · rename_i c e hs
    exact ⟨c, e, hs⟩
  · cases h

theorem worker_death_fatal :
    (¬ ∀ ls s dead, ((machine fixintEnv 5).traced (felled fixintEnv)).exec ls = some (s, dead) →
      (machine fixintEnv 5).Along Mild ls → ¬ s.Errs) ∧
    ¬ ∀ ls s dead, ((machine fixintEnv 5).traced (felled fixintEnv)).exec ls = some (s, dead) →
      (machine fixintEnv 5).Along Mild ls →
        ((machine fixintEnv 5).traced (felled fixintEnv)).Along (Avoids fixintEnv) ls := by
  have hrun : (((machine fixintEnv 5).traced (felled fixintEnv)).exec
      (lateRequest ++ [.head (calmHead [])])).any (fun p => p.1.failed) = true := by decide +kernel
  have hbefore : (((machine fixintEnv 5).traced (felled fixintEnv)).exec lateRequest).any (fun p =>
      decide (p.2 = [5]) && p.1.holds fun c => c.outlived [5] && c.takes fixintEnv 5) = true := by
    decide +kernel
  have mild : ∀ l ∈ lateRequest ++ [.head (calmHead [])], Label.Mild l := by
    simp [lateRequest, workerDeath, request, Label.Mild, calmHead, calmEvent, HeadIo.Smooth]
  obtain ⟨⟨s, dead⟩, run, failed⟩ := (Option.any_eq_true _ _).mp hrun
  constructor
  · intro survives
    exact survives _ s dead run (mild_along mild) (errs_of failed)
  · intro avoids
    obtain ⟨⟨s₀, dead₀⟩, run₀, hp⟩ := (Option.any_eq_true _ _).mp hbefore
    obtain ⟨felled, hc⟩ := Bool.and_eq_true_iff.mp hp
    obtain rfl : dead₀ = [5] := of_decide_eq_true felled
    obtain ⟨c, running, both⟩ := (holds_iff (s := s₀)).mp hc
    obtain ⟨outlived, takes⟩ := Bool.and_eq_true_iff.mp both
    have last := ((Machine.along_snoc run₀).mp (avoids _ s dead run (mild_along mild))).2
    simp only [Avoids, running] at last
    have kept := last 5 (by simp) (Loop.outlived_iff.mp outlived)
    exact (Loop.dispatch_taken (c := c.settle) takes).1 (congrArg WorkerStream.outFds kept)

end System
end PyProxy.Master
