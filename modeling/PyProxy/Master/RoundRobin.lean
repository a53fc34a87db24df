import PyProxy.Machine.Rotation
import PyProxy.Master.Survival

namespace PyProxy.Master
open Stream Protocol Server Poll Lines Rotation

namespace WorkerStreams

def ring (streams : List (Token × Sock)) (i : Nat) : Option Sock :=
  (streams[i % streams.length]?).map Prod.snd

theorem chosen_ring (s : WorkerStreams) : s.chosen = ring s.streams (s.lastSend + 1) := rfl

theorem ring_of {streams : List (Token × Sock)} (some : streams ≠ [])
    (distinct : (streams.map Prod.snd).Nodup) : Ring streams.length (ring streams) := by
  have pos : 0 < streams.length := List.length_pos_iff.mpr some
  refine ⟨pos, fun i j => ?_⟩
  have hi := Nat.mod_lt i pos
  have hj := Nat.mod_lt j pos
  rw [ring, ring, List.getElem?_eq_getElem hi, List.getElem?_eq_getElem hj, Option.map_some,
    Option.map_some, Option.some.injEq, Nat.ModEq]
  have inj := @List.Nodup.getElem_inj_iff _ _ distinct (i % streams.length) (by simpa using hi)
    (j % streams.length) (by simpa using hj)
  simpa only [List.getElem_map] using inj

end WorkerStreams

-- what one loop head hands out
structure Turn where
  worker : Option Sock
  requests : List Request
  accepted : List Request

def Turn.given (f : Turn → List Request) (turns : List Turn) : List (Option Sock) :=
  turns.flatMap fun t => List.replicate (f t).length t.worker

namespace Loop

variable {env : Env} {c c' : Loop}

-- the queue of the worker may refuse some of the requests
def turn (env : Env) (c : Loop) : Turn where
  worker := c.workerStreams.chosen
  requests := c.newRequests
  accepted := match c.workerStreams.chosen with
    | none => []
    | some k => (c.workers k).accepted env.fdQueue c.newRequests

theorem head_streams {io : HeadIo} (some : c.workerStreams.streams ≠ [])
    (hc : c.head env io = .running c') : c'.workerStreams =
      { c.workerStreams with
        lastSend := (c.workerStreams.lastSend + 1) % c.workerStreams.streams.length } := by
  rw [(head_tunes hc).streams]
  obtain ⟨k, hk⟩ : ∃ k, c.settle.workerStreams.chosen = .some k :=
    Option.ne_none_iff_exists'.mp fun none => some (WorkerStreams.chosen_none.mp none)
  rw [dispatch, WorkerStreams.dispatch_some hk]
  rfl

theorem event_streams {ev : Event} {io : EventIo} {a : IoAction} (ha : c.ioActions ev.token = some a)
    (hc : c.event env ev io = .running c') : c'.workerStreams = c.workerStreams ∨
      c'.workerStreams = c.workerStreams.add c.ioToken c.os.next := by
  cases event_serves ha hc with
  | other a c' kind workers streams issued => exact .inl streams
  | joined k os ready accept ok registered => exact .inr rfl
  | worker k c' event => exact .inl (workerEvent_streams event)

end Loop

namespace System

variable {env : Env} {s s' : System} {l : Label}

def turns (env : Env) (s : System) (l : Label) : List Turn :=
  match s.flow, l with
  | .running c, .head _ => [c.turn env]
  | _, _ => []

-- only the loop head moves the index, only a newcomer changes the list
theorem step_streams {issues : List Issue} {c c' : Loop} (w : Wired issues s)
    (hs : step env s l = some s') (hc : s.flow = .running c) (hc' : s'.flow = .running c') :
    (∃ io, l = .head io ∧ c.head env io = .running c') ∨ s.turns env l = [] ∧
      (c'.workerStreams = c.workerStreams ∨
        c'.workerStreams = c.workerStreams.add c.ioToken c.os.next) := by
  obtain ⟨d, hd, hcase⟩ := step_cases env hs
  cases hc.symm.trans hd
  cases hcase with
  | boot refused main output unix workers phase below =>
    refine .inr ⟨by simp [turns, hc], .inl ?_⟩
    cases hb : c.boot refused main output unix workers with
    | error e => simp [hb, outcome] at hc'
    | ok c₁ =>
      rw [hb] at hc'
      cases hc'
      rw [(Loop.boot_boots hb).rest]
  | head io phase order => exact .inl ⟨io, rfl, hc'⟩
  | poll events os phase notified =>
    cases hc'
    exact .inr ⟨by simp [turns, hc], .inl rfl⟩
  | event io ev batch phase =>
    have wired := w.wired c hc
    rw [phase] at wired
    obtain ⟨a, ha⟩ := Option.isSome_iff_exists.mp (wired.held ev.token (by simp [Phase.pend]))
    exact .inr ⟨by simp [turns, hc], Loop.event_streams ha hc'⟩
  | connect tk act found listens =>
    cases hc'
    exact .inr ⟨by simp [turns, hc], .inl rfl⟩
  | arrive tk act bytes found listens =>
    cases hc'
    exact .inr ⟨by simp [turns, hc], .inl rfl⟩
  | close tk act found listens =>
    cases hc'
    exact .inr ⟨by simp [turns, hc], .inl rfl⟩

def Distinct (s : System) : Prop :=
  ∀ c, s.flow = .running c → (c.workerStreams.streams.map Prod.snd).Nodup

theorem Distinct.step {issues : List Issue} (h : Distinct s) (w : Wired issues s)
    (hs : step env s l = some s') : Distinct s' := by
  intro c' hc'
  obtain ⟨c, hc, -⟩ := step_cases env hs
  have old := h c hc
  rcases step_streams w hs hc hc' with ⟨io, -, hhead⟩ | ⟨-, same | joined⟩
  · rw [(Loop.head_tunes hhead).streams, Loop.dispatch, WorkerStreams.dispatch_streams]
    exact old
  · rwa [same]
  · rw [joined, WorkerStreams.add, List.map_append]
    refine List.Nodup.append old (List.nodup_singleton _) fun k hk hnew => ?_
    obtain ⟨p, hp, rfl⟩ := List.mem_map.mp hk
    have wired := w.wired c hc
    have below := (wired.below _ (wired.workers p hp)).2
    rw [List.map_singleton, List.mem_singleton] at hnew
    exact absurd hnew (Nat.ne_of_lt below)

theorem distinct_run {next : Sock} {ls : List Label} (run : (machine env next).exec ls = some s) :
    Distinct s := by
  obtain ⟨issues, traced⟩ := @Machine.traced_exec _ _ _ _ issued _ _ run
  refine (@Machine.invariant _ _ ((machine env next).traced issued)
    (fun p => Wired p.2 p.1 ∧ Distinct p.1) ⟨@wired_init env next, fun c hc => ?_⟩
    (fun p l p' hp hl => ?_) _ _ traced).2
  · cases hc
    exact List.nodup_nil
  · obtain ⟨hs, heq⟩ := Machine.traced_step hl
    rw [heq]
    exact ⟨hp.1.step hs, hp.2.step hp.1 hs⟩

def Keeps (streams : List (Token × Sock)) (s : System) : Prop :=
  ∀ c, s.flow = .running c → c.workerStreams.streams = streams

-- the turns go round the ring from `p` on, and so will the next one
structure Rotates (streams : List (Token × Sock)) (p : Nat) (s : System) (ts : List Turn) : Prop where
  turns : ∀ n t, ts[n]? = some t → t.worker = WorkerStreams.ring streams (p + n)
  next : ∀ c, s.flow = .running c → c.workerStreams.streams = streams ∧
    c.workerStreams.lastSend + 1 ≡ p + ts.length [MOD streams.length]

theorem Rotates.step {issues : List Issue} {streams : List (Token × Sock)} {p : Nat} {ts : List Turn}
    (h : Rotates streams p s ts) (connected : streams ≠ [])
    (ring : Ring streams.length (WorkerStreams.ring streams)) (w : Wired issues s)
    (hs : step env s l = some s') (keeps : Keeps streams s') :
    Rotates streams p s' (ts ++ s.turns env l) := by
  obtain ⟨c, hc, -⟩ := step_cases env hs
  obtain ⟨hstreams, hnext⟩ := h.next c hc
  have label : (∃ io, l = .head io) ∨ s.turns env l = [] := by
    cases l <;> simp [System.turns, hc]
  have chosen : (c.turn env).worker = WorkerStreams.ring streams (p + ts.length) := by
    rw [Loop.turn, WorkerStreams.chosen_ring, hstreams]
    exact (ring.eq_iff _ _).mpr hnext
  constructor
  · intro n t ht
    rcases label with ⟨io, rfl⟩ | none
    · have one : s.turns env (.head io) = [c.turn env] := by simp [System.turns, hc]
      rw [one, List.getElem?_append] at ht
      split at ht
      · exact h.turns n t ht
      · rename_i late
        rw [List.getElem?_singleton] at ht
        obtain ⟨hn, ht⟩ := Option.ite_none_right_eq_some.mp ht
        cases ht
        rw [chosen, show n = ts.length by omega]
    · rw [none, List.append_nil] at ht
      exact h.turns n t ht
  · intro c' hc'
    refine ⟨keeps c' hc', ?_⟩
    rcases step_streams w hs hc hc' with ⟨io, rfl, hhead⟩ | ⟨none, same | joined⟩
    · have one : s.turns env (.head io) = [c.turn env] := by simp [System.turns, hc]
      rw [Loop.head_streams (by rwa [hstreams]) hhead, one, List.length_append, hstreams,
        ← Nat.add_assoc]
      exact ((Nat.mod_modEq _ _).trans hnext).add_right 1
    · rwa [none, List.append_nil, same]
    · have grown := keeps c' hc'
      rw [joined, WorkerStreams.add, hstreams] at grown
      exact absurd (List.append_right_eq_self.mp grown) (List.cons_ne_nil _ _)

theorem rotates_run {next : Sock} {past later : List Label} {c : Loop} {ts : List Turn}
    (run : (machine env next).exec past = some s) (running : s.flow = .running c)
    (connected : c.workerStreams.streams ≠ [])
    (laterRun : (((machine env next).resume s).traced (turns env)).exec later = some (s', ts))
    (keeps : ((machine env next).resume s).Always (Keeps c.workerStreams.streams) later) :
    Rotates c.workerStreams.streams (c.workerStreams.lastSend + 1) s' ts := by
  have ring := WorkerStreams.ring_of connected (distinct_run run c running)
  induction later using List.reverseRecOn generalizing s' ts with
  | nil =>
    cases laterRun
    refine ⟨fun n t ht => by simp at ht, fun d hd => ?_⟩
    cases running.symm.trans hd
    exact ⟨rfl, Nat.ModEq.refl _⟩
  | append_singleton later l ih =>
    obtain ⟨⟨s₁, ts₁⟩, run₁, hl⟩ := Machine.exec_concat_some _ laterRun
    obtain ⟨before, last⟩ := Machine.always_concat.mp keeps
    obtain ⟨hs, rfl⟩ := Machine.traced_step hl
    have whole := Machine.exec_of_traced run₁
    rw [Machine.exec_resume run] at whole
    obtain ⟨issues, traced⟩ := @Machine.traced_exec _ _ _ _ issued _ _ whole
    exact (ih run₁ before).step connected ring (wired_run traced) hs
      (last s' (Machine.exec_of_traced laterRun))

end System

theorem Turn.given_ring {r : Nat → Option Sock} {p : Nat} (f : Turn → List Request) (ts : List Turn)
    (m : Nat) (turns : ∀ n t, ts[n]? = some t → t.worker = r (p + (m + n))) :
    given f ts = (slots m (ts.map f)).map fun i => r (p + i) := by
  induction ts generalizing m with
  | nil => rfl
  | cons t ts ih =>
    have first := turns 0 t rfl
    have rest := ih (m + 1) fun n t' ht' => by
      rw [Nat.add_right_comm m 1 n]
      exact turns (n + 1) t' ht'
    rw [given, List.flatMap_cons, List.map_cons, slots, List.map_append, ← rest, List.map_replicate,
      first, Nat.add_zero]
    rfl

namespace System

variable {env : Env} {s s' : System}

theorem round_robin_iff {next : Sock} {past later : List Label} {c : Loop} {ts : List Turn}
    (run : (machine env next).exec past = some s) (running : s.flow = .running c)
    (connected : c.workerStreams.streams ≠ [])
    (laterRun : (((machine env next).resume s).traced (turns env)).exec later = some (s', ts))
    (keeps : ((machine env next).resume s).Always (Keeps c.workerStreams.streams) later) :
    (Spread (WorkerStreams.ring c.workerStreams.streams) (Turn.given Turn.requests ts) ↔
        Steps c.workerStreams.streams.length (slots 0 (ts.map Turn.requests))) ∧
      (Spread (WorkerStreams.ring c.workerStreams.streams) (Turn.given Turn.accepted ts) ↔
        Steps c.workerStreams.streams.length (slots 0 (ts.map Turn.accepted))) := by
  have ring := WorkerStreams.ring_of connected (distinct_run run c running)
  have rotates := rotates_run run running connected laterRun keeps
  have given := fun f => @Turn.given_ring (WorkerStreams.ring c.workerStreams.streams)
    (c.workerStreams.lastSend + 1) f ts 0 (by simpa only [Nat.zero_add] using rotates.turns)
  rw [given, given]
  exact ⟨ring.spread_iff _ _, ring.spread_iff _ _⟩

def twoWorkers : List Label :=
  [.boot (fun _ => false) 0 1 2 [(3, 4)], .head (calmHead []), .connect 2, .poll [⟨2, true, false⟩],
    .event calmEvent, .head (calmHead []), .connect 2, .poll [⟨2, true, false⟩], .event calmEvent]

def acceptRequest : EventIo :=
  { calmEvent with accept := ⟨false, [1, 0, 0, 0, 0, 0, 0, 7], false⟩ }

def twoClients : List Label :=
  [.head (calmHead []), .connect 0, .poll [⟨0, true, false⟩], .event acceptRequest,
    .head (calmHead []), .connect 0, .poll [⟨0, true, false⟩], .event acceptRequest,
    .head (calmHead [])]

def apart : List Label :=
  twoClients ++ [.poll [⟨7, true, false⟩], .event calmEvent, .head (calmHead []),
    .poll [⟨8, true, false⟩], .event calmEvent, .head (calmHead [])]

def together : List Label :=
  twoClients ++ [.poll [⟨7, true, false⟩, ⟨8, true, false⟩], .event calmEvent, .event calmEvent,
    .head (calmHead [])]

def pair : List (Token × Sock) := [(5, 5), (6, 6)]

def served (s : System) : Bool := s.holds fun c => decide (c.workerStreams.streams = pair)

theorem served_keeps (h : s.served = true) : Keeps pair s := by
  intro c hc
  obtain ⟨d, hd, streams⟩ := holds_iff.mp h
  cases hc.symm.trans hd
  exact of_decide_eq_true streams

def places (later : List Label) (place : List (Option Sock)) (times : List Nat) (s : System) : Bool :=
  let M := (machine fixintEnv 5).resume s
  s.served && M.checks (fun s l => (M.step s l).all served) s later &&
    ((M.traced (turns fixintEnv)).exec later).any fun p =>
      decide (Turn.given Turn.requests p.2 = place ∧ slots 0 (p.2.map Turn.requests) = times)

theorem placed_run {later : List Label} {place : List (Option Sock)} {times : List Nat}
    (h : ((machine fixintEnv 5).exec twoWorkers).any (places later place times) = true) : ∃ s c s' ts,
      (machine fixintEnv 5).exec twoWorkers = some s ∧ s.flow = .running c ∧
        c.workerStreams.streams = pair ∧
        (((machine fixintEnv 5).resume s).traced (turns fixintEnv)).exec later = some (s', ts) ∧
        ((machine fixintEnv 5).resume s).Always (Keeps c.workerStreams.streams) later ∧
        Turn.given Turn.requests ts = place ∧ slots 0 (ts.map Turn.requests) = times := by
  obtain ⟨s, run, hs⟩ := (Option.any_eq_true _ _).mp h
  obtain ⟨hs, hlater⟩ := Bool.and_eq_true_iff.mp hs
  obtain ⟨start, checks⟩ := Bool.and_eq_true_iff.mp hs
  obtain ⟨⟨s', ts⟩, laterRun, hplace⟩ := (Option.any_eq_true _ _).mp hlater
  obtain ⟨c, running, streams⟩ := holds_iff.mp start
  have streams : c.workerStreams.streams = pair := of_decide_eq_true streams
  have always := @Machine.always_of_checks _ _ ((machine fixintEnv 5).resume s) _ _ start checks
  refine ⟨s, c, s', ts, run, running, streams, laterRun, ?_, of_decide_eq_true hplace⟩
  rw [streams]
  exact fun ls s₁ hls hs₁ => served_keeps (always ls s₁ hls hs₁)

theorem round_robin_apart : ∃ s c s' ts, (machine fixintEnv 5).exec twoWorkers = some s ∧
    s.flow = .running c ∧ c.workerStreams.streams = pair ∧
      (((machine fixintEnv 5).resume s).traced (turns fixintEnv)).exec apart = some (s', ts) ∧
      Turn.given Turn.requests ts = [some 5, some 6] ∧
      Spread (WorkerStreams.ring c.workerStreams.streams) (Turn.given Turn.requests ts) := by
  obtain ⟨s, c, s', ts, run, running, streams, laterRun, keeps, place, times⟩ :=
    @placed_run apart [some 5, some 6] [3, 4] (by decide +kernel)
  have steps : Steps c.workerStreams.streams.length (slots 0 (ts.map Turn.requests)) := by
    rw [times]
    exact List.isChain_pair.mpr (Nat.ModEq.refl _)
  exact ⟨s, c, s', ts, run, running, streams, laterRun, place,
    (round_robin_iff run running (by simp [streams, pair]) laterRun keeps).1.mpr steps⟩

theorem together_unspread : ¬ ∀ past later s s' c ts, (machine fixintEnv 5).exec past = some s →
    s.flow = .running c → c.workerStreams.streams ≠ [] →
      (((machine fixintEnv 5).resume s).traced (turns fixintEnv)).exec later = some (s', ts) →
        ((machine fixintEnv 5).resume s).Always (Keeps c.workerStreams.streams) later →
          Spread (WorkerStreams.ring c.workerStreams.streams) (Turn.given Turn.requests ts) := by
  obtain ⟨s, c, s', ts, run, running, streams, laterRun, keeps, place, -⟩ :=
    @placed_run together [some 5, some 5] [3, 3] (by decide +kernel)
  intro spread
  have balanced := (spread _ _ s s' c ts run running (by simp [streams, pair]) laterRun keeps).balanced
  rw [place, streams] at balanced
  exact absurd (balanced _ List.prefix_rfl 0 1) (by decide)

end System
end PyProxy.Master
