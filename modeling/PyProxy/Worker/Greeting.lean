import PyProxy.Poll.Fair
import PyProxy.Worker.Flushing

namespace PyProxy.Worker
open Stream Protocol Server Poll

namespace Loop

variable {env : Env} {c c' : Loop} {ev : Event} {io : EventIo} {tk : Token}

def unsent (c : Loop) (tk : Token) : Nat := ((c.front tk).map (·.outbuffer.length)).getD 0

theorem front_found {f : Front} (h : c.front tk = some f) :
    ∃ cs, c.clientStreams.lookup tk = some cs ∧ cs.front = f := Option.map_eq_some_iff.mp h

theorem unsent_front {f : Front} (h : c.front tk = some f) : c.unsent tk = f.outbuffer.length := by
  rw [unsent, h]
  rfl

-- the peer has closed the stream, or the loop has given it up, or everything is written
def Done (c : Loop) (tk : Token) : Prop :=
  ∃ cs, c.clientStreams.lookup tk = some cs ∧
    (cs.outbuffer = [] ∨ tk ∈ c.toRemove ∨ (c.os.source cs.stream).closed = true)

theorem write_room (w : World Token UInt8) (k : Sock) (len : Nat) {io : WriteIo} {room : Nat}
    (some : io.room = some room) :
    (∃ e, (w.write k len io).1 = .error e) ∨ (w.write k len io).1 = .ok (min room len) := by
  simp only [World.write, Source.put, some]
  split
  · exact .inl ⟨_, rfl⟩
  · exact .inr rfl

-- a write that finds room takes some of what is left, where the stream is not given up
theorem clientWrite_progress {cs : ClientStream} {room : Nat} (writable : ev.writable = true)
    (some : io.write.room = some room) :
    ev.token ∈ (c.clientWrite ev cs io).toRemove ∨
      (c.clientWrite ev cs io).unsent ev.token = cs.outbuffer.length - min room cs.outbuffer.length := by
  simp only [clientWrite, writable, if_true]
  have wrote := write_room c.os cs.stream cs.outbuffer.length some
  generalize c.os.write cs.stream cs.outbuffer.length io.write = r at wrote ⊢
  obtain ⟨res, os⟩ := r
  dsimp only at wrote ⊢
  rcases wrote with ⟨e, rfl⟩ | rfl
  · refine .inl ?_
    simp [ClientStream.write, drop]
  · refine .inr ?_
    simp only [ClientStream.write]
    rw [unsent, front_insert rfl, if_pos rfl]
    simp [ClientStream.front, compact_eq_drop]

theorem event_progress {room : Nat} (client : ev.token ≠ workerStreamTk) (writable : ev.writable = true)
    (some : io.write.room = some room) (pos : 0 < room) {f : Front} (found : c.front ev.token = Option.some f)
    (left : f.outbuffer ≠ []) : ev.token ∈ (c.event env ev io).state.toRemove ∨
      (c.event env ev io).state.unsent ev.token < c.unsent ev.token := by
  obtain ⟨cs, stream, rfl⟩ := front_found found
  obtain ⟨same, found', -⟩ := @clientRead_front env _ _ _ io stream
  have more := @clientWrite_progress (c.clientRead env ev cs io).1 ev io (c.clientRead env ev cs io).2 room writable some
  simp only [event, client, if_false, stream, Flow.state]
  refine more.imp_right fun wrote => ?_
  have outbuffer : (c.clientRead env ev cs io).2.outbuffer = cs.outbuffer := congrArg Front.outbuffer same
  rw [wrote, outbuffer, unsent_front found]
  have := List.length_pos_of_ne_nil left
  exact Nat.sub_lt this (Nat.lt_min.mpr ⟨pos, this⟩)

theorem Settled.bounded {evs : List Event} (h : Settled c evs) : c.Bounded := by
  intro tk hle
  cases found : c.clientStreams.lookup tk with
  | none => rw [front, found]; rfl
  | some cs => exact absurd (h.plugged.tokens tk _ (streamOf_lookup found)).2 (Nat.not_lt.mpr hle)

end Loop

namespace Daemon

variable {env : Env} {s s' : Daemon} {l : Label} {tk : Token}

def batch (s : Daemon) : Option (List Event) :=
  match s.phase with
  | .turn evs => some evs
  | .polling => none

def beat : Label → Beat Token
  | .head _ => .head
  | .poll evs => .poll evs
  | .event .. => .event
  | _ => .aside

theorem turns : Turns (machine env) batch beat where
  head s l s' hs hl := by
    obtain ⟨c, -, hcase⟩ := step_cases hs
    cases hcase with
    | head io phase order => exact ⟨by rw [batch, phase], rfl⟩
    | _ => cases hl
  poll s l s' evs hs hl := by
    obtain ⟨c, -, hcase⟩ := step_cases hs
    cases hcase with
    | poll events os phase notified =>
      cases hl
      exact ⟨by rw [batch, phase], rfl⟩
    | _ => cases hl
  event s l s' hs hl := by
    obtain ⟨c, -, hcase⟩ := step_cases hs
    cases hcase with
    | event read fds write ev rest phase => exact ⟨ev, rest, by rw [batch, phase], rfl⟩
    | _ => cases hl
  aside s l s' hs hl := by
    obtain ⟨c, -, hcase⟩ := step_cases hs
    cases hcase with
    | head => cases hl
    | poll => cases hl
    | event => cases hl
    | _ => rfl

def unsent (tk : Token) (s : Daemon) : Nat := s.flow.state.unsent tk

def Done (tk : Token) (s : Daemon) : Prop := s.flow.state.Done tk

def Armed (tk : Token) (s : Daemon) : Prop :=
  ∃ cs, s.flow.state.clientStreams.lookup tk = some cs ∧
    (s.flow.state.os.source cs.stream).writeArmed = true

def Tells (tk : Token) (ev : Event) : Prop := ev.token = tk ∧ ev.writable = true

-- a stream stays, and no step adds to what is left to write on it
theorem unsent_step (settled : s.Settled) (hs : step env s l = some s') {f : Front}
    (held : s.flow.state.front tk = some f) :
    (∃ f', s'.flow.state.front tk = some f') ∧ s'.unsent tk ≤ s.unsent tk := by
  have same : s'.flow.state.front tk = s.flow.state.front tk →
      (∃ f', s'.flow.state.front tk = some f') ∧ s'.unsent tk ≤ s.unsent tk := fun eq =>
    ⟨⟨f, eq.trans held⟩, Nat.le_of_eq (by rw [unsent, Loop.unsent, eq]; rfl)⟩
  obtain ⟨c, hc, hcase⟩ := step_cases hs
  have bounded := (settled.settled c hc).bounded
  rw [hc] at held same
  have held : c.front tk = some f := held
  cases hcase with
  | head io phase order =>
    rcases (@Loop.head_greets env _ io bounded).fronts tk with old | ⟨fresh, -⟩
    · exact same old
    · rw [fresh] at held
      cases held
  | event read fds write ev batch phase =>
    cases @Loop.event_replies env (c.bindFds fds) ev ⟨read, List.range' c.os.next fds, write⟩ with
    | nothing reply fronts => exact same (fronts tk)
    | bytes f' n found reply fronts =>
      by_cases own : tk = ev.token
      · have wrote := (fronts tk).trans (if_pos own)
        have eq : f = f' := by
          rw [own] at held
          exact Option.some.inj (held.symm.trans found)
        refine ⟨⟨_, wrote⟩, ?_⟩
        rw [unsent, unsent, hc]
        refine Nat.le_trans (Nat.le_of_eq (Loop.unsent_front wrote)) ?_
        rw [Flow.state, Loop.unsent_front held, eq, Front.wrote, List.length_drop]
        exact Nat.sub_le _ _
      · exact same ((fronts tk).trans (if_neg own))
  | poll events os phase notified => exact same rfl
  | master bytes => exact same rfl
  | hangup => exact same rfl
  | arrive k bytes client => exact same rfl
  | close k client => exact same rfl
  | pythread msgType msg => exact same rfl

-- epoll tells of room only where there is some
def Roomy (tk : Token) (s : Daemon) (l : Label) : Prop :=
  ∀ read fds write ev rest, l = .event read fds write → s.phase = .turn (ev :: rest) → Tells tk ev →
    ∃ room, write.room = some room ∧ 0 < room

theorem unsent_event (settled : s.Settled) (hs : step env s l = some s') (handles : beat l = .event) {f : Front}
    (held : s.flow.state.front tk = some f) {ev : Event} {rest : List Event} (batched : s.batch = some (ev :: rest))
    (tells : Tells tk ev) (roomy : Roomy tk s l) : s.Done tk ∨ s'.Done tk ∨ s'.unsent tk < s.unsent tk := by
  obtain ⟨⟨f', held'⟩, -⟩ := unsent_step settled hs held
  obtain ⟨c, hc, hcase⟩ := step_cases hs
  cases hcase with
  | event read fds write ev' rest' phase =>
    rw [batch, phase] at batched
    cases batched
    obtain ⟨room, found, pos⟩ := roomy read fds write ev rest rfl phase tells
    obtain ⟨rfl, writable⟩ := tells
    rw [hc] at held
    have held : c.front ev.token = some f := held
    obtain ⟨cs, stream, rfl⟩ := Loop.front_found held
    by_cases left : cs.outbuffer = []
    · exact .inl ⟨cs, by rw [hc]; exact stream, .inl left⟩
    · have client : ev.token ≠ workerStreamTk :=
        Nat.ne_of_gt ((settled.settled c hc).plugged.tokens _ _ (Loop.streamOf_lookup stream)).1
      have progress := @Loop.event_progress env (c.bindFds fds) ev ⟨read, List.range' c.os.next fds, write⟩ room
        client writable found pos cs.front held left
      refine .inr (progress.imp (fun gone => ?_) fun less => ?_)
      · obtain ⟨cs', stream', -⟩ := Loop.front_found held'
        exact ⟨cs', stream', .inr (.inl gone)⟩
      · rw [unsent, unsent, hc]
        exact less
  | head => cases handles
  | poll => cases handles
  | master => cases handles
  | hangup => cases handles
  | arrive => cases handles
  | close => cases handles
  | pythread => cases handles

theorem watched (settled : s.Settled) {c : Loop} (hc : s.flow = .running c) {f : Front}
    (held : c.front tk = some f) (idle : s.batch = none) : s.Done tk ∨ s.Armed tk := by
  obtain ⟨cs, found, rfl⟩ := Loop.front_found held
  have polling : s.phase = .polling := by
    rw [batch] at idle
    cases phase : s.phase with
    | turn evs => simp [phase] at idle
    | polling => rfl
  rw [Done, Armed, hc]
  by_cases done : cs.outbuffer = [] ∨ tk ∈ c.toRemove ∨ (c.os.source cs.stream).closed = true
  · exact .inl ⟨cs, found, done⟩
  · obtain ⟨left, rest⟩ := not_or.mp done
    obtain ⟨kept, open_⟩ := not_or.mp rest
    refine .inr ⟨cs, found, ?_⟩
    exact (settled.tended hc found kept).armed polling (Bool.eq_false_of_not_eq_true open_) left

theorem greeted {e : (machine env).Endless} {ls : List Label} (run : (machine env).exec ls = some (e.states 0))
    {f : Front} (held : (e.states 0).flow.state.front tk = some f)
    (fair : Turns.Fair e batch beat (Armed tk) (Tells tk)) (roomy : ∀ n, Roomy tk (e.states n) (e.labels n)) (n : Nat) :
    ∃ m, n ≤ m ∧ (e.states m).Done tk := by
  have kept := @Machine.Endless.invariant _ _ _ e (fun s => s.Settled ∧ ∃ f, s.flow.state.front tk = some f)
    ⟨Settled.run run, f, held⟩ fun s l s' ⟨settled, f, held⟩ hs =>
      ⟨settled.step hs, (unsent_step settled hs held).1⟩
  refine @Turns.reaches _ _ _ _ _ _ e turns _ _ fair (Done tk) (unsent tk) (fun n idle => ?_) (fun n => ?_)
    (fun n ev rest handles batched tells => ?_) n
  · obtain ⟨settled, f, held⟩ := kept n
    obtain ⟨c, hc, -⟩ := step_cases (e.steps n)
    rw [hc] at held
    exact watched settled hc held idle
  · obtain ⟨settled, f, held⟩ := kept n
    exact .inr (unsent_step settled (e.steps n) held).2
  · obtain ⟨settled, f, held⟩ := kept n
    exact unsent_event settled (e.steps n) handles held batched tells (roomy n)

def deaf (tk : Token) (s : Daemon) : Bool :=
  s.batch.isNone && (s.flow.state.clientStreams.lookup tk).all fun cs =>
    !(s.flow.state.os.source cs.stream).writeArmed

theorem deaf_unarmed (h : s.deaf tk = true) : s.batch = none ∧ ¬ s.Armed tk := by
  obtain ⟨idle, unarmed⟩ := Bool.and_eq_true_iff.mp h
  refine ⟨Option.isNone_iff_eq_none.mp idle, fun ⟨cs, found, armed⟩ => ?_⟩
  simp [found, armed] at unarmed

set_option maxRecDepth 4096 in
-- the hello is written in one go, and then the loop comes round for ever
theorem greeted_sends : ∃ e : (machine loopback).Endless, (machine loopback).exec greeting = some (e.states 0) ∧
    (e.states 0).unsent 1 ≠ 0 ∧ ∃ m, (e.states m).Done 1 := by
  have sends : ∃ s₀ s₁ s₂ s₃ s₄ f, (machine loopback).exec greeting = some s₀ ∧
      (machine loopback).step s₀ (.poll [⟨1, false, true⟩]) = some s₁ ∧
      (machine loopback).step s₁ (.event ⟨0, false⟩ 0 ⟨some 4096, false⟩) = some s₂ ∧
      (machine loopback).step s₂ (.head (loopbackHead [1])) = some s₃ ∧
      (machine loopback).step s₃ (.poll []) = some s₄ ∧
      (machine loopback).step s₄ (.head (loopbackHead [1])) = some s₃ ∧
      s₀.flow.state.front 1 = some f ∧ s₀.unsent 1 ≠ 0 ∧ s₃.deaf 1 = true :=
    ⟨_, _, _, _, _, _, rfl, rfl, rfl, rfl, rfl, rfl, rfl, by decide, rfl⟩
  obtain ⟨s₀, s₁, s₂, s₃, s₄, f, run, told, wrote, round, idle, again, held, left, deaf⟩ := sends
  obtain ⟨polling, unarmed⟩ := deaf_unarmed deaf
  let rest := Machine.Endless.alternate idle again
  let e := ((rest.before round).before wrote).before told
  have resting : ∀ n, e.states (2 * n + 3) = s₃ := fun n => if_pos (Nat.mul_mod_right 2 n)
  have turning : ∀ n, e.labels (2 * n + 4) = .head (loopbackHead [1]) := fun n => if_neg (by omega)
  refine ⟨e, run, left, ?_⟩
  have fair : Turns.Fair e batch beat (Armed 1) (Tells 1) := by
    refine ⟨fun n => ⟨2 * n + 4, by omega, by rw [turning]; rfl⟩, fun n armed => ?_⟩
    cases n with
    | zero => exact ⟨0, _, _, Nat.le_refl 0, rfl, List.mem_singleton_self _, rfl, rfl⟩
    | succ n =>
      have now := armed (2 * n + 3) (by omega)
      rw [resting] at now
      exact absurd (now polling) unarmed
  have roomy : ∀ n, Roomy 1 (e.states n) (e.labels n) := by
    intro n read fds write ev later label phase tells
    rcases n with _ | _ | _ | n
    · cases label
    · cases label
      exact ⟨4096, rfl, by decide⟩
    · cases label
    · have calm : rest.labels n = .poll [] ∨ rest.labels n = .head (loopbackHead [1]) := ite_eq_or_eq ..
      have same : e.labels (n + 3) = rest.labels n := rfl
      rcases calm with calm | calm
      all_goals
        rw [same, calm] at label
        cases label
  obtain ⟨m, -, done⟩ := greeted run held fair roomy 0
  exact ⟨m, done⟩

end Daemon
end PyProxy.Worker
