import PyProxy.Client.Futures

namespace PyProxy.Client
open Stream Protocol

def EvalCode.msg (c : EvalCode) : CodeString := ⟨c.id, c.code, c.locals, c.globals⟩

-- what the process asks its thread to send
def Label.asks : Label → Option CodeString
  | .evalStr id code locals globals => some ⟨id, code, locals, globals⟩
  | _ => none

def request (bc : Bincode) (msg : CodeString) : List UInt8 := newReq bc.codeString .codeString 0 msg

namespace Loop

-- what a step takes off the channel
def takes (c : Loop) : Label → List CodeString
  | .head io =>
    match io.close with
    | .empty => c.codeRecv.map EvalCode.msg
    | _ => []
  | _ => []

-- what a step puts on the main stream
def wrote (c : Loop) : Label → List UInt8
  | .event ev io =>
    if ev.token = mainStreamTk ∧ ev.writable = true then
      match io.write with
      | .ok n => c.mainStream.outbuffer.take n
      | .error _ => []
    else []
  | _ => []

variable {bc : Bincode}

theorem takeCode_outbuffer (c : Loop) : (c.takeCode bc).mainStream.outbuffer =
    c.mainStream.outbuffer ++ (c.codeRecv.map EvalCode.msg).flatMap (request bc) := by
  suffices h : ∀ (l : List EvalCode) (c : Loop), (l.foldl (takeEval bc) c).mainStream.outbuffer =
      c.mainStream.outbuffer ++ (l.map EvalCode.msg).flatMap (request bc) from
    h c.codeRecv { c with codeRecv := [] }
  intro l
  induction l with
  | nil => exact fun c => (List.append_nil _).symm
  | cons msg l ih =>
    intro c
    rw [List.foldl_cons, ih, List.map_cons, List.flatMap_cons, ← List.append_assoc]
    rfl

theorem head_spec (c : Loop) (io : HeadIo) :
    (c.head bc io).state.mainStream.outbuffer =
        c.mainStream.outbuffer ++ (c.takes (.head io)).flatMap (request bc) ∧
      c.takes (.head io) ++ (c.head bc io).state.codeRecv.map EvalCode.msg = c.codeRecv.map EvalCode.msg := by
  obtain ⟨o, p, taken⟩ := c.takeCode_frame bc
  have out := @takeCode_outbuffer bc c
  have empty : (c.takeCode bc).codeRecv = [] := by rw [taken]
  rcases c.head_cases bc io with ⟨closed, hs⟩ | ⟨hclose, -, hs⟩ | ⟨hclose, -, i, hs⟩
  · have none : c.takes (.head io) = [] := by
      cases hio : io.close with
      | empty => exact absurd hio closed
      | ok => simp [takes, hio]
      | disconnected => simp [takes, hio]
    rw [hs, none]
    exact ⟨(List.append_nil _).symm, rfl⟩
  · have all : c.takes (.head io) = c.codeRecv.map EvalCode.msg := by simp [takes, hclose]
    rw [hs, all, Flow.state, empty]
    exact ⟨out, List.append_nil _⟩
  · have all : c.takes (.head io) = c.codeRecv.map EvalCode.msg := by simp [takes, hclose]
    obtain ⟨q, f, resolved⟩ := (c.takeCode bc).resolve_frame
    rw [hs, all, resolved]
    refine ⟨out, ?_⟩
    rw [withInterest, empty]
    exact List.append_nil _

theorem mainWrite_refused {c : Loop} {ev : Event} {io : EventIo} {e : Error}
    (h : c.mainWrite ev io = .error e) : c.wrote (.event ev io) = [] := by
  simp only [mainWrite] at h
  split at h
  · cases hio : io.write with
    | error e => simp [wrote, hio]
    | ok n => simp [hio, MainStream.write, fatalIoError] at h
  · cases h

theorem mainWrite_written {c c' : Loop} {ev : Event} {io : EventIo} (token : ev.token = mainStreamTk)
    (h : c.mainWrite ev io = .ok c') :
    c.wrote (.event ev io) ++ c'.mainStream.outbuffer = c.mainStream.outbuffer ∧
      c'.codeRecv = c.codeRecv := by
  simp only [mainWrite] at h
  split at h
  · rename_i writable
    cases hio : io.write with
    | error e => simp [hio, MainStream.write, fatalIoError] at h
    | ok n =>
      simp only [hio, MainStream.write, fatalIoError, compact_eq_drop] at h
      cases h
      simp [wrote, token, writable, hio]
  · rename_i writable
    cases h
    simp [wrote, writable]

theorem MainStream.read_outbuffer (s : MainStream) (res : IoResult (List UInt8)) :
    (s.read bc res).2.outbuffer = s.outbuffer := by
  rcases res with e | _ | ⟨b, bytes⟩
  · rfl
  · rfl
  · simp only [MainStream.read]
    split <;> rfl

theorem event_spec (c : Loop) (ev : Event) (io : EventIo) :
    c.wrote (.event ev io) ++ (c.event bc ev io).state.mainStream.outbuffer = c.mainStream.outbuffer ∧
      (c.event bc ev io).state.codeRecv = c.codeRecv := by
  simp only [event]
  split
  · rename_i token
    simp only [mainEvent]
    cases hw : c.mainWrite ev io with
    | error e =>
      rw [mainWrite_refused hw]
      exact ⟨rfl, rfl⟩
    | ok c' =>
      obtain ⟨out, same⟩ := mainWrite_written token hw
      have read := @MainStream.read_outbuffer bc c'.mainStream io.read
      dsimp only
      generalize c'.mainStream.read bc io.read = r at read ⊢
      obtain ⟨_ | u, stream⟩ := r
      · exact ⟨by rw [← out, ← read]; rfl, same⟩
      · exact ⟨by rw [← out, ← read]; rfl, same⟩
  · rename_i token
    have none : c.wrote (.event ev io) = [] := if_neg fun h => token h.1
    rw [none]
    split
    · simp only [outputEvent]
      split
      · exact ⟨rfl, rfl⟩
      · split <;> exact ⟨rfl, rfl⟩
    · exact ⟨rfl, rfl⟩

theorem takes_waiting {c : Loop} {l : Label} {m : CodeString} (h : m ∈ c.takes l) :
    m ∈ c.codeRecv.map EvalCode.msg := by
  cases l with
  | evalStr => cases h
  | event => cases h
  | head io =>
    simp only [takes] at h
    split at h
    · exact h
    · cases h

theorem step_spec (c : Loop) (l : Label) :
    c.wrote l ++ (c.step bc l).state.mainStream.outbuffer =
        c.mainStream.outbuffer ++ (c.takes l).flatMap (request bc) ∧
      c.takes l ++ (c.step bc l).state.codeRecv.map EvalCode.msg =
        c.codeRecv.map EvalCode.msg ++ l.asks.toList := by
  cases l with
  | evalStr id code locals globals =>
    refine ⟨(List.append_nil _).symm, ?_⟩
    simp [takes, step, Flow.state, evalStr, Label.asks, EvalCode.msg]
  | head io =>
    obtain ⟨out, pending⟩ := @head_spec bc c io
    exact ⟨out, pending.trans (List.append_nil _).symm⟩
  | event ev io =>
    obtain ⟨out, same⟩ := @event_spec bc c ev io
    refine ⟨out.trans (List.append_nil _).symm, ?_⟩
    simp only [step, same]
    exact (List.append_nil _).symm

def Tuned (c : Loop) : Prop := c.mainStream.interest = ro ∨ c.mainStream.interest = rw

theorem updateInterest_watched {c c' : Loop} {reregister : IoResult Unit} (h : c.Tuned)
    (hu : c.updateInterest reregister = .ok c') :
    c'.mainStream.interest.writable = c'.mainStream.hasOutData ∧ c'.Tuned := by
  simp only [updateInterest] at hu
  split at hu
  · rename_i up
    split at hu <;> cases hu
    exact ⟨up.2.symm, .inr rfl⟩
  · rename_i up
    split at hu
    · rename_i down
      split at hu <;> cases hu
      exact ⟨down.2.symm, .inl rfl⟩
    · rename_i down
      cases hu
      refine ⟨?_, h⟩
      rcases h with i | i
      · cases hd : c.mainStream.hasOutData with
        | true => exact absurd ⟨i, hd⟩ up
        | false => rw [i, ro]
      · cases hd : c.mainStream.hasOutData with
        | true => rw [i, rw]
        | false => exact absurd ⟨by rw [i, rw], hd⟩ down

theorem prepared_interest (c : Loop) :
    (c.takeCode bc).resolve.mainStream.interest = c.mainStream.interest := by
  obtain ⟨o, p, taken⟩ := c.takeCode_frame bc
  obtain ⟨q, f, resolved⟩ := (c.takeCode bc).resolve_frame
  rw [resolved, taken]

theorem head_tuned {c : Loop} (h : c.Tuned) (io : HeadIo) :
    (c.head bc io).state.Tuned ∧
      ∀ c', c.head bc io = .running c' → c'.mainStream.interest.writable = c'.mainStream.hasOutData := by
  obtain ⟨o, p, taken⟩ := c.takeCode_frame bc
  have prepared : (c.takeCode bc).resolve.Tuned := by
    rw [Tuned, prepared_interest]
    exact h
  simp only [head]
  cases io.close with
  | ok => exact ⟨h, fun c' hc => by cases hc⟩
  | disconnected => exact ⟨h, fun c' hc => by cases hc⟩
  | empty =>
    cases io.codeDisconnected with
    | true =>
      refine ⟨?_, fun c' hc => by cases hc⟩
      have same : (c.takeCode bc).Tuned := by
        rw [taken]
        exact h
      exact same
    | false =>
      simp only [Bool.false_eq_true, if_false]
      cases hu : (c.takeCode bc).resolve.updateInterest io.reregister with
      | error e => exact ⟨prepared, fun c' hc => by cases hc⟩
      | ok d =>
        obtain ⟨watched, tuned⟩ := updateInterest_watched prepared hu
        cases io.poll with
        | error e => exact ⟨tuned, fun c' hc => by cases hc⟩
        | ok u =>
          refine ⟨tuned, fun c' hc => ?_⟩
          cases hc
          exact watched

theorem MainStream.read_interest (s : MainStream) (res : IoResult (List UInt8)) :
    (s.read bc res).2.interest = s.interest := by
  rcases res with e | _ | ⟨b, bytes⟩
  · rfl
  · rfl
  · simp only [MainStream.read]
    split <;> rfl

theorem event_interest (c : Loop) (ev : Event) (io : EventIo) :
    (c.event bc ev io).state.mainStream.interest = c.mainStream.interest := by
  simp only [event]
  split
  · simp only [mainEvent]
    cases hw : c.mainWrite ev io with
    | error e => rfl
    | ok c' =>
      have kept : c'.mainStream.interest = c.mainStream.interest := by
        simp only [mainWrite] at hw
        split at hw
        · cases hio : io.write with
          | error e => simp [hio, MainStream.write, fatalIoError] at hw
          | ok n =>
            simp only [hio, MainStream.write, fatalIoError] at hw
            cases hw
            rfl
        · cases hw
          rfl
      have read := @MainStream.read_interest bc c'.mainStream io.read
      dsimp only
      generalize c'.mainStream.read bc io.read = r at read ⊢
      obtain ⟨_ | u, stream⟩ := r <;> exact read.trans kept
  · split
    · simp only [outputEvent]
      split
      · rfl
      · split <;> rfl
    · rfl

theorem step_tuned {c : Loop} (h : c.Tuned) (l : Label) : (c.step bc l).state.Tuned := by
  cases l with
  | evalStr => exact h
  | head io => exact (head_tuned h io).1
  | event ev io =>
    have same := @event_interest bc c ev io
    rw [Tuned, step, same]
    exact h

end Loop

def wrote (s : Flow Error Loop × History) (l : Label) : List UInt8 :=
  match s.1 with
  | .running c => c.wrote l
  | .returned _ _ => []

structure Written (bc : Bincode) (ls : List Label) (c : Loop) (bytes : List UInt8) : Prop where
  frames : ∃ queued : List CodeString, bytes ++ c.mainStream.outbuffer = queued.flatMap (request bc) ∧
    queued ++ c.codeRecv.map EvalCode.msg = ls.filterMap Label.asks
  tuned : c.Tuned

theorem Written.step {bc : Bincode} {ls : List Label} {c : Loop} {bytes : List UInt8}
    (h : Written bc ls c bytes) (l : Label) :
    Written bc (ls ++ [l]) (c.step bc l).state (bytes ++ c.wrote l) := by
  obtain ⟨queued, framed, asked⟩ := h.frames
  obtain ⟨out, pending⟩ := @Loop.step_spec bc c l
  refine ⟨⟨queued ++ c.takes l, ?_, ?_⟩, Loop.step_tuned h.tuned l⟩
  · rw [List.append_assoc, out, ← List.append_assoc, framed, List.flatMap_append]
  · rw [List.append_assoc, pending, ← List.append_assoc, asked, List.filterMap_append]
    cases hl : l.asks <;> simp [hl]

theorem written_run {bc : Bincode} {ls : List Label} {s : Flow Error Loop × History} {bytes : List UInt8}
    (run : ((machine bc).traced wrote).exec ls = some (s, bytes)) : Written bc ls s.1.state bytes := by
  refine @Machine.history_invariant _ _ ((machine bc).traced wrote)
    (fun ls p => Written bc ls p.1.1.state p.2) (fun _ _ => True) ?_ ?_ _ _ run fun _ _ _ _ _ _ => trivial
  · exact ⟨⟨[], rfl, rfl⟩, .inl rfl⟩
  · rintro ls ⟨⟨f, h⟩, bytes⟩ l ⟨⟨f', h'⟩, bytes'⟩ inv - hl
    obtain ⟨step, eq⟩ := Machine.traced_step hl
    dsimp only at step eq inv ⊢
    subst eq
    cases f with
    | returned => cases step
    | running c =>
      cases step
      exact inv.step l

-- the main stream carries the evals, each once and in order, and nothing else
theorem evals_written {bc : Bincode} {ls : List Label} {s : Flow Error Loop × History}
    {bytes : List UInt8} (run : ((machine bc).traced wrote).exec ls = some (s, bytes)) :
    bytes <+: (ls.filterMap Label.asks).flatMap (request bc) ∧
      (s.1.state.codeRecv = [] → s.1.state.mainStream.outbuffer = [] →
        bytes = (ls.filterMap Label.asks).flatMap (request bc)) ∧
      ∀ c io c', s.1 = .running c → c.head bc io = .running c' →
        c'.codeRecv = [] ∧ c'.mainStream.interest.writable = c'.mainStream.hasOutData := by
  obtain ⟨⟨queued, framed, asked⟩, tuned⟩ := written_run run
  refine ⟨?_, fun pending out => ?_, fun c io c' hc hhead => ?_⟩
  · rw [← asked, List.flatMap_append, ← framed, List.append_assoc]
    exact List.prefix_append _ _
  · rw [pending, List.map_nil, List.append_nil] at asked
    rw [out, List.append_nil] at framed
    rw [framed, asked]
  · rw [hc] at tuned
    exact ⟨Loop.head_running hhead, (Loop.head_tuned tuned io).2 c' hhead⟩

def writeMain (n : Nat) (bytes : List UInt8) : Label := .event ⟨mainStreamTk, true, true⟩ ⟨.ok n, .ok bytes, true⟩

def writeA : Label := writeMain 100 returnSeven

-- the first write ends inside the second frame
def writeFifty : Label := writeMain 50 returnSeven

def writeRest : Label := writeMain 34 (returns "b" [8])

theorem evals_written_evalA : ∃ s s' bytes,
    ((machine fixint).traced wrote).exec [evalA, evalB, .head quietHead, writeFifty] = some (s, bytes.take 50) ∧
      s.1.state.mainStream.outbuffer ≠ [] ∧
      ((machine fixint).traced wrote).exec
        [evalA, evalB, .head quietHead, writeFifty, .head quietHead, writeRest] = some (s', bytes) ∧
      bytes = request fixint ⟨"a", "x", [], []⟩ ++ request fixint ⟨"b", "y", [], []⟩ := by
  have first : ((machine fixint).traced wrote).exec [evalA, evalB, .head quietHead, writeFifty] =
      some ((.running _, _), _) := rfl
  have run : ((machine fixint).traced wrote).exec
      [evalA, evalB, .head quietHead, writeFifty, .head quietHead, writeRest] = some ((.running _, _), _) := rfl
  exact ⟨_, _, _, first, by decide, run, (evals_written run).2.1 rfl rfl⟩

end PyProxy.Client
