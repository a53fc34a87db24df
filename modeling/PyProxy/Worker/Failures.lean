import PyProxy.Worker.Daemon
import PyProxy.Worker.Delivery

namespace PyProxy.Worker
open Protocol Server Poll

inductive Fate where
  | opened (tk : Token)
  | failed (tk : Token)
  deriving DecidableEq

def Fate.token : Fate → Token
  | .opened tk => tk
  | .failed tk => tk

namespace Loop

section

variable (env : Env)

def takeFate (io : HeadIo) (c : Loop) (msg : Vector UInt8 requestHeaderSize × Sock) : List Fate :=
  match ClientStream.new env.bc env.hex env.cfg msg.1 msg.2 ro (io.rng c.tokenIo) with
  | .error _ => []
  | .ok cs =>
    match c.os.register (io.registerRefused c.tokenIo) cs.stream c.tokenIo ro with
    | none => []
    | some _ => [.opened c.tokenIo]

def takeFates (io : HeadIo) : List (Vector UInt8 requestHeaderSize × Sock) → Loop → List Fate
  | [], _ => []
  | msg :: msgs, c => c.takeFate env io msg ++ takeFates io msgs (c.takeStream env io msg)

def retuneFate (c : Loop) (tk : Token) (cs : ClientStream) (refused : Bool) (i : Interest) : List Fate :=
  match c.os.reregister refused cs.stream tk i with
  | none => [.failed tk]
  | some _ => []

def forwardFate (io : HeadIo) (c : Loop) (tk : Token) : List Fate :=
  match c.clientStreams.lookup tk with
  | none => []
  | some cs =>
    if cs.interest = ro ∧ cs.hasOutData = true then c.retuneFate tk cs (io.refused tk) rw
    else if cs.interest.writable = true ∧ cs.hasOutData = false then
      c.retuneFate tk cs (io.refused tk) ro
    else []

def forwardFates (io : HeadIo) : List Token → Loop → List Fate
  | [], _ => []
  | tk :: order, c => c.forwardFate io tk ++ forwardFates io order (c.forward env io tk)

def headFates (c : Loop) (io : HeadIo) : List Fate :=
  takeFates env io c.workerStream.newMsgs { c with workerStream := { c.workerStream with newMsgs := [] } } ++
    match (c.takeStreams env io).updateInterest io.wsRefused with
    | .error _ => []
    | .ok c => forwardFates env io io.order c

def readFate (c : Loop) (ev : Event) (cs : ClientStream) (io : EventIo) : List Fate :=
  if ev.readable then
    match (cs.read env.bc (c.os.read cs.stream bufferSize io.read).1).1 with
    | .ok _ => []
    | .error _ => [.failed ev.token]
  else []

def writeFate (c : Loop) (ev : Event) (cs : ClientStream) (io : EventIo) : List Fate :=
  if ev.writable then
    match cs.write (c.os.write cs.stream cs.outbuffer.length io.write).1 with
    | .ok _ => []
    | .error _ => [.failed ev.token]
  else []

def eventFates (c : Loop) (ev : Event) (io : EventIo) : List Fate :=
  if ev.token = workerStreamTk then []
  else
    match c.clientStreams.lookup ev.token with
    | none => []
    | some cs =>
      let (c', cs') := c.clientRead env ev cs io
      c.readFate env ev cs io ++ c'.writeFate ev cs' io

end

def holds (c : Loop) (tk : Token) : Prop := (c.clientStreams.lookup tk).isSome = true

-- from `c` to `c'` no client stream goes away, not even those that met the fates `fs`
structure Leaves (fs : List Fate) (c c' : Loop) : Prop where
  kept : ∀ tk, c.holds tk → c'.holds tk
  named : ∀ f ∈ fs, c'.holds f.token

variable {env : Env} {c c' c'' : Loop} {fs fs' : List Fate} {io : HeadIo} {tk : Token}

theorem leaves_same (h : c'.clientStreams = c.clientStreams) : Leaves [] c c' where
  kept tk hk := by rwa [holds, h]
  named f hf := by cases hf

theorem Leaves.trans (h : Leaves fs c c') (h' : Leaves fs' c' c'') : Leaves (fs ++ fs') c c'' where
  kept tk hk := h'.kept tk (h.kept tk hk)
  named f hf := (List.mem_append.mp hf).elim (fun hf => h'.kept _ (h.named f hf)) (h'.named f)

theorem leaves_insert {cs : ClientStream} (h : c'.clientStreams = c.clientStreams.insert tk cs)
    (own : ∀ f ∈ fs, f.token = tk) : Leaves fs c c' where
  kept t ht := by
    rw [holds, h]
    by_cases hk : t = tk
    · subst hk
      rw [AList.lookup_insert]
      rfl
    · rwa [AList.lookup_insert_ne hk]
  named f hf := by
    rw [holds, h, own f hf, AList.lookup_insert]
    rfl

theorem takeStream_leaves (msg : Vector UInt8 requestHeaderSize × Sock) :
    Leaves (c.takeFate env io msg) c (c.takeStream env io msg) := by
  simp only [takeFate, takeStream]
  cases ClientStream.new env.bc env.hex env.cfg msg.1 msg.2 ro (io.rng c.tokenIo) with
  | error e => exact leaves_same rfl
  | ok cs =>
    dsimp only
    cases c.os.register (io.registerRefused c.tokenIo) cs.stream c.tokenIo ro with
    | none => exact leaves_same rfl
    | some os => exact @leaves_insert c _ _ c.tokenIo cs rfl (by simp [Fate.token])

theorem takeFates_leaves (msgs : List (Vector UInt8 requestHeaderSize × Sock)) :
    Leaves (takeFates env io msgs c) c (msgs.foldl (takeStream env io) c) := by
  induction msgs generalizing c with
  | nil => exact leaves_same rfl
  | cons msg msgs ih => exact (takeStream_leaves msg).trans ih

theorem takeStreams_leaves : Leaves (takeFates env io c.workerStream.newMsgs
    { c with workerStream := { c.workerStream with newMsgs := [] } }) c (c.takeStreams env io) :=
  (@leaves_same c { c with workerStream := { c.workerStream with newMsgs := [] } } rfl).trans
    (takeFates_leaves c.workerStream.newMsgs)

theorem updateInterest_streams {refused : Bool} (h : c.updateInterest refused = .ok c') :
    c'.clientStreams = c.clientStreams := by
  rcases updateInterest_cases h with rfl | ⟨i, os, -, -, rfl⟩ <;> rfl

theorem sendMsgs_streams (sessionId : String) (ts : Nat → String) (msgs : List RequestMessage) :
    (msgs.foldl (sendMsg env tk sessionId ts) c).clientStreams = c.clientStreams ∧
      (msgs.foldl (sendMsg env tk sessionId ts) c).os = c.os := by
  obtain ⟨o, ho⟩ := sendMsgs env tk sessionId ts msgs c
  rw [ho]
  exact ⟨rfl, rfl⟩

theorem setStreamInterest_leaves (cs : ClientStream) (refused : Bool) (i : Interest) :
    Leaves (c.retuneFate tk cs refused i) c (c.setStreamInterest tk cs refused i) := by
  simp only [retuneFate, setStreamInterest]
  cases c.os.reregister refused cs.stream tk i with
  | none => exact @leaves_insert c _ _ tk (cs.setInterest i) rfl (by simp [Fate.token])
  | some os => exact @leaves_insert c _ _ tk (cs.setInterest i) rfl (by simp)

theorem forward_leaves : Leaves (c.forwardFate io tk) c (c.forward env io tk) := by
  simp only [forwardFate, forward]
  cases c.clientStreams.lookup tk with
  | none => exact leaves_same rfl
  | some cs =>
    obtain ⟨streams, os⟩ := @sendMsgs_streams env c tk cs.sessionId io.queueTs cs.reqMsgs
    have data : ({ cs with reqMsgs := [] } : ClientStream).hasOutData = cs.hasOutData := rfl
    simp only [data]
    generalize cs.reqMsgs.foldl (sendMsg env tk cs.sessionId io.queueTs) c = d at streams os ⊢
    have retune : ∀ i, Leaves (c.retuneFate tk cs (io.refused tk) i) c
        (d.setStreamInterest tk { cs with reqMsgs := [] } (io.refused tk) i) := by
      intro i
      have fate : c.retuneFate tk cs (io.refused tk) i =
          d.retuneFate tk { cs with reqMsgs := [] } (io.refused tk) i := by
        simp only [retuneFate, os]
      rw [fate]
      exact (leaves_same streams).trans (setStreamInterest_leaves _ _ i)
    by_cases up : cs.interest = ro ∧ cs.hasOutData = true
    · rw [if_pos up, if_pos up]
      exact retune rw
    · rw [if_neg up, if_neg up]
      by_cases down : cs.interest.writable = true ∧ cs.hasOutData = false
      · rw [if_pos down, if_pos down]
        exact retune ro
      · rw [if_neg down, if_neg down]
        exact (leaves_same streams).trans
          (@leaves_insert d _ [] tk { cs with reqMsgs := [] } rfl (by simp))

theorem forwardFates_leaves (order : List Token) :
    Leaves (forwardFates env io order c) c (order.foldl (forward env io) c) := by
  induction order generalizing c with
  | nil => exact leaves_same rfl
  | cons tk order ih => exact forward_leaves.trans ih

theorem head_leaves (hc : c.head env io = .running c') : Leaves (c.headFates env io) c c' := by
  obtain ⟨d, hu, rfl⟩ := head_turns hc
  simp only [headFates, hu]
  refine takeStreams_leaves.trans ?_
  exact (leaves_same (updateInterest_streams hu)).trans (forwardFates_leaves io.order)

variable {ev : Event} {eio : EventIo} {cs : ClientStream}

theorem clientRead_streams :
    (c.clientRead env ev cs eio).1.clientStreams =
      c.clientStreams.insert ev.token (c.clientRead env ev cs eio).2 ∨
    (c.clientRead env ev cs eio).1 = c := by
  simp only [clientRead]
  split
  · exact .inl (dropIfErr_clientStreams _ _ _ _)
  · exact .inr rfl

theorem clientRead_leaves (hl : c.clientStreams.lookup ev.token = some cs) :
    Leaves (c.readFate env ev cs eio) c (c.clientRead env ev cs eio).1 := by
  have own : ∀ f ∈ c.readFate env ev cs eio, f.token = ev.token := by
    intro f hf
    simp only [readFate] at hf
    split at hf
    · split at hf
      · cases hf
      · rw [List.mem_singleton.mp hf]
        rfl
    · cases hf
  rcases @clientRead_streams env c ev eio cs with h | h
  · exact leaves_insert h own
  · rw [h]
    exact ⟨fun _ hk => hk, fun f hf => by rw [holds, own f hf, hl]; rfl⟩

theorem clientWrite_streams : (∃ cs', (c.clientWrite ev cs eio).clientStreams =
      c.clientStreams.insert ev.token cs') ∨
    (c.clientWrite ev cs eio).clientStreams = c.clientStreams := by
  simp only [clientWrite]
  split
  · split
    · exact .inl ⟨_, rfl⟩
    · exact .inr rfl
  · exact .inr rfl

theorem clientWrite_leaves (held : c.holds ev.token) :
    Leaves (c.writeFate ev cs eio) c (c.clientWrite ev cs eio) := by
  have own : ∀ f ∈ c.writeFate ev cs eio, f.token = ev.token := by
    intro f hf
    simp only [writeFate] at hf
    split at hf
    · split at hf
      · cases hf
      · rw [List.mem_singleton.mp hf]
        rfl
    · cases hf
  rcases @clientWrite_streams c ev eio cs with ⟨cs', h⟩ | h
  · exact leaves_insert h own
  · refine ⟨fun tk hk => by rwa [holds, h], fun f hf => ?_⟩
    rw [holds, h, own f hf]
    exact held

theorem workerEvent_streams : (c.workerRead ev eio).2.clientStreams = c.clientStreams ∧
    (c.workerWrite ev eio).2.clientStreams = c.clientStreams := by
  constructor
  · simp only [workerRead]
    split <;> rfl
  · simp only [workerWrite]
    split
    · split <;> rfl
    · rfl

-- what one event of the loop does to its client streams
theorem event_running (hc : c.event env ev eio = .running c') :
    c'.clientStreams = c.clientStreams ∧ c.eventFates env ev eio = [] ∨
      ∃ cs, ev.token ≠ workerStreamTk ∧ c.clientStreams.lookup ev.token = some cs ∧
        c' = (c.clientRead env ev cs eio).1.clientWrite ev (c.clientRead env ev cs eio).2 eio ∧
        c.eventFates env ev eio = c.readFate env ev cs eio ++
          (c.clientRead env ev cs eio).1.writeFate ev (c.clientRead env ev cs eio).2 eio := by
  simp only [eventFates]
  cases event_turns hc with
  | worker token d d' read write =>
    have kept : d.clientStreams = c.clientStreams := by
      have same := (@workerEvent_streams c ev eio).1
      rwa [read] at same
    have wrote : c'.clientStreams = d.clientStreams := by
      have same := (@workerEvent_streams d ev eio).2
      rwa [write] at same
    rw [if_pos token]
    exact .inl ⟨wrote.trans kept, rfl⟩
  | unknown token found =>
    rw [if_neg token, found]
    exact .inl ⟨rfl, rfl⟩
  | client token cs found =>
    rw [if_neg token, found]
    exact .inr ⟨cs, token, rfl, rfl, rfl⟩

theorem event_leaves (hc : c.event env ev eio = .running c') :
    Leaves (c.eventFates env ev eio) c c' := by
  rcases event_running hc with ⟨same, fates⟩ | ⟨cs, -, hl, rfl, fates⟩
  · rw [fates]
    exact leaves_same same
  · rw [fates]
    have read := @clientRead_leaves env c ev eio cs hl
    refine read.trans (clientWrite_leaves (read.kept _ ?_))
    rw [holds, hl]
    rfl

theorem event_others (hc : c.event env ev eio = .running c') {tk : Token} (other : tk ≠ ev.token) :
    c'.clientStreams.lookup tk = c.clientStreams.lookup tk := by
  rcases event_running hc with ⟨same, -⟩ | ⟨cs, -, hl, rfl, -⟩
  · rw [same]
  · have read : (c.clientRead env ev cs eio).1.clientStreams.lookup tk = c.clientStreams.lookup tk := by
      rcases @clientRead_streams env c ev eio cs with h | h
      · rw [h, AList.lookup_insert_ne other]
      · rw [h]
    rw [← read]
    rcases @clientWrite_streams (c.clientRead env ev cs eio).1 ev eio (c.clientRead env ev cs eio).2 with
      ⟨cs', h⟩ | h
    · rw [h, AList.lookup_insert_ne other]
    · rw [h]

-- two loops that may differ in what the poll knows and in what is to be removed
def Alike (c d : Loop) : Prop := d = { c with os := d.os, toRemove := d.toRemove }

theorem sendMsgs_alike {d : Loop} (h : Alike c d) (sessionId : String) (ts : Nat → String)
    (msgs : List RequestMessage) : Alike (msgs.foldl (sendMsg env tk sessionId ts) c)
      (msgs.foldl (sendMsg env tk sessionId ts) d) := by
  induction msgs generalizing c d with
  | nil => exact h
  | cons msg msgs ih =>
    rw [List.foldl_cons, List.foldl_cons]
    refine ih ?_
    rw [Alike] at h
    rw [h]
    rfl

theorem setStreamInterest_alike {d : Loop} (h : Alike c d) (cs : ClientStream) (refused refused' : Bool)
    (i : Interest) : Alike (c.setStreamInterest tk cs refused i) (d.setStreamInterest tk cs refused' i) := by
  rw [Alike] at h
  rw [h]
  simp only [setStreamInterest]
  cases c.os.reregister refused cs.stream tk i with
  | none => cases d.os.reregister refused' cs.stream tk i <;> rfl
  | some os => cases d.os.reregister refused' cs.stream tk i <;> rfl

theorem forward_alike {d : Loop} (h : Alike c d) (io : HeadIo) (refused : Token → Bool) :
    Alike (c.forward env io tk) (d.forward env { io with refused := refused } tk) := by
  have streams : d.clientStreams = c.clientStreams := by
    rw [Alike] at h
    rw [h]
  simp only [forward, streams]
  cases c.clientStreams.lookup tk with
  | none => exact h
  | some cs =>
    have sent := @sendMsgs_alike env c tk d h cs.sessionId io.queueTs cs.reqMsgs
    dsimp only
    split
    · exact setStreamInterest_alike sent _ _ _ rw
    · split
      · exact setStreamInterest_alike sent _ _ _ ro
      · rw [Alike] at sent
        rw [sent]
        rfl

theorem head_alike {d : Loop} {refused : Token → Bool} (hc : c.head env io = .running c')
    (hd : c.head env { io with refused := refused } = .running d) :
    c'.clientStreams = d.clientStreams := by
  obtain ⟨c₁, hu, rfl⟩ := head_turns hc
  obtain ⟨d₁, hu', rfl⟩ := head_turns hd
  cases hu.symm.trans hu'
  have fold : ∀ (order : List Token) {c d : Loop}, Alike c d →
      Alike (order.foldl (forward env io) c)
        (order.foldl (forward env { io with refused := refused }) d) := by
    intro order
    induction order with
    | nil => exact fun h => h
    | cons tk order ih => exact fun h => ih (forward_alike h io refused)
  have h := @fold io.order c₁ c₁ rfl
  rw [Alike] at h
  rw [h]

structure Forgets (fs : List Fate) (c : Loop) : Prop where
  gone : ∀ tk, .failed tk ∈ fs → c.clientStreams.lookup tk = none
  kept : ∀ tk, .opened tk ∈ fs → .failed tk ∉ fs → c.holds tk

theorem forgets_iff (h : ∀ f ∈ fs, c.holds f.token) : Forgets fs c ↔ ∀ tk, .failed tk ∉ fs := by
  constructor
  · intro forgets tk hf
    have held : (c.clientStreams.lookup tk).isSome = true := h _ hf
    rw [forgets.gone tk hf] at held
    cases held
  · intro calm
    exact ⟨fun tk hf => absurd hf (calm tk), fun tk ho _ => h _ ho⟩

end Loop

namespace Daemon

variable {env : Env}

def fates (env : Env) (s : Daemon) (l : Label) : List Fate :=
  match s.flow, l, s.phase with
  | .running c, .head io, _ => c.headFates env io
  | .running c, .event read fds write, .turn (ev :: _) =>
    (c.bindFds fds).eventFates env ev ⟨read, List.range' c.os.next fds, write⟩
  | _, _, _ => []

-- the failure of one client stream is nothing to the others
structure Untouched (env : Env) (s : Daemon) (l : Label) : Prop where
  head : ∀ c c' d io refused, l = .head io → s.flow = .running c → c.head env io = .running c' →
    c.head env { io with refused := refused } = .running d → c'.clientStreams = d.clientStreams
  event : ∀ c c' ev batch read fds write, l = .event read fds write → s.flow = .running c →
    s.phase = .turn (ev :: batch) →
      (c.bindFds fds).event env ev ⟨read, List.range' c.os.next fds, write⟩ = .running c' →
        ∀ tk, tk ≠ ev.token → c'.clientStreams.lookup tk = c.clientStreams.lookup tk

theorem untouched (s : Daemon) (l : Label) : Untouched env s l where
  head _ _ _ _ _ _ _ hc hd := Loop.head_alike hc hd
  event _ _ _ _ _ _ _ _ _ _ hc _ other := Loop.event_others hc other

def Held (fs : List Fate) (s : Daemon) : Prop := ∀ c, s.flow = .running c → ∀ f ∈ fs, c.holds f.token

theorem fates_outer {s : Daemon} {l : Label} (outer : l.outer = true) : fates env s l = [] := by
  cases l with
  | head io => cases outer
  | event read fds write => cases outer
  | _ => cases hf : s.flow <;> simp [fates, hf]

theorem step_held {fs : List Fate} {s s' : Daemon} {l : Label} (h : Held fs s)
    (hs : step env s l = some s') : Held (fs ++ fates env s l) s' := by
  obtain ⟨c, hc, hcase⟩ := step_cases hs
  have held := h c hc
  have leaves : ∀ {c' : Loop} {new : List Fate}, Loop.Leaves new c c' →
      ∀ f ∈ fs ++ new, c'.holds f.token := by
    intro c' new l f hf
    exact (List.mem_append.mp hf).elim (fun hf => l.kept _ (held f hf)) (l.named f)
  have silent : fates env s l = [] → Held fs s' → Held (fs ++ fates env s l) s' := by
    intro hf h'
    rwa [hf, List.append_nil]
  cases hcase.move with
  | head io phase order =>
    have hf : fates env s (.head io) = c.headFates env io := by simp [fates, hc]
    rw [hf]
    exact fun c' hc' => leaves (Loop.head_leaves hc')
  | event read fds write ev batch phase =>
    have hf : fates env s (.event read fds write) =
        (c.bindFds fds).eventFates env ev ⟨read, List.range' c.os.next fds, write⟩ := by
      simp [fates, hc, phase]
    rw [hf]
    exact fun c' hc' => leaves ⟨(Loop.event_leaves hc').kept, (Loop.event_leaves hc').named⟩
  | outside l os phase outer same =>
    refine silent (fates_outer outer) fun c' hc' => ?_
    cases hc'
    exact held
  | pythread msgType msg =>
    refine silent (by simp [fates, hc]) fun c' hc' => ?_
    cases hc'
    exact held

theorem held_run {ls : List Label} {s : Daemon} {fs : List Fate}
    (run : ((machine env).traced (fates env)).exec ls = some (s, fs)) : Held fs s := by
  refine @Machine.invariant _ _ ((machine env).traced (fates env)) (fun p => Held p.2 p.1)
    (fun c hc f hf => by cases hf) (fun p l p' hp hl => ?_) _ _ run
  obtain ⟨hs, heq⟩ := Machine.traced_step hl
  rw [heq]
  exact step_held hp hs

theorem forgets_iff_calm {ls : List Label} {s : Daemon} {fs : List Fate} {c : Loop}
    (run : ((machine env).traced (fates env)).exec ls = some (s, fs)) (running : s.flow = .running c) :
    c.Forgets fs ∧ (machine env).Along (Untouched env) ls ↔ ∀ tk, .failed tk ∉ fs := by
  rw [Loop.forgets_iff (held_run run c running)]
  exact and_iff_left fun pre l post s _ _ => untouched s l

def atHead (s : Daemon) (tk : Token) : Bool :=
  match s.flow, s.phase with
  | .running c, .turn [] => (c.clientStreams.lookup tk).isSome
  | _, _ => false

theorem atHead_running {s : Daemon} {tk : Token} (h : s.atHead tk = true) :
    ∃ c, s.flow = .running c ∧ s.phase = .turn [] ∧ c.holds tk := by
  simp only [atHead] at h
  split at h
  · rename_i c running phase
    exact ⟨c, running, phase, h⟩
  · cases h

def opening : List Label :=
  [.head (loopbackHead []), .master helloBytes, .poll [⟨0, true, false⟩],
    .event ⟨8, false⟩ 1 ⟨none, false⟩, .head (loopbackHead [1]), .poll []]

theorem forgets_iff_calm_opening : ∃ s fs c,
    ((machine loopback).traced (fates loopback)).exec opening = some (s, fs) ∧
      s.flow = .running c ∧ c.holds 1 ∧ c.Forgets fs := by
  have hrun : (((machine loopback).traced (fates loopback)).exec opening).any
      (fun p => p.1.atHead 1 && decide (p.2 = [.opened 1])) = true := by decide +kernel
  obtain ⟨⟨s, fs⟩, run, hp⟩ := (Option.any_eq_true _ _).mp hrun
  obtain ⟨head, opened⟩ := Bool.and_eq_true_iff.mp hp
  obtain ⟨c, running, -, holds⟩ := atHead_running head
  have only : fs = [.opened 1] := of_decide_eq_true opened
  have calm : ∀ tk, .failed tk ∉ fs := by simp [only]
  exact ⟨s, fs, c, run, running, holds, ((forgets_iff_calm run running).mpr calm).1⟩

def hungUp : List Label :=
  opening ++ [.head (loopbackHead [1]), .close 1, .poll [⟨1, true, false⟩],
    .event ⟨1, false⟩ 0 ⟨none, false⟩, .head (loopbackHead [1]), .poll []]

theorem closed_client_kept : ¬ ∀ ls s fs c,
    ((machine loopback).traced (fates loopback)).exec ls = some (s, fs) →
      s.flow = .running c → s.phase = .turn [] →
        c.Forgets fs ∧ (machine loopback).Along (Untouched loopback) ls := by
  have hrun : (((machine loopback).traced (fates loopback)).exec hungUp).any
      (fun p => p.1.atHead 1 && decide (.failed 1 ∈ p.2)) = true := by decide +kernel
  obtain ⟨⟨s, fs⟩, run, hp⟩ := (Option.any_eq_true _ _).mp hrun
  obtain ⟨head, failed⟩ := Bool.and_eq_true_iff.mp hp
  obtain ⟨c, running, phase, holds⟩ := atHead_running head
  intro h
  rw [Loop.holds, (h hungUp s fs c run running phase).1.gone 1 (of_decide_eq_true failed)] at holds
  cases holds

end Daemon
end PyProxy.Worker
