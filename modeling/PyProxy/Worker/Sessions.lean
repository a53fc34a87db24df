import PyProxy.Worker.Daemon
import PyProxy.Worker.Ports

namespace PyProxy.Worker
open Protocol Server Poll

-- a random value, with the token of the client stream it was drawn for
abbrev Draw := Token × Vector UInt8 sessionIdLength

namespace Loop

def drawnFor (io : HeadIo) (first last : Token) : List Draw :=
  (List.range' first (last - first)).map fun tk => (tk, io.rng tk)

structure Sessions (hex : List UInt8 → String) (drawn : List Draw) (c : Loop) : Prop where
  once : (drawn.map Prod.fst).Nodup
  below : ∀ d ∈ drawn, d.1 < c.tokenIo
  streams : ∀ tk p, c.port tk = some p → ∃ rnd, (tk, rnd) ∈ drawn ∧ p.sessionId = hex rnd.toList
  sent : ∀ q ∈ c.threadSender, ∃ rnd, (q.token, rnd) ∈ drawn ∧ q.sessionId = hex rnd.toList

variable {env : Env} {hex : List UInt8 → String} {drawn new : List Draw} {c c' : Loop} {io : HeadIo}

theorem drawnFor_append {a b d : Nat} (hab : a ≤ b) (hbd : b ≤ d) :
    drawnFor io a b ++ drawnFor io b d = drawnFor io a d := by
  have h := @List.range'_append_1 a (b - a) (d - b)
  rw [show a + (b - a) = b by omega, show b - a + (d - b) = d - a by omega] at h
  rw [drawnFor, drawnFor, drawnFor, ← List.map_append, h]

theorem drawnFor_nil (a : Token) : drawnFor io a a = [] := by simp [drawnFor]

theorem drawnFor_succ (a : Token) : drawnFor io a (a + 1) = [(a, io.rng a)] := by simp [drawnFor]

namespace Sessions

theorem next (h : Sessions hex drawn c) (rnd : Vector UInt8 sessionIdLength) :
    ((drawn ++ [(c.tokenIo, rnd)]).map Prod.fst).Nodup ∧
      ∀ d ∈ drawn ++ [(c.tokenIo, rnd)], d.1 < c.tokenIo + 1 := by
  constructor
  · rw [List.map_append]
    refine List.Nodup.append h.once (List.nodup_singleton _) fun tk htk hnew => ?_
    obtain ⟨d, hd, rfl⟩ := List.mem_map.mp htk
    exact Nat.ne_of_lt (h.below d hd) (List.mem_singleton.mp hnew)
  · intro d hd
    rcases List.mem_append.mp hd with hd | hd
    · exact Nat.lt_succ_of_lt (h.below d hd)
    · rw [List.mem_singleton.mp hd]
      exact Nat.lt_succ_self _

theorem takeStream (h : Sessions env.hex drawn c) (msg : Vector UInt8 requestHeaderSize × Sock) :
    Sessions env.hex (drawn ++ drawnFor io c.tokenIo (c.takeStream env io msg).tokenIo)
        (c.takeStream env io msg) ∧ c.tokenIo ≤ (c.takeStream env io msg).tokenIo := by
  have old : ∀ {tk : Token} {id : String} (new : List Draw),
      (∃ rnd, (tk, rnd) ∈ drawn ∧ id = env.hex rnd.toList) →
        ∃ rnd, (tk, rnd) ∈ drawn ++ new ∧ id = env.hex rnd.toList :=
    fun new ⟨rnd, hrnd, hid⟩ => ⟨rnd, List.mem_append_left _ hrnd, hid⟩
  rcases c.takeStream_cases env io msg with he | he | ⟨cs, hport, -, -, hid, he⟩
  · rw [he, drawnFor_nil, List.append_nil]
    exact ⟨h, Nat.le_refl _⟩
  · rw [he, drawnFor_succ]
    obtain ⟨once, below⟩ := h.next (io.rng c.tokenIo)
    exact ⟨⟨once, below, fun tk p hp => old _ (h.streams tk p hp), fun q hq => old _ (h.sent q hq)⟩,
      Nat.le_succ _⟩
  · rw [he, show (c.addStream _ _ _ _).tokenIo = c.tokenIo + 1 from rfl, drawnFor_succ]
    obtain ⟨once, below⟩ := h.next (io.rng c.tokenIo)
    refine ⟨⟨once, below, fun tk p hp => ?_, fun q hq => old _ (h.sent q hq)⟩, Nat.le_succ _⟩
    rw [port, Loop.addStream, portOf_insert] at hp
    split at hp
    · rename_i htk
      cases hp
      exact ⟨io.rng c.tokenIo, by simp [htk], hid⟩
    · exact old _ (h.streams tk p hp)

theorem takeStreams (h : Sessions env.hex drawn c) (io : HeadIo) :
    Sessions env.hex (drawn ++ drawnFor io c.tokenIo (c.takeStreams env io).tokenIo)
      (c.takeStreams env io) := by
  have fold : ∀ (msgs : List (Vector UInt8 requestHeaderSize × Sock)) {drawn c},
      Sessions env.hex drawn c →
        Sessions env.hex (drawn ++ drawnFor io c.tokenIo (msgs.foldl (Loop.takeStream env io) c).tokenIo)
            (msgs.foldl (Loop.takeStream env io) c) ∧
          c.tokenIo ≤ (msgs.foldl (Loop.takeStream env io) c).tokenIo := by
    intro msgs
    induction msgs with
    | nil =>
      intro drawn c h
      rw [List.foldl_nil, drawnFor_nil, List.append_nil]
      exact ⟨h, Nat.le_refl _⟩
    | cons msg msgs ih =>
      intro drawn c h
      obtain ⟨first, hle⟩ := @takeStream env drawn c io h msg
      obtain ⟨rest, hle'⟩ := ih first
      rw [List.append_assoc, drawnFor_append hle hle'] at rest
      exact ⟨rest, Nat.le_trans hle hle'⟩
  have base : Sessions env.hex drawn { c with workerStream := { c.workerStream with newMsgs := [] } } :=
    ⟨h.once, h.below, h.streams, h.sent⟩
  exact (fold c.workerStream.newMsgs base).1

theorem frame (h : Sessions hex drawn c) (tokenIo : c'.tokenIo = c.tokenIo)
    (port : ∀ tk p', c'.port tk = some p' → ∃ p, c.port tk = some p ∧ p'.sessionId = p.sessionId)
    (sent : c'.threadSender = c.threadSender) : Sessions hex drawn c' where
  once := h.once
  below d hd := by
    rw [tokenIo]
    exact h.below d hd
  streams tk p' hp' := by
    obtain ⟨p, hp, hid⟩ := port tk p' hp'
    rw [hid]
    exact h.streams tk p hp
  sent q hq := h.sent q (sent ▸ hq)

theorem same (h : Sessions hex drawn c) (s : Same c c') : Sessions hex drawn c' :=
  h.frame s.tokenIo (fun tk p' hp' => ⟨p', (s.port tk).symm.trans hp', rfl⟩) s.sent

theorem forward (h : Sessions hex drawn c) (io : HeadIo) (tk : Token) :
    Sessions hex drawn (c.forward env io tk) := by
  cases hl : c.clientStreams.lookup tk with
  | none =>
    rw [c.forward_none env io hl]
    exact h
  | some cs =>
    refine Sessions.same ?_ (c.forward_some env io hl)
    have hp : c.port tk = some cs.port := by simp [Loop.port, portOf, hl]
    obtain ⟨rnd, hrnd, hid⟩ := h.streams tk _ hp
    refine ⟨h.once, h.below, fun tk' p hp' => ?_, fun q hq => ?_⟩
    · rw [port, forwarded, portOf_insert] at hp'
      split at hp'
      · rename_i htk
        cases hp'
        exact ⟨rnd, htk ▸ hrnd, hid⟩
      · exact h.streams tk' p hp'
    · rcases List.mem_append.mp hq with hq | hq
      · exact h.sent q hq
      · obtain ⟨msg, -, rfl⟩ := List.mem_map.mp hq
        exact ⟨rnd, hrnd, hid⟩

theorem head (h : Sessions env.hex drawn c) (io : HeadIo) (hc : c.head env io = .running c') :
    Sessions env.hex (drawn ++ drawnFor io c.tokenIo (c.takeStreams env io).tokenIo) c' := by
  obtain ⟨d, hu, rfl⟩ := head_turns hc
  have hd := (h.takeStreams io).same (same_updateInterest hu)
  exact List.foldlRecOn io.order _ hd fun _ hd tk _ => hd.forward io tk

theorem received (h : Sessions hex drawn c) {tk : Token} {cs : ClientStream} (n : Nat)
    (hl : c.clientStreams.lookup tk = some cs) : Sessions hex drawn (c.received env tk cs n) := by
  refine h.frame rfl (fun tk' p hp => ?_) rfl
  rw [port, Loop.received, portOf_insert] at hp
  split at hp
  · rename_i htk
    subst htk
    cases hp
    exact ⟨cs.port, by simp [port, portOf, hl], rfl⟩
  · exact ⟨p, hp, rfl⟩

theorem event (h : Sessions hex drawn c) {ev : Event} {io : EventIo}
    (hc : c.event env ev io = .running c') : Sessions hex drawn c' := by
  cases event_turns hc with
  | worker token d d' read write =>
    have near := c.workerRead_near ev io
    have same := d.workerWrite_same ev io
    rw [read] at near
    rw [write] at same
    have hd : Sessions hex drawn d :=
      h.frame near.tokenIo (fun tk p' hp' => ⟨p', (near.port tk).symm.trans hp', rfl⟩) near.sent
    exact hd.same same
  | unknown token found => exact h
  | client token cs found =>
    obtain ⟨hl', hs⟩ := c.clientRead_spec env io found
    have hr : Sessions hex drawn (c.clientRead env ev cs io).1 := by
      rcases hs with hs | ⟨n, hs⟩
      · exact h.same hs
      · exact (@received env _ _ _ h _ _ n found).same hs
    exact hr.same (clientWrite_same io hl')

end Sessions
end Loop

namespace Daemon

variable {env : Env}

def drawn (env : Env) (s : Daemon) (l : Label) : List Draw :=
  match s.flow, l with
  | .running c, .head io => Loop.drawnFor io c.tokenIo (c.takeStreams env io).tokenIo
  | _, _ => []

def Sessions (env : Env) (ds : List Draw) (s : Daemon) : Prop :=
  ∀ c, s.flow = .running c → c.Sessions env.hex ds

theorem drawn_outer {s : Daemon} {l : Label} (outer : l.outer = true) : drawn env s l = [] := by
  cases l with
  | head io => cases outer
  | _ => cases hf : s.flow <;> simp [drawn, hf]

theorem start_sessions : start.Sessions env.hex [] where
  once := List.nodup_nil
  below := by simp
  streams tk p h := by cases h
  sent q h := by cases h

theorem step_sessions {ds : List Draw} {s s' : Daemon} {l : Label}
    (h : Sessions env ds s) (hs : step env s l = some s') :
    Sessions env (ds ++ drawn env s l) s' := by
  obtain ⟨c, hc, hcase⟩ := step_cases hs
  have hsess := h c hc
  have silent : drawn env s l = [] → Sessions env ds s' → Sessions env (ds ++ drawn env s l) s' := by
    intro hd h'
    rw [hd, List.append_nil]
    exact h'
  have unsent : ∀ {c' : Loop}, Loop.Sessions env.hex ds { c with os := c'.os, workerStream := c'.workerStream } :=
    ⟨hsess.once, hsess.below, hsess.streams, hsess.sent⟩
  cases hcase.move with
  | head io phase order =>
    have hd : drawn env s (.head io) = Loop.drawnFor io c.tokenIo (c.takeStreams env io).tokenIo := by
      simp [drawn, hc]
    rw [hd]
    exact fun c' hc' => hsess.head io hc'
  | event read fds write ev batch phase =>
    refine silent (by simp [drawn, hc]) fun c' hc' => ?_
    exact (@unsent (c.bindFds fds)).event hc'
  | pythread msgType msg =>
    refine silent (by simp [drawn, hc]) fun c' hc' => ?_
    cases hc'
    exact @unsent (c.pythread msgType msg)
  | outside l os phase outer same =>
    refine silent (drawn_outer outer) fun c' hc' => ?_
    cases hc'
    exact @unsent { c with os := os }

theorem sessions_run {ls : List Label} {s : Daemon} {ds : List Draw}
    (run : ((machine env).traced (drawn env)).exec ls = some (s, ds)) : Sessions env ds s := by
  refine @Machine.invariant _ _ ((machine env).traced (drawn env)) (fun p => Sessions env p.2 p.1)
    (fun c hc => ?_) (fun p l p' hp hl => ?_) _ _ run
  · cases hc
    exact start_sessions
  · obtain ⟨hs, heq⟩ := Machine.traced_step hl
    rw [heq]
    exact step_sessions hp hs

theorem sent_session {ls : List Label} {s : Daemon} {ds : List Draw} {c : Loop} {q : Sent}
    {rnd : Vector UInt8 sessionIdLength}
    (run : ((machine env).traced (drawn env)).exec ls = some (s, ds)) (running : s.flow = .running c)
    (drew : (q.token, rnd) ∈ ds) (sent : q ∈ c.threadSender) : q.sessionId = env.hex rnd.toList := by
  have h := sessions_run run c running
  obtain ⟨rnd', hmem, hid⟩ := h.sent q sent
  have heq := List.inj_on_of_nodup_map h.once hmem drew rfl
  rw [hid, (Prod.mk.inj heq).2]

end Daemon
end PyProxy.Worker
