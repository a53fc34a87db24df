import PyProxy.Client.Wire

namespace PyProxy.Client
open Stream Protocol

namespace Loop

-- what a step takes off the main stream
def reads (c : Loop) : Label → List UInt8
  | .event ev io =>
    if ev.token = mainStreamTk then
      match c.mainWrite ev io with
      | .error _ => []
      | .ok _ =>
        match io.read with
        | .error _ => []
        | .ok bytes => bytes
    else []
  | _ => []

def pends (c : Loop) (id : String) : Prop := (c.pendingFutures.lookup id).isSome = true

-- a loop that no answer has reached, which has sent for those `asked`
structure Waits (c : Loop) (asked : List CodeString) : Prop where
  inbuffer : c.mainStream.inbuffer = []
  respMsgs : c.mainStream.respMsgs = []
  futures : c.futures = []
  pends : ∀ m ∈ asked, c.pends m.futureId

variable {bc : Bincode} {c : Loop} {asked : List CodeString}

theorem new_waits : new.Waits [] := ⟨rfl, rfl, rfl, List.forall_mem_nil _⟩

theorem Waits.takeEval (h : c.Waits asked) (msg : EvalCode) :
    (c.takeEval bc msg).Waits (asked ++ [msg.msg]) := by
  refine ⟨h.inbuffer, h.respMsgs, h.futures, fun m hm => ?_⟩
  rw [Loop.pends, Loop.takeEval, AList.lookup_isSome, AList.mem_insert]
  rcases List.mem_append.mp hm with hm | hm
  · exact .inr (AList.lookup_isSome.mp (h.pends m hm))
  · exact .inl (congrArg CodeString.futureId (List.mem_singleton.mp hm))

theorem Waits.takeCode (h : c.Waits asked) :
    (c.takeCode bc).Waits (asked ++ c.codeRecv.map EvalCode.msg) := by
  have fold : ∀ (msgs : List EvalCode) (asked : List CodeString) (c : Loop), c.Waits asked →
      (msgs.foldl (Loop.takeEval bc) c).Waits (asked ++ msgs.map EvalCode.msg) := by
    intro msgs
    induction msgs with
    | nil =>
      intro asked c h
      rwa [List.map_nil, List.append_nil]
    | cons msg msgs ih =>
      intro asked c h
      have more := ih _ _ (@Waits.takeEval bc _ _ h msg)
      rwa [List.append_assoc] at more
  exact fold c.codeRecv asked { c with codeRecv := [] } ⟨h.inbuffer, h.respMsgs, h.futures, h.pends⟩

theorem Waits.resolve (h : c.Waits asked) : c.resolve.Waits asked := by
  rw [Loop.resolve, h.respMsgs, List.foldl_nil]
  exact ⟨h.inbuffer, rfl, h.futures, h.pends⟩

theorem Waits.head (h : c.Waits asked) (io : HeadIo) :
    (c.head bc io).state.Waits (asked ++ c.takes (.head io)) := by
  have taken := @Waits.takeCode bc _ _ h
  rcases c.head_cases bc io with ⟨closed, hs⟩ | ⟨hclose, -, hs⟩ | ⟨hclose, -, i, hs⟩
  · have none : c.takes (.head io) = [] := by
      cases hio : io.close with
      | empty => exact absurd hio closed
      | ok => simp [takes, hio]
      | disconnected => simp [takes, hio]
    rw [hs, none, List.append_nil]
    exact h
  · rw [hs]
    simpa [takes, hclose, Flow.state] using taken
  · rw [hs]
    have resolved := taken.resolve
    have all : c.takes (.head io) = c.codeRecv.map EvalCode.msg := by simp [takes, hclose]
    rw [all]
    exact ⟨resolved.inbuffer, resolved.respMsgs, resolved.futures, resolved.pends⟩

theorem Waits.event (h : c.Waits asked) {ev : Event} {io : EventIo} (silent : c.reads (.event ev io) = []) :
    (c.event bc ev io).state.Waits asked := by
  simp only [Loop.event]
  split
  · rename_i token
    simp only [reads, token, if_true] at silent
    simp only [mainEvent]
    cases hw : c.mainWrite ev io with
    | error e => exact h
    | ok d =>
      have written : d.Waits asked := by
        simp only [mainWrite] at hw
        split at hw
        · cases hio : io.write with
          | error e => simp [hio, MainStream.write, fatalIoError] at hw
          | ok n =>
            simp only [hio, MainStream.write, fatalIoError] at hw
            cases hw
            exact ⟨h.inbuffer, h.respMsgs, h.futures, h.pends⟩
        · cases hw
          exact h
      rw [hw] at silent
      dsimp only at silent
      cases hr : io.read with
      | error e => exact written
      | ok bytes =>
        rw [hr] at silent
        cases silent
        exact written
  · split
    · simp only [outputEvent]
      split
      · exact ⟨h.inbuffer, h.respMsgs, h.futures, h.pends⟩
      · split
        · exact ⟨h.inbuffer, h.respMsgs, h.futures, h.pends⟩
        · exact ⟨h.inbuffer, h.respMsgs, h.futures, h.pends⟩
    · exact h

-- the main stream's events are read from whether there is anything to read or not
theorem event_fails {ev : Event} {io : EventIo} (token : ev.token = mainStreamTk)
    (silent : c.reads (.event ev io) = []) : (c.event bc ev io).Failed := by
  simp only [reads, token, if_true] at silent
  simp only [Loop.event, token, if_true, mainEvent]
  cases hw : c.mainWrite ev io with
  | error e => exact ⟨c, e, rfl⟩
  | ok d =>
    rw [hw] at silent
    dsimp only at silent
    cases hr : io.read with
    | error e => exact ⟨_, _, rfl⟩
    | ok bytes =>
      rw [hr] at silent
      cases silent
      exact ⟨_, _, rfl⟩

theorem Waits.step (h : c.Waits asked) {l : Label} (silent : c.reads l = []) :
    (c.step bc l).state.Waits (asked ++ c.takes l) := by
  cases l with
  | evalStr id code locals globals =>
    simp only [takes, List.append_nil]
    exact ⟨h.inbuffer, h.respMsgs, h.futures, h.pends⟩
  | head io => exact h.head io
  | event ev io =>
    simp only [takes, List.append_nil]
    exact h.event silent

end Loop
end PyProxy.Client
