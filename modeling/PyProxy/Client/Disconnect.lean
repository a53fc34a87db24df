import PyProxy.Client.PyProxyClient

namespace PyProxy.Client.Handle
open Protocol Rpc

variable {bc : Bincode} {conn : PyConnection} {p p' : PyProxyClient}

-- the thread is told to stop: it has been asked to, nobody holds the client any more, or it has ended
def Stopping (p : PyProxyClient) : Prop := 0 < p.closeSend ∨ p.dropped = true ∨ p.thread.receives = false

-- what the loop may still do once it is told to stop: write what it has already queued
structure Abandons (c c' : Loop) : Prop where
  futures : c'.futures = c.futures
  pending : c'.pendingFutures = c.pendingFutures
  waiting : c.codeRecv <+: c'.codeRecv
  written : c'.mainStream.outbuffer <:+ c.mainStream.outbuffer

namespace Abandons

variable {c c' c'' : Loop}

theorem refl (c : Loop) : Abandons c c := ⟨rfl, rfl, List.prefix_rfl, List.suffix_rfl⟩

theorem trans (h : Abandons c c') (h' : Abandons c' c'') : Abandons c c'' where
  futures := h'.futures.trans h.futures
  pending := h'.pending.trans h.pending
  waiting := h.waiting.trans h'.waiting
  written := h'.written.trans h.written

theorem event (c : Loop) (ev : Event) (io : EventIo) : Abandons c (c.event bc ev io).state := by
  obtain ⟨wrote, same⟩ := @Loop.event_spec bc c ev io
  obtain ⟨m, o, t, hs, -⟩ := c.event_frame bc ev io
  refine ⟨?_, ?_, same ▸ List.prefix_rfl, ⟨_, wrote⟩⟩
  · rw [hs]
  · rw [hs]

end Abandons

theorem Stopping.close (h : Stopping p) {c : Loop} (looping : p.thread = .looping c) {io : HeadIo}
    (answers : p.answers (.head io) = true) : c.head bc io = .returned c (.ok ()) := by
  obtain ⟨close, -⟩ := Bool.and_eq_true_iff.mp answers
  rw [decide_eq_true_eq, PyProxyClient.closeRecv] at close
  rcases h with asked | dropped | ended
  · rw [if_pos asked] at close
    simp only [Loop.head, close]
  · rw [if_pos dropped] at close
    split at close
    · simp only [Loop.head, close]
    · simp only [Loop.head, close]
  · rw [looping] at ended
    cases ended

theorem Stopping.thread {l : Label} (h : Stopping p) (hs : stepThread bc conn p l = some p') :
    Stopping p' ∧ Abandons p.thread.loop p'.thread.loop := by
  have kept : ∀ {t : Background}, (p.thread.receives = false → t.receives = false) →
      Stopping { p with thread := t } := by
    intro t gone
    rcases h with asked | dropped | ended
    · exact .inl asked
    · exact .inr (.inl dropped)
    · exact .inr (.inr (gone ended))
  cases l with
  | start io =>
    simp only [stepThread] at hs
    split at hs
    · rename_i c starting
      split at hs
      · cases hs
        refine ⟨kept fun ended => ?_, ?_⟩
        · rw [starting] at ended
          cases ended
        · rw [starting]
          exact .refl c
      · cases hs
        refine ⟨kept fun _ => rfl, ?_⟩
        rw [starting]
        exact .refl c
    · cases hs
  | thread l =>
    simp only [stepThread] at hs
    split at hs
    · rename_i c looping
      obtain ⟨answers, eq⟩ := Option.ite_none_right_eq_some.mp hs
      cases eq
      refine ⟨kept fun ended => ?_, ?_⟩
      · rw [looping] at ended
        cases ended
      · rw [looping, ofFlow_loop]
        cases l with
        | evalStr => cases answers
        | head io =>
          rw [Loop.step, h.close looping answers]
          exact .refl c
        | event ev io => exact .event c ev io
    · cases hs
  | finish =>
    simp only [stepThread] at hs
    split at hs
    · rename_i c res returned
      cases hs
      refine ⟨kept fun _ => rfl, ?_⟩
      rw [returned]
      exact .refl c
    · cases hs
  | _ => cases hs

theorem checkThread_keeps (p : PyProxyClient) : p.checkThread.2.closeSend = p.closeSend ∧
    p.checkThread.2.dropped = p.dropped ∧ p.checkThread.2.thread = p.thread := by
  rcases checkThread_cases p with ⟨-, eq⟩ | ⟨-, -, eq⟩ | ⟨c, res, -, -, eq⟩ <;> rw [eq] <;> exact ⟨rfl, rfl, rfl⟩

theorem Stopping.process {l : Label} (h : Stopping p) (hs : stepProcess p l = some p') :
    Stopping p' ∧ Abandons p.thread.loop p'.thread.loop := by
  obtain ⟨close, dropped, thread⟩ := checkThread_keeps p
  have same : ∀ {q : PyProxyClient}, q.closeSend = p.closeSend → q.dropped = p.dropped → q.thread = p.thread →
      Stopping q ∧ Abandons p.thread.loop q.thread.loop := by
    intro q close dropped thread
    rw [Stopping, close, dropped, thread]
    exact ⟨h, .refl _⟩
  cases l with
  | checkThread =>
    cases hs
    exact same close dropped thread
  | evalStr id code locs globs =>
    cases hs
    generalize hr : p.evalStr id code locs globs = r
    have eval := evalStr_cases p id code locs globs
    rw [hr] at eval
    cases eval with
    | refused => exact same close dropped thread
    | closed => exact same rfl rfl rfl
    | accepted =>
      refine ⟨?_, ?_⟩
      · rw [Stopping, withLoop_receives]
        exact h
      · rw [withLoop_loop]
        exact ⟨rfl, rfl, List.prefix_append _ _, List.suffix_rfl⟩
  | nextOutput =>
    cases hs
    exact same rfl rfl rfl
  | disconnect =>
    cases hs
    simp only [PyProxyClient.disconnect]
    split
    · exact ⟨.inl (Nat.succ_pos _), .refl _⟩
    · exact same rfl rfl rfl
  | drop =>
    cases hs
    exact ⟨.inr (.inl rfl), .refl _⟩
  | _ => cases hs

-- a client once made, and told to stop
structure Stopped (c : Loop) (s : Handle) : Prop where
  made : s.inner = false
  stopping : ∃ p, s.client = some p ∧ Stopping p ∧ Abandons c p.thread.loop

theorem Stopped.step {s s' : Handle} {l : Label} {c : Loop} (h : Stopped c s) (hs : step bc s l = some s') :
    Stopped c s' := by
  obtain ⟨made, q, known, stopping, abandons⟩ := h
  cases step_cases hs with
  | new spawn =>
    simp only [Handle.new, made, Bool.false_eq_true, if_false]
    exact ⟨made, q, known, stopping, abandons⟩
  | thread l p p' client moved =>
    cases known.symm.trans client
    obtain ⟨still, more⟩ := stopping.thread moved
    exact ⟨made, p', rfl, still, abandons.trans more⟩
  | process l p p' client held called =>
    cases known.symm.trans client
    obtain ⟨still, more⟩ := stopping.process called
    exact ⟨made, p', rfl, still, abandons.trans more⟩

-- an answer has been read, but the client disconnects before the loop comes to it
def answered : List Label := [.new (.ok ()), .start started, .evalStr "a" "x" [] [],
  .thread (.head quietHead), .thread readSeven]

end PyProxy.Client.Handle
