import PyProxy.Client.Futures
import PyProxy.Stream.Link

namespace PyProxy.Client
open Stream Protocol

structure Session where
  client : Flow Error Loop
  mainIn : List UInt8
  mainLeft : List UInt8
  outputIn : List UInt8
  outputLeft : List UInt8

inductive SessionLabel where
  | evalStr (id code : String) (locals globals : List UInt8)
  | mainArrive (n : Nat)
  | outputArrive (n : Nat)
  | head (close : TryRecv) (codeDisconnected : Bool)
  | mainEvent (readable writable : Bool) (write : IoResult Nat) (chunk : Nat)
  | outputEvent (chunk : Nat) (threadAlive : Bool)

def readResult (available : List UInt8) (chunk : Nat) : IoResult (List UInt8) :=
  if available = [] then .error .wouldBlock else .ok (available.take chunk)

def writeAllowed (outbuffer : List UInt8) : IoResult Nat → Bool
  | .ok n => n ≤ outbuffer.length
  | .error e => e = .wouldBlock

def chunkAllowed (chunk : Nat) : Bool := 1 ≤ chunk ∧ chunk ≤ 4096

namespace Session

variable (bc : Bincode)

def mainEvent (readable writable : Bool) : Event := ⟨mainStreamTk, readable, writable⟩

def outputEvent : Event := ⟨outputStreamTk, true, false⟩

def step (s : Session) (l : SessionLabel) : Option Session :=
  match s.client with
  | .returned _ _ => none
  | .running c =>
    match l with
    | .evalStr id code locals globals =>
      some { s with client := c.step bc (.evalStr id code locals globals) }
    | .mainArrive n =>
      some { s with mainIn := s.mainIn ++ s.mainLeft.take n, mainLeft := s.mainLeft.drop n }
    | .outputArrive n =>
      some { s with outputIn := s.outputIn ++ s.outputLeft.take n, outputLeft := s.outputLeft.drop n }
    | .head close codeDisconnected =>
      some { s with client := c.step bc (.head ⟨close, codeDisconnected, .ok (), .ok ()⟩) }
    | .mainEvent readable writable write chunk =>
      if (readable || writable) && writeAllowed c.mainStream.outbuffer write && chunkAllowed chunk then
        some { s with
          client := c.step bc (.event (mainEvent readable writable)
            ⟨write, readResult s.mainIn chunk, true⟩)
          mainIn := s.mainIn.drop chunk }
      else none
    | .outputEvent chunk threadAlive =>
      if s.outputIn ≠ [] ∧ chunkAllowed chunk then
        some { s with
          client := c.step bc (.event outputEvent
            ⟨.error .wouldBlock, readResult s.outputIn chunk, threadAlive⟩)
          outputIn := s.outputIn.drop chunk }
      else none

def machine (mainSrc : List (List UInt8 × ResponseMessage))
    (outputSrc : List (List UInt8 × PipeOut)) : Machine Session SessionLabel where
  init := ⟨.running .new, [], Framer.stream mainSrc, [], Framer.stream outputSrc⟩
  step := step bc

def Ready (s : Session) : SessionLabel → Prop
  | .mainEvent _ writable write _ => s.mainIn ≠ [] ∧ (writable = true → write ≠ .error .wouldBlock)
  | _ => True

structure WellFed (mainSrc : List (List UInt8 × ResponseMessage))
    (outputSrc : List (List UInt8 × PipeOut)) (s : Session) : Prop where
  main : ∃ got, Link.Sound (MainStream.framer bc)
    ⟨mainSrc, s.mainLeft, s.mainIn, s.client.state.mainStream.inbuffer, got⟩
  output : ∃ got, Link.Sound OutputStream.framer
    ⟨outputSrc, s.outputLeft, s.outputIn, s.client.state.outputStream.buffer, got⟩

end Session

theorem Loop.head_not_failed (bc : Bincode) (c : Loop) (close : TryRecv) (codeDisconnected : Bool) :
    ¬ (c.head bc ⟨close, codeDisconnected, .ok (), .ok ()⟩).Failed := by
  have hu : ∀ c : Loop, ∃ c', c.updateInterest (.ok ()) = .ok c' := by
    intro c
    simp only [updateInterest, fatalIoError]
    split
    · exact ⟨_, rfl⟩
    · split <;> exact ⟨_, rfl⟩
  cases close with
  | ok => exact Flow.not_failed_ok
  | disconnected => exact Flow.not_failed_ok
  | empty =>
    cases codeDisconnected with
    | true => exact Flow.not_failed_ok
    | false =>
      obtain ⟨c', hc⟩ := hu (c.takeCode bc).resolve
      simp only [head, hc, fatalIoError]
      exact Flow.not_failed_running

theorem Loop.head_buffers (bc : Bincode) (c : Loop) (io : HeadIo) :
    (c.head bc io).state.mainStream.inbuffer = c.mainStream.inbuffer ∧
      (c.head bc io).state.outputStream = c.outputStream := by
  obtain ⟨o, p, hc⟩ := c.takeCode_frame bc
  rcases c.head_cases bc io with ⟨-, hs⟩ | ⟨-, -, hs⟩ | ⟨-, -, i, hs⟩
  · rw [hs]
    exact ⟨rfl, rfl⟩
  · rw [hs, hc]
    exact ⟨rfl, rfl⟩
  · obtain ⟨p', f, hr⟩ := (c.takeCode bc).resolve_frame
    rw [hs, hr, hc]
    exact ⟨rfl, rfl⟩

theorem MainStream.read_ok {bc : Bincode} {s : MainStream} {bytes : List UInt8} (hne : bytes ≠ [])
    (h : ((framer bc).drain (s.inbuffer ++ bytes)).err = none) :
    s.read bc (.ok bytes) = (.ok (), { s with
      inbuffer := ((framer bc).drain (s.inbuffer ++ bytes)).rest
      respMsgs := s.respMsgs ++ ((framer bc).drain (s.inbuffer ++ bytes)).msgs }) := by
  cases bytes with
  | nil => exact absurd rfl hne
  | cons b bs => simp only [read, h]

theorem Loop.mainWrite_ok (c : Loop) {ev : Event} {io : EventIo}
    (h : ev.writable = true → ∃ n, io.write = .ok n) :
    ∃ o, c.mainWrite ev io = .ok { c with mainStream := { c.mainStream with outbuffer := o } } := by
  cases hw : ev.writable with
  | false => exact ⟨c.mainStream.outbuffer, by simp [mainWrite, hw]⟩
  | true =>
    obtain ⟨n, hn⟩ := h hw
    refine ⟨compact n c.mainStream.outbuffer, ?_⟩
    simp only [mainWrite, hw, hn, MainStream.write, fatalIoError, if_true]

theorem Loop.mainEvent_refused {bc : Bincode} {c : Loop} {ev : Event} {io : EventIo} {e : IoError}
    (hw : ev.writable = true) (h : io.write = .error e) : (c.mainEvent bc ev io).Failed := by
  simp only [mainEvent, mainWrite, hw, h, MainStream.write, fatalIoError, if_true]
  exact ⟨_, _, rfl⟩

theorem Loop.mainEvent_starved {bc : Bincode} {c : Loop} {ev : Event} {io : EventIo} {e : IoError}
    (h : io.read = .error e) : (c.mainEvent bc ev io).Failed := by
  cases hw : c.mainWrite ev io with
  | error e =>
    simp only [mainEvent, hw]
    exact ⟨_, _, rfl⟩
  | ok c' =>
    simp only [mainEvent, hw, h, MainStream.read]
    exact ⟨_, _, rfl⟩

theorem Loop.mainEvent_fed {bc : Bincode} {c : Loop} {ev : Event} {io : EventIo}
    {bytes : List UInt8} (hw : ev.writable = true → ∃ n, io.write = .ok n)
    (hr : io.read = .ok bytes) (hne : bytes ≠ [])
    (he : ((MainStream.framer bc).drain (c.mainStream.inbuffer ++ bytes)).err = none) :
    ∃ c', c.mainEvent bc ev io = .running c' ∧ c'.outputStream = c.outputStream ∧
      c'.mainStream.inbuffer =
        ((MainStream.framer bc).drain (c.mainStream.inbuffer ++ bytes)).rest := by
  obtain ⟨o, hc⟩ := c.mainWrite_ok hw
  obtain ⟨msgs, hread⟩ : ∃ msgs, ({ c.mainStream with outbuffer := o } : MainStream).read bc (.ok bytes) =
      (.ok (), { c.mainStream with
        outbuffer := o
        inbuffer := ((MainStream.framer bc).drain (c.mainStream.inbuffer ++ bytes)).rest
        respMsgs := msgs }) := ⟨_, MainStream.read_ok hne he⟩
  have hev : c.mainEvent bc ev io = .running { c with mainStream := { c.mainStream with
      outbuffer := o
      inbuffer := ((MainStream.framer bc).drain (c.mainStream.inbuffer ++ bytes)).rest
      respMsgs := msgs } } := by simp only [mainEvent, hc, hr, hread]
  exact ⟨_, hev, rfl, rfl⟩

theorem Loop.outputEvent_fed {c : Loop} {io : EventIo} {bytes : List UInt8}
    (hr : io.read = .ok bytes) (hne : bytes ≠ [])
    (he : (OutputStream.framer.drain (c.outputStream.buffer ++ bytes)).err = none) :
    ¬ (c.outputEvent io).Failed ∧ (c.outputEvent io).state.mainStream = c.mainStream ∧
      (c.outputEvent io).state.outputStream.buffer =
        (OutputStream.framer.drain (c.outputStream.buffer ++ bytes)).rest := by
  simp only [outputEvent, hr, OutputStream.read_ok hne he]
  split
  · exact ⟨Flow.not_failed_running, rfl, rfl⟩
  · exact ⟨Flow.not_failed_ok, rfl, rfl⟩

theorem take_ne_nil {available : List UInt8} {chunk : Nat} (ha : available ≠ [])
    (hc : chunkAllowed chunk = true) : available.take chunk ≠ [] := by
  simp only [chunkAllowed, decide_eq_true_eq] at hc
  intro h
  rcases List.take_eq_nil_iff.mp h with h | h
  · omega
  · exact ha h

theorem Loop.step_mainEvent (bc : Bincode) (c : Loop) (readable writable : Bool) (io : EventIo) :
    c.step bc (.event (Session.mainEvent readable writable) io) =
      c.mainEvent bc (Session.mainEvent readable writable) io := rfl

theorem Loop.step_outputEvent (bc : Bincode) (c : Loop) (io : EventIo) :
    c.step bc (.event Session.outputEvent io) = c.outputEvent io := rfl

namespace Session

variable {bc : Bincode} {mainSrc : List (List UInt8 × ResponseMessage)}
  {outputSrc : List (List UInt8 × PipeOut)}

theorem step_spec {s s' : Session} {l : SessionLabel} (w : WellFed bc mainSrc outputSrc s)
    (h : step bc s l = some s') :
    (s'.client.Failed ↔ ¬ Ready s l) ∧ (Ready s l → WellFed bc mainSrc outputSrc s') := by
  obtain ⟨⟨got, hmain⟩, got', hout⟩ := w
  simp only [step] at h
  cases hc : s.client with
  | returned => simp [hc] at h
  | running c =>
    simp only [hc] at h
    rw [hc] at hmain hout
    cases l with
    | evalStr id code locals globals =>
      cases h
      exact ⟨by simp [Ready, Loop.step, Flow.not_failed_running], fun _ => ⟨⟨got, hmain⟩, got', hout⟩⟩
    | mainArrive n =>
      cases h
      refine ⟨by simp [Ready, Flow.not_failed_running], fun _ => ⟨⟨got, ?_⟩, got', hout⟩⟩
      exact hmain.step (.write _ n)
    | outputArrive n =>
      cases h
      refine ⟨by simp [Ready, Flow.not_failed_running], fun _ => ⟨⟨got, hmain⟩, got', ?_⟩⟩
      exact hout.step (.write _ n)
    | head close codeDisconnected =>
      cases h
      obtain ⟨hin, ho⟩ := c.head_buffers bc ⟨close, codeDisconnected, .ok (), .ok ()⟩
      refine ⟨by simp [Ready, Loop.step, Loop.head_not_failed], fun _ => ⟨⟨got, ?_⟩, got', ?_⟩⟩
      · simp only [Loop.step, hin]
        exact hmain
      · simp only [Loop.step, ho]
        exact hout
    | mainEvent readable writable write chunk =>
      obtain ⟨allowed, heq⟩ := Option.ite_none_right_eq_some.mp h
      cases heq
      rw [Loop.step_mainEvent]
      simp only [Bool.and_eq_true] at allowed
      obtain ⟨⟨-, hwrite⟩, hchunk⟩ := allowed
      by_cases hin : s.mainIn = []
      · have hfail := @Loop.mainEvent_starved bc c (mainEvent readable writable)
          ⟨write, readResult s.mainIn chunk, true⟩ .wouldBlock (by simp [readResult, hin])
        exact ⟨by simpa [Ready, hin] using hfail, fun hr => absurd hin hr.1⟩
      · have hread : readResult s.mainIn chunk = .ok (s.mainIn.take chunk) := by simp [readResult, hin]
        by_cases hrefused : writable = true ∧ write = .error .wouldBlock
        · obtain ⟨hw, rfl⟩ := hrefused
          have hfail := @Loop.mainEvent_refused bc c (mainEvent readable writable)
            ⟨.error .wouldBlock, readResult s.mainIn chunk, true⟩ .wouldBlock hw rfl
          exact ⟨by simpa [Ready, hw] using hfail, fun hr => absurd rfl (hr.2 hw)⟩
        · have hready : Ready s (.mainEvent readable writable write chunk) :=
            ⟨hin, fun hw he => hrefused ⟨hw, he⟩⟩
          have haccept : writable = true → ∃ n, write = .ok n := by
            intro hw
            cases write with
            | ok n => exact ⟨n, rfl⟩
            | error e =>
              obtain rfl : e = .wouldBlock := by simpa [writeAllowed] using hwrite
              exact absurd ⟨hw, rfl⟩ hrefused
          have hfed := @Loop.mainEvent_fed bc c (mainEvent readable writable)
            ⟨write, readResult s.mainIn chunk, true⟩ (s.mainIn.take chunk) haccept hread
            (take_ne_nil hin hchunk) (hmain.read_ok chunk)
          obtain ⟨c', hc', ho, hb⟩ := hfed
          rw [hc']
          have hmain' := hmain.step (.read _ chunk)
          simp only [Flow.state, ← hb] at hmain'
          simp only [Flow.state, ← ho] at hout
          exact ⟨by simp [hready, Flow.not_failed_running], fun _ => ⟨⟨_, hmain'⟩, got', hout⟩⟩
    | outputEvent chunk threadAlive =>
      obtain ⟨⟨hin, hchunk⟩, heq⟩ := Option.ite_none_right_eq_some.mp h
      cases heq
      have hread : readResult s.outputIn chunk = .ok (s.outputIn.take chunk) := by
        simp [readResult, hin]
      have hfed := @Loop.outputEvent_fed c ⟨.error .wouldBlock, readResult s.outputIn chunk, threadAlive⟩
        (s.outputIn.take chunk) hread (take_ne_nil hin hchunk) (hout.read_ok chunk)
      obtain ⟨hf, hm, hb⟩ := hfed
      rw [Loop.step_outputEvent]
      have hout' := hout.step (.read _ chunk)
      simp only [Flow.state, ← hb] at hout'
      simp only [Flow.state, ← hm] at hmain
      exact ⟨by simp [Ready, hf], fun _ => ⟨⟨got, hmain⟩, _, hout'⟩⟩

theorem wellFed_init (mainOk : ∀ p ∈ mainSrc, (MainStream.framer bc).Encodes p.1 p.2)
    (outputOk : ∀ p ∈ outputSrc, OutputStream.framer.Encodes p.1 p.2) :
    WellFed bc mainSrc outputSrc (machine bc mainSrc outputSrc).init where
  main := ⟨[], mainOk, ⟨[], mainSrc, rfl, rfl, rfl⟩, (MainStream.framer bc).next_nil⟩
  output := ⟨[], outputOk, ⟨[], outputSrc, rfl, rfl, rfl⟩, OutputStream.framer.next_nil⟩

theorem never_fails_iff_ready (mainOk : ∀ p ∈ mainSrc, (MainStream.framer bc).Encodes p.1 p.2)
    (outputOk : ∀ p ∈ outputSrc, OutputStream.framer.Encodes p.1 p.2) {ls : List SessionLabel}
    {s : Session}
    (run : (machine bc mainSrc outputSrc).exec ls = some s) :
    ¬ s.client.Failed ↔
      (machine bc mainSrc outputSrc).Along Ready ls := by
  induction ls using List.reverseRecOn generalizing s with
  | nil =>
    obtain rfl := Option.some.inj run
    exact ⟨fun _ => Machine.along_nil, fun _ => Flow.not_failed_running⟩
  | append_singleton ls l ih =>
    obtain ⟨s₀, hs₀, hl⟩ := Machine.exec_concat_some _ run
    have halong : (machine bc mainSrc outputSrc).Along Ready ls := by
      apply (ih hs₀).mp
      rintro ⟨c, e, hc⟩
      simp [machine, step, hc] at hl
    have hw := Machine.invariant_along (wellFed_init mainOk outputOk)
      (fun s l s' w hr h => (step_spec w h).2 hr) hs₀ halong
    rw [Machine.along_concat, (step_spec hw hl).1, Classical.not_not]
    constructor
    · intro hr
      refine ⟨halong, fun s hs => ?_⟩
      rw [hs₀] at hs
      cases hs
      exact hr
    · exact fun h => h.2 s₀ hs₀

theorem never_fails_iff_ready_answered :
    (machine fixint [(returnSeven, .codeString ⟨"a", .return [7]⟩)] []).Along Ready
      [.evalStr "a" "x" [] [], .head .empty false, .mainArrive 40,
        .mainEvent true true (.ok 20) 4096] := by
  have encodes : (MainStream.framer fixint).Encodes returnSeven (.codeString ⟨"a", .return [7]⟩) :=
    headed_encodes _ _ _ _ _ (ResponseMessageHeader.fromBuf_intoBuf_new _ _ _ _) rfl rfl
  have run : (machine fixint [(returnSeven, .codeString ⟨"a", .return [7]⟩)] []).exec
      [.evalStr "a" "x" [] [], .head .empty false, .mainArrive 40,
        .mainEvent true true (.ok 20) 4096] = some ⟨.running _, _, _, _, _⟩ := rfl
  refine (never_fails_iff_ready ?_ (List.forall_mem_nil _) run).mp Flow.not_failed_running
  intro p hp
  rw [List.mem_singleton.mp hp]
  exact encodes

theorem writable_event_fails :
    ¬ ∀ (ls : List SessionLabel) (s : Session),
      (machine fixint [] []).exec ls = some s → ¬ s.client.Failed := by
  intro h
  have run : (machine fixint [] []).exec
      [.evalStr "a" "x" [] [], .head .empty false, .mainEvent false true (.ok 20) 4096] =
        some _ := rfl
  exact h _ _ run ⟨_, _, rfl⟩

end Session
end PyProxy.Client
