import PyProxy.Client.Futures
import PyProxy.Stream.Chunked

namespace PyProxy.Client
open Stream Protocol Rpc

-- what the background thread reads, and when it passes the head of its loop
inductive Heard where
  | main (bytes : List UInt8)
  | output (bytes : List UInt8)
  | head

namespace Heard

def outputRead : Heard → Option (List UInt8)
  | .output bytes => some bytes
  | _ => none

def outputReads (ns : List Heard) : List (List UInt8) := ns.filterMap outputRead

-- the bytes of the main stream, and those of them that were read before the last head
def settle (p : List UInt8 × List UInt8) : Heard → List UInt8 × List UInt8
  | .main bytes => (p.1 ++ bytes, p.2)
  | .output _ => p
  | .head => (p.1, p.1)

def mainBytes (ns : List Heard) : List UInt8 := (ns.foldl settle ([], [])).1

def settled (ns : List Heard) : List UInt8 := (ns.foldl settle ([], [])).2

variable (ns : List Heard) (bytes : List UInt8)

@[simp] theorem mainBytes_main : mainBytes (ns ++ [.main bytes]) = mainBytes ns ++ bytes := by
  simp [mainBytes, settle]

@[simp] theorem mainBytes_output : mainBytes (ns ++ [.output bytes]) = mainBytes ns := by
  simp [mainBytes, settle]

@[simp] theorem mainBytes_head : mainBytes (ns ++ [.head]) = mainBytes ns := by simp [mainBytes, settle]

@[simp] theorem settled_main : settled (ns ++ [.main bytes]) = settled ns := by simp [settled, settle]

@[simp] theorem settled_output : settled (ns ++ [.output bytes]) = settled ns := by simp [settled, settle]

@[simp] theorem settled_head : settled (ns ++ [.head]) = mainBytes ns := by
  simp [settled, mainBytes, settle]

@[simp] theorem outputReads_main : outputReads (ns ++ [.main bytes]) = outputReads ns := by
  simp [outputReads, outputRead]

@[simp] theorem outputReads_output : outputReads (ns ++ [.output bytes]) = outputReads ns ++ [bytes] := by
  simp [outputReads, outputRead]

@[simp] theorem outputReads_head : outputReads (ns ++ [.head]) = outputReads ns := by
  simp [outputReads, outputRead]

end Heard

open Heard

def readBytes (read : List UInt8 → Heard) : IoResult (List UInt8) → List Heard
  | .ok bytes => [read bytes]
  | .error _ => []

def Loop.heard (c : Loop) : Label → List Heard
  | .evalStr _ _ _ _ => []
  | .head _ => [.head]
  | .event ev io =>
    if ev.token = mainStreamTk then
      match c.mainWrite ev io with
      | .error _ => []
      | .ok _ => readBytes .main io.read
    else if ev.token = outputStreamTk then readBytes .output io.read
    else []

def heard (s : Flow Error Loop × History) (l : Label) : List Heard :=
  match s.1 with
  | .running c => c.heard l
  | .returned _ _ => []

def reply (resp : ResponseMessage) : Option (String × PythonResult) :=
  (respEntry resp).bind Entry.responded

variable (bc : Bincode)

-- the responses up to the last head have been resolved, and the others are queued
structure MainHeard (ns : List Heard) (h : History) (c : Loop) (failure : Option Protocol.Error) : Prop where
  queued : ((MainStream.framer bc).drain (mainBytes ns)).msgs =
    ((MainStream.framer bc).drain (settled ns)).msgs ++ c.mainStream.respMsgs
  err : ((MainStream.framer bc).drain (mainBytes ns)).err = failure
  rest : failure = none → ((MainStream.framer bc).drain (mainBytes ns)).rest = c.mainStream.inbuffer
  initial : settled ns <+: mainBytes ns
  resolved : responses h = ((MainStream.framer bc).drain (settled ns)).msgs.filterMap reply

def OutputHeard (ns : List Heard) (c : Loop) : Prop :=
  OutputStream.framer.drain (outputReads ns).flatten = ⟨c.threadSend, none, c.outputStream.buffer⟩

-- the lines of the read that failed are lost
structure OutputFailed (ns : List Heard) (c : Loop) (e : Protocol.Error) : Prop where
  read : outputReads ns ≠ []
  sent : (OutputStream.framer.drain (outputReads ns).dropLast.flatten).msgs = c.threadSend
  clean : (OutputStream.framer.drain (outputReads ns).dropLast.flatten).err = none
  err : (OutputStream.framer.drain (outputReads ns).flatten).err = some e

inductive Ended (ns : List Heard) (h : History) : Flow Error Loop → Prop where
  | running (c) (main : MainHeard bc ns h c none) (output : OutputHeard ns c) : Ended ns h (.running c)
  | mainFailed (c e) (main : MainHeard bc ns h c (some e)) (output : OutputHeard ns c) :
      Ended ns h (.returned c (.error (.protocol e)))
  | outputFailed (c e) (main : MainHeard bc ns h c none) (output : OutputFailed ns c e) :
      Ended ns h (.returned c (.error (.protocol e)))
  | other (c res) (unlike : ∀ e, res ≠ .error (.protocol e)) : Ended ns h (.returned c res)

variable {bc} {ns : List Heard} {h : History} {c c' : Loop}

theorem responses_append (g : History) : responses (h ++ g) = responses h ++ responses g := by
  simp [responses]

theorem responses_received : responses c.received = [] := by
  simp [responses, Loop.received, List.filterMap_map, Function.comp_def, Entry.responded]

theorem responses_answered : responses c.answered = c.mainStream.respMsgs.filterMap reply := by
  simp only [responses, Loop.answered, List.filterMap_filterMap]
  rfl

theorem MainHeard.passed (main : MainHeard bc ns h c none)
    (queue : c'.mainStream.respMsgs = []) (same : c'.mainStream.inbuffer = c.mainStream.inbuffer) :
    MainHeard bc (ns ++ [.head]) (h ++ (c.received ++ c.answered)) c' none where
  queued := by simp [queue]
  err := by simpa using main.err
  rest _ := by simpa [same] using main.rest rfl
  initial := by simp
  resolved := by
    rw [responses_append, responses_append, responses_received, responses_answered, main.resolved,
      settled_head, main.queued, List.filterMap_append, List.nil_append]

theorem MainHeard.heard (main : MainHeard bc ns h c none) {bytes : List UInt8} {failure : Option Protocol.Error}
    (err : ((MainStream.framer bc).drain (c.mainStream.inbuffer ++ bytes)).err = failure)
    (queue : c'.mainStream.respMsgs = c.mainStream.respMsgs ++
      ((MainStream.framer bc).drain (c.mainStream.inbuffer ++ bytes)).msgs)
    (rest : c'.mainStream.inbuffer =
      ((MainStream.framer bc).drain (c.mainStream.inbuffer ++ bytes)).rest) :
    MainHeard bc (ns ++ [.main bytes]) h c' failure := by
  have all := (MainStream.framer bc).drain_append (mainBytes ns) bytes main.err
  rw [main.rest rfl] at all
  refine ⟨?_, ?_, fun _ => ?_, ?_, ?_⟩
  · rw [mainBytes_main, settled_main, all, main.queued, queue, List.append_assoc]
  · rw [mainBytes_main, all]
    exact err
  · rw [mainBytes_main, all, rest]
  · rw [mainBytes_main, settled_main]
    exact main.initial.trans (List.prefix_append _ _)
  · rw [settled_main]
    exact main.resolved

theorem MainHeard.unheard {failure : Option Protocol.Error} (main : MainHeard bc ns h c failure)
    {bytes : List UInt8} (same : c'.mainStream = c.mainStream) :
    MainHeard bc (ns ++ [.output bytes]) h c' failure where
  queued := by simpa [same] using main.queued
  err := by simpa using main.err
  rest hf := by simpa [same] using main.rest hf
  initial := by simpa using main.initial
  resolved := by simpa using main.resolved

theorem updateInterest_error {e : Error} {reregister : IoResult Unit}
    (hu : c.updateInterest reregister = .error e) : ∃ action err, e = .io action err := by
  simp only [Loop.updateInterest] at hu
  cases reregister with
  | ok u =>
    simp only [fatalIoError] at hu
    split at hu
    · cases hu
    · split at hu <;> cases hu
  | error err =>
    simp only [fatalIoError] at hu
    split at hu
    · cases hu
      exact ⟨_, _, rfl⟩
    · split at hu <;> cases hu
      exact ⟨_, _, rfl⟩

inductive HeadEnd (bc : Bincode) (c : Loop) (io : HeadIo) : Flow Error Loop → Prop where
  | passed (c' : Loop) (close : io.close = .empty) (code : io.codeDisconnected = false)
      (queue : c'.mainStream.respMsgs = []) (same : c'.mainStream.inbuffer = c.mainStream.inbuffer)
      (output : c'.outputStream = c.outputStream) (sent : c'.threadSend = c.threadSend) :
      HeadEnd bc c io (.running c')
  | ended (c' : Loop) (res) (unlike : ∀ e, res ≠ .error (.protocol e)) : HeadEnd bc c io (.returned c' res)

theorem head_end (c : Loop) (io : HeadIo) : HeadEnd bc c io (c.head bc io) := by
  cases close : io.close with
  | ok =>
    simp only [Loop.head, close]
    exact .ended _ _ (by simp)
  | disconnected =>
    simp only [Loop.head, close]
    exact .ended _ _ (by simp)
  | empty =>
    cases code : io.codeDisconnected with
    | true =>
      simp only [Loop.head, close, code, if_true]
      exact .ended _ _ (by simp)
    | false =>
      simp only [Loop.head, close, code, Bool.false_eq_true, if_false]
      cases hu : (c.takeCode bc).resolve.updateInterest io.reregister with
      | error e =>
        obtain ⟨action, err, rfl⟩ := updateInterest_error hu
        exact .ended _ _ (by simp)
      | ok c' =>
        obtain ⟨interest, rfl⟩ := Loop.updateInterest_eq hu
        obtain ⟨p, f, hr⟩ := (c.takeCode bc).resolve_frame
        obtain ⟨o, q, hc⟩ := c.takeCode_frame bc
        cases hp : io.poll with
        | error e =>
          simp only [fatalIoError]
          exact .ended _ _ (by simp)
        | ok u =>
          simp only [fatalIoError]
          refine .passed _ close code ?_ ?_ ?_ ?_ <;> rw [hr, hc] <;> rfl

theorem Ended.head (main : MainHeard bc ns h c none) (output : OutputHeard ns c) (io : HeadIo) :
    Ended bc (ns ++ [.head]) (h ++ c.entries (.head io)) (c.head bc io) := by
  have hcase := @head_end bc c io
  generalize c.head bc io = f at hcase ⊢
  cases hcase with
  | passed c' close code queue same out sent =>
    refine .running c' ?_ ?_
    · simp only [Loop.entries, close, code, if_true, Bool.false_eq_true, if_false]
      exact main.passed queue same
    · rw [OutputHeard, outputReads_head, sent, out]
      exact output
  | ended c' res unlike => exact .other c' res unlike

inductive MainEnd (bc : Bincode) (c : Loop) (ev : Event) (io : EventIo) : List Heard → Flow Error Loop → Prop where
  | read (c' : Loop) (bytes) (err : ((MainStream.framer bc).drain (c.mainStream.inbuffer ++ bytes)).err = none)
      (queue : c'.mainStream.respMsgs = c.mainStream.respMsgs ++
        ((MainStream.framer bc).drain (c.mainStream.inbuffer ++ bytes)).msgs)
      (rest : c'.mainStream.inbuffer =
        ((MainStream.framer bc).drain (c.mainStream.inbuffer ++ bytes)).rest)
      (output : c'.outputStream = c.outputStream) (sent : c'.threadSend = c.threadSend) :
      MainEnd bc c ev io [.main bytes] (.running c')
  | failed (c' : Loop) (bytes e) (err : ((MainStream.framer bc).drain (c.mainStream.inbuffer ++ bytes)).err = some e)
      (queue : c'.mainStream.respMsgs = c.mainStream.respMsgs ++
        ((MainStream.framer bc).drain (c.mainStream.inbuffer ++ bytes)).msgs)
      (rest : c'.mainStream.inbuffer =
        ((MainStream.framer bc).drain (c.mainStream.inbuffer ++ bytes)).rest)
      (output : c'.outputStream = c.outputStream) (sent : c'.threadSend = c.threadSend) :
      MainEnd bc c ev io [.main bytes] (.returned c' (.error (.protocol e)))
  | ended (ns : List Heard) (c' : Loop) (res) (unlike : ∀ e, res ≠ .error (.protocol e)) :
      MainEnd bc c ev io ns (.returned c' res)

theorem main_end (c : Loop) {ev : Event} (io : EventIo) (tk : ev.token = mainStreamTk) :
    MainEnd bc c ev io (c.heard (.event ev io)) (c.mainEvent bc ev io) := by
  simp only [Loop.heard, tk, if_true, Loop.mainEvent]
  have written : (∃ action err, c.mainWrite ev io = .error (.io action err)) ∨
      ∃ o, c.mainWrite ev io = .ok { c with mainStream := { c.mainStream with outbuffer := o } } := by
    cases hw : ev.writable with
    | false => exact .inr ⟨c.mainStream.outbuffer, by simp [Loop.mainWrite, hw]⟩
    | true =>
      cases hio : io.write with
      | error e =>
        refine .inl ⟨"failed to write bytes to mainstream session", e, ?_⟩
        simp [Loop.mainWrite, hw, hio, MainStream.write, fatalIoError]
      | ok n =>
        exact .inr ⟨compact n c.mainStream.outbuffer,
          by simp only [Loop.mainWrite, hw, hio, MainStream.write, fatalIoError, if_true]⟩
  rcases written with ⟨action, err, hw⟩ | ⟨o, hw⟩
  · simp only [hw]
    exact .ended _ _ _ (by simp)
  · simp only [hw]
    rcases hr : io.read with e | _ | ⟨b, bs⟩
    · simp only [MainStream.read]
      exact .ended _ _ _ (by simp)
    · simp only [MainStream.read]
      exact .ended _ _ _ (by simp)
    · simp only [MainStream.read, readBytes]
      cases he : ((MainStream.framer bc).drain (c.mainStream.inbuffer ++ b :: bs)).err with
      | none => exact .read _ _ he rfl rfl rfl rfl
      | some e => exact .failed _ _ e he rfl rfl rfl rfl

inductive OutputEnd (c : Loop) (io : EventIo) : List Heard → Flow Error Loop → Prop where
  | read (c' : Loop) (bytes) (err : (OutputStream.framer.drain (c.outputStream.buffer ++ bytes)).err = none)
      (sent : c'.threadSend = c.threadSend ++
        (OutputStream.framer.drain (c.outputStream.buffer ++ bytes)).msgs)
      (rest : c'.outputStream.buffer = (OutputStream.framer.drain (c.outputStream.buffer ++ bytes)).rest)
      (main : c'.mainStream = c.mainStream) : OutputEnd c io [.output bytes] (.running c')
  | failed (c' : Loop) (bytes e) (err : (OutputStream.framer.drain (c.outputStream.buffer ++ bytes)).err = some e)
      (sent : c'.threadSend = c.threadSend) (main : c'.mainStream = c.mainStream) :
      OutputEnd c io [.output bytes] (.returned c' (.error (.protocol e)))
  | ended (ns : List Heard) (c' : Loop) (res) (unlike : ∀ e, res ≠ .error (.protocol e)) :
      OutputEnd c io ns (.returned c' res)

theorem output_end (c : Loop) {ev : Event} (io : EventIo) (tk : ev.token = outputStreamTk) :
    OutputEnd c io (c.heard (.event ev io)) (c.outputEvent io) := by
  have other : ¬ outputStreamTk = mainStreamTk := by decide
  simp only [Loop.heard, tk, other, if_false, if_true, Loop.outputEvent]
  rcases hr : io.read with e | _ | ⟨b, bs⟩
  · simp only [OutputStream.read]
    exact .ended _ _ _ (by simp)
  · simp only [OutputStream.read]
    exact .ended _ _ _ (by simp)
  · simp only [OutputStream.read, readBytes]
    cases he : (OutputStream.framer.drain (c.outputStream.buffer ++ b :: bs)).err with
    | some e => exact .failed _ _ e he rfl rfl
    | none =>
      dsimp only
      split
      · exact .read _ _ he rfl rfl rfl
      · exact .ended _ _ _ (by simp)

theorem Ended.event (main : MainHeard bc ns h c none) (output : OutputHeard ns c) (ev : Event)
    (io : EventIo) : Ended bc (ns ++ c.heard (.event ev io)) h (c.event bc ev io) := by
  simp only [Loop.event]
  split
  · rename_i tk
    have hcase := @main_end bc c ev io tk
    generalize c.heard (.event ev io) = new at hcase ⊢
    generalize c.mainEvent bc ev io = f at hcase ⊢
    cases hcase with
    | read c' bytes err queue rest out sent =>
      refine .running c' (main.heard err queue rest) ?_
      rw [OutputHeard, outputReads_main, out, sent]
      exact output
    | failed c' bytes e err queue rest out sent =>
      refine .mainFailed c' e (main.heard err queue rest) ?_
      rw [OutputHeard, outputReads_main, out, sent]
      exact output
    | ended new c' res unlike => exact .other c' res unlike
  · split
    · rename_i tk
      have hcase := @output_end c ev io tk
      generalize c.heard (.event ev io) = new at hcase ⊢
      generalize c.outputEvent io = f at hcase ⊢
      have clean : (OutputStream.framer.drain (outputReads ns).flatten).err = none := by rw [output]
      cases hcase with
      | read c' bytes err sent rest same =>
        refine .running c' (main.unheard same) ?_
        rw [OutputHeard, outputReads_output, List.flatten_append, List.flatten_singleton,
          OutputStream.framer.drain_append _ _ clean, output, sent, rest]
        simp only [err]
      | failed c' bytes e err sent same =>
        refine .outputFailed c' e (main.unheard same) ⟨by simp, ?_, ?_, ?_⟩
        · rw [outputReads_output, List.dropLast_concat, output, sent]
        · rw [outputReads_output, List.dropLast_concat, clean]
        · rw [outputReads_output, List.flatten_append, List.flatten_singleton,
            OutputStream.framer.drain_append _ _ clean, output]
          exact err
      | ended new c' res unlike => exact .other c' res unlike
    · rename_i hm ho
      have none : c.heard (.event ev io) = [] := by simp only [Loop.heard, hm, ho, if_false]
      rw [none, List.append_nil]
      exact .running c main output

theorem Ended.step {s s' : Flow Error Loop × History} {l : Label} (e : Ended bc ns s.2 s.1)
    (hs : (machine bc).step s l = some s') : Ended bc (ns ++ heard s l) s'.2 s'.1 := by
  obtain ⟨f, h⟩ := s
  cases f with
  | returned => cases hs
  | running c =>
    cases hs
    cases e with
    | running _ main output =>
      cases l with
      | evalStr id code locals globals =>
        rw [show heard (Flow.running c, h) (.evalStr id code locals globals) = [] from rfl, List.append_nil]
        refine .running _ ⟨main.queued, main.err, main.rest, main.initial, ?_⟩ output
        rw [show h ++ c.entries (.evalStr id code locals globals) = h from List.append_nil h]
        exact main.resolved
      | head io => exact .head main output io
      | event ev io =>
        rw [show h ++ c.entries (.event ev io) = h from List.append_nil h]
        exact .event main output ev io

theorem ended_run {ls : List Label} {s : Flow Error Loop × History} {ns : List Heard}
    (run : ((machine bc).traced heard).exec ls = some (s, ns)) : Ended bc ns s.2 s.1 := by
  refine @Machine.invariant _ _ ((machine bc).traced heard) (fun p => Ended bc p.2 p.1.2 p.1.1) ?_
    (fun p l p' hp hl => ?_) _ _ run
  · refine .running _ ⟨?_, ?_, fun _ => ?_, List.prefix_rfl, ?_⟩ ?_
    · rfl
    · rfl
    · rfl
    · rfl
    · rfl
  · obtain ⟨hs, heq⟩ := Machine.traced_step hl
    rw [heq]
    exact hp.step hs

def unanswered (h : History) (msgs : List ResponseMessage) : List (String × PythonResult) :=
  (msgs.drop (responses h).length).filterMap reply

theorem reply_some {resp : ResponseMessage} (hello : resp.isHello = false) :
    ∃ res, reply resp = some (resp.futureId, res) := by
  cases resp with
  | hello r => cases hello
  | codeString p => exact ⟨p.pyResult, rfl⟩
  | codePickle s => exact ⟨s.pyResult, rfl⟩

theorem replies_length {msgs : List ResponseMessage} (hello : ∀ resp ∈ msgs, resp.isHello = false) :
    (msgs.filterMap reply).length = msgs.length := by
  induction msgs with
  | nil => rfl
  | cons resp msgs ih =>
    obtain ⟨res, hr⟩ := reply_some (hello resp (by simp))
    rw [List.filterMap_cons_some hr, List.length_cons, ih fun r hr => hello r (by simp [hr]), List.length_cons]

theorem frame_not_hello {bytes : List UInt8} {resp : ResponseMessage}
    (encodes : (MainStream.framer bc).Encodes bytes resp) : resp.isHello = false := by
  obtain ⟨header, raw, hr⟩ := headed_frame _ _ _ _ _ (encodes [])
  exact MainStream.readBody_isHello bc hr

section

variable {ε μ α : Type} {F : Framer ε μ α}

-- the frames that end after the first `n` bytes are those in `left`
theorem later_iff {done left : List (List α × μ)} {n : Nat} {P : μ → Prop}
    (whole : ∀ p ∈ done ++ left, F.Encodes p.1 p.2) (le : (Framer.stream done).length ≤ n)
    (lt : ∀ p rest, left = p :: rest → n < (Framer.stream (done ++ [p])).length) :
    (∀ pre p post, done ++ left = pre ++ p :: post → n < (Framer.stream (pre ++ [p])).length → P p.2) ↔
      ∀ p ∈ left, P p.2 := by
  constructor
  · intro all p hp
    obtain ⟨before, after, rfl⟩ := List.append_of_mem hp
    refine all (done ++ before) p after (by simp) ?_
    cases before with
    | nil =>
      rw [List.append_nil]
      exact lt p after rfl
    | cons q before =>
      have first := lt q (before ++ p :: after) rfl
      have more : (Framer.stream (done ++ [q])).length ≤
          (Framer.stream (done ++ q :: before ++ [p])).length := by
        simp only [Framer.stream_append, Framer.stream_cons, Framer.stream_nil, List.length_append]
        omega
      omega
  · intro all pre p post eq beyond
    have inside : pre.length ≥ done.length := by
      by_contra short
      obtain ⟨mid, rfl⟩ : pre ++ [p] <+: done := by
        refine List.prefix_of_prefix_length_le ⟨post, by simp [eq]⟩ ⟨left, rfl⟩ ?_
        rw [List.length_append, List.length_singleton]
        omega
      rw [Framer.stream_append, List.length_append] at le
      omega
    obtain ⟨mid, rfl⟩ : done <+: pre :=
      List.prefix_of_prefix_length_le ⟨left, rfl⟩ ⟨p :: post, eq.symm⟩ inside
    rw [List.append_assoc] at eq
    have same := List.append_cancel_left eq
    exact all p (by rw [same]; simp)

end

theorem delivered_iff {ls : List Label} {e : Protocol.Error}
    (run : ((machine bc).traced heard).exec ls = some ((.returned c (.error (.protocol e)), h), ns)) :
    (∀ frames bad e', OutputStream.framer.Malformed (outputReads ns).flatten frames bad e' →
        (c.threadSend = frames.map Prod.snd ↔
          (Framer.stream frames).length ≤ (outputReads ns).dropLast.flatten.length)) ∧
      ∀ frames bad e', (MainStream.framer bc).Malformed (mainBytes ns) frames bad e' →
        (c.futures = (replay (h ++ (unanswered h (frames.map Prod.snd)).map respond)).resolved ↔
          ∀ done p left, frames = done ++ p :: left →
            (settled ns).length < (Framer.stream (done ++ [p])).length →
              c.pendingFutures.lookup p.2.futureId = none) := by
  have ended := ended_run run
  have tracked := tracked_exec (Machine.exec_of_traced run)
  constructor
  · intro frames bad e' malformed
    have all := malformed.drain
    cases ended with
    | mainFailed _ _ main output =>
      rw [output] at all
      cases congrArg Parsed.err all
    | other _ _ unlike => exact absurd rfl (unlike e)
    | outputFailed _ _ main output =>
      obtain ⟨done, left, rfl, msgs, le, lt⟩ := malformed.initial
        (b := (outputReads ns).dropLast.flatten) ⟨((outputReads ns).getLast output.read), by
          rw [← List.flatten_concat, List.dropLast_append_getLast]⟩
      rw [← output.sent, msgs, List.map_append]
      constructor
      · intro same
        have none := List.map_eq_nil_iff.mp (List.self_eq_append_right.mp same)
        rwa [none, List.append_nil]
      · intro arrived
        have none : left = [] := by
          by_contra ne
          obtain ⟨p, rest, rfl⟩ := List.exists_cons_of_ne_nil ne
          have beyond := lt p rest rfl
          simp only [Framer.stream_append, Framer.stream_cons, Framer.stream_nil, List.length_append,
            List.length_nil] at arrived beyond
          omega
        rw [none, List.map_nil, List.append_nil]
  · intro frames bad e' malformed
    have all := malformed.drain
    cases ended with
    | outputFailed _ _ main output =>
      have clean := main.err
      rw [all] at clean
      cases clean
    | other _ _ unlike => exact absurd rfl (unlike e)
    | mainFailed _ _ main output =>
      obtain ⟨done, left, rfl, msgs, le, lt⟩ := malformed.initial main.initial
      have hello : ∀ q ∈ done ++ left, q.2.isHello = false := fun q hq => frame_not_hello (malformed.whole q hq)
      have count : (responses h).length = done.length := by
        rw [main.resolved, msgs, replies_length fun resp hr => ?_, List.length_map]
        obtain ⟨q, hq, rfl⟩ := List.mem_map.mp hr
        exact hello q (List.mem_append_left _ hq)
      have rest : unanswered h ((done ++ left).map Prod.snd) = (left.map Prod.snd).filterMap reply := by
        rw [unanswered, List.map_append, List.drop_left' (by rw [List.length_map, count])]
      have unknown : (∀ m ∈ (left.map Prod.snd).filterMap reply, c.pendingFutures.lookup m.1 = none) ↔
          ∀ p ∈ left, c.pendingFutures.lookup p.2.futureId = none := by
        constructor
        · intro none p hp
          obtain ⟨res, hr⟩ := reply_some (hello p (List.mem_append_right _ hp))
          exact none _ (List.mem_filterMap.mpr ⟨p.2, List.mem_map_of_mem hp, hr⟩)
        · intro none m hm
          obtain ⟨resp, hresp, hr⟩ := List.mem_filterMap.mp hm
          obtain ⟨p, hp, rfl⟩ := List.mem_map.mp hresp
          obtain ⟨res, hr'⟩ := reply_some (hello p (List.mem_append_right _ hp))
          cases hr.symm.trans hr'
          exact none p hp
      have table : replay h = c.table := tracked.table.symm
      rw [later_iff (P := fun resp => c.pendingFutures.lookup resp.futureId = none) malformed.whole le lt,
        ← unknown, rest, replay_append, table]
      have nothing := @Table.resolves_nothing_iff _ _ _ _ c.table ((left.map Prod.snd).filterMap reply)
      rw [eq_comm]
      exact nothing

def outputFrame : List UInt8 := Output.newMsg ⟨.stdout, 1⟩ [65]

def unknownFrame : List UInt8 := [9, 0, 0, 0, 0]

def readOutput (bytes : List UInt8) : Label :=
  .event ⟨outputStreamTk, true, false⟩ ⟨.error .wouldBlock, .ok bytes, true⟩

theorem unknown_after_frame :
    OutputStream.framer.Malformed (outputFrame ++ unknownFrame) [(outputFrame, ⟨[65], .stdout⟩)] unknownFrame
      (.unrecognisedMessageType 9) where
  bytes := rfl
  whole := by
    intro p hp
    rw [List.mem_singleton.mp hp]
    exact headed_encodes _ _ _ _ _ (Output.MessageHeader.fromRaw_intoBuf (t := .stdout) (n := 1) (by decide)) rfl rfl
  refused := rfl

theorem delivered_iff_frame_by_frame :
    ∃ c h, (machine fixint).exec [readOutput outputFrame, readOutput unknownFrame] =
        some (.returned c (.error (.protocol (.unrecognisedMessageType 9))), h) ∧
      c.threadSend = [⟨[65], .stdout⟩] := by
  have run : ((machine fixint).traced heard).exec [readOutput outputFrame, readOutput unknownFrame] =
      some ((.returned _ (.error (.protocol (.unrecognisedMessageType 9))), []),
        [.output outputFrame, .output unknownFrame]) := rfl
  exact ⟨_, _, rfl, ((delivered_iff run).1 _ _ _ unknown_after_frame).mpr (by decide)⟩

theorem swallowed_frame :
    ¬ ∀ ls c e h ns, ((machine fixint).traced heard).exec ls = some ((.returned c (.error (.protocol e)), h), ns) →
      ∀ frames bad e', OutputStream.framer.Malformed (outputReads ns).flatten frames bad e' →
        c.threadSend = frames.map Prod.snd := by
  intro delivered
  have run : ((machine fixint).traced heard).exec [readOutput (outputFrame ++ unknownFrame)] =
      some ((.returned _ (.error (.protocol (.unrecognisedMessageType 9))), []),
        [.output (outputFrame ++ unknownFrame)]) := rfl
  cases delivered _ _ _ _ _ run _ _ _ unknown_after_frame

end PyProxy.Client
