import Mathlib.Logic.Function.Iterate
import PyProxy.Client.Ending
import PyProxy.Client.Waiting

namespace PyProxy.Client
open Protocol Rpc

def nextOutput (threadRecv : Channel PipeOut) :
    Except Error (Option (Nat × List UInt8)) × Channel PipeOut :=
  match threadRecv.tryRecv with
  | (.ok pipeFrame, recv) =>
    let fd := match pipeFrame.fd with
      | .stdout => 1
      | .stderr => 2
    (.ok (some (fd, pipeFrame.line)), recv)
  | (.error .empty, recv) => (.ok none, recv)
  | (.error .disconnected, recv) => (.error .clientThreadDoesNotExist, recv)

-- what the extension class offers to Python
def Future.pymethods : List String := ["wait"]

-- the method ends without a `return`: where it does not raise, it gives `None`
def Wrapped.isDone : Except Wrapped.Raised (Option Bool) :=
  if Future.pymethods.contains "try_recv" then .ok none else .error (.attributeError "try_recv")

namespace Loop

variable (bc : Bincode) (c : Loop)

theorem head_threadSend (io : HeadIo) : (c.head bc io).state.threadSend = c.threadSend := by
  obtain ⟨o, p, taken⟩ := c.takeCode_frame bc
  obtain ⟨q, f, resolved⟩ := (c.takeCode bc).resolve_frame
  rcases c.head_cases bc io with ⟨-, hs⟩ | ⟨-, -, hs⟩ | ⟨-, -, i, hs⟩
  · rw [hs]
  · rw [hs, taken]
    rfl
  · rw [hs, resolved, taken]
    rfl

theorem event_threadSend (ev : Event) (io : EventIo) :
    c.threadSend <+: (c.event bc ev io).state.threadSend := by
  simp only [event]
  split
  · simp only [mainEvent]
    cases hw : c.mainWrite ev io with
    | error e => exact List.prefix_rfl
    | ok c' =>
      obtain ⟨m, rfl⟩ : ∃ m, c' = { c with mainStream := m } := by
        simp only [mainWrite] at hw
        split at hw
        · split at hw
          · cases hw
          · exact ⟨_, (Except.ok.inj hw).symm⟩
        · exact ⟨c.mainStream, (Except.ok.inj hw).symm⟩
      dsimp only
      split <;> exact List.prefix_rfl
  · split
    · simp only [outputEvent]
      split
      · exact List.prefix_rfl
      · split
        · exact List.prefix_append _ _
        · exact List.prefix_rfl
    · exact List.prefix_rfl

theorem step_threadSend (l : Label) : c.threadSend <+: (c.step bc l).state.threadSend := by
  cases l with
  | evalStr => exact List.prefix_rfl
  | head io => exact ⟨[], (List.append_nil _).trans (c.head_threadSend bc io).symm⟩
  | event ev io => exact c.event_threadSend bc ev io

end Loop

theorem Process.step_threadSend {bc : Bincode} {s s' : Process} {a : Action} (h : s.step bc a = some s') :
    s.thread.state.threadSend <+: s'.thread.state.threadSend := by
  cases a with
  | wait f timeout =>
    obtain ⟨⟨o, recv⟩, -, rfl⟩ := Option.map_eq_some_iff.mp h
    exact List.prefix_rfl
  | thread l =>
    obtain ⟨⟨thread, history⟩, hl, rfl⟩ := Option.map_eq_some_iff.mp h
    cases ht : s.thread with
    | returned => simp [Client.machine, ht] at hl
    | running c =>
      rw [ht] at hl
      cases hl
      exact c.step_threadSend bc l

theorem Wrapped.isDone_raises : isDone = .error (.attributeError "try_recv") := by
  simp [isDone, Future.pymethods]

namespace RemoteProcess
open Wrapped

-- the generator
structure Output where
  future : Option Sender
  breakNow : Bool
  yielded : List (Nat × List UInt8)
  ended : Option (Except Raised Unit)

def output (future : Option Sender) : Output := ⟨future, future.isNone, [], none⟩

-- one round of its loop: up to a `yield`, to the end or to the sleep
def Output.round (g : Output) : Except Error (Option (Nat × List UInt8)) → Output
  | .error e => { g with ended := some (.error (.client e)) }
  | .ok (some out) => { g with yielded := g.yielded ++ [out] }
  | .ok none =>
    if g.breakNow then { g with ended := some (.ok ()) }
    else if g.future.isSome then
      match isDone with
      | .error e => { g with ended := some (.error e) }
      | .ok done => { g with breakNow := done.getD false }
    else g

-- the process while a generator is being consumed
structure Draining where
  process : Process
  read : Nat
  output : Output

inductive Turn where
  | process (a : Action)
  | poll

namespace Draining

def lines (s : Draining) : List PipeOut := s.process.thread.state.threadSend

def threadRecv (s : Draining) : Channel PipeOut where
  sent := s.lines
  taken := s.read
  connected := match s.process.thread with
    | .running _ => true
    | .returned _ _ => false

def poll (s : Draining) : Draining :=
  match s.output.ended with
  | some _ => s
  | none =>
    let (out, recv) := nextOutput s.threadRecv
    { s with read := recv.taken, output := s.output.round out }

def step (bc : Bincode) (s : Draining) : Turn → Option Draining
  | .process a => (s.process.step bc a).map fun process => { s with process := process }
  | .poll => some s.poll

end Draining

def machine (bc : Bincode) (start : Draining) : Machine Draining Turn where
  init := start
  step := Draining.step bc

def shown (pipeFrame : PipeOut) : Nat × List UInt8 :=
  (match pipeFrame.fd with
    | .stdout => 1
    | .stderr => 2, pipeFrame.line)

namespace Draining

variable {s s' : Draining} {bc : Bincode}

def yieldNext (s : Draining) (line : PipeOut) : Draining :=
  { s with read := s.read + 1, output := { s.output with yielded := s.output.yielded ++ [shown line] } }

def raised (s : Draining) (e : Raised) : Draining :=
  { s with output := { s.output with ended := some (.error e) } }

def Failure (e : Raised) : Prop := e = .attributeError "try_recv" ∨ e = .client .clientThreadDoesNotExist

-- asked about a future, a round without a line raises
theorem poll_cases (live : s.output.ended = none) (asked : s.output.future.isSome = true)
    (waits : s.output.breakNow = false) :
    (∃ line rest, s.lines.drop s.read = line :: rest ∧ s.poll = s.yieldNext line) ∨
      s.lines.drop s.read = [] ∧ ∃ e, Failure e ∧ s.poll = s.raised e := by
  cases hq : s.lines.drop s.read with
  | cons line rest =>
    refine .inl ⟨line, rest, rfl, ?_⟩
    simp only [poll, live, nextOutput, Channel.tryRecv, Channel.queue, threadRecv, hq]
    rfl
  | nil =>
    refine .inr ⟨rfl, ?_⟩
    cases ht : s.process.thread with
    | running c =>
      refine ⟨_, .inl rfl, ?_⟩
      simp only [poll, live, nextOutput, Channel.tryRecv, Channel.queue, threadRecv, hq, ht, if_true]
      simp only [Output.round, raised, waits, asked, if_true, Bool.false_eq_true, if_false, isDone_raises]
    | returned c res =>
      refine ⟨_, .inr rfl, ?_⟩
      simp only [poll, live, nextOutput, Channel.tryRecv, Channel.queue, threadRecv, hq, ht,
        Bool.false_eq_true, if_false]
      rfl

structure Polled (read : Nat) (s : Draining) : Prop where
  asked : s.output.future.isSome = true
  waits : s.output.breakNow = false
  unreturned : s.output.ended ≠ some (.ok ())
  cursor : s.read = read + s.output.yielded.length
  yielded : s.output.yielded <+: (s.lines.drop read).map shown

theorem Polled.poll {read : Nat} (p : Polled read s) : Polled read s.poll := by
  cases live : s.output.ended with
  | some res =>
    have same : s.poll = s := by simp only [Draining.poll, live]
    rw [same]
    exact p
  | none =>
    rcases poll_cases live p.asked p.waits with ⟨line, rest, queue, hs⟩ | ⟨-, e, -, hs⟩
    · rw [hs]
      refine ⟨p.asked, p.waits, p.unreturned, ?_, ?_⟩
      · simp only [yieldNext, List.length_append, List.length_singleton]
        rw [p.cursor]
        omega
      · have at_cursor : (s.lines.drop read).drop s.output.yielded.length = line :: rest := by
          rw [List.drop_drop, ← p.cursor]
          exact queue
        have taken := List.prefix_iff_eq_take.mp p.yielded
        refine ⟨rest.map shown, ?_⟩
        have split := List.take_append_drop s.output.yielded.length ((s.lines.drop read).map shown)
        rw [← taken, ← List.map_drop, at_cursor] at split
        change s.output.yielded ++ [shown line] ++ rest.map shown = (s.lines.drop read).map shown
        rw [← split, List.append_assoc]
        rfl
    · rw [hs]
      exact ⟨p.asked, p.waits, by simp [raised], p.cursor, p.yielded⟩

theorem Polled.step {read : Nat} {t : Turn} (p : Polled read s) (hs : s.step bc t = some s') :
    Polled read s' := by
  cases t with
  | poll =>
    cases hs
    exact p.poll
  | process a =>
    obtain ⟨process, ha, rfl⟩ := Option.map_eq_some_iff.mp hs
    obtain ⟨new, more⟩ := Process.step_threadSend ha
    refine ⟨p.asked, p.waits, p.unreturned, p.cursor, p.yielded.trans (List.IsPrefix.map shown ?_)⟩
    rw [lines, lines, ← more, List.drop_append]
    exact List.prefix_append _ _

end Draining

open Draining

variable {bc : Bincode}

-- every line, in order, and then the end of the iteration, with the future done
def Drains {start : Draining} (e : (machine bc start).Endless) (future : Sender) : Prop :=
  ∃ n, (e.states n).output.ended = some (.ok ()) ∧
    (e.states n).output.yielded = ((e.states n).lines.drop start.read).map shown ∧
    (e.states n).process.thread.state.results future ≠ []

section

variable {start : Process} {read : Nat} {future : Sender}
  {e : (machine bc ⟨start, read, output (some future)⟩).Endless}

theorem polled_states (begins : e.states 0 = ⟨start, read, output (some future)⟩) (n : Nat) :
    Polled read (e.states n) := by
  refine e.invariant ?_ (fun s t s' p hs => p.step hs) n
  rw [begins]
  exact ⟨rfl, rfl, by simp [output], rfl, List.nil_prefix⟩

def Raises (read : Nat) (s : Draining) : Prop :=
  ∃ err, Failure err ∧ s.output.ended = some (.error err) ∧ s.output.yielded = (s.lines.drop read).map shown

theorem Draining.Polled.turn {s s' : Draining} {t : Turn} (p : Polled read s) (live : s.output.ended = none)
    (hs : s.step bc t = some s') :
    Raises read s' ∨ (∃ line, s'.output = (s.yieldNext line).output) ∨ t ≠ .poll ∧ s'.output = s.output := by
  cases t with
  | process a =>
    obtain ⟨process, -, rfl⟩ := Option.map_eq_some_iff.mp hs
    exact .inr (.inr ⟨by simp, rfl⟩)
  | poll =>
    cases hs
    rcases poll_cases live p.asked p.waits with ⟨line, -, -, next⟩ | ⟨queue, err, failure, next⟩
    · exact .inr (.inl ⟨line, by rw [next]⟩)
    · refine .inl ⟨err, failure, ?_⟩
      have whole := List.prefix_iff_eq_take.mp p.yielded
      rw [List.take_of_length_le] at whole
      · rw [next]
        exact ⟨rfl, whole⟩
      · rw [List.length_map, List.length_drop]
        have none := List.drop_eq_nil_iff.mp queue
        have cursor := p.cursor
        omega

-- with finitely many lines it yields them all and then raises, whether the future is done or not
theorem output_never_drains (begins : e.states 0 = ⟨start, read, output (some future)⟩)
    (polls : ∀ n, ∃ m, n ≤ m ∧ e.labels m = .poll) {bound : Nat}
    (finite : ∀ n, (e.states n).lines.length ≤ bound) :
    ¬ Drains e future ∧ ∃ n, Raises read (e.states n) := by
  have polled := polled_states begins
  refine ⟨fun ⟨n, returned, _⟩ => (polled n).unreturned returned, ?_⟩
  by_contra never
  have turn : ∀ n, (e.states n).output.ended = none →
      (∃ line, (e.states (n + 1)).output = ((e.states n).yieldNext line).output) ∨
        e.labels n ≠ .poll ∧ (e.states (n + 1)).output = (e.states n).output := by
    intro n live
    rcases (polled n).turn live (e.steps n) with raises | next
    · exact absurd ⟨n + 1, raises⟩ never
    · exact next
  have live : ∀ n, (e.states n).output.ended = none := by
    intro n
    induction n with
    | zero =>
      rw [begins]
      rfl
    | succ n ih =>
      rcases turn n ih with ⟨line, next⟩ | ⟨-, next⟩
      · rw [next]
        exact ih
      · rw [next]
        exact ih
  -- each poll yields one more of the lines
  have ends : ∃ n, (e.states n).output.ended ≠ none := by
    refine @Machine.Endless.reaches _ _ _ e (· = .poll) (fun s => s.output.ended ≠ none)
      (fun s => s.output.yielded.length) bound polls (fun n => ?_) (fun n poll => .inr ?_) fun n => ?_
    · rcases turn n (live n) with ⟨line, next⟩ | ⟨-, next⟩
      · simp [next, yieldNext]
      · simp [next]
    · rcases turn n (live n) with ⟨line, next⟩ | ⟨other, -⟩
      · simp [next, yieldNext]
      · exact absurd poll other
    · have short := (polled n).yielded.length_le
      rw [List.length_map, List.length_drop] at short
      have le := finite n
      omega
  obtain ⟨n, ended⟩ := ends
  exact ended (live n)

end

def polling (bc : Bincode) (start : Draining) : (machine bc start).Endless where
  states n := Draining.poll^[n] start
  labels _ := .poll
  steps n := by
    rw [Function.iterate_succ_apply']
    rfl

theorem poll_process (s : Draining) : s.poll.process = s.process := by
  cases live : s.output.ended <;> simp only [Draining.poll, live]

theorem polling_process (start : Draining) (n : Nat) :
    ((polling bc start).states n).process = start.process := by
  induction n with
  | zero => rfl
  | succ n ih =>
    have next : (polling bc start).states (n + 1) = ((polling bc start).states n).poll :=
      Function.iterate_succ_apply' _ _ _
    rw [next, poll_process, ih]

-- a line, and the response, have arrived
def printSeven : List Action :=
  [.thread evalA, .thread (.head quietHead), .thread (readOutput outputFrame), .thread readSeven,
    .thread (.head quietHead)]

def printed : Process := ((Process.machine fixint).exec printSeven).getD (Process.machine fixint).init

theorem output_never_drains_printed :
    ∃ n, Raises 0 ((polling fixint ⟨printed, 0, output (some 0)⟩).states n) := by
  refine (@output_never_drains _ _ _ _ (polling fixint _) rfl (fun n => ⟨n, Nat.le_refl n, rfl⟩) 1 fun n => ?_).2
  rw [lines, polling_process]
  decide

theorem printed_not_drained :
    ¬ ∀ (e : (machine fixint ⟨printed, 0, output (some 0)⟩).Endless),
      e.states 0 = ⟨printed, 0, output (some 0)⟩ → (∀ n, ∃ m, n ≤ m ∧ e.labels m = .poll) →
        (∃ bound, ∀ n, (e.states n).lines.length ≤ bound) → Drains e 0 := by
  intro drains
  obtain ⟨n, returned, -⟩ := drains (polling fixint _) rfl (fun n => ⟨n, Nat.le_refl n, rfl⟩)
    ⟨1, fun n => by
      rw [lines, polling_process]
      decide⟩
  exact (polled_states rfl n).unreturned returned

end RemoteProcess
end PyProxy.Client
