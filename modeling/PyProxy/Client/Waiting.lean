import PyProxy.Client.Futures
import PyProxy.Rpc.Channel

namespace PyProxy.Client
open Protocol Rpc

namespace Future

def waitNoTimeout (recv : Channel PythonResult) : Option (Except Error PythonResult × Channel PythonResult) :=
  match recv.recv with
  | none => none
  | some (.ok msg, recv) => some (.ok msg, recv)
  | some (.error _, recv) => some (.error .clientThreadDoesNotExist, recv)

def waitTimeout (recv : Channel PythonResult) : Except Error PythonResult × Channel PythonResult :=
  match recv.recvTimeout with
  | (.ok msg, recv) => (.ok msg, recv)
  | (.error .timeout, recv) => (.error .futureTimeout, recv)
  | (.error .disconnected, recv) => (.error .clientThreadDoesNotExist, recv)

def value : PythonResult → Except Error (List UInt8)
  | .error e => .error (.pythonResultError e)
  | .return ret => .ok ret

-- how long the call may wait decides nothing but when it returns
def wait (recv : Channel PythonResult) (timeout : Option UInt64) :
    Option (Except Error (List UInt8) × Channel PythonResult) :=
  match timeout with
  | some _ =>
    let (res, recv) := waitTimeout recv
    some (res.bind value, recv)
  | none => (waitNoTimeout recv).map fun (res, recv) => (res.bind value, recv)

theorem wait_cases {recv recv' : Channel PythonResult} {timeout : Option UInt64}
    {o : Except Error (List UInt8)} (h : wait recv timeout = some (o, recv')) :
    (∃ r rest, recv.queue = r :: rest ∧ o = value r ∧ recv' = recv.take) ∨
      recv.queue = [] ∧ recv' = recv ∧
        (recv.connected = true ∧ o = .error .futureTimeout ∨
          recv.connected = false ∧ o = .error .clientThreadDoesNotExist) := by
  cases hq : recv.queue with
  | cons r rest =>
    refine .inl ⟨r, rest, rfl, ?_⟩
    cases timeout <;>
      simp only [wait, waitTimeout, waitNoTimeout, Channel.recv, Channel.recvTimeout, hq] at h <;>
      cases h <;> exact ⟨rfl, rfl⟩
  | nil =>
    refine .inr ⟨rfl, ?_⟩
    cases hc : recv.connected <;> cases timeout <;>
      simp [wait, waitTimeout, waitNoTimeout, Channel.recv, Channel.recvTimeout, hq, hc] at h
    · exact ⟨h.2.symm, .inr ⟨rfl, h.1.symm⟩⟩
    · exact ⟨h.2.symm, .inr ⟨rfl, h.1.symm⟩⟩
    · exact ⟨h.2.symm, .inl ⟨rfl, h.1.symm⟩⟩

end Future

-- the wait of the Python class, around that of the extension module
namespace Wrapped

inductive Raised where
  | typeError
  | attributeError (name : String)
  | client (e : Error)
  deriving DecidableEq, Repr

def wait : Except Error (List UInt8) → Except Raised (List UInt8)
  | .ok ret => .ok ret
  -- an exception has no items: `exc[0]` raises before anything is unpickled
  | .error (.pythonResultError _) => .error .typeError
  | .error e => .error (.client e)

end Wrapped

-- a Python process: the background thread of its session and the futures it holds
structure Process where
  thread : Flow Error Loop
  history : History
  taken : Sender → Nat

inductive Action where
  | thread (l : Label)
  | wait (future : Sender) (timeout : Option UInt64)

def Loop.senders (c : Loop) : List Sender :=
  c.codeRecv.map EvalCode.futureSend ++ c.pendingFutures.entries.map Sigma.snd

namespace Process

-- the thread drops its senders when it ends
def sendable (s : Process) (f : Sender) : Bool :=
  match s.thread with
  | .running c => decide (f ∈ c.senders)
  | .returned _ _ => false

def recv (s : Process) (f : Sender) : Channel PythonResult where
  sent := s.thread.state.results f
  taken := s.taken f
  connected := s.sendable f

def waited (s : Process) (f : Sender) (timeout : Option UInt64) :
    Option (Except Error (List UInt8) × Channel PythonResult) :=
  if f < s.thread.state.nextSender then Future.wait (s.recv f) timeout else none

def took (s : Process) (f : Sender) (recv : Channel PythonResult) : Process :=
  { s with taken := Function.update s.taken f recv.taken }

variable (bc : Bincode)

def step (s : Process) : Action → Option Process
  | .thread l => ((machine bc).step (s.thread, s.history) l).map fun (thread, history) =>
      { s with thread := thread, history := history }
  | .wait f timeout => (s.waited f timeout).map fun (_, recv) => s.took f recv

def machine : Machine Process Action where
  init := ⟨.running .new, [], fun _ => 0⟩
  step := step bc

def calls (s : Process) : Action → List (Sender × Call PythonResult (Except Error (List UInt8)))
  | .thread _ => []
  | .wait f timeout =>
    match s.waited f timeout with
    | none => []
    | some (o, recv) => [(f, ⟨recv.sent.head?, o⟩)]

end Process

theorem Tracked.single {ls : List Label} {c : Loop} {h : History} (t : Tracked ls c h) :
    (c.senders ++ c.futures.map Prod.fst).Nodup := by
  have once := evals_handles ls
  rw [t.evals, List.map_append, submits_received, List.map_map] at once
  have known := replay_handles h
  rw [← t.table] at known
  have all : (c.senders ++ c.futures.map Prod.fst).Subperm
      ((submits h).map Prod.snd ++ c.codeRecv.map EvalCode.futureSend) := by
    rw [Loop.senders, List.append_assoc]
    exact ((List.subperm_append_left _).mpr known).trans List.perm_append_comm.subperm
  obtain ⟨l, perm, sub⟩ := all
  exact perm.nodup_iff.mp (sub.nodup once)

theorem Tracked.results_length {ls : List Label} {c : Loop} {h : History} (t : Tracked ls c h) (f : Sender) :
    (c.results f).length ≤ 1 := by
  have once := (List.nodup_append.mp t.single).2.1
  have count := List.nodup_iff_count_le_one.mp once f
  rw [List.count, List.countP_map, List.countP_eq_length_filter] at count
  rw [Loop.results, List.length_map]
  refine Nat.le_trans (Nat.le_of_eq ?_) count
  rfl

theorem Tracked.unsent {ls : List Label} {c : Loop} {h : History} (t : Tracked ls c h) {f : Sender}
    (held : f ∈ c.senders) : c.results f = [] := by
  rw [Loop.results, List.map_eq_nil_iff, List.filter_eq_nil_iff]
  intro p hp same
  have other := (List.nodup_append.mp t.single).2.2 f held p.1 (List.mem_map_of_mem hp)
  exact other (of_decide_eq_true same).symm

namespace Process

def Missed (o : Except Error (List UInt8)) : Prop :=
  o = .error .futureTimeout ∨ o = .error .clientThreadDoesNotExist

def callsOn (f : Sender) (ns : List (Sender × Call PythonResult (Except Error (List UInt8)))) :
    List (Call PythonResult (Except Error (List UInt8))) :=
  (ns.filter fun p => p.1 = f).map Prod.snd

structure Ledger (bc : Bincode) (ns : List (Sender × Call PythonResult (Except Error (List UInt8))))
    (s : Process) : Prop where
  thread : ∃ ls, (Client.machine bc).exec ls = some (s.thread, s.history)
  account : ∀ f, Account Future.value Missed (.error .clientThreadDoesNotExist)
    (s.thread.state.results f) (s.taken f) (callsOn f ns)

variable {bc : Bincode} {ns : List (Sender × Call PythonResult (Except Error (List UInt8)))} {s s' : Process}

theorem Ledger.threadStep (k : Ledger bc ns s) {l : Label} (hs : s.step bc (.thread l) = some s') :
    Ledger bc ns s' := by
  obtain ⟨ls, run⟩ := k.thread
  obtain ⟨⟨thread', history'⟩, hl, rfl⟩ := Option.map_eq_some_iff.mp hs
  have run' : (Client.machine bc).exec (ls ++ [l]) = some (thread', history') := by
    rw [Machine.exec_concat, run]
    exact hl
  have tracked := tracked_exec run
  have tracked' := tracked_exec run'
  have entries : ∃ g, history' = s.history ++ g := by
    cases ht : s.thread with
    | returned => simp [Client.machine, ht] at hl
    | running c =>
      rw [ht] at hl
      cases hl
      exact ⟨_, rfl⟩
  obtain ⟨g, rfl⟩ := entries
  have more : s.thread.state.futures <+: thread'.state.futures := by
    have grown := (replay s.history).resolved_initial g
    rw [← replay_append, ← tracked.table, ← tracked'.table] at grown
    exact grown
  refine ⟨⟨_, run'⟩, fun f => (k.account f).send ?_ (tracked'.results_length f)⟩
  exact (more.filter _).map _

theorem callsOn_same (f : Sender) (c : Call PythonResult (Except Error (List UInt8))) :
    callsOn f (ns ++ [(f, c)]) = callsOn f ns ++ [c] := by simp [callsOn]

theorem callsOn_other {f g : Sender} (other : f ≠ g) (c : Call PythonResult (Except Error (List UInt8))) :
    callsOn g (ns ++ [(f, c)]) = callsOn g ns := by simp [callsOn, other]

theorem Ledger.sent (k : Ledger bc ns s) {f : Sender} (connected : (s.recv f).connected = true) :
    s.thread.state.results f = [] := by
  obtain ⟨ls, run⟩ := k.thread
  have tracked := tracked_exec run
  cases ht : s.thread with
  | returned => simp [Process.recv, sendable, ht] at connected
  | running c =>
    rw [ht] at tracked
    have held : f ∈ c.senders := by simpa [Process.recv, sendable, ht] using connected
    exact tracked.unsent held

theorem Ledger.called (k : Ledger bc ns s) {f : Sender} {timeout : Option UInt64}
    {o : Except Error (List UInt8)} {recv : Channel PythonResult}
    (hw : Future.wait (s.recv f) timeout = some (o, recv)) :
    Account Future.value Missed (.error .clientThreadDoesNotExist)
      (s.thread.state.results f) recv.taken (callsOn f ns ++ [⟨recv.sent.head?, o⟩]) := by
  rcases Future.wait_cases hw with ⟨r, rest, queue, rfl, rfl⟩ | ⟨queue, rfl, ⟨connected, rfl⟩ | ⟨-, rfl⟩⟩
  · exact (k.account f).received queue
  · exact (k.account f).missed queue (.inl rfl) fun sent => absurd (k.sent connected) sent
  · exact (k.account f).missed queue (.inr rfl) fun _ => rfl

theorem Ledger.wait (k : Ledger bc ns s) {f : Sender} {timeout : Option UInt64}
    (hs : s.step bc (.wait f timeout) = some s') :
    Ledger bc (ns ++ s.calls (.wait f timeout)) s' := by
  obtain ⟨⟨o, recv⟩, hw, rfl⟩ := Option.map_eq_some_iff.mp hs
  have call : s.calls (.wait f timeout) = [(f, ⟨recv.sent.head?, o⟩)] := by simp only [calls, hw]
  have hf : Future.wait (s.recv f) timeout = some (o, recv) := by
    rw [waited] at hw
    split at hw
    · exact hw
    · cases hw
  rw [call]
  refine ⟨k.thread, fun g => ?_⟩
  rcases eq_or_ne f g with rfl | other
  · rw [callsOn_same]
    simpa [took] using k.called hf
  · rw [callsOn_other other]
    simpa [took, Function.update_of_ne other.symm] using k.account g

theorem ledger_run {as : List Action} (run : ((machine bc).traced calls).exec as = some (s, ns)) :
    Ledger bc ns s := by
  refine @Machine.invariant _ _ ((machine bc).traced calls) (fun p => Ledger bc p.2 p.1) ?_
    (fun p a p' k hl => ?_) _ _ run
  · exact ⟨⟨[], rfl⟩, fun f => .unanswered [] fun c hc => by cases hc⟩
  · obtain ⟨hs, hn⟩ := Machine.traced_step hl
    rw [hn]
    cases a with
    | thread l =>
      rw [calls, List.append_nil]
      exact k.threadStep hs
    | wait f timeout => exact k.wait hs

theorem missed_unlike (r : PythonResult) : ¬ Missed (Future.value r) := by
  cases r <;> simp [Missed, Future.value]

def MissedWrapped (o : Except Wrapped.Raised (List UInt8)) : Prop :=
  o = .error (.client .futureTimeout) ∨ o = .error (.client .clientThreadDoesNotExist)

theorem missed_wrapped (o : Except Error (List UInt8)) (miss : Missed o) : MissedWrapped (Wrapped.wait o) := by
  rcases miss with rfl | rfl
  · exact .inl rfl
  · exact .inr rfl

theorem missedWrapped_unlike (r : PythonResult) : ¬ MissedWrapped (Wrapped.wait (Future.value r)) := by
  cases r <;> simp [MissedWrapped, Future.value, Wrapped.wait]

theorem timeout_intact {f : Sender} {timeout : Option UInt64} {recv : Channel PythonResult}
    (hw : s.waited f timeout = some (.error .futureTimeout, recv)) : s.took f recv = s := by
  rw [waited] at hw
  split at hw
  · rcases Future.wait_cases hw with ⟨r, -, -, same, -⟩ | ⟨-, rfl, -⟩
    · cases r <;> cases same
    · simp [took, Process.recv]
  · cases hw

theorem wait_repeatable_iff {as : List Action}
    (run : ((machine bc).traced calls).exec as = some (s, ns)) (f : Sender) :
    (machine bc).Along (fun s a => ∀ g timeout recv, a = .wait g timeout →
        s.waited g timeout = some (.error .futureTimeout, recv) → s.took g recv = s) as ∧
      (Repeatable Future.value (callsOn f ns) ↔ answered (callsOn f ns) ≤ 1) ∧
      (Repeatable (fun r => Wrapped.wait (Future.value r)) ((callsOn f ns).map (Call.map Wrapped.wait)) ↔
        answered (callsOn f ns) ≤ 1) := by
  have account := (ledger_run run).account f
  refine ⟨fun _ _ _ s _ _ g timeout recv _ hw => timeout_intact hw, ?_, ?_⟩
  · exact account.repeatable_iff missed_unlike (.inr rfl)
  · rw [← answered_map Wrapped.wait]
    exact (account.map Wrapped.wait missed_wrapped).repeatable_iff missedWrapped_unlike (.inr rfl)

def waitSeven : List Action :=
  [.thread evalA, .wait 0 (some 1), .thread (.head quietHead), .thread readSeven, .thread (.head quietHead),
    .wait 0 none]

theorem wait_repeatable_iff_waitSeven :
    ∃ s ns, ((machine fixint).traced calls).exec waitSeven = some (s, ns) ∧
      Repeatable Future.value (callsOn 0 ns) := by
  have run : ((machine fixint).traced calls).exec waitSeven = some (_,
      [(0, ⟨none, .error .futureTimeout⟩), (0, ⟨some (.return [7]), .ok [7]⟩)]) := rfl
  exact ⟨_, _, run, (wait_repeatable_iff run 0).2.1.mpr (by decide)⟩

theorem second_wait_raises :
    ¬ ∀ as s ns, ((machine fixint).traced calls).exec as = some (s, ns) →
      ∀ f, Repeatable Future.value (callsOn f ns) := by
  intro repeatable
  have run : ((machine fixint).traced calls).exec (waitSeven ++ [.wait 0 none]) = some (_,
      [(0, ⟨none, .error .futureTimeout⟩), (0, ⟨some (.return [7]), .ok [7]⟩),
        (0, ⟨some (.return [7]), .error .clientThreadDoesNotExist⟩)]) := rfl
  have stable := (repeatable _ _ _ run 0).stable [⟨none, .error .futureTimeout⟩] _ _ (.return [7]) rfl rfl
  cases stable _ (List.mem_singleton_self _)

end Process
end PyProxy.Client
