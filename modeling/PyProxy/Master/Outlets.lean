import PyProxy.Master.Custody
import PyProxy.Master.RoundRobin

namespace PyProxy.Master
open Stream Protocol Server Poll Note

-- what waits to be written on the stream of a worker
structure Outlet where
  outFds : List Sock
  outbuffer : List UInt8

namespace Outlet

def empty : Outlet := ⟨[], []⟩

def write (fdQueue : FdQueue) (o : Outlet) (n : Nat) : Outlet :=
  ⟨if n = 0 then o.outFds else fdQueue.unsent o.outFds (.ok n), o.outbuffer.drop n⟩

def passed (fdQueue : FdQueue) (o : Outlet) (n : Nat) : List Sock := if n = 0 then [] else fdQueue.sent o.outFds n

def give (o : Outlet) (reqs : List Request) : Outlet :=
  ⟨o.outFds ++ reqs.map Prod.snd, o.outbuffer ++ reqs.flatMap (·.1.toList)⟩

variable {fdQueue : FdQueue}

theorem write_zero (o : Outlet) : o.write fdQueue 0 = o := by rw [write, if_pos rfl, List.drop_zero]

theorem write_empty (n : Nat) : empty.write fdQueue n = empty := by
  simp [write, empty, fdQueue.unsent_nil]

theorem give_nil (o : Outlet) : o.give [] = o := by simp [give]

theorem passed_write (inOrder : fdQueue.InOrder) (o : Outlet) (n : Nat) :
    o.passed fdQueue n ++ (o.write fdQueue n).outFds = o.outFds := by
  simp only [passed, write]
  split
  · rfl
  · rename_i some
    exact inOrder.sent o.outFds n (Nat.pos_of_ne_zero some)

end Outlet

-- a worker for each request that a loop head hands out; none where its queue is full
def Turn.placed (t : Turn) : List (Option Sock × Request) :=
  match t.worker with
  | none => []
  | some k => t.accepted.map (some k, ·) ++ (t.requests.drop t.accepted.length).map (none, ·)

def Turn.givenTo (t : Turn) (k : Sock) : List Request := if t.worker = some k then t.accepted else []

def written : IoResult Nat → Nat
  | .ok n => n
  | .error _ => 0

namespace Loop

def outlet (c : Loop) (k : Sock) : Outlet := ⟨(c.workers k).outFds, (c.workers k).outbuffer⟩

-- the write of an event on the stream of a worker
def writes (c : Loop) (ev : Event) (io : EventIo) : Option (Sock × IoResult Nat) :=
  match c.ioActions ev.token with
  | some (.workerStream k) =>
    if ev.writable then some (k, (c.os.write k (c.workers k).outbuffer.length io.write).1) else none
  | _ => none

def sentOn (c : Loop) (ev : Event) (io : EventIo) (k : Sock) : Nat :=
  match c.writes ev io with
  | some (j, res) => if j = k then written res else 0
  | none => 0

-- a write that gets nothing away costs no queued descriptor
def Lossless (env : Env) (c : Loop) (ev : Event) (io : EventIo) : Prop :=
  ∀ p ∈ c.writes ev io, written p.2 = 0 →
    env.fdQueue.unsent (c.workers p.1).outFds p.2 = (c.workers p.1).outFds

instance (env : Env) (c : Loop) (ev : Event) (io : EventIo) : Decidable (c.Lossless env ev io) :=
  inferInstanceAs (Decidable (∀ p ∈ c.writes ev io, _ → _))

variable {env : Env} {c c' : Loop} {ev : Event} {io : EventIo} {k : Sock}

theorem outlet_workers (h : c'.workers = c.workers) (k : Sock) : c'.outlet k = c.outlet k := by
  rw [outlet, h]
  rfl

theorem sentOn_other {a : IoAction} (ha : c.ioActions ev.token = some a) (h : a ≠ .workerStream k) :
    c.sentOn ev io k = 0 := by
  simp only [sentOn, writes, ha]
  cases a with
  | workerStream j =>
    cases ev.writable with
    | false => rfl
    | true => exact if_neg fun hj => h (by rw [hj])
  | _ => rfl

theorem outlet_set (c : Loop) (os : World Token UInt8) (k : Sock) (s : WorkerStream) (j : Sock) :
    outlet { c with os := os, workers := c.workers.set k s } j =
      if j = k then ⟨s.outFds, s.outbuffer⟩ else c.outlet j := by
  rw [outlet]
  dsimp only [Workers.set]
  split <;> rfl

theorem write_outlet {s : WorkerStream} {res : IoResult Nat}
    (lossless : written res = 0 → env.fdQueue.unsent s.outFds res = s.outFds) :
    (⟨(s.write env.fdQueue res).2.outFds, (s.write env.fdQueue res).2.outbuffer⟩ : Outlet) =
      Outlet.write env.fdQueue ⟨s.outFds, s.outbuffer⟩ (written res) := by
  cases res with
  | error e =>
    rw [written, Outlet.write_zero]
    exact congrArg (Outlet.mk · s.outbuffer) (lossless rfl)
  | ok n =>
    have fds : env.fdQueue.unsent s.outFds (.ok n) =
        if n = 0 then s.outFds else env.fdQueue.unsent s.outFds (.ok n) := by
      split
      · exact lossless ‹n = 0›
      · rfl
    simp only [WorkerStream.write, compact_eq_drop]
    exact congrArg (Outlet.mk · (s.outbuffer.drop n)) fds

theorem workerWrite_outlet
    (lossless : ev.writable = true → written (c.os.write k (c.workers k).outbuffer.length io.write).1 = 0 →
      env.fdQueue.unsent (c.workers k).outFds (c.os.write k (c.workers k).outbuffer.length io.write).1 =
        (c.workers k).outFds) (j : Sock) :
    (c.workerWrite env ev k io).outlet j = (c.outlet j).write env.fdQueue
      (if k = j ∧ ev.writable = true then written (c.os.write k (c.workers k).outbuffer.length io.write).1
        else 0) := by
  cases writable : ev.writable with
  | false =>
    rw [if_neg (by simp), Outlet.write_zero]
    simp [workerWrite, writable]
  | true =>
    have wrote := write_outlet (lossless writable)
    simp only [workerWrite, writable, if_true]
    rw [outlet_set]
    by_cases hj : k = j
    · subst hj
      rw [if_pos rfl, if_pos ⟨rfl, trivial⟩]
      exact wrote
    · rw [if_neg (Ne.symm hj), if_neg fun h => hj h.1, Outlet.write_zero]

-- the read of an event leaves alone what its write does
theorem workerRead_apart {d : Loop} (h : WorkerReadCase env c ev.token k d) :
    (∀ j, d.outlet j = c.outlet j) ∧ ∀ len io, (d.os.write k len io).1 = (c.os.write k len io).1 := by
  have put : ∀ {f : Source Token UInt8 → Source Token UInt8}, (∀ s, (f s).closed = s.closed) →
      ∀ len io, ((c.os.modify k f).write k len io).1 = (c.os.write k len io).1 := by
    intro f closed len io
    simp only [World.write, World.modify_same, Source.put, closed]
    split
    · rfl
    · split <;> rfl
  cases h with
  | failed => exact ⟨fun _ => rfl, @put Source.detach fun _ => rfl⟩
  | read n bytes read some fits decoded =>
    refine ⟨fun j => ?_, @put (·.drained n) fun _ => rfl⟩
    rw [outlet_set]
    split
    · rename_i hj
      rw [hj]
      rfl
    · rfl

theorem workerEvent_outlet (ha : c.ioActions ev.token = some (.workerStream k))
    (lossless : c.Lossless env ev io) (hc : c.workerEvent env ev k io = .running c') (j : Sock) :
    c'.outlet j = (c.outlet j).write env.fdQueue (c.sentOn ev io j) := by
  have sent : c.sentOn ev io j =
      if k = j ∧ ev.writable = true then written (c.os.write k (c.workers k).outbuffer.length io.write).1
        else 0 := by
    simp only [sentOn, writes, ha]
    cases ev.writable with
    | false => simp
    | true => simp
  have spared : ev.writable = true → written (c.os.write k (c.workers k).outbuffer.length io.write).1 = 0 →
      env.fdQueue.unsent (c.workers k).outFds (c.os.write k (c.workers k).outbuffer.length io.write).1 =
        (c.workers k).outFds := fun writable =>
    lossless (k, _) (by simp only [writes, ha, writable, if_true]; rfl)
  rw [sent]
  cases readable : ev.readable with
  | false =>
    simp only [workerEvent, readable] at hc
    cases hc
    exact workerWrite_outlet spared j
  | true =>
    obtain ⟨d, read, rfl⟩ := workerEvent_cases readable hc
    obtain ⟨same, put⟩ := workerRead_apart read
    have fds : (d.workers k).outFds = (c.workers k).outFds := congrArg Outlet.outFds (same k)
    have buffer : (d.workers k).outbuffer = (c.workers k).outbuffer := congrArg Outlet.outbuffer (same k)
    have wrote := @workerWrite_outlet env d ev io k (by rw [put, buffer, fds]; exact spared) j
    rwa [same, put, buffer] at wrote

def Unused (c : Loop) : Prop := ∀ k, c.os.next ≤ k → c.outlet k = .empty

theorem event_outlet {a : IoAction} (ha : c.ioActions ev.token = some a) (lossless : c.Lossless env ev io)
    (hc : c.event env ev io = .running c') (unused : c.Unused) (k : Sock) :
    c'.outlet k = (c.outlet k).write env.fdQueue (c.sentOn ev io k) := by
  have served := event_serves ha hc
  cases served with
  | other _ _ kind workers streams issued =>
    rw [sentOn_other ha fun worker => kind (by rw [worker]; rfl), Outlet.write_zero, outlet_workers workers]
  | joined j os ready accept ok registered =>
    rw [sentOn_other ha (fun worker => nomatch worker), Outlet.write_zero]
    have set := c.outlet_set (os.modify c.os.next (·.attach c.ioToken ro)) c.os.next (.new ro) k
    refine Eq.trans set ?_
    split
    · rename_i hk
      exact (unused k (Nat.le_of_eq hk.symm)).symm
    · rfl
  | worker j _ event => exact workerEvent_outlet ha lossless event k

theorem accepted_taken (c : Loop) (k : Sock) (h : (c.turn env).worker = some k) :
    (c.turn env).accepted = (c.workers k).accepted env.fdQueue c.newRequests := by
  rw [turn, show c.workerStreams.chosen = some k from h]

theorem dispatch_outlet (c : Loop) (k : Sock) :
    (c.settle.dispatch env).outlet k = (c.outlet k).give ((c.turn env).givenTo k) := by
  have worker : (c.turn env).worker = c.settle.workerStreams.chosen := rfl
  rw [Turn.givenTo, worker]
  cases chosen : c.settle.workerStreams.chosen with
  | none =>
    rw [if_neg (by simp), Outlet.give_nil, outlet, dispatch, WorkerStreams.dispatch_none chosen]
    rfl
  | some j =>
    by_cases hj : j = k
    · subst hj
      have queue : (c.settle.dispatch env).workers j =
          c.newRequests.foldl (WorkerStream.dispatch env.fdQueue) (c.workers j) :=
        WorkerStreams.dispatch_chosen chosen
      rw [if_pos rfl, accepted_taken c j (worker.trans chosen), outlet, queue, WorkerStream.dispatch_all]
      rfl
    · have other : (c.settle.dispatch env).workers k = c.workers k :=
        WorkerStreams.dispatch_other chosen (Ne.symm hj)
      rw [if_neg fun h => hj (Option.some.inj h), Outlet.give_nil, outlet, other]
      rfl

theorem head_outlet {io : HeadIo} (hc : c.head env io = .running c') (k : Sock) :
    c'.outlet k = (c.outlet k).give ((c.turn env).givenTo k) := by
  obtain ⟨i, same⟩ := (head_tunes hc).worker k
  rw [← dispatch_outlet, outlet, same]
  rfl

theorem placed_all {j : Sock} (worker : (c.turn env).worker = some j) :
    (c.turn env).placed.map Prod.snd = c.newRequests := by
  obtain ⟨refused, eq⟩ : (c.turn env).accepted <+: c.newRequests := by
    rw [accepted_taken c j worker]
    exact List.take_prefix _ _
  have requests : (c.turn env).requests = c.newRequests := rfl
  rw [Turn.placed, worker]
  dsimp only
  rw [List.map_append, List.map_map, List.map_map, requests, ← eq, List.drop_left]
  simp [Function.comp_def]

theorem head_newRequests {io : HeadIo} (hc : c.head env io = .running c') :
    (c.turn env).placed.map Prod.snd ++ c'.newRequests = c.newRequests := by
  rw [(head_tunes hc).newRequests]
  have worker : (c.turn env).worker = c.settle.workerStreams.chosen := rfl
  rw [Turn.placed, worker]
  cases chosen : c.settle.workerStreams.chosen with
  | none =>
    rw [dispatch, WorkerStreams.dispatch_none chosen]
    rfl
  | some j =>
    have none : (c.settle.dispatch env).newRequests = [] := WorkerStreams.dispatch_newRequests chosen
    have all : (c.turn env).placed.map Prod.snd = c.newRequests := placed_all (worker.trans chosen)
    rw [Turn.placed, worker, chosen] at all
    rw [none, List.append_nil]
    exact all

theorem placed_waiting (c : Loop) : (c.turn env).placed.map Prod.snd <+: c.newRequests := by
  cases worker : (c.turn env).worker with
  | none =>
    rw [Turn.placed, worker]
    exact List.nil_prefix
  | some j => exact placed_all worker ▸ List.prefix_rfl

theorem turn_placed (c : Loop) (k : Sock) : ((c.turn env).placed.filter fun p => p.1 = some k).map Prod.snd =
    (c.turn env).givenTo k := by
  rw [Turn.placed, Turn.givenTo]
  cases worker : (c.turn env).worker with
  | none => rfl
  | some j =>
    have refused : ∀ reqs : List Request,
        (reqs.map ((none : Option Sock), ·)).filter (fun p => decide (p.1 = some k)) = [] := fun reqs => by
      simp [List.filter_map, Function.comp_def]
    rw [List.filter_append, refused, List.append_nil]
    by_cases hj : j = k
    · simp [hj, List.filter_map, Function.comp_def]
    · simp [hj, List.filter_map, Function.comp_def]

theorem Unused.head {io : HeadIo} (h : c.Unused) (hc : c.head env io = .running c')
    (below : ∀ p ∈ c.workerStreams.streams, p.2 < c.os.next) : c'.Unused := by
  intro k hk
  rw [(head_tunes hc).next] at hk
  have unchosen : (c.turn env).givenTo k = [] := if_neg fun chosen => by
    have mem := WorkerStreams.chosen_mem chosen
    obtain ⟨p, hp, rfl⟩ := List.mem_map.mp mem
    exact absurd (below p hp) (Nat.not_lt.mpr hk)
  rw [head_outlet hc, unchosen, Outlet.give_nil]
  exact h k hk

end Loop

namespace System

variable {env : Env} {s s' : System} {l : Label} {ns : List Note} {issues : List Issue} {c c' : Loop}

-- the event that a step serves
def serves (s : System) (l : Label) : Option (Loop × Event × EventIo) :=
  match s.flow, l, s.phase with
  | .running c, .event io, .turn (ev :: _) => some (c, ev, io)
  | _, _, _ => none

def sentOn (s : System) (l : Label) (k : Sock) : Nat :=
  match s.serves l with
  | some (c, ev, io) => c.sentOn ev io k
  | none => 0

def Lossless (env : Env) (s : System) (l : Label) : Prop := ∀ p ∈ s.serves l, p.1.Lossless env p.2.1 p.2.2

instance (env : Env) (s : System) (l : Label) : Decidable (s.Lossless env l) :=
  inferInstanceAs (Decidable (∀ p ∈ s.serves l, p.1.Lossless env p.2.1 p.2.2))

-- what the head of the loop hands out in a step
def placed (env : Env) (s : System) (l : Label) : List (Option Sock × Request) :=
  (s.turns env l).flatMap Turn.placed

def givenTo (env : Env) (s : System) (l : Label) (k : Sock) : List Request :=
  (s.turns env l).flatMap (Turn.givenTo · k)

theorem placed_givenTo (s : System) (l : Label) (k : Sock) :
    ((s.placed env l).filter fun p => p.1 = some k).map Prod.snd = s.givenTo env l k := by
  simp only [placed, givenTo, turns]
  split
  · simp [Loop.turn_placed]
  · rfl

theorem placed_waiting (hs : s.flow = .running c) (l : Label) :
    (s.placed env l).map Prod.snd <+: c.newRequests := by
  simp only [placed, turns, hs]
  split
  · rename_i d io running
    cases running
    rw [List.flatMap_singleton]
    exact c.placed_waiting
  · exact List.nil_prefix

-- what a step does to the queues between the clients and the workers
structure Carries (env : Env) (s : System) (l : Label) (c c' : Loop) : Prop where
  outlet : ∀ k, c'.outlet k = ((c.outlet k).write env.fdQueue (s.sentOn l k)).give (s.givenTo env l k)
  requests : (s.placed env l).map Prod.snd ++ c'.newRequests = c.newRequests ++ pushes (s.noted l)
  unused : c'.Unused

section
variable (turns : s.turns env l = [])
include turns

theorem Carries.same (sent : ∀ k, s.sentOn l k = 0) (outlet : ∀ k, c'.outlet k = c.outlet k)
    (requests : c'.newRequests = c.newRequests) (unused : c'.Unused)
    (unpushed : pushes (s.noted l) = []) : Carries env s l c c' where
  outlet k := by
    rw [sent, givenTo, turns, List.flatMap_nil, Outlet.give_nil, Outlet.write_zero]
    exact outlet k
  requests := by
    rw [placed, turns, unpushed, List.append_nil]
    exact requests
  unused := unused

theorem Carries.event {io : EventIo} {ev : Event} {a : IoAction} (unused : c.Unused)
    (lossless : c.Lossless env ev io)
    (sent : s.sentOn l = c.sentOn ev io) (noted : s.noted l = c.noted ev io) (ha : c.ioActions ev.token = some a)
    (hc : c.event env ev io = .running c')
    (room : ∀ s, c.ioActions ev.token = some (.clientStream s) → 0 < s.room) : Carries env s l c c' where
  outlet k := by
    rw [sent, givenTo, turns, List.flatMap_nil, Outlet.give_nil]
    exact Loop.event_outlet ha lossless hc unused k
  requests := by
    rw [placed, turns, noted]
    exact (Loop.event_requests room hc).1
  unused k hk := by
    rw [Loop.event_outlet ha lossless hc unused, unused k (Nat.le_trans (Loop.event_apart ha hc).next hk)]
    exact Outlet.write_empty _

end

theorem Carries.head {io : HeadIo} (hs : s.flow = .running c) (unused : c.Unused)
    (below : ∀ p ∈ c.workerStreams.streams, p.2 < c.os.next) (hc : c.head env io = .running c') :
    Carries env s (.head io) c c' where
  outlet k := by
    have turns : s.turns env (.head io) = [c.turn env] := by simp [turns, hs]
    have sent : s.sentOn (.head io) k = 0 := by simp [sentOn, serves, hs]
    rw [sent, givenTo, turns, List.flatMap_singleton, Outlet.write_zero]
    exact Loop.head_outlet hc k
  requests := by
    have turns : s.turns env (.head io) = [c.turn env] := by simp [turns, hs]
    have noted : s.noted (.head io) = [] := by simp [noted, hs]
    rw [placed, turns, noted, List.flatMap_singleton]
    exact (Loop.head_newRequests hc).trans (List.append_nil _).symm
  unused := unused.head hc below

theorem carries (custody : Custody ns s) (w : Wired issues s) (hs : step env s l = some s')
    (lossless : s.Lossless env l) (hc : s.flow = .running c) (hc' : s'.flow = .running c')
    (unused : c.Unused) : Carries env s l c c' := by
  obtain ⟨d, hd, hcase⟩ := step_cases env hs
  cases hc.symm.trans hd
  have wired := w.wired c hc
  have kept := custody.custody c hc
  cases hcase with
  | boot refused main output unix workers phase below =>
    cases hb : c.boot refused main output unix workers with
    | error e => simp [hb, outcome] at hc'
    | ok d =>
      rw [hb] at hc'
      cases hc'
      have rest := (Loop.boot_boots hb).rest
      have workers : ∀ k, c'.outlet k = c.outlet k := Loop.outlet_workers (by rw [rest])
      refine .same (by simp [turns, hc]) (by simp [sentOn, serves, hc]) workers (by rw [rest]) (fun k _ => ?_)
        (by simp [noted, hc, pushes])
      rw [workers, (w.boot c hc phase).2]
      rfl
  | head io phase order =>
    exact .head hc unused (fun p hp => (wired.below _ (wired.workers p hp)).2) hc'
  | poll events os phase notified =>
    cases hc'
    refine .same (by simp [turns, hc]) (by simp [sentOn, serves, hc]) (fun _ => rfl) rfl (fun k hk => ?_)
      (by simp [noted, hc, pushes])
    exact unused k (Nat.le_trans (Nat.le_of_eq (World.notifyAll_some notified).1.1.symm) hk)
  | event io ev batch phase =>
    rw [phase] at wired kept
    obtain ⟨a, ha⟩ := Option.isSome_iff_exists.mp (wired.held ev.token (by simp [Phase.pend]))
    have serves : s.serves (.event io) = some (c, ev, io) := by simp [serves, hc, phase]
    refine .event (by simp [turns, hc]) unused (lossless _ serves) ?_ (by simp [noted, hc, phase]) ha hc'
      fun cs hcs => ?_
    · funext k
      rw [sentOn, serves]
    · cases (kept.clients _ cs (wired.act_of hcs)).stage with
      | reading _ _ short => exact Nat.sub_pos_of_lt short
      | handedOff _ _ spent => exact absurd List.mem_cons_self spent
      | failed _ spent => exact absurd List.mem_cons_self spent
  | connect tk act found listens =>
    cases hc'
    exact .same (by simp [turns, hc]) (by simp [sentOn, serves, hc]) (fun _ => rfl) rfl unused
      (by simp [noted, hc, pushes])
  | arrive tk act bytes found listens =>
    cases hc'
    refine .same (by simp [turns, hc]) (by simp [sentOn, serves, hc]) (fun _ => rfl) rfl unused ?_
    simp [noted, hc, Loop.sockOf, found, pushes, request?]
  | close tk act found listens =>
    cases hc'
    exact .same (by simp [turns, hc]) (by simp [sentOn, serves, hc]) (fun _ => rfl) rfl unused
      (by simp [noted, hc, pushes])

-- a step that ends the loop pushes nothing
theorem halting_unpushed (hs : step env s l = some s') (halted : ∀ c', s'.flow ≠ .running c') :
    pushes (s.noted l) = [] := by
  obtain ⟨c, hc, hcase⟩ := step_cases env hs
  cases hcase with
  | boot => simp [noted, hc, pushes]
  | head => simp [noted, hc, pushes]
  | poll events os phase notified => exact absurd rfl (halted _)
  | event io ev batch phase =>
    have silent : s.noted (.event io) = c.noted ev io := by simp [noted, hc, phase]
    rw [silent]
    cases ha : c.ioActions ev.token with
    | none => simp [Loop.noted, ha, pushes]
    | some a =>
      simp only [Loop.noted, ha]
      cases a with
      | mainListener j => exact Loop.opened_pushes
      | outputListener j => exact Loop.opened_pushes
      | unixListener j => exact Loop.opened_pushes
      | clientStream cs =>
        refine absurd ?_ (halted (c.clientEvent ev.token cs io))
        simp only [Loop.event, ha]
      | _ => rfl
  | connect tk act found listens => exact absurd rfl (halted _)
  | arrive tk act bytes found listens => exact absurd rfl (halted _)
  | close tk act found listens => exact absurd rfl (halted _)

end System
end PyProxy.Master
