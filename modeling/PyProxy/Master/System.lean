import PyProxy.Machine.Run
import PyProxy.Master.RunForever
import PyProxy.Poll.Notify

namespace PyProxy.Master
open Stream Protocol Server Poll

def Loop.act (c : Loop) : IoActions := c.ioActions.insertAll c.toInsert

def Loop.sockOf (c : Loop) (tk : Token) : Option Sock := (c.act tk).map IoAction.sock

def IoAction.listens : IoAction → Bool
  | .mainListener _ => true
  | .outputListener _ => true
  | .unixListener _ => true
  | _ => false

inductive Phase where
  | boot
  | turn (batch : List Event)
  | polling

def Phase.batch : Phase → List Event
  | .turn batch => batch
  | _ => []

structure System where
  flow : Flow Halt Loop
  phase : Phase

inductive Label where
  | boot (refused : Sock → Bool) (main output unix : Sock) (workers : List (Sock × Sock))
  | head (io : HeadIo)
  | poll (events : List Event)
  | event (io : EventIo)
  | connect (tk : Token)
  | arrive (tk : Token) (bytes : List UInt8)
  | close (tk : Token)

namespace System

variable (env : Env)

def outcome : Except Error Loop → Loop → Flow Halt Loop
  | .ok c, _ => .running c
  | .error e, c => .returned c (.error (.err e))

def runs (s : System) : Bool :=
  match s.flow with
  | .running _ => true
  | .returned _ _ => false

theorem runs_iff {s : System} : s.runs = true ↔ ∃ c, s.flow = .running c := by
  simp only [runs]
  cases s.flow <;> simp

def touch (s : System) (c : Loop) (tk : Token) (listens : Bool)
    (f : Source Token UInt8 → Source Token UInt8) : Option System :=
  match c.act tk with
  | none => none
  | some act =>
    if act.listens = listens then
      some { s with flow := .running { c with os := c.os.modify act.sock f } }
    else none

def step (s : System) (l : Label) : Option System :=
  match s.flow with
  | .returned _ _ => none
  | .running c =>
    match l, s.phase with
    | .boot refused main output unix workers, .boot =>
      if (main :: output :: unix :: workers.flatMap fun w => [w.1, w.2]).all (· < c.os.next) then
        some ⟨outcome (c.boot refused main output unix workers) c, .turn []⟩
      else none
    | .head io, .turn [] =>
      if io.order.Perm c.outputStreams.keys then some ⟨c.head env io, .polling⟩ else none
    | .poll events, .polling =>
      match c.os.notifyAll c.sockOf events with
      | none => none
      | some os => some ⟨.running { c with os := os }, .turn events⟩
    | .event io, .turn (ev :: batch) => some ⟨c.event env ev io, .turn batch⟩
    | .connect tk, _ => s.touch c tk true .offer
    | .arrive tk bytes, _ => s.touch c tk false (·.arrive bytes)
    | .close tk, _ => s.touch c tk false .close
    | _, _ => none

def machine (next : Sock) : Machine System Label where
  init := ⟨.running (.new ⟨fun _ => .idle, next⟩), .boot⟩
  step := step env

inductive StepCase (s : System) (c : Loop) : Label → System → Prop where
  | boot (refused main output unix workers) (phase : s.phase = .boot)
      (below : ∀ k ∈ main :: output :: unix :: workers.flatMap fun w => [w.1, w.2], k < c.os.next) :
      StepCase s c (.boot refused main output unix workers)
        ⟨outcome (c.boot refused main output unix workers) c, .turn []⟩
  | head (io) (phase : s.phase = .turn []) (order : io.order.Perm c.outputStreams.keys) :
      StepCase s c (.head io) ⟨c.head env io, .polling⟩
  | poll (events os) (phase : s.phase = .polling)
      (notified : c.os.notifyAll c.sockOf events = some os) :
      StepCase s c (.poll events) ⟨.running { c with os := os }, .turn events⟩
  | event (io ev batch) (phase : s.phase = .turn (ev :: batch)) :
      StepCase s c (.event io) ⟨c.event env ev io, .turn batch⟩
  | connect (tk act) (found : c.act tk = some act) (listens : act.listens = true) :
      StepCase s c (.connect tk)
        { s with flow := .running { c with os := c.os.modify act.sock .offer } }
  | arrive (tk act bytes) (found : c.act tk = some act) (listens : act.listens = false) :
      StepCase s c (.arrive tk bytes)
        { s with flow := .running { c with os := c.os.modify act.sock (·.arrive bytes) } }
  | close (tk act) (found : c.act tk = some act) (listens : act.listens = false) :
      StepCase s c (.close tk)
        { s with flow := .running { c with os := c.os.modify act.sock .close } }

theorem touch_some {s s' : System} {c : Loop} {tk : Token} {listens : Bool}
    {f : Source Token UInt8 → Source Token UInt8} (h : s.touch c tk listens f = some s') :
    ∃ act, c.act tk = some act ∧ act.listens = listens ∧
      s' = { s with flow := .running { c with os := c.os.modify act.sock f } } := by
  simp only [touch] at h
  cases ha : c.act tk with
  | none => simp [ha] at h
  | some act =>
    simp only [ha] at h
    obtain ⟨hl, heq⟩ := Option.ite_none_right_eq_some.mp h
    exact ⟨act, rfl, hl, (Option.some.inj heq).symm⟩

theorem step_cases {s s' : System} {l : Label} (h : step env s l = some s') :
    ∃ c, s.flow = .running c ∧ StepCase env s c l s' := by
  simp only [step] at h
  cases hf : s.flow with
  | returned => simp [hf] at h
  | running c =>
    refine ⟨c, rfl, ?_⟩
    simp only [hf] at h
    split at h
    · rename_i phase
      obtain ⟨below, heq⟩ := Option.ite_none_right_eq_some.mp h
      cases heq
      exact .boot _ _ _ _ _ phase (by simpa only [List.all_eq_true, decide_eq_true_eq] using below)
    · rename_i phase
      obtain ⟨order, heq⟩ := Option.ite_none_right_eq_some.mp h
      cases heq
      exact .head _ phase order
    · rename_i events phase
      cases hos : c.os.notifyAll c.sockOf events with
      | none => simp [hos] at h
      | some os =>
        simp only [hos] at h
        cases h
        exact .poll _ _ phase hos
    · rename_i phase
      cases h
      exact .event _ _ _ phase
    · obtain ⟨act, found, listens, rfl⟩ := touch_some h
      exact .connect _ act found listens
    · obtain ⟨act, found, listens, rfl⟩ := touch_some h
      exact .arrive _ act _ found listens
    · obtain ⟨act, found, listens, rfl⟩ := touch_some h
      exact .close _ act found listens
    · cases h

end System
end PyProxy.Master
