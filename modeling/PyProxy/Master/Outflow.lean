import PyProxy.Master.Outlets
import PyProxy.Master.Stability

namespace PyProxy.Master
open Stream Protocol Server Poll Lines

-- a line for the client behind an output connection
structure Handed where
  conn : Sock
  msgType : Output.MessageType
  line : List UInt8
  deriving DecidableEq

namespace Handed

def frame (h : Handed) : List UInt8 := Output.newMsg ⟨h.msgType, h.line.length⟩ h.line

def linesTo (k : Sock) (hs : List Handed) : List Handed := hs.filter (·.conn = k)

theorem linesTo_append (k : Sock) (hs hs' : List Handed) : linesTo k (hs ++ hs') = linesTo k hs ++ linesTo k hs' :=
  List.filter_append ..

end Handed

namespace OutputStream

theorem hello_outbuffer (bc : Bincode) {s s' : OutputStream} (h : s.hello bc = .ok s') :
    s'.outbuffer = s.outbuffer := by
  simp only [hello] at h
  split at h
  · cases h
    rfl
  · split at h
    · cases h
    · split at h
      · cases h
        rfl
      · split at h
        · cases h
          rfl
        · split at h <;> cases h
          rfl

theorem read_outbuffer (bc : Bincode) (s : OutputStream) (res : IoResult (List UInt8)) :
    (s.read bc res).2.outbuffer = s.outbuffer := by
  cases res with
  | error e => rfl
  | ok bytes =>
    simp only [read]
    split
    · rfl
    · rename_i s' hs
      exact (hello_outbuffer bc hs).trans rfl

end OutputStream

namespace Loop

variable {env : Env} {c c' : Loop} {ev : Event} {io : EventIo} {k : Sock}

def unsent (c : Loop) (k : Sock) : List UInt8 := (c.outputs k).outbuffer

-- the lines that an event takes off a pipe for a session with an output connection
def handed (c : Loop) (ev : Event) (io : EventIo) : List Handed :=
  match c.captured ev io with
  | none => []
  | some r =>
    match c.outputStreams.lookup r.sessionId with
    | none => []
    | some k => r.lines.map fun line => ⟨k, r.msgType, slice r.frame.buffer line⟩

-- what an event puts on an output connection, which it reads first
def wroteOn (env : Env) (c : Loop) (ev : Event) (io : EventIo) (k : Sock) : List UInt8 :=
  match c.ioActions ev.token with
  | some (.outputStream j) =>
    if j = k ∧ ev.writable = true then
      let c := c.outputRead env ev k io
      (c.unsent k).take (written (c.os.write k (c.unsent k).length io.write).1)
    else []
  | _ => []

theorem unsent_set (c : Loop) (os : World Token UInt8) (j : Sock) (s : OutputStream) (k : Sock) :
    unsent { c with os := os, outputs := c.outputs.set j s } k = if k = j then s.outbuffer else c.unsent k := by
  rw [unsent]
  dsimp only [Outputs.set]
  split <;> rfl

theorem outputRead_unsent (j k : Sock) : (c.outputRead env ev j io).unsent k = c.unsent k := by
  by_cases other : k = j
  · subst other
    simp only [outputRead]
    split
    · have same := (c.outputs k).read_outbuffer env.bc (c.os.read k bufferSize io.read).1
      generalize c.os.read k bufferSize io.read = r at same ⊢
      obtain ⟨res, os⟩ := r
      dsimp only at same ⊢
      generalize (c.outputs k).read env.bc res = r at same ⊢
      obtain ⟨res', s⟩ := r
      have dropped : ∀ d : Loop, (d.dropIfErr ev.token k res').unsent k = d.unsent k := by
        intro d
        cases res' <;> rfl
      have opened : ∀ (d : Loop) (refused : Bool), (d.openOutput ev.token k refused).unsent k = d.unsent k := by
        intro d refused
        simp only [openOutput, OutputStream.takeSessionId]
        split
        · exact (unsent_set d d.os k _ k).trans (if_pos rfl)
        · split <;> exact (unsent_set d d.os k _ k).trans (if_pos rfl)
      rw [opened, dropped]
      exact (unsent_set c os k s k).trans ((if_pos rfl).trans same)
    · rfl
  · exact congrArg OutputStream.outbuffer (outputRead_others other)

theorem outputWrite_unsent (j k : Sock) :
    (if j = k ∧ ev.writable = true then
      (c.unsent k).take (written (c.os.write k (c.unsent k).length io.write).1) else []) ++
        (c.outputWrite ev j io).unsent k = c.unsent k := by
  cases writable : ev.writable with
  | false => simp [outputWrite, writable]
  | true =>
    have hcase := @outputWrite_cases c j io ev writable
    generalize c.outputWrite ev j io = d at hcase ⊢
    cases hcase with
    | failed e os got =>
      split
      · rename_i own
        obtain ⟨rfl, -⟩ := own
        rw [unsent, got]
        rfl
      · rfl
    | written n os got =>
      rw [unsent_set]
      by_cases own : j = k
      · subst own
        have here : j = j ∧ true = true := ⟨rfl, rfl⟩
        rw [if_pos here, if_pos rfl, unsent, got]
        exact List.take_append_drop n _
      · rw [if_neg fun h => own h.1, if_neg (Ne.symm own)]
        rfl

-- no socket that is still to be opened has anything to be written
def Unopened (c : Loop) : Prop := ∀ k, c.os.next ≤ k → c.unsent k = []

theorem handed_none (none : c.captured ev io = none) : c.handed ev io = [] := by
  rw [handed, none]

theorem wroteOn_other {a : IoAction} (ha : c.ioActions ev.token = some a) (kind : a.kind ≠ .outputStream) :
    c.wroteOn env ev io k = [] := by
  simp only [wroteOn, ha]
  cases a with
  | outputStream j => exact absurd rfl kind
  | _ => rfl

theorem pipeEvent_unsent {msgType : Output.MessageType} {wrap : PipeFrame → IoAction} {tk : Token} {f : PipeFrame}
    (captured : c.captured ev io = f.capture msgType io.echo (c.os.read f.recv bufferSize io.read).1) (k : Sock) :
    (c.pipeEvent (OutputStream.send msgType) wrap tk f io).unsent k =
      c.unsent k ++ (Handed.linesTo k (c.handed ev io)).flatMap Handed.frame := by
  have silent : c.handed ev io = [] →
      c.unsent k = c.unsent k ++ (Handed.linesTo k (c.handed ev io)).flatMap Handed.frame := by
    intro none
    rw [none]
    exact (List.append_nil _).symm
  have hcase := pipeEvent_cases (OutputStream.send msgType) wrap c tk f io
  generalize c.pipeEvent (OutputStream.send msgType) wrap tk f io = d at hcase ⊢
  cases hcase with
  | failed res os e out f' got read =>
    rw [got, PipeFrame.capture, read] at captured
    exact silent (handed_none captured)
  | outside res os out f' got read =>
    rw [got, PipeFrame.capture, read] at captured
    exact silent (handed_none captured)
  | unbound res os sessionId lines out f' got read none =>
    rw [got, PipeFrame.capture, read] at captured
    refine silent ?_
    simp only [handed, captured, none]
  | sent res os sessionId lines out f' j got read some =>
    rw [got, PipeFrame.capture, read] at captured
    have handed : c.handed ev io = lines.map fun line => ⟨j, msgType, slice f'.buffer line⟩ := by
      simp only [handed, captured, some]
    rw [unsent]
    dsimp only
    rw [OutputStream.send_all, handed]
    by_cases own : k = j
    · subst own
      rw [Outputs.set_same, Handed.linesTo, List.filter_map, List.filter_eq_self.mpr (by simp), List.flatMap_map,
        OutputStream.frames, List.flatMap_map]
      rfl
    · have nothing : Handed.linesTo k (lines.map fun line => ⟨j, msgType, slice f'.buffer line⟩) = [] := by
        rw [Handed.linesTo, List.filter_eq_nil_iff]
        simp [Ne.symm own]
      rw [Outputs.set_other _ _ own, nothing]
      exact (List.append_nil _).symm

theorem event_unsent {a : IoAction} (ha : c.ioActions ev.token = some a) (hc : c.event env ev io = .running c')
    (unopened : c.Unopened) (k : Sock) : c.wroteOn env ev io k ++ c'.unsent k =
      c.unsent k ++ (Handed.linesTo k (c.handed ev io)).flatMap Handed.frame := by
  have quiet : c.captured ev io = none → a.kind ≠ .outputStream → c'.unsent k = c.unsent k →
      c.wroteOn env ev io k ++ c'.unsent k =
        c.unsent k ++ (Handed.linesTo k (c.handed ev io)).flatMap Handed.frame := by
    intro none kind same
    rw [wroteOn_other ha kind, handed_none none, same]
    exact (List.append_nil _).symm
  have event := hc
  simp only [Loop.event, ha] at event
  cases a with
  | mainListener j =>
    refine quiet (by simp [captured, ha]) Kind.noConfusion ?_
    cases acceptMain_cases event <;> rfl
  | outputListener j =>
    refine quiet (by simp [captured, ha]) Kind.noConfusion ?_
    cases event
    have hcase := c.acceptOutput_cases j io
    generalize c.acceptOutput j io = d at hcase ⊢
    cases hcase with
    | idle none => rfl
    | dropped os ready accept ok refused => rfl
    | adopted os ready accept ok registered =>
      refine (unsent_set c (os.modify c.os.next (·.attach c.ioToken ro)) c.os.next _ k).trans ?_
      split
      · rename_i new
        exact (unopened k (Nat.le_of_eq new.symm)).symm
      · rfl
  | unixListener j =>
    refine quiet (by simp [captured, ha]) Kind.noConfusion ?_
    cases acceptUnix_cases event <;> rfl
  | clientStream s =>
    refine quiet (by simp [captured, ha]) Kind.noConfusion ?_
    cases event
    simp only [clientEvent]
    generalize s.read (c.os.read s.stream s.room io.read).1 = r
    obtain ⟨_ | _ | _ | _, s'⟩ := r <;> rfl
  | workerStream j =>
    refine quiet (by simp [captured, ha]) Kind.noConfusion ?_
    rw [unsent, (workerEvent_outputs event).2]
    rfl
  | outputStream j =>
    cases event
    have none : c.captured ev io = none := by simp [captured, ha]
    have wrote := @outputWrite_unsent (c.outputRead env ev j io) ev io j k
    rw [outputRead_unsent] at wrote
    rw [handed_none none]
    refine Eq.trans ?_ (wrote.trans (List.append_nil _).symm)
    simp only [wroteOn, ha]
    by_cases own : j = k
    · subst own
      rw [outputRead_unsent]
    · rw [if_neg fun h => own h.1, if_neg fun h => own h.1]
  | stdout f =>
    cases event
    rw [wroteOn_other ha Kind.noConfusion]
    exact pipeEvent_unsent (by simp [captured, ha]) k
  | stderr f =>
    cases event
    rw [wroteOn_other ha Kind.noConfusion]
    exact pipeEvent_unsent (by simp [captured, ha]) k

theorem head_unsent {io : HeadIo} (hc : c.head env io = .running c') (k : Sock) : c'.unsent k = c.unsent k := by
  obtain ⟨i, same⟩ := (head_tunes hc).output k
  rw [unsent, same]
  rfl

theorem handed_known {issues : List Issue} {pend : List Token} (w : Wired issues pend c) :
    ∀ h ∈ c.handed ev io, h.conn < c.os.next := by
  intro h hm
  simp only [handed] at hm
  split at hm
  · cases hm
  · split at hm
    · cases hm
    · rename_i j routed
      obtain ⟨line, -, rfl⟩ := List.mem_map.mp hm
      obtain ⟨tk, issued⟩ := w.sessions _ j routed
      exact (w.below _ issued).2

theorem Unopened.event {issues : List Issue} {pend : List Token} (w : Wired issues pend c) {a : IoAction}
    (ha : c.ioActions ev.token = some a) (hc : c.event env ev io = .running c') (unopened : c.Unopened) :
    c'.Unopened := by
  intro k hk
  have below := Nat.le_trans (event_apart ha hc).next hk
  have nothing : Handed.linesTo k (c.handed ev io) = [] :=
    List.filter_eq_nil_iff.mpr fun h hm own =>
      absurd (handed_known w h hm) (Nat.not_lt.mpr (of_decide_eq_true own ▸ below))
  have out := event_unsent ha hc unopened k
  rw [nothing, unopened k below] at out
  exact (List.append_eq_nil_iff.mp out).2

end Loop

namespace System

variable {env : Env} {s s' : System} {l : Label} {issues : List Issue} {c c' : Loop}

def wroteOn (env : Env) (s : System) (l : Label) (k : Sock) : List UInt8 :=
  match s.flow, l, s.phase with
  | .running c, .event io, .turn (ev :: _) => c.wroteOn env ev io k
  | _, _, _ => []

def handed (s : System) (l : Label) : List Handed :=
  match s.flow, l, s.phase with
  | .running c, .event io, .turn (ev :: _) => c.handed ev io
  | _, _, _ => []

-- what a step does to the bytes that the output connections still have to carry
structure Flows (env : Env) (s : System) (l : Label) (c c' : Loop) : Prop where
  unsent : ∀ k, s.wroteOn env l k ++ c'.unsent k =
    c.unsent k ++ (Handed.linesTo k (s.handed l)).flatMap Handed.frame
  unopened : c'.Unopened

theorem Flows.same (wrote : ∀ k, s.wroteOn env l k = []) (handed : s.handed l = [])
    (unsent : ∀ k, c'.unsent k = c.unsent k) (unopened : c'.Unopened) : Flows env s l c c' where
  unsent k := by
    rw [wrote, handed, unsent]
    exact (List.append_nil _).symm
  unopened := unopened

theorem flows (w : Wired issues s) (hs : step env s l = some s') (hc : s.flow = .running c)
    (hc' : s'.flow = .running c') (unopened : c.Unopened) : Flows env s l c c' := by
  obtain ⟨d, hd, hcase⟩ := step_cases env hs
  cases hc.symm.trans hd
  have wired := w.wired c hc
  cases hcase with
  | boot refused main output unix workers phase below =>
    cases hb : c.boot refused main output unix workers with
    | error e => simp [hb, outcome] at hc'
    | ok d =>
      rw [hb] at hc'
      cases hc'
      have same : ∀ k, c'.unsent k = c.unsent k := fun k => by rw [(Loop.boot_boots hb).rest]; rfl
      refine .same (by simp [wroteOn, hc]) (by simp [handed, hc]) same fun k _ => ?_
      rw [same, (w.boot c hc phase).2]
      rfl
  | head io phase order =>
    refine .same (by simp [wroteOn, hc]) (by simp [handed, hc]) (Loop.head_unsent hc') fun k hk => ?_
    rw [(Loop.head_tunes hc').next] at hk
    rw [Loop.head_unsent hc']
    exact unopened k hk
  | poll events os phase notified =>
    cases hc'
    refine .same (by simp [wroteOn, hc]) (by simp [handed, hc]) (fun _ => rfl) fun k hk => ?_
    exact unopened k (Nat.le_trans (Nat.le_of_eq (World.notifyAll_some notified).1.1.symm) hk)
  | event io ev batch phase =>
    rw [phase] at wired
    obtain ⟨a, ha⟩ := Option.isSome_iff_exists.mp (wired.held ev.token (by simp [Phase.pend]))
    refine ⟨fun k => ?_, unopened.event wired ha hc'⟩
    have out := Loop.event_unsent ha hc' unopened k
    simpa only [wroteOn, handed, hc, phase] using out
  | connect tk act found listens =>
    cases hc'
    exact .same (by simp [wroteOn, hc]) (by simp [handed, hc]) (fun _ => rfl) unopened
  | arrive tk act bytes found listens =>
    cases hc'
    exact .same (by simp [wroteOn, hc]) (by simp [handed, hc]) (fun _ => rfl) unopened
  | close tk act found listens =>
    cases hc'
    exact .same (by simp [wroteOn, hc]) (by simp [handed, hc]) (fun _ => rfl) unopened

-- a step that ends the loop hands out nothing and writes nothing
theorem halting_still (hs : step env s l = some s') (halted : ∀ c', s'.flow ≠ .running c') :
    s.handed l = [] ∧ ∀ k, s.wroteOn env l k = [] := by
  obtain ⟨c, hc, hcase⟩ := step_cases env hs
  cases hcase with
  | event io ev batch phase =>
    have handed : s.handed (.event io) = c.handed ev io := by simp [handed, hc, phase]
    have wrote : ∀ k, s.wroteOn env (.event io) k = c.wroteOn env ev io k := fun k => by simp [wroteOn, hc, phase]
    have quiet : c.captured ev io = none → (∀ k, c.wroteOn env ev io k = []) →
        s.handed (.event io) = [] ∧ ∀ k, s.wroteOn env (.event io) k = [] := fun none silent =>
      ⟨handed.trans (Loop.handed_none none), fun k => (wrote k).trans (silent k)⟩
    cases ha : c.ioActions ev.token with
    | none => exact quiet (by simp [Loop.captured, ha]) fun k => by simp [Loop.wroteOn, ha]
    | some a =>
      have running : ∀ d, c.event env ev io ≠ .running d := halted
      simp only [Loop.event, ha] at running
      cases a with
      | outputStream j => exact absurd rfl (running _)
      | stdout f => exact absurd rfl (running _)
      | stderr f => exact absurd rfl (running _)
      | _ => exact quiet (by simp [Loop.captured, ha]) fun k => by simp [Loop.wroteOn, ha]
  | boot => exact ⟨by simp [handed, hc], fun k => by simp [wroteOn, hc]⟩
  | head => exact ⟨by simp [handed, hc], fun k => by simp [wroteOn, hc]⟩
  | poll events os phase notified => exact absurd rfl (halted _)
  | connect tk act found listens => exact absurd rfl (halted _)
  | arrive tk act bytes found listens => exact absurd rfl (halted _)
  | close tk act found listens => exact absurd rfl (halted _)

end System
end PyProxy.Master
