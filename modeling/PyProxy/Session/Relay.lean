import PyProxy.Channel.Output
import PyProxy.Client.Readiness
import PyProxy.Client.RemoteProcess
import PyProxy.Master.Outflow

namespace PyProxy.Master.Handed
open Client

def pipeOut (h : Handed) : PipeOut := ⟨h.line, h.msgType⟩

-- a line whose length fits the header
def Short (h : Handed) : Prop := h.line.length < 2 ^ 32

def encoded (h : Handed) : List UInt8 × PipeOut := (h.frame, h.pipeOut)

theorem encodes {h : Handed} (short : h.Short) : OutputStream.framer.Encodes h.encoded.1 h.encoded.2 :=
  @Channel.OutputChannel.frame_encodes h.pipeOut short

end PyProxy.Master.Handed

namespace PyProxy.Client
open Protocol

-- what a step reads off the output stream
def Label.outputBytes : Label → List UInt8
  | .event ev io =>
    if ev.token = outputStreamTk then
      match io.read with
      | .ok bytes => bytes
      | .error _ => []
    else []
  | _ => []

namespace Loop

variable {bc : Bincode}

theorem mainEvent_beside (c : Loop) (ev : Event) (io : EventIo) :
    (c.mainEvent bc ev io).state.outputStream = c.outputStream ∧
      (c.mainEvent bc ev io).state.threadSend = c.threadSend := by
  simp only [mainEvent]
  cases hw : c.mainWrite ev io with
  | error e => exact ⟨rfl, rfl⟩
  | ok c' =>
    obtain ⟨m, rfl⟩ : ∃ m, c' = { c with mainStream := m } := by
      simp only [mainWrite] at hw
      split at hw
      · split at hw
        · cases hw
        · exact ⟨_, (Except.ok.inj hw).symm⟩
      · exact ⟨c.mainStream, (Except.ok.inj hw).symm⟩
    dsimp only
    split <;> exact ⟨rfl, rfl⟩

-- what a step of the thread makes of the bytes that it reads off the output stream
inductive Passes (c : Loop) (bytes : List UInt8) : Flow Error Loop → Prop where
  | none (c') (nothing : bytes = []) (output : c'.outputStream = c.outputStream)
      (lines : c'.threadSend = c.threadSend) : Passes c bytes (.running c')
  | read (some : bytes ≠ []) : Passes c bytes (.running { c with
      outputStream := ⟨(OutputStream.framer.drain (c.outputStream.buffer ++ bytes)).rest⟩
      threadSend := c.threadSend ++ (OutputStream.framer.drain (c.outputStream.buffer ++ bytes)).msgs })
  | ended (c' res) (lines : c'.threadSend = c.threadSend) : Passes c bytes (.returned c' res)

theorem Passes.of_state {c : Loop} {f : Flow Error Loop} (output : f.state.outputStream = c.outputStream)
    (lines : f.state.threadSend = c.threadSend) : Passes c [] f := by
  cases f with
  | running c' => exact .none c' rfl output lines
  | returned c' res => exact .ended c' res lines

theorem outputEvent_passes {c : Loop} {io : EventIo} {bytes : List UInt8} (hr : io.read = .ok bytes)
    (ok : (OutputStream.framer.drain (c.outputStream.buffer ++ bytes)).err = Option.none) :
    Passes c bytes (c.outputEvent io) := by
  simp only [outputEvent, hr]
  by_cases some : bytes = []
  · subst some
    exact .ended _ _ rfl
  · rw [OutputStream.read_ok some ok]
    dsimp only
    split
    · exact .read some
    · exact .ended _ _ rfl

theorem step_passes {c : Loop} {l : Label}
    (ok : (OutputStream.framer.drain (c.outputStream.buffer ++ l.outputBytes)).err = Option.none) :
    Passes c l.outputBytes (c.step bc l) := by
  cases l with
  | evalStr id code locals globals => exact .none _ rfl rfl rfl
  | head io => exact .of_state (c.head_buffers bc io).2 (c.head_threadSend bc io)
  | event ev io =>
    by_cases main : ev.token = mainStreamTk
    · have none : (Label.event ev io).outputBytes = [] := by
        simp [Label.outputBytes, main, mainStreamTk, outputStreamTk]
      obtain ⟨output, lines⟩ := @mainEvent_beside bc c ev io
      rw [none, step, event, if_pos main]
      exact .of_state output lines
    · by_cases out : ev.token = outputStreamTk
      · rw [Label.outputBytes, if_pos out] at ok ⊢
        rw [step, event, if_neg main, if_pos out]
        cases hr : io.read with
        | error e =>
          simp only [outputEvent, hr, OutputStream.read]
          exact .ended _ _ rfl
        | ok bytes =>
          rw [hr] at ok
          exact outputEvent_passes hr ok
      · rw [Label.outputBytes, if_neg out, step, event, if_neg main, if_neg out]
        exact .none c rfl rfl rfl

end Loop
end PyProxy.Client

namespace PyProxy.Session
open Stream Protocol Server
open Master (Handed)

-- the master, the clients, and the bytes between them
structure Relay where
  master : Master.System
  wires : Sock → List UInt8
  clients : Sock → Flow Client.Error Client.Loop

namespace Relay

inductive Label where
  | master (l : Master.Label)
  | client (k : Sock) (l : Client.Label)

variable (menv : Master.Env) (bc : Bincode)

def stepMaster (s : Relay) (l : Master.Label) : Option Relay :=
  (Master.System.step menv s.master l).map fun m =>
    { s with master := m, wires := fun k => s.wires k ++ s.master.wroteOn menv l k }

-- a client reads what is on its wire, or finds the stream closed or broken
def stepClient (s : Relay) (k : Sock) (l : Client.Label) : Option Relay :=
  match s.clients k with
  | .returned _ _ => none
  | .running c =>
    if l.outputBytes.isPrefixOf (s.wires k) then
      some { s with
        wires := fun j => if j = k then (s.wires k).drop l.outputBytes.length else s.wires j
        clients := fun j => if j = k then c.step bc l else s.clients j }
    else none

def step (s : Relay) : Label → Option Relay
  | .master l => s.stepMaster menv l
  | .client k l => s.stepClient bc k l

def machine (next : Sock) : Machine Relay Label where
  init := ⟨(Master.System.machine menv next).init, fun _ => [], fun _ => .running .new⟩
  step := step menv bc

def handed (s : Relay) : Label → List Handed
  | .master l => s.master.handed l
  | .client _ _ => []

-- the lines for a client, from the buffer of the master to the channel of the process
structure Relayed (hs : List Handed) (rest wire : List UInt8) (f : Flow Client.Error Client.Loop) : Prop where
  initial : f.state.threadSend <+: hs.map Handed.pipeOut
  sound : ∀ c, f = .running c →
    Link.Sound Client.OutputStream.framer ⟨hs.map Handed.encoded, rest, wire, c.outputStream.buffer, c.threadSend⟩

namespace Relayed

variable {hs : List Handed} {rest wire : List UInt8} {f : Flow Client.Error Client.Loop}

theorem send (h : Relayed hs rest wire f) {new : List Handed} (short : ∀ h ∈ new, h.Short) {sent left : List UInt8}
    (cut : sent ++ left = rest ++ new.flatMap Handed.frame) : Relayed (hs ++ new) left (wire ++ sent) f where
  initial := by
    rw [List.map_append]
    exact h.initial.trans (List.prefix_append _ _)
  sound c hc := by
    have encode : ∀ p ∈ new.map Handed.encoded, Client.OutputStream.framer.Encodes p.1 p.2 := fun p hp => by
      obtain ⟨line, mem, rfl⟩ := List.mem_map.mp hp
      exact line.encodes (short line mem)
    have bytes : Framer.stream (new.map Handed.encoded) = new.flatMap Handed.frame := List.flatMap_map ..
    rw [← bytes] at cut
    rw [List.map_append]
    exact ((h.sound c hc).queueAll encode).flush cut

theorem lines (h : Relayed hs rest wire f) {c : Client.Loop} (hc : f = .running c) :
    c.threadSend <+: hs.map Handed.pipeOut ∧
      (wire = [] → rest = [] → c.threadSend = hs.map Handed.pipeOut) := by
  have pairs : (hs.map Handed.encoded).map Prod.snd = hs.map Handed.pipeOut := List.map_map ..
  have sound := h.sound c hc
  refine ⟨pairs ▸ sound.got_initial, fun hw ho => ?_⟩
  exact (sound.got_all hw ho).trans pairs

theorem reads {c : Client.Loop} (h : Relayed hs rest wire (.running c)) {bytes : List UInt8} (came : bytes <+: wire) :
    (Client.OutputStream.framer.drain (c.outputStream.buffer ++ bytes)).err = none := by
  have ok := (h.sound c rfl).read_ok bytes.length
  rwa [← List.prefix_iff_eq_take.mp came] at ok

theorem receive {bc : Bincode} {c : Client.Loop} (h : Relayed hs rest wire (.running c)) {l : Client.Label}
    (came : l.outputBytes <+: wire) : Relayed hs rest (wire.drop l.outputBytes.length) (c.step bc l) := by
  have sound := h.sound c rfl
  have taken : wire.take l.outputBytes.length = l.outputBytes := (List.prefix_iff_eq_take.mp came).symm
  have passes := @Client.Loop.step_passes bc c l (h.reads came)
  generalize l.outputBytes = bytes at taken passes ⊢
  generalize c.step bc l = f at passes ⊢
  cases passes with
  | none c' nothing output lines =>
    subst nothing
    refine ⟨?_, fun d hd => ?_⟩
    · rw [Flow.state, lines]
      exact h.initial
    · cases hd
      rw [output, lines]
      exact sound
  | read some =>
    have read := sound.step (.read _ bytes.length)
    dsimp only at read
    rw [taken] at read
    refine ⟨?_, fun d hd => ?_⟩
    · have initial := read.got_initial
      rwa [List.map_map] at initial
    · cases hd
      exact read
  | ended c' res lines =>
    refine ⟨?_, fun d hd => by cases hd⟩
    rw [Flow.state, lines]
    exact h.initial

end Relayed

structure Relaying (s : Relay) (hs : List Handed) : Prop where
  wired : ∃ issues, Master.System.Wired issues s.master
  unopened : ∀ c, s.master.flow = .running c → c.Unopened
  relayed : ∀ k, ∃ rest, (∀ c, s.master.flow = .running c → c.unsent k = rest) ∧
    Relayed (Handed.linesTo k hs) rest (s.wires k) (s.clients k)

variable {menv : Master.Env} {bc : Bincode} {s s' : Relay} {hs : List Handed}

theorem relaying_init (next : Sock) : Relaying (machine menv bc next).init [] where
  wired := ⟨[], @Master.System.wired_init menv next⟩
  unopened c hc := by
    cases hc
    exact fun k _ => rfl
  relayed k := by
    refine ⟨[], fun c hc => ?_, List.nil_prefix, fun c hc => ?_⟩
    · cases hc
      rfl
    · cases hc
      exact Link.sound_empty _

theorem Relaying.master_step (h : Relaying s hs) {l : Master.Label} (hl : s.stepMaster menv l = some s')
    (short : ∀ h ∈ s.master.handed l, h.Short) : Relaying s' (hs ++ s.handed (.master l)) := by
  obtain ⟨m, hm, rfl⟩ := Option.map_eq_some_iff.mp hl
  obtain ⟨issues, wired⟩ := h.wired
  obtain ⟨c, hc, -⟩ := Master.System.step_cases menv hm
  have unopened := h.unopened c hc
  have later : ∀ k, Handed.linesTo k (hs ++ s.handed (.master l)) =
      Handed.linesTo k hs ++ Handed.linesTo k (s.master.handed l) := fun k => Handed.linesTo_append k _ _
  refine ⟨⟨_, wired.step hm⟩, fun d hd => (Master.System.flows wired hm hc hd unopened).unopened, fun k => ?_⟩
  obtain ⟨rest, same, relayed⟩ := h.relayed k
  rw [later]
  cases hf : m.flow with
  | running d =>
    have flows := (Master.System.flows wired hm hc hf unopened).unsent k
    rw [same c hc] at flows
    refine ⟨d.unsent k, fun d' hd' => ?_, relayed.send (fun line mem => ?_) flows⟩
    · cases hd'
      rfl
    · exact short line (List.mem_of_mem_filter mem)
  | returned d res =>
    obtain ⟨still, wrote⟩ := Master.System.halting_still hm fun d' hd' => by
      rw [hf] at hd'
      cases hd'
    refine ⟨rest, (fun d' hd' => by cases hd'), ?_⟩
    dsimp only
    rw [still, wrote, List.append_nil]
    exact (List.append_nil _).symm ▸ relayed

theorem Relaying.client_step (h : Relaying s hs) {k : Sock} {l : Client.Label} (hl : s.stepClient bc k l = some s') :
    Relaying s' hs := by
  simp only [stepClient] at hl
  cases hf : s.clients k with
  | returned c res => simp [hf] at hl
  | running c =>
    simp only [hf] at hl
    obtain ⟨came, eq⟩ := Option.ite_none_right_eq_some.mp hl
    cases eq
    refine ⟨h.wired, h.unopened, fun j => ?_⟩
    obtain ⟨rest, same, relayed⟩ := h.relayed j
    refine ⟨rest, same, ?_⟩
    dsimp only
    split
    · rename_i own
      subst own
      rw [hf] at relayed
      exact relayed.receive (List.isPrefixOf_iff_prefix.mp came)
    · exact relayed

theorem relaying_run {next : Sock} {ls : List Label}
    (run : ((machine menv bc next).traced handed).exec ls = some (s, hs)) (short : ∀ h ∈ hs, h.Short) :
    Relaying s hs := by
  refine @Machine.invariant _ _ _ (fun p => (∀ h ∈ p.2, h.Short) → Relaying p.1 p.2)
    (fun _ => @relaying_init menv bc next)
    (fun p l p' kept hl short => ?_) ls (s, hs) run short
  obtain ⟨step, trace⟩ := Machine.traced_step hl
  rw [trace] at short ⊢
  have before := kept fun h mem => short h (List.mem_append_left _ mem)
  cases l with
  | master l => exact before.master_step step fun h mem => short h (List.mem_append_right _ mem)
  | client k l =>
    rw [show p.1.handed (.client k l) = [] from rfl, List.append_nil]
    exact before.client_step step

-- each process gets the lines for its connection, in order, and nothing that the master writes ends its thread
theorem output_relayed {next : Sock} {ls : List Label}
    (run : ((machine menv bc next).traced handed).exec ls = some (s, hs)) (short : ∀ h ∈ hs, h.Short) (k : Sock) :
    (s.clients k).state.threadSend <+: (Handed.linesTo k hs).map Handed.pipeOut ∧
      ∀ c, s.clients k = .running c →
        (∀ bytes, bytes <+: s.wires k → bytes ≠ [] → ∃ lines stream, c.outputStream.read (.ok bytes) = (.ok lines, stream)) ∧
          ∀ m, s.master.flow = .running m → m.unsent k = [] → s.wires k = [] →
            c.threadSend = (Handed.linesTo k hs).map Handed.pipeOut := by
  have kept := relaying_run run short
  obtain ⟨rest, same, relayed⟩ := kept.relayed k
  refine ⟨relayed.initial, fun c hc => ⟨fun bytes came some => ?_, fun m hm out wire => ?_⟩⟩
  · rw [hc] at relayed
    exact ⟨_, _, Client.OutputStream.read_ok some (relayed.reads came)⟩
  · exact (relayed.lines hc).2 wire ((same m hm).symm.trans out)

def receiving (s : Relay) (k : Sock) : Option Client.Loop :=
  match s.clients k with
  | .running c => some c
  | .returned _ _ => none

theorem receiving_some {k : Sock} {c : Client.Loop} : s.receiving k = some c ↔ s.clients k = .running c := by
  simp only [receiving]
  cases s.clients k <;> simp

def printing : List Master.Label :=
  Master.System.greeting Master.Pipe.sessionA ++ Master.System.spoken Master.Pipe.sessionA ++
    [.head (Master.System.calmHead [Master.Pipe.sessionA]), .poll [⟨5, false, true⟩], .event Master.System.calmEvent]

-- a line is printed in a session, written to its output connection and read by the process
def relaying : List Label :=
  printing.map .master ++ [.client 5 (.event ⟨Client.outputStreamTk, true, false⟩
    ⟨.error .wouldBlock, .ok (Handed.frame ⟨5, .stdout, asBytes "x"⟩), true⟩)]

theorem output_relayed_relaying : ∃ s hs,
    ((machine Master.System.fixintEnv Protocol.fixint 5).traced handed).exec relaying = some (s, hs) ∧
      Handed.linesTo 5 hs ≠ [] ∧ s.wires 5 = [] ∧
        (s.clients 5).state.threadSend = (Handed.linesTo 5 hs).map Handed.pipeOut := by
  have hrun : (((machine Master.System.fixintEnv Protocol.fixint 5).traced handed).exec relaying).any (fun p =>
      p.1.master.holds (fun m => decide (m.unsent 5 = [])) && decide (∀ h ∈ p.2, h.line.length < 2 ^ 32) &&
        decide (Handed.linesTo 5 p.2 ≠ [] ∧ p.1.wires 5 = []) && (p.1.receiving 5).isSome) = true := by
    decide +kernel
  obtain ⟨⟨s, hs⟩, run, hp⟩ := (Option.any_eq_true _ _).mp hrun
  simp only [Bool.and_eq_true, decide_eq_true_eq] at hp
  obtain ⟨⟨⟨sent, short⟩, some, wire⟩, runs⟩ := hp
  obtain ⟨m, running, out⟩ := Master.System.holds_iff.mp sent
  obtain ⟨c, awake⟩ := Option.isSome_iff_exists.mp runs
  have hc := receiving_some.mp awake
  refine ⟨s, hs, run, some, wire, ?_⟩
  rw [hc]
  exact ((output_relayed run short 5).2 c hc).2 m running (of_decide_eq_true out) wire

end Relay
end PyProxy.Session
