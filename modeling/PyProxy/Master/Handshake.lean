import PyProxy.Master.Isolation
import PyProxy.Master.RoutingTable

namespace PyProxy.Master
open Stream Protocol Server Poll Lines Sections

structure Capture where
  msgType : Output.MessageType
  sessionId : String
  lines : List Span
  frame : PipeFrame

namespace PipeFrame

def capture (f : PipeFrame) (msgType : Output.MessageType) (w : Nat → IoResult Unit)
    (res : IoResult (List UInt8)) : Option Capture :=
  match f.read w res with
  | (.ok (some (sessionId, lines)), _, f) => some ⟨msgType, sessionId, lines, f⟩
  | _ => none

theorem capture_some {f : PipeFrame} {msgType : Output.MessageType} {w : Nat → IoResult Unit}
    {res : IoResult (List UInt8)} {r : Capture} (h : f.capture msgType w res = some r) :
    r.msgType = msgType ∧ ∃ out, f.read w res = (.ok (some (r.sessionId, r.lines)), out, r.frame) := by
  simp only [capture] at h
  split at h
  · rename_i read
    cases h
    exact ⟨rfl, _, read⟩
  · cases h

theorem read_session {f f' : PipeFrame} {w : Nat → IoResult Unit} {res : IoResult (List UInt8)}
    {sessionId : String} {lines : List Span} {out : List UInt8}
    (h : f.read w res = (.ok (some (sessionId, lines)), out, f')) :
    f'.currentSessionId = some sessionId ∧
      f'.lastNewline = lastStop none (spans newline f'.buffer) := by
  cases res with
  | error e => cases h
  | ok bytes =>
    simp only [read] at h
    generalize hs : scan { f with buffer := f.buffer ++ bytes } w = s at h
    cases he : s.err with
    | some e => simp [he] at h
    | none =>
      simp only [he, Prod.mk.injEq, Except.ok.injEq, Option.map_eq_some_iff] at h
      obtain ⟨⟨S, session, rfl, rfl⟩, -, rfl⟩ := h
      rw [scan_eq] at hs
      have spec := (@Scan.lines_spec (f.buffer ++ bytes) w ⟨none, f.currentSessionId, [], [], none⟩
        (spans newline (f.buffer ++ bytes)) rfl).2
      rw [hs] at spec
      exact ⟨session, (spec he).2.2⟩

theorem lastStop_lt {b : List UInt8} {n : Nat} (h : lastStop none (spans newline b) = some n) :
    n < b.length := by
  rcases lastStop_cases newline none 0 0 b with ⟨-, hl⟩ | ⟨a, q, hb, -, hl⟩
  · rw [spans, hl] at h
    cases h
  · rw [spans, hl, Nat.zero_add] at h
    cases h
    simp [hb]

theorem clear_keeps {f : PipeFrame} {start : Nat}
    (last : f.lastNewline = lastStop none (spans newline f.buffer)) :
    f.buffer.drop start <:+ f.clear.buffer ↔ ∀ n, f.lastNewline = some n → n ≤ start := by
  cases hn : f.lastNewline with
  | none =>
    simp only [clear, hn]
    exact ⟨fun _ n h => (by cases h), fun _ => List.drop_suffix _ _⟩
  | some n =>
    have below : n < f.buffer.length := lastStop_lt (last ▸ hn)
    simp only [clear, hn, compact_eq_drop, Option.some.injEq]
    constructor
    · rintro suffix m rfl
      have := suffix.length_le
      simp only [List.length_drop] at this
      omega
    · intro h
      exact List.drop_suffix_drop_left _ (h n rfl)

end PipeFrame

def Fate.greets (S : String) : Fate → Bool
  | .greeted T _ => T = S
  | _ => false

theorem Fate.greets_iff {fs : List Fate} {S : String} :
    (∃ f ∈ fs, f.greets S = true) ↔ ∃ k, .greeted S k ∈ fs := by
  constructor
  · rintro ⟨_ | _ | _, hf, h⟩
    · cases of_decide_eq_true h
      exact ⟨_, hf⟩
    · cases h
    · cases h
  · rintro ⟨k, hf⟩
    exact ⟨_, hf, decide_eq_true rfl⟩

namespace Loop

variable {env : Env} {c c' : Loop} {io : EventIo} {ev : Event}

def captured (c : Loop) (ev : Event) (io : EventIo) : Option Capture :=
  match c.ioActions ev.token with
  | some (.stdout f) => f.capture .stdout io.echo (c.os.read f.recv bufferSize io.read).1
  | some (.stderr f) => f.capture .stderr io.echo (c.os.read f.recv bufferSize io.read).1
  | _ => none

def frameAt (c : Loop) (tk : Token) : Option PipeFrame :=
  match c.ioActions tk with
  | some (.stdout f) => some f
  | some (.stderr f) => some f
  | _ => none

-- the lines of `r` are appended to the stream whose hello named their session
def Appended (fs : List Fate) (r : Capture) (c c' : Loop) : Prop :=
  ∃ k, .greeted r.sessionId k ∈ fs ∧ c'.outputStreams.lookup r.sessionId = some k ∧
    (c'.outputs k).outbuffer = (c.outputs k).outbuffer ++
      OutputStream.frames r.msgType (r.lines.map (slice r.frame.buffer))

-- all that was read from the start of `line` on is still in the frame, for the same session
def InFrame (tk : Token) (r : Capture) (line : Span) (c' : Loop) : Prop :=
  ∃ f, c'.frameAt tk = some f ∧ f.currentSessionId = some r.sessionId ∧
    r.frame.buffer.drop line.start <:+ f.buffer

theorem captured_event {r : Capture} (h : r ∈ c.captured ev io) :
    ∃ (f : PipeFrame) (wrap : PipeFrame → IoAction) (out : _),
      f.read io.echo (c.os.read f.recv bufferSize io.read).1 =
          (.ok (some (r.sessionId, r.lines)), out, r.frame) ∧
        (∀ g, wrap g = .stdout g ∨ wrap g = .stderr g) ∧
        c.event env ev io = .running (c.pipeEvent (OutputStream.send r.msgType) wrap ev.token f io) := by
  have h : c.captured ev io = some r := h
  simp only [captured] at h
  simp only [event]
  cases ha : c.ioActions ev.token with
  | none => simp [ha] at h
  | some a =>
    simp only [ha] at h
    cases a with
    | stdout f =>
      obtain ⟨hm, out, read⟩ := PipeFrame.capture_some h
      exact ⟨f, .stdout, out, read, fun _ => .inl rfl, by rw [hm]; rfl⟩
    | stderr f =>
      obtain ⟨hm, out, read⟩ := PipeFrame.capture_some h
      exact ⟨f, .stderr, out, read, fun _ => .inr rfl, by rw [hm]; rfl⟩
    | _ => cases h

theorem pipeEvent_captured {send : OutputStream → List UInt8 → OutputStream}
    {wrap : PipeFrame → IoAction} {tk : Token} {f f' : PipeFrame} {sessionId : String}
    {lines : List Span} {out : List UInt8}
    (read : f.read io.echo (c.os.read f.recv bufferSize io.read).1 =
      (.ok (some (sessionId, lines)), out, f')) :
    (c.pipeEvent send wrap tk f io).ioActions = c.ioActions.insert tk (wrap f'.clear) ∧
      (c.pipeEvent send wrap tk f io).outputStreams = c.outputStreams ∧
      ∀ k, c.outputStreams.lookup sessionId = some k → (c.pipeEvent send wrap tk f io).outputs k =
        (lines.map (slice f'.buffer)).foldl send (c.outputs k) := by
  simp only [pipeEvent]
  generalize c.os.read f.recv bufferSize io.read = got at read
  obtain ⟨res, os⟩ := got
  simp only at read
  simp only [read, sendLines]
  cases hk : c.outputStreams.lookup sessionId with
  | none => exact ⟨rfl, rfl, fun k h => (by cases h)⟩
  | some k =>
    refine ⟨rfl, rfl, fun j h => ?_⟩
    cases h
    exact Outputs.set_same _ _ _

theorem kept_iff {tk : Token} {r : Capture} {wrap : PipeFrame → IoAction} {f : PipeFrame}
    {out : List UInt8} (line : Span) (pipe : ∀ g, wrap g = .stdout g ∨ wrap g = .stderr g)
    (read : f.read io.echo (c.os.read f.recv bufferSize io.read).1 =
      (.ok (some (r.sessionId, r.lines)), out, r.frame)) :
    InFrame tk r line (c.pipeEvent (OutputStream.send r.msgType) wrap tk f io) ↔
      ∀ n ∈ r.frame.lastNewline, n ≤ line.start := by
  obtain ⟨session, last⟩ := PipeFrame.read_session read
  have actions := (@pipeEvent_captured c io (OutputStream.send r.msgType) wrap tk _ _ _ _ _ read).1
  have frame : (c.pipeEvent (OutputStream.send r.msgType) wrap tk f io).frameAt tk =
      some r.frame.clear := by
    rcases pipe r.frame.clear with h | h <;> simp [frameAt, actions, IoActions.insert, h]
  have cleared : r.frame.clear.currentSessionId = some r.sessionId := by
    rw [← session]
    simp only [PipeFrame.clear]
    split <;> rfl
  have suffix := @PipeFrame.clear_keeps r.frame line.start last
  constructor
  · rintro ⟨g, hg, -, kept⟩
    cases frame.symm.trans hg
    exact suffix.mp kept
  · exact fun late => ⟨_, frame, cleared, suffix.mpr late⟩

theorem preserved_iff {issues : List Issue} {fs : List Fate} {r : Capture} (fated : Fated issues fs c)
    (hr : r ∈ c.captured ev io) (hc : c.event env ev io = .running c') (line : Span) :
    Appended fs r c c' ∨ InFrame ev.token r line c' ↔
      ∀ n ∈ r.frame.lastNewline, line.start < n → ∃ f ∈ fs, f.greets r.sessionId = true := by
  obtain ⟨f, wrap, out, read, pipe, heq⟩ := @captured_event env c io ev r hr
  cases heq.symm.trans hc
  obtain ⟨-, sessions, outputs⟩ :=
    @pipeEvent_captured c io (OutputStream.send r.msgType) wrap ev.token _ _ _ _ _ read
  rw [kept_iff line pipe read, Fate.greets_iff]
  constructor
  · rintro (⟨k, hk, -⟩ | late) n hn early
    · exact ⟨k, hk⟩
    · exact absurd (late n hn) (Nat.not_le.mpr early)
  · intro greeted
    by_cases late : ∀ n ∈ r.frame.lastNewline, n ≤ line.start
    · exact .inr late
    · obtain ⟨n, hn, early⟩ : ∃ n ∈ r.frame.lastNewline, line.start < n := by simpa using late
      obtain ⟨k, hk⟩ := greeted n hn early
      obtain ⟨j, hj⟩ := fated.greeted _ k hk
      refine .inl ⟨j, fated.routed _ j hj, by rw [sessions]; exact hj, ?_⟩
      rw [outputs j hj, OutputStream.send_all]

end Loop

namespace System

variable {env : Env}

def captured (s : System) (l : Label) : Option Capture :=
  match s.flow, l, s.phase with
  | .running c, .event io, .turn (ev :: _) => c.captured ev io
  | _, _, _ => none

-- no line that this step reads for session `S` is lost in it
def Preserved (env : Env) (S : String) (p : System × List Fate) (l : Label) : Prop :=
  ∀ c ev batch io c', p.1.flow = .running c → p.1.phase = .turn (ev :: batch) → l = .event io →
    c.event env ev io = .running c' → ∀ r ∈ c.captured ev io, r.sessionId = S →
      ∀ line ∈ r.lines, c.Appended p.2 r c' ∨ c'.InFrame ev.token r line

-- `S` has been greeted, unless the lines read for it all start after what `clear` takes away
def Greeted (S : String) (p : System × List Fate) (l : Label) : Prop :=
  ∀ r ∈ p.1.captured l, r.sessionId = S → ∀ line ∈ r.lines, ∀ n ∈ r.frame.lastNewline,
    line.start < n → ∃ f ∈ p.2, f.greets r.sessionId = true

instance (S : String) (p : System × List Fate) (l : Label) : Decidable (Greeted S p l) :=
  inferInstanceAs (Decidable (∀ r ∈ p.1.captured l, r.sessionId = S → ∀ line ∈ r.lines,
    ∀ n ∈ r.frame.lastNewline, line.start < n → ∃ f ∈ p.2, f.greets r.sessionId = true))

theorem fated_run {next : Sock} {ls : List Label} {s : System} {fs : List Fate}
    (run : ((machine env next).traced (fates env)).exec ls = some (s, fs)) :
    ∃ issues, Wired issues s ∧ Fated issues fs s :=
  @Machine.invariant _ _ ((machine env next).traced (fates env))
    (fun p => ∃ issues, Wired issues p.1 ∧ Fated issues p.2 p.1)
    ⟨[], @wired_init env next, @fated_init env next⟩
    (fun p l p' hp hl => by
      obtain ⟨issues, w, h⟩ := hp
      obtain ⟨hs, heq⟩ := Machine.traced_step hl
      rw [heq]
      exact ⟨_, w.step hs, h.step w hs⟩) _ _ run

theorem preserved_at {next : Sock} {ls : List Label} {p : System × List Fate}
    (run : ((machine env next).traced (fates env)).exec ls = some p) (S : String) (l : Label) :
    Preserved env S p l ↔ Greeted S p l := by
  obtain ⟨issues, -, fated⟩ := fated_run run
  constructor
  · intro h r hr
    have hr : p.1.captured l = some r := hr
    simp only [captured] at hr
    split at hr
    · rename_i c io ev batch running phase _
      obtain ⟨f, wrap, out, -, -, hc⟩ := @Loop.captured_event env c io ev r hr
      intro hS line hline
      exact (Loop.preserved_iff (fated.fated c running) hr hc line).mp
        (h c ev batch io _ running phase rfl hc r hr hS line hline)
    · cases hr
  · intro h c ev batch io c' running phase hl hc r hr hS line hline
    have captured : p.1.captured l = some r := by simpa [captured, running, phase, hl] using hr
    exact (Loop.preserved_iff (fated.fated c running) hr hc line).mpr (h r captured hS line hline)

theorem preserved_iff_greeted {next : Sock} {ls : List Label} (S : String) :
    ((machine env next).traced (fates env)).Along (Preserved env S) ls ↔
      ((machine env next).traced (fates env)).Along (Greeted S) ls := by
  constructor
  · intro h pre l post p eq hp
    exact (preserved_at hp S l).mp (h pre l post p eq hp)
  · intro h pre l post p eq hp
    exact (preserved_at hp S l).mpr (h pre l post p eq hp)

def race (S : String) : List Label :=
  [.boot (fun _ => false) 0 1 2 [(3, 4)], .head (calmHead []), .connect 1, .poll [⟨1, true, false⟩],
    .event (acceptHello S), .arrive 3 (Pipe.startLine S ++ asBytes "x\n"), .head (calmHead []),
    .poll [⟨3, true, false⟩, ⟨5, true, false⟩]]

-- the hello of `S` has been written: it has its route, or waits at an output connection
def HelloWritten (S : String) (c : Loop) : Prop :=
  (c.outputStreams.lookup S).isSome = true ∨ ∃ tk k, c.act tk = some (.outputStream k) ∧
    (c.outputs k).inbuffer ++ (c.os.source k).input = Client.outputHello Protocol.fixint S

-- and nothing comes in before that
def HelloFirst (S : String) (p : System × List Fate) (l : Label) : Prop :=
  ∀ c tk bytes, p.1.flow = .running c → l = .arrive tk bytes → HelloWritten S c

def helloWaits (S : String) (k : Sock) (p : System × List Fate) : Label → Bool
  | .arrive _ _ => p.1.holds fun c =>
    match c.act k with
    | some (.outputStream j) => (c.outputs j).inbuffer ++ (c.os.source j).input = Client.outputHello Protocol.fixint S
    | _ => false
  | _ => true

theorem helloFirst_of {S : String} {k : Sock} {p : System × List Fate} {l : Label}
    (h : helloWaits S k p l = true) : HelloFirst S p l := by
  rintro c tk bytes hc rfl
  obtain ⟨d, hd, waits⟩ := holds_iff.mp h
  cases hc.symm.trans hd
  split at waits
  · rename_i j act
    exact .inr ⟨k, j, act, of_decide_eq_true waits⟩
  · cases waits

theorem line_before_hello : ¬ ∀ S ls,
    ((machine fixintEnv 5).traced (fates fixintEnv)).Along (HelloFirst S) ls →
      ((machine fixintEnv 5).traced (fates fixintEnv)).Along (Preserved fixintEnv S) ls := by
  have hrun : (((machine fixintEnv 5).traced (fates fixintEnv)).exec (race Pipe.sessionA)).any
      (fun p => decide ¬ Greeted Pipe.sessionA p (.event calmEvent)) = true := by decide +kernel
  have first : ((machine fixintEnv 5).traced (fates fixintEnv)).Along (HelloFirst Pipe.sessionA)
      (race Pipe.sessionA ++ [.event calmEvent]) := by
    have waits : ((machine fixintEnv 5).traced (fates fixintEnv)).checks (helloWaits Pipe.sessionA 5)
        ((machine fixintEnv 5).traced (fates fixintEnv)).init (race Pipe.sessionA ++ [.event calmEvent]) = true := by
      decide +kernel
    exact (Machine.along_of_checks waits).imp fun _ _ _ => helloFirst_of
  obtain ⟨p, hp, lost⟩ := (Option.any_eq_true _ _).mp hrun
  intro h
  have preserved := h Pipe.sessionA (race Pipe.sessionA ++ [.event calmEvent]) first _ _ [] p rfl hp
  exact of_decide_eq_true lost ((preserved_at hp _ _).mp preserved)

end System
end PyProxy.Master
