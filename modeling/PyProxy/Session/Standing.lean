import PyProxy.Master.Standing
import PyProxy.Worker.Talk

namespace PyProxy.Session
open Stream Protocol Server Poll Worker

-- a worker process run under `ok` that has put at least `bytes` on its unix stream
def Sends (wenv : Worker.Env) (ok : Daemon → Daemon.Label → Prop) (bytes : List UInt8) : Prop :=
  ∃ ls s wrote, ((Daemon.machine wenv).traced Daemon.wrote).exec ls = some (s, wrote) ∧
    (Daemon.machine wenv).Along (fun s l => Daemon.Smooth s l ∧ ok s l) ls ∧
    (∀ l ∈ ls, Daemon.Logs wenv l) ∧ bytes <+: wrote

def Fed (wenv : Worker.Env) (ok : Daemon → Daemon.Label → Prop)
    (p : Master.System × List Master.Note) : Prop :=
  ∀ c, p.1.flow = .running c → ∀ q ∈ c.workerStreams.streams,
    Sends wenv ok (Master.Note.bytesOf q.2 p.2)

-- no client stops the master or a worker, whatever it sends and however its sockets fail
structure Unstopped (wenv : Worker.Env) (menv : Master.Env) (ok : Daemon → Daemon.Label → Prop) :
    Prop where
  master : ∀ {next : Sock} {ls : List Master.Label} {s : Master.System} {ns : List Master.Note},
    ((Master.System.machine menv next).traced Master.System.noted).exec ls = some (s, ns) →
    (Master.System.machine menv next).Along Master.System.Smooth ls →
    ((Master.System.machine menv next).traced Master.System.noted).Along (fun p _ => Fed wenv ok p) ls →
      (∃ c, s.flow = .running c) ∧
        (Master.System.machine menv next).Along (Master.System.InBounds menv) ls
  worker : ∀ {ls : List Daemon.Label} {s : Daemon}, (Daemon.machine wenv).exec ls = some s →
    (Daemon.machine wenv).Along Daemon.Smooth ls →
      (∃ c, s.flow = .running c) ∧ (Daemon.machine wenv).Along (Daemon.InBounds wenv) ls

variable {wenv : Worker.Env} {menv : Master.Env}

theorem sends_sensible (same : menv.mc = wenv.mc) (logs : wenv.mc.logMessage.RoundTrips)
    (prints : wenv.mc.printMessage.RoundTrips) {bytes : List UInt8}
    (h : Sends wenv (Daemon.Brief wenv) bytes) : Master.Loop.Sensible menv bytes := by
  obtain ⟨ls, s, wrote, run, along, talks, initial⟩ := h
  have spoken := Daemon.spoken_run run talks (along.imp fun _ _ _ h => h.2)
  obtain ⟨c, running, -⟩ := Daemon.anchored_run (Machine.exec_of_traced run) (along.imp fun _ _ _ h => h.1)
  obtain ⟨sent, short, all⟩ := spoken c running
  intro b hb
  obtain ⟨rest, rfl⟩ := hb.trans initial
  have queued : sent.flatMap (Channel.MessageChannel.frame wenv.mc) =
      Framer.stream (sent.map fun n => (Channel.MessageChannel.frame wenv.mc n, n)) := by
    rw [Framer.stream, List.flatMap_map]
  rw [List.append_assoc, queued] at all
  rw [same]
  obtain ⟨-, -, -, -, ok, -⟩ := (Master.WorkerStream.framer wenv.mc).drain_stream _ (fun p hp => by
    obtain ⟨n, hn, rfl⟩ := List.mem_map.mp hp
    exact short_encodes logs prints (short n hn)) b _ all
  exact ok

theorem unstopped (same : menv.mc = wenv.mc) (logs : wenv.mc.logMessage.RoundTrips)
    (prints : wenv.mc.printMessage.RoundTrips) : Unstopped wenv menv (Daemon.Brief wenv) where
  master run smooth fed := by
    obtain ⟨issues, stands⟩ := Master.System.stands_run run smooth fun pre l post p eq hp c hc q hq =>
      sends_sensible same logs prints (fed pre l post p eq hp c hc q hq)
    obtain ⟨c, running, -⟩ := stands.standing
    exact ⟨⟨c, running⟩, Master.System.in_bounds_run⟩
  worker run smooth := by
    obtain ⟨c, running, -⟩ := Daemon.anchored_run run smooth
    exact ⟨⟨c, running⟩, fun _ l _ s _ _ => Daemon.in_bounds s l⟩

-- one worker connects to the master with `bytes` on its stream, and the master reads them
def connected (bytes : List UInt8) : List Master.Label :=
  [.boot (fun _ => false) 0 1 2 [(3, 4)], .head (Master.System.calmHead []), .connect 2,
    .poll [⟨2, true, false⟩], .event { Master.System.calmEvent with accept := ⟨false, bytes, false⟩ },
    .head (Master.System.calmHead []), .poll [⟨5, true, false⟩], .event Master.System.calmEvent]

theorem connected_steady (bytes : List UInt8) : ∀ l ∈ connected bytes, Master.System.Steady l := by
  have calm : (Master.System.calmHead []).Smooth := ⟨fun _ => rfl, rfl⟩
  have nodup : (0 :: 1 :: 2 :: [(3, 4)].flatMap fun w => [w.1, w.2]).Nodup := by decide
  simp [connected, Master.System.Steady, calm]

def fedBy (bytes : List UInt8) (p : Master.System × List Master.Note) : Bool :=
  match p.1.flow with
  | .running c => c.workerStreams.streams.all fun q => (Master.Note.bytesOf q.2 p.2).isPrefixOf bytes
  | .returned _ _ => true

theorem fed_of {ok : Daemon → Daemon.Label → Prop} {bytes : List UInt8} (sends : Sends wenv ok bytes)
    {p : Master.System × List Master.Note} (h : fedBy bytes p = true) : Fed wenv ok p := by
  obtain ⟨ls, s, wrote, run, along, talks, initial⟩ := sends
  intro c hc q hq
  simp only [fedBy, hc, List.all_eq_true] at h
  exact ⟨ls, s, wrote, run, along, talks, (List.isPrefixOf_iff_prefix.mp (h q hq)).trans initial⟩

theorem fed_along {ok : Daemon → Daemon.Label → Prop} {bytes : List UInt8} (sends : Sends wenv ok bytes)
    {next : Sock} {ls : List Master.Label}
    (h : ((Master.System.machine menv next).traced Master.System.noted).checks (fun p _ => fedBy bytes p)
      ((Master.System.machine menv next).traced Master.System.noted).init ls = true) :
    ((Master.System.machine menv next).traced Master.System.noted).Along (fun p _ => Fed wenv ok p) ls :=
  (Machine.along_of_checks h).imp fun _ _ _ => fed_of sends

-- the worker greets a client and its first message goes out
def greets : List Daemon.Label :=
  Daemon.opening ++ [.head (loopbackHead [1]), .poll [⟨0, false, true⟩],
    .event ⟨0, false⟩ 0 ⟨some 4096, false⟩]

def greeting : List UInt8 :=
  Channel.MessageChannel.frame fixintMessages (.log ⟨.info, "new client mainstream started", "",
    [("session_id", .string "07070707070707070707070707070707")]⟩)

def shortly : Notice → Bool
  | .log msg => (fixintMessages.logMessage.serialize msg).length < 2 ^ 32
  | .print msg => (fixintMessages.printMessage.serialize msg).length < 2 ^ 32
  | .unrecognised _ => false

def briefly (s : Daemon) (l : Daemon.Label) : Bool :=
  match s.flow, l with
  | .running c, .head io => (c.headNotices loopback io).all shortly
  | .running _, .pythread _ _ => false
  | _, _ => true

theorem brief_of {s : Daemon} {l : Daemon.Label} (h : briefly s l = true) : Daemon.Brief loopback s l := by
  simp only [Daemon.Brief]
  split
  · rename_i c io hc
    simp only [briefly, hc, List.all_eq_true] at h
    intro n hn
    have short := h n hn
    cases n with
    | log msg => exact of_decide_eq_true (p := (fixintMessages.logMessage.serialize msg).length < 2 ^ 32) short
    | print msg =>
      exact of_decide_eq_true (p := (fixintMessages.printMessage.serialize msg).length < 2 ^ 32) short
    | unrecognised t => cases short
  · rename_i hc
    simp [briefly, hc] at h
  · trivial

theorem greets_sends : Sends loopback (Daemon.Brief loopback) greeting := by
  have hrun : (((Daemon.machine loopback).traced Daemon.wrote).exec greets).any
      (fun p => decide (p.2 = greeting)) = true := by decide +kernel
  have hsmooth : (Daemon.machine loopback).checks Daemon.smoothly (Daemon.machine loopback).init greets =
      true := by decide +kernel
  have hbrief : (Daemon.machine loopback).checks briefly (Daemon.machine loopback).init greets = true := by
    decide +kernel
  obtain ⟨⟨s, wrote⟩, run, hw⟩ := (Option.any_eq_true _ _).mp hrun
  have smooth := Daemon.smooth_along hsmooth
  have brief := (Machine.along_of_checks hbrief).imp fun _ _ _ => brief_of
  refine ⟨greets, s, wrote, run, fun pre l post s eq hs => ⟨smooth pre l post s eq hs,
    brief pre l post s eq hs⟩, ?_, ?_⟩
  · simp [greets, Daemon.opening, Daemon.Logs]
  · have all : wrote = greeting := of_decide_eq_true hw
    cases all
    exact List.prefix_rfl

theorem unstopped_greeting : ∃ s ns c,
    ((Master.System.machine Master.System.fixintEnv 5).traced Master.System.noted).exec
        (connected greeting) = some (s, ns) ∧
      s.flow = .running c ∧ (Master.Note.bytesOf 5 ns) = greeting := by
  have hrun : (((Master.System.machine Master.System.fixintEnv 5).traced Master.System.noted).exec
      (connected greeting)).any (fun p => decide (Master.Note.bytesOf 5 p.2 = greeting)) = true := by
    decide +kernel
  have hsmooth : (Master.System.machine Master.System.fixintEnv 5).checks Master.System.smoothly
      (Master.System.machine Master.System.fixintEnv 5).init (connected greeting) = true := by
    decide +kernel
  have hfed : ((Master.System.machine Master.System.fixintEnv 5).traced Master.System.noted).checks
      (fun p _ => fedBy greeting p)
      ((Master.System.machine Master.System.fixintEnv 5).traced Master.System.noted).init
      (connected greeting) = true := by decide +kernel
  obtain ⟨⟨s, ns⟩, run, hns⟩ := (Option.any_eq_true _ _).mp hrun
  have same : Master.System.fixintEnv.mc = loopback.mc := rfl
  have stands := unstopped same fixint_logMessage_roundTrips fixint_printMessage_roundTrips
  obtain ⟨⟨c, running⟩, -⟩ := stands.master run
    (Master.System.smooth_along (connected_steady greeting) hsmooth) (fed_along greets_sends hfed)
  exact ⟨s, ns, c, run, running, of_decide_eq_true hns⟩

-- python raised an error whose log message is `msg`, and five of its bytes go out
def raised (msg : List UInt8) : List Daemon.Label :=
  [.pythread logMessage msg, .head (loopbackHead []), .poll [⟨0, false, true⟩],
    .event ⟨0, false⟩ 0 ⟨some 5, false⟩]

def errorMessage (pyErr : String) : LogMessage :=
  ⟨.error, "failed to run python code on pyproxy server", "", [("error", .string pyErr)]⟩

theorem errorMessage_long {k : Nat} (h : 96 ≤ k) : ∃ pyErr,
    (fixintMessages.logMessage.serialize (errorMessage pyErr)).length = k := by
  refine ⟨String.ofList (List.replicate (k - 96) 'a'), ?_⟩
  have text : (asBytes (String.ofList (List.replicate (k - 96) 'a'))).length = k - 96 := by
    have one : 'a'.utf8Size = 1 := by decide
    simp [asBytes, List.utf8Encode, one]
  have action : (asBytes "failed to run python code on pyproxy server").length = 43 := by decide
  have key : (asBytes "error").length = 5 := by decide
  have none : (asBytes "").length = 0 := by decide
  simp [fixintMessages, Wire.codec, Wire.logMessage, errorMessage, Wire.iso, Wire.pair, Wire.logLevel,
    Wire.text, Wire.blob, Wire.word, Wire.seq, Wire.logValue, text, action, key, none]
  omega

theorem raised_sends : Sends loopback (fun _ _ => True) [logMessage, 0, 0, 0, 0] := by
  have fits : 96 ≤ 2 ^ 32 := by decide
  obtain ⟨pyErr, long⟩ := errorMessage_long fits
  generalize hmsg : fixintMessages.logMessage.serialize (errorMessage pyErr) = msg at long
  have frame : [logMessage] ++ (toBeBytes (asU32 msg.length)).toList ++ msg =
      Channel.MessageChannel.frame loopback.mc (.log (errorMessage pyErr)) := by
    rw [← hmsg]
    rfl
  have zero : toBeBytes (asU32 msg.length) = #v[0, 0, 0, 0] := by
    rw [long]
    decide
  obtain ⟨s, run⟩ : ∃ s, ((Daemon.machine loopback).traced Daemon.wrote).exec (raised msg) =
      some (s, logMessage :: (toBeBytes (asU32 msg.length)).toList) := ⟨_, rfl⟩
  have hsmooth : (Daemon.machine loopback).checks Daemon.smoothly (Daemon.machine loopback).init
      (raised msg) = true := rfl
  rw [zero] at run
  refine ⟨raised msg, s, _, run, (Daemon.smooth_along hsmooth).imp fun _ _ _ h => ⟨h, trivial⟩, ?_,
    List.prefix_rfl⟩
  simp only [raised, List.forall_mem_cons, Daemon.Logs, true_and]
  exact ⟨⟨_, frame⟩, List.forall_mem_nil _⟩

theorem long_error_stops : ¬ Unstopped loopback Master.System.fixintEnv fun _ _ => True := by
  intro h
  have hrun : (((Master.System.machine Master.System.fixintEnv 5).traced Master.System.noted).exec
      (connected [logMessage, 0, 0, 0, 0])).any (fun p => !p.1.runs) = true := by decide +kernel
  have hsmooth : (Master.System.machine Master.System.fixintEnv 5).checks Master.System.smoothly
      (Master.System.machine Master.System.fixintEnv 5).init (connected [logMessage, 0, 0, 0, 0]) =
        true := by
    decide +kernel
  have hfed : ((Master.System.machine Master.System.fixintEnv 5).traced Master.System.noted).checks
      (fun p _ => fedBy [logMessage, 0, 0, 0, 0] p)
      ((Master.System.machine Master.System.fixintEnv 5).traced Master.System.noted).init
      (connected [logMessage, 0, 0, 0, 0]) = true := by decide +kernel
  obtain ⟨⟨s, ns⟩, run, hs⟩ := (Option.any_eq_true _ _).mp hrun
  obtain ⟨⟨c, running⟩, -⟩ := h.master run
    (Master.System.smooth_along (connected_steady _) hsmooth) (fed_along raised_sends hfed)
  rw [Master.System.runs_iff.mpr ⟨c, running⟩] at hs
  cases hs

end PyProxy.Session
