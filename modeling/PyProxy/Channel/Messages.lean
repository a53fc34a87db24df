import PyProxy.Machine.Run
import PyProxy.Master.WorkerStream
import PyProxy.Protocol.Fixint
import PyProxy.Stream.Link
import PyProxy.Worker.WorkerStream

namespace PyProxy.Channel
open Stream Protocol Server Master

-- the worker's main thread and its python thread append to the same `logger`
structure MessageChannel where
  logger : Worker.WorkerStream
  wire : List UInt8
  master : WorkerStream
  sent : List WorkerStream.Notice
  got : List WorkerStream.Notice
  panicked : Bool

inductive MessageAction where
  | log (level : LogLevel) (msg : String) (tags : List (String × LogValue)) (ts : String)
  | print (message : String)
  | write (res : IoResult Nat)
  | read (n : Nat)

def MessageAction.Short (mc : MessageCodecs) : MessageAction → Prop
  | .log level msg tags ts => (mc.logMessage.serialize ⟨level, msg, ts, tags⟩).length < 2 ^ 32
  | .print message => (mc.printMessage.serialize ⟨message⟩).length < 2 ^ 32
  | _ => True

namespace MessageChannel

variable (mc : MessageCodecs)

def step (s : MessageChannel) : MessageAction → Option MessageChannel
  | .log level msg tags ts =>
    some { s with
      logger := s.logger.log mc level msg tags ts
      sent := s.sent ++ [.log ⟨level, msg, ts, tags⟩] }
  | .print message =>
    some { s with logger := s.logger.print mc message, sent := s.sent ++ [.print ⟨message⟩] }
  | .write (.error _) => some s
  | .write (.ok n) =>
    if n ≤ s.logger.outbuffer.length then
      match s.logger.write (.ok n) with
      | .ok logger => some { s with logger := logger, wire := s.wire ++ s.logger.outbuffer.take n }
      | .error _ => none
    else none
  | .read n =>
    if s.panicked ∨ s.wire.take n = [] then none
    else match s.master.read mc (.ok (s.wire.take n)) with
    | (.ok notices, master) =>
      some { s with wire := s.wire.drop n, master := master, got := s.got ++ notices }
    | (.error _, master) => some { s with wire := s.wire.drop n, master := master }
    | (.panic _, master) => some { s with wire := s.wire.drop n, master := master, panicked := true }

def machine (stream : Sock) (interest : Interest) : Machine MessageChannel MessageAction where
  init := ⟨.new stream, [], .new interest, [], [], false⟩
  step := step mc

def frame : WorkerStream.Notice → List UInt8
  | .log msg =>
    let raw := mc.logMessage.serialize msg
    [logMessage] ++ (toBeBytes (asU32 raw.length)).toList ++ raw
  | .print msg =>
    let raw := mc.printMessage.serialize msg
    [printMessage] ++ (toBeBytes (asU32 raw.length)).toList ++ raw
  | .unrecognised _ => []

theorem header_encodes {t : UInt8} {raw : List UInt8} {notice : WorkerStream.Notice}
    (len : raw.length < 2 ^ 32) (body : WorkerStream.decode mc (t, raw.length) raw = .ok notice) :
    (WorkerStream.framer mc).Encodes
      ([t] ++ (toBeBytes (asU32 raw.length)).toList ++ raw) notice := by
  have hlen : (fromBeBytes (toBeBytes (asU32 raw.length))).toNat = raw.length := by
    rw [fromBeBytes_toBeBytes, asU32_toNat len]
  have hv : WorkerStream.msgHeader #v[t, (toBeBytes (asU32 raw.length))[0],
      (toBeBytes (asU32 raw.length))[1], (toBeBytes (asU32 raw.length))[2],
      (toBeBytes (asU32 raw.length))[3]] = .ok (t, raw.length) :=
    congrArg (fun k => Except.ok (t, k)) hlen
  exact headed_encodes _ _ _ _ (by decide) hv rfl body

theorem log_encodes (logs : mc.logMessage.RoundTrips) {msg : LogMessage}
    (len : (mc.logMessage.serialize msg).length < 2 ^ 32) :
    (WorkerStream.framer mc).Encodes (frame mc (.log msg)) (.log msg) := by
  refine header_encodes mc len ?_
  simp only [WorkerStream.decode, logs msg len, if_true]

theorem print_encodes (prints : mc.printMessage.RoundTrips) {msg : PrintMessage}
    (len : (mc.printMessage.serialize msg).length < 2 ^ 32) :
    (WorkerStream.framer mc).Encodes (frame mc (.print msg)) (.print msg) := by
  refine header_encodes mc len ?_
  have hne : printMessage ≠ logMessage := by decide
  simp only [WorkerStream.decode, prints msg len, hne, if_false, if_true]

def link (s : MessageChannel) : Link WorkerStream.Notice UInt8 where
  queued := s.sent.map fun notice => (frame mc notice, notice)
  out := s.logger.outbuffer
  wire := s.wire
  inbuf := s.master.inbuffer
  got := s.got

structure Inv (s : MessageChannel) : Prop where
  sound : Link.Sound (WorkerStream.framer mc) (s.link mc)
  known : ∀ t, .unrecognised t ∉ s.sent
  ok : s.panicked = false

variable {mc} {s s' : MessageChannel}

theorem Inv.append (inv : Inv mc s) {notice : WorkerStream.Notice} {logger : Worker.WorkerStream}
    (encodes : (WorkerStream.framer mc).Encodes (frame mc notice) notice)
    (known : ∀ t, notice ≠ .unrecognised t)
    (hl : logger.outbuffer = s.logger.outbuffer ++ frame mc notice) :
    Inv mc { s with logger := logger, sent := s.sent ++ [notice] } where
  sound := by
    have hs := inv.sound.step (Link.Step.queue _ (frame mc notice, notice) encodes)
    simpa [link, hl] using hs
  known := by
    intro t ht
    rcases List.mem_append.mp ht with ht | ht
    · exact inv.known t ht
    · exact known t (List.mem_singleton.mp ht).symm
  ok := inv.ok

theorem step_inv (logs : mc.logMessage.RoundTrips) (prints : mc.printMessage.RoundTrips)
    {a : MessageAction} (inv : Inv mc s) (short : a.Short mc) (h : step mc s a = some s') :
    Inv mc s' := by
  cases a with
  | log level msg tags ts =>
    obtain rfl := Option.some.inj h
    refine inv.append (log_encodes mc logs short) (by simp) ?_
    simp [Worker.WorkerStream.log, Worker.WorkerStream.newMsg, frame]
  | print message =>
    obtain rfl := Option.some.inj h
    refine inv.append (print_encodes mc prints short) (by simp) ?_
    simp [Worker.WorkerStream.print, Worker.WorkerStream.newMsg, frame]
  | write res =>
    cases res with
    | error e =>
      obtain rfl := Option.some.inj h
      exact inv
    | ok n =>
      obtain ⟨-, heq⟩ := Option.ite_none_right_eq_some.mp h
      obtain rfl := Option.some.inj heq
      refine ⟨?_, inv.known, inv.ok⟩
      have hs := inv.sound.step (Link.Step.write _ n)
      simpa [link] using hs
  | read n =>
    simp only [step] at h
    split at h
    · cases h
    · rename_i hread
      rw [not_or] at hread
      rw [WorkerStream.read_ok mc hread.2 (inv.sound.read_ok n)] at h
      obtain rfl := Option.some.inj h
      exact ⟨inv.sound.step (Link.Step.read _ n), inv.known, inv.ok⟩

theorem messages_delivered (logs : mc.logMessage.RoundTrips) (prints : mc.printMessage.RoundTrips)
    {stream : Sock} {interest : Interest} {ls : List MessageAction}
    (run : (machine mc stream interest).exec ls = some s) (short : ∀ a ∈ ls, a.Short mc) :
    s.panicked = false ∧ s.got <+: s.sent ∧ ∀ t, .unrecognised t ∉ s.got := by
  have start : Inv mc (machine mc stream interest).init :=
    ⟨Link.sound_empty _, by simp [machine], rfl⟩
  have inv := Machine.invariant_along start (fun _ _ _ => step_inv logs prints) run
    (Machine.along_of_forall short)
  have pairs : (s.link mc).queued.map Prod.snd = s.sent :=
    (List.map_map ..).trans (List.map_id s.sent)
  have hgot : s.got <+: s.sent := pairs ▸ inv.sound.got_initial
  exact ⟨inv.ok, hgot, fun t ht => inv.known t (hgot.subset ht)⟩

-- the first read that completes the log ends inside the print
def twoProducers : List MessageAction :=
  [.log .info "queued" [("future_id", .string "a")] "t", .write (.ok 3), .print "x", .read 2,
    .write (.ok 60), .read 50, .write (.ok 21), .read 25, .read 10]

theorem messages_delivered_twoProducers :
    ∃ s, (machine fixintMessages 0 ro).exec twoProducers = some s ∧ s.sent.length = 2 ∧ s.got.length = 2 ∧
      s.panicked = false ∧ s.got <+: s.sent ∧ ∀ t, .unrecognised t ∉ s.got := by
  have hrun : ((machine fixintMessages 0 ro).exec twoProducers).any
      (fun s => decide (s.sent.length = 2 ∧ s.got.length = 2)) = true := by decide +kernel
  have hlog : (fixintMessages.logMessage.serialize
      ⟨.info, "queued", "t", [("future_id", .string "a")]⟩).length < 2 ^ 32 := by decide +kernel
  have hprint : (fixintMessages.printMessage.serialize ⟨"x"⟩).length < 2 ^ 32 := by decide +kernel
  have short : ∀ a ∈ twoProducers, a.Short fixintMessages := by
    simp only [twoProducers, List.forall_mem_cons, MessageAction.Short]
    exact ⟨hlog, trivial, hprint, trivial, trivial, trivial, trivial, trivial, trivial, List.forall_mem_nil _⟩
  obtain ⟨s, hs, whole⟩ := (Option.any_eq_true _ _).mp hrun
  obtain ⟨sent, got⟩ := of_decide_eq_true whole
  exact ⟨s, hs, sent, got, messages_delivered fixint_logMessage_roundTrips fixint_printMessage_roundTrips hs short⟩

end MessageChannel
end PyProxy.Channel
