import PyProxy.Client.Streams
import PyProxy.Machine.Run
import PyProxy.Master.OutputStream
import PyProxy.Stream.Link

namespace PyProxy.Channel
open Stream Protocol Client

-- an output stream from the master's buffer to the lines its client has read
structure OutputChannel where
  master : Master.OutputStream
  wire : List UInt8
  client : OutputStream
  sent : List PipeOut
  got : List PipeOut
  failed : Bool

inductive OutputAction where
  | sendStdout (line : List UInt8)
  | sendStderr (line : List UInt8)
  | write (res : IoResult Nat)
  | read (n : Nat)

def OutputAction.Short : OutputAction → Prop
  | .sendStdout line => line.length < 2 ^ 32
  | .sendStderr line => line.length < 2 ^ 32
  | _ => True

namespace OutputChannel

def step (s : OutputChannel) : OutputAction → Option OutputChannel
  | .sendStdout line =>
    some { s with master := s.master.sendStdout line, sent := s.sent ++ [⟨line, .stdout⟩] }
  | .sendStderr line =>
    some { s with master := s.master.sendStderr line, sent := s.sent ++ [⟨line, .stderr⟩] }
  | .write (.error e) => some { s with master := (s.master.write (.error e)).2 }
  | .write (.ok n) =>
    if n ≤ s.master.outbuffer.length then
      some { s with
        master := (s.master.write (.ok n)).2
        wire := s.wire ++ s.master.outbuffer.take n }
    else none
  | .read n =>
    if s.wire.take n = [] then none
    else match s.client.read (.ok (s.wire.take n)) with
    | (.error _, client) => some { s with wire := s.wire.drop n, client := client, failed := true }
    | (.ok lines, client) =>
      some { s with wire := s.wire.drop n, client := client, got := s.got ++ lines }

def machine (token : Token) (interest : Interest) : Machine OutputChannel OutputAction where
  init := ⟨.new token interest, [], ⟨[]⟩, [], [], false⟩
  step := step

def frame (p : PipeOut) : List UInt8 × PipeOut :=
  (Output.newMsg ⟨p.fd, p.line.length⟩ p.line, p)

theorem frame_encodes {p : PipeOut} (h : p.line.length < 2 ^ 32) :
    OutputStream.framer.Encodes (frame p).1 (frame p).2 :=
  headed_encodes _ _ _ _ _ (Output.MessageHeader.fromRaw_intoBuf h) rfl rfl

def link (s : OutputChannel) : Link PipeOut UInt8 where
  queued := s.sent.map frame
  out := s.master.outbuffer
  wire := s.wire
  inbuf := s.client.buffer
  got := s.got

structure Inv (s : OutputChannel) : Prop where
  sound : Link.Sound OutputStream.framer s.link
  ok : s.failed = false

variable {s s' : OutputChannel}

theorem link_send {p : PipeOut} {master : Master.OutputStream} (h : p.line.length < 2 ^ 32)
    (hm : master.outbuffer = s.master.outbuffer ++ (frame p).1) :
    Link.Step OutputStream.framer s.link
      { s with master := master, sent := s.sent ++ [p] }.link := by
  have hs := Link.Step.queue s.link (frame p) (frame_encodes h)
  simpa [link, hm] using hs

theorem step_inv {a : OutputAction} (inv : Inv s) (short : a.Short) (h : s.step a = some s') :
    Inv s' := by
  cases a with
  | sendStdout line =>
    obtain rfl := Option.some.inj h
    exact ⟨inv.sound.step (@link_send s ⟨line, .stdout⟩ _ short rfl), inv.ok⟩
  | sendStderr line =>
    obtain rfl := Option.some.inj h
    exact ⟨inv.sound.step (@link_send s ⟨line, .stderr⟩ _ short rfl), inv.ok⟩
  | write res =>
    cases res with
    | error e =>
      obtain rfl := Option.some.inj h
      exact inv
    | ok n =>
      obtain ⟨-, heq⟩ := Option.ite_none_right_eq_some.mp h
      obtain rfl := Option.some.inj heq
      refine ⟨?_, inv.ok⟩
      have hs := inv.sound.step (Link.Step.write s.link n)
      simpa [link, Master.OutputStream.write] using hs
  | read n =>
    simp only [step] at h
    split at h
    · cases h
    · rename_i hne
      have hread := OutputStream.read_ok hne (inv.sound.read_ok n)
      rw [hread] at h
      obtain rfl := Option.some.inj h
      exact ⟨inv.sound.step (Link.Step.read s.link n), inv.ok⟩

theorem frames_delivered {token : Token} {interest : Interest} {ls : List OutputAction}
    (run : (machine token interest).exec ls = some s) (short : ∀ a ∈ ls, a.Short) :
    s.failed = false ∧ s.got <+: s.sent ∧
      (s.master.outbuffer = [] → s.wire = [] → s.got = s.sent) := by
  have start : Inv (machine token interest).init := ⟨Link.sound_empty _, rfl⟩
  have inv := Machine.invariant_along start (fun _ _ _ => step_inv) run
    (Machine.along_of_forall short)
  have pairs : s.link.queued.map Prod.snd = s.sent :=
    (List.map_map ..).trans (List.map_id s.sent)
  refine ⟨inv.ok, pairs ▸ inv.sound.got_initial, fun hout hwire => ?_⟩
  rw [← pairs]
  exact inv.sound.got_all hwire hout

def chunked : List OutputAction :=
  [.sendStdout [104], .write (.ok 4), .sendStderr [], .read 3, .write (.error .wouldBlock),
    .write (.ok 7), .read 5, .read 3]

theorem frames_delivered_chunked : ∃ s, (machine 3 ro).exec chunked = some s ∧ s.failed = false ∧
    s.got = [⟨[104], .stdout⟩, ⟨[], .stderr⟩] := by
  have run : (machine 3 ro).exec chunked = some ⟨⟨3, ro, [], [], none⟩, [], ⟨[]⟩,
      [⟨[104], .stdout⟩, ⟨[], .stderr⟩], [⟨[104], .stdout⟩, ⟨[], .stderr⟩], false⟩ := rfl
  have short : ∀ a ∈ chunked, a.Short := by simp [chunked, OutputAction.Short]
  obtain ⟨ok, -, all⟩ := frames_delivered run short
  exact ⟨_, run, ok, all rfl rfl⟩

end OutputChannel
end PyProxy.Channel
