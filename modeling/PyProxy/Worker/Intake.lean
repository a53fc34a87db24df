import PyProxy.Worker.Flushing

namespace PyProxy.Worker
open Stream Protocol Server Poll

-- what has come in on the unix stream and the loop has not taken yet
structure Intake where
  newMsgs : List (Vector UInt8 requestHeaderSize × Sock)
  inFds : List Sock
  inbuffer : List UInt8
  input : List UInt8
  next : Nat

namespace Intake

def emptied (i : Intake) : Intake := { i with newMsgs := [] }

def received (i : Intake) (bytes : List UInt8) : Intake := { i with input := i.input ++ bytes }

def takeHeader (i : Intake) : Intake :=
  let s : WorkerStream := ⟨0, i.inFds, i.inbuffer, [], i.newMsgs⟩
  { i with
    newMsgs := s.takeHeader.newMsgs
    inFds := s.takeHeader.inFds
    inbuffer := s.takeHeader.inbuffer }

-- one read, which takes at most one header
def read (i : Intake) (n : Nat) (fds : List Sock) : Intake :=
  takeHeader { i with
    inFds := i.inFds ++ fds
    inbuffer := i.inbuffer ++ i.input.take n
    input := i.input.drop n }

theorem takeHeader_cases (i : Intake) : i.takeHeader = i ∨ ∃ fd fds, i.inFds = fd :: fds ∧
    requestHeaderSize ≤ i.inbuffer.length ∧ i.takeHeader = { i with
      newMsgs := i.newMsgs ++ [(copyHeader requestHeaderSize i.inbuffer, fd)]
      inFds := fds
      inbuffer := i.inbuffer.drop requestHeaderSize } := by
  obtain ⟨newMsgs, inFds, inbuffer, input, next⟩ := i
  simp only [takeHeader, WorkerStream.takeHeader]
  split
  · rename_i full
    cases inFds with
    | nil => exact .inl rfl
    | cons fd fds =>
      refine .inr ⟨fd, fds, rfl, full, ?_⟩
      simp only [compact_eq_drop]
  · exact .inl rfl

end Intake

namespace Loop

def intake (c : Loop) : Intake where
  newMsgs := c.workerStream.newMsgs
  inFds := c.workerStream.inFds
  inbuffer := c.workerStream.inbuffer
  input := c.input c.workerStream.stream
  next := c.os.next

-- what an event reads off the unix stream
def taken (c : Loop) (ev : Event) (read : ReadIo) : List UInt8 :=
  if ev.token = workerStreamTk ∧ ev.readable = true then
    match (c.os.read c.workerStream.stream bufferSize read).1 with
    | .ok bytes => bytes
    | .error _ => []
  else []

variable {env : Env} {c c' : Loop} {ev : Event} {io : EventIo}

theorem intake_os {os : World Token UInt8} (input : ∀ k, (os.source k).input = c.input k)
    (next : os.next = c.os.next) : intake { c with os := os } = c.intake := by
  simp only [intake, Loop.input, next, input]

theorem intake_modify (k : Sock) {f : Source Token UInt8 → Source Token UInt8} (hf : ∀ s, (f s).input = s.input) :
    intake { c with os := c.os.modify k f } = c.intake :=
  intake_os (World.modify_input _ _ hf) rfl

theorem takeStream_intake (io : HeadIo) (msg : Vector UInt8 requestHeaderSize × Sock) :
    (c.takeStream env io msg).intake = c.intake := by
  rcases c.takeStream_cases env io msg with he | he | ⟨cs, -, -, -, -, he⟩
  · rw [he]
  · rw [he]
    rfl
  · rw [he]
    exact @intake_modify c msg.2 (·.attach c.tokenIo ro) fun _ => rfl

theorem takeStreams_intake (io : HeadIo) : (c.takeStreams env io).intake = c.intake.emptied :=
  List.foldlRecOn (motive := fun (d : Loop) => d.intake = c.intake.emptied) c.workerStream.newMsgs _ rfl
    fun _ same msg _ => (takeStream_intake io msg).trans same

theorem updateInterest_intake {refused : Bool} (h : c.updateInterest refused = .ok c') :
    c'.intake = c.intake := by
  rcases updateInterest_cases h with rfl | ⟨i, os, -, granted, rfl⟩
  · rfl
  · obtain ⟨-, rfl⟩ := World.reregister_some granted
    exact intake_os (World.modify_input _ _ fun _ => rfl) rfl

theorem setStreamInterest_intake (tk : Token) (cs : ClientStream) (refused : Bool) (i : Interest) :
    (c.setStreamInterest tk cs refused i).intake = c.intake := by
  simp only [setStreamInterest]
  split
  · rfl
  · rename_i os granted
    obtain ⟨-, rfl⟩ := World.reregister_some granted
    exact @intake_modify c cs.stream (·.attach tk i) fun _ => rfl

theorem forward_intake (io : HeadIo) (tk : Token) : (c.forward env io tk).intake = c.intake := by
  cases found : c.clientStreams.lookup tk with
  | none => rw [c.forward_none env io found]
  | some cs =>
    obtain ⟨o, sent⟩ := sendMsgs env tk cs.sessionId io.queueTs cs.reqMsgs c
    simp only [forward, found, sent]
    split
    · exact setStreamInterest_intake ..
    · split
      · exact setStreamInterest_intake ..
      · rfl

theorem head_intake (io : HeadIo) : (c.head env io).state.intake = c.intake.emptied := by
  have taken := @takeStreams_intake env c io
  simp only [head]
  cases hu : (c.takeStreams env io).updateInterest io.wsRefused with
  | error e => exact taken
  | ok d =>
    have forwarded : (io.order.foldl (forward env io) d).intake = c.intake.emptied :=
      List.foldlRecOn (motive := fun (d : Loop) => d.intake = c.intake.emptied) io.order _
        ((updateInterest_intake hu).trans taken) fun _ same tk _ =>
          (forward_intake io tk).trans same
    dsimp only
    cases io.poll <;> exact forwarded

theorem workerWrite_intake : (c.workerWrite ev io).2.intake = c.intake := by
  simp only [workerWrite]
  split
  · have same : intake { c with
        os := (c.os.write c.workerStream.stream c.workerStream.outbuffer.length io.write).2 } = c.intake :=
      intake_modify _ fun s => s.put_input _ _
    generalize c.os.write c.workerStream.stream c.workerStream.outbuffer.length io.write = r at same ⊢
    obtain ⟨_ | n, os⟩ := r <;> exact same
  · rfl

theorem read_intake {ws : WorkerStream} {fds : List Sock} {bytes : List UInt8} (some : bytes ≠ []) :
    (ws.read fds (.ok bytes)).2 =
      { ws with inFds := ws.inFds ++ fds, inbuffer := ws.inbuffer ++ bytes }.takeHeader := by
  cases bytes with
  | nil => exact absurd rfl some
  | cons b bytes => rfl

theorem takeHeader_same {s t : WorkerStream} (newMsgs : t.newMsgs = s.newMsgs) (inFds : t.inFds = s.inFds)
    (inbuffer : t.inbuffer = s.inbuffer) : t.takeHeader.newMsgs = s.takeHeader.newMsgs ∧
      t.takeHeader.inFds = s.takeHeader.inFds ∧ t.takeHeader.inbuffer = s.takeHeader.inbuffer := by
  simp only [WorkerStream.takeHeader, newMsgs, inFds, inbuffer]
  split
  · split
    · exact ⟨newMsgs, inFds, inbuffer⟩
    · exact ⟨rfl, rfl, rfl⟩
  · exact ⟨newMsgs, inFds, inbuffer⟩

theorem workerRead_intake (token : ev.token = workerStreamTk) :
    (c.taken ev io.read = [] ∧ (c.workerRead ev io).2.intake = c.intake) ∨
      ∃ n, c.taken ev io.read = c.intake.input.take n ∧ c.taken ev io.read ≠ [] ∧
        (c.workerRead ev io).2.intake = c.intake.read n io.fds := by
  simp only [taken, workerRead, token, true_and]
  split
  · rcases c.os.read_results c.workerStream.stream (Nat.zero_lt_succ 4095) io.read with
      ⟨e, he⟩ | he | ⟨n, he, hne, -⟩
    · rw [show bufferSize = 4095 + 1 from rfl, he]
      exact .inl ⟨rfl, rfl⟩
    · rw [show bufferSize = 4095 + 1 from rfl, he]
      exact .inl ⟨rfl, rfl⟩
    · rw [show bufferSize = 4095 + 1 from rfl, he]
      refine .inr ⟨n, rfl, hne, ?_⟩
      dsimp only
      have stream := c.workerStream.read_stream io.fds (.ok ((c.os.source c.workerStream.stream).input.take n))
      rw [intake]
      dsimp only [Loop.input]
      rw [stream, World.modify_same, read_intake hne]
      obtain ⟨newMsgs, inFds, inbuffer⟩ := @takeHeader_same
        ⟨0, c.workerStream.inFds ++ io.fds,
          c.workerStream.inbuffer ++ (c.os.source c.workerStream.stream).input.take n, [], c.workerStream.newMsgs⟩
        { c.workerStream with
          inFds := c.workerStream.inFds ++ io.fds
          inbuffer := c.workerStream.inbuffer ++ (c.os.source c.workerStream.stream).input.take n }
        rfl rfl rfl
      rw [newMsgs, inFds, inbuffer]
      rfl
  · exact .inl ⟨rfl, rfl⟩

theorem intake_drop (tk : Token) (cs : ClientStream) : (c.drop tk cs).intake = c.intake :=
  @intake_modify c cs.stream Source.detach fun _ => rfl

theorem clientRead_intake {cs : ClientStream} (apart : cs.stream ≠ c.workerStream.stream) :
    (c.clientRead env ev cs io).1.intake = c.intake := by
  simp only [clientRead]
  split
  · have other := c.os.read_other bufferSize io.read apart.symm
    have next : (c.os.read cs.stream bufferSize io.read).2.next = c.os.next := rfl
    generalize c.os.read cs.stream bufferSize io.read = r at other next ⊢
    obtain ⟨res, os⟩ := r
    dsimp only at other next ⊢
    generalize cs.read env.bc res = r
    obtain ⟨_ | u, cs'⟩ := r
    · refine (intake_drop ev.token cs').trans ?_
      simp only [intake, Loop.input, other, next]
    · simp only [dropIfErr, intake, Loop.input, other, next]
  · rfl

theorem clientWrite_intake {cs : ClientStream} : (c.clientWrite ev cs io).intake = c.intake := by
  simp only [clientWrite]
  split
  · have same : intake { c with os := (c.os.write cs.stream cs.outbuffer.length io.write).2 } = c.intake :=
      intake_modify _ fun s => s.put_input _ _
    generalize c.os.write cs.stream cs.outbuffer.length io.write = r at same ⊢
    obtain ⟨_ | n, os⟩ := r
    · exact (intake_drop ev.token cs).trans same
    · exact same
  · rfl

-- an event takes nothing in, or it reads bytes of the unix stream
inductive Takes (c : Loop) (ev : Event) (io : EventIo) (c' : Loop) : Prop where
  | nothing (none : c.taken ev io.read = []) (same : c'.intake = c.intake) : Takes c ev io c'
  | read (n) (bytes : c.taken ev io.read = c.intake.input.take n) (some : c.taken ev io.read ≠ [])
      (more : c'.intake = c.intake.read n io.fds) : Takes c ev io c'

theorem event_takes (apart : ∀ tk k, c.streamOf tk = some k → k ≠ c.workerStream.stream) :
    Takes c ev io (c.event env ev io).state := by
  simp only [event]
  split
  · rename_i token
    have read := @workerRead_intake c ev io token
    generalize c.workerRead ev io = r at read ⊢
    obtain ⟨_ | u, d⟩ := r
    · rcases read with ⟨none, same⟩ | ⟨n, bytes, some, more⟩
      · exact .nothing none same
      · exact .read n bytes some more
    · have write := @workerWrite_intake d ev io
      dsimp only at read ⊢
      generalize d.workerWrite ev io = r at write ⊢
      obtain ⟨_ | u, d'⟩ := r
      all_goals
        rcases read with ⟨none, same⟩ | ⟨n, bytes, some, more⟩
        · exact .nothing none (write.trans same)
        · exact .read n bytes some (write.trans more)
  · rename_i token
    have none : c.taken ev io.read = [] := if_neg fun h => token h.1
    cases found : c.clientStreams.lookup ev.token with
    | none => exact .nothing none rfl
    | some cs =>
      have own : c.streamOf ev.token = some cs.stream := by simp [streamOf, found]
      exact .nothing none (clientWrite_intake.trans (clientRead_intake (apart _ _ own)))

-- the clients that the worker takes on have opened with a hello
def Opens (header : Vector UInt8 requestHeaderSize) : Prop :=
  ∃ msgHeader, RequestMessageHeader.fromBuf header = .ok msgHeader ∧ msgHeader.msgType = .hello

theorem new_opens {hex : List UInt8 → String} {cfg : Config} {header : Vector UInt8 requestHeaderSize}
    {stream : Sock} {interest : Interest} {sessionId : Vector UInt8 sessionIdLength} {cs : ClientStream}
    (h : ClientStream.new env.bc hex cfg header stream interest sessionId = .ok cs) : Opens header := by
  simp only [ClientStream.new] at h
  split at h
  · cases h
  · rename_i msgHeader decoded
    split at h
    · rename_i hello
      exact ⟨msgHeader, decoded, hello⟩
    · cases h

theorem takeStream_streamOf {io : HeadIo} {msg : Vector UInt8 requestHeaderSize × Sock} {tk : Token} {k : Sock}
    (own : (c.takeStream env io msg).streamOf tk = some k) :
    c.streamOf tk = some k ∨ (msg.2 = k ∧ Opens msg.1) := by
  cases made : ClientStream.new env.bc env.hex env.cfg msg.1 msg.2 ro (io.rng c.tokenIo) with
  | error e =>
    simp only [takeStream, made] at own
    exact .inl own
  | ok cs =>
    rcases c.takeStream_cases env io msg with he | he | ⟨cs', hport, -, -, -, he⟩
    · rw [he] at own
      exact .inl own
    · rw [he] at own
      exact .inl own
    · rw [he, streamOf_insert rfl] at own
      split at own
      · cases own
        exact .inr ⟨(congrArg Port.stream hport).symm, new_opens made⟩
      · exact .inl own

theorem takeStreams_streamOf (io : HeadIo) (tk : Token) (k : Sock)
    (own : (c.takeStreams env io).streamOf tk = some k) :
    c.streamOf tk = some k ∨ ∃ header, (header, k) ∈ c.workerStream.newMsgs ∧ Opens header := by
  have fold : ∀ (msgs : List (Vector UInt8 requestHeaderSize × Sock)) (d : Loop),
      (msgs.foldl (takeStream env io) d).streamOf tk = some k →
        d.streamOf tk = some k ∨ ∃ header, (header, k) ∈ msgs ∧ Opens header := by
    intro msgs
    induction msgs with
    | nil => exact fun d own => .inl own
    | cons msg msgs ih =>
      intro d own
      rcases ih _ own with own | ⟨header, later, opens⟩
      · rcases takeStream_streamOf own with old | ⟨rfl, opens⟩
        · exact .inl old
        · exact .inr ⟨msg.1, List.mem_cons_self, opens⟩
      · exact .inr ⟨header, List.mem_cons_of_mem _ later, opens⟩
  exact fold c.workerStream.newMsgs { c with workerStream := { c.workerStream with newMsgs := [] } } own

theorem head_streamOf {io : HeadIo} (h : Settled c []) (hc : c.head env io = .running c') (tk : Token) (k : Sock)
    (own : c'.streamOf tk = some k) :
    c.streamOf tk = some k ∨ ∃ header, (header, k) ∈ c.workerStream.newMsgs ∧ Opens header := by
  obtain ⟨d, hu, rfl⟩ := head_turns hc
  obtain ⟨-, plugged, -⟩ := @Owed.takeStreams env _ h.owed h.plugged h.housed io
  have tuned := Upkeep.updateInterest hu
  have forwarded : (io.order.foldl (forward env io) d).Plugged ∧
      (io.order.foldl (forward env io) d).streamOf tk = d.streamOf tk :=
    List.foldlRecOn (motive := fun (e : Loop) => e.Plugged ∧ e.streamOf tk = d.streamOf tk) io.order _
      ⟨plugged.upkeep tuned, rfl⟩ fun e he t _ =>
        have up := he.1.forward io t
        ⟨he.1.upkeep up, (up.streamOf tk).trans he.2⟩
  rw [forwarded.2, tuned.streamOf] at own
  exact takeStreams_streamOf io tk k own

end Loop
end PyProxy.Worker
