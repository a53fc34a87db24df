import PyProxy.Worker.Standing

namespace PyProxy.Worker
open Stream Protocol Server Poll

namespace Loop

variable {env : Env} {c c' c'' : Loop} {ev : Event} {io : EventIo} {cs : ClientStream} {tk : Token}

-- the unix stream stays registered as it is
structure SameUnix (c c' : Loop) : Prop where
  interest : c'.wsInterest = c.wsInterest
  stream : c'.workerStream.stream = c.workerStream.stream
  reg : (c'.os.source c.workerStream.stream).reg = (c.os.source c.workerStream.stream).reg

namespace SameUnix

theorem refl (c : Loop) : SameUnix c c := ⟨rfl, rfl, rfl⟩

theorem trans (h : SameUnix c c') (h' : SameUnix c' c'') : SameUnix c c'' where
  interest := h'.interest.trans h.interest
  stream := h'.stream.trans h.stream
  reg := by
    have later := h'.reg
    rw [h.stream] at later
    exact later.trans h.reg

theorem modify {k : Sock} (apart : k ≠ c.workerStream.stream) (f : Source Token UInt8 → Source Token UInt8) :
    SameUnix c { c with os := c.os.modify k f } :=
  ⟨rfl, rfl, congrArg Source.reg (World.modify_other _ f apart.symm)⟩

theorem ofOs {os : World Token UInt8} (same : c.os.SameReg os) : SameUnix c { c with os := os } :=
  ⟨rfl, rfl, same.2 _⟩

theorem drop (apart : cs.stream ≠ c.workerStream.stream) : SameUnix c (c.drop tk cs) := by
  have detached := modify apart Source.detach
  exact ⟨detached.interest, detached.stream, detached.reg⟩

theorem takeStream {io : HeadIo} {msg : Vector UInt8 requestHeaderSize × Sock}
    (apart : msg.2 ≠ c.workerStream.stream) : SameUnix c (c.takeStream env io msg) := by
  rcases c.takeStream_cases env io msg with he | he | ⟨cs, -, -, -, -, he⟩
  · rw [he]
    exact refl c
  · rw [he]
    exact ⟨rfl, rfl, rfl⟩
  · rw [he]
    have attached := modify apart (·.attach c.tokenIo ro)
    exact ⟨attached.interest, attached.stream, attached.reg⟩

theorem takeStreams (h : Anchored c) (io : HeadIo) : SameUnix c (c.takeStreams env io) := by
  have fold : ∀ (msgs : List (Vector UInt8 requestHeaderSize × Sock)) {d : Loop},
      (∀ msg ∈ msgs, msg.2 ≠ d.workerStream.stream) →
        SameUnix d (msgs.foldl (Loop.takeStream env io) d) := by
    intro msgs
    induction msgs with
    | nil => exact fun _ => refl _
    | cons msg msgs ih =>
      intro d apart
      have first : SameUnix d (d.takeStream env io msg) := takeStream (apart msg (by simp))
      refine first.trans (ih fun m hm => ?_)
      rw [first.stream]
      exact apart m (by simp [hm])
  have emptied : SameUnix c { c with workerStream := { c.workerStream with newMsgs := [] } } :=
    ⟨rfl, rfl, rfl⟩
  refine emptied.trans (fold _ fun msg hm => ?_)
  exact h.sockets _ (List.mem_append_left _ (List.mem_map_of_mem hm))

theorem setStreamInterest (apart : cs.stream ≠ c.workerStream.stream) (refused : Bool) (i : Interest) :
    SameUnix c (c.setStreamInterest tk cs refused i) := by
  simp only [Loop.setStreamInterest]
  cases hr : c.os.reregister refused cs.stream tk i with
  | none => exact ⟨rfl, rfl, rfl⟩
  | some os =>
    obtain ⟨-, rfl⟩ := World.reregister_some hr
    have attached := modify apart (·.attach tk i)
    exact ⟨attached.interest, attached.stream, attached.reg⟩

theorem forward (h : Anchored c) (io : HeadIo) (tk : Token) : SameUnix c (c.forward env io tk) := by
  cases hl : c.clientStreams.lookup tk with
  | none =>
    rw [c.forward_none env io hl]
    exact refl c
  | some cs =>
    obtain ⟨o, ho⟩ := sendMsgs env tk cs.sessionId io.queueTs cs.reqMsgs c
    simp only [Loop.forward, hl, ho]
    generalize c.threadSender ++ cs.reqMsgs.map (fun msg => (⟨tk, cs.sessionId, msg⟩ : Sent)) = sent
    have logged : SameUnix c { c with
        workerStream := { c.workerStream with outbuffer := o }, threadSender := sent } := ⟨rfl, rfl, rfl⟩
    have apart : ({ cs with reqMsgs := [] } : ClientStream).stream ≠ c.workerStream.stream :=
      h.streams tk cs hl
    split
    · refine logged.trans (setStreamInterest ?_ _ rw)
      exact apart
    · split
      · refine logged.trans (setStreamInterest ?_ _ ro)
        exact apart
      · exact ⟨rfl, rfl, rfl⟩

theorem forwards (h : Anchored c) (io : HeadIo) (order : List Token) :
    Anchored (order.foldl (Loop.forward env io) c) ∧ SameUnix c (order.foldl (Loop.forward env io) c) := by
  induction order generalizing c with
  | nil => exact ⟨h, refl c⟩
  | cons tk order ih =>
    obtain ⟨held, same⟩ := ih (h.forward io tk)
    exact ⟨held, (forward h io tk).trans same⟩

theorem workerRead (c : Loop) (ev : Event) (io : EventIo) : SameUnix c (c.workerRead ev io).2 := by
  simp only [Loop.workerRead]
  split
  · have quiet := c.os.read_quiet c.workerStream.stream bufferSize io.read
    exact ⟨rfl, c.workerStream.read_stream _ _, (quiet.2 _).reg⟩
  · exact refl c

theorem workerWrite (c : Loop) (ev : Event) (io : EventIo) : SameUnix c (c.workerWrite ev io).2 := by
  simp only [Loop.workerWrite]
  split
  · have quiet := c.os.write_quiet c.workerStream.stream c.workerStream.outbuffer.length io.write
    split
    · exact ⟨rfl, rfl, (quiet.2 _).reg⟩
    · rename_i ws hws
      have stream : ws.stream = c.workerStream.stream := by
        generalize (c.os.write c.workerStream.stream c.workerStream.outbuffer.length io.write).1 = r at hws
        cases r with
        | error e => cases hws
        | ok n =>
          cases hws
          rfl
      exact ⟨rfl, stream, (quiet.2 _).reg⟩
  · exact refl c

theorem clientRead (apart : cs.stream ≠ c.workerStream.stream) (io : EventIo) :
    SameUnix c (c.clientRead env ev cs io).1 := by
  simp only [Loop.clientRead]
  split
  · have read := ofOs (c.os.read_quiet cs.stream bufferSize io.read).sameReg
    obtain ⟨stream, -⟩ := cs.read_fields env.bc (c.os.read cs.stream bufferSize io.read).1
    generalize cs.read env.bc (c.os.read cs.stream bufferSize io.read).1 = r at stream ⊢
    obtain ⟨res, cs'⟩ := r
    have stored : SameUnix c { c with
        os := (c.os.read cs.stream bufferSize io.read).2
        clientStreams := c.clientStreams.insert ev.token cs' } := ⟨read.interest, read.stream, read.reg⟩
    cases res with
    | ok u => exact stored
    | error e =>
      have own : cs'.stream ≠ c.workerStream.stream := stream ▸ apart
      refine stored.trans (drop ?_)
      exact own
  · exact refl c

theorem clientWrite (apart : cs.stream ≠ c.workerStream.stream) (io : EventIo) :
    SameUnix c (c.clientWrite ev cs io) := by
  simp only [Loop.clientWrite]
  split
  · have write := ofOs (c.os.write_quiet cs.stream cs.outbuffer.length io.write).sameReg
    split
    · exact ⟨write.interest, write.stream, write.reg⟩
    · refine write.trans (drop ?_)
      exact apart
  · exact refl c

theorem event (h : Anchored c) (hc : c.event env ev io = .running c') : SameUnix c c' := by
  cases event_turns hc with
  | worker token d d' read write =>
    have reads := workerRead c ev io
    have writes := workerWrite d ev io
    rw [read] at reads
    rw [write] at writes
    exact reads.trans writes
  | unknown token found => exact refl c
  | client token cs found =>
    have apart := h.streams _ cs found
    obtain ⟨-, unix, stream⟩ := @Anchored.clientRead env c ev cs h apart io
    refine (clientRead apart io).trans (clientWrite ?_ io)
    rwa [unix, stream]

end SameUnix

theorem smooth_of_running (hc : c.event env ev io = .running c') : c.Smooth ev io := by
  intro token
  cases event_turns hc with
  | unknown other => exact absurd token other
  | client other => exact absurd token other
  | worker _ d d' read write =>
    constructor
    · intro readable
      simp only [Loop.workerRead, readable, if_true] at read
      generalize c.os.read c.workerStream.stream bufferSize io.read = r at read ⊢
      obtain ⟨_ | _ | ⟨b, bytes⟩, os⟩ := r
      · cases congrArg Prod.fst read
      · cases congrArg Prod.fst read
      · exact ⟨b :: bytes, List.cons_ne_nil b bytes, rfl⟩
    · intro writable
      rw [read]
      simp only [Loop.workerWrite, writable, if_true] at write
      generalize d.os.write d.workerStream.stream d.workerStream.outbuffer.length io.write = r at write ⊢
      obtain ⟨_ | n, os⟩ := r
      · cases congrArg Prod.fst write
      · exact ⟨n, rfl⟩

theorem Anchored.kept (h : Anchored c) (fresh : ∀ k ∈ io.fds, k ≠ c.workerStream.stream)
    (hc : c.event env ev io = .running c') : Anchored c' := by
  obtain ⟨d, hd, held⟩ := h.event fresh (smooth_of_running hc)
  cases hc.symm.trans hd
  exact held

-- `wsInterest` is what the poll knows of the unix stream
structure Listening (c : Loop) : Prop where
  anchored : c.Anchored
  interest : c.wsInterest = ro ∨ c.wsInterest = rw
  registered : (c.os.source c.workerStream.stream).reg = some (workerStreamTk, c.wsInterest)

namespace Listening

theorem same (h : Listening c) (anchored : c'.Anchored) (same : SameUnix c c') : Listening c' where
  anchored := anchored
  interest := by
    rw [same.interest]
    exact h.interest
  registered := by
    rw [same.stream, same.reg, same.interest]
    exact h.registered

theorem updateInterest (h : Listening c) {refused : Bool} (hu : c.updateInterest refused = .ok c') :
    Listening c' := by
  rcases updateInterest_cases hu with rfl | ⟨i, os, known, hr, rfl⟩
  · exact h
  · obtain ⟨-, rfl⟩ := World.reregister_some hr
    have reg : ((c.os.modify c.workerStream.stream (·.attach workerStreamTk i)).source
        c.workerStream.stream).reg = some (workerStreamTk, i) := by rw [World.attach_reg, if_pos rfl]
    refine ⟨{ h.anchored with registered := ?_ }, known, reg⟩
    dsimp only
    rw [reg]
    rfl

theorem takeStreams (h : Listening c) (io : HeadIo) : Listening (c.takeStreams env io) :=
  h.same (h.anchored.takeStreams io) (.takeStreams h.anchored io)

theorem forwards (h : Listening c) (io : HeadIo) (order : List Token) :
    Listening (order.foldl (Loop.forward env io) c) := by
  obtain ⟨anchored, same⟩ := SameUnix.forwards h.anchored io order
  exact h.same anchored same

theorem head {io : HeadIo} (h : Listening c) (hc : c.head env io = .running c') : Listening c' := by
  obtain ⟨d, hu, rfl⟩ := head_turns hc
  exact ((h.takeStreams io).updateInterest hu).forwards io io.order

theorem event (h : Listening c) (fresh : ∀ k ∈ io.fds, k ≠ c.workerStream.stream)
    (hc : c.event env ev io = .running c') : Listening c' :=
  h.same (h.anchored.kept fresh hc) (.event h.anchored hc)

end Listening
end Loop

namespace Daemon

variable {env : Env}

def Listening (s : Daemon) : Prop := ∀ c, s.flow = .running c → c.Listening

theorem start_listening : start.Listening := ⟨start_anchored, .inl rfl, rfl⟩

theorem Listening.step {s s' : Daemon} {l : Label} (h : Listening s) (hs : step env s l = some s') :
    Listening s' := by
  obtain ⟨c, hc, hcase⟩ := step_cases hs
  have held := h c hc
  cases hcase.move with
  | head io phase order => exact fun c' hc' => held.head hc'
  | event read fds write ev batch phase =>
    have bound : (c.bindFds fds).Listening :=
      held.same (held.anchored.frame (Nat.le_add_right _ _) rfl rfl rfl rfl) ⟨rfl, rfl, rfl⟩
    refine fun c' hc' => bound.event (fun k hk => Nat.ne_of_gt ?_) hc'
    exact Nat.lt_of_lt_of_le held.anchored.opened (List.mem_range'_1.mp hk).1
  | pythread msgType msg =>
    rintro c' ⟨⟩
    exact held.same (held.anchored.frame (Nat.le_refl _) rfl rfl rfl rfl) ⟨rfl, rfl, rfl⟩
  | outside l os phase outer same =>
    rintro c' ⟨⟩
    exact held.same (held.anchored.frame (Nat.le_of_eq same.1.symm) (same.2 _) rfl rfl rfl) (.ofOs same)

theorem listening_run {ls : List Label} {s : Daemon} (run : (machine env).exec ls = some s) :
    Listening s := by
  refine Machine.invariant (fun c hc => ?_) (fun s l s' h hs => h.step hs) run
  cases hc
  exact start_listening

end Daemon
end PyProxy.Worker
