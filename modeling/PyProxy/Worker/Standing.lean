import PyProxy.Channel.Messages
import PyProxy.Server.Checked
import PyProxy.Worker.Failures

namespace PyProxy.Worker
open Stream Protocol Server Poll Master Channel

-- the operating system fails neither the poll nor the unix stream

def HeadIo.Smooth (io : HeadIo) : Prop := io.wsRefused = false ∧ io.poll = .ok ()

namespace Loop

def Smooth (c : Loop) (ev : Event) (io : EventIo) : Prop :=
  ev.token = workerStreamTk →
    (ev.readable = true → ∃ bytes, bytes ≠ [] ∧
      (c.os.read c.workerStream.stream bufferSize io.read).1 = .ok bytes) ∧
    (ev.writable = true → ∃ n, ((c.workerRead ev io).2.os.write (c.workerRead ev io).2.workerStream.stream
      (c.workerRead ev io).2.workerStream.outbuffer.length io.write).1 = .ok n)

-- the unix stream stays registered: no client stream shares its socket
structure Anchored (c : Loop) : Prop where
  opened : c.workerStream.stream < c.os.next
  registered : (c.os.source c.workerStream.stream).reg.isSome = true
  sockets : ∀ k ∈ c.workerStream.sockets, k ≠ c.workerStream.stream
  streams : ∀ tk cs, c.clientStreams.lookup tk = some cs → cs.stream ≠ c.workerStream.stream

variable {env : Env} {c c' : Loop} {tk : Token}

namespace Anchored

theorem frame (h : Anchored c) (next : c.os.next ≤ c'.os.next)
    (source : (c'.os.source c.workerStream.stream).reg = (c.os.source c.workerStream.stream).reg)
    (unix : c'.workerStream.stream = c.workerStream.stream)
    (sockets : c'.workerStream.sockets = c.workerStream.sockets)
    (streams : c'.clientStreams = c.clientStreams) : Anchored c' := by
  refine ⟨?_, ?_, ?_, ?_⟩
  · rw [unix]
    exact Nat.lt_of_lt_of_le h.opened next
  · rw [unix, source]
    exact h.registered
  · rw [unix, sockets]
    exact h.sockets
  · rw [unix, streams]
    exact h.streams

theorem insert (h : Anchored c) {cs : ClientStream} (apart : cs.stream ≠ c.workerStream.stream) :
    Anchored { c with clientStreams := c.clientStreams.insert tk cs } := by
  refine { h with streams := fun t cs' hl => ?_ }
  by_cases ht : t = tk
  · subst ht
    rw [AList.lookup_insert] at hl
    cases hl
    exact apart
  · rw [AList.lookup_insert_ne ht] at hl
    exact h.streams t cs' hl

theorem modify (h : Anchored c) {k : Sock} (apart : k ≠ c.workerStream.stream)
    (f : Source Token UInt8 → Source Token UInt8) : Anchored { c with os := c.os.modify k f } := by
  refine h.frame (Nat.le_refl _) ?_ rfl rfl rfl
  rw [World.modify_other _ _ apart.symm]

theorem takeStream {io : HeadIo} (h : Anchored c) {msg : Vector UInt8 requestHeaderSize × Sock}
    (apart : msg.2 ≠ c.workerStream.stream) :
    Anchored (c.takeStream env io msg) ∧
      (c.takeStream env io msg).workerStream.stream = c.workerStream.stream := by
  rcases c.takeStream_cases env io msg with he | he | ⟨cs, hport, -, -, -, he⟩
  · rw [he]
    exact ⟨h, rfl⟩
  · rw [he]
    exact ⟨h.frame (Nat.le_refl _) rfl rfl rfl rfl, rfl⟩
  · rw [he]
    have stream : cs.stream = msg.2 := congrArg Port.stream hport
    have held := @insert _ c.tokenIo (h.modify apart (·.attach c.tokenIo ro)) cs (stream ▸ apart)
    exact ⟨held.frame (Nat.le_refl _) rfl rfl rfl rfl, rfl⟩

theorem takeStreams (h : Anchored c) (io : HeadIo) : Anchored (c.takeStreams env io) := by
  have fold : ∀ (msgs : List (Vector UInt8 requestHeaderSize × Sock)) {c : Loop}, Anchored c →
      (∀ msg ∈ msgs, msg.2 ≠ c.workerStream.stream) →
        Anchored (msgs.foldl (Loop.takeStream env io) c) := by
    intro msgs
    induction msgs with
    | nil => exact fun h _ => h
    | cons msg msgs ih =>
      intro c h apart
      obtain ⟨first, unix⟩ := h.takeStream (apart msg (by simp))
      refine ih first fun m hm => ?_
      rw [unix]
      exact apart m (by simp [hm])
  have emptied : Anchored { c with workerStream := { c.workerStream with newMsgs := [] } } :=
    ⟨h.opened, h.registered, fun k hk => h.sockets k (List.mem_append_right _ hk), h.streams⟩
  exact fold _ emptied fun msg hm => h.sockets _ (List.mem_append_left _ (List.mem_map_of_mem hm))

theorem updateInterest (h : Anchored c) : ∃ d, c.updateInterest false = .ok d ∧ Anchored d := by
  have retuned : ∀ i, Anchored { c with
      os := c.os.modify c.workerStream.stream (·.attach workerStreamTk i), wsInterest := i } := by
    intro i
    refine { h with registered := ?_ }
    dsimp only
    rw [World.attach_reg, if_pos rfl]
    rfl
  simp only [Loop.updateInterest, World.reregister_ok h.registered, fatalIoErr]
  split
  · exact ⟨_, rfl, retuned rw⟩
  · split
    · exact ⟨_, rfl, retuned ro⟩
    · exact ⟨c, rfl, h⟩

theorem setStreamInterest (h : Anchored c) {cs : ClientStream} (apart : cs.stream ≠ c.workerStream.stream)
    (refused : Bool) (i : Interest) : Anchored (c.setStreamInterest tk cs refused i) := by
  have held := @insert c tk h (cs.setInterest i) apart
  simp only [Loop.setStreamInterest]
  cases hr : c.os.reregister refused cs.stream tk i with
  | none => exact held.frame (Nat.le_refl _) rfl rfl rfl rfl
  | some os =>
    obtain ⟨-, rfl⟩ := World.reregister_some hr
    exact held.modify apart (·.attach tk i)

theorem forward (h : Anchored c) (io : HeadIo) (tk : Token) : Anchored (c.forward env io tk) := by
  cases hl : c.clientStreams.lookup tk with
  | none =>
    rw [c.forward_none env io hl]
    exact h
  | some cs =>
    have apart := h.streams tk cs hl
    obtain ⟨o, ho⟩ := sendMsgs env tk cs.sessionId io.queueTs cs.reqMsgs c
    simp only [Loop.forward, hl, ho]
    generalize c.threadSender ++ cs.reqMsgs.map (fun msg => (⟨tk, cs.sessionId, msg⟩ : Sent)) = sent
    have held : Anchored { c with
        workerStream := { c.workerStream with outbuffer := o }, threadSender := sent } :=
      h.frame (Nat.le_refl _) rfl rfl rfl rfl
    have own : ({ cs with reqMsgs := [] } : ClientStream).stream ≠ c.workerStream.stream := apart
    split
    · exact held.setStreamInterest own _ rw
    · split
      · exact held.setStreamInterest own _ ro
      · exact held.insert own

theorem head {io : HeadIo} (h : Anchored c) (smooth : io.Smooth) :
    ∃ c', c.head env io = .running c' ∧ Anchored c' := by
  obtain ⟨d, hu, held⟩ := (@takeStreams env c h io).updateInterest
  simp only [Loop.head, smooth.1, smooth.2, hu, fatalIoErr]
  exact ⟨_, rfl, List.foldlRecOn io.order _ held fun _ hd tk _ => hd.forward io tk⟩

variable {ev : Event} {io : EventIo} {cs : ClientStream}

theorem workerRead (h : Anchored c) (fresh : ∀ k ∈ io.fds, k ≠ c.workerStream.stream)
    (smooth : ev.readable = true → ∃ bytes, bytes ≠ [] ∧
      (c.os.read c.workerStream.stream bufferSize io.read).1 = .ok bytes) :
    ∃ d, c.workerRead ev io = (.ok (), d) ∧ Anchored d := by
  cases hr : ev.readable with
  | false => exact ⟨c, by simp [Loop.workerRead, hr], h⟩
  | true =>
    obtain ⟨bytes, hne, hb⟩ := smooth hr
    have quiet := c.os.read_quiet c.workerStream.stream bufferSize io.read
    have unix := c.workerStream.read_stream io.fds (.ok bytes)
    have sockets := c.workerStream.read_sockets io.fds (.ok bytes)
    have ok : (c.workerStream.read io.fds (.ok bytes)).1 = .ok () := by
      cases bytes with
      | nil => exact absurd rfl hne
      | cons b bs => rfl
    generalize hread : c.workerStream.read io.fds (.ok bytes) = r at unix sockets ok
    obtain ⟨res, ws⟩ := r
    dsimp only at unix sockets ok
    refine ⟨{ c with
      os := (c.os.read c.workerStream.stream bufferSize io.read).2, workerStream := ws }, ?_, ?_⟩
    · simp only [Loop.workerRead, hr, if_true, hb, hread, ok, fatalIoErr]
    · refine ⟨?_, ?_, fun k hk => ?_, fun tk cs hl => ?_⟩
      · dsimp only
        rw [unix, quiet.1]
        exact h.opened
      · dsimp only
        rw [unix, (quiet.2 _).reg]
        exact h.registered
      · dsimp only at hk ⊢
        rw [unix]
        rcases sockets with hs | hs
        · exact h.sockets k (hs ▸ hk)
        · rw [hs] at hk
          exact (List.mem_append.mp hk).elim (h.sockets k) (fresh k)
      · dsimp only
        rw [unix]
        exact h.streams tk cs hl

theorem workerWrite (h : Anchored c) (smooth : ev.writable = true →
      ∃ n, (c.os.write c.workerStream.stream c.workerStream.outbuffer.length io.write).1 = .ok n) :
    ∃ d, c.workerWrite ev io = (.ok (), d) ∧ Anchored d := by
  cases hw : ev.writable with
  | false => exact ⟨c, by simp [Loop.workerWrite, hw], h⟩
  | true =>
    obtain ⟨n, hn⟩ := smooth hw
    have quiet := c.os.write_quiet c.workerStream.stream c.workerStream.outbuffer.length io.write
    have written : Anchored { c with
        os := (c.os.write c.workerStream.stream c.workerStream.outbuffer.length io.write).2
        workerStream := { c.workerStream with outbuffer := compact n c.workerStream.outbuffer } } :=
      h.frame (Nat.le_of_eq quiet.1.symm) (quiet.2 _).reg rfl rfl rfl
    refine ⟨_, ?_, written⟩
    simp only [Loop.workerWrite, hw, if_true, hn, WorkerStream.write, fatalIoErr]

theorem dropIfErr (h : Anchored c) (apart : cs.stream ≠ c.workerStream.stream) (tk : Token)
    (res : Except Error Unit) : Anchored (c.dropIfErr tk cs res) := by
  cases res with
  | ok u => exact h
  | error e => exact (h.modify apart Source.detach).frame (Nat.le_refl _) rfl rfl rfl rfl

theorem clientRead (h : Anchored c) (apart : cs.stream ≠ c.workerStream.stream) (io : EventIo) :
    Anchored (c.clientRead env ev cs io).1 ∧
      (c.clientRead env ev cs io).1.workerStream.stream = c.workerStream.stream ∧
      (c.clientRead env ev cs io).2.stream = cs.stream := by
  simp only [Loop.clientRead]
  split
  · obtain ⟨stream, -⟩ := cs.read_fields env.bc (c.os.read cs.stream bufferSize io.read).1
    generalize cs.read env.bc (c.os.read cs.stream bufferSize io.read).1 = r at stream
    obtain ⟨res, cs'⟩ := r
    dsimp only at stream ⊢
    have own : cs'.stream ≠ c.workerStream.stream := stream ▸ apart
    have read := h.modify apart fun s => (s.take bufferSize io.read).2
    refine ⟨(@insert _ ev.token read cs' own).dropIfErr own ev.token res, ?_, stream⟩
    cases res <;> rfl
  · exact ⟨h, rfl, rfl⟩

theorem clientWrite (h : Anchored c) (apart : cs.stream ≠ c.workerStream.stream) (io : EventIo) :
    Anchored (c.clientWrite ev cs io) := by
  simp only [Loop.clientWrite]
  split
  · have written := h.modify apart fun s => (s.put cs.outbuffer.length io.write).2
    split
    · rename_i cs' hcs
      have stream : cs'.stream = cs.stream := by
        cases hres : (c.os.write cs.stream cs.outbuffer.length io.write).1 with
        | error e => simp [hres, ClientStream.write] at hcs
        | ok n =>
          simp only [hres, ClientStream.write] at hcs
          cases hcs
          rfl
      exact written.insert (stream ▸ apart)
    · exact (written.modify apart Source.detach).frame (Nat.le_refl _) rfl rfl rfl rfl
  · exact h

theorem event (h : Anchored c) (fresh : ∀ k ∈ io.fds, k ≠ c.workerStream.stream)
    (smooth : c.Smooth ev io) : ∃ c', c.event env ev io = .running c' ∧ Anchored c' := by
  simp only [Loop.event]
  split
  · rename_i htk
    obtain ⟨reads, writes⟩ := smooth htk
    obtain ⟨d, hd, held⟩ := h.workerRead fresh reads
    rw [hd] at writes
    obtain ⟨d', hd', held'⟩ := held.workerWrite writes
    rw [hd]
    dsimp only
    rw [hd']
    exact ⟨d', rfl, held'⟩
  · cases hl : c.clientStreams.lookup ev.token with
    | none => exact ⟨c, rfl, h⟩
    | some cs =>
      have apart := h.streams _ cs hl
      obtain ⟨read, unix, stream⟩ := @clientRead env c ev cs h apart io
      refine ⟨_, rfl, read.clientWrite ?_ io⟩
      rwa [unix, stream]

end Anchored
-- no slice, index or subtraction of what an event runs is out of bounds

def UnixBounds (c : Loop) (ev : Event) (io : EventIo) : Prop :=
  (ev.readable = true →
    let res := (c.os.read c.workerStream.stream bufferSize io.read).1
    c.workerStream.checkedRead io.fds res = some (c.workerStream.read io.fds res)) ∧
  (ev.writable = true →
    let d := (c.workerRead ev io).2
    let res := (d.os.write d.workerStream.stream d.workerStream.outbuffer.length io.write).1
    d.workerStream.checkedWrite res = some (d.workerStream.write res))

def ClientBounds (env : Env) (c : Loop) (ev : Event) (cs : ClientStream) (io : EventIo) : Prop :=
  (ev.readable = true →
    let res := (c.os.read cs.stream bufferSize io.read).1
    cs.checkedRead env.bc res = some (cs.read env.bc res)) ∧
  (ev.writable = true →
    let d := c.clientRead env ev cs io
    let res := (d.1.os.write d.2.stream d.2.outbuffer.length io.write).1
    d.2.checkedWrite res = some (d.2.write res))

def InBounds (env : Env) (c : Loop) (ev : Event) (io : EventIo) : Prop :=
  if ev.token = workerStreamTk then c.UnixBounds ev io
  else match c.clientStreams.lookup ev.token with
    | none => True
    | some cs => c.ClientBounds env ev cs io

theorem in_bounds {ev : Event} {io : EventIo} : c.InBounds env ev io := by
  simp only [InBounds]
  split
  · exact ⟨fun _ => WorkerStream.checkedRead_eq _ _ _,
      fun _ => WorkerStream.checkedWrite_eq fun _ h => World.written_le h⟩
  · split
    · trivial
    · exact ⟨fun _ => ClientStream.checkedRead_eq env.bc _ _,
        fun _ => ClientStream.checkedWrite_eq fun _ h => World.written_le h⟩

end Loop

namespace Daemon

variable {env : Env}

def Smooth (s : Daemon) (l : Label) : Prop :=
  match s.flow, l, s.phase with
  | .running _, .head io, _ => io.Smooth
  | .running c, .event read fds write, .turn (ev :: _) =>
    (c.bindFds fds).Smooth ev ⟨read, List.range' c.os.next fds, write⟩
  | _, _, _ => True

def InBounds (env : Env) (s : Daemon) (l : Label) : Prop :=
  match s.flow, l, s.phase with
  | .running c, .event read fds write, .turn (ev :: _) =>
    (c.bindFds fds).InBounds env ev ⟨read, List.range' c.os.next fds, write⟩
  | _, _, _ => True

def Anchored (s : Daemon) : Prop := ∃ c, s.flow = .running c ∧ c.Anchored

theorem start_anchored : start.Anchored :=
  ⟨Nat.zero_lt_one, rfl, fun k hk => (by cases hk), fun tk cs hl => (by cases hl)⟩

theorem Anchored.step {s s' : Daemon} {l : Label} (h : Anchored s) (smooth : Smooth s l)
    (hs : step env s l = some s') : Anchored s' := by
  obtain ⟨c, hc, held⟩ := h
  obtain ⟨c', hc', hcase⟩ := step_cases hs
  cases hc.symm.trans hc'
  simp only [Smooth, hc] at smooth
  cases hcase.move with
  | head io phase order => exact held.head smooth
  | event read fds write ev batch phase =>
    rw [phase] at smooth
    have bound : (c.bindFds fds).Anchored := held.frame (Nat.le_add_right _ _) rfl rfl rfl rfl
    refine bound.event (fun k hk => Nat.ne_of_gt ?_) smooth
    exact Nat.lt_of_lt_of_le held.opened (List.mem_range'_1.mp hk).1
  | pythread msgType msg => exact ⟨_, rfl, held.frame (Nat.le_refl _) rfl rfl rfl rfl⟩
  | outside l os phase outer same =>
    exact ⟨_, rfl, held.frame (Nat.le_of_eq same.1.symm) (same.2 _) rfl rfl rfl⟩

theorem anchored_run {ls : List Label} {s : Daemon} (run : (machine env).exec ls = some s)
    (smooth : (machine env).Along Smooth ls) : Anchored s :=
  Machine.invariant_along ⟨start, rfl, start_anchored⟩ (fun _ _ _ h => h.step) run smooth

theorem in_bounds (s : Daemon) (l : Label) : InBounds env s l := by
  simp only [InBounds]
  split
  · exact Loop.in_bounds
  · trivial

end Daemon
end PyProxy.Worker
