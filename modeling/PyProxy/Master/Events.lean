import PyProxy.Master.RunForever
import PyProxy.Poll.Quiet

namespace PyProxy.Master
open Stream Protocol Server Poll Lines

namespace Loop

-- what a handler of the loop can do, one constructor for each of its outcomes

inductive MainCase (c : Loop) (k : Sock) (io : EventIo) : Loop → Prop where
  | idle (none : (c.os.source k).backlog = 0 ∨ io.accept.refused = true) : MainCase c k io c
  | dropped (os) (ready : (c.os.source k).backlog ≠ 0) (accept : io.accept.refused = false)
      (ok : c.os.Accepted k io.accept os) (refused : io.registerRefused = true)
      (reg : (os.source k).reg.isSome = true) : MainCase c k io { c with
        os := os.modify k (·.attach mainListenerTk ro), ioToken := c.ioToken + 1 }
  | adopted (os) (ready : (c.os.source k).backlog ≠ 0) (accept : io.accept.refused = false)
      (ok : c.os.Accepted k io.accept os) (registered : io.registerRefused = false)
      (reg : ((os.modify c.os.next (·.attach c.ioToken ro)).source k).reg.isSome = true) :
      MainCase c k io { c with
        os := (os.modify c.os.next (·.attach c.ioToken ro)).modify k (·.attach mainListenerTk ro)
        toInsert := c.toInsert ++ [(c.ioToken, .clientStream (.new c.os.next))]
        ioToken := c.ioToken + 1 }

inductive OutputCase (c : Loop) (k : Sock) (io : EventIo) : Loop → Prop where
  | idle (none : (c.os.source k).backlog = 0 ∨ io.accept.refused = true) : OutputCase c k io c
  | dropped (os) (ready : (c.os.source k).backlog ≠ 0) (accept : io.accept.refused = false)
      (ok : c.os.Accepted k io.accept os) (refused : io.registerRefused = true) :
      OutputCase c k io { c with os := os, ioToken := c.ioToken + 1 }
  | adopted (os) (ready : (c.os.source k).backlog ≠ 0) (accept : io.accept.refused = false)
      (ok : c.os.Accepted k io.accept os) (registered : io.registerRefused = false) :
      OutputCase c k io { c with
        os := os.modify c.os.next (·.attach c.ioToken ro)
        outputs := c.outputs.set c.os.next (.new c.ioToken ro)
        ioActions := c.ioActions.insert c.ioToken (.outputStream c.os.next)
        ioToken := c.ioToken + 1 }

inductive UnixCase (c : Loop) (k : Sock) (io : EventIo) : Loop → Prop where
  | idle (none : (c.os.source k).backlog = 0 ∨ io.accept.refused = true) : UnixCase c k io c
  | adopted (os) (ready : (c.os.source k).backlog ≠ 0) (accept : io.accept.refused = false)
      (ok : c.os.Accepted k io.accept os) (registered : io.registerRefused = false) :
      UnixCase c k io { c with
        os := os.modify c.os.next (·.attach c.ioToken ro)
        workers := c.workers.set c.os.next (.new ro)
        ioActions := c.ioActions.insert c.ioToken (.workerStream c.os.next)
        workerStreams := c.workerStreams.add c.ioToken c.os.next
        ioToken := c.ioToken + 1 }

inductive ClientCase (c : Loop) (tk : Token) (s : ClientStream) :
    ClientStream.ReadResult × ClientStream → Loop → Prop where
  | closed : ClientCase c tk s (.closed, s)
      ({ c with ioActions := c.ioActions.insert tk (.clientStream s) }.drop tk s.stream)
  | error (e) : ClientCase c tk s (.error e, s)
      ({ c with ioActions := c.ioActions.insert tk (.clientStream s) }.drop tk s.stream)
  | «continue» (n bytes) (read : (c.os.source s.stream).input.take n = bytes) (some : bytes ≠ [])
      (fits : n ≤ s.room) (short : (s.fill bytes).bytesRead ≠ requestHeaderSize) :
      ClientCase c tk s (.continue, s.fill bytes) { c with
        os := c.os.modify s.stream (·.drained n)
        ioActions := c.ioActions.insert tk (.clientStream (s.fill bytes)) }
  | done (n bytes) (read : (c.os.source s.stream).input.take n = bytes) (some : bytes ≠ [])
      (fits : n ≤ s.room) (full : (s.fill bytes).bytesRead = requestHeaderSize) :
      ClientCase c tk s (.done, s.fill bytes) { c with
        os := (c.os.modify s.stream (·.drained n)).deregister s.stream
        ioActions := c.ioActions.insert tk (.clientStream (s.fill bytes))
        newRequests := c.newRequests ++ [((s.fill bytes).header, s.stream)] }

inductive OutputReadCase (env : Env) (c : Loop) (tk : Token) (k : Sock) (io : EventIo) : Loop → Prop where
  | failed (res os e s) (got : c.os.read k bufferSize io.read = (res, os))
      (read : (c.outputs k).read env.bc res = (.error e, s)) :
      OutputReadCase env c tk k io ({ c with os := os, outputs := c.outputs.set k s }.drop tk k)
  | more (res os s) (got : c.os.read k bufferSize io.read = (res, os))
      (read : (c.outputs k).read env.bc res = (.ok (), s)) (wait : s.sessionId = none) :
      OutputReadCase env c tk k io { c with os := os, outputs := c.outputs.set k s }
  | refused (res os s sessionId) (got : c.os.read k bufferSize io.read = (res, os))
      (read : (c.outputs k).read env.bc res = (.ok (), s)) (hello : s.sessionId = some sessionId)
      (no : os.reregister io.reregisterRefused k tk rw = none) :
      OutputReadCase env c tk k io { c with
        os := os, outputs := c.outputs.set k { s with sessionId := none } }
  | bound (res os s sessionId) (got : c.os.read k bufferSize io.read = (res, os))
      (read : (c.outputs k).read env.bc res = (.ok (), s)) (hello : s.sessionId = some sessionId)
      (reg : (os.source k).reg.isSome = true) :
      OutputReadCase env c tk k io { c with
        os := os.modify k (·.attach tk rw)
        outputs := c.outputs.set k { s with sessionId := none }
        outputStreams := c.outputStreams.insert sessionId k }

inductive OutputWriteCase (c : Loop) (tk : Token) (k : Sock) (io : EventIo) : Loop → Prop where
  | failed (e os) (got : c.os.write k (c.outputs k).outbuffer.length io.write = (.error e, os)) :
      OutputWriteCase c tk k io ({ c with os := os }.drop tk k)
  | written (n os) (got : c.os.write k (c.outputs k).outbuffer.length io.write = (.ok n, os)) :
      OutputWriteCase c tk k io { c with
        os := os
        outputs := c.outputs.set k
          { c.outputs k with outbuffer := (c.outputs k).outbuffer.drop n } }

inductive WorkerReadCase (env : Env) (c : Loop) (tk : Token) (k : Sock) : Loop → Prop where
  | failed : WorkerReadCase env c tk k (c.drop tk k)
  | read (n bytes) (read : (c.os.source k).input.take n = bytes) (some : bytes ≠ [])
      (fits : n ≤ bufferSize)
      (decoded : ((WorkerStream.framer env.mc).drain ((c.workers k).inbuffer ++ bytes)).err = none) :
      WorkerReadCase env c tk k { c with
        os := c.os.modify k (·.drained n)
        workers := c.workers.set k { c.workers k with
          inbuffer := ((WorkerStream.framer env.mc).drain ((c.workers k).inbuffer ++ bytes)).rest } }

inductive WorkerWriteCase (env : Env) (c : Loop) (k : Sock) (io : EventIo) : Loop → Prop where
  | failed (e os) (got : c.os.write k (c.workers k).outbuffer.length io.write = (.error e, os)) :
      WorkerWriteCase env c k io { c with
        os := os
        workers := c.workers.set k { c.workers k with
          outFds := env.fdQueue.unsent (c.workers k).outFds (.error e) } }
  | written (n os) (got : c.os.write k (c.workers k).outbuffer.length io.write = (.ok n, os)) :
      WorkerWriteCase env c k io { c with
        os := os
        workers := c.workers.set k { c.workers k with
          outFds := env.fdQueue.unsent (c.workers k).outFds (.ok n)
          outbuffer := (c.workers k).outbuffer.drop n } }

inductive PipeCase (send : OutputStream → List UInt8 → OutputStream) (wrap : PipeFrame → IoAction)
    (c : Loop) (tk : Token) (f : PipeFrame) (io : EventIo) : Loop → Prop where
  | failed (res os e out f') (got : c.os.read f.recv bufferSize io.read = (res, os))
      (read : f.read io.echo res = (.error e, out, f')) :
      PipeCase send wrap c tk f io
        ({ c with os := os, ioActions := c.ioActions.insert tk (wrap f') }.drop tk f.recv)
  | outside (res os out f') (got : c.os.read f.recv bufferSize io.read = (res, os))
      (read : f.read io.echo res = (.ok none, out, f')) :
      PipeCase send wrap c tk f io { c with os := os, ioActions := c.ioActions.insert tk (wrap f') }
  | unbound (res os sessionId lines out f') (got : c.os.read f.recv bufferSize io.read = (res, os))
      (read : f.read io.echo res = (.ok (some (sessionId, lines)), out, f'))
      (none : c.outputStreams.lookup sessionId = none) :
      PipeCase send wrap c tk f io
        { c with os := os, ioActions := c.ioActions.insert tk (wrap f'.clear) }
  | sent (res os sessionId lines out f' k) (got : c.os.read f.recv bufferSize io.read = (res, os))
      (read : f.read io.echo res = (.ok (some (sessionId, lines)), out, f'))
      (some : c.outputStreams.lookup sessionId = some k) :
      PipeCase send wrap c tk f io { c with
        os := os
        outputs := c.outputs.set k ((lines.map (slice f'.buffer)).foldl send (c.outputs k))
        ioActions := c.ioActions.insert tk (wrap f'.clear) }

variable {env : Env} {c c' : Loop} {k : Sock} {io : EventIo} {tk : Token} {ev : Event}

theorem acceptMain_cases (h : c.acceptMain k io = .running c') : MainCase c k io c' := by
  simp only [acceptMain] at h
  rcases c.os.accept_cases k io.accept with ⟨e, he, hno⟩ | ⟨ready, accept, os, he, ok⟩
  · rw [he] at h
    cases h
    exact .idle hno
  · rw [he] at h
    simp only [World.register_free ok.fresh] at h
    cases hreg : io.registerRefused with
    | true =>
      simp only [hreg, if_true] at h
      cases hr : os.reregister io.reregisterRefused k mainListenerTk ro with
      | none => simp [hr, fatalIoErr, registered] at h
      | some os' =>
        obtain ⟨hsome, rfl⟩ := World.reregister_some hr
        simp only [hr, fatalIoErr, registered] at h
        cases h
        exact .dropped os ready accept ok hreg hsome
    | false =>
      simp only [hreg, Bool.false_eq_true, if_false] at h
      cases hr : (os.modify c.os.next (·.attach c.ioToken ro)).reregister io.reregisterRefused k
          mainListenerTk ro with
      | none => simp [hr, fatalIoErr, registered] at h
      | some os' =>
        obtain ⟨hsome, rfl⟩ := World.reregister_some hr
        simp only [hr, fatalIoErr, registered] at h
        cases h
        exact .adopted os ready accept ok hreg hsome

theorem acceptOutput_cases (c : Loop) (k : Sock) (io : EventIo) :
    OutputCase c k io (c.acceptOutput k io) := by
  simp only [acceptOutput]
  rcases c.os.accept_cases k io.accept with ⟨e, he, hno⟩ | ⟨ready, accept, os, he, ok⟩
  · rw [he]
    exact .idle hno
  · rw [he]
    simp only [World.register_free ok.fresh]
    cases hreg : io.registerRefused with
    | true => exact .dropped os ready accept ok hreg
    | false => exact .adopted os ready accept ok hreg

theorem acceptUnix_cases (h : c.acceptUnix k io = .running c') : UnixCase c k io c' := by
  simp only [acceptUnix] at h
  rcases c.os.accept_cases k io.accept with ⟨e, he, hno⟩ | ⟨ready, accept, os, he, ok⟩
  · rw [he] at h
    cases h
    exact .idle hno
  · rw [he] at h
    simp only [World.register_free ok.fresh] at h
    cases hreg : io.registerRefused with
    | true => simp [hreg, fatalIoErr, registered] at h
    | false =>
      simp only [hreg, Bool.false_eq_true, if_false, fatalIoErr, registered] at h
      cases hadopt : io.adopted with
      | error e => simp [hadopt] at h
      | ok u =>
        simp only [hadopt] at h
        cases h
        exact .adopted os ready accept ok hreg

theorem clientEvent_cases (c : Loop) (tk : Token) {s : ClientStream} (room : 0 < s.room)
    (io : EventIo) : ClientCase c tk s (s.read (c.os.read s.stream s.room io.read).1)
      (c.clientEvent tk s io) := by
  simp only [clientEvent]
  rcases c.os.read_results s.stream room io.read with ⟨e, he⟩ | he | ⟨n, he, hne, hn⟩
  · rw [he]
    exact .error e
  · rw [he]
    exact .closed
  · rw [he]
    generalize hb : (c.os.source s.stream).input.take n = bytes at hne ⊢
    cases bytes with
    | nil => exact absurd rfl hne
    | cons b bs =>
      simp only [ClientStream.read]
      split
      · exact .done n (b :: bs) hb hne hn ‹_›
      · exact .continue n (b :: bs) hb hne hn ‹_›

section

variable {res : IoResult (List UInt8)} {os : World Token UInt8} {s : OutputStream}
  (readable : ev.readable = true) (got : c.os.read k bufferSize io.read = (res, os))
include readable got

theorem outputRead_failed {e : Error} (unbound : (c.outputs k).sessionId = none)
    (read : (c.outputs k).read env.bc res = (.error e, s)) :
    c.outputRead env ev k io = { c with os := os, outputs := c.outputs.set k s }.drop ev.token k := by
  have wait : s.sessionId = none := (OutputStream.read_error env.bc read).trans unbound
  simp only [outputRead, readable, if_true, got, read, dropIfErr, openOutput, drop, Outputs.set_same,
    OutputStream.takeSessionId, wait, Outputs.set_set]
  rw [OutputStream.unbound_eq wait]

theorem outputRead_more (read : (c.outputs k).read env.bc res = (.ok (), s))
    (wait : s.sessionId = none) :
    c.outputRead env ev k io = { c with os := os, outputs := c.outputs.set k s } := by
  simp only [outputRead, readable, if_true, got, read, dropIfErr, openOutput, Outputs.set_same,
    OutputStream.takeSessionId, wait, Outputs.set_set]
  rw [OutputStream.unbound_eq wait]

theorem outputRead_hello {sessionId : String} (read : (c.outputs k).read env.bc res = (.ok (), s))
    (hello : s.sessionId = some sessionId) : c.outputRead env ev k io =
      match os.reregister io.reregisterRefused k ev.token rw with
      | none => { c with os := os, outputs := c.outputs.set k { s with sessionId := none } }
      | some os' => { c with
          os := os'
          outputs := c.outputs.set k { s with sessionId := none }
          outputStreams := c.outputStreams.insert sessionId k } := by
  cases granted : os.reregister io.reregisterRefused k ev.token rw <;>
    simp only [outputRead, readable, if_true, got, read, dropIfErr, openOutput, Outputs.set_same,
      OutputStream.takeSessionId, hello, Outputs.set_set, granted]

end

theorem outputRead_cases (unbound : (c.outputs k).sessionId = none) (readable : ev.readable = true) :
    OutputReadCase env c ev.token k io (c.outputRead env ev k io) := by
  generalize got : c.os.read k bufferSize io.read = r
  obtain ⟨res, os⟩ := r
  generalize read : (c.outputs k).read env.bc res = r
  obtain ⟨_ | ⟨⟩, s⟩ := r
  · rw [outputRead_failed readable got unbound read]
    exact .failed res os _ s got read
  · cases hello : s.sessionId with
    | none =>
      rw [outputRead_more readable got read hello]
      exact .more res os s got read hello
    | some sessionId =>
      rw [outputRead_hello readable got read hello]
      cases hr : os.reregister io.reregisterRefused k ev.token rw with
      | none => exact .refused res os s sessionId got read hello hr
      | some os' =>
        obtain ⟨reg, rfl⟩ := World.reregister_some hr
        exact .bound res os s sessionId got read hello reg

theorem outputWrite_cases (writable : ev.writable = true) :
    OutputWriteCase c ev.token k io (c.outputWrite ev k io) := by
  simp only [outputWrite, writable, if_true]
  generalize got : c.os.write k (c.outputs k).outbuffer.length io.write = r
  obtain ⟨_ | n, os⟩ := r
  · simp only [OutputStream.write, dropIfErr, Outputs.set_self]
    exact .failed _ os got
  · simp only [OutputStream.write, dropIfErr, compact_eq_drop]
    exact .written n os got

theorem workerWrite_cases (writable : ev.writable = true) :
    WorkerWriteCase env c k io (c.workerWrite env ev k io) := by
  simp only [workerWrite, writable, if_true]
  generalize got : c.os.write k (c.workers k).outbuffer.length io.write = r
  obtain ⟨_ | n, os⟩ := r
  · exact .failed _ os got
  · simp only [WorkerStream.write, compact_eq_drop]
    exact .written n os got

theorem workerEvent_cases (readable : ev.readable = true)
    (h : c.workerEvent env ev k io = .running c') :
    ∃ c₁, WorkerReadCase env c ev.token k c₁ ∧ c' = c₁.workerWrite env ev k io := by
  simp only [workerEvent, readable, if_true] at h
  rcases c.os.read_results k (Nat.zero_lt_succ 4095) io.read with ⟨e, he⟩ | he | ⟨n, he, hne, hn⟩
  · rw [show bufferSize = 4095 + 1 from rfl, he] at h
    simp only [WorkerStream.read, Workers.set_self] at h
    cases h
    exact ⟨_, .failed, rfl⟩
  · rw [show bufferSize = 4095 + 1 from rfl, he] at h
    simp only [WorkerStream.read, Workers.set_self] at h
    cases h
    exact ⟨_, .failed, rfl⟩
  · rw [show bufferSize = 4095 + 1 from rfl, he] at h
    generalize hb : (c.os.source k).input.take n = bytes at hne h
    cases hd : ((WorkerStream.framer env.mc).drain ((c.workers k).inbuffer ++ bytes)).err with
    | none =>
      rw [WorkerStream.read_ok env.mc hne hd] at h
      cases h
      exact ⟨_, .read n bytes hb hne hn hd, rfl⟩
    | some msg =>
      cases bytes with
      | nil => exact absurd rfl hne
      | cons b bs => simp [WorkerStream.read, hd] at h

theorem pipeEvent_cases (send : OutputStream → List UInt8 → OutputStream)
    (wrap : PipeFrame → IoAction) (c : Loop) (tk : Token) (f : PipeFrame) (io : EventIo) :
    PipeCase send wrap c tk f io (c.pipeEvent send wrap tk f io) := by
  have recv := fun res => f.read_recv io.echo res
  simp only [pipeEvent]
  generalize got : c.os.read f.recv bufferSize io.read = r
  obtain ⟨res, os⟩ := r
  have hrecv := recv res
  dsimp only
  generalize read : f.read io.echo res = r at hrecv
  obtain ⟨_ | _ | ⟨sessionId, lines⟩, out, f'⟩ := r
  · dsimp only at hrecv ⊢
    rw [hrecv]
    exact .failed res os _ out f' got read
  · exact .outside res os out f' got read
  · simp only [sendLines]
    cases hk : c.outputStreams.lookup sessionId with
    | none => exact .unbound res os sessionId lines out f' got read hk
    | some k => exact .sent res os sessionId lines out f' k got read hk

theorem listen_ok {c c' : Loop} {action : String} {refused : Bool} {tk : Token} {a : IoAction}
    (h : c.listen action refused tk a = .ok c') : (c.os.source a.sock).reg = none ∧ c' = { c with
      os := c.os.modify a.sock (·.attach tk ro), ioActions := c.ioActions.insert tk a } := by
  simp only [listen] at h
  cases hr : c.os.register refused a.sock tk ro with
  | none => simp [hr, fatalIoErr, registered] at h
  | some os =>
    obtain ⟨hreg, rfl⟩ := World.register_some hr
    simp only [hr, fatalIoErr, registered] at h
    exact ⟨hreg, (Except.ok.inj h).symm⟩

theorem attach_retuned (w : World Token UInt8) (k : Sock) (tk : Token) {i : Interest}
    (hi : i.readable = true) (j : Sock) :
    (w.source j).Retuned ((w.modify k (·.attach tk i)).source j) := by
  by_cases hj : j = k
  · subst hj
    rw [World.modify_same]
    exact .attach tk i hi
  · rw [World.modify_other _ _ hj]
    exact .same

-- what booting the loop can change
structure Boots (c c' : Loop) : Prop where
  rest : c' = { c with os := c'.os, ioActions := c'.ioActions, ioToken := c'.ioToken }
  source : ∀ k, (c.os.source k).Retuned (c'.os.source k)

theorem Boots.trans {c c' c'' : Loop} (h : Boots c c') (h' : Boots c' c'') : Boots c c'' where
  rest := by
    rw [h'.rest, h.rest]
  source k := (h.source k).trans (h'.source k)

theorem listen_boots {action : String} {refused : Bool} {a : IoAction}
    (h : c.listen action refused tk a = .ok c') : Boots c c' := by
  obtain ⟨-, rfl⟩ := listen_ok h
  exact ⟨rfl, attach_retuned c.os a.sock tk rfl⟩

theorem addPipe_boots {action : String} {refused : Bool} {a : IoAction}
    (h : c.addPipe action refused a = .ok c') : Boots c c' := by
  simp only [addPipe] at h
  cases hl : c.listen action refused c.ioToken a with
  | error e => simp [hl] at h
  | ok c₁ =>
    simp only [hl] at h
    cases h
    obtain ⟨-, rfl⟩ := listen_ok hl
    exact ⟨rfl, attach_retuned c.os a.sock c.ioToken rfl⟩

theorem addPipes_boots {refused : Sock → Bool} {workers : List (Sock × Sock)}
    (h : addPipes refused workers c = .ok c') : Boots c c' := by
  induction workers generalizing c with
  | nil =>
    cases h
    exact ⟨rfl, fun _ => .same⟩
  | cons w workers ih =>
    obtain ⟨stdout, stderr⟩ := w
    simp only [addPipes] at h
    split at h
    · cases h
    · rename_i c₁ h₁
      split at h
      · cases h
      · rename_i c₂ h₂
        exact ((addPipe_boots h₁).trans (addPipe_boots h₂)).trans (ih h)

theorem boot_boots {refused : Sock → Bool} {main output unix : Sock} {workers : List (Sock × Sock)}
    (h : c.boot refused main output unix workers = .ok c') : Boots c c' := by
  simp only [boot] at h
  split at h
  · cases h
  · rename_i c₁ h₁
    split at h
    · cases h
    · rename_i c₂ h₂
      split at h
      · cases h
      · rename_i c₃ h₃
        exact ((listen_boots h₁).trans ((listen_boots h₂).trans (listen_boots h₃))).trans
          (addPipes_boots h)

end Loop
end PyProxy.Master
