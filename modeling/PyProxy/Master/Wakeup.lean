import PyProxy.Master.Frame
import PyProxy.Master.TokenMap
import PyProxy.Poll.Wakeup

namespace PyProxy.Master
open Poll Source Protocol Lines

def Kind.listens : Kind → Bool
  | .mainListener => true
  | .outputListener => true
  | .unixListener => true
  | _ => false

theorem listens_kind (a : IoAction) : a.kind.listens = a.listens := by cases a <;> rfl

namespace Loop

variable {env : Env} {c c' : Loop} {ev : Event} {io : EventIo} {k : Sock} {tk : Token}
  {w : World Token UInt8}

theorem acceptMain_tended (hc : c.acceptMain k io = .running c') : World.Tended c.os c'.os := by
  cases acceptMain_cases hc with
  | idle => exact .refl c.os
  | dropped os _ _ ok => exact ok.tended.trans (os.tended_attach k mainListenerTk rfl)
  | adopted os _ _ ok =>
    exact (ok.tended.trans (os.tended_attach c.os.next c.ioToken rfl)).trans
      (World.tended_attach _ k mainListenerTk rfl)

theorem acceptOutput_tended : World.Tended c.os (c.acceptOutput k io).os := by
  have hcase := c.acceptOutput_cases k io
  generalize c.acceptOutput k io = d at hcase ⊢
  cases hcase with
  | idle => exact .refl c.os
  | dropped os _ _ ok => exact ok.tended
  | adopted os _ _ ok => exact ok.tended.trans (os.tended_attach c.os.next c.ioToken rfl)

theorem acceptUnix_tended (hc : c.acceptUnix k io = .running c') : World.Tended c.os c'.os := by
  cases acceptUnix_cases hc with
  | idle => exact .refl c.os
  | adopted os _ _ ok => exact ok.tended.trans (os.tended_attach c.os.next c.ioToken rfl)

theorem clientEvent_tended (s : ClientStream) : World.Tended c.os (c.clientEvent tk s io).os := by
  have read := c.os.tended_read s.stream s.room io.read
  simp only [clientEvent]
  split
  · exact read
  · exact read.trans (World.tended_deregister _ _)
  · exact read.trans (World.tended_deregister _ _)
  · exact read.trans (World.tended_deregister _ _)

theorem dropIfErr_tended {ε T : Type} (h : World.Tended w c.os) (res : Except ε T) :
    World.Tended w (c.dropIfErr tk k res).os := by
  cases res with
  | ok => exact h
  | error => exact h.trans (c.os.tended_deregister k)

theorem openOutput_tended (h : World.Tended w c.os) (refused : Bool) :
    World.Tended w (c.openOutput tk k refused).os := by
  simp only [openOutput]
  split
  · exact h
  · split
    · exact h
    · rename_i granted
      exact h.trans (World.tended_reregister rfl granted)

theorem outputRead_tended : World.Tended c.os (c.outputRead env ev k io).os := by
  have read := c.os.tended_read k bufferSize io.read
  simp only [outputRead]
  split
  · exact openOutput_tended (dropIfErr_tended read _) _
  · exact .refl c.os

theorem outputWrite_tended (h : World.Tended w c.os) : World.Tended w (c.outputWrite ev k io).os := by
  simp only [outputWrite]
  split
  · exact dropIfErr_tended (h.trans (c.os.tended_write k _ io.write)) _
  · exact h

theorem workerWrite_tended (h : World.Tended w c.os) : World.Tended w (c.workerWrite env ev k io).os := by
  simp only [workerWrite]
  split
  · exact h.trans (c.os.tended_write k _ io.write)
  · exact h

theorem workerEvent_tended (hc : c.workerEvent env ev k io = .running c') :
    World.Tended c.os c'.os := by
  have read := c.os.tended_read k bufferSize io.read
  simp only [workerEvent] at hc
  split at hc
  · split at hc
    · cases hc
    · cases hc
      exact workerWrite_tended (read.trans (World.tended_deregister _ k))
    · cases hc
      exact workerWrite_tended read
  · cases hc
    exact workerWrite_tended (.refl c.os)

theorem pipeEvent_tended (send : OutputStream → List UInt8 → OutputStream)
    (wrap : PipeFrame → IoAction) (f : PipeFrame) :
    World.Tended c.os (c.pipeEvent send wrap tk f io).os := by
  have read := c.os.tended_read f.recv bufferSize io.read
  have hcase := pipeEvent_cases send wrap c tk f io
  generalize c.pipeEvent send wrap tk f io = d at hcase ⊢
  cases hcase with
  | failed res os e out f' got =>
    rw [got] at read
    exact read.trans (World.tended_deregister _ _)
  | outside res os out f' got =>
    rw [got] at read
    exact read
  | unbound res os sessionId lines out f' got =>
    rw [got] at read
    exact read
  | sent res os sessionId lines out f' k got =>
    rw [got] at read
    exact read

theorem event_tended (hc : c.event env ev io = .running c') : World.Tended c.os c'.os := by
  simp only [event] at hc
  split at hc
  · cases hc
    exact .refl c.os
  · exact acceptMain_tended hc
  · cases hc
    exact acceptOutput_tended
  · cases hc
    exact clientEvent_tended _
  · cases hc
    exact outputWrite_tended outputRead_tended
  · exact acceptUnix_tended hc
  · exact workerEvent_tended hc
  · cases hc
    exact pipeEvent_tended _ _ _
  · cases hc
    exact pipeEvent_tended _ _ _

theorem head_tended {io : HeadIo} (hc : c.head env io = .running c') : World.Tended c.os c'.os := by
  have tunes := head_tunes hc
  exact ⟨Nat.le_of_eq tunes.next.symm, fun k => .inl (tunes.source k).served⟩

-- the hello of an output stream registers it again
def renews (env : Env) (c : Loop) (k : Sock) (io : EventIo) : Bool :=
  match (c.outputs k).read env.bc (c.os.read k bufferSize io.read).1 with
  | (.error _, _) => true
  | (.ok _, s) => s.sessionId.isSome && !io.reregisterRefused

def rejects (c : Loop) (f : PipeFrame) (io : EventIo) : Bool :=
  match (f.read io.echo (c.os.read f.recv bufferSize io.read).1).1 with
  | .error _ => true
  | .ok _ => false

-- the one accept or read that answers a readable event leaves nothing behind
def drains (env : Env) (c : Loop) (ev : Event) (io : EventIo) : Bool :=
  match c.ioActions ev.token with
  | none => true
  | some (.mainListener k) => !io.accept.refused || decide ((c.os.source k).backlog = 0)
  | some (.outputListener k) => (c.os.source k).acceptsAll io.accept
  | some (.unixListener k) => (c.os.source k).acceptsAll io.accept
  | some (.clientStream s) =>
    (c.os.source s.stream).readsAll s.room io.read || decide (s.room ≤ max io.read.amount 1)
  | some (.outputStream k) => (c.os.source k).readsAll bufferSize io.read || c.renews env k io
  | some (.workerStream k) => (c.os.source k).readsAll bufferSize io.read
  | some (.stderr f) => (c.os.source f.recv).readsAll bufferSize io.read || c.rejects f io
  | some (.stdout f) => (c.os.source f.recv).readsAll bufferSize io.read || c.rejects f io

theorem idle_unmissed {s : Source Token UInt8} (silent : s.input = []) (calm : s.backlog = 0) :
    s.Unmissed := by
  refine .inr fun pending => ?_
  rw [pending_iff] at pending
  simp [silent, calm] at pending

theorem acceptMain_drained (hc : c.acceptMain k io = .running c')
    (silent : (c.os.source k).input = [])
    (drains : (!io.accept.refused || decide ((c.os.source k).backlog = 0)) = true) :
    (c'.os.source k).Unmissed := by
  cases acceptMain_cases hc with
  | idle none =>
    refine idle_unmissed silent ?_
    rcases none with calm | refused
    · exact calm
    · simpa [refused] using drains
  | dropped os => exact os.attach_unmissed k mainListenerTk rfl
  | adopted os => exact World.attach_unmissed _ k mainListenerTk rfl

theorem idle_drained {s : Source Token UInt8} {io : AcceptIo UInt8} (silent : s.input = [])
    (all : s.acceptsAll io = true) (none : s.backlog = 0 ∨ io.refused = true) : s.Unmissed := by
  refine idle_unmissed silent ?_
  rcases none with calm | refused
  · exact calm
  · simpa [acceptsAll, refused] using all

theorem accepted_drained {os : World Token UInt8} (ok : c.os.Accepted k io.accept os)
    (old : k < c.os.next) (silent : (c.os.source k).input = [])
    (all : (c.os.source k).acceptsAll io.accept = true) (accept : io.accept.refused = false) :
    (os.source k).Unmissed := by
  rw [ok.listener (Nat.ne_of_lt old)]
  exact dequeue_all all silent accept

theorem acceptOutput_drained (old : k < c.os.next) (silent : (c.os.source k).input = [])
    (all : (c.os.source k).acceptsAll io.accept = true) :
    ((c.acceptOutput k io).os.source k).Unmissed := by
  have hcase := c.acceptOutput_cases k io
  generalize c.acceptOutput k io = d at hcase ⊢
  cases hcase with
  | idle none => exact idle_drained silent all none
  | dropped os _ accept ok => exact accepted_drained ok old silent all accept
  | adopted os _ accept ok =>
    exact (os.tended_attach _ _ rfl).unmissed (accepted_drained ok old silent all accept)

theorem acceptUnix_drained (hc : c.acceptUnix k io = .running c') (old : k < c.os.next)
    (silent : (c.os.source k).input = []) (all : (c.os.source k).acceptsAll io.accept = true) :
    (c'.os.source k).Unmissed := by
  cases acceptUnix_cases hc with
  | idle none => exact idle_drained silent all none
  | adopted os _ accept ok =>
    exact (os.tended_attach _ _ rfl).unmissed (accepted_drained ok old silent all accept)

-- a read that fills the header takes all there is, or completes it
theorem readsAll_short {s : ClientStream} {bytes : List UInt8} (whole : s.room ≤ max io.read.amount 1)
    (read : (c.os.read s.stream s.room io.read).1 = .ok bytes) (some : bytes ≠ [])
    (short : (s.fill bytes).bytesRead ≠ requestHeaderSize) :
    (c.os.source s.stream).readsAll s.room io.read = true := by
  simp only [readsAll, Bool.or_eq_true, decide_eq_true_eq]
  simp only [World.read, Source.take] at read
  split at read
  · cases read
  · split at read
    · split at read
      · cases read
        exact absurd rfl some
      · cases read
    · cases read
      right
      simp only [ne_eq, List.take_eq_nil_iff, not_or] at some
      simp only [ClientStream.fill, List.length_take] at short
      simp only [ClientStream.room] at *
      omega

theorem clientEvent_drained {s : ClientStream} (calm : (c.os.source s.stream).backlog = 0)
    (drains : ((c.os.source s.stream).readsAll s.room io.read ||
      decide (s.room ≤ max io.read.amount 1)) = true) :
    ((c.clientEvent tk s io).os.source s.stream).Unmissed := by
  have drained : ∀ bytes, (c.os.read s.stream s.room io.read).1 = .ok bytes → bytes ≠ [] →
      (s.fill bytes).bytesRead ≠ requestHeaderSize →
      ((c.os.read s.stream s.room io.read).2.source s.stream).Unmissed := by
    intro bytes hread some short
    have all : (c.os.source s.stream).readsAll s.room io.read = true := by
      rcases Bool.or_eq_true_iff.mp drains with all | whole
      · exact all
      · exact readsAll_short (of_decide_eq_true whole) hread some short
    rcases World.read_all all calm with ⟨e, he⟩ | unmissed
    · rw [he] at hread
      cases hread
    · exact unmissed
  have hstream := s.read_stream (c.os.read s.stream s.room io.read).1
  simp only [clientEvent]
  generalize c.os.read s.stream s.room io.read = r at drained hstream ⊢
  obtain ⟨e | _ | ⟨b, bs⟩, os⟩ := r
  · exact os.deregister_unmissed s.stream
  · exact os.deregister_unmissed s.stream
  · simp only [ClientStream.read] at hstream ⊢
    split
    · rename_i done
      split at done
      · cases done
      · rename_i short
        exact drained (b :: bs) rfl (List.cons_ne_nil b bs) short
    · exact World.deregister_unmissed os s.stream
    · exact World.deregister_unmissed os s.stream
    · exact World.deregister_unmissed os s.stream

theorem outputRead_drained (readable : ev.readable = true) (calm : (c.os.source k).backlog = 0)
    (drains : ((c.os.source k).readsAll bufferSize io.read || c.renews env k io) = true) :
    ((c.outputRead env ev k io).os.source k).Unmissed := by
  have all := @World.read_all _ _ c.os k bufferSize io.read
  simp only [Loop.renews] at drains
  simp only [outputRead, readable, if_true]
  generalize c.os.read k bufferSize io.read = r at all drains ⊢
  obtain ⟨res, os⟩ := r
  generalize read : (c.outputs k).read env.bc res = r at drains ⊢
  obtain ⟨_ | ⟨⟩, s⟩ := r
  · exact (openOutput_tended (.refl _) _).unmissed (os.deregister_unmissed k)
  · rcases Bool.or_eq_true_iff.mp drains with drained | renewed
    · refine (openOutput_tended (.refl _) _).unmissed ?_
      rcases all drained calm with ⟨e, he⟩ | unmissed
      · dsimp only at he
        rw [he] at read
        cases read
      · exact unmissed
    · simp only [Bool.and_eq_true, Bool.not_eq_true'] at renewed
      obtain ⟨sessionId, hs⟩ := Option.isSome_iff_exists.mp renewed.1
      simp only [dropIfErr, openOutput, Outputs.set_same, OutputStream.takeSessionId, hs, renewed.2]
      cases granted : os.reregister false k ev.token rw with
      | none =>
        refine .inl ?_
        simpa [World.reregister] using granted
      | some os' =>
        obtain ⟨-, rfl⟩ := World.reregister_some granted
        exact os.attach_unmissed k ev.token rfl

theorem workerEvent_drained (readable : ev.readable = true) (calm : (c.os.source k).backlog = 0)
    (all : (c.os.source k).readsAll bufferSize io.read = true)
    (hc : c.workerEvent env ev k io = .running c') : (c'.os.source k).Unmissed := by
  have unmissed := World.read_all all calm
  simp only [workerEvent, readable, if_true] at hc
  generalize c.os.read k bufferSize io.read = r at unmissed hc
  obtain ⟨res, os⟩ := r
  dsimp only at unmissed hc
  generalize read : (c.workers k).read env.mc res = r at hc
  obtain ⟨notices | e | msg, s⟩ := r
  · cases hc
    refine (workerWrite_tended (.refl _)).unmissed ?_
    rcases unmissed with ⟨e, rfl⟩ | unmissed
    · cases read
    · exact unmissed
  · cases hc
    exact (workerWrite_tended (.refl _)).unmissed (os.deregister_unmissed k)
  · cases hc

theorem pipeEvent_drained {send : OutputStream → List UInt8 → OutputStream}
    {wrap : PipeFrame → IoAction} {f : PipeFrame} (calm : (c.os.source f.recv).backlog = 0)
    (drains : ((c.os.source f.recv).readsAll bufferSize io.read || c.rejects f io) = true) :
    ((c.pipeEvent send wrap tk f io).os.source f.recv).Unmissed := by
  have all := @World.read_all _ _ c.os f.recv bufferSize io.read
  simp only [rejects] at drains
  have kept : ∀ {res os o out f'}, c.os.read f.recv bufferSize io.read = (res, os) →
      f.read io.echo res = (.ok o, out, f') → (os.source f.recv).Unmissed := by
    intro res os o out f' got read
    rw [got] at all drains
    dsimp only at all drains
    rw [read, Bool.or_false] at drains
    rcases all drains calm with ⟨e, rfl⟩ | unmissed
    · cases read
    · exact unmissed
  have hcase := pipeEvent_cases send wrap c tk f io
  generalize c.pipeEvent send wrap tk f io = d at hcase ⊢
  cases hcase with
  | failed res os => exact os.deregister_unmissed f.recv
  | outside _ _ _ _ got read => exact kept got read
  | unbound _ _ _ _ _ _ got read => exact kept got read
  | sent _ _ _ _ _ _ _ got read => exact kept got read

-- the source of the event is gone, armed again since, or left with nothing
def attends (env : Env) (c : Loop) (ev : Event) (io : EventIo) : Bool :=
  !ev.readable ||
    (c.ioActions ev.token).all (fun a =>
      (c.os.source a.sock).reg.isNone || (c.os.source a.sock).readArmed) ||
    c.drains env ev io

-- connections queue at listeners only, bytes at the others
structure Sorted (issues : List Issue) (c : Loop) : Prop where
  queues : ∀ k, (c.os.source k).backlog ≠ 0 → ∃ x ∈ issues, x.sock = k ∧ x.kind.listens = true
  silent : ∀ x ∈ issues, x.kind.listens = true → (c.os.source x.sock).input = []

variable {issues : List Issue} {pend : List Token} {a : IoAction}

theorem Sorted.calm (h : Sorted issues c) (w : Wired issues pend c)
    (hx : ⟨tk, a.sock, a.kind⟩ ∈ issues) (streams : a.listens = false) :
    (c.os.source a.sock).backlog = 0 := by
  by_contra waits
  obtain ⟨x, hx', sock, listens⟩ := h.queues a.sock waits
  have kind : x.kind = a.kind := congrArg Issue.kind (w.same_sock hx' hx sock)
  rw [kind, listens_kind, streams] at listens
  cases listens

theorem event_drained (w : Wired issues pend c) (sorted : Sorted issues c)
    (ha : c.ioActions ev.token = some a) (readable : ev.readable = true)
    (attends : c.attends env ev io = true) (hc : c.event env ev io = .running c') :
    (c'.os.source a.sock).Unmissed := by
  have hx := w.issue ha
  have old := (w.below _ hx).2
  have silent := fun listens => sorted.silent _ hx ((listens_kind a).trans listens)
  have calm := sorted.calm w hx
  have tended := event_tended hc
  simp only [Loop.attends, readable, ha, Option.all_some, Bool.not_true, Bool.false_or] at attends
  rcases Bool.or_eq_true_iff.mp attends with before | drains
  · refine tended.unmissed ?_
    rcases Bool.or_eq_true_iff.mp before with free | armed
    · exact .inl (Option.isNone_iff_eq_none.mp free)
    · exact .inr fun _ => armed
  · simp only [Loop.drains, ha] at drains
    simp only [event, ha] at hc
    cases a with
    | mainListener k => exact acceptMain_drained hc (silent rfl) drains
    | clientStream s =>
      cases hc
      exact clientEvent_drained (calm rfl) drains
    | outputListener k =>
      cases hc
      exact acceptOutput_drained old (silent rfl) drains
    | outputStream k =>
      cases hc
      exact (outputWrite_tended (.refl _)).unmissed (outputRead_drained readable (calm rfl) drains)
    | unixListener k => exact acceptUnix_drained hc old (silent rfl) drains
    | stderr f =>
      cases hc
      exact pipeEvent_drained (calm rfl) drains
    | stdout f =>
      cases hc
      exact pipeEvent_drained (calm rfl) drains
    | workerStream k => exact workerEvent_drained readable (calm rfl) drains hc

theorem alert_event {batch : List Event} (w : Wired issues (ev.token :: pend) c)
    (sorted : Sorted issues c) (alert : c.os.Alert (ev :: batch))
    (attends : c.attends env ev io = true) (hc : c.event env ev io = .running c') :
    c'.os.Alert batch := by
  obtain ⟨a, ha⟩ := Option.isSome_iff_exists.mp (w.held ev.token (by simp))
  refine alert.handled (event_tended hc) fun readable k i reg => ?_
  obtain ⟨a', ha', rfl, -⟩ := w.reg_issue reg
  cases (w.act_of ha).symm.trans ha'
  exact event_drained w sorted ha readable attends hc

theorem Sorted.tended {new : List Issue} (h : Sorted issues c) (w : Wired issues pend c)
    (tended : c.os.Tended c'.os) (streams : ∀ x ∈ new, x.kind.listens = false) :
    Sorted (issues ++ new) c' where
  queues k waits := by
    rcases tended.2 k with served | ⟨-, s, -, calm, served⟩
    · obtain ⟨x, hx, found⟩ := h.queues k fun calm => waits (served.keeps.2 calm)
      exact ⟨x, List.mem_append_left _ hx, found⟩
    · exact absurd (served.keeps.2 calm) waits
  silent x hx listens := by
    rcases List.mem_append.mp hx with hx | hx
    · rcases tended.2 x.sock with served | ⟨new, -⟩
      · exact served.keeps.1 (h.silent x hx listens)
      · exact absurd (w.below x hx).2 (Nat.not_lt.mpr new)
    · rw [streams x hx] at listens
      cases listens

theorem issued_streams {x : Issue} (hx : x ∈ c.issued ev io) : x.kind.listens = false := by
  simp only [issued] at hx
  split at hx
  · rw [enroll_kind hx]
    rfl
  · rw [enroll_kind hx]
    rfl
  · rw [enroll_kind hx]
    rfl
  · cases hx

theorem Sorted.touch {f : Source Token UInt8 → Source Token UInt8} (h : Sorted issues c)
    (w : Wired issues pend c) (found : c.act tk = some a)
    (queues : a.listens = false → ∀ s, (f s).backlog = s.backlog)
    (silent : a.listens = true → ∀ s, (f s).input = s.input) :
    Sorted issues { c with os := c.os.modify a.sock f } where
  queues k waits := by
    by_cases hk : k = a.sock
    · subst hk
      cases listens : a.listens with
      | true => exact ⟨_, w.actions tk a found, rfl, (listens_kind a).trans listens⟩
      | false =>
        dsimp only at waits
        rw [World.modify_same, queues listens] at waits
        exact h.queues _ waits
    · dsimp only at waits
      rw [World.modify_other _ _ hk] at waits
      exact h.queues k waits
  silent x hx listens := by
    dsimp only
    by_cases hk : x.sock = a.sock
    · have kind : x.kind = a.kind := congrArg Issue.kind (w.same_sock hx (w.actions tk a found) hk)
      rw [hk, World.modify_same, silent (by rw [← listens_kind, ← kind, listens]), ← hk]
      exact h.silent x hx listens
    · rw [World.modify_other _ _ hk]
      exact h.silent x hx listens

end Loop

namespace System

variable {env : Env}

def attends (env : Env) (s : System) (l : Label) : Bool :=
  match s.flow, l, s.phase with
  | .running c, .event io, .turn (ev :: _) => c.attends env ev io
  | _, _, _ => true

structure Watchful (issues : List Issue) (s : System) : Prop where
  sorted : ∀ c, s.flow = .running c → Loop.Sorted issues c
  alert : ∀ c, s.flow = .running c → c.os.Alert (Phase.batch s.phase)

theorem watchful_idle {next : Sock} {c : Loop} {issues : List Issue} (h : Loop.Boots (.new ⟨fun _ => .idle, next⟩) c) :
    Loop.Sorted issues c ∧ c.os.Alert [] := by
  have served := fun k => (h.source k).served
  refine ⟨⟨fun k waits => absurd ((served k).keeps.2 rfl) waits,
    fun x _ _ => (served x.sock).keeps.1 rfl⟩, ?_⟩
  rw [World.alert_nil]
  exact fun k => (served k).unmissed (.inl rfl)

theorem watchful_init (next : Sock) : Watchful [] (machine env next).init := by
  have idle := @watchful_idle next (.new ⟨fun _ => .idle, next⟩) [] ⟨rfl, fun _ => .same⟩
  constructor
  · intro c hc
    cases hc
    exact idle.1
  · intro c hc
    cases hc
    exact idle.2

theorem Watchful.touch {issues : List Issue} {s : System} (h : Watchful issues s) {c : Loop}
    (hc : s.flow = .running c) (w : Wired issues s) {tk : Token} {a : IoAction}
    (found : c.act tk = some a) {f : Source Token UInt8 → Source Token UInt8}
    (queues : a.listens = false → ∀ src, (f src).backlog = src.backlog)
    (silent : a.listens = true → ∀ src, (f src).input = src.input)
    (stirred : ∀ src : Source Token UInt8, src.Stirred (f src)) :
    Watchful issues { s with flow := .running { c with os := c.os.modify a.sock f } } := by
  have wired := w.wired c hc
  constructor
  · intro c' hc'
    cases hc'
    exact (h.sorted c hc).touch wired found queues silent
  · intro c' hc'
    cases hc'
    exact (h.alert c hc).stirred (stirred _) fun t i reg => (wired.registered _ t i reg).1

theorem Watchful.step {issues : List Issue} {s s' : System} {l : Label} (h : Watchful issues s)
    (w : Wired issues s) (attends : s.attends env l = true) (hs : step env s l = some s') :
    Watchful (issues ++ s.issued l) s' := by
  obtain ⟨c, hc, hcase⟩ := step_cases env hs
  have wired := w.wired c hc
  have sorted := h.sorted c hc
  have alert := h.alert c hc
  cases hcase with
  | boot refused main output unix workers phase below =>
    obtain ⟨-, heq⟩ := w.boot c hc phase
    have idle : ∀ c', outcome (c.boot refused main output unix workers) c = .running c' →
        Loop.Sorted (issues ++ s.issued (.boot refused main output unix workers)) c' ∧
          c'.os.Alert [] := by
      intro c' hc'
      cases hb : c.boot refused main output unix workers with
      | error e => simp [hb, outcome] at hc'
      | ok d =>
        simp only [hb, outcome] at hc'
        cases hc'
        have boots := Loop.boot_boots hb
        rw [heq] at boots
        exact watchful_idle boots
    exact ⟨fun c' hc' => (idle c' hc').1, fun c' hc' => (idle c' hc').2⟩
  | head io phase order =>
    have hissued : s.issued (.head io) = [] := by simp [issued, hc]
    rw [hissued]
    rw [phase] at alert
    exact ⟨fun c' hc' => sorted.tended wired (Loop.head_tended hc') (by simp),
      fun c' hc' => alert.tended (Loop.head_tended hc')⟩
  | poll events os phase notified =>
    have hissued : s.issued (.poll events) = [] := by simp [issued, hc]
    rw [hissued, List.append_nil]
    rw [phase] at alert
    refine ⟨fun c' hc' => ?_, fun c' hc' => ?_⟩
    · cases hc'
      refine ⟨fun k waits => sorted.queues k ?_, fun x hx listens => ?_⟩
      · obtain ⟨r, wr, source, -⟩ := World.notifyAll_deliver notified k
        dsimp only at waits
        rwa [source] at waits
      · obtain ⟨r, wr, source, -⟩ := World.notifyAll_deliver notified x.sock
        dsimp only
        rw [source]
        exact sorted.silent x hx listens
    · cases hc'
      exact alert.polled notified
  | event io ev batch phase =>
    have hissued : s.issued (.event io) = c.issued ev io := by simp [issued, hc, phase]
    simp only [System.attends, hc, phase] at attends
    rw [hissued]
    rw [phase] at wired alert
    exact ⟨fun c' hc' => sorted.tended wired (Loop.event_tended hc') fun x => Loop.issued_streams,
      fun c' hc' => Loop.alert_event wired sorted alert attends hc'⟩
  | connect tk act found listens =>
    have hissued : s.issued (.connect tk) = [] := by simp [issued, hc]
    rw [hissued, List.append_nil]
    refine h.touch hc w found (fun streams => ?_) (fun _ _ => rfl) stirred_offer
    rw [listens] at streams
    cases streams
  | arrive tk act bytes found listens =>
    have hissued : s.issued (.arrive tk bytes) = [] := by simp [issued, hc]
    rw [hissued, List.append_nil]
    refine h.touch hc w found (fun _ src => ?_) (fun queues => ?_) (stirred_arrive · bytes)
    · simp only [arrive]
      split <;> rfl
    · rw [listens] at queues
      cases queues
  | close tk act found listens =>
    have hissued : s.issued (.close tk) = [] := by simp [issued, hc]
    rw [hissued, List.append_nil]
    exact h.touch hc w found (fun _ _ => rfl) (fun _ _ => rfl) stirred_close

theorem watchful_run {next : Sock} {ls : List Label} {s : System}
    (run : (machine env next).exec ls = some s)
    (attends : (machine env next).Along (fun s l => s.attends env l = true) ls) :
    ∃ issues, Watchful issues s := by
  obtain ⟨issues, traced⟩ := @Machine.traced_exec _ _ _ _ issued _ _ run
  refine ⟨issues, (@Machine.invariant_along _ _ ((machine env next).traced issued)
    (fun p => Wired p.2 p.1 ∧ Watchful p.2 p.1) (fun p l => p.1.attends env l = true)
    ⟨@wired_init env next, @watchful_init env next⟩ (fun p l p' hp ok hl => ?_) _ _ traced
    (Machine.along_traced.mpr attends)).2⟩
  obtain ⟨hs, heq⟩ := Machine.traced_step hl
  rw [heq]
  exact ⟨hp.1.step hs, hp.2.step hp.1 ok hs⟩

end System
end PyProxy.Master
