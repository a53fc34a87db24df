import PyProxy.Master.Bounds

namespace PyProxy.Master
open Stream Protocol Server Poll Lines

-- the operating system fails neither the poll nor a listener, a pipe or a worker stream

def HeadIo.Smooth (io : HeadIo) : Prop := (∀ tk, io.workerRefused tk = false) ∧ io.poll = .ok ()

namespace Loop

def Smooth (c : Loop) (ev : Event) (io : EventIo) : Prop :=
  match c.ioActions ev.token with
  | some (.mainListener _) => io.reregisterRefused = false
  | some (.unixListener _) => io.registerRefused = false ∧ io.adopted = .ok ()
  | some (.workerStream k) => ev.readable = true →
    ∃ bytes, bytes ≠ [] ∧ (c.os.read k bufferSize io.read).1 = .ok bytes
  | _ => True

-- what a worker stream has received so far never makes the parser of its messages fail
def Sensible (env : Env) (bytes : List UInt8) : Prop :=
  ∀ b, b <+: bytes → ((WorkerStream.framer env.mc).drain b).err = none

structure Parsing (env : Env) (bytes : List UInt8) (c : Loop) (k : Sock) (got : List UInt8) : Prop where
  all : got ++ (c.os.source k).input = bytes
  parsed : ((WorkerStream.framer env.mc).drain got).err = none
  inbuffer : (c.workers k).inbuffer = ((WorkerStream.framer env.mc).drain got).rest

structure Standing (env : Env) (issues : List Issue) (ns : List Note) (c : Loop) : Prop where
  listed : ∀ tk k, ⟨tk, k, .workerStream⟩ ∈ issues → (tk, k) ∈ c.workerStreams.streams
  registered : ∀ p ∈ c.workerStreams.streams, (c.os.source p.2).reg.isSome = true
  parsing : ∀ p ∈ c.workerStreams.streams, ∃ got, Parsing env (Note.bytesOf p.2 ns) c p.2 got

-- what an event does to the worker streams
inductive Serves (env : Env) (c : Loop) (ev : Event) (io : EventIo) : IoAction → Loop → Prop where
  | other (a c') (kind : a.kind ≠ .workerStream) (workers : c'.workers = c.workers)
      (streams : c'.workerStreams = c.workerStreams)
      (issued : ∀ x ∈ c.issued ev io, x.kind ≠ .workerStream) : Serves env c ev io a c'
  | joined (k os) (ready : (c.os.source k).backlog ≠ 0) (accept : io.accept.refused = false)
      (ok : c.os.Accepted k io.accept os) (registered : io.registerRefused = false) :
      Serves env c ev io (.unixListener k) { c with
        os := os.modify c.os.next (·.attach c.ioToken ro)
        workers := c.workers.set c.os.next (.new ro)
        ioActions := c.ioActions.insert c.ioToken (.workerStream c.os.next)
        workerStreams := c.workerStreams.add c.ioToken c.os.next
        ioToken := c.ioToken + 1 }
  | worker (k c') (event : c.workerEvent env ev k io = .running c') :
      Serves env c ev io (.workerStream k) c'

variable {env : Env} {c c' : Loop} {ev : Event} {io : EventIo} {k : Sock} {a : IoAction}

theorem outputEvent_workers : ((c.outputRead env ev k io).outputWrite ev k io).workers = c.workers ∧
    ((c.outputRead env ev k io).outputWrite ev k io).workerStreams = c.workerStreams := by
  have opened : ∀ (d : Loop) (refused : Bool), (d.openOutput ev.token k refused).workers = d.workers ∧
      (d.openOutput ev.token k refused).workerStreams = d.workerStreams := by
    intro d refused
    simp only [openOutput]
    split
    · exact ⟨rfl, rfl⟩
    · split <;> exact ⟨rfl, rfl⟩
  have dropped : ∀ {ε T : Type} (d : Loop) (res : Except ε T), (d.dropIfErr ev.token k res).workers = d.workers ∧
      (d.dropIfErr ev.token k res).workerStreams = d.workerStreams := by
    intro ε T d res
    cases res <;> exact ⟨rfl, rfl⟩
  have read : (c.outputRead env ev k io).workers = c.workers ∧
      (c.outputRead env ev k io).workerStreams = c.workerStreams := by
    simp only [outputRead]
    split
    · exact ⟨(opened _ _).1.trans (dropped _ _).1, (opened _ _).2.trans (dropped _ _).2⟩
    · exact ⟨rfl, rfl⟩
  rw [← read.1, ← read.2]
  simp only [outputWrite]
  split
  · exact ⟨(dropped _ _).1, (dropped _ _).2⟩
  · exact ⟨rfl, rfl⟩

theorem clientEvent_workers (c : Loop) (tk : Token) (s : ClientStream) (io : EventIo) :
    (c.clientEvent tk s io).workers = c.workers ∧
      (c.clientEvent tk s io).workerStreams = c.workerStreams := by
  simp only [clientEvent]
  split <;> exact ⟨rfl, rfl⟩

theorem pipeEvent_workers (send : OutputStream → List UInt8 → OutputStream)
    (wrap : PipeFrame → IoAction) (c : Loop) (tk : Token) (f : PipeFrame) (io : EventIo) :
    (c.pipeEvent send wrap tk f io).workers = c.workers ∧
      (c.pipeEvent send wrap tk f io).workerStreams = c.workerStreams := by
  have hcase := pipeEvent_cases send wrap c tk f io
  generalize c.pipeEvent send wrap tk f io = d at hcase ⊢
  cases hcase <;> exact ⟨rfl, rfl⟩

theorem issued_worker {x : Issue} (ha : c.ioActions ev.token = some a) (hx : x ∈ c.issued ev io)
    (kind : x.kind = .workerStream) : a.kind = .unixListener ∧ x ∈ c.enroll a.sock io .workerStream := by
  simp only [issued, ha] at hx
  cases a with
  | mainListener j => cases (enroll_kind hx).symm.trans kind
  | outputListener j => cases (enroll_kind hx).symm.trans kind
  | unixListener j => exact ⟨rfl, hx⟩
  | _ => cases hx

theorem event_serves (ha : c.ioActions ev.token = some a) (hc : c.event env ev io = .running c') :
    Serves env c ev io a c' := by
  have quiet : a.kind ≠ .unixListener → ∀ x ∈ c.issued ev io, x.kind ≠ .workerStream :=
    fun hne x hx kind => hne (issued_worker ha hx kind).1
  have untouched : a.kind ≠ .workerStream → a.kind ≠ .unixListener →
      c'.workers = c.workers ∧ c'.workerStreams = c.workerStreams → Serves env c ev io a c' :=
    fun hne hno same => .other a c' hne same.1 same.2 (quiet hno)
  simp only [event, ha] at hc
  cases a with
  | mainListener j =>
    refine untouched Kind.noConfusion Kind.noConfusion ?_
    cases acceptMain_cases hc <;> exact ⟨rfl, rfl⟩
  | outputListener j =>
    cases hc
    refine untouched Kind.noConfusion Kind.noConfusion ?_
    have hcase := c.acceptOutput_cases j io
    generalize c.acceptOutput j io = d at hcase ⊢
    cases hcase <;> exact ⟨rfl, rfl⟩
  | unixListener j =>
    cases acceptUnix_cases hc with
    | idle none =>
      refine .other _ _ Kind.noConfusion rfl rfl fun x hx kind => ?_
      have enrolled : x ∈ c.enroll j io .workerStream := (issued_worker ha hx kind).2
      rw [Wired.enroll_none (.inl none)] at enrolled
      cases enrolled
    | adopted os ready accept ok registered => exact .joined j os ready accept ok registered
  | clientStream s =>
    cases hc
    exact untouched Kind.noConfusion Kind.noConfusion (c.clientEvent_workers ev.token s io)
  | outputStream j =>
    cases hc
    exact untouched Kind.noConfusion Kind.noConfusion outputEvent_workers
  | workerStream j => exact .worker j c' hc
  | stderr f =>
    cases hc
    exact untouched Kind.noConfusion Kind.noConfusion (pipeEvent_workers _ _ c ev.token f io)
  | stdout f =>
    cases hc
    exact untouched Kind.noConfusion Kind.noConfusion (pipeEvent_workers _ _ c ev.token f io)

theorem issued_joined (ha : c.ioActions ev.token = some (.unixListener k))
    (ready : (c.os.source k).backlog ≠ 0) (accept : io.accept.refused = false)
    (registered : io.registerRefused = false) :
    c.issued ev io = [⟨c.ioToken, c.os.next, .workerStream⟩] := by
  simp [issued, ha, enroll, ready, accept, registered]

theorem workerEvent_streams (hc : c.workerEvent env ev k io = .running c') :
    c'.workerStreams = c.workerStreams := by
  have wrote : ∀ d : Loop, (d.workerWrite env ev k io).workerStreams = d.workerStreams := by
    intro d
    simp only [workerWrite]
    split <;> rfl
  simp only [workerEvent] at hc
  split at hc
  · split at hc
    · cases hc
    · cases hc
      exact wrote _
    · cases hc
      exact wrote _
  · cases hc
    exact wrote c

-- `WorkerStreams` lists every worker stream that was given a token
theorem Serves.listed {issues : List Issue} (h : Serves env c ev io a c')
    (ha : c.ioActions ev.token = some a)
    (listed : ∀ tk k, ⟨tk, k, .workerStream⟩ ∈ issues → (tk, k) ∈ c.workerStreams.streams) :
    ∀ tk k, ⟨tk, k, .workerStream⟩ ∈ issues ++ c.issued ev io → (tk, k) ∈ c'.workerStreams.streams := by
  intro tk j hx
  rcases List.mem_append.mp hx with hx | hx
  · have old := listed tk j hx
    cases h with
    | other _ _ kind workers streams issued =>
      rw [streams]
      exact old
    | joined k os ready accept ok registered => exact List.mem_append_left _ old
    | worker k _ event =>
      rw [workerEvent_streams event]
      exact old
  · cases h with
    | other _ _ kind workers streams issued => exact absurd rfl (issued _ hx)
    | joined k os ready accept ok registered =>
      rw [issued_joined ha ready accept registered, List.mem_singleton] at hx
      cases hx
      simp [WorkerStreams.add]
    | worker k _ event => simp [issued, ha] at hx

theorem acceptMain_running (listening : (c.os.source k).reg.isSome = true) (old : k < c.os.next)
    (smooth : io.reregisterRefused = false) : ∃ c', c.acceptMain k io = .running c' := by
  simp only [acceptMain, smooth]
  rcases c.os.accept_cases k io.accept with ⟨e, he, -⟩ | ⟨-, -, os, he, ok⟩
  · rw [he]
    exact ⟨_, rfl⟩
  · have still : (os.source k).reg.isSome = true := by
      rw [(ok.quiet (Nat.ne_of_lt old)).reg]
      exact listening
    rw [he]
    simp only [World.register_free ok.fresh]
    cases io.registerRefused with
    | true =>
      simp only [if_true, World.reregister_ok still]
      exact ⟨_, rfl⟩
    | false =>
      simp only [Bool.false_eq_true, if_false, World.reregister_ok (attach_registered _ _ still)]
      exact ⟨_, rfl⟩

theorem acceptUnix_running (smooth : io.registerRefused = false ∧ io.adopted = .ok ()) :
    ∃ c', c.acceptUnix k io = .running c' := by
  simp only [acceptUnix, smooth.1, smooth.2]
  rcases c.os.accept_cases k io.accept with ⟨e, he, -⟩ | ⟨-, -, os, he, ok⟩
  · rw [he]
    exact ⟨_, rfl⟩
  · rw [he]
    simp only [World.register_free ok.fresh]
    exact ⟨_, rfl⟩

theorem workerEvent_running {bytes : List UInt8} (sensible : Sensible env bytes) {got : List UInt8}
    (h : Parsing env bytes c k got)
    (smooth : ev.readable = true → ∃ b, b ≠ [] ∧ (c.os.read k bufferSize io.read).1 = .ok b) :
    ∃ c₁ got', Parsing env bytes c₁ k got' ∧ (∀ j, (c₁.os.source j).reg = (c.os.source j).reg) ∧
      (∀ j, j ≠ k → c₁.workers j = c.workers j) ∧ c₁.workerStreams = c.workerStreams ∧
      c.workerEvent env ev k io = .running (c₁.workerWrite env ev k io) := by
  cases hr : ev.readable with
  | false =>
    refine ⟨c, got, h, fun _ => rfl, fun _ _ => rfl, rfl, ?_⟩
    simp only [workerEvent, hr, Bool.false_eq_true, if_false]
  | true =>
    obtain ⟨b, hne, hb⟩ := smooth hr
    rcases c.os.read_results k (Nat.zero_lt_succ 4095) io.read with ⟨e, he⟩ | he | ⟨n, he, -, -⟩
    · rw [show bufferSize = 4095 + 1 from rfl, he] at hb
      cases hb
    · rw [show bufferSize = 4095 + 1 from rfl, he] at hb
      cases hb
      exact absurd rfl hne
    · have parts : got ++ (c.os.source k).input.take n ++ (c.os.source k).input.drop n = bytes := by
        rw [List.append_assoc, List.take_append_drop, h.all]
      have parsed := sensible _ ⟨_, parts⟩
      have more := (WorkerStream.framer env.mc).drain_append got ((c.os.source k).input.take n) h.parsed
      rw [← h.inbuffer] at more
      have decoded : ((WorkerStream.framer env.mc).drain
          ((c.workers k).inbuffer ++ (c.os.source k).input.take n)).err = none := by
        rwa [more] at parsed
      have some : (c.os.source k).input.take n ≠ [] := by
        rw [show bufferSize = 4095 + 1 from rfl, he] at hb
        cases hb
        exact hne
      have same := c.os.sameReg_modify k (f := (·.drained n)) rfl
      refine ⟨{ c with
        os := c.os.modify k (·.drained n)
        workers := c.workers.set k { c.workers k with
          inbuffer := ((WorkerStream.framer env.mc).drain
            ((c.workers k).inbuffer ++ (c.os.source k).input.take n)).rest } },
        _, ⟨?_, parsed, ?_⟩, same.2, fun j hj => Workers.set_other _ _ hj, rfl, ?_⟩
      · rw [World.modify_same]
        exact parts
      · rw [more]
        exact congrArg WorkerStream.inbuffer (Workers.set_same _ _ _)
      · simp only [workerEvent, hr, if_true, show bufferSize = 4095 + 1 from rfl, he]
        rw [WorkerStream.read_ok env.mc some decoded]

section

variable {ns : List Note} {pend : List Token} {issues : List Issue}

theorem event_running (h : Standing env issues ns c) (w : Wired issues (ev.token :: pend) c)
    (smooth : c.Smooth ev io)
    (sensible : ∀ p ∈ c.workerStreams.streams, Sensible env (Note.bytesOf p.2 ns)) :
    ∃ c', c.event env ev io = .running c' := by
  simp only [event]
  simp only [Smooth] at smooth
  cases ha : c.ioActions ev.token with
  | none => exact ⟨c, rfl⟩
  | some a =>
    simp only [ha] at smooth
    cases a with
    | mainListener k =>
      exact acceptMain_running (w.listener _ _ (w.act_of ha)).2 (w.below _ (w.issue ha)).2 smooth
    | unixListener k => exact acceptUnix_running smooth
    | workerStream k =>
      have member := h.listed _ _ (w.issue ha)
      obtain ⟨got, parsing⟩ := h.parsing _ member
      obtain ⟨c₁, got', -, -, -, -, hc⟩ := workerEvent_running (sensible _ member) parsing smooth
      exact ⟨_, hc⟩
    | outputListener k => exact ⟨_, rfl⟩
    | clientStream s => exact ⟨_, rfl⟩
    | outputStream k => exact ⟨_, rfl⟩
    | stderr f => exact ⟨_, rfl⟩
    | stdout f => exact ⟨_, rfl⟩

theorem Parsing.frame {bytes got : List UInt8} (h : Parsing env bytes c k got)
    (input : (c'.os.source k).input = (c.os.source k).input)
    (inbuffer : (c'.workers k).inbuffer = (c.workers k).inbuffer) : Parsing env bytes c' k got :=
  ⟨by rw [input, h.all], h.parsed, inbuffer.trans h.inbuffer⟩

-- the write of a worker event keeps what the read half of the next one sees
structure Writes (c c' : Loop) (k : Sock) : Prop where
  reg : ∀ j, (c'.os.source j).reg = (c.os.source j).reg
  input : (c'.os.source k).input = (c.os.source k).input
  inbuffer : (c'.workers k).inbuffer = (c.workers k).inbuffer
  others : ∀ j, j ≠ k → c'.workers j = c.workers j
  streams : c'.workerStreams = c.workerStreams

theorem workerWrite_writes (c : Loop) (ev : Event) (k : Sock) (io : EventIo) :
    Writes c (c.workerWrite env ev k io) k := by
  cases hw : ev.writable with
  | false =>
    simp only [workerWrite, hw, Bool.false_eq_true, if_false]
    exact ⟨fun _ => rfl, rfl, rfl, fun _ _ => rfl, rfl⟩
  | true =>
    have hcase := @workerWrite_cases env c k io ev hw
    have quiet := (c.os.write_quiet k (c.workers k).outbuffer.length io.write).sameReg
    have same := c.os.modify_input k (fun s => s.put_input (c.workers k).outbuffer.length io.write) k
    generalize c.workerWrite env ev k io = d at hcase ⊢
    cases hcase with
    | failed e os got =>
      obtain rfl : os = _ := (congrArg Prod.snd got).symm
      refine ⟨quiet.2, same, ?_, fun j hj => Workers.set_other _ _ hj, rfl⟩
      dsimp only
      rw [Workers.set_same]
    | written n os got =>
      obtain rfl : os = _ := (congrArg Prod.snd got).symm
      refine ⟨quiet.2, same, ?_, fun j hj => Workers.set_other _ _ hj, rfl⟩
      dsimp only
      rw [Workers.set_same]

theorem Parsing.joined {ns : List Note} (below : ∀ n ∈ ns, n.sock < c.os.next)
    (ready : (c.os.source k).backlog ≠ 0) (accept : io.accept.refused = false)
    {os : World Token UInt8} (ok : c.os.Accepted k io.accept os)
    (source : (c'.os.source c.os.next) = (os.source c.os.next).attach c.ioToken ro)
    (new : c'.workers c.os.next = .new ro) :
    Parsing env (Note.bytesOf c.os.next (ns ++ c.opened k io)) c' c.os.next [] := by
  have unheard := Note.bytesOf_other fun n hn => Nat.ne_of_lt (below n hn)
  have wait := (WorkerStream.framer env.mc).drain_wait (WorkerStream.framer env.mc).next_nil
  refine ⟨?_, by rw [wait], by rw [wait, new]; rfl⟩
  rw [Note.bytesOf_append, unheard, opened_ready ready accept, source, Source.attach_input, ok.opened]
  simp [Note.bytesOf, Note.bytesTo]

theorem Standing.event (h : Standing env issues ns c) (w : Wired issues (ev.token :: pend) c)
    (smooth : c.Smooth ev io)
    (sensible : ∀ p ∈ c.workerStreams.streams, Sensible env (Note.bytesOf p.2 ns))
    (below : ∀ n ∈ ns, n.sock < c.os.next) (hc : c.event env ev io = .running c') :
    Standing env (issues ++ c.issued ev io) (ns ++ c.noted ev io) c' := by
  obtain ⟨a, ha⟩ := Option.isSome_iff_exists.mp (w.held ev.token (by simp))
  have ap := event_apart ha hc
  have hown := w.issue ha
  have unheard : ∀ {p}, p ∈ c.workerStreams.streams → p.2 ≠ a.sock ∨ a.kind = .workerStream →
      Note.bytesOf p.2 (ns ++ c.noted ev io) = Note.bytesOf p.2 ns := by
    intro p hp hor
    have silent : Note.bytesOf p.2 (c.noted ev io) = [] := by
      refine Note.bytesOf_other fun n hn eq => ?_
      rcases event_next ha hc hn with hs | ⟨rfl, -⟩
      · rcases hor with hne | hk
        · exact hne (eq.symm.trans hs)
        · cases a with
          | workerStream k => simp [noted, ha] at hn
          | _ => cases hk
      · exact Nat.ne_of_gt (w.below _ (w.workers p hp)).2 eq
    rw [Note.bytesOf_append, silent, List.append_nil]
  have beside : ∀ {p}, p ∈ c.workerStreams.streams → p.2 ≠ a.sock →
      c'.workers p.2 = c.workers p.2 → (c'.os.source p.2).reg.isSome = true ∧
        ∃ got, Parsing env (Note.bytesOf p.2 (ns ++ c.noted ev io)) c' p.2 got := by
    intro p hp hne workers
    have source := ap.source p.2 hne (w.below _ (w.workers p hp)).2
    obtain ⟨got, parsing⟩ := h.parsing p hp
    rw [source, unheard hp (.inl hne)]
    exact ⟨h.registered p hp, got, parsing.frame (by rw [source]) (by rw [workers])⟩
  have served := event_serves ha hc
  have listed := served.listed ha h.listed
  cases served with
  | other _ _ kind workers streams issued =>
    have apart : ∀ p ∈ c.workerStreams.streams, p.2 ≠ a.sock := fun p hp eq =>
      kind (congrArg Issue.kind (w.same_sock (w.workers p hp) hown eq)).symm
    have old := fun p hp => @beside p hp (apart p hp) (by rw [workers])
    refine ⟨listed, fun p hp => ?_, fun p hp => ?_⟩
    · rw [streams] at hp
      exact (old p hp).1
    · rw [streams] at hp
      exact (old p hp).2
  | joined k os ready accept ok registered =>
    have ne : ∀ p ∈ c.workerStreams.streams, p.2 ≠ c.os.next := fun p hp =>
      Nat.ne_of_lt (w.below _ (w.workers p hp)).2
    have apart : ∀ p ∈ c.workerStreams.streams, p.2 ≠ k := fun p hp eq => by
      cases congrArg Issue.kind (w.same_sock (w.workers p hp) hown eq)
    have old := fun p hp => @beside p hp (apart p hp) (Workers.set_other _ _ (ne p hp))
    have noted : c.noted ev io = c.opened k io := by simp [Loop.noted, ha]
    refine ⟨listed, fun p hp => ?_, fun p hp => ?_⟩
    · rcases List.mem_append.mp hp with hp | hp
      · exact (old p hp).1
      · rw [List.mem_singleton.mp hp]
        dsimp only
        rw [World.attach_reg, if_pos rfl]
        rfl
    · rcases List.mem_append.mp hp with hp | hp
      · exact (old p hp).2
      · rw [List.mem_singleton.mp hp, noted]
        refine ⟨[], .joined below ready accept ok ?_ (Workers.set_same c.workers _ _)⟩
        dsimp only
        rw [World.modify_same]
  | worker k _ hw =>
    have member : (ev.token, k) ∈ c.workerStreams.streams := h.listed _ _ hown
    obtain ⟨got, parsing⟩ : ∃ got, Parsing env (Note.bytesOf k ns) c k got := h.parsing _ member
    simp only [Smooth, ha] at smooth
    obtain ⟨c₁, got', parsed, reg, others, streams, hrun⟩ :=
      workerEvent_running (sensible _ member) parsing smooth
    cases hw.symm.trans hrun
    have writes := @workerWrite_writes env c₁ ev k io
    refine ⟨listed, fun p hp => ?_, fun p hp => ?_⟩
    · rw [writes.streams, streams] at hp
      rw [writes.reg, reg]
      exact h.registered p hp
    · rw [writes.streams, streams] at hp
      by_cases hk : p.2 = k
      · rw [unheard hp (.inr rfl), hk]
        exact ⟨got', parsed.frame writes.input writes.inbuffer⟩
      · exact (beside hp hk ((writes.others _ hk).trans (others _ hk))).2

theorem updateOutputs_other {io : HeadIo} (order : List String)
    (h : ∀ S, c.outputStreams.lookup S ≠ some k) :
    (order.foldl (updateOutput io) c).os.source k = c.os.source k := by
  induction order generalizing c with
  | nil => rfl
  | cons S order ih =>
    have first := updateOutput_tunes io c S
    have rest := @ih (c.updateOutput io S) fun T => by rw [first.sessions]; exact h T
    rw [List.foldl_cons, rest]
    rcases updateOutput_cases io c S with ⟨heq, -⟩ | ⟨j, i, hj, -, heq⟩
    · rw [heq]
    · have hne : k ≠ j := fun eq => h S (eq ▸ hj)
      rw [heq]
      rcases c.setOutputInterest_cases j (io.outputRefused S) i with ⟨-, hset⟩ | hset
      · rw [hset]
        dsimp only
        exact World.modify_other _ _ hne
      · rw [hset, drop, World.deregister]
        exact World.modify_other _ _ hne

theorem updateWorkers_ok {io : HeadIo} (smooth : ∀ tk, io.workerRefused tk = false)
    {streams : List (Token × Sock)} (reg : ∀ p ∈ streams, (c.os.source p.2).reg.isSome = true) :
    ∃ c', updateWorkers io streams c = .ok c' := by
  induction streams generalizing c with
  | nil => exact ⟨c, rfl⟩
  | cons p streams ih =>
    obtain ⟨tk, j⟩ := p
    have hj : (c.os.source j).reg.isSome = true := reg (tk, j) (by simp)
    have first : ∃ c₁, c.updateWorker io tk j = .ok c₁ := by
      simp only [updateWorker, smooth tk, World.reregister_ok hj, fatalIoErr, registered]
      split
      · exact ⟨_, rfl⟩
      · split <;> exact ⟨_, rfl⟩
    obtain ⟨c₁, hu⟩ := first
    have still : ∀ p ∈ streams, (c₁.os.source p.2).reg.isSome = true := by
      intro p hp
      have before := reg p (by simp [hp])
      rcases updateWorker_cases hu with ⟨rfl, -⟩ | ⟨i, -, -, rfl⟩
      · exact before
      · exact attach_registered tk i before
    obtain ⟨c', hrest⟩ := ih still
    exact ⟨c', by simp only [updateWorkers, hu, hrest]⟩

theorem head_running {io : HeadIo} (h : Standing env issues ns c) (smooth : io.Smooth) :
    ∃ c', c.head env io = .running c' := by
  have reg : ∀ p ∈ (c.settle.dispatch env).workerStreams.streams,
      ((c.settle.dispatch env).os.source p.2).reg.isSome = true := by
    intro p hp
    rw [dispatch, WorkerStreams.dispatch_streams] at hp
    exact h.registered p hp
  obtain ⟨c₁, hu⟩ := updateWorkers_ok smooth.1 reg
  simp only [head, hu, smooth.2, fatalIoErr]
  exact ⟨_, rfl⟩

theorem dispatch_inbuffer (c : Loop) (k : Sock) :
    ((c.dispatch env).workers k).inbuffer = (c.workers k).inbuffer := by
  cases hj : c.workerStreams.chosen with
  | none => rw [dispatch, WorkerStreams.dispatch_none hj]
  | some j =>
    simp only [dispatch]
    by_cases hk : k = j
    · subst hk
      rw [WorkerStreams.dispatch_chosen hj, WorkerStream.dispatch_all]
    · rw [WorkerStreams.dispatch_other hj hk]

theorem head_keeps {io : HeadIo} (w : Wired issues [] c) (hc : c.head env io = .running c')
    {p : Token × Sock} (hp : p ∈ c.workerStreams.streams) (reg : (c.os.source p.2).reg.isSome = true) :
    (c'.os.source p.2).reg.isSome = true := by
  obtain ⟨c₁, hu, -, rfl⟩ := head_cases hc
  have unrouted : ∀ S, c₁.outputStreams.lookup S ≠ some p.2 := by
    intro S hS
    rw [(updateWorkers_tunes (fun _ => id) hu).sessions] at hS
    obtain ⟨tk, hx⟩ := w.sessions S _ hS
    cases congrArg Issue.kind (w.same_sock hx (w.workers p hp) rfl)
  rw [updateOutputs_other _ unrouted]
  exact updateWorkers_registered hu reg

theorem Standing.head {io : HeadIo} (h : Standing env issues ns c) (w : Wired issues [] c)
    (hc : c.head env io = .running c') : Standing env issues ns c' := by
  have tunes := head_tunes hc
  have streams : c'.workerStreams.streams = c.workerStreams.streams := by
    rw [tunes.streams, dispatch, WorkerStreams.dispatch_streams]
    rfl
  refine ⟨fun tk k hx => ?_, fun p hp => ?_, fun p hp => ?_⟩
  · rw [streams]
    exact h.listed tk k hx
  · rw [streams] at hp
    exact head_keeps w hc hp (h.registered p hp)
  · rw [streams] at hp
    obtain ⟨got, parsing⟩ := h.parsing p hp
    refine ⟨got, parsing.frame (tunes.source p.2).input ?_⟩
    obtain ⟨i, hi⟩ := tunes.worker p.2
    rw [hi]
    exact dispatch_inbuffer c.settle p.2

theorem Standing.fed {new : List Note} {os : World Token UInt8} (h : Standing env issues ns c)
    (reg : ∀ k, (os.source k).reg = (c.os.source k).reg)
    (input : ∀ k, (os.source k).input = (c.os.source k).input ++ Note.bytesOf k new) :
    Standing env issues (ns ++ new) { c with os := os } := by
  refine ⟨h.listed, fun p hp => ?_, fun p hp => ?_⟩
  · dsimp only
    rw [reg]
    exact h.registered p hp
  · obtain ⟨got, parsing⟩ := h.parsing p hp
    refine ⟨got, ?_, parsing.parsed, parsing.inbuffer⟩
    dsimp only
    rw [input, ← List.append_assoc, parsing.all, Note.bytesOf_append]

end

theorem listen_free {action : String} {tk : Token} (free : (c.os.source a.sock).reg = none) :
    c.listen action false tk a = .ok { c with
      os := c.os.modify a.sock (·.attach tk ro), ioActions := c.ioActions.insert tk a } := by
  simp only [listen, World.register_free free, Bool.false_eq_true, if_false, fatalIoErr, registered]

theorem attach_free {w : World Token UInt8} {j : Sock} (tk : Token) (h : (w.source j).reg = none)
    (hne : j ≠ k) : ((w.modify k (·.attach tk ro)).source j).reg = none := by
  rwa [World.modify_other _ _ hne]

theorem addPipes_ok {refused : Sock → Bool} (smooth : ∀ k, refused k = false)
    {workers : List (Sock × Sock)} (nodup : (workers.flatMap fun w => [w.1, w.2]).Nodup)
    (free : ∀ k ∈ workers.flatMap fun w => [w.1, w.2], (c.os.source k).reg = none) :
    ∃ c', c.addPipes refused workers = .ok c' := by
  induction workers generalizing c with
  | nil => exact ⟨c, rfl⟩
  | cons w workers ih =>
    obtain ⟨stdout, stderr⟩ := w
    simp only [List.flatMap_cons, List.cons_append, List.nil_append, List.nodup_cons, List.mem_cons,
      not_or] at nodup free
    obtain ⟨⟨hne, hout⟩, herr, rest⟩ := nodup
    have outFree : (c.os.source (IoAction.stdout (.new stdout)).sock).reg = none := free stdout (.inl rfl)
    simp only [addPipes, addPipe, smooth, listen_free outFree]
    have errFree := attach_free c.ioToken (free stderr (.inr (.inl rfl))) (Ne.symm hne)
    rw [listen_free]
    · refine ih rest fun k hk => ?_
      refine attach_free _ (attach_free _ (free k (.inr (.inr hk))) ?_) ?_
      · rintro rfl
        exact hout hk
      · rintro rfl
        exact herr hk
    · exact errFree

theorem boot_ok {refused : Sock → Bool} {main output unix : Sock} {workers : List (Sock × Sock)}
    (smooth : ∀ k, refused k = false)
    (nodup : (main :: output :: unix :: workers.flatMap fun w => [w.1, w.2]).Nodup)
    (free : ∀ k, (c.os.source k).reg = none) : ∃ c', c.boot refused main output unix workers = .ok c' := by
  simp only [List.nodup_cons, List.mem_cons, not_or] at nodup
  obtain ⟨⟨hmo, hmu, hm⟩, ⟨hou, ho⟩, hu, rest⟩ := nodup
  simp only [boot, smooth]
  rw [listen_free (free _)]
  dsimp only
  rw [listen_free (attach_free _ (free _) (Ne.symm hmo))]
  dsimp only
  rw [listen_free (attach_free _ (attach_free _ (free _) (Ne.symm hmu)) (Ne.symm hou))]
  refine addPipes_ok smooth rest fun k hk => ?_
  refine attach_free _ (attach_free _ (attach_free _ (free k) ?_) ?_) ?_
  · rintro rfl
    exact hm hk
  · rintro rfl
    exact ho hk
  · rintro rfl
    exact hu hk

end Loop

namespace System

variable {env : Env}

def Smooth (s : System) (l : Label) : Prop :=
  match s.flow, l, s.phase with
  | .running _, .boot refused main output unix workers, _ => (∀ k, refused k = false) ∧
      (main :: output :: unix :: workers.flatMap fun w => [w.1, w.2]).Nodup
  | .running _, .head io, _ => io.Smooth
  | .running c, .event io, .turn (ev :: _) => c.Smooth ev io
  | _, _, _ => True

def Sensible (env : Env) (p : System × List Note) : Prop :=
  ∀ c, p.1.flow = .running c → ∀ q ∈ c.workerStreams.streams,
    Loop.Sensible env (Note.bytesOf q.2 p.2)

structure Stands (env : Env) (issues : List Issue) (ns : List Note) (s : System) : Prop where
  wired : Wired issues s
  custody : Custody ns s
  standing : ∃ c, s.flow = .running c ∧ Loop.Standing env issues ns c

theorem stands_init (next : Sock) : Stands env [] [] (machine env next).init := by
  refine ⟨@wired_init env next, @custody_init env next, _, rfl, fun tk k hx => ?_, fun p hp => ?_,
    fun p hp => ?_⟩
  · cases hx
  · cases hp
  · cases hp

theorem Stands.step {issues : List Issue} {ns : List Note} {s s' : System} {l : Label}
    (h : Stands env issues ns s) (smooth : Smooth s l) (sensible : Sensible env (s, ns))
    (hs : step env s l = some s') : Stands env (issues ++ s.issued l) (ns ++ s.noted l) s' := by
  refine ⟨h.wired.step hs, h.custody.step h.wired hs, ?_⟩
  obtain ⟨c, hc, standing⟩ := h.standing
  obtain ⟨c', hc', hcase⟩ := step_cases env hs
  cases hc.symm.trans hc'
  have wired := h.wired.wired c hc
  have custody := h.custody.custody c hc
  have silent : ∀ {os : World Token UInt8}, c.os.SameReg os →
      (∀ k, (os.source k).input = (c.os.source k).input) →
        Loop.Standing env issues ns { c with os := os } := by
    intro os same input
    have hfed := @Loop.Standing.fed env c ns issues [] os standing same.2 fun k =>
      (input k).trans (List.append_nil _).symm
    rwa [List.append_nil] at hfed
  simp only [Smooth, hc] at smooth
  cases hcase with
  | boot refused main output unix workers phase below =>
    obtain ⟨rfl, hnew⟩ := h.wired.boot c hc phase
    have hn : s.noted (.boot refused main output unix workers) = [] := by simp [noted, hc]
    have hi : s.issued (.boot refused main output unix workers) =
        bootIssues main output unix workers := by simp [issued, hc, phase]
    have free : ∀ k, (c.os.source k).reg = none := fun k => by rw [hnew]; rfl
    obtain ⟨c', hb⟩ := Loop.boot_ok smooth.1 smooth.2 free
    have streams : c'.workerStreams.streams = [] := by
      rw [(Loop.boot_boots hb).rest, hnew]
      rfl
    rw [hn, hi, List.nil_append, List.append_nil]
    refine ⟨c', by rw [hb]; rfl, fun tk k hx => ?_, fun p hp => ?_, fun p hp => ?_⟩
    · exact absurd rfl (bootIssues_kind hx).2.2
    · rw [streams] at hp
      cases hp
    · rw [streams] at hp
      cases hp
  | head io phase order =>
    have hn : s.noted (.head io) = [] := by simp [noted, hc]
    have hi : s.issued (.head io) = [] := by simp [issued, hc]
    rw [phase] at wired
    rw [hn, hi, List.append_nil, List.append_nil]
    obtain ⟨c', hrun⟩ := Loop.head_running standing smooth
    exact ⟨c', hrun, standing.head wired hrun⟩
  | poll events os phase notified =>
    have hn : s.noted (.poll events) = [] := by simp [noted, hc]
    have hi : s.issued (.poll events) = [] := by simp [issued, hc]
    rw [hn, hi, List.append_nil, List.append_nil]
    refine ⟨_, rfl, silent (World.notifyAll_some notified).1 fun k => ?_⟩
    obtain ⟨r, wr, hsrc, -, -⟩ := World.notifyAll_deliver notified k
    rw [hsrc]
    rfl
  | event io ev batch phase =>
    have hn : s.noted (.event io) = c.noted ev io := by simp [noted, hc, phase]
    have hi : s.issued (.event io) = c.issued ev io := by simp [issued, hc, phase]
    rw [phase] at wired smooth
    rw [hn, hi]
    obtain ⟨c', hrun⟩ := Loop.event_running standing wired smooth (sensible c hc)
    exact ⟨c', hrun, standing.event wired smooth (sensible c hc) custody.below hrun⟩
  | connect tk act found listens =>
    have hn : s.noted (.connect tk) = [] := by simp [noted, hc]
    have hi : s.issued (.connect tk) = [] := by simp [issued, hc]
    rw [hn, hi, List.append_nil, List.append_nil]
    exact ⟨_, rfl, silent (c.os.sameReg_modify _ rfl) (c.os.modify_input _ fun _ => rfl)⟩
  | arrive tk act bytes found listens =>
    have hn : s.noted (.arrive tk bytes) = [.received act.sock bytes] := by
      simp [noted, hc, Loop.sockOf, found]
    have hi : s.issued (.arrive tk bytes) = [] := by simp [issued, hc]
    rw [hn, hi, List.append_nil]
    refine ⟨_, rfl, standing.fed (c.os.sameReg_modify _ (Source.arrive_reg _ bytes)).2 fun k => ?_⟩
    by_cases hk : k = act.sock
    · rw [hk, World.modify_same, Source.arrive_input]
      simp [Note.bytesOf, Note.bytesTo]
    · rw [World.modify_other _ _ hk]
      simp [Note.bytesOf, Note.bytesTo, Ne.symm hk]
  | close tk act found listens =>
    have hn : s.noted (.close tk) = [] := by simp [noted, hc]
    have hi : s.issued (.close tk) = [] := by simp [issued, hc]
    rw [hn, hi, List.append_nil, List.append_nil]
    exact ⟨_, rfl, silent (c.os.sameReg_modify _ rfl) (c.os.modify_input _ fun _ => rfl)⟩

theorem stands_run {next : Sock} {ls : List Label} {s : System} {ns : List Note}
    (run : ((machine env next).traced noted).exec ls = some (s, ns))
    (smooth : (machine env next).Along Smooth ls)
    (sensible : ((machine env next).traced noted).Along (fun p _ => Sensible env p) ls) :
    ∃ issues, Stands env issues ns s := by
  refine @Machine.invariant_along _ _ ((machine env next).traced noted)
    (fun p => ∃ issues, Stands env issues p.2 p.1) (fun p l => Smooth p.1 l ∧ Sensible env p)
    ⟨[], @stands_init env next⟩ (fun p l p' hp hall hl => ?_) _ _ run fun pre l post p eq hp => ?_
  · obtain ⟨issues, stands⟩ := hp
    obtain ⟨hs, heq⟩ := Machine.traced_step hl
    rw [heq]
    exact ⟨_, stands.step hall.1 hall.2 hs⟩
  · exact ⟨Machine.along_traced.mpr smooth pre l post p eq hp, sensible pre l post p eq hp⟩

-- the part of `Smooth` that a label alone decides, and the part that a run can check

def Steady : Label → Prop
  | .boot refused main output unix workers => (∀ k, refused k = false) ∧
      (main :: output :: unix :: workers.flatMap fun w => [w.1, w.2]).Nodup
  | .head io => io.Smooth
  | _ => True

def smoothly (s : System) (l : Label) : Bool :=
  match s.flow, l, s.phase with
  | .running c, .event io, .turn (ev :: _) =>
    match c.ioActions ev.token with
    | some (.mainListener _) => !io.reregisterRefused
    | some (.unixListener _) => !io.registerRefused && (io.adopted matches .ok _)
    | some (.workerStream k) => !ev.readable || ((c.os.read k bufferSize io.read).1 matches .ok (_ :: _))
    | _ => true
  | _, _, _ => true

theorem smooth_of {s : System} {l : Label} (steady : Steady l) (h : s.smoothly l = true) : Smooth s l := by
  simp only [Smooth]
  split
  · exact steady
  · exact steady
  · rename_i c io ev batch hc phase
    simp only [smoothly, hc, phase] at h
    simp only [Loop.Smooth]
    cases ha : c.ioActions ev.token with
    | none => trivial
    | some a =>
      simp only [ha] at h
      cases a with
      | mainListener k => simpa using h
      | unixListener k =>
        obtain ⟨registered, adopted⟩ := Bool.and_eq_true_iff.mp h
        refine ⟨by simpa using registered, ?_⟩
        cases hio : io.adopted with
        | ok u => rfl
        | error e =>
          rw [hio] at adopted
          cases adopted
      | workerStream k =>
        intro readable
        simp only [readable, Bool.not_true, Bool.false_or] at h
        split at h
        · rename_i b bs hread
          exact ⟨b :: bs, List.cons_ne_nil _ _, hread⟩
        · cases h
      | _ => trivial
  · trivial

theorem smooth_along {next : Sock} {ls : List Label} (steady : ∀ l ∈ ls, Steady l)
    (h : (machine env next).checks smoothly (machine env next).init ls = true) :
    (machine env next).Along Smooth ls :=
  (Machine.along_of_checks h).imp fun _ l hl => smooth_of (steady l hl)

end System
end PyProxy.Master
