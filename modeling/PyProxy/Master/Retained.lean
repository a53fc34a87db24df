import PyProxy.Master.Custody

namespace PyProxy.Master
open Protocol Poll

open Note

namespace Loop

-- a client that is no longer registered was handed off, or goes at the next head of the loop
def Doomed (ns : List Note) (c : Loop) : Prop :=
  ∀ tk s, c.act tk = some (.clientStream s) → (c.os.source s.stream).reg = none →
    s.stream ∈ handedOver ns ∨ tk ∈ c.toRemove ∧ (c.ioActions tk).isSome = true

def Swept (ns : List Note) (c : Loop) : Prop :=
  ∀ tk s, c.act tk = some (.clientStream s) → (c.os.source s.stream).reg = none → s.stream ∈ handedOver ns

variable {env : Env} {ns new : List Note} {pend : List Token} {issues : List Issue} {c c' : Loop}
  {ev : Event} {io : EventIo} {k : Sock}

theorem Swept.doomed (h : Swept ns c) : Doomed ns c := fun tk s hs reg => .inl (h tk s hs reg)

theorem settle_removed (w : Wired issues pend c) {tk : Token} (gone : tk ∈ c.toRemove)
    (held : (c.ioActions tk).isSome = true) : c.settle.ioActions tk = none := by
  have removed : (c.ioActions.removeAll c.toRemove).insertAll c.toInsert tk =
      c.ioActions.removeAll c.toRemove tk := by
    refine IoActions.insertAll_other fun p hp eq => ?_
    rw [← eq, w.inserted p hp] at held
    cases held
  rw [show c.settle.ioActions tk = _ from removed, IoActions.removeAll_eq, if_pos gone]

theorem Doomed.head {io : HeadIo} (h : Doomed ns c) (w : Wired issues [] c)
    (hc : c.head env io = .running c') : Swept ns c' := by
  intro tk s hs reg
  have settled := head_act hc hs
  have hold := Wired.settle_act settled
  rw [(head_client w hc hold).1] at reg
  rcases h tk s hold reg with pushed | ⟨gone, held⟩
  · exact pushed
  · rw [settle_removed w gone held] at settled
    cases settled

theorem Swept.polled {events : List Event} {os : World Token UInt8} (h : Swept ns c)
    (notified : c.os.notifyAll c.sockOf events = some os) : Swept ns { c with os := os } := by
  obtain ⟨⟨-, reg⟩, -⟩ := World.notifyAll_some notified
  intro tk s hs free
  exact h tk s hs ((reg _).symm.trans free)

theorem enrolled_reg {t : Token} {j : Sock} (hk : k < c.os.next)
    (hx : ⟨t, j, .clientStream⟩ ∈ c.enroll k io .clientStream) (hc : c.acceptMain k io = .running c') :
    (c'.os.source j).reg = some (t, ro) := by
  simp only [enroll] at hx
  split at hx
  · rename_i hok
    obtain ⟨ready, accept, registered⟩ := hok
    obtain ⟨rfl, rfl, -⟩ := Issue.mk.inj (List.mem_singleton.mp hx)
    cases acceptMain_cases hc with
    | idle none => exact absurd none (by simp [ready, accept])
    | dropped os _ _ _ refused _ =>
      rw [registered] at refused
      cases refused
    | adopted os _ _ ok _ _ =>
      dsimp only
      rw [World.modify_other _ _ (Nat.ne_of_gt hk), World.modify_same]
      rfl
  · cases hx

-- a client whose own event leaves it unregistered is handed off or removed
theorem clientEvent_doomed {tk : Token} {s : ClientStream} (room : 0 < s.room)
    (reg : (c.os.source s.stream).reg ≠ none)
    (free : ((c.clientEvent tk s io).os.source s.stream).reg = none) :
    s.stream ∈ handedOver (handled (s.read (c.os.read s.stream s.room io.read).1)) ∨
      tk ∈ (c.clientEvent tk s io).toRemove ∧ ((c.clientEvent tk s io).ioActions tk).isSome = true := by
  have hcase := clientEvent_cases c tk room io
  generalize s.read (c.os.read s.stream s.room io.read).1 = r at hcase ⊢
  generalize c.clientEvent tk s io = d at hcase free ⊢
  cases hcase with
  | closed => exact .inr ⟨by simp [drop], by simp [drop]⟩
  | error e => exact .inr ⟨by simp [drop], by simp [drop]⟩
  | «continue» n bytes read some fits more =>
    refine absurd ?_ reg
    simpa [Source.drained] using free
  | done n bytes read some fits full =>
    exact .inl (by simp [handled, handedOver, pushes, request?, ClientStream.rawFd, ClientStream.fill])

theorem Doomed.event (h : Doomed ns c) (custody : Custody ns (ev.token :: pend) c)
    (w : Wired issues (ev.token :: pend) c) (w' : Wired (issues ++ c.issued ev io) pend c')
    (hc : c.event env ev io = .running c') : Doomed (ns ++ c.noted ev io) c' := by
  obtain ⟨a, ha⟩ := Option.isSome_iff_exists.mp (w.held ev.token (by simp))
  have ap := event_apart ha hc
  have hown := w.issue ha
  intro tk s hs free
  have hx := w'.actions tk _ hs
  rw [handedOver_append]
  by_cases ht : tk = ev.token
  · subst ht
    have kind := congrArg Issue.kind (w'.same_token (List.mem_append_left _ hown) hx rfl)
    cases a with
    | clientStream s₀ =>
      have sock : s₀.stream = s.stream :=
        congrArg Issue.sock (w'.same_token (List.mem_append_left _ hown) hx rfl)
      simp only [Loop.event, ha] at hc
      cases hc
      simp only [noted, ha]
      rw [← sock] at free ⊢
      cases (custody.clients _ s₀ (w.act_of ha)).stage with
      | reading reg _ short _ _ _ =>
        rcases clientEvent_doomed (Nat.sub_pos_of_lt short) (by simp [reg]) free with pushed | gone
        · exact .inl (List.mem_append_right _ pushed)
        · exact .inr gone
      | handedOff _ _ hs _ _ _ => exact absurd List.mem_cons_self hs
      | failed _ hs _ => exact absurd List.mem_cons_self hs
    | _ => cases kind
  · rcases List.mem_append.mp hx with hx | hx
    · have below := w.below _ hx
      have other : s.stream ≠ a.sock := fun eq => ht (congrArg Issue.token (w.same_sock hx hown eq))
      have hold := (ap.act tk ht below.1).symm.trans hs
      have source : c'.os.source s.stream = c.os.source s.stream := ap.source _ other below.2
      rw [source] at free
      rcases h tk s hold free with pushed | ⟨gone, held⟩
      · exact .inl (List.mem_append_left _ pushed)
      · refine .inr ⟨(ap.toRemove tk ht).mpr gone, ?_⟩
        rwa [ap.ioActions tk ht below.1]
    · simp only [issued, ha] at hx
      simp only [Loop.event, ha] at hc
      cases a with
      | mainListener k =>
        have reg := enrolled_reg (w.below _ hown).2 hx hc
        rw [show (IoAction.clientStream s).sock = s.stream from rfl, free] at reg
        cases reg
      | outputListener k => cases enroll_kind hx
      | unixListener k => cases enroll_kind hx
      | _ => cases hx

theorem modify_reg {f : Source Token UInt8 → Source Token UInt8} {os : World Token UInt8} (k j : Sock)
    (keeps : ∀ src, (f src).reg = src.reg) : ((os.modify k f).source j).reg = (os.source j).reg := by
  by_cases hj : j = k
  · rw [hj, World.modify_same, keeps]
  · rw [World.modify_other _ _ hj]

theorem Doomed.touch {f : Source Token UInt8 → Source Token UInt8} (h : Doomed ns c)
    (keeps : ∀ src, (f src).reg = src.reg) :
    Doomed (ns ++ new) { c with os := c.os.modify k f } := by
  intro tk s hs free
  rw [modify_reg k _ keeps] at free
  rw [handedOver_append]
  exact (h tk s hs free).imp_left (List.mem_append_left _)

theorem Swept.touch {f : Source Token UInt8 → Source Token UInt8} (h : Swept ns c)
    (keeps : ∀ src, (f src).reg = src.reg) :
    Swept (ns ++ new) { c with os := c.os.modify k f } := by
  intro tk s hs free
  rw [modify_reg k _ keeps] at free
  rw [handedOver_append]
  exact List.mem_append_left _ (h tk s hs free)

def socketAt (keep : ClientStream → Bool) (c : Loop) (tk : Token) : Option Sock :=
  match c.ioActions tk with
  | some (.clientStream s) => if keep s then some s.stream else none
  | _ => none

-- the sockets of the clients that satisfy `keep`
def sockets (keep : ClientStream → Bool) (c : Loop) : List Sock :=
  (List.range c.ioToken).filterMap (c.socketAt keep)

def clientSockets (c : Loop) : List Sock := c.sockets fun _ => true

def readingSockets (c : Loop) : List Sock := c.sockets fun s => decide (s.bytesRead < requestHeaderSize)

theorem socketAt_iff {keep : ClientStream → Bool} {tk : Token} :
    c.socketAt keep tk = some k ↔
      ∃ s, c.ioActions tk = some (.clientStream s) ∧ keep s = true ∧ s.stream = k := by
  constructor
  · intro found
    simp only [socketAt] at found
    split at found
    · rename_i s hs
      obtain ⟨kept, eq⟩ := Option.ite_none_right_eq_some.mp found
      exact ⟨s, hs, kept, Option.some.inj eq⟩
    · cases found
  · rintro ⟨s, hs, kept, rfl⟩
    simp only [socketAt, hs, kept, if_true]

theorem mem_sockets (w : Wired issues pend c) {keep : ClientStream → Bool} :
    k ∈ c.sockets keep ↔ ∃ tk s, c.ioActions tk = some (.clientStream s) ∧ keep s = true ∧ s.stream = k := by
  rw [sockets, List.mem_filterMap]
  constructor
  · rintro ⟨tk, -, found⟩
    exact ⟨tk, socketAt_iff.mp found⟩
  · rintro ⟨tk, s, hs, kept⟩
    exact ⟨tk, List.mem_range.mpr (w.below _ (w.issue hs)).1, socketAt_iff.mpr ⟨s, hs, kept⟩⟩

theorem sockets_nodup (w : Wired issues pend c) (keep : ClientStream → Bool) : (c.sockets keep).Nodup := by
  refine List.Nodup.filterMap (fun tk tk' k hk hk' => ?_) List.nodup_range
  obtain ⟨s, hs, -, rfl⟩ := socketAt_iff.mp hk
  obtain ⟨s', hs', -, eq⟩ := socketAt_iff.mp hk'
  exact congrArg Issue.token (w.same_sock (w.issue hs) (w.issue hs') eq.symm)

end Loop

namespace System

structure Released (ns : List Note) (s : System) : Prop where
  doomed : ∀ c, s.flow = .running c → Loop.Doomed ns c
  swept : s.phase = .polling → ∀ c, s.flow = .running c → Loop.Swept ns c

variable {env : Env}

theorem Released.touch {ns new : List Note} {s : System} (h : Released ns s) {c : Loop}
    (hc : s.flow = .running c) (k : Sock) {f : Source Token UInt8 → Source Token UInt8}
    (keeps : ∀ src, (f src).reg = src.reg) :
    Released (ns ++ new) { s with flow := .running { c with os := c.os.modify k f } } where
  doomed c' hc' := by
    cases hc'
    exact (h.doomed c hc).touch keeps
  swept phase c' hc' := by
    cases hc'
    exact (h.swept phase c hc).touch keeps

theorem Released.step {ns : List Note} {issues : List Issue} {s s' : System} {l : Label}
    (h : Released ns s) (custody : Custody ns s) (w : Wired issues s) (hs : step env s l = some s') :
    Released (ns ++ s.noted l) s' := by
  have w' := w.step hs
  obtain ⟨c, hc, hcase⟩ := step_cases env hs
  have wired := w.wired c hc
  have custody := custody.custody c hc
  cases hcase with
  | boot refused main output unix workers phase below =>
    have hi : s.issued (.boot refused main output unix workers) =
        bootIssues main output unix workers := by simp [issued, hc, phase]
    rw [hi, (w.boot c hc phase).1, List.nil_append] at w'
    refine ⟨fun c' hc' tk s hs => ?_, fun hp => by cases hp⟩
    exact absurd rfl (bootIssues_kind ((w'.wired c' hc').actions tk _ hs)).1
  | head io phase order =>
    have hn : s.noted (.head io) = [] := by simp [noted, hc]
    rw [hn, List.append_nil]
    rw [phase] at wired
    have swept : ∀ c', c.head env io = .running c' → Loop.Swept ns c' :=
      fun c' hc' => (h.doomed c hc).head wired hc'
    exact ⟨fun c' hc' => (swept c' hc').doomed, fun _ => swept⟩
  | poll events os phase notified =>
    have hn : s.noted (.poll events) = [] := by simp [noted, hc]
    rw [hn, List.append_nil]
    refine ⟨fun c' hc' => ?_, fun hp => by cases hp⟩
    cases hc'
    exact ((h.swept phase c hc).polled notified).doomed
  | event io ev batch phase =>
    have hn : s.noted (.event io) = c.noted ev io := by simp [noted, hc, phase]
    have hi : s.issued (.event io) = c.issued ev io := by simp [issued, hc, phase]
    rw [hn]
    rw [phase] at wired custody
    refine ⟨fun c' hc' => ?_, fun hp => by cases hp⟩
    have wired' := w'.wired c' hc'
    rw [hi] at wired'
    exact (h.doomed c hc).event custody wired wired' hc'
  | connect tk act found listens => exact h.touch hc act.sock fun _ => rfl
  | arrive tk act bytes found listens => exact h.touch hc act.sock fun src => src.arrive_reg bytes
  | close tk act found listens => exact h.touch hc act.sock fun _ => rfl

theorem released_run {next : Sock} {ls : List Label} {s : System} {ns : List Note}
    (run : ((machine env next).traced noted).exec ls = some (s, ns)) :
    Released ns s ∧ Custody ns s ∧ ∃ issues, Wired issues s := by
  refine @Machine.invariant _ _ ((machine env next).traced noted)
    (fun p => Released p.2 p.1 ∧ Custody p.2 p.1 ∧ ∃ issues, Wired issues p.1) ?_ (fun p l p' hp hl => ?_) _ _ run
  · refine ⟨⟨fun c hc tk s hs => ?_, fun phase => by cases phase⟩, @custody_init env next, [], @wired_init env next⟩
    cases hc
    cases hs
  · obtain ⟨hs, heq⟩ := Machine.traced_step hl
    obtain ⟨released, custody, issues, wired⟩ := hp
    rw [heq]
    exact ⟨released.step custody wired hs, custody.step wired hs, _, wired.step hs⟩

-- a client is read up to its header, or it has been handed off and is kept from then on
structure Retained (ns : List Note) (c : Loop) : Prop where
  only : ∀ tk s, c.ioActions tk = some (.clientStream s) →
    s.bytesRead < requestHeaderSize ∧ (c.os.source s.rawFd).reg = some (tk, ro) ∧ s.rawFd ∉ handedOver ns ∨
      (s.header, s.rawFd) ∈ pushes ns
  kept : ∀ req ∈ pushes ns, ∃ tk s, c.ioActions tk = some (.clientStream s) ∧ s.rawFd = req.2 ∧ s.header = req.1
  count : c.clientSockets.Perm (c.readingSockets ++ handedOver ns)

theorem retained {next : Sock} {ls : List Label} {s : System} {ns : List Note} {c : Loop}
    (run : ((machine env next).traced noted).exec ls = some (s, ns)) (polling : s.phase = .polling)
    (running : s.flow = .running c) : Retained ns c := by
  obtain ⟨released, hs, issues, wired⟩ := released_run run
  have swept := released.swept polling c running
  have wired := wired.wired c running
  have custody := hs.custody c running
  have only : ∀ tk s, c.ioActions tk = some (.clientStream s) →
      s.bytesRead < requestHeaderSize ∧ (c.os.source s.rawFd).reg = some (tk, ro) ∧ s.rawFd ∉ handedOver ns ∨
        s.bytesRead = requestHeaderSize ∧ (s.header, s.rawFd) ∈ pushes ns := by
    intro tk s ha
    have hact := wired.act_of ha
    cases (custody.clients tk s hact).stage with
    | reading reg _ short _ unpushed _ => exact .inl ⟨short, reg, unpushed⟩
    | handedOff _ full _ _ pushed _ => exact .inr ⟨full, pushed⟩
    | failed reg _ unpushed => exact absurd (swept tk s hact reg) unpushed
  have held := (hands_off run running).held
  refine ⟨fun tk s ha => (only tk s ha).imp_right And.right, fun req hreq => ?_, ?_⟩
  · obtain ⟨tk, s, ha, -, same⟩ := held req hreq
    exact ⟨tk, s, ha, same⟩
  · have apart : c.readingSockets.Disjoint (handedOver ns) := by
      intro k reads pushed
      obtain ⟨tk, s, ha, short, rfl⟩ := (Loop.mem_sockets wired).mp reads
      rcases only tk s ha with ⟨-, -, unpushed⟩ | ⟨full, -⟩
      · exact unpushed pushed
      · exact absurd full (Nat.ne_of_lt (of_decide_eq_true short))
    refine (List.perm_ext_iff_of_nodup (Loop.sockets_nodup wired _)
      (List.Nodup.append (Loop.sockets_nodup wired _) custody.once apart)).mpr fun k => ?_
    rw [Loop.mem_sockets wired, List.mem_append, Loop.mem_sockets wired]
    constructor
    · rintro ⟨tk, s, ha, -, rfl⟩
      rcases only tk s ha with ⟨short, -, -⟩ | ⟨-, pushed⟩
      · exact .inl ⟨tk, s, ha, decide_eq_true short, rfl⟩
      · exact .inr (List.mem_map_of_mem pushed)
    · rintro (⟨tk, s, ha, -, rfl⟩ | pushed)
      · exact ⟨tk, s, ha, rfl, rfl⟩
      · obtain ⟨tk, s, ha, rfl⟩ := custody.held k pushed
        exact ⟨tk, s, ha, rfl, rfl⟩

-- a worker connects, a client sends its header, and the worker's stream takes both
def transmission : List Label :=
  [.boot (fun _ => false) 0 1 2 [(3, 4)], .head (calmHead []), .connect 0, .connect 2,
    .poll [⟨2, true, false⟩, ⟨0, true, false⟩], .event calmEvent, .event calmEvent, .head (calmHead []),
    .arrive 6 [1, 0, 0, 0, 0, 0, 0, 7], .poll [⟨6, true, false⟩], .event calmEvent, .head (calmHead []),
    .poll [⟨5, false, true⟩], .event calmEvent, .head (calmHead [])]

def client (s : System) (tk : Token) : Option (Loop × ClientStream) :=
  match s.flow with
  | .running c =>
    match c.ioActions tk with
    | some (.clientStream cs) => some (c, cs)
    | _ => none
  | .returned _ _ => none

theorem client_some {s : System} {tk : Token} {c : Loop} {cs : ClientStream} (h : s.client tk = some (c, cs)) :
    s.flow = .running c ∧ c.ioActions tk = some (.clientStream cs) := by
  simp only [client] at h
  split at h
  · rename_i c' hc
    split at h
    · rename_i cs' ha
      cases h
      exact ⟨hc, ha⟩
    · cases h
  · cases h

theorem retained_transmission : ∃ s ns c, ((machine fixintEnv 5).traced noted).exec transmission = some (s, ns) ∧
    s.flow = .running c ∧ Retained ns c ∧ handedOver ns = [6] := by
  have hrun : (((machine fixintEnv 5).traced noted).exec transmission).any (fun p =>
      p.1.polls && decide (handedOver p.2 = [6])) = true := by decide +kernel
  obtain ⟨⟨s, ns⟩, run, hp⟩ := (Option.any_eq_true _ _).mp hrun
  obtain ⟨hc, pushed⟩ := Bool.and_eq_true_iff.mp hp
  obtain ⟨c, running, polling⟩ := polls_iff.mp hc
  exact ⟨s, ns, c, run, running, retained run polling running, of_decide_eq_true pushed⟩

-- the header waits to be dispatched, or the descriptor in the queue of a worker's stream
def untransmitted (c : Loop) (fd : Sock) : Bool :=
  (c.newRequests.map Prod.snd).contains fd ||
    c.workerStreams.streams.any fun p => (c.workers p.2).outFds.contains fd

theorem transmitted_client_kept : ¬ ∀ ls s ns c, ((machine fixintEnv 5).traced noted).exec ls = some (s, ns) →
    s.phase = .polling → s.flow = .running c → ∀ tk cs, c.ioActions tk = some (.clientStream cs) →
      cs.bytesRead < requestHeaderSize ∨ untransmitted c cs.rawFd = true := by
  intro released
  have hrun : (((machine fixintEnv 5).traced noted).exec transmission).any (fun p =>
      p.1.polls && (p.1.client 6).any fun q =>
        decide (q.2.bytesRead = requestHeaderSize) && !untransmitted q.1 q.2.rawFd) = true := by
    decide +kernel
  obtain ⟨⟨s, ns⟩, run, hp⟩ := (Option.any_eq_true _ _).mp hrun
  obtain ⟨hc, hq⟩ := Bool.and_eq_true_iff.mp hp
  obtain ⟨⟨c, cs⟩, found, leak⟩ := (Option.any_eq_true _ _).mp hq
  obtain ⟨full, sent⟩ := Bool.and_eq_true_iff.mp leak
  obtain ⟨-, -, polling⟩ := polls_iff.mp hc
  obtain ⟨running, ha⟩ := client_some found
  rcases released _ _ _ c run polling running 6 cs ha with short | kept
  · exact absurd (of_decide_eq_true full) (Nat.ne_of_lt short)
  · rw [kept] at sent
    cases sent

end System
end PyProxy.Master
