import PyProxy.Client.Streams
import PyProxy.Protocol.Fixint
import PyProxy.Stream.Link
import PyProxy.Worker.Daemon
import PyProxy.Worker.Ports

namespace PyProxy.Worker
open Stream Protocol Server Poll

structure Peer where
  main : Client.MainStream
  queued : List CodeString

structure System where
  flow : Flow Error Loop
  peers : Sock → Peer

inductive Label where
  | queue (k : Sock) (msg : CodeString)
  | write (k : Sock) (res : IoResult Nat)
  | master (bytes : List UInt8)
  | pythread (msgType : UInt8) (msg : List UInt8)
  | head (io : HeadIo)
  | event (ev : Event) (read : ReadIo) (fds : Nat) (write : WriteIo)

variable (env : Env)

def Peer.queue (p : Peer) (msg : CodeString) : Peer where
  main := p.main.queueSourceCode env.bc msg.futureId msg.code msg.locals msg.globals
  queued := p.queued ++ [msg]

def System.setPeer (s : System) (k : Sock) (p : Peer) : System :=
  { s with peers := fun j => if j = k then p else s.peers j }

def Loop.arrive (c : Loop) (k : Sock) (bytes : List UInt8) : Loop :=
  { c with os := c.os.modify k (·.arrive bytes) }

def System.step (s : System) (l : Label) : Option System :=
  match s.flow with
  | .returned _ _ => none
  | .running c =>
    match l with
    | .queue k msg => some (s.setPeer k ((s.peers k).queue env msg))
    | .write k res =>
      match res with
      | .error _ => some s
      | .ok n =>
        if n ≤ (s.peers k).main.outbuffer.length ∧ k ≠ c.workerStream.stream then
          match (s.peers k).main.write (.ok n) with
          | .error _ => some s
          | .ok main =>
            some { s.setPeer k { s.peers k with main := main } with
              flow := .running (c.arrive k ((s.peers k).main.outbuffer.take n)) }
        else none
    | .master bytes => some { s with flow := .running (c.arrive c.workerStream.stream bytes) }
    | .pythread msgType msg => some { s with flow := .running (c.pythread msgType msg) }
    | .head io =>
      if io.order.Perm (c.takeStreams env io).clientStreams.keys then
        some { s with flow := c.head env io }
      else none
    | .event ev read fds write =>
      some { s with
        flow := (c.bindFds fds).event env ev ⟨read, List.range' c.os.next fds, write⟩ }

def machine : Machine System Label where
  init := ⟨.running start, fun _ => ⟨.new ro, []⟩⟩
  step := System.step env

def frame (msg : CodeString) : List UInt8 × RequestMessage :=
  (newReq env.bc.codeString .codeString 0 msg, .codeString msg)

def link (c : Loop) (peers : Sock → Peer) (k : Sock) (inbuf : List UInt8)
    (got : List RequestMessage) : Link RequestMessage UInt8 where
  queued := (peers k).queued.map (frame env)
  out := (peers k).main.outbuffer
  wire := c.input k
  inbuf := inbuf
  got := got

def Loop.sentBy (c : Loop) (tk : Token) : List Sent := c.threadSender.filter fun q => q.token = tk

abbrev sound (c : Loop) (peers : Sock → Peer) (k : Sock) (inbuf : List UInt8)
    (got : List RequestMessage) : Prop :=
  Link.Sound (ClientStream.framer env.bc) (link env c peers k inbuf got)

structure Inv (held : List Sock) (c : Loop) (peers : Sock → Peer) : Prop where
  tokens : ∀ tk p, c.port tk = some p → tk < c.tokenIo
  unix : c.workerStream.stream < c.os.next ∧ c.workerStream.stream ∉ held ++ c.workerStream.sockets
  sockets : (held ++ c.workerStream.sockets).Nodup ∧
    ∀ k ∈ held ++ c.workerStream.sockets, k < c.os.next
  ports : ∀ tk p, c.port tk = some p → p.stream < c.os.next ∧
    p.stream ≠ c.workerStream.stream ∧ p.stream ∉ held ++ c.workerStream.sockets
  streams : ∀ tk p tk' p', c.port tk = some p → c.port tk' = some p' → p.stream = p'.stream → tk = tk'
  sent : ∀ q ∈ c.threadSender, ∃ p, c.port q.token = some p ∧ q.sessionId = p.sessionId
  links : ∀ tk p, c.port tk = some p →
    sound env c peers p.stream p.inbuffer ((c.sentBy tk).map Sent.msg ++ p.reqMsgs)
  idle : ∀ k, k ≠ c.workerStream.stream → (∀ tk p, c.port tk = some p → p.stream ≠ k) →
    sound env c peers k [] []

namespace Inv

variable {env} {held : List Sock} {c c' : Loop} {peers peers' : Sock → Peer}

theorem relink (h : Inv env held c peers) (f : Loop.Frame c c')
    (step : ∀ k, k ≠ c.workerStream.stream → ∀ inbuf got,
      Link.Step (ClientStream.framer env.bc) (link env c peers k inbuf got)
        (link env c' peers' k inbuf got)) : Inv env held c' peers' where
  tokens tk p hp := by
    rw [f.port] at hp
    rw [f.tokenIo]
    exact h.tokens tk p hp
  unix := by
    rw [f.unix, f.sockets, f.next]
    exact h.unix
  sockets := by
    rw [f.sockets, f.next]
    exact h.sockets
  ports tk p hp := by
    rw [f.port] at hp
    rw [f.next, f.unix, f.sockets]
    exact h.ports tk p hp
  streams tk p tk' p' hp hp' := by
    rw [f.port] at hp hp'
    exact h.streams tk p tk' p' hp hp'
  sent q hq := by
    rw [f.sent] at hq
    rw [f.port]
    exact h.sent q hq
  links tk p hp := by
    rw [f.port] at hp
    have hs := (h.links tk p hp).step (step p.stream (h.ports tk p hp).2.1 _ _)
    rw [Loop.sentBy, f.sent]
    exact hs
  idle k hk hn := by
    rw [f.unix] at hk
    exact (h.idle k hk fun tk p hp => hn tk p (by rw [f.port, hp])).step (step k hk _ _)

theorem same (h : Inv env held c peers) (s : Loop.Same c c') : Inv env held c' peers := by
  refine h.relink s.frame fun k _ inbuf got => ?_
  have hl : link env c' peers k inbuf got = link env c peers k inbuf got := by
    simp [link, s.input]
  rw [hl]
  exact .idle _

theorem weaken {k : Sock} (h : Inv env (k :: held) c peers) : Inv env held c peers where
  tokens := h.tokens
  unix := ⟨h.unix.1, fun hm => h.unix.2 (List.mem_cons_of_mem _ hm)⟩
  sockets := ⟨(List.nodup_cons.mp h.sockets.1).2, fun j hj => h.sockets.2 j (List.mem_cons_of_mem _ hj)⟩
  ports tk p hp :=
    have ⟨hn, hu, hs⟩ := h.ports tk p hp
    ⟨hn, hu, fun hm => hs (List.mem_cons_of_mem _ hm)⟩
  streams := h.streams
  sent := h.sent
  links := h.links
  idle := h.idle

theorem skipToken (h : Inv env held c peers) :
    Inv env held { c with tokenIo := c.tokenIo + 1 } peers where
  tokens tk p hp := Nat.lt_succ_of_lt (h.tokens tk p hp)
  unix := h.unix
  sockets := h.sockets
  ports := h.ports
  streams := h.streams
  sent := h.sent
  links := h.links
  idle := h.idle

theorem sentBy_fresh (h : Inv env held c peers) : c.sentBy c.tokenIo = [] := by
  rw [Loop.sentBy, List.filter_eq_nil_iff]
  intro q hq
  obtain ⟨p, hp, -⟩ := h.sent q hq
  have hlt : q.token < c.tokenIo := h.tokens _ p hp
  simp only [decide_eq_true_eq]
  exact Nat.ne_of_lt hlt

theorem addStream {k : Sock} {cs : ClientStream} {ts : String}
    (h : Inv env (k :: held) c peers) (hcs : cs.port = ⟨k, [], cs.sessionId, []⟩) :
    Inv env held (c.addStream env ts cs (c.os.modify k (·.attach c.tokenIo ro))) peers := by
  have hk : k ∈ (k :: held) ++ c.workerStream.sockets := by simp
  have hnew : ∀ tk p, c.port tk = some p → p.stream ≠ k :=
    fun tk p hp he => (h.ports tk p hp).2.2 (he ▸ hk)
  have hunix : k ≠ c.workerStream.stream := fun he => h.unix.2 (he ▸ hk)
  have hport : ∀ tk, (c.addStream env ts cs (c.os.modify k (·.attach c.tokenIo ro))).port tk =
      if tk = c.tokenIo then some ⟨k, [], cs.sessionId, []⟩ else c.port tk := by
    intro tk
    rw [← hcs]
    exact portOf_insert _ _ _ _
  have hlink : ∀ k' inbuf got, link env (c.addStream env ts cs
      (c.os.modify k (·.attach c.tokenIo ro))) peers k' inbuf got = link env c peers k' inbuf got := by
    intro k' inbuf got
    have hin := World.modify_input c.os k (fun s => s.attach_input c.tokenIo ro) k'
    simp [link, Loop.addStream, Loop.input, hin]
  have w := h.weaken
  have hfresh := h.sentBy_fresh
  have old : ∀ {tk p}, c.port tk = some p → tk ≠ c.tokenIo :=
    fun hp => Nat.ne_of_lt (h.tokens _ _ hp)
  have split : ∀ {tk p}, (c.addStream env ts cs (c.os.modify k (·.attach c.tokenIo ro))).port tk =
      some p → (tk = c.tokenIo ∧ p = ⟨k, [], cs.sessionId, []⟩) ∨ (tk ≠ c.tokenIo ∧ c.port tk = some p) := by
    intro tk p hp
    rw [hport] at hp
    split at hp
    · rename_i ht
      exact .inl ⟨ht, (Option.some.inj hp).symm⟩
    · rename_i ht
      exact .inr ⟨ht, hp⟩
  refine ⟨?_, w.unix, w.sockets, ?_, ?_, ?_, ?_, ?_⟩
  · intro tk p hp
    rcases split hp with ⟨rfl, -⟩ | ⟨-, hp⟩
    · exact Nat.lt_succ_self _
    · exact Nat.lt_succ_of_lt (h.tokens tk p hp)
  · intro tk p hp
    rcases split hp with ⟨-, rfl⟩ | ⟨-, hp⟩
    · exact ⟨h.sockets.2 k hk, hunix, (List.nodup_cons.mp h.sockets.1).1⟩
    · exact w.ports tk p hp
  · intro tk p tk' p' hp hp' he
    rcases split hp with ⟨rfl, rfl⟩ | ⟨-, hp⟩
    · rcases split hp' with ⟨rfl, -⟩ | ⟨-, hp'⟩
      · rfl
      · exact absurd he.symm (hnew _ _ hp')
    · rcases split hp' with ⟨-, rfl⟩ | ⟨-, hp'⟩
      · exact absurd he (hnew _ _ hp)
      · exact h.streams tk p tk' p' hp hp' he
  · intro q hq
    obtain ⟨p, hp, hid⟩ := h.sent q hq
    exact ⟨p, by rw [hport, if_neg (old hp), hp], hid⟩
  · intro tk p hp
    rw [sound, hlink]
    rcases split hp with ⟨rfl, rfl⟩ | ⟨-, hp⟩
    · have hnil : (c.addStream env ts cs (c.os.modify k (·.attach c.tokenIo ro))).sentBy c.tokenIo = [] :=
        hfresh
      rw [hnil]
      exact h.idle k hunix hnew
    · exact h.links tk p hp
  · intro k' hk' hn
    rw [sound, hlink]
    apply h.idle k' hk'
    intro tk p hp
    exact hn tk p (by rw [hport, if_neg (old hp), hp])

theorem takeStream {msg : Vector UInt8 requestHeaderSize × Sock} (io : HeadIo)
    (h : Inv env (msg.2 :: held) c peers) : Inv env held (c.takeStream env io msg) peers := by
  rcases c.takeStream_cases env io msg with he | he | ⟨cs, hcs, -, -, -, he⟩
  · rw [he]
    exact h.weaken
  · rw [he]
    exact h.weaken.skipToken
  · rw [he]
    exact h.addStream hcs

theorem takeStreams (io : HeadIo) (h : Inv env [] c peers) :
    Inv env [] (c.takeStreams env io) peers := by
  have fold : ∀ (msgs : List (Vector UInt8 requestHeaderSize × Sock)) (c : Loop),
      Inv env (msgs.map Prod.snd) c peers → Inv env [] (msgs.foldl (Loop.takeStream env io) c) peers := by
    intro msgs
    induction msgs with
    | nil => exact fun c h => h
    | cons msg msgs ih => exact fun c h => ih _ (h.takeStream io)
  apply fold
  exact ⟨h.tokens, h.unix, h.sockets, h.ports, h.streams, h.sent, h.links, h.idle⟩

theorem updatePort {d : Loop} {tk : Token} {p₀ p₁ : Port} (h : Inv env held c peers)
    (hp₀ : c.port tk = some p₀) (next : d.os.next = c.os.next)
    (unix : d.workerStream.stream = c.workerStream.stream)
    (sockets : d.workerStream.sockets = c.workerStream.sockets) (tokenIo : d.tokenIo = c.tokenIo)
    (port : ∀ tk', d.port tk' = if tk' = tk then some p₁ else c.port tk')
    (stream : p₁.stream = p₀.stream) (id : p₁.sessionId = p₀.sessionId)
    (sent : ∀ q ∈ d.threadSender, q ∈ c.threadSender ∨ (q.token = tk ∧ q.sessionId = p₀.sessionId))
    (sentBy : ∀ tk', tk' ≠ tk → d.sentBy tk' = c.sentBy tk')
    (input : ∀ k, k ≠ p₀.stream → d.input k = c.input k)
    (link : sound env d peers p₀.stream p₁.inbuffer ((d.sentBy tk).map Sent.msg ++ p₁.reqMsgs)) :
    Inv env held d peers := by
  have hlink : ∀ k inbuf got, k ≠ p₀.stream →
      Worker.link env d peers k inbuf got = Worker.link env c peers k inbuf got := by
    intro k inbuf got hk
    simp [Worker.link, input k hk]
  have split : ∀ {tk' p}, d.port tk' = some p →
      ∃ p', c.port tk' = some p' ∧ p.stream = p'.stream ∧ p.sessionId = p'.sessionId ∧
        (tk' = tk ∧ p = p₁ ∨ tk' ≠ tk ∧ p = p') := by
    intro tk' p hp
    rw [port] at hp
    split at hp
    · rename_i ht
      obtain rfl := Option.some.inj hp
      exact ⟨p₀, ht ▸ hp₀, stream, id, .inl ⟨ht, rfl⟩⟩
    · rename_i ht
      exact ⟨p, hp, rfl, rfl, .inr ⟨ht, rfl⟩⟩
  have lift : ∀ {tk' p'}, c.port tk' = some p' →
      ∃ p, d.port tk' = some p ∧ p.stream = p'.stream ∧ p.sessionId = p'.sessionId := by
    intro tk' p' hp'
    by_cases ht : tk' = tk
    · subst ht
      obtain rfl := Option.some.inj (hp₀.symm.trans hp')
      exact ⟨p₁, by rw [port, if_pos rfl], stream, id⟩
    · exact ⟨p', by rw [port, if_neg ht, hp'], rfl, rfl⟩
  refine ⟨?_, ?_, ?_, ?_, ?_, ?_, ?_, ?_⟩
  · intro tk' p hp
    obtain ⟨p', hp', -⟩ := split hp
    rw [tokenIo]
    exact h.tokens tk' p' hp'
  · rw [unix, next, sockets]
    exact h.unix
  · rw [next, sockets]
    exact h.sockets
  · intro tk' p hp
    obtain ⟨p', hp', hs, -⟩ := split hp
    rw [next, unix, sockets, hs]
    exact h.ports tk' p' hp'
  · intro tk' p tk'' q hp hq he
    obtain ⟨p', hp', hs, -⟩ := split hp
    obtain ⟨q', hq', ht, -⟩ := split hq
    exact h.streams tk' p' tk'' q' hp' hq' (by rw [← hs, ← ht, he])
  · intro q hq
    rcases sent q hq with hq | ⟨ht, hid⟩
    · obtain ⟨p', hp', hid⟩ := h.sent q hq
      obtain ⟨p, hp, -, hpid⟩ := lift hp'
      exact ⟨p, hp, by rw [hid, hpid]⟩
    · exact ⟨p₁, by rw [port, if_pos ht], by rw [hid, id]⟩
  · intro tk' p hp
    obtain ⟨p', hp', hs, -, ⟨rfl, rfl⟩ | ⟨ht, rfl⟩⟩ := split hp
    · rw [stream]
      exact link
    · rw [sound, sentBy tk' ht, hlink _ _ _ fun he => ht (h.streams _ _ _ _ hp' hp₀ he)]
      exact h.links tk' p hp'
  · intro k hk hn
    rw [unix] at hk
    have hn' : ∀ tk' p', c.port tk' = some p' → p'.stream ≠ k := by
      intro tk' p' hp' he
      obtain ⟨p, hp, hs, -⟩ := lift hp'
      exact hn tk' p hp (hs.trans he)
    rw [sound, hlink _ _ _ fun he => hn' tk p₀ hp₀ he.symm]
    exact h.idle k hk hn'

theorem forward (io : HeadIo) (tk : Token) (h : Inv env held c peers) :
    Inv env held (c.forward env io tk) peers := by
  cases hl : c.clientStreams.lookup tk with
  | none =>
    rw [c.forward_none env io hl]
    exact h
  | some cs =>
    refine Inv.same ?_ (c.forward_some env io hl)
    have hp : c.port tk = some cs.port := by simp [Loop.port, portOf, hl]
    have hsent : (c.forwarded tk cs).sentBy tk =
        c.sentBy tk ++ cs.reqMsgs.map fun msg => ⟨tk, cs.sessionId, msg⟩ := by
      simp [Loop.sentBy, Loop.forwarded, List.filter_map, Function.comp_def]
    refine h.updatePort hp rfl rfl rfl rfl (portOf_insert _ _ · _) rfl rfl ?_ ?_ (fun _ _ => rfl) ?_
    · intro q hq
      rcases List.mem_append.mp hq with hq | hq
      · exact .inl hq
      · obtain ⟨msg, -, rfl⟩ := List.mem_map.mp hq
        exact .inr ⟨rfl, rfl⟩
    · intro tk' ht
      simp [Loop.sentBy, Loop.forwarded, List.filter_map, Function.comp_def, Ne.symm ht]
    · have hlink : sound env (c.forwarded tk cs) peers cs.stream cs.inbuffer
          ((c.sentBy tk).map Sent.msg ++ cs.reqMsgs) := h.links tk _ hp
      rw [hsent]
      simpa [Function.comp_def, ClientStream.port] using hlink

theorem received {tk : Token} {cs : ClientStream} (n : Nat) (h : Inv env held c peers)
    (hl : c.clientStreams.lookup tk = some cs) : Inv env held (c.received env tk cs n) peers := by
  have hp : c.port tk = some cs.port := by simp [Loop.port, portOf, hl]
  refine h.updatePort hp rfl rfl rfl rfl (portOf_insert _ _ · _) rfl rfl (fun _ => .inl)
    (fun _ _ => rfl) ?_ ?_
  · intro k hk
    exact congrArg Source.input
      (World.modify_other c.os (fun s => { s with input := s.input.drop n }) hk)
  · have hlink := (h.links tk _ hp).step (.read _ n)
    have hin : (c.received env tk cs n).input cs.stream = (c.input cs.stream).drop n := by
      simp [Loop.received, Loop.input]
    simp only [sound, link, ClientStream.port] at hlink ⊢
    rw [hin, ← List.append_assoc]
    exact hlink

theorem near {fds : List Sock} (n : Loop.Near fds c c') (h : Inv env [] c peers)
    (nodup : (c.workerStream.sockets ++ fds).Nodup)
    (fresh : ∀ k ∈ fds, k < c.os.next ∧ k ≠ c.workerStream.stream ∧
      ∀ tk p, c.port tk = some p → p.stream ≠ k) : Inv env [] c' peers := by
  have hlink : ∀ k inbuf got, k ≠ c.workerStream.stream →
      link env c' peers k inbuf got = link env c peers k inbuf got := by
    intro k inbuf got hk
    simp [link, n.input k hk]
  have mem : ∀ k ∈ c'.workerStream.sockets, k ∈ c.workerStream.sockets ∨ k ∈ fds := by
    intro k hk
    rcases n.sockets with he | he
    · exact .inl (he ▸ hk)
    · exact List.mem_append.mp (he ▸ hk)
  refine ⟨?_, ?_, ?_, ?_, ?_, ?_, ?_, ?_⟩
  · intro tk p hp
    rw [n.port] at hp
    rw [n.tokenIo]
    exact h.tokens tk p hp
  · rw [n.unix, n.next]
    refine ⟨h.unix.1, fun hm => ?_⟩
    rcases mem _ hm with hm | hm
    · exact h.unix.2 hm
    · exact (fresh _ hm).2.1 rfl
  · rw [n.next]
    constructor
    · rcases n.sockets with he | he
      · rw [he]
        exact h.sockets.1
      · rw [he]
        exact nodup
    · intro k hk
      rcases mem k hk with hm | hm
      · exact h.sockets.2 k hm
      · exact (fresh k hm).1
  · intro tk p hp
    rw [n.port] at hp
    obtain ⟨hn, hu, hs⟩ := h.ports tk p hp
    rw [n.next, n.unix]
    refine ⟨hn, hu, fun hm => ?_⟩
    rcases mem _ hm with hm | hm
    · exact hs hm
    · exact (fresh _ hm).2.2 tk p hp rfl
  · intro tk p tk' p' hp hp' he
    rw [n.port] at hp hp'
    exact h.streams tk p tk' p' hp hp' he
  · intro q hq
    rw [n.sent] at hq
    rw [n.port]
    exact h.sent q hq
  · intro tk p hp
    rw [n.port] at hp
    rw [sound, Loop.sentBy, n.sent, hlink _ _ _ (h.ports tk p hp).2.1]
    exact h.links tk p hp
  · intro k hk hn
    rw [n.unix] at hk
    rw [sound, hlink _ _ _ hk]
    exact h.idle k hk fun tk p hp => hn tk p (by rw [n.port, hp])

theorem bindFds (h : Inv env [] c peers) (n : Nat) : Inv env [] (c.bindFds n) peers where
  tokens := h.tokens
  unix := ⟨Nat.lt_add_right n h.unix.1, h.unix.2⟩
  sockets := ⟨h.sockets.1, fun k hk => Nat.lt_add_right n (h.sockets.2 k hk)⟩
  ports tk p hp :=
    have ⟨hn, hr⟩ := h.ports tk p hp
    ⟨Nat.lt_add_right n hn, hr⟩
  streams := h.streams
  sent := h.sent
  links := h.links
  idle := h.idle

theorem event (h : Inv env [] c peers) (ev : Event) (read : ReadIo) (fds : Nat) (write : WriteIo) :
    Inv env [] ((c.bindFds fds).event env ev ⟨read, List.range' c.os.next fds, write⟩).state peers := by
  have hb := h.bindFds fds
  have nodup : ((c.bindFds fds).workerStream.sockets ++ List.range' c.os.next fds).Nodup := by
    refine List.nodup_append.mpr ⟨h.sockets.1, List.nodup_range', ?_⟩
    intro k hk k' hk' he
    have hle := (List.mem_range'_1.mp hk').1
    exact absurd (he ▸ h.sockets.2 k hk) (Nat.not_lt.mpr hle)
  have fresh : ∀ k ∈ List.range' c.os.next fds, k < (c.bindFds fds).os.next ∧
      k ≠ (c.bindFds fds).workerStream.stream ∧
        ∀ tk p, (c.bindFds fds).port tk = some p → p.stream ≠ k := by
    intro k hk
    obtain ⟨hle, hlt⟩ := List.mem_range'_1.mp hk
    refine ⟨hlt, ?_, ?_⟩
    · intro he
      exact absurd h.unix.1 (Nat.not_lt.mpr (he ▸ hle))
    · intro tk p hp he
      exact absurd (he ▸ (h.ports tk p hp).1) (Nat.not_lt.mpr hle)
  generalize c.bindFds fds = d at hb nodup fresh ⊢
  simp only [Loop.event]
  split
  · have hr := hb.near (d.workerRead_near ev ⟨read, List.range' c.os.next fds, write⟩) nodup fresh
    generalize d.workerRead ev ⟨read, List.range' c.os.next fds, write⟩ = r at hr ⊢
    obtain ⟨res, d⟩ := r
    cases res with
    | error e => exact hr
    | ok =>
      have hw := hr.same (d.workerWrite_same ev ⟨read, List.range' c.os.next fds, write⟩)
      dsimp only
      generalize d.workerWrite ev ⟨read, List.range' c.os.next fds, write⟩ = r at hw ⊢
      obtain ⟨res, d⟩ := r
      cases res <;> exact hw
  · cases hl : d.clientStreams.lookup ev.token with
    | none => exact hb
    | some cs =>
      obtain ⟨hl', hs⟩ := d.clientRead_spec env ⟨read, List.range' c.os.next fds, write⟩ hl
      have hr : Inv env [] (d.clientRead env ev cs ⟨read, List.range' c.os.next fds, write⟩).1 peers := by
        rcases hs with hs | ⟨n, hs⟩
        · exact hb.same hs
        · exact (hb.received n hl).same hs
      exact hr.same (Loop.clientWrite_same _ hl')

theorem head (h : Inv env [] c peers) (io : HeadIo) : Inv env [] (c.head env io).state peers := by
  have ht := h.takeStreams io
  simp only [Loop.head]
  cases hu : (c.takeStreams env io).updateInterest io.wsRefused with
  | error e => exact ht
  | ok d =>
    have hd := ht.same (Loop.same_updateInterest hu)
    have fold : ∀ (order : List Token) (d : Loop), Inv env [] d peers →
        Inv env [] (order.foldl (Loop.forward env io) d) peers := by
      intro order
      induction order with
      | nil => exact fun d h => h
      | cons tk order ih => exact fun d h => ih _ (h.forward io tk)
    have hf := fold io.order d hd
    dsimp only
    cases io.poll <;> exact hf

theorem queue {k : Sock} {msg : CodeString} (h : Inv env held c peers)
    (encodes : (ClientStream.framer env.bc).Encodes (frame env msg).1 (frame env msg).2) :
    Inv env held c fun j => if j = k then (peers k).queue env msg else peers j := by
  refine h.relink (Loop.Same.refl c).frame fun j _ inbuf got => ?_
  by_cases hj : j = k
  · subst hj
    have hstep := Link.Step.queue (link env c peers j inbuf got) (frame env msg) encodes
    simpa [link, Peer.queue, Client.MainStream.queueSourceCode, frame] using hstep
  · have hl : link env c (fun j => if j = k then (peers k).queue env msg else peers j) j inbuf got =
        link env c peers j inbuf got := by simp [link, hj]
    rw [hl]
    exact .idle _

theorem arrive_frame (c : Loop) (k : Sock) (bytes : List UInt8) : Loop.Frame c (c.arrive k bytes) :=
  ⟨rfl, rfl, rfl, rfl, fun _ => rfl, rfl⟩

theorem arrive_other (c : Loop) {j k : Sock} (bytes : List UInt8) (h : j ≠ k) :
    (c.arrive k bytes).input j = c.input j :=
  congrArg Source.input (World.modify_other c.os (·.arrive bytes) h)

theorem arrive_same (c : Loop) (k : Sock) (bytes : List UInt8) :
    (c.arrive k bytes).input k = c.input k ++ bytes := by
  simp [Loop.arrive, Loop.input]

theorem write {k : Sock} {main : Client.MainStream} {n : Nat} (h : Inv env held c peers)
    (hw : (peers k).main.write (.ok n) = .ok main) :
    Inv env held (c.arrive k ((peers k).main.outbuffer.take n))
      fun j => if j = k then { peers k with main := main } else peers j := by
  refine h.relink (arrive_frame c k _) fun j _ inbuf got => ?_
  by_cases hj : j = k
  · subst hj
    simp only [Client.MainStream.write, compact_eq_drop] at hw
    obtain rfl := Except.ok.inj hw
    have hstep := @Link.Step.write _ _ _ (ClientStream.framer env.bc) (link env c peers j inbuf got) n
    simpa [link, arrive_same] using hstep
  · have hl : link env (c.arrive k ((peers k).main.outbuffer.take n))
        (fun j => if j = k then { peers k with main := main } else peers j) j inbuf got =
          link env c peers j inbuf got := by simp [link, hj, arrive_other c _ hj]
    rw [hl]
    exact .idle _

theorem master (h : Inv env held c peers) (bytes : List UInt8) :
    Inv env held (c.arrive c.workerStream.stream bytes) peers := by
  refine h.relink (arrive_frame c _ _) fun j hj inbuf got => ?_
  have hl : link env (c.arrive c.workerStream.stream bytes) peers j inbuf got =
      link env c peers j inbuf got := by simp [link, arrive_other c _ hj]
  rw [hl]
  exact .idle _

theorem pythread (h : Inv env held c peers) (t : UInt8) (msg : List UInt8) :
    Inv env held (c.pythread t msg) peers :=
  h.same ⟨fun _ => rfl, rfl, rfl, rfl, rfl, fun _ => rfl, rfl⟩

theorem start : Inv env [] start fun _ => ⟨.new ro, []⟩ where
  tokens tk p hp := by simp [Worker.start, Loop.port, portOf] at hp
  unix := ⟨by decide, by simp [Worker.start, WorkerStream.new, WorkerStream.sockets]⟩
  sockets := by simp [Worker.start, WorkerStream.new, WorkerStream.sockets]
  ports tk p hp := by simp [Worker.start, Loop.port, portOf] at hp
  streams tk p _ _ hp := by simp [Worker.start, Loop.port, portOf] at hp
  sent q hq := by simp [Worker.start] at hq
  links tk p hp := by simp [Worker.start, Loop.port, portOf] at hp
  idle k hk _ := by
    have hin : Worker.start.input k = [] :=
      World.modify_input booted unixStream (fun s => s.attach_input workerStreamTk ro) k
    simp only [sound, link, hin]
    exact Link.sound_empty _

end Inv

def Label.Small : Label → Prop
  | .queue _ msg => (env.bc.codeString.serialize msg).length < 2 ^ 32
  | _ => True

theorem frame_encodes {env : Env} (roundTrips : env.bc.codeString.RoundTrips) {msg : CodeString}
    (small : (env.bc.codeString.serialize msg).length < 2 ^ 32) :
    (ClientStream.framer env.bc).Encodes (frame env msg).1 (frame env msg).2 := by
  apply newReq_encodes _ _ _ _ _ small
  simp [readReq, RequestMessageHeader.new, bincodeErr, roundTrips msg small, Except.map, frame]

theorem System.step_inv {env : Env} (roundTrips : env.bc.codeString.RoundTrips) {s s' : System}
    {l : Label} (h : Inv env [] s.flow.state s.peers) (small : l.Small env)
    (hs : s.step env l = some s') : Inv env [] s'.flow.state s'.peers := by
  obtain ⟨flow, peers⟩ := s
  cases flow with
  | returned => simp [step] at hs
  | running c =>
    cases l with
    | queue k msg =>
      obtain rfl := Option.some.inj hs
      exact h.queue (frame_encodes roundTrips small)
    | write k res =>
      cases res with
      | error e =>
        obtain rfl := Option.some.inj hs
        exact h
      | ok n =>
        obtain ⟨-, hs⟩ := Option.ite_none_right_eq_some.mp hs
        obtain rfl := Option.some.inj hs
        exact h.write rfl
    | master bytes =>
      obtain rfl := Option.some.inj hs
      exact h.master bytes
    | pythread t msg =>
      obtain rfl := Option.some.inj hs
      exact h.pythread t msg
    | head io =>
      obtain ⟨-, hs⟩ := Option.ite_none_right_eq_some.mp hs
      obtain rfl := Option.some.inj hs
      exact h.head io
    | event ev read fds write =>
      obtain rfl := Option.some.inj hs
      exact h.event ev read fds write

def Port.clear (p : Port) : Port := { p with reqMsgs := [] }

theorem Loop.forward_port (io : HeadIo) (c : Loop) (tk tk' : Token) :
    (c.forward env io tk).port tk' =
      if tk' = tk then (c.port tk').map Port.clear else c.port tk' := by
  cases hl : c.clientStreams.lookup tk with
  | none =>
    rw [c.forward_none env io hl]
    split
    · rename_i ht
      subst ht
      simp [port, portOf, hl]
    · rfl
  | some cs =>
    rw [(c.forward_some env io hl).port]
    simp only [forwarded, port, portOf_insert]
    split
    · rename_i ht
      subst ht
      simp [portOf, hl, ClientStream.port, Port.clear]
    · rfl

theorem Loop.forwards_port (io : HeadIo) (order : List Token) (c : Loop) (tk : Token) :
    (order.foldl (Loop.forward env io) c).port tk =
      if tk ∈ order then (c.port tk).map Port.clear else c.port tk := by
  induction order generalizing c with
  | nil => simp
  | cons tk' order ih =>
    rw [List.foldl_cons, ih, Loop.forward_port]
    have again : Port.clear ∘ Port.clear = Port.clear := rfl
    by_cases hm : tk ∈ order <;> by_cases ht : tk = tk' <;>
      simp [hm, ht, again]

theorem Loop.port_mem {c : Loop} {tk : Token} {p : Port} (h : c.port tk = some p) :
    tk ∈ c.clientStreams.keys := by
  have hs : (c.clientStreams.lookup tk).isSome = true := by
    cases hl : c.clientStreams.lookup tk with
    | none => simp [port, portOf, hl] at h
    | some cs => rfl
  exact AList.lookup_isSome.mp hs

theorem Loop.head_drained {c c' : Loop} {io : HeadIo} {tk : Token} {p : Port}
    (order : io.order.Perm (c.takeStreams env io).clientStreams.keys)
    (h : c.head env io = .running c') (hp : c'.port tk = some p) : p.reqMsgs = [] := by
  obtain ⟨d, hu, rfl⟩ := head_turns h
  rw [forwards_port] at hp
  split at hp
  · obtain ⟨p', -, rfl⟩ := Option.map_eq_some_iff.mp hp
    rfl
  · rename_i hn
    rw [(same_updateInterest hu).port] at hp
    exact absurd (order.mem_iff.mpr (port_mem hp)) hn

theorem Inv.sentBy_pairs {env : Env} {c : Loop} {peers : Sock → Peer} {tk : Token} {p : Port}
    (h : Inv env [] c peers) (hp : c.port tk = some p) :
    (c.sentBy tk).map (fun q => (q.sessionId, q.msg)) =
      ((c.sentBy tk).map Sent.msg).map (Prod.mk p.sessionId) := by
  rw [List.map_map]
  apply List.map_congr_left
  intro q hq
  obtain ⟨hq, ht⟩ := List.mem_filter.mp hq
  obtain ⟨p', hp', hid⟩ := h.sent q hq
  rw [of_decide_eq_true ht, hp] at hp'
  obtain rfl := Option.some.inj hp'
  simp [hid]

theorem Inv.sentBy_session {env : Env} {c : Loop} {peers : Sock → Peer} {tk : Token} {p : Port}
    (h : Inv env [] c peers) (hp : c.port tk = some p)
    (own : ∀ tk' p', c.port tk' = some p' → p'.sessionId = p.sessionId → tk' = tk) :
    (c.threadSender.filter fun q => q.sessionId = p.sessionId) = c.sentBy tk := by
  apply List.filter_congr
  intro q hq
  obtain ⟨p', hp', hid⟩ := h.sent q hq
  rw [decide_eq_decide, hid]
  constructor
  · exact own _ _ hp'
  · intro ht
    rw [ht, hp] at hp'
    rw [Option.some.inj hp']

theorem Loop.port_lookup {c : Loop} {tk : Token} {cs : ClientStream}
    (h : c.clientStreams.lookup tk = some cs) : c.port tk = some cs.port := by
  simp [port, portOf, h]

theorem Loop.lookup_port {c : Loop} {tk : Token} {p : Port} (h : c.port tk = some p) :
    ∃ cs, c.clientStreams.lookup tk = some cs ∧ cs.port = p := Option.map_eq_some_iff.mp h

def Loop.pairsOf (c : Loop) (tk : Token) : List (String × RequestMessage) :=
  (c.sentBy tk).map fun q => (q.sessionId, q.msg)

def Peer.pairs (p : Peer) (sessionId : String) : List (String × RequestMessage) :=
  p.queued.map fun msg => (sessionId, .codeString msg)

theorem requests_delivered {env : Env} (roundTrips : env.bc.codeString.RoundTrips)
    {ls : List Label} {s : System} (small : ∀ l ∈ ls, l.Small env)
    (run : (machine env).exec ls = some s) :
    (∀ q ∈ s.flow.state.threadSender,
        ∃ cs, s.flow.state.clientStreams.lookup q.token = some cs) ∧
      (∀ tk cs tk' cs', s.flow.state.clientStreams.lookup tk = some cs →
        s.flow.state.clientStreams.lookup tk' = some cs' → cs.stream = cs'.stream → tk = tk') ∧
      (∀ tk cs, s.flow.state.clientStreams.lookup tk = some cs →
        s.flow.state.pairsOf tk <+: (s.peers cs.stream).pairs cs.sessionId) ∧
      (∀ tk cs, s.flow.state.clientStreams.lookup tk = some cs →
        (∀ tk' cs', s.flow.state.clientStreams.lookup tk' = some cs' →
          cs'.sessionId = cs.sessionId → tk' = tk) →
        (s.flow.state.threadSender.filter fun q => q.sessionId = cs.sessionId) =
          s.flow.state.sentBy tk) ∧
      ∀ io c, (machine env).step s (.head io) = some ⟨.running c, s.peers⟩ →
        ∀ tk cs, c.clientStreams.lookup tk = some cs →
          (s.peers cs.stream).main.outbuffer = [] → c.input cs.stream = [] →
            c.pairsOf tk = (s.peers cs.stream).pairs cs.sessionId := by
  have inv : Inv env [] s.flow.state s.peers := by
    refine @Machine.invariant_along _ _ (machine env) (fun s => Inv env [] s.flow.state s.peers)
      (fun _ l => l.Small env) Inv.start ?_ _ _ run ?_
    · exact fun s l s' h small hs => System.step_inv roundTrips h small hs
    · rintro pre l post s rfl -
      exact small l (by simp)
  refine ⟨?_, ?_, ?_, ?_, ?_⟩
  · intro q hq
    obtain ⟨p, hp, -⟩ := inv.sent q hq
    obtain ⟨cs, hl, -⟩ := Loop.lookup_port hp
    exact ⟨cs, hl⟩
  · intro tk cs tk' cs' hl hl' he
    exact inv.streams _ _ _ _ (Loop.port_lookup hl) (Loop.port_lookup hl') he
  · intro tk cs hl
    have hp := Loop.port_lookup hl
    have hpre := (inv.links tk _ hp).got_initial
    have hmap : ((s.peers cs.stream).queued.map (frame env)).map Prod.snd =
        (s.peers cs.stream).queued.map RequestMessage.codeString := by simp [frame]
    simp only [link, ClientStream.port] at hpre
    rw [hmap] at hpre
    have hpairs := ((List.prefix_append _ _).trans hpre).map (Prod.mk cs.sessionId)
    rw [Loop.pairsOf, inv.sentBy_pairs hp]
    simpa [Peer.pairs, ClientStream.port, Function.comp_def] using hpairs
  · intro tk cs hl own
    apply inv.sentBy_session (Loop.port_lookup hl)
    intro tk' p' hp' hid
    obtain ⟨cs', hl', rfl⟩ := Loop.lookup_port hp'
    exact own tk' cs' hl' hid
  · intro io c hstep tk cs hl hout hin
    have hp := Loop.port_lookup hl
    have inv' : Inv env [] c s.peers :=
      @System.step_inv _ roundTrips s _ (.head io) inv trivial hstep
    obtain ⟨flow, peers⟩ := s
    cases flow with
    | returned => cases hstep
    | running c₀ =>
      obtain ⟨horder, hs⟩ := Option.ite_none_right_eq_some.mp hstep
      have hhead : c₀.head env io = .running c := (System.mk.inj (Option.some.inj hs)).1
      have hempty := Loop.head_drained env horder hhead hp
      have hall := (inv'.links tk _ hp).got_all hin hout
      simp only [link, hempty, List.append_nil] at hall
      rw [Loop.pairsOf, inv'.sentBy_pairs hp, hall]
      simp [frame, Peer.pairs, ClientStream.port, Function.comp_def]

def loopback : Env where
  bc := fixint
  mc := fixintMessages
  hex := lowerHex
  cfg := ⟨"127.0.0.1:8081"⟩

def helloBytes : List UInt8 := (RequestMessageHeader.new .hello 0 0).intoBuf.toList

def loopbackHead (order : List Token) : HeadIo where
  rng _ := Vector.replicate _ 7
  registerRefused _ := false
  newStreamTs _ := ""
  wsRefused := false
  order := order
  queueTs _ := ""
  refused _ := false
  poll := .ok ()

def loopbackMsg : CodeString := ⟨"a", "x", [], [1]⟩

def sessionsHead (order : List Token) : HeadIo :=
  { loopbackHead order with rng := fun tk => Vector.replicate _ (.ofNat tk) }

def readUnix : Label := .event ⟨0, true, false⟩ ⟨8, false⟩ 1 ⟨none, false⟩

def readClient (tk : Token) (n : Nat) : Label := .event ⟨tk, true, false⟩ ⟨n, false⟩ 0 ⟨none, false⟩

def msgB : CodeString := ⟨"b", "y", [], [2]⟩

-- two clients at a time, whose messages come in pieces and across each other
def twoSessions : List Label :=
  [.queue 1 loopbackMsg, .queue 2 msgB, .master (helloBytes ++ helloBytes), readUnix, readUnix,
    .head (sessionsHead [2, 1]), .write 2 (.ok 30), .write 1 (.ok 43), readClient 1 40, .queue 1 msgB,
    .write 1 (.ok 10), readClient 1 13, readClient 2 4096, .head (sessionsHead [1, 2]), .queue 2 loopbackMsg,
    .write 2 (.ok 56), .write 1 (.ok 33), readClient 1 4096, readClient 2 4096]

theorem requests_delivered_loopback :
    ∃ s c, (machine loopback).exec twoSessions = some s ∧
      (machine loopback).step s (.head (sessionsHead [1, 2])) = some ⟨.running c, s.peers⟩ ∧
      c.pairsOf 1 = [loopbackMsg, msgB].map (fun m => ("01010101010101010101010101010101", .codeString m)) ∧
      c.pairsOf 2 = [msgB, loopbackMsg].map fun m => ("02020202020202020202020202020202", .codeString m) := by
  have run : (machine loopback).exec twoSessions = some ⟨.running _, _⟩ := rfl
  have small : ∀ l ∈ twoSessions, l.Small loopback := by
    simp only [twoSessions, readUnix, readClient, List.forall_mem_cons, Label.Small, true_and]
    exact ⟨by decide, by decide, by decide, by decide, List.forall_mem_nil _⟩
  obtain ⟨-, -, -, -, drained⟩ := requests_delivered fixint_codeString_roundTrips small run
  exact ⟨_, _, run, rfl, drained (sessionsHead [1, 2]) _ rfl 1 _ rfl rfl rfl,
    drained (sessionsHead [1, 2]) _ rfl 2 _ rfl rfl rfl⟩

end PyProxy.Worker
