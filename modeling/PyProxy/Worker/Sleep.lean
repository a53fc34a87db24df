import PyProxy.Worker.Interest
import PyProxy.Worker.Sessions
import PyProxy.Worker.Talk

namespace PyProxy.Worker
open Stream Protocol Server Poll Channel

namespace Loop

section

variable (env : Env)

-- one of the connections that wait is taken on
def opens (io : HeadIo) (os : World Token UInt8) :
    Token → List (Vector UInt8 requestHeaderSize × Sock) → Bool
  | _, [] => false
  | tk, msg :: msgs =>
    match ClientStream.new env.bc env.hex env.cfg msg.1 msg.2 ro (io.rng tk) with
    | .error _ => opens io os tk msgs
    | .ok _ => !(io.registerRefused tk || (os.source msg.2).reg.isSome) || opens io os (tk + 1) msgs

-- a request of the client stream waits for the python thread
def waits (c : Loop) (tk : Token) : Bool :=
  (c.clientStreams.lookup tk).any fun cs => !cs.reqMsgs.isEmpty

def idle (c : Loop) : Bool := !c.clientStreams.keys.any c.waits

def settled (c : Loop) (io : HeadIo) : Bool :=
  c.workerStream.hasData || opens env io c.os c.tokenIo c.workerStream.newMsgs || c.idle ||
    (io.wsRefused && c.wsInterest.writable)

end

def Watched (c : Loop) : Prop := c.workerStream.hasData = true →
  c.wsInterest.writable = true ∧
    (c.os.source c.workerStream.stream).reg = some (workerStreamTk, c.wsInterest)

variable {env : Env} {c c' : Loop} {ns : List Notice} {io : HeadIo} {tk : Token}

theorem info_hasData (s : WorkerStream) (msg ts : String) (tags : List (String × LogValue)) :
    (s.info env.mc msg tags ts).hasData = true := by
  simp [WorkerStream.info, WorkerStream.log, WorkerStream.newMsg, WorkerStream.hasData]

theorem takes_hasData (msgs : List (Vector UInt8 requestHeaderSize × Sock)) :
    (msgs.foldl (takeStream env io) c).workerStream.hasData =
      (c.workerStream.hasData || opens env io c.os c.tokenIo msgs) := by
  induction msgs generalizing c with
  | nil => exact (Bool.or_false _).symm
  | cons msg msgs ih =>
    rw [List.foldl_cons, ih]
    simp only [opens, takeStream]
    cases hn : ClientStream.new env.bc env.hex env.cfg msg.1 msg.2 ro (io.rng c.tokenIo) with
    | error e => rfl
    | ok cs =>
      obtain ⟨stream, -⟩ := ClientStream.new_fields _ hn
      dsimp only
      rw [stream, World.register]
      cases io.registerRefused c.tokenIo || (c.os.source msg.2).reg.isSome with
      | true => rfl
      | false => simp [addStream, info_hasData]

theorem takeStreams_hasData (c : Loop) (io : HeadIo) : (c.takeStreams env io).workerStream.hasData =
    (c.workerStream.hasData || opens env io c.os c.tokenIo c.workerStream.newMsgs) :=
  @takes_hasData env { c with workerStream := { c.workerStream with newMsgs := [] } } io c.workerStream.newMsgs

theorem sendMsgs_hasData (sessionId : String) (ts : Nat → String) (msgs : List RequestMessage) :
    (msgs.foldl (sendMsg env tk sessionId ts) c).workerStream.hasData =
      (c.workerStream.hasData || !msgs.isEmpty) := by
  induction msgs generalizing c with
  | nil => exact (Bool.or_false _).symm
  | cons msg msgs ih =>
    rw [List.foldl_cons, ih]
    simp [sendMsg, info_hasData]

theorem forward_hasData (c : Loop) (io : HeadIo) (tk : Token) :
    (c.forward env io tk).workerStream.hasData =
      (c.workerStream.hasData || c.waits tk) := by
  cases hl : c.clientStreams.lookup tk with
  | none => simp [c.forward_none env io hl, waits, hl]
  | some cs =>
    have sent := @sendMsgs_hasData env c tk cs.sessionId io.queueTs cs.reqMsgs
    simp only [forward, waits, hl, Option.any_some]
    generalize cs.reqMsgs.foldl (sendMsg env tk cs.sessionId io.queueTs) c = d at sent ⊢
    split
    · rw [setStreamInterest_outbuffer, sent]
    · split
      · rw [setStreamInterest_outbuffer, sent]
      · exact sent

theorem waits_port (c : Loop) (tk : Token) : c.waits tk = (c.port tk).any fun p => !p.reqMsgs.isEmpty := by
  simp only [waits, port, portOf, Option.any_map]
  rfl

theorem waits_congr (h : ∀ tk, c'.port tk = c.port tk) : c'.waits = c.waits := by
  funext tk
  rw [waits_port, waits_port, h]

theorem waits_mem (h : c.waits tk = true) : tk ∈ c.clientStreams.keys := by
  cases hl : c.clientStreams.lookup tk with
  | none => simp [waits, hl] at h
  | some cs => exact port_mem (port_lookup hl)

theorem idle_congr (h : c'.waits = c.waits) : c'.idle = c.idle := by
  have any : ∀ d : Loop, d.clientStreams.keys.any d.waits = true ↔ ∃ tk, d.waits tk = true := by
    intro d
    rw [List.any_eq_true]
    exact ⟨fun ⟨tk, _, hw⟩ => ⟨tk, hw⟩, fun ⟨tk, hw⟩ => ⟨tk, waits_mem hw, hw⟩⟩
  have same : c'.clientStreams.keys.any c'.waits = true ↔ c.clientStreams.keys.any c.waits = true := by
    rw [any, any, h]
  rw [idle, idle, Bool.eq_iff_iff.mpr same]

def Fresh (c : Loop) : Prop := ∀ tk p, c.port tk = some p → tk < c.tokenIo

theorem takeStream_waits (fresh : c.Fresh) (msg : Vector UInt8 requestHeaderSize × Sock) :
    (c.takeStream env io msg).Fresh ∧ (c.takeStream env io msg).waits = c.waits := by
  rcases c.takeStream_cases env io msg with he | he | ⟨cs, hport, -, -, -, he⟩
  · rw [he]
    exact ⟨fresh, rfl⟩
  · rw [he]
    exact ⟨fun tk p hp => Nat.lt_succ_of_lt (fresh tk p hp), rfl⟩
  · have next : (c.takeStream env io msg).tokenIo = c.tokenIo + 1 := by
      rw [he]
      rfl
    have port : ∀ tk, (c.takeStream env io msg).port tk =
        if tk = c.tokenIo then some ⟨msg.2, [], cs.sessionId, []⟩ else c.port tk := by
      intro tk
      rw [he, Loop.port, addStream, portOf_insert, hport]
      rfl
    constructor
    · intro tk p hp
      rw [next]
      rw [port] at hp
      split at hp
      · rename_i ht
        exact ht ▸ Nat.lt_succ_self _
      · exact Nat.lt_succ_of_lt (fresh tk p hp)
    · funext tk
      rw [waits_port, waits_port, port]
      split
      · rename_i ht
        cases hp : c.port tk with
        | none => rfl
        | some p => exact absurd (fresh tk p hp) (Nat.not_lt.mpr (Nat.le_of_eq ht.symm))
      · rfl

theorem takeStreams_waits (fresh : c.Fresh) (io : HeadIo) : (c.takeStreams env io).waits = c.waits := by
  have fold : ∀ (msgs : List (Vector UInt8 requestHeaderSize × Sock)) {d : Loop}, d.Fresh →
      (msgs.foldl (takeStream env io) d).waits = d.waits := by
    intro msgs
    induction msgs with
    | nil => exact fun _ => rfl
    | cons msg msgs ih =>
      intro d fresh
      obtain ⟨fresh', same⟩ := @takeStream_waits env d io fresh msg
      exact (ih fresh').trans same
  exact fold c.workerStream.newMsgs fresh

theorem forward_waits (c : Loop) (io : HeadIo) (tk : Token) (sent : c.waits tk = false) :
    (c.forward env io tk).waits = c.waits := by
  funext t
  rw [waits_port, forward_port]
  split
  · rename_i ht
    rw [ht, sent, Option.any_map]
    cases c.port tk <;> rfl
  · rw [waits_port]

theorem forwards_hasData (order : List Token) : (order.foldl (forward env io) c).workerStream.hasData =
    (c.workerStream.hasData || order.any c.waits) := by
  induction order generalizing c with
  | nil => exact (Bool.or_false _).symm
  | cons tk order ih =>
    rw [List.foldl_cons, ih, forward_hasData, List.any_cons, Bool.or_assoc]
    cases hw : c.waits tk with
    | true => rfl
    | false => rw [forward_waits c io tk hw]

theorem updateInterest_hasData (h : c.Listening) {refused : Bool} (hu : c.updateInterest refused = .ok c') :
    c'.wsInterest.writable = c.workerStream.hasData := by
  simp only [updateInterest] at hu
  split at hu
  · rename_i up
    split at hu <;> cases hu
    exact up.2.symm
  · rename_i up
    split at hu
    · rename_i down
      split at hu <;> cases hu
      exact down.2.symm
    · rename_i down
      cases hu
      rcases h.interest with i | i
      · cases hd : c.workerStream.hasData with
        | true => exact absurd ⟨i, hd⟩ up
        | false => rw [i, ro]
      · cases hd : c.workerStream.hasData with
        | true => rw [i, rw]
        | false => exact absurd ⟨by rw [i, rw], hd⟩ down

theorem updateInterest_refused (h : c.Listening) (data : c.workerStream.hasData = false) {refused : Bool} :
    (∃ d, c.updateInterest refused = .ok d) ↔ (refused && c.wsInterest.writable) = false := by
  cases refused with
  | false =>
    obtain ⟨d, hd, -⟩ := h.anchored.updateInterest
    exact iff_of_true ⟨d, hd⟩ rfl
  | true =>
    simp only [updateInterest, data, Bool.false_eq_true, and_false, if_false, and_true, World.reregister,
      Bool.true_or, if_true, fatalIoErr, registered, Bool.true_and]
    cases c.wsInterest.writable <;> simp

theorem Listening.watched_iff (h : c.Listening) :
    c.Watched ↔ (c.workerStream.hasData = true → c.wsInterest.writable = true) :=
  forall_congr' fun _ => and_iff_left h.registered

-- the interest of the turn was taken before its requests were logged
theorem atPoll_spec {p : Loop} (h : c.Listening) (fresh : c.Fresh)
    (order : io.order.Perm (c.takeStreams env io).clientStreams.keys) (hp : c.atPoll env io = .ok p) :
    p.Listening ∧ p.wsInterest.writable = (c.takeStreams env io).workerStream.hasData ∧
      p.workerStream.hasData = ((c.takeStreams env io).workerStream.hasData || !c.idle) := by
  obtain ⟨d, hu, rfl⟩ := atPoll_ok.mp hp
  have taken := @Listening.takeStreams env c h io
  have tuned := taken.updateInterest hu
  obtain ⟨-, same⟩ := SameUnix.forwards tuned.anchored io io.order
  refine ⟨tuned.forwards io io.order, ?_, ?_⟩
  · rw [same.interest, updateInterest_hasData taken hu]
  · have waits : d.waits = (c.takeStreams env io).waits := waits_congr (same_updateInterest hu).port
    rw [forwards_hasData, updateInterest_outbuffer hu, waits, order.any_eq, ← idle_congr (takeStreams_waits fresh io),
      idle, Bool.not_not]

theorem watched_iff (h : c.Listening) (fresh : c.Fresh)
    (order : io.order.Perm (c.takeStreams env io).clientStreams.keys) :
    (∀ p, c.atPoll env io = .ok p → p.Watched) ↔ c.settled env io = true := by
  have taken := @Listening.takeStreams env c h io
  have interest := (@SameUnix.takeStreams env c h.anchored io).interest
  have watched : ∀ p, c.atPoll env io = .ok p →
      (p.Watched ↔ ((c.takeStreams env io).workerStream.hasData || c.idle) = true) := by
    intro p hp
    obtain ⟨listening, writable, data⟩ := atPoll_spec h fresh order hp
    rw [listening.watched_iff, writable, data]
    cases (c.takeStreams env io).workerStream.hasData <;> cases c.idle <;> decide
  rw [settled, ← takeStreams_hasData, Bool.or_eq_true]
  constructor
  · intro all
    by_contra neither
    obtain ⟨loud, granted⟩ := not_or.mp neither
    obtain ⟨data, -⟩ := Bool.or_eq_false_iff.mp (Bool.eq_false_iff.mpr loud)
    obtain ⟨d, hu⟩ := (updateInterest_refused taken data).mpr (by rw [interest]; exact Bool.eq_false_iff.mpr granted)
    exact loud ((watched _ (atPoll_ok.mpr ⟨d, hu, rfl⟩)).mp (all _ (atPoll_ok.mpr ⟨d, hu, rfl⟩)))
  · rintro (quiet | refused) p hp
    · exact (watched p hp).mpr quiet
    · rw [watched p hp]
      cases data : (c.takeStreams env io).workerStream.hasData with
      | true => rfl
      | false =>
        obtain ⟨d, hu, -⟩ := atPoll_ok.mp hp
        have granted := (updateInterest_refused taken data).mp ⟨d, hu⟩
        rw [interest, refused] at granted
        cases granted

end Loop

namespace Daemon

variable {env : Env}

def Watched (env : Env) (s : Daemon) (l : Label) : Prop :=
  match s.flow, l with
  | .running c, .head io => ∀ p, c.atPoll env io = .ok p → p.Watched
  | _, _ => True

def settled (env : Env) (s : Daemon) (l : Label) : Bool :=
  match s.flow, l with
  | .running c, .head io => c.settled env io
  | _, _ => true

theorem fresh_run {ls : List Label} {s : Daemon} {c : Loop} (run : (machine env).exec ls = some s)
    (running : s.flow = .running c) : c.Fresh := by
  obtain ⟨ds, traced⟩ := @Machine.traced_exec _ _ _ _ (drawn env) _ _ run
  have sessions := sessions_run traced c running
  intro tk p hp
  obtain ⟨rnd, drew, -⟩ := sessions.streams tk p hp
  exact sessions.below _ drew

theorem watched_iff {ls : List Label} {s s' : Daemon} {l : Label} (run : (machine env).exec ls = some s)
    (hs : step env s l = some s') : Watched env s l ↔ settled env s l = true := by
  obtain ⟨c, hc, hcase⟩ := step_cases hs
  cases hcase with
  | head io phase order =>
    simp only [Watched, settled, hc]
    exact Loop.watched_iff (listening_run run c hc) (fresh_run run hc) order
  | _ => simp [Watched, settled, hc]

theorem logs_watched_iff {ls : List Label} {s : Daemon} (run : (machine env).exec ls = some s) :
    (machine env).Along (fun s l => Watched env s l ↔ settled env s l = true) ls ∧
      ((machine env).Along (Watched env) ls ↔
        (machine env).Along (fun s l => settled env s l = true) ls) := by
  have steps := Machine.along_of_steps run fun _ _ _ _ hs hl => watched_iff hs hl
  exact ⟨steps, Machine.along_congr steps⟩

def greeting : List Label :=
  [.head (loopbackHead []), .master helloBytes, .poll [⟨0, true, false⟩],
    .event ⟨8, false⟩ 1 ⟨none, false⟩, .head (loopbackHead [1])]

def requesting : List Label :=
  [.arrive 1 (frame loopback loopbackMsg).1, .poll [⟨1, true, false⟩],
    .event ⟨4096, false⟩ 0 ⟨none, false⟩]

-- the request comes while the record of its client is still to be written
def hurried : List Label := greeting ++ requesting ++ [.head (loopbackHead [1])]

theorem logs_watched_hurried : (machine loopback).Along (Watched loopback) hurried := by
  have hrun : ((machine loopback).exec hurried).isSome = true := by decide +kernel
  obtain ⟨s, run⟩ := Option.isSome_iff_exists.mp hrun
  have settled := @Machine.along_of_checks _ _ (machine loopback) (settled loopback) hurried (by decide +kernel)
  exact (logs_watched_iff run).2.mpr settled

-- the request comes when the record of its client has been written
def calm : List Label :=
  greeting ++ [.poll [⟨0, false, true⟩], .event ⟨0, false⟩ 0 ⟨some 4096, false⟩, .head (loopbackHead [1])] ++
    requesting

def asleep (s : Daemon) : Bool :=
  match s.flow with
  | .running c =>
    match c.atPoll loopback (loopbackHead [1]) with
    | .ok p => p.workerStream.hasData && !p.wsInterest.writable
    | .error _ => false
  | .returned _ _ => false

theorem asleep_unwatched {s : Daemon} (h : s.asleep = true) :
    ¬ Watched loopback s (.head (loopbackHead [1])) := by
  simp only [asleep] at h
  split at h
  · rename_i c running
    split at h
    · rename_i p polls
      obtain ⟨data, deaf⟩ := Bool.and_eq_true_iff.mp h
      simp only [Watched, running]
      intro watched
      rw [(watched p polls data).1] at deaf
      cases deaf
    · cases h
  · cases h

theorem request_log_unwatched : ¬ ∀ ls, (∀ msgType msg, Label.pythread msgType msg ∉ ls) →
    (machine loopback).Along (Watched loopback) ls := by
  intro h
  have hrun : ((machine loopback).exec calm).any asleep = true := by decide +kernel
  obtain ⟨s, run, unsent⟩ := (Option.any_eq_true _ _).mp hrun
  have watched := h (calm ++ [.head (loopbackHead [1])]) (by simp [calm, greeting, requesting])
  exact asleep_unwatched unsent (watched calm _ [] s rfl run)

end Daemon
end PyProxy.Worker
