import PyProxy.Session.Pool

namespace PyProxy.Session
open Stream Protocol Server Poll
open Master.Note (pushes handedOver bytesOf)

namespace Pool

-- the connection behind a descriptor of a worker: the worker numbers them as they come in
def Link.conn (link : Link) (fd : Sock) : Option Sock := link.passed[fd - 1]?

def connOf (s : Pool) (k : Sock) (tk : Token) : Option Sock :=
  match (s.workers k).flow with
  | .running w => (w.streamOf tk).bind (Link.conn (s.links k))
  | .returned _ _ => none

variable {menv : Master.Env} {wenv : Worker.Env} {s : Pool} {hs : List Handover} {k k' : Sock} {next : Sock}
  {given : List Master.Request} {done : List (Vector UInt8 requestHeaderSize × Sock)} {link : Link}

theorem connOf_some {tk : Token} {conn : Sock} : s.connOf k tk = some conn ↔
    ∃ w fd, (s.workers k).flow = .running w ∧ w.streamOf tk = some fd ∧ Link.conn (s.links k) fd = some conn := by
  rw [connOf]
  cases (s.workers k).flow with
  | running w => simp [Option.bind_eq_some_iff]
  | returned w res => simp

theorem getElem?_of_prefix {α : Type} {l l' : List α} (h : l <+: l') {i : Nat} {a : α} (ha : l[i]? = some a) :
    l'[i]? = some a := by
  obtain ⟨within, eq⟩ := List.getElem?_eq_some_iff.mp ha
  rw [List.prefix_iff_getElem?.mp h i within, eq]

theorem mem_givenTo {req : Master.Request} : req ∈ givenTo k hs ↔ (some k, req) ∈ placed hs := by
  simp [givenTo]

theorem InTurn.taken (h : InTurn given done link) (passed : link.passed <+: given.map Prod.snd) {i : Nat}
    {msg : Vector UInt8 requestHeaderSize × Sock} (taken : done[i]? = some msg) :
    ∃ conn, msg.2 = i + 1 ∧ Link.conn link msg.2 = some conn ∧ given[i]? = some (msg.1, conn) := by
  have within : i < done.length := (List.getElem?_eq_some_iff.mp taken).1
  have number : msg.2 = i + 1 := by
    have numbered := congrArg (fun l : List Sock => l[i]?) h.numbers
    rw [List.getElem?_map, taken, List.getElem?_range' within] at numbered
    have eq : msg.2 = 1 + 1 * i := Option.some.inj numbered
    rw [eq, Nat.one_mul, Nat.add_comm]
  have header : (given.map Prod.fst)[i]? = some msg.1 :=
    getElem?_of_prefix h.headers (by rw [List.getElem?_map, taken]; rfl)
  have room : i < link.passed.length := Nat.lt_of_lt_of_le within h.bound
  have behind : link.passed[i]? = some link.passed[i] := List.getElem?_eq_getElem room
  have conn : (given.map Prod.snd)[i]? = some link.passed[i] := getElem?_of_prefix passed behind
  refine ⟨link.passed[i], number, ?_, ?_⟩
  · rw [Link.conn, number, Nat.add_sub_cancel, behind]
  · rw [List.getElem?_map, Option.map_eq_some_iff] at header conn
    obtain ⟨req, found, fst⟩ := header
    obtain ⟨req', found', snd⟩ := conn
    cases found.symm.trans found'
    rw [found, ← fst, ← snd]

theorem InTurn.beginning (h : InTurn given done link) (passed : link.passed <+: given.map Prod.snd) :
    (done.map fun msg => (msg.1, Link.conn link msg.2)) <+: given.map fun req => (req.1, some req.2) := by
  refine List.prefix_iff_getElem?.mpr fun i hi => ?_
  rw [List.length_map] at hi
  obtain ⟨conn, -, behind, found⟩ := h.taken passed (List.getElem?_eq_getElem hi)
  rw [List.getElem?_map, found, List.getElem_map, behind]
  rfl

namespace Accounted

theorem passed (h : Accounted menv next s hs) (k : Sock) : (s.links k).passed <+: (givenTo k hs).map Prod.snd := by
  obtain ⟨rest, -, paired⟩ := h.paired k
  exact ⟨_, paired.passed⟩

theorem placed_once (h : Accounted menv next s hs) : ((Session.placed hs).map fun p => p.2.2).Nodup := by
  have once : ((pushes (heard hs)).map Prod.snd).Nodup := h.once
  have sub := (h.placed.map Prod.snd).sublist.nodup once
  rwa [List.map_map] at sub

theorem given_once (h : Accounted menv next s hs) (k : Sock) : ((givenTo k hs).map Prod.snd).Nodup := by
  rw [givenTo, List.map_map]
  exact (List.filter_sublist.map _).nodup h.placed_once

theorem one_worker (h : Accounted menv next s hs) {req req' : Master.Request} (hr : req ∈ givenTo k hs)
    (hr' : req' ∈ givenTo k' hs) (same : req.2 = req'.2) : k = k' := by
  have eq := List.inj_on_of_nodup_map h.placed_once (mem_givenTo.mp hr) (mem_givenTo.mp hr') same
  exact Option.some.inj (congrArg Prod.fst eq)

theorem behind (h : Accounted menv next s hs) {fd conn : Sock} (behind : Link.conn (s.links k) fd = some conn) :
    ((givenTo k hs).map Prod.snd)[fd - 1]? = some conn := getElem?_of_prefix (h.passed k) behind

theorem numbered (h : Accounted menv next s hs) {w : Worker.Loop} (hw : (s.workers k).flow = .running w) {tk : Token}
    {fd : Sock} (own : w.streamOf tk = some fd) : ∃ header conn, (header, fd) ∈ servedBy k hs ∧
      Worker.Loop.Opens header ∧ 0 < fd ∧ Link.conn (s.links k) fd = some conn ∧ (header, conn) ∈ givenTo k hs := by
  obtain ⟨header, mem, opens⟩ := h.streams k w hw tk fd own
  obtain ⟨i, taken⟩ := List.mem_iff_getElem?.mp mem
  obtain ⟨rest, -, paired⟩ := h.paired k
  obtain ⟨conn, number, behind, found⟩ := paired.served.taken (h.passed k) taken
  have pos : 0 < fd := Nat.lt_of_lt_of_eq (Nat.succ_pos i) number.symm
  exact ⟨header, conn, mem, opens, pos, behind, List.mem_of_getElem? found⟩

theorem one_descriptor (h : Accounted menv next s hs) {fd fd' conn : Sock} (pos : 0 < fd) (pos' : 0 < fd')
    (behind : Link.conn (s.links k) fd = some conn) (behind' : Link.conn (s.links k') fd' = some conn) :
    k = k' ∧ fd = fd' := by
  have at_fd := h.behind behind
  have at_fd' := h.behind behind'
  obtain ⟨req, found, rfl⟩ := List.mem_map.mp (List.mem_of_getElem? at_fd)
  obtain ⟨req', found', same⟩ := List.mem_map.mp (List.mem_of_getElem? at_fd')
  obtain rfl := h.one_worker found found' same.symm
  have within := (List.getElem?_eq_some_iff.mp at_fd).1
  have place : fd - 1 = fd' - 1 := (List.getElem?_inj within (h.given_once k)).mp (at_fd.trans at_fd'.symm)
  exact ⟨rfl, Nat.pred_inj pos pos' place⟩

theorem one_token (h : Accounted menv next s hs) {tk tk' : Token} {conn : Sock} (serves : s.connOf k tk = some conn)
    (serves' : s.connOf k' tk' = some conn) : k = k' ∧ tk = tk' := by
  obtain ⟨w, fd, hw, own, behind⟩ := connOf_some.mp serves
  obtain ⟨w', fd', hw', own', behind'⟩ := connOf_some.mp serves'
  obtain ⟨-, -, -, -, pos, -⟩ := h.numbered hw own
  obtain ⟨-, -, -, -, pos', -⟩ := h.numbered hw' own'
  obtain ⟨rfl, rfl⟩ := h.one_descriptor pos pos' behind behind'
  cases hw.symm.trans hw'
  exact ⟨rfl, ((h.settled k).settled w hw).housed.distinct tk tk' fd own own'⟩

end Accounted

-- a stream of a worker is one connection of the master, which has sent the hello it was taken on with
structure Homed (s : Pool) (hs : List Handover) (k : Sock) (fd conn : Sock)
    (header : Vector UInt8 requestHeaderSize) : Prop where
  behind : Link.conn (s.links k) fd = some conn
  taken : (header, fd) ∈ servedBy k hs
  placed : (some k, header, conn) ∈ placed hs
  hello : Worker.Loop.Opens header
  sent : header.toList <+: bytesOf conn (heard hs)

theorem one_home (inOrder : menv.fdQueue.InOrder) {ls : List Label}
    (lossless : (machine menv wenv next).Along (Lossless menv) ls)
    (run : ((machine menv wenv next).traced (handovers menv)).exec ls = some (s, hs)) :
    (∀ k w tk fd, (s.workers k).flow = .running w → w.streamOf tk = some fd →
      ∃ conn header, Homed s hs k fd conn header) ∧
      ∀ k k' tk tk' conn, s.connOf k tk = some conn → s.connOf k' tk' = some conn → k = k' ∧ tk = tk' := by
  have kept := accounted_run inOrder lossless run
  refine ⟨fun k w tk fd hw own => ?_, fun k k' tk tk' conn serves serves' => kept.one_token serves serves'⟩
  obtain ⟨header, conn, taken, hello, -, behind, found⟩ := kept.numbered hw own
  have mem := mem_givenTo.mp found
  exact ⟨conn, header, behind, taken, mem, hello,
    kept.headers _ (kept.placed.subset (List.mem_map_of_mem mem))⟩

def acceptHello : Master.EventIo :=
  { Master.System.calmEvent with accept := ⟨false, Worker.helloBytes, false⟩ }

def introduction : List Label :=
  [.master (.boot (fun _ => false) 0 1 2 [(3, 4)]), .master (.head (Master.System.calmHead [])),
    .master (.connect 2), .master (.poll [⟨2, true, false⟩]), .master (.event Master.System.calmEvent),
    .master (.head (Master.System.calmHead [])), .master (.connect 0), .master (.poll [⟨0, true, false⟩]),
    .master (.event acceptHello), .master (.head (Master.System.calmHead [])), .master (.poll [⟨6, true, false⟩]),
    .master (.event Master.System.calmEvent), .worker 5 (.head (Worker.loopbackHead [])),
    .master (.head (Master.System.calmHead [])), .master (.poll [⟨5, false, true⟩]),
    .master (.event Master.System.calmEvent), .worker 5 (.master Worker.helloBytes),
    .worker 5 (.poll [⟨0, true, false⟩]), .worker 5 (.event ⟨8, false⟩ 1 ⟨none, false⟩),
    .worker 5 (.head (Worker.loopbackHead [1]))]

theorem introduction_lossless : (machine Master.System.fixintEnv Worker.loopback 5).Along
    (Lossless Master.System.fixintEnv) introduction :=
  Machine.along_of_decide (by decide +kernel)

theorem one_home_introduction : ∃ s hs,
    ((machine Master.System.fixintEnv Worker.loopback 5).traced (handovers Master.System.fixintEnv)).exec introduction =
      some (s, hs) ∧ s.connOf 5 1 = some 6 ∧ (∃ fd header, Homed s hs 5 fd 6 header) ∧
        ∀ k tk, s.connOf k tk = some 6 → k = 5 ∧ tk = 1 := by
  have hrun : (((machine Master.System.fixintEnv Worker.loopback 5).traced
      (handovers Master.System.fixintEnv)).exec introduction).any (fun p => p.1.connOf 5 1 = some 6) = true := by
    decide +kernel
  obtain ⟨⟨s, hs⟩, run, serves⟩ := (Option.any_eq_true _ _).mp hrun
  have serves : s.connOf 5 1 = some 6 := of_decide_eq_true serves
  obtain ⟨homed, once⟩ := one_home (FdQueue.draining_inOrder 2) introduction_lossless run
  obtain ⟨w, fd, hw, own, behind⟩ := connOf_some.mp serves
  obtain ⟨conn, header, home⟩ := homed 5 w 1 fd hw own
  obtain rfl : conn = 6 := Option.some.inj (home.behind.symm.trans behind)
  exact ⟨s, hs, run, serves, ⟨fd, header, home⟩, fun k tk other => once k 5 tk 1 6 other serves⟩

structure InTransit (link : Link) (o : Master.Outlet) (i : Worker.Intake) (given : List Master.Request)
    (taken : List (Vector UInt8 requestHeaderSize × Sock)) : Prop where
  order : taken.map (fun msg => (msg.1, Link.conn link msg.2)) =
    (given.take taken.length).map fun req => (req.1, some req.2)
  bytes : i.inbuffer ++ (i.input ++ (link.sent ++ o.outbuffer)) =
    (given.drop taken.length).flatMap (·.1.toList)

-- where the requests of the clients are: no request is lost on the way, and none is twice; one that finds the queue
-- of its worker full is placed nowhere
structure Conserved (s : Pool) (hs : List Handover) (c : Master.Loop) : Prop where
  queue : (placed hs).map Prod.snd ++ c.newRequests = pushes (heard hs)
  once : (handedOver (heard hs)).Nodup
  passed : ∀ k, (s.links k).passed ++ (c.workers k).outFds = (givenTo k hs).map Prod.snd
  workers : ∀ k w, (s.workers k).flow = .running w → InTransit (s.links k) (c.outlet k) w.intake
    (givenTo k hs) (servedBy k hs ++ w.workerStream.newMsgs)

theorem handed_over (inOrder : menv.fdQueue.InOrder) {ls : List Label}
    (lossless : (machine menv wenv next).Along (Lossless menv) ls) {c : Master.Loop}
    (run : ((machine menv wenv next).traced (handovers menv)).exec ls = some (s, hs))
    (running : s.master.flow = .running c) : Conserved s hs c := by
  have kept := accounted_run inOrder lossless run
  refine ⟨(kept.waiting c running).1, kept.once, fun k => ?_, fun k w hw => ?_⟩
  · obtain ⟨rest, same, paired⟩ := kept.paired k
    rw [← paired.passed, ← same c running]
    rfl
  · obtain ⟨rest, same, paired⟩ := kept.paired k
    have aligned := paired.running w hw
    obtain ⟨left, names, bytes⟩ := aligned.headers
    rw [← List.map_append] at names
    refine ⟨?_, ?_⟩
    · have beginning := List.prefix_iff_eq_take.mp (aligned.inTurn.beginning (kept.passed k))
      rwa [List.length_map, ← List.map_take] at beginning
    · have rest : left = ((givenTo k hs).drop (servedBy k hs ++ w.intake.newMsgs).length).map Prod.fst := by
        rw [List.map_drop, names, List.drop_left' (by simp)]
      rw [same c running, bytes, rest, List.flatMap_map]
      rfl

theorem handed_over_introduction : ∃ s hs c,
    ((machine Master.System.fixintEnv Worker.loopback 5).traced (handovers Master.System.fixintEnv)).exec
      (introduction.take 19) = some (s, hs) ∧ s.master.flow = .running c ∧ Conserved s hs c ∧
        pushes (heard hs) ≠ [] ∧ servedBy 5 hs = [] := by
  have hrun : (((machine Master.System.fixintEnv Worker.loopback 5).traced
      (handovers Master.System.fixintEnv)).exec (introduction.take 19)).any (fun p =>
        p.1.master.runs && decide (pushes (heard p.2) ≠ [] ∧ servedBy 5 p.2 = [])) = true := by
    decide +kernel
  obtain ⟨⟨s, hs⟩, run, hp⟩ := (Option.any_eq_true _ _).mp hrun
  obtain ⟨runs, counts⟩ := Bool.and_eq_true_iff.mp hp
  obtain ⟨c, running⟩ := Master.System.runs_iff.mp runs
  have spared := introduction_lossless.prefix (List.take_prefix 19 introduction)
  have conserved := handed_over (FdQueue.draining_inOrder 2) spared run running
  exact ⟨s, hs, c, run, running, conserved, of_decide_eq_true counts⟩

end Pool
end PyProxy.Session
