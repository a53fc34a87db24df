import PyProxy.Master.Isolation
import PyProxy.Master.RoutingTable
import PyProxy.Master.Standing
import PyProxy.Poll.Writable

namespace PyProxy.Master
open Stream Protocol Server Poll Source Lines

namespace OutputStream

theorem hello_kept {bc : Bincode} {s s' : OutputStream} (h : s.hello bc = .ok s') :
    s'.interest = s.interest ∧ s'.outbuffer = s.outbuffer := by
  simp only [hello] at h
  split at h
  · cases h
    exact ⟨rfl, rfl⟩
  · split at h
    · cases h
    · split at h
      · cases h
        exact ⟨rfl, rfl⟩
      · split at h
        · cases h
          exact ⟨rfl, rfl⟩
        · split at h <;> cases h
          exact ⟨rfl, rfl⟩

theorem read_kept (bc : Bincode) (s : OutputStream) (res : IoResult (List UInt8)) :
    (s.read bc res).2.interest = s.interest ∧ (s.read bc res).2.outbuffer = s.outbuffer := by
  cases res with
  | error e => exact ⟨rfl, rfl⟩
  | ok bytes =>
    simp only [read]
    split
    · exact ⟨rfl, rfl⟩
    · rename_i s' hs
      have kept := hello_kept hs
      exact kept

end OutputStream

namespace Loop

def WorkerDue (evs : List Event) (c : Loop) (k : Sock) : Prop :=
  (c.os.source k).Promised evs (c.workers k).interest (c.workers k).hasData

def OutputDue (evs : List Event) (c : Loop) (k : Sock) : Prop :=
  (c.os.source k).Promised evs (c.outputs k).interest (c.outputs k).hasOutData

variable {env : Env} {c c' : Loop} {ev : Event} {batch evs : List Event} {io : EventIo} {k : Sock}
  {tk : Token}

theorem WorkerDue.of {s : WorkerStream} (worker : c.workers k = s)
    (h : (c.os.source k).Promised evs s.interest s.hasData) : WorkerDue evs c k := by
  rwa [WorkerDue, worker]

theorem OutputDue.of {s : OutputStream} (output : c.outputs k = s)
    (h : (c.os.source k).Promised evs s.interest s.hasOutData) : OutputDue evs c k := by
  rwa [OutputDue, output]

theorem WorkerDue.frame (h : WorkerDue evs c k) (source : c'.os.source k = c.os.source k)
    (worker : c'.workers k = c.workers k) : WorkerDue evs c' k := by
  rwa [WorkerDue, source, worker]

theorem OutputDue.frame (h : OutputDue evs c k) (source : c'.os.source k = c.os.source k)
    (output : c'.outputs k = c.outputs k) : OutputDue evs c' k := by
  rwa [OutputDue, source, output]

theorem written_left {outbuffer : List UInt8} {n : Nat} (h : (!(outbuffer.drop n).isEmpty) = true) :
    n < outbuffer.length := by
  by_contra le
  rw [List.drop_eq_nil_of_le (Nat.not_lt.mp le)] at h
  cases h

theorem workerWrite_due (h : WorkerDue (ev :: batch) c k) : WorkerDue batch (c.workerWrite env ev k io) k := by
  cases hw : ev.writable with
  | false =>
    simp only [workerWrite, hw, Bool.false_eq_true, if_false]
    exact h.skip fun writable => by
      rw [hw] at writable
      cases writable
  | true =>
    have hcase := @workerWrite_cases env c k io ev hw
    generalize c.workerWrite env ev k io = d at hcase ⊢
    cases hcase with
    | failed e os got =>
      have write := @World.promised_write _ _ c.os (ev :: batch) k _ _ (c.workers k).hasData h
        (c.workers k).outbuffer.length io.write batch fun n ok => by
          rw [got] at ok
          cases ok
      rw [got] at write
      exact .of (Workers.set_same _ _ _) write
    | written n os got =>
      have write := @World.promised_write _ _ c.os (ev :: batch) k _ _
        (!((c.workers k).outbuffer.drop n).isEmpty) h (c.workers k).outbuffer.length
        io.write batch fun m ok left => by
          rw [got] at ok
          cases ok
          exact written_left left
      rw [got] at write
      exact .of (Workers.set_same _ _ _) write

theorem drop_workerDue (c : Loop) (tk : Token) (k : Sock) (evs : List Event) :
    WorkerDue evs (c.drop tk k) k := c.os.deregister_promised k evs _ _

theorem workerEvent_due (h : WorkerDue (ev :: batch) c k)
    (hc : c.workerEvent env ev k io = .running c') : WorkerDue batch c' k := by
  cases hr : ev.readable with
  | false =>
    simp only [workerEvent, hr] at hc
    cases hc
    exact workerWrite_due h
  | true =>
    obtain ⟨c₁, hread, rfl⟩ := workerEvent_cases hr hc
    refine workerWrite_due ?_
    cases hread with
    | failed => exact c.drop_workerDue ev.token k (ev :: batch)
    | read n bytes =>
      refine .of (Workers.set_same _ _ _) ?_
      dsimp only
      rw [World.modify_same]
      exact h.quiet ((c.os.source k).quiet_drop n)

theorem drop_outputDue (c : Loop) (tk : Token) (k : Sock) (evs : List Event) :
    OutputDue evs (c.drop tk k) k := c.os.deregister_promised k evs _ _

theorem dropIfErr_due {ε T : Type} (h : OutputDue evs c k) (tk : Token) (res : Except ε T) :
    OutputDue evs (c.dropIfErr tk k res) k := by
  cases res with
  | ok => exact h
  | error => exact c.drop_outputDue tk k evs

theorem openOutput_due (h : OutputDue evs c k) (tk : Token) (refused : Bool) :
    OutputDue evs (c.openOutput tk k refused) k := by
  simp only [openOutput, OutputStream.takeSessionId]
  split
  · exact .of (Outputs.set_same _ _ _) h
  · split
    · exact .of (Outputs.set_same _ _ _) h
    · rename_i granted
      obtain ⟨reg, rfl⟩ := World.reregister_some granted
      refine .of (Outputs.set_same _ _ _) ?_
      dsimp only
      rw [World.modify_same]
      exact h.attach reg tk rfl evs

theorem outputRead_due (h : OutputDue evs c k) : OutputDue evs (c.outputRead env ev k io) k := by
  simp only [outputRead]
  split
  · obtain ⟨interest, outbuffer⟩ :=
      (c.outputs k).read_kept env.bc (c.os.read k bufferSize io.read).1
    refine openOutput_due (dropIfErr_due ?_ ev.token _) ev.token _
    refine .of (Outputs.set_same _ _ _) ?_
    rw [interest, OutputStream.hasOutData, outbuffer]
    exact World.promised_read h k bufferSize io.read
  · exact h

theorem outputWrite_due (h : OutputDue (ev :: batch) c k) :
    OutputDue batch (c.outputWrite ev k io) k := by
  cases hw : ev.writable with
  | false =>
    simp only [outputWrite, hw, Bool.false_eq_true, if_false]
    exact h.skip fun writable => by
      rw [hw] at writable
      cases writable
  | true =>
    have hcase := @outputWrite_cases c k io ev hw
    generalize c.outputWrite ev k io = d at hcase ⊢
    cases hcase with
    | failed e os got => exact drop_outputDue _ ev.token k batch
    | written n os got =>
      have write := @World.promised_write _ _ c.os (ev :: batch) k _ _
        (!((c.outputs k).outbuffer.drop n).isEmpty) h (c.outputs k).outbuffer.length
        io.write batch fun m ok left => by
          rw [got] at ok
          cases ok
          exact written_left left
      rw [got] at write
      exact .of (Outputs.set_same _ _ _) write

theorem workerEvent_others (hc : c.workerEvent env ev k io = .running c') {j : Sock} (hj : j ≠ k) :
    c'.workers j = c.workers j := by
  cases hr : ev.readable with
  | false =>
    simp only [workerEvent, hr] at hc
    cases hc
    exact (@workerWrite_writes env c ev k io).others j hj
  | true =>
    obtain ⟨c₁, hread, rfl⟩ := workerEvent_cases hr hc
    refine ((@workerWrite_writes env c₁ ev k io).others j hj).trans ?_
    cases hread with
    | failed => rfl
    | read n bytes => exact Workers.set_other _ _ hj

def linesFor (c : Loop) (f : PipeFrame) (io : EventIo) : Option (String × List Span) :=
  match (f.read io.echo (c.os.read f.recv bufferSize io.read).1).1 with
  | .ok lines => lines
  | .error _ => none

-- the lines of a pipe are not for an output stream that nothing will wake
def sparesOutput (c : Loop) (f : PipeFrame) (batch : List Event) (io : EventIo) : Bool :=
  (c.linesFor f io).all fun p => (c.outputStreams.lookup p.1).all fun k =>
    p.2.isEmpty || !(c.os.source k).stale batch (c.outputs k).interest (c.outputs k).hasOutData

def sparesEvent (c : Loop) (ev : Event) (batch : List Event) (io : EventIo) : Bool :=
  match c.ioActions ev.token with
  | some (.stderr f) => c.sparesOutput f batch io
  | some (.stdout f) => c.sparesOutput f batch io
  | _ => true

-- nor are the requests of the loop head for a worker stream that nothing will wake
def sparesHead (env : Env) (c : Loop) : Bool :=
  c.workerStreams.chosen.all fun k =>
    ((c.workers k).accepted env.fdQueue c.newRequests).isEmpty ||
      !(c.os.source k).stale [] (c.workers k).interest (c.workers k).hasData

-- `evs` are the events of the batch that are still to come
structure Promising (issues : List Issue) (evs : List Event) (c : Loop) : Prop where
  workers : ∀ tk k, ⟨tk, k, .workerStream⟩ ∈ issues → WorkerDue evs c k
  outputs : ∀ tk k, ⟨tk, k, .outputStream⟩ ∈ issues → OutputDue evs c k

variable {issues : List Issue} {pend : List Token} {a : IoAction}

-- the event in hand is about none of the other sources
theorem promised_skip (w : Wired issues (ev.token :: pend) c) (ha : c.ioActions ev.token = some a)
    {x : Issue} (hx : x ∈ issues) (other : x.sock ≠ a.sock) {interest : Interest} {data : Bool}
    (h : (c.os.source x.sock).Promised (ev :: batch) interest data) :
    (c.os.source x.sock).Promised batch interest data := by
  refine h.skip fun _ own => ?_
  obtain ⟨⟨t, i⟩, hreg, rfl⟩ := Option.map_eq_some_iff.mp own
  have same := w.reg_token hx hreg
  exact other (congrArg Issue.sock (w.same_token hx (w.issue ha) same.symm))

theorem promised_beside (w : Wired issues (ev.token :: pend) c) (ha : c.ioActions ev.token = some a)
    (hc : c.event env ev io = .running c') {x : Issue} (hx : x ∈ issues) (other : x.sock ≠ a.sock)
    {interest : Interest} {data : Bool}
    (h : (c.os.source x.sock).Promised (ev :: batch) interest data) :
    (c'.os.source x.sock).Promised batch interest data := by
  rw [(event_apart ha hc).source x.sock other (w.below x hx).2]
  exact promised_skip w ha hx other h

theorem Promising.workers_event (h : Promising issues (ev :: batch) c)
    (w : Wired issues (ev.token :: pend) c) (ha : c.ioActions ev.token = some a)
    (hc : c.event env ev io = .running c') (tk : Token) (k : Sock)
    (hx : ⟨tk, k, .workerStream⟩ ∈ issues ++ c.issued ev io) : WorkerDue batch c' k := by
  have hown := w.issue ha
  have beside : ∀ {tk k}, ⟨tk, k, .workerStream⟩ ∈ issues → k ≠ a.sock →
      c'.workers k = c.workers k → WorkerDue batch c' k := by
    intro tk k hx other worker
    exact .of worker (promised_beside w ha hc hx other (h.workers tk k hx))
  have apart : a.kind ≠ .workerStream → ∀ {tk k}, ⟨tk, k, .workerStream⟩ ∈ issues → k ≠ a.sock :=
    fun ne _ _ hx eq => ne (congrArg Issue.kind (w.same_sock hown hx eq.symm))
  cases event_serves ha hc with
  | other _ _ kind workers streams issued =>
    rcases List.mem_append.mp hx with hx | hx
    · exact beside hx (apart kind hx) (congrFun workers k)
    · exact absurd rfl (issued _ hx)
  | joined j os ready accept ok registered =>
    rcases List.mem_append.mp hx with hx | hx
    · exact beside hx (apart Kind.noConfusion hx)
        (Workers.set_other _ _ (Nat.ne_of_lt (w.below _ hx).2))
    · have enrolled := (issued_worker ha hx rfl).2
      simp only [enroll] at enrolled
      split at enrolled
      · obtain ⟨rfl, rfl, -⟩ := Issue.mk.inj (List.mem_singleton.mp enrolled)
        exact .of (Workers.set_same _ _ _) (promised_ro _ batch _)
      · cases enrolled
  | worker j _ hw =>
    rcases List.mem_append.mp hx with hx | hx
    · by_cases hk : k = j
      · subst hk
        exact workerEvent_due (h.workers tk k hx) hw
      · exact beside hx hk (workerEvent_others hw hk)
    · cases (issued_worker ha hx rfl).1

theorem pipeEvent_due {send : OutputStream → List UInt8 → OutputStream} {wrap : PipeFrame → IoAction}
    {f : PipeFrame} {tk' : Token} (kept : ∀ s line, (send s line).interest = s.interest)
    (spares : c.sparesOutput f batch io = true) (hk : k ≠ f.recv) (h : OutputDue batch c k) :
    OutputDue batch (c.pipeEvent send wrap tk' f io) k := by
  have untouched : ∀ {res os}, c.os.read f.recv bufferSize io.read = (res, os) →
      os.source k = c.os.source k := by
    intro res os got
    rw [← c.os.read_other bufferSize io.read hk, got]
  have hcase := pipeEvent_cases send wrap c tk' f io
  generalize c.pipeEvent send wrap tk' f io = d at hcase ⊢
  cases hcase with
  | failed res os e out f' got =>
    refine h.frame ?_ rfl
    simp only [drop, World.deregister]
    rw [World.modify_other _ _ hk, untouched got]
  | outside res os out f' got => exact h.frame (untouched got) rfl
  | unbound res os sessionId lines out f' got => exact h.frame (untouched got) rfl
  | sent res os sessionId lines out f' j got read some =>
    by_cases hj : k = j
    · subst hj
      have same : ∀ (ls : List (List UInt8)) (s : OutputStream),
          (ls.foldl send s).interest = s.interest := by
        intro ls
        induction ls with
        | nil => exact fun _ => rfl
        | cons l ls ih => exact fun s => (ih (send s l)).trans (kept s l)
      refine .of (Outputs.set_same _ _ _) ?_
      dsimp only
      rw [untouched got, same]
      have spared : (lines.isEmpty || !(c.os.source k).stale batch (c.outputs k).interest
          (c.outputs k).hasOutData) = true := by
        simpa [sparesOutput, linesFor, got, read, some] using spares
      rcases Bool.or_eq_true_iff.mp spared with none | fresh
      · rw [List.isEmpty_iff.mp none]
        exact h
      · exact h.refill (by simpa using fresh)
    · exact h.frame (untouched got) (Outputs.set_other _ _ hj)

theorem Promising.outputs_event (h : Promising issues (ev :: batch) c)
    (w : Wired issues (ev.token :: pend) c) (ha : c.ioActions ev.token = some a)
    (spares : c.sparesEvent ev batch io = true) (hc : c.event env ev io = .running c')
    (tk : Token) (k : Sock) (hx : ⟨tk, k, .outputStream⟩ ∈ issues ++ c.issued ev io) :
    OutputDue batch c' k := by
  rcases List.mem_append.mp hx with hx | hx
  · have due := h.outputs tk k hx
    have apart : a.kind ≠ .outputStream → k ≠ a.sock := fun ne eq =>
      ne (congrArg Issue.kind (w.same_sock (w.issue ha) hx eq.symm))
    have beside : k ≠ a.sock → c'.outputs k = c.outputs k → OutputDue batch c' k := fun other output =>
      .of output (promised_beside w ha hc hx other due)
    cases a with
    | outputStream j =>
      simp only [event, ha] at hc
      cases hc
      by_cases hk : k = j
      · subst hk
        exact outputWrite_due (outputRead_due due)
      · exact beside hk ((outputWrite_beside.1.output k hk).trans (outputRead_others hk))
    | stderr f =>
      simp only [sparesEvent, ha] at spares
      simp only [event, ha] at hc
      cases hc
      have other := apart Kind.noConfusion
      exact pipeEvent_due (fun _ _ => rfl) spares other (promised_skip w ha hx other due)
    | stdout f =>
      simp only [sparesEvent, ha] at spares
      simp only [event, ha] at hc
      cases hc
      have other := apart Kind.noConfusion
      exact pipeEvent_due (fun _ _ => rfl) spares other (promised_skip w ha hx other due)
    | _ =>
      have outputs := (event_outputs ha hc Kind.noConfusion Kind.noConfusion Kind.noConfusion).2
      exact beside (apart Kind.noConfusion) (outputs k (w.below _ hx).2)
  · obtain ⟨j, os, hl, rfl, -, -, -, hnew⟩ := issued_output hx
    simp only [Loop.event, hl, hnew] at hc
    cases hc
    exact .of (Outputs.set_same _ _ _) (promised_ro _ batch _)

theorem Promising.event (h : Promising issues (ev :: batch) c) (w : Wired issues (ev.token :: pend) c)
    (spares : c.sparesEvent ev batch io = true) (hc : c.event env ev io = .running c') :
    Promising (issues ++ c.issued ev io) batch c' := by
  obtain ⟨a, ha⟩ := Option.isSome_iff_exists.mp (w.held ev.token (by simp))
  exact ⟨h.workers_event w ha hc, h.outputs_event w ha spares hc⟩

theorem Promising.dispatch (h : Promising issues [] c) (spares : c.sparesHead env = true) :
    Promising issues [] (c.settle.dispatch env) := by
  refine ⟨fun tk k hx => ?_, h.outputs⟩
  have due := h.workers tk k hx
  cases chosen : c.workerStreams.chosen with
  | none =>
    refine due.frame rfl ?_
    simp only [Loop.dispatch, Loop.settle, WorkerStreams.dispatch_none chosen]
  | some j =>
    by_cases hk : k = j
    · subst hk
      have heap : (c.settle.dispatch env).workers k =
          c.newRequests.foldl (WorkerStream.dispatch env.fdQueue) (c.workers k) :=
        WorkerStreams.dispatch_chosen chosen
      simp only [sparesHead, chosen, Option.all_some] at spares
      refine .of (heap.trans (WorkerStream.dispatch_all _ _)) ?_
      rcases Bool.or_eq_true_iff.mp spares with none | fresh
      · rw [List.isEmpty_iff.mp none, WorkerStream.hasData, List.flatMap_nil, List.append_nil]
        exact due
      · exact due.refill (by simpa using fresh)
    · exact due.frame rfl (WorkerStreams.dispatch_other chosen hk)

theorem retuned (i : Interest) {hasData : Bool} {interest : Interest} (h : Retunes hasData interest i) :
    i = ro ∨ i = rw := by
  rw [h.tuned]
  split
  · exact .inr rfl
  · exact .inl rfl

theorem attach_due {i : Interest} (tuned : i = ro ∨ i = rw) (w : World Token UInt8) (k : Sock) (tk : Token)
    (data : Bool) : ((w.modify k (·.attach tk i)).source k).Promised [] i data := by
  rw [World.modify_same]
  exact promised_attach (w.source k) tk [] tuned fun h => by rw [h]; rfl

theorem Promising.updateWorker {io : HeadIo} (h : Promising issues [] c)
    (apart : ∀ t j, ⟨t, j, .outputStream⟩ ∈ issues → j ≠ k) (hc : c.updateWorker io tk k = .ok c') :
    Promising issues [] c' := by
  rcases updateWorker_cases hc with ⟨rfl, -⟩ | ⟨i, hi, -, rfl⟩
  · exact h
  · refine ⟨fun t j hx => ?_, fun t j hx => ?_⟩
    · by_cases hj : j = k
      · subst hj
        exact .of (Workers.set_same _ _ _) (attach_due (retuned i hi) c.os j tk _)
      · exact (h.workers t j hx).frame (c.os.modify_other (·.attach tk i) hj) (Workers.set_other _ _ hj)
    · exact (h.outputs t j hx).frame (c.os.modify_other (·.attach tk i) (apart t j hx)) rfl

theorem Promising.setOutputInterest (h : Promising issues [] c)
    (apart : ∀ t j, ⟨t, j, .workerStream⟩ ∈ issues → j ≠ k) (refused : Bool) {i : Interest}
    (tuned : i = ro ∨ i = rw) : Promising issues [] (c.setOutputInterest k refused i) := by
  rcases c.setOutputInterest_cases k refused i with ⟨-, heq⟩ | heq
  · rw [heq]
    refine ⟨fun t j hx => ?_, fun t j hx => ?_⟩
    · have source := c.os.modify_other (·.attach (c.outputs k).token i) (apart t j hx)
      exact (h.workers t j hx).frame source rfl
    · by_cases hj : j = k
      · subst hj
        exact .of (Outputs.set_same _ _ _) (attach_due tuned c.os j _ _)
      · have source := c.os.modify_other (·.attach (c.outputs k).token i) hj
        exact (h.outputs t j hx).frame source (Outputs.set_other _ _ hj)
  · rw [heq]
    refine ⟨fun t j hx => ?_, fun t j hx => ?_⟩
    · exact (h.workers t j hx).frame (c.os.modify_other detach (apart t j hx)) rfl
    · by_cases hj : j = k
      · subst hj
        exact drop_outputDue _ _ j []
      · exact (h.outputs t j hx).frame (c.os.modify_other detach hj) (Outputs.set_other _ _ hj)

theorem tuned_retune {hasData : Bool} {interest i : Interest} (h : Retunes hasData interest i) :
    Tuned hasData i := by
  rw [h.tuned]
  cases hasData with
  | true => exact rw_ne_ro
  | false => rfl

def WorkerTuned (c : Loop) (k : Sock) : Prop := Tuned (c.workers k).hasData (c.workers k).interest

def OutputTuned (c : Loop) (k : Sock) : Prop := Tuned (c.outputs k).hasOutData (c.outputs k).interest

theorem updateWorker_tuned {io : HeadIo} (hc : c.updateWorker io tk k = .ok c') {j : Sock}
    (h : j = k ∨ WorkerTuned c j) : WorkerTuned c' j := by
  rcases updateWorker_cases hc with ⟨rfl, tuned⟩ | ⟨i, hi, -, rfl⟩
  · rcases h with rfl | h
    · exact tuned
    · exact h
  · by_cases hj : j = k
    · subst hj
      simp only [WorkerTuned, Workers.set_same]
      exact tuned_retune hi
    · simp only [WorkerTuned]
      rw [Workers.set_other _ _ hj]
      exact h.resolve_left hj

theorem updateWorkers_tuned {io : HeadIo} {streams : List (Token × Sock)}
    (hc : updateWorkers io streams c = .ok c') {j : Sock}
    (h : (∃ p ∈ streams, p.2 = j) ∨ WorkerTuned c j) : WorkerTuned c' j := by
  induction streams generalizing c with
  | nil =>
    cases hc
    rcases h with ⟨p, hp, -⟩ | h
    · cases hp
    · exact h
  | cons q streams ih =>
    obtain ⟨t, k⟩ := q
    simp only [updateWorkers] at hc
    cases hu : c.updateWorker io t k with
    | error e => simp [hu] at hc
    | ok c₁ =>
      simp only [hu] at hc
      refine ih hc ?_
      rcases h with ⟨p, hp, rfl⟩ | h
      · rcases List.mem_cons.mp hp with rfl | hp
        · exact .inr (updateWorker_tuned hu (.inl rfl))
        · exact .inl ⟨p, hp, rfl⟩
      · exact .inr (updateWorker_tuned hu (.inr h))

theorem setOutputInterest_outputs (c : Loop) (k : Sock) (refused : Bool) (i : Interest) :
    (c.setOutputInterest k refused i).outputs = c.outputs.set k ((c.outputs k).setInterest i) := by
  rcases c.setOutputInterest_cases k refused i with ⟨-, heq⟩ | heq
  · rw [heq]
  · rw [heq]
    rfl

theorem updateOutputs_workers (io : HeadIo) (order : List String) (c : Loop) :
    (order.foldl (updateOutput io) c).workers = c.workers := by
  refine List.foldlRecOn (motive := fun d : Loop => d.workers = c.workers) order _ rfl fun d hd sessionId _ => ?_
  rw [← hd]
  rcases updateOutput_cases io d sessionId with ⟨heq, -⟩ | ⟨k, i, -, -, heq⟩
  · rw [heq]
  · rcases d.setOutputInterest_cases k (io.outputRefused sessionId) i with ⟨-, hset⟩ | hset
    · rw [heq, hset]
    · rw [heq, hset]
      rfl

theorem updateOutput_tuned (io : HeadIo) (sessionId : String) {j : Sock}
    (h : c.outputStreams.lookup sessionId = some j ∨ OutputTuned c j) :
    OutputTuned (c.updateOutput io sessionId) j := by
  rcases updateOutput_cases io c sessionId with ⟨heq, tuned⟩ | ⟨k, i, hk, hi, heq⟩
  · rw [heq]
    exact h.elim (tuned j) id
  · rw [heq, OutputTuned, setOutputInterest_outputs]
    by_cases hj : j = k
    · subst hj
      rw [Outputs.set_same]
      exact tuned_retune hi
    · rw [Outputs.set_other _ _ hj]
      refine h.resolve_left fun own => hj ?_
      exact Option.some.inj (own.symm.trans hk)

theorem updateOutputs_tuned (io : HeadIo) (order : List String) {j : Sock}
    (h : (∃ sessionId ∈ order, c.outputStreams.lookup sessionId = some j) ∨ OutputTuned c j) :
    OutputTuned (order.foldl (updateOutput io) c) j := by
  induction order generalizing c with
  | nil =>
    rcases h with ⟨sessionId, hs, -⟩ | h
    · cases hs
    · exact h
  | cons sessionId order ih =>
    refine ih ?_
    rcases h with ⟨sid, hs, own⟩ | h
    · rcases List.mem_cons.mp hs with rfl | hs
      · exact .inr (updateOutput_tuned io sid (.inl own))
      · refine .inl ⟨sid, hs, ?_⟩
        rw [(updateOutput_tunes io c sessionId).sessions]
        exact own
    · exact .inr (updateOutput_tuned io sessionId (.inr h))

theorem Promising.updateWorkers {io : HeadIo} {streams : List (Token × Sock)} (h : Promising issues [] c)
    (apart : ∀ p ∈ streams, ∀ t j, ⟨t, j, .outputStream⟩ ∈ issues → j ≠ p.2)
    (hc : Loop.updateWorkers io streams c = .ok c') : Promising issues [] c' := by
  induction streams generalizing c with
  | nil =>
    cases hc
    exact h
  | cons p streams ih =>
    simp only [Loop.updateWorkers] at hc
    cases hu : c.updateWorker io p.1 p.2 with
    | error e => simp [hu] at hc
    | ok c₁ =>
      simp only [hu] at hc
      exact ih (h.updateWorker (apart p (by simp)) hu) (fun q hq => apart q (by simp [hq])) hc

theorem Promising.updateOutputs (h : Promising issues [] c)
    (apart : ∀ S k, c.outputStreams.lookup S = some k → ∀ t j, ⟨t, j, .workerStream⟩ ∈ issues → j ≠ k)
    (io : HeadIo) (order : List String) : Promising issues [] (order.foldl (Loop.updateOutput io) c) := by
  induction order generalizing c with
  | nil => exact h
  | cons sessionId order ih =>
    refine ih ?_ fun S k hk => apart S k ?_
    · rcases updateOutput_cases io c sessionId with ⟨heq, -⟩ | ⟨k, i, hk, hi, heq⟩
      · rw [heq]
        exact h
      · rw [heq]
        exact h.setOutputInterest (apart sessionId k hk) _ (retuned i hi)
    · rwa [(updateOutput_tunes io c sessionId).sessions] at hk

theorem Promising.head {io : HeadIo} (h : Promising issues [] c) (w : Wired issues [] c)
    (spares : c.sparesHead env = true) (order : io.order.Perm c.outputStreams.keys)
    (hc : c.head env io = .running c') : Promising issues [] c' ∧
      (∀ p ∈ c'.workerStreams.streams, WorkerTuned c' p.2) ∧
      ∀ S k, c'.outputStreams.lookup S = some k → OutputTuned c' k := by
  have tunes := head_tunes hc
  obtain ⟨c₁, hu, -, rfl⟩ := head_cases hc
  have base := @Wired.dispatch env _ _ _ w.settle
  have first := updateWorkers_tunes (fun _ => id) hu
  have split : ∀ {t t' j j'}, ⟨t, j, .workerStream⟩ ∈ issues → ⟨t', j', .outputStream⟩ ∈ issues → j ≠ j' := by
    rintro t t' j _ hx hx' rfl
    cases congrArg Issue.kind (w.same_sock hx hx' rfl)
  refine ⟨?_, fun p hp => ?_, fun S k hk => ?_⟩
  · refine Promising.updateOutputs ?_ (fun S k hk t j hx => ?_) io io.order
    · exact (h.dispatch spares).updateWorkers (fun p hp t j hx => (split (base.workers p hp) hx).symm) hu
    · rw [first.sessions] at hk
      obtain ⟨t', ht'⟩ := base.sessions S k hk
      exact split hx ht'
  · rw [WorkerTuned, updateOutputs_workers]
    refine updateWorkers_tuned hu (.inl ⟨p, ?_, rfl⟩)
    rwa [tunes.streams] at hp
  · refine updateOutputs_tuned io io.order (.inl ⟨S, ?_, ?_⟩)
    · rw [tunes.sessions] at hk
      exact order.mem_iff.mpr (AList.lookup_isSome.mp (Option.isSome_iff_exists.mpr ⟨k, hk⟩))
    · rw [tunes.sessions] at hk
      rw [first.sessions]
      exact hk

theorem Promising.rewire (h : Promising issues evs c) {os : World Token UInt8}
    (kept : ∀ k interest data, (c.os.source k).Promised evs interest data →
      (os.source k).Promised batch interest data) : Promising issues batch { c with os := os } :=
  ⟨fun tk k hx => kept k _ _ (h.workers tk k hx), fun tk k hx => kept k _ _ (h.outputs tk k hx)⟩

theorem promised_modify {w : World Token UInt8} {f : Source Token UInt8 → Source Token UInt8}
    (hf : ∀ s, (f s).reg = s.reg ∧ (f s).writeArmed = s.writeArmed ∧ ((f s).closed = false → s.closed = false))
    (j k : Sock) {interest : Interest} {data : Bool} (h : (w.source k).Promised evs interest data) :
    ((w.modify j f).source k).Promised evs interest data := by
  by_cases hk : k = j
  · subst hk
    rw [World.modify_same]
    obtain ⟨reg, armed, closed⟩ := hf (w.source k)
    exact h.mono reg closed (fun now => armed.trans now) id
  · rwa [World.modify_other _ _ hk]

-- a live stream with something to write will hear when it can
structure Flushing (c : Loop) : Prop where
  workers : ∀ p ∈ c.workerStreams.streams, (c.os.source p.2).live = true →
    (c.workers p.2).outbuffer ≠ [] →
      (c.os.source p.2).writes = true ∧ (c.os.source p.2).writeArmed = true
  outputs : ∀ S k, c.outputStreams.lookup S = some k → (c.os.source k).live = true →
    (c.outputs k).outbuffer ≠ [] →
      (c.os.source k).writes = true ∧ (c.os.source k).writeArmed = true

theorem due_flushes {s : Source Token UInt8} {interest : Interest} {outbuffer : List UInt8}
    (due : s.Due [] interest (!outbuffer.isEmpty)) (tuned : Tuned (!outbuffer.isEmpty) interest)
    (some : outbuffer ≠ []) : s.writes = true ∧ s.writeArmed = true := by
  have data : (!outbuffer.isEmpty) = true := by simpa using some
  rw [data] at tuned due
  exact due.told_nil (due.tuned.resolve_left tuned) rfl

end Loop

namespace System

variable {env : Env}

def spares (env : Env) (s : System) (l : Label) : Bool :=
  match s.flow, l, s.phase with
  | .running c, .head _, .turn [] => c.sparesHead env
  | .running c, .event io, .turn (ev :: batch) => c.sparesEvent ev batch io
  | _, _, _ => true

structure Promising (issues : List Issue) (s : System) : Prop where
  promising : ∀ c, s.flow = .running c → c.Promising issues (Phase.batch s.phase)
  tuned : ∀ c, s.flow = .running c → s.phase = .polling →
    (∀ p ∈ c.workerStreams.streams, c.WorkerTuned p.2) ∧
      ∀ S k, c.outputStreams.lookup S = some k → c.OutputTuned k

theorem promising_init (next : Sock) : Promising [] (machine env next).init where
  promising := by
    intro c hc
    cases hc
    exact ⟨fun tk k hx => (by cases hx), fun tk k hx => (by cases hx)⟩
  tuned := by
    intro c hc polling
    cases polling

theorem Promising.touch {issues : List Issue} {s : System} (h : Promising issues s) {c : Loop}
    (hc : s.flow = .running c) (k : Sock) {f : Source Token UInt8 → Source Token UInt8}
    (hf : ∀ s, (f s).reg = s.reg ∧ (f s).writeArmed = s.writeArmed ∧ ((f s).closed = false → s.closed = false)) :
    Promising issues { s with flow := .running { c with os := c.os.modify k f } } where
  promising := by
    intro c' hc'
    cases hc'
    exact (h.promising c hc).rewire fun j _ _ => Loop.promised_modify hf k j
  tuned := by
    intro c' hc' polling
    cases hc'
    exact h.tuned c hc polling

theorem Promising.step {issues : List Issue} {s s' : System} {l : Label} (h : Promising issues s)
    (w : Wired issues s) (spares : s.spares env l = true) (hs : step env s l = some s') :
    Promising (issues ++ s.issued l) s' := by
  obtain ⟨c, hc, hcase⟩ := step_cases env hs
  have wired := w.wired c hc
  have promising := h.promising c hc
  cases hcase with
  | boot refused main output unix workers phase below =>
    obtain ⟨rfl, -⟩ := w.boot c hc phase
    have hissued : s.issued (.boot refused main output unix workers) =
        bootIssues main output unix workers := by simp [issued, hc, phase]
    rw [hissued, List.nil_append]
    refine ⟨fun c' _ => ⟨fun tk k hx => ?_, fun tk k hx => ?_⟩, fun _ _ polling => (by cases polling)⟩
    · exact absurd rfl (bootIssues_kind hx).2.2
    · exact absurd rfl (bootIssues_kind hx).2.1
  | head io phase order =>
    have hissued : s.issued (.head io) = [] := by simp [issued, hc]
    rw [hissued, List.append_nil]
    simp only [System.spares, hc, phase] at spares
    rw [phase] at promising wired
    have done := fun c' hc' => @Loop.Promising.head env c c' issues io promising wired spares order hc'
    exact ⟨fun c' hc' => (done c' hc').1, fun c' hc' _ => (done c' hc').2⟩
  | poll events os phase notified =>
    have hissued : s.issued (.poll events) = [] := by simp [issued, hc]
    rw [hissued, List.append_nil]
    rw [phase] at promising
    refine ⟨fun c' hc' => ?_, fun _ _ polling => (by cases polling)⟩
    cases hc'
    exact promising.rewire fun k _ _ due => World.promised_notified due notified
  | event io ev batch phase =>
    have hissued : s.issued (.event io) = c.issued ev io := by simp [issued, hc, phase]
    simp only [System.spares, hc, phase] at spares
    rw [hissued]
    rw [phase] at wired promising
    exact ⟨fun c' hc' => promising.event wired spares hc', fun _ _ polling => (by cases polling)⟩
  | connect tk act found listens =>
    have hissued : s.issued (.connect tk) = [] := by simp [issued, hc]
    rw [hissued, List.append_nil]
    exact h.touch hc _ fun _ => ⟨rfl, rfl, id⟩
  | arrive tk act bytes found listens =>
    have hissued : s.issued (.arrive tk bytes) = [] := by simp [issued, hc]
    rw [hissued, List.append_nil]
    refine h.touch hc _ fun src => ?_
    simp only [arrive]
    split <;> exact ⟨rfl, rfl, id⟩
  | close tk act found listens =>
    have hissued : s.issued (.close tk) = [] := by simp [issued, hc]
    rw [hissued, List.append_nil]
    refine h.touch hc _ fun src => ⟨rfl, rfl, fun open_ => ?_⟩
    cases open_

theorem promising_run {next : Sock} {ls : List Label} {s : System}
    (run : (machine env next).exec ls = some s)
    (spares : (machine env next).Along (fun s l => s.spares env l = true) ls) :
    ∃ issues, Wired issues s ∧ Promising issues s := by
  obtain ⟨issues, traced⟩ := @Machine.traced_exec _ _ _ _ issued _ _ run
  refine ⟨issues, @Machine.invariant_along _ _ ((machine env next).traced issued)
    (fun p => Wired p.2 p.1 ∧ Promising p.2 p.1) (fun p l => p.1.spares env l = true)
    ⟨@wired_init env next, @promising_init env next⟩ (fun p l p' hp ok hl => ?_) _ _ traced
    (Machine.along_traced.mpr spares)⟩
  obtain ⟨hs, heq⟩ := Machine.traced_step hl
  rw [heq]
  exact ⟨hp.1.step hs, hp.2.step hp.1 ok hs⟩

theorem flushing {next : Sock} {ls : List Label} {s : System} {c : Loop}
    (run : (machine env next).exec ls = some s)
    (spares : (machine env next).Along (fun s l => s.spares env l = true) ls)
    (running : s.flow = .running c) (polling : s.phase = .polling) : c.Flushing := by
  obtain ⟨issues, wired, promises⟩ := promising_run run spares
  have promising := promises.promising c running
  rw [polling] at promising
  obtain ⟨workers, outputs⟩ := promises.tuned c running polling
  refine ⟨fun p hp live some => ?_, fun S k hk live some => ?_⟩
  · have due := promising.workers p.1 p.2 ((wired.wired c running).workers p hp) live
    exact Loop.due_flushes due (workers p hp) some
  · obtain ⟨tk, hx⟩ := (wired.wired c running).sessions S k hk
    exact Loop.due_flushes (promising.outputs tk k hx live) (outputs S k hk) some

-- a worker and two clients connect, and the first client sends its header
def firstRequest : List Label :=
  [.boot (fun _ => false) 0 1 2 [(3, 4)], .head (calmHead []), .connect 2, .connect 0,
    .poll [⟨2, true, false⟩, ⟨0, true, false⟩], .event calmEvent, .event calmEvent,
    .head (calmHead []), .connect 0, .poll [⟨0, true, false⟩], .event calmEvent, .head (calmHead []),
    .arrive 6 [1, 0, 0, 0, 0, 0, 0, 7], .poll [⟨6, true, false⟩], .event calmEvent,
    .head (calmHead [])]

-- the second client's header comes in the batch that writes the first one's
def secondRequest : List Label :=
  firstRequest ++ [.arrive 7 [1, 0, 0, 0, 0, 0, 0, 8], .poll [⟨5, false, true⟩, ⟨7, true, false⟩],
    .event calmEvent, .event calmEvent, .head (calmHead [])]

def secondLine (S : String) : List Label :=
  greeting S ++ [.head (calmHead [S]), .arrive 3 (Pipe.startLine S ++ asBytes "a\n"),
    .poll [⟨3, true, false⟩], .event calmEvent, .head (calmHead [S]), .arrive 3 (asBytes "b\n"),
    .poll [⟨5, false, true⟩, ⟨3, true, false⟩], .event calmEvent, .event calmEvent,
    .head (calmHead [S])]

theorem flushing_firstRequest : ∃ s c, (machine fixintEnv 5).exec firstRequest = some s ∧
    s.flow = .running c ∧ s.phase = .polling ∧ (c.workers 5).outbuffer = [1, 0, 0, 0, 0, 0, 0, 7] ∧
      c.Flushing := by
  have hrun : ((machine fixintEnv 5).exec firstRequest).any (fun s => s.polls &&
      s.holds fun c => decide ((c.workers 5).outbuffer = [1, 0, 0, 0, 0, 0, 0, 7])) = true := by
    decide +kernel
  have spares : (machine fixintEnv 5).checks (spares fixintEnv) (machine fixintEnv 5).init firstRequest
      = true := by decide +kernel
  obtain ⟨s, run, hp⟩ := (Option.any_eq_true _ _).mp hrun
  obtain ⟨polls, held⟩ := Bool.and_eq_true_iff.mp hp
  obtain ⟨c, running, queued⟩ := holds_iff.mp held
  obtain ⟨-, -, polling⟩ := polls_iff.mp polls
  exact ⟨s, c, run, running, polling, of_decide_eq_true queued,
    flushing run (Machine.along_of_checks spares) running polling⟩

def unflushed (os : World Token UInt8) (k : Sock) (outbuffer : List UInt8) : Bool :=
  (os.source k).live && !outbuffer.isEmpty && !(os.source k).writeArmed

theorem not_flushes {os : World Token UInt8} {k : Sock} {outbuffer : List UInt8}
    (h : unflushed os k outbuffer = true) : ¬ ((os.source k).live = true → outbuffer ≠ [] →
      (os.source k).writes = true ∧ (os.source k).writeArmed = true) := by
  simp only [unflushed, Bool.and_eq_true, Bool.not_eq_true'] at h
  obtain ⟨⟨live, some⟩, unarmed⟩ := h
  intro flushes
  have armed := (flushes live (by simpa using some)).2
  rw [unarmed] at armed
  cases armed

theorem stalled :
    (¬ ∀ ls s c, (machine fixintEnv 5).exec ls = some s → s.flow = .running c → s.phase = .polling →
      ∀ p ∈ c.workerStreams.streams, (c.os.source p.2).live = true → (c.workers p.2).outbuffer ≠ [] →
        (c.os.source p.2).writes = true ∧ (c.os.source p.2).writeArmed = true) ∧
    ¬ ∀ ls s c, (machine fixintEnv 5).exec ls = some s → s.flow = .running c → s.phase = .polling →
      ∀ S k, c.outputStreams.lookup S = some k → (c.os.source k).live = true →
        (c.outputs k).outbuffer ≠ [] →
          (c.os.source k).writes = true ∧ (c.os.source k).writeArmed = true := by
  constructor
  · have hrun : ((machine fixintEnv 5).exec secondRequest).any (fun s => s.polls && s.holds fun c =>
        c.workerStreams.streams.any fun p => unflushed c.os p.2 (c.workers p.2).outbuffer) = true := by
      decide +kernel
    obtain ⟨s, run, hp⟩ := (Option.any_eq_true _ _).mp hrun
    obtain ⟨polls, held⟩ := Bool.and_eq_true_iff.mp hp
    obtain ⟨c, running, hany⟩ := holds_iff.mp held
    obtain ⟨-, -, polling⟩ := polls_iff.mp polls
    obtain ⟨p, mem, waits⟩ := List.any_eq_true.mp hany
    intro workers
    exact not_flushes waits (workers _ s c run running polling p mem)
  · have hrun : ((machine fixintEnv 5).exec (secondLine Pipe.sessionA)).any (fun s => s.polls && s.holds fun c =>
        (c.outputStreams.lookup Pipe.sessionA).any fun k =>
          unflushed c.os k (c.outputs k).outbuffer) = true := by decide +kernel
    obtain ⟨s, run, hp⟩ := (Option.any_eq_true _ _).mp hrun
    obtain ⟨polls, held⟩ := Bool.and_eq_true_iff.mp hp
    obtain ⟨c, running, hany⟩ := holds_iff.mp held
    obtain ⟨-, -, polling⟩ := polls_iff.mp polls
    obtain ⟨k, found, waits⟩ := (Option.any_eq_true _ _).mp hany
    intro outputs
    exact not_flushes waits (outputs _ s c run running polling Pipe.sessionA k found)

end System
end PyProxy.Master
