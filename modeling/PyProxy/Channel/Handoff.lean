import PyProxy.Machine.Run
import PyProxy.Master.Dispatch
import PyProxy.Worker.WorkerStream

namespace PyProxy.Channel
open Stream Protocol Server Master

-- headers and descriptors on their way from the master to one worker, in two separate queues
structure HandoffChannel where
  master : WorkerStream
  wire : List UInt8
  worker : Worker.WorkerStream
  accepted : List Request
  enqueued : List Sock
  arrived : Nat
  popped : List Request

-- a read takes in `n` bytes and, however late or early, the next `fds` descriptors
inductive HandoffAction where
  | dispatch (req : Request)
  | write (res : IoResult Nat)
  | read (n fds : Nat)
  | nextMsg

namespace HandoffChannel

variable (fdQueue : FdQueue)

def step (s : HandoffChannel) : HandoffAction → Option HandoffChannel
  | .dispatch req =>
    some { s with
      master := s.master.dispatch fdQueue req
      accepted := s.accepted ++ s.master.accepted fdQueue [req]
      enqueued := if (s.master.sendFd fdQueue req.2).isSome then s.enqueued ++ [req.2] else s.enqueued }
  | .write (.error e) => some { s with master := (s.master.write fdQueue (.error e)).2 }
  | .write (.ok n) =>
    if n ≤ s.master.outbuffer.length then
      some { s with
        master := (s.master.write fdQueue (.ok n)).2
        wire := s.wire ++ s.master.outbuffer.take n }
    else none
  | .read n fds =>
    if s.wire.take n = [] then none
    else
      let fds := (s.enqueued.drop s.arrived).take fds
      some { s with
        wire := s.wire.drop n
        worker := (s.worker.read fds (.ok (s.wire.take n))).2
        arrived := s.arrived + fds.length }
  | .nextMsg =>
    match s.worker.nextMsg with
    | (none, worker) => some { s with worker := worker }
    | (some msg, worker) => some { s with worker := worker, popped := s.popped ++ [msg] }

def machine (interest : Interest) (stream : Sock) : Machine HandoffChannel HandoffAction where
  init := ⟨.new interest, [], .new stream, [], [], 0, []⟩
  step := step fdQueue

-- `left` is accepted and not yet paired again: all of its header bytes, `fds` of its descriptors
structure Aligned (left : List Request) (fds : Nat) (worker : Worker.WorkerStream)
    (ahead : List UInt8) : Prop where
  bytes : worker.inbuffer ++ ahead = left.flatMap (·.1.toList)
  inFds : worker.inFds = (left.map Prod.snd).take fds
  bound : fds ≤ left.length

def Inv (s : HandoffChannel) : Prop :=
  s.enqueued = s.accepted.map Prod.snd ∧ ∃ left fds, s.accepted = s.popped ++ s.worker.newMsgs ++ left ∧
    s.arrived = s.popped.length + s.worker.newMsgs.length + fds ∧
    Aligned left fds s.worker (s.wire ++ s.master.outbuffer)

variable {fdQueue} {s s' : HandoffChannel} {worker : Worker.WorkerStream} {ahead : List UInt8}
  {left : List Request} {fds : Nat}

theorem Aligned.dispatched (h : Aligned left fds worker ahead) (reqs : List Request) :
    Aligned (left ++ reqs) fds worker (ahead ++ reqs.flatMap (·.1.toList)) where
  bytes := by rw [List.flatMap_append, ← h.bytes, List.append_assoc]
  inFds := by
    rw [List.map_append, List.take_append_of_le_length, h.inFds]
    rw [List.length_map]
    exact h.bound
  bound := by
    have := h.bound
    rw [List.length_append]
    omega

theorem Aligned.pair {req : Request} (h : Aligned (req :: left) (fds + 1) worker ahead)
    (full : requestHeaderSize ≤ worker.inbuffer.length) :
    copyHeader requestHeaderSize worker.inbuffer = req.1 ∧
      worker.inFds = req.2 :: (left.map Prod.snd).take fds ∧
      compact requestHeaderSize worker.inbuffer ++ ahead = left.flatMap (·.1.toList) := by
  have hbytes : worker.inbuffer ++ ahead = req.1.toList ++ left.flatMap (·.1.toList) := h.bytes
  refine ⟨?_, h.inFds, ?_⟩
  · rw [← copyHeader_append _ _ ahead full, hbytes, copyHeader_toList]
  · rw [compact_eq_drop, ← List.drop_append_of_le_length full, hbytes, List.drop_left' (by simp)]

theorem Aligned.takeHeader (h : Aligned left fds worker ahead) :
    worker.takeHeader = worker ∨ ∃ req left' fds', left = req :: left' ∧ fds = fds' + 1 ∧
      worker.takeHeader.newMsgs = worker.newMsgs ++ [req] ∧
      Aligned left' fds' worker.takeHeader ahead := by
  simp only [Worker.WorkerStream.takeHeader]
  split
  · rename_i full
    cases hfds : worker.inFds with
    | nil => exact .inl rfl
    | cons fd rest =>
      right
      have hin := h.inFds
      have hbound := h.bound
      cases left with
      | nil => simp [hfds] at hin
      | cons req left =>
        cases fds with
        | zero => simp [hfds] at hin
        | succ fds =>
          obtain ⟨hhead, htail, hrest⟩ := h.pair full
          rw [hfds] at htail
          obtain ⟨rfl, rfl⟩ := List.cons.inj htail
          refine ⟨req, left, fds, rfl, rfl, by rw [hhead], hrest, rfl, ?_⟩
          simpa using hbound
  · exact .inl rfl

-- what the descriptor queue takes in is what the dispatch is counted as accepted for
theorem enqueued_accepted (w : WorkerStream) (req : Request) :
    (if (w.sendFd fdQueue req.2).isSome then [req.2] else []) = (w.accepted fdQueue [req]).map Prod.snd := by
  rw [WorkerStream.sendFd, fdQueue.bounded, WorkerStream.accepted]
  by_cases room : w.outFds.length < fdQueue.capacity
  · rw [List.take_of_length_le (Nat.sub_pos_of_lt room)]
    simp [room]
  · rw [Nat.sub_eq_zero_of_le (Nat.not_lt.mp room)]
    simp [room]

theorem Inv.dispatch (inv : Inv s) (req : Request) (h : s.step fdQueue (.dispatch req) = some s') :
    Inv s' := by
  obtain rfl := Option.some.inj h
  obtain ⟨henq, left, fds, hacc, harr, aligned⟩ := inv
  have hmaster := @WorkerStream.dispatch_all fdQueue s.master [req]
  refine ⟨?_, left ++ s.master.accepted fdQueue [req], fds, by simp [hacc], harr, ?_⟩
  · have hnew := @enqueued_accepted fdQueue s.master req
    dsimp only
    rw [List.map_append, ← hnew, henq]
    split
    · rfl
    · rw [List.append_nil]
  · have hout : (s.master.dispatch fdQueue req).outbuffer = s.master.outbuffer ++
        (s.master.accepted fdQueue [req]).flatMap (·.1.toList) :=
      congrArg WorkerStream.outbuffer hmaster
    dsimp only
    rw [hout, ← List.append_assoc]
    exact aligned.dispatched _

theorem Inv.read (inv : Inv s) {n m : Nat} (h : s.step fdQueue (.read n m) = some s') :
    Inv s' := by
  simp only [step] at h
  split at h
  · cases h
  · rename_i hne
    obtain rfl := Option.some.inj h
    obtain ⟨henq, left, fds, hacc, harr, aligned⟩ := inv
    have harrived : (s.enqueued.drop s.arrived).take m = ((left.map Prod.snd).drop fds).take m := by
      rw [henq, hacc, harr, List.map_append, ← List.length_append, ← List.drop_drop,
        List.drop_left' (List.length_map _)]
    rw [harrived]
    generalize hnew : ((left.map Prod.snd).drop fds).take m = new
    have hlen : new.length = min m (left.length - fds) := by
      rw [← hnew, List.length_take, List.length_drop, List.length_map]
    have grown : Aligned left (fds + new.length) { s.worker with
        inFds := s.worker.inFds ++ new
        inbuffer := s.worker.inbuffer ++ s.wire.take n } (s.wire.drop n ++ s.master.outbuffer) := by
      have hbound := aligned.bound
      refine ⟨?_, ?_, by omega⟩
      · rw [← aligned.bytes, List.append_assoc, ← List.append_assoc (s.wire.take n),
          List.take_append_drop]
      · dsimp only
        rw [aligned.inFds, List.take_add, ← List.prefix_iff_eq_take.mp (hnew ▸ List.take_prefix m _)]
    cases hbytes : s.wire.take n with
    | nil => exact absurd hbytes hne
    | cons b bs =>
      rw [hbytes] at grown
      dsimp only [Worker.WorkerStream.read]
      rcases grown.takeHeader with hsame | ⟨req, left', fds', rfl, hfds, hmsgs, paired⟩
      · rw [hsame]
        exact ⟨henq, left, fds + new.length, hacc, by dsimp only; omega, grown⟩
      · refine ⟨henq, left', fds', ?_, ?_, paired⟩
        · rw [hmsgs, hacc]
          simp
        · rw [hmsgs, List.length_append, List.length_singleton]
          dsimp only
          omega

theorem step_inv {a : HandoffAction} (inv : Inv s) (h : s.step fdQueue a = some s') : Inv s' := by
  cases a with
  | dispatch req => exact inv.dispatch req h
  | write res =>
    cases res with
    | error e =>
      obtain rfl := Option.some.inj h
      exact inv
    | ok n =>
      obtain ⟨-, heq⟩ := Option.ite_none_right_eq_some.mp h
      obtain rfl := Option.some.inj heq
      obtain ⟨henq, left, fds, hacc, harr, aligned⟩ := inv
      refine ⟨henq, left, fds, hacc, harr, ?_, aligned.inFds, aligned.bound⟩
      rw [← aligned.bytes]
      simp [WorkerStream.write]
  | read n fds => exact inv.read h
  | nextMsg =>
    simp only [step, Worker.WorkerStream.nextMsg] at h
    obtain ⟨henq, left, fds, hacc, harr, aligned⟩ := inv
    cases hmsgs : s.worker.newMsgs with
    | nil =>
      rw [hmsgs] at h
      obtain rfl := Option.some.inj h
      exact ⟨henq, left, fds, hacc, harr, aligned⟩
    | cons msg msgs =>
      rw [hmsgs] at h
      obtain rfl := Option.some.inj h
      rw [hmsgs] at hacc harr
      refine ⟨henq, left, fds, by simp [hacc], ?_, aligned.bytes, aligned.inFds, aligned.bound⟩
      rw [harr, List.length_append, List.length_singleton, List.length_cons]
      dsimp only
      omega

theorem pairs_kept {interest : Interest} {stream : Sock} {ls : List HandoffAction}
    (run : (machine fdQueue interest stream).exec ls = some s) : s.popped <+: s.accepted := by
  have start : Inv (machine fdQueue interest stream).init :=
    ⟨rfl, [], 0, rfl, rfl, rfl, rfl, Nat.le_refl 0⟩
  obtain ⟨-, left, fds, hacc, -⟩ := Machine.invariant start (fun _ _ _ => step_inv) run
  exact ⟨s.worker.newMsgs ++ left, by rw [hacc, List.append_assoc]⟩

def lateDescriptor : List HandoffAction :=
  [.dispatch (.replicate 8 1, 20), .dispatch (.replicate 8 2, 21), .dispatch (.replicate 8 3, 22),
    .write (.ok 11), .read 5 0, .read 6 0, .write (.ok 5), .read 3 2, .nextMsg, .read 2 0, .nextMsg]

theorem pairs_kept_late : ∃ s, (machine (.draining 2) ro 0).exec lateDescriptor = some s ∧
    s.popped <+: s.accepted := by
  have hrun : ((machine (.draining 2) ro 0).exec lateDescriptor).isSome = true := by decide +kernel
  obtain ⟨s, hs⟩ := Option.isSome_iff_exists.mp hrun
  exact ⟨s, hs, pairs_kept hs⟩

end HandoffChannel
end PyProxy.Channel
