import PyProxy.Master.Dispatch
import PyProxy.Master.Frame
import PyProxy.Master.Notes
import PyProxy.Master.TokenMap

namespace PyProxy.Master
open Protocol Poll

open Note

namespace Loop

inductive Stage (ns : List Note) (pend : List Token) (c : Loop) (tk : Token) (s : ClientStream) : Prop where
  | reading (reg : (c.os.source s.stream).reg = some (tk, ro))
      (unarmed : (c.os.source s.stream).writeArmed = false)
      (short : s.bytesRead < requestHeaderSize) (single : pend.count tk ≤ 1)
      (unpushed : s.stream ∉ handedOver ns) (unfailed : s.stream ∉ failures ns)
  | handedOff (reg : (c.os.source s.stream).reg = none) (full : s.bytesRead = requestHeaderSize)
      (spent : tk ∉ pend) (kept : tk ∉ c.toRemove) (pushed : (s.header, s.stream) ∈ pushes ns)
      (unfailed : s.stream ∉ failures ns)
  | failed (reg : (c.os.source s.stream).reg = none) (spent : tk ∉ pend)
      (unpushed : s.stream ∉ handedOver ns)

structure Client (ns : List Note) (pend : List Token) (c : Loop) (tk : Token) (s : ClientStream) :
    Prop where
  bytes : bytesOf s.stream ns = s.buffer.toList.take s.bytesRead ++ (c.os.source s.stream).input
  stage : Stage ns pend c tk s

structure Custody (ns : List Note) (pend : List Token) (c : Loop) : Prop where
  clients : ∀ tk s, c.act tk = some (.clientStream s) → Client ns pend c tk s
  once : (handedOver ns).Nodup
  apart : ∀ k ∈ failures ns, k ∉ handedOver ns
  below : ∀ n ∈ ns, n.sock < c.os.next
  held : ∀ k ∈ handedOver ns, ∃ tk s, c.ioActions tk = some (.clientStream s) ∧ s.stream = k
  queue : c.newRequests <:+ pushes ns
  queued : ∀ w, ∀ fd ∈ (c.workers w).outFds, fd ∈ handedOver ns

-- what else than a read of the client can happen to its source: more bytes arrive
structure Fed (bytes : List UInt8) (src src' : Source Token UInt8) : Prop where
  reg : src'.reg = src.reg
  input : src'.input = src.input ++ bytes
  unarmed : src.writeArmed = false → src'.writeArmed = false

theorem Fed.refl (src : Source Token UInt8) : Fed [] src src :=
  ⟨rfl, (List.append_nil _).symm, id⟩

theorem Client.frame {ns new : List Note} {pend pend' : List Token} {c c' : Loop} {tk : Token}
    {s : ClientStream} (h : Client ns pend c tk s)
    (fed : Fed (bytesOf s.stream new) (c.os.source s.stream) (c'.os.source s.stream))
    (unpushed : s.stream ∉ handedOver new) (unfailed : s.stream ∉ failures new)
    (fewer : pend'.count tk ≤ pend.count tk) (toRemove : tk ∈ c'.toRemove → tk ∈ c.toRemove) :
    Client (ns ++ new) pend' c' tk s where
  bytes := by
    rw [bytesOf_append, fed.input, ← List.append_assoc, ← h.bytes]
  stage := by
    have spent : tk ∉ pend → tk ∉ pend' := by
      intro hp
      rw [← List.count_eq_zero] at hp ⊢
      omega
    cases h.stage with
    | reading reg unarmed short single hp hf =>
      exact .reading (fed.reg.trans reg) (fed.unarmed unarmed) short (Nat.le_trans fewer single)
        (by simp [hp, unpushed]) (by simp [hf, unfailed])
    | handedOff reg full hs kept pushed hf =>
      exact .handedOff (fed.reg.trans reg) full (spent hs) (fun hr => kept (toRemove hr))
        (by simp [pushed]) (by simp [hf, unfailed])
    | failed reg hs hp =>
      exact .failed (fed.reg.trans reg) (spent hs) (by simp [hp, unpushed])

section

variable {env : Env} {c c' : Loop} {ev : Event} {io : EventIo} {k : Sock} {tk : Token}

-- what a step that reads no client leaves of the requests
structure Requests (c c' : Loop) : Prop where
  newRequests : c'.newRequests = c.newRequests
  outFds : ∀ w, ∀ fd ∈ (c'.workers w).outFds, fd ∈ (c.workers w).outFds

theorem Requests.refl (c : Loop) : Requests c c := ⟨rfl, fun _ _ => id⟩

theorem Requests.trans {c'' : Loop} (h : Requests c c') (h' : Requests c' c'') : Requests c c'' :=
  ⟨h'.newRequests.trans h.newRequests, fun w fd hfd => h.outFds w fd (h'.outFds w fd hfd)⟩

theorem requests_worker {c : Loop} {os : World Token UInt8} {s : WorkerStream}
    (h : ∀ fd ∈ s.outFds, fd ∈ (c.workers k).outFds) :
    Requests c { c with os := os, workers := c.workers.set k s } := by
  refine ⟨rfl, fun w fd hfd => ?_⟩
  dsimp only at hfd
  by_cases hw : w = k
  · subst hw
    rw [Workers.set_same] at hfd
    exact h fd hfd
  · rwa [Workers.set_other _ _ hw] at hfd

theorem openOutput_requests (refused : Bool) : Requests c (c.openOutput tk k refused) := by
  simp only [openOutput]
  generalize (c.outputs k).takeSessionId = r
  obtain ⟨_ | sessionId, s⟩ := r
  · exact ⟨rfl, fun _ _ => id⟩
  · dsimp only
    split
    · exact ⟨rfl, fun _ _ => id⟩
    · exact ⟨rfl, fun _ _ => id⟩

theorem dropIfErr_requests {ε T : Type} (c : Loop) (tk : Token) (k : Sock) (res : Except ε T) :
    Requests c (c.dropIfErr tk k res) := by
  cases res <;> exact ⟨rfl, fun _ _ => id⟩

theorem outputRead_requests : Requests c (c.outputRead env ev k io) := by
  simp only [outputRead]
  split
  · generalize c.os.read k bufferSize io.read = r
    obtain ⟨res, os⟩ := r
    dsimp only
    generalize (c.outputs k).read env.bc res = r
    obtain ⟨res, s⟩ := r
    have read : Requests c { c with os := os, outputs := c.outputs.set k s } := ⟨rfl, fun _ _ => id⟩
    exact (read.trans (dropIfErr_requests _ ev.token k res)).trans (openOutput_requests _)
  · exact .refl c

theorem outputWrite_requests : Requests c (c.outputWrite ev k io) := by
  cases hw : ev.writable with
  | false =>
    simp only [outputWrite, hw]
    exact .refl c
  | true =>
    have hcase := @outputWrite_cases c k io ev hw
    generalize c.outputWrite ev k io = d at hcase ⊢
    cases hcase <;> exact ⟨rfl, fun _ _ => id⟩

theorem workerWrite_requests : Requests c (c.workerWrite env ev k io) := by
  cases hw : ev.writable with
  | false =>
    simp only [workerWrite, hw]
    exact .refl c
  | true =>
    have hcase := @workerWrite_cases env c k io ev hw
    generalize c.workerWrite env ev k io = d at hcase ⊢
    cases hcase with
    | failed e os got => exact requests_worker fun _ hfd => env.fdQueue.fewer _ _ hfd
    | written n os got => exact requests_worker fun _ hfd => env.fdQueue.fewer _ _ hfd

theorem workerEvent_requests (hc : c.workerEvent env ev k io = .running c') : Requests c c' := by
  cases hr : ev.readable with
  | false =>
    simp only [workerEvent, hr] at hc
    cases hc
    exact workerWrite_requests
  | true =>
    obtain ⟨c₁, hread, rfl⟩ := workerEvent_cases hr hc
    refine Requests.trans ?_ workerWrite_requests
    cases hread with
    | failed => exact ⟨rfl, fun _ _ => id⟩
    | read n bytes _ _ _ _ => exact requests_worker fun _ => id

theorem pipeEvent_requests (send : OutputStream → List UInt8 → OutputStream)
    (wrap : PipeFrame → IoAction) (f : PipeFrame) : Requests c (c.pipeEvent send wrap tk f io) := by
  have hcase := pipeEvent_cases send wrap c tk f io
  generalize c.pipeEvent send wrap tk f io = d at hcase ⊢
  cases hcase <;> exact ⟨rfl, fun _ _ => id⟩

theorem opened_pushes : pushes (c.opened k io) = [] := by
  simp only [opened]
  split <;> rfl

theorem event_requests (room : ∀ s, c.ioActions ev.token = some (.clientStream s) → 0 < s.room)
    (hc : c.event env ev io = .running c') :
    c'.newRequests = c.newRequests ++ pushes (c.noted ev io) ∧
      ∀ w, ∀ fd ∈ (c'.workers w).outFds, fd ∈ (c.workers w).outFds := by
  have other : pushes (c.noted ev io) = [] → Requests c c' →
      c'.newRequests = c.newRequests ++ pushes (c.noted ev io) ∧
        ∀ w, ∀ fd ∈ (c'.workers w).outFds, fd ∈ (c.workers w).outFds := by
    intro hn h
    rw [hn, List.append_nil]
    exact ⟨h.newRequests, h.outFds⟩
  simp only [event] at hc
  cases ha : c.ioActions ev.token with
  | none =>
    simp only [ha] at hc
    cases hc
    exact other (by simp only [noted, ha]; rfl) (.refl c)
  | some a =>
    cases a with
    | mainListener k =>
      simp only [ha] at hc
      refine other (by simp only [noted, ha]; exact opened_pushes) ?_
      cases acceptMain_cases hc <;> exact ⟨rfl, fun _ _ => id⟩
    | outputListener k =>
      simp only [ha] at hc
      cases hc
      refine other (by simp only [noted, ha]; exact opened_pushes) ?_
      have hcase := c.acceptOutput_cases k io
      generalize c.acceptOutput k io = d at hcase ⊢
      cases hcase <;> exact ⟨rfl, fun _ _ => id⟩
    | unixListener k =>
      simp only [ha] at hc
      refine other (by simp only [noted, ha]; exact opened_pushes) ?_
      cases acceptUnix_cases hc with
      | idle none => exact .refl c
      | adopted os ready accept ok registered =>
        have added := @requests_worker c.os.next c os (.new ro) (fun _ h => by cases h)
        exact ⟨added.newRequests, added.outFds⟩
    | clientStream s =>
      simp only [ha] at hc
      cases hc
      have hcase := clientEvent_cases c ev.token (room s ha) io
      simp only [noted, ha]
      generalize s.read (c.os.read s.stream s.room io.read).1 = r at hcase ⊢
      generalize c.clientEvent ev.token s io = d at hcase ⊢
      cases hcase with
      | closed => exact ⟨(List.append_nil _).symm, fun _ _ => id⟩
      | error e => exact ⟨(List.append_nil _).symm, fun _ _ => id⟩
      | «continue» n bytes _ _ _ _ => exact ⟨(List.append_nil _).symm, fun _ _ => id⟩
      | done n bytes _ _ _ _ => exact ⟨rfl, fun _ _ => id⟩
    | outputStream k =>
      simp only [ha] at hc
      cases hc
      exact other (by simp only [noted, ha]; rfl) (outputRead_requests.trans outputWrite_requests)
    | workerStream k =>
      simp only [ha] at hc
      exact other (by simp only [noted, ha]; rfl) (workerEvent_requests hc)
    | stderr f =>
      simp only [ha] at hc
      cases hc
      exact other (by simp only [noted, ha]; rfl) (pipeEvent_requests _ _ f)
    | stdout f =>
      simp only [ha] at hc
      cases hc
      exact other (by simp only [noted, ha]; rfl) (pipeEvent_requests _ _ f)

theorem Client.handled {ns : List Note} {pend : List Token} {s : ClientStream}
    (h : Client ns (tk :: pend) c tk s) (io : EventIo)
    (kept : ∀ i, (c.os.source s.stream).reg = some (tk, i) → tk ∉ c.toRemove) :
    Client (ns ++ Loop.handled (s.read (c.os.read s.stream s.room io.read).1)) pend
        (c.clientEvent tk s io) tk (s.read (c.os.read s.stream s.room io.read).1).2 ∧
      (c.clientEvent tk s io).ioActions tk =
        some (.clientStream (s.read (c.os.read s.stream s.room io.read).1).2) := by
  cases h.stage with
  | handedOff reg full spent kept pushed unfailed => exact absurd (List.mem_cons_self) spent
  | failed reg spent unpushed => exact absurd (List.mem_cons_self) spent
  | reading reg unarmed short single unpushed unfailed =>
    have spent : tk ∉ pend := by
      rw [← List.count_eq_zero]
      rw [List.count_cons_self] at single
      omega
    have hcase := clientEvent_cases c tk (show 0 < s.room from Nat.sub_pos_of_lt short) io
    generalize s.read (c.os.read s.stream s.room io.read).1 = r at hcase ⊢
    generalize c.clientEvent tk s io = d at hcase ⊢
    have filled : ∀ {n bytes}, (c.os.source s.stream).input.take n = bytes → n ≤ s.room →
        (s.fill bytes).bytesRead ≤ requestHeaderSize ∧ bytesOf s.stream ns =
          (s.fill bytes).buffer.toList.take (s.fill bytes).bytesRead ++
            (c.os.source s.stream).input.drop n := by
      intro n bytes read fits
      have hlen : bytes.length ≤ n := by
        rw [← read]
        exact List.length_take_le _ _
      have hroom : s.bytesRead + bytes.length ≤ requestHeaderSize := by
        have hr : s.room = requestHeaderSize - s.bytesRead := rfl
        omega
      refine ⟨hroom, ?_⟩
      rw [h.bytes, show (s.fill bytes).bytesRead = s.bytesRead + bytes.length from rfl,
        ClientStream.fill_taken hroom, List.append_assoc, ← read, List.take_append_drop]
    cases hcase with
    | closed =>
      refine ⟨⟨?_, .failed ?_ spent ?_⟩, IoActions.insert_same _ _ _⟩
      · simpa [Loop.handled, drop, World.deregister, bytesOf, bytesTo] using h.bytes
      · simp [drop, World.deregister, Source.detach]
      · simpa [Loop.handled, handedOver, pushes, request?] using unpushed
    | error e =>
      refine ⟨⟨?_, .failed ?_ spent ?_⟩, IoActions.insert_same _ _ _⟩
      · simpa [Loop.handled, drop, World.deregister, bytesOf, bytesTo] using h.bytes
      · simp [drop, World.deregister, Source.detach]
      · simpa [Loop.handled, handedOver, pushes, request?] using unpushed
    | «continue» n bytes read some fits more =>
      obtain ⟨hle, hbytes⟩ := filled read fits
      simp only [Loop.handled, List.append_nil]
      refine ⟨⟨?_, .reading ?_ ?_ (Nat.lt_of_le_of_ne hle more) ?_ unpushed unfailed⟩,
        IoActions.insert_same _ _ _⟩
      · simpa [ClientStream.fill, Source.drained] using hbytes
      · simpa [ClientStream.fill, Source.drained] using reg
      · simpa [ClientStream.fill, Source.drained] using unarmed
      · rw [List.count_eq_zero.mpr spent]
        exact Nat.zero_le _
    | done n bytes read some fits full =>
      obtain ⟨-, hbytes⟩ := filled read fits
      refine ⟨⟨?_, .handedOff ?_ full spent (kept _ reg) ?_ ?_⟩, IoActions.insert_same _ _ _⟩
      · simpa [ClientStream.fill, Source.drained, Loop.handled, World.deregister, bytesOf, bytesTo]
          using hbytes
      · simp [ClientStream.fill, World.deregister, Source.detach]
      · simp [Loop.handled, pushes, request?, ClientStream.rawFd]
      · simpa [Loop.handled, failures, failed?, ClientStream.fill] using unfailed

-- a client that the main listener has just let in
theorem Client.enrolled {ns : List Note} {pend : List Token} {s : ClientStream} {t : Token}
    (below : ∀ n ∈ ns, n.sock < c.os.next) (new : c.ioToken ∉ pend) (hk : k < c.os.next)
    (hx : ⟨t, s.stream, .clientStream⟩ ∈ c.enroll k io .clientStream)
    (hc : c.acceptMain k io = .running c') (hs : c'.act t = some (.clientStream s)) :
    Client (ns ++ c.opened k io) pend c' t s := by
  simp only [enroll] at hx
  split at hx
  · rename_i hok
    obtain ⟨ready, accept, registered⟩ := hok
    obtain ⟨rfl, -⟩ := Issue.mk.inj (List.mem_singleton.mp hx)
    have others : ∀ n ∈ ns, n.sock ≠ c.os.next := fun n hn => Nat.ne_of_lt (below n hn)
    cases acceptMain_cases hc with
    | idle none => exact absurd none (by simp [ready, accept])
    | dropped os _ _ _ refused _ =>
      rw [registered] at refused
      cases refused
    | adopted os _ _ ok _ _ =>
      have hact := congrFun (IoActions.insertAll_concat c.ioActions c.toInsert c.ioToken
        (.clientStream (.new c.os.next))) c.ioToken
      cases (hact.trans (IoActions.insert_same _ _ _)).symm.trans hs
      have hopened : c.opened k io = [.received c.os.next io.accept.early] := opened_ready ready accept
      have hsrc : ((os.modify c.os.next (·.attach c.ioToken ro)).modify k
          (·.attach mainListenerTk ro)).source c.os.next =
            (os.source c.os.next).attach c.ioToken ro := by
        rw [World.modify_other _ _ (Nat.ne_of_gt hk), World.modify_same]
      refine ⟨?_, .reading ?_ ?_ (Nat.zero_lt_succ 7) ?_ ?_ ?_⟩
      · rw [hopened, bytesOf_append, ClientStream.new_stream,
          bytesOf_other others, hsrc, ok.opened]
        simp [bytesOf, bytesTo, ClientStream.new]
      · rw [ClientStream.new_stream, hsrc]
        rfl
      · rw [ClientStream.new_stream, hsrc]
        rfl
      · rw [List.count_eq_zero.mpr new]
        exact Nat.zero_le _
      · rw [hopened, handedOver_append, ClientStream.new_stream]
        simpa [handedOver, pushes, request?] using handedOver_other others
      · rw [hopened, failures_append, ClientStream.new_stream]
        simpa [failures, failed?] using failures_other others
  · cases hx

section

variable {ns : List Note} {pend : List Token} {issues : List Issue} {s : ClientStream}

-- a client whose event is still to come has handed over nothing
theorem Custody.reading (h : Custody ns (ev.token :: pend) c) (w : Wired issues (ev.token :: pend) c)
    (hs : c.ioActions ev.token = some (.clientStream s)) :
    0 < s.room ∧ s.stream ∉ handedOver ns ∧ s.stream ∉ failures ns := by
  cases (h.clients _ s (w.act_of hs)).stage with
  | reading _ _ short _ unpushed unfailed => exact ⟨Nat.sub_pos_of_lt short, unpushed, unfailed⟩
  | handedOff _ _ hs _ _ _ => exact absurd List.mem_cons_self hs
  | failed _ hs _ => exact absurd List.mem_cons_self hs

theorem Custody.reader (h : Custody ns (ev.token :: pend) c) (w : Wired issues (ev.token :: pend) c)
    (hc : c.event env ev io = .running c') (hs : c.ioActions ev.token = some (.clientStream s)) :
    Client (ns ++ c.noted ev io) pend c' ev.token (s.read (c.os.read s.stream s.room io.read).1).2 ∧
      c'.ioActions ev.token = some (.clientStream (s.read (c.os.read s.stream s.room io.read).1).2) := by
  have hclient := (h.clients _ s (w.act_of hs)).handled io fun i hi => (w.registered _ _ i hi).2.1
  simp only [Loop.event, hs] at hc
  cases hc
  simp only [noted, hs]
  exact hclient

theorem Custody.bystander (h : Custody ns (ev.token :: pend) c) (w : Wired issues (ev.token :: pend) c)
    (hc : c.event env ev io = .running c') {t : Token} (ht : t ≠ ev.token)
    (hx : ⟨t, s.stream, .clientStream⟩ ∈ issues) (hs : c'.act t = some (.clientStream s)) :
    Client (ns ++ c.noted ev io) pend c' t s := by
  obtain ⟨a, ha⟩ := Option.isSome_iff_exists.mp (w.held ev.token (by simp))
  have ap := event_apart ha hc
  have hne : s.stream ≠ a.sock := fun eq => ht (congrArg Issue.token (w.same_sock hx (w.issue ha) eq))
  have others : ∀ n ∈ c.noted ev io, n.sock ≠ s.stream := by
    intro n hn eq
    rcases event_next ha hc hn with hs | ⟨rfl, -⟩
    · exact hne (eq.symm.trans hs)
    · exact absurd eq.symm (w.fresh hx).2
  have hold := h.clients t s ((ap.act t ht (w.below _ hx).1).symm.trans hs)
  have hsrc : c'.os.source s.stream = c.os.source s.stream := ap.source _ hne (w.below _ hx).2
  have unheard : bytesOf s.stream (c.noted ev io) = [] := bytesOf_other others
  refine hold.frame ?_ (handedOver_other others) (failures_other others) List.count_le_count_cons
    (ap.toRemove t ht).mp
  rw [hsrc, unheard]
  exact .refl _

theorem Custody.newcomer (h : Custody ns (ev.token :: pend) c) (w : Wired issues (ev.token :: pend) c)
    (hc : c.event env ev io = .running c') {t : Token} (hx : ⟨t, s.stream, .clientStream⟩ ∈ c.issued ev io)
    (hs : c'.act t = some (.clientStream s)) : Client (ns ++ c.noted ev io) pend c' t s := by
  obtain ⟨a, ha⟩ := Option.isSome_iff_exists.mp (w.held ev.token (by simp))
  have hown := w.issue ha
  have new : c.ioToken ∉ pend := by
    intro hp
    have hsome := w.held c.ioToken (List.mem_cons_of_mem _ hp)
    rw [w.ioActions_fresh] at hsome
    cases hsome
  simp only [issued, ha] at hx
  simp only [Loop.event, ha] at hc
  cases a with
  | mainListener k =>
    simp only [noted, ha]
    exact Client.enrolled h.below new (w.below _ hown).2 hx hc hs
  | outputListener k => cases enroll_kind hx
  | unixListener k => cases enroll_kind hx
  | _ => cases hx

theorem Custody.event_clients (h : Custody ns (ev.token :: pend) c) (w : Wired issues (ev.token :: pend) c)
    (w' : Wired (issues ++ c.issued ev io) pend c') (hc : c.event env ev io = .running c') {t : Token}
    (hs : c'.act t = some (.clientStream s)) : Client (ns ++ c.noted ev io) pend c' t s := by
  have hx := w'.actions t _ hs
  by_cases ht : t = ev.token
  · subst ht
    obtain ⟨a, ha⟩ := Option.isSome_iff_exists.mp (w.held ev.token (by simp))
    have hk := congrArg Issue.kind (w'.same_token (List.mem_append_left _ (w.issue ha)) hx rfl)
    cases a with
    | clientStream s₀ =>
      obtain ⟨hclient, hact⟩ := h.reader w hc ha
      cases (w'.act_of hact).symm.trans hs
      exact hclient
    | _ => cases hk
  · rcases List.mem_append.mp hx with old | new
    · exact h.bystander w hc ht old hs
    · exact h.newcomer w hc new hs

-- an event hands over at most the client it reads, or ends it
theorem Custody.event_ends (h : Custody ns (ev.token :: pend) c) (w : Wired issues (ev.token :: pend) c)
    (io : EventIo) :
    handedOver (c.noted ev io) = [] ∧ failures (c.noted ev io) = [] ∨
      ∃ s, c.ioActions ev.token = some (.clientStream s) ∧ s.stream ∉ handedOver ns ∧ s.stream ∉ failures ns ∧
        (handedOver (c.noted ev io) = [s.stream] ∧ failures (c.noted ev io) = [] ∨
          handedOver (c.noted ev io) = [] ∧ failures (c.noted ev io) = [s.stream]) := by
  obtain ⟨a, ha⟩ := Option.isSome_iff_exists.mp (w.held ev.token (by simp))
  rcases @noted_ends c ev io a ha with none | ⟨s, rfl, ends⟩
  · exact .inl none
  · obtain ⟨-, unpushed, unfailed⟩ := h.reading w ha
    exact .inr ⟨s, ha, unpushed, unfailed, ends⟩

theorem Custody.event_once (h : Custody ns (ev.token :: pend) c) (w : Wired issues (ev.token :: pend) c) :
    (handedOver (ns ++ c.noted ev io)).Nodup := by
  rw [handedOver_append]
  rcases h.event_ends w io with ⟨hp, -⟩ | ⟨s, -, unpushed, -, ⟨hp, -⟩ | ⟨hp, -⟩⟩
  · simpa [hp] using h.once
  · rw [hp]
    refine List.Nodup.append h.once (List.nodup_singleton _) fun j hj hnew => ?_
    rw [List.mem_singleton.mp hnew] at hj
    exact unpushed hj
  · simpa [hp] using h.once

theorem Custody.event_apart (h : Custody ns (ev.token :: pend) c) (w : Wired issues (ev.token :: pend) c) :
    ∀ j ∈ failures (ns ++ c.noted ev io), j ∉ handedOver (ns ++ c.noted ev io) := by
  intro j hj
  rw [failures_append] at hj
  rw [handedOver_append]
  rcases h.event_ends w io with ⟨hp, hf⟩ | ⟨s, -, unpushed, unfailed, ⟨hp, hf⟩ | ⟨hp, hf⟩⟩
  · rw [hf, List.append_nil] at hj
    simpa [hp] using h.apart j hj
  · rw [hf, List.append_nil] at hj
    have hne : j ≠ s.stream := fun eq => unfailed (eq ▸ hj)
    simpa [hp, hne] using h.apart j hj
  · rw [hp, List.append_nil]
    rw [hf, List.mem_append, List.mem_singleton] at hj
    rcases hj with hj | rfl
    · exact h.apart j hj
    · exact unpushed

theorem Custody.event_below (h : Custody ns (ev.token :: pend) c) (w : Wired issues (ev.token :: pend) c)
    (hc : c.event env ev io = .running c') : ∀ n ∈ ns ++ c.noted ev io, n.sock < c'.os.next := by
  obtain ⟨a, ha⟩ := Option.isSome_iff_exists.mp (w.held ev.token (by simp))
  have next := (Loop.event_apart ha hc).next
  intro n hn
  rcases List.mem_append.mp hn with hn | hn
  · exact Nat.lt_of_lt_of_le (h.below n hn) next
  · rcases event_next ha hc hn with hs | ⟨rfl, hlt⟩
    · rw [hs]
      exact Nat.lt_of_lt_of_le (w.below _ (w.issue ha)).2 next
    · exact hlt

-- what has been handed over stays under its token
theorem Custody.event_held (h : Custody ns (ev.token :: pend) c) (w : Wired issues (ev.token :: pend) c)
    (hc : c.event env ev io = .running c') {j : Sock} (hj : j ∈ handedOver (ns ++ c.noted ev io)) :
    ∃ t s, c'.ioActions t = some (.clientStream s) ∧ s.stream = j := by
  obtain ⟨a, ha⟩ := Option.isSome_iff_exists.mp (w.held ev.token (by simp))
  have old : j ∈ handedOver ns → ∃ t s, c'.ioActions t = some (.clientStream s) ∧ s.stream = j := by
    intro hj
    obtain ⟨t, s, hs, rfl⟩ := h.held j hj
    refine ⟨t, s, ?_, rfl⟩
    by_cases ht : t = ev.token
    · subst ht
      exact absurd hj (h.reading w hs).2.1
    · rw [(Loop.event_apart ha hc).ioActions t ht (w.below _ (w.issue hs)).1]
      exact hs
  rw [handedOver_append] at hj
  rcases h.event_ends w io with ⟨hp, -⟩ | ⟨s, hs, -, -, ⟨hp, -⟩ | ⟨hp, -⟩⟩
  · exact old (by simpa [hp] using hj)
  · rw [hp, List.mem_append, List.mem_singleton] at hj
    rcases hj with hj | rfl
    · exact old hj
    · exact ⟨ev.token, _, (h.reader w hc hs).2, s.read_stream _⟩
  · exact old (by simpa [hp] using hj)

theorem Custody.event (h : Custody ns (ev.token :: pend) c) (w : Wired issues (ev.token :: pend) c)
    (w' : Wired (issues ++ c.issued ev io) pend c') (hc : c.event env ev io = .running c') :
    Custody (ns ++ c.noted ev io) pend c' := by
  obtain ⟨requests, outFds⟩ := event_requests (fun s hs => (h.reading w hs).1) hc
  exact {
    clients := fun t s hs => h.event_clients w w' hc hs
    once := h.event_once w
    apart := h.event_apart w
    below := h.event_below w hc
    held := fun j hj => h.event_held w hc hj
    queue := by
      obtain ⟨sent, hsent⟩ := h.queue
      exact ⟨sent, by rw [requests, pushes_append, ← hsent, List.append_assoc]⟩
    queued := fun v fd hfd => by
      rw [handedOver_append]
      exact List.mem_append_left _ (h.queued v fd (outFds v fd hfd)) }

end

theorem dispatch_outFds {w : Sock} {fd : Sock} (h : fd ∈ ((c.dispatch env).workers w).outFds) :
    fd ∈ (c.workers w).outFds ∨ fd ∈ c.newRequests.map Prod.snd := by
  cases hk : c.workerStreams.chosen with
  | none =>
    rw [dispatch, WorkerStreams.dispatch_none hk] at h
    exact .inl h
  | some k =>
    simp only [dispatch] at h
    by_cases hw : w = k
    · subst hw
      rw [WorkerStreams.dispatch_chosen hk, WorkerStream.dispatch_all, List.mem_append] at h
      refine h.imp_right fun hfd => ?_
      obtain ⟨req, hreq, rfl⟩ := List.mem_map.mp hfd
      exact List.mem_map_of_mem (List.mem_of_mem_take hreq)
    · rw [WorkerStreams.dispatch_other hk hw] at h
      exact .inl h

theorem dispatch_requests (c : Loop) :
    (c.dispatch env).newRequests = c.newRequests ∨ (c.dispatch env).newRequests = [] := by
  cases hk : c.workerStreams.chosen with
  | none => exact .inl (congrArg WorkerStreams.Dispatched.newRequests (WorkerStreams.dispatch_none hk))
  | some k => exact .inr (WorkerStreams.dispatch_newRequests hk)

theorem head_act {io : HeadIo} (hc : c.head env io = .running c') {t : Token} {a : IoAction}
    (ha : c'.act t = some a) : c.settle.ioActions t = some a := by
  have tunes := head_tunes hc
  rw [act, tunes.toInsert, tunes.ioActions] at ha
  exact ha

-- the loop head leaves the clients alone
theorem head_client {issues : List Issue} {io : HeadIo} (w : Wired issues [] c)
    (hc : c.head env io = .running c') {t : Token} {s : ClientStream} (hs : c.act t = some (.clientStream s)) :
    c'.os.source s.stream = c.os.source s.stream ∧ t ∉ c'.toRemove := by
  have tunes := head_tunes hc
  have clientIssue : ∀ {x}, x ∈ issues → x.token = t ∨ x.sock = s.stream → x.kind = .clientStream := by
    intro x hx hor
    have hy := w.actions t _ hs
    rcases hor with ht | hk
    · exact congrArg Issue.kind (w.same_token hx hy ht)
    · exact congrArg Issue.kind (w.same_sock hx hy hk)
  constructor
  · refine tunes.other s.stream (fun p hp eq => ?_) fun sessionId hk => ?_
    · have hp : p ∈ c.workerStreams.streams := by
        rwa [dispatch, WorkerStreams.dispatch_streams] at hp
      cases clientIssue (w.workers p hp) (.inr eq)
    · obtain ⟨tk, hx⟩ := w.sessions sessionId _ hk
      cases clientIssue hx (.inr rfl)
  · intro ht
    rcases tunes.toRemove t ht with hnil | ⟨sessionId, k, hk, rfl⟩
    · cases hnil
    · obtain ⟨tk, hx⟩ := w.sessions sessionId _ hk
      have htk : (c.outputs k).token = tk := w.outputs _ hx rfl
      cases clientIssue hx (.inl htk.symm)

theorem Custody.head {ns : List Note} {issues : List Issue} {io : HeadIo} (h : Custody ns [] c)
    (w : Wired issues [] c) (hc : c.head env io = .running c') : Custody ns [] c' := by
  have tunes := head_tunes hc
  refine ⟨fun t s hs => ?_, h.once, h.apart, fun n hn => ?_, fun k hk => ?_, ?_, fun v fd hfd => ?_⟩
  · have hold := Wired.settle_act (head_act hc hs)
    obtain ⟨source, kept⟩ := head_client w hc hold
    have fed : Fed (bytesOf s.stream []) (c.os.source s.stream) (c'.os.source s.stream) := by
      rw [source]
      exact .refl _
    have hframe := (h.clients t s hold).frame fed List.not_mem_nil List.not_mem_nil (Nat.le_refl _)
      fun ht => absurd ht kept
    rwa [List.append_nil] at hframe
  · rw [tunes.next]
    exact h.below n hn
  · obtain ⟨t, s, hs, rfl⟩ := h.held k hk
    have hold := w.act_of hs
    refine ⟨t, s, ?_, rfl⟩
    have kept : t ∉ c.toRemove := by
      cases (h.clients t s hold).stage with
      | reading _ _ _ _ unpushed _ => exact absurd hk unpushed
      | handedOff _ _ _ kept _ _ => exact kept
      | failed _ _ unpushed => exact absurd hk unpushed
    rw [tunes.ioActions]
    exact Wired.act_settle kept hold
  · rw [tunes.newRequests]
    rcases @dispatch_requests env c.settle with heq | heq
    · rw [heq]
      exact h.queue
    · rw [heq]
      exact List.nil_suffix
  · obtain ⟨i, hi⟩ := tunes.worker v
    rw [hi] at hfd
    rcases dispatch_outFds hfd with hfd | hfd
    · exact h.queued v fd hfd
    · exact (h.queue.map Prod.snd).subset hfd

theorem Custody.touch {ns new : List Note} {pend : List Token} {a : IoAction}
    {f : Source Token UInt8 → Source Token UInt8} (h : Custody ns pend c)
    (below : a.sock < c.os.next) (hf : ∀ src, Fed (bytesOf a.sock new) src (f src))
    (unpushed : handedOver new = []) (unfailed : failures new = [])
    (own : ∀ n ∈ new, n.sock = a.sock) :
    Custody (ns ++ new) pend { c with os := c.os.modify a.sock f } where
  clients t s hs := by
    refine (h.clients t s hs).frame ?_ (by simp [unpushed]) (by simp [unfailed]) (Nat.le_refl _) id
    dsimp only
    by_cases hk : s.stream = a.sock
    · rw [hk, World.modify_same]
      exact hf _
    · rw [World.modify_other _ _ hk, bytesOf_other fun n hn eq => hk (eq.symm.trans (own n hn))]
      exact .refl _
  once := by
    rw [handedOver_append, unpushed, List.append_nil]
    exact h.once
  apart k hk := by
    rw [failures_append, unfailed, List.append_nil] at hk
    rw [handedOver_append, unpushed, List.append_nil]
    exact h.apart k hk
  below n hn := by
    rcases List.mem_append.mp hn with hn | hn
    · exact h.below n hn
    · rw [own n hn]
      exact below
  held k hk := by
    rw [handedOver_append, unpushed, List.append_nil] at hk
    exact h.held k hk
  queue := by
    have hp : pushes new = [] := List.map_eq_nil_iff.mp unpushed
    rw [pushes_append, hp, List.append_nil]
    exact h.queue
  queued w fd hfd := by
    rw [handedOver_append, unpushed, List.append_nil]
    exact h.queued w fd hfd

theorem Custody.polled {ns : List Note} {events : List Event} {os : World Token UInt8}
    (h : Custody ns [] c) (notified : c.os.notifyAll c.sockOf events = some os) :
    Custody ns (events.map Event.token) { c with os := os } := by
  obtain ⟨⟨next, reg⟩, -⟩ := World.notifyAll_some notified
  refine { h with clients := fun t s hs => ?_, below := fun n hn => ?_ }
  · have hclient := h.clients t s hs
    have own : c.sockOf t = some s.stream := congrArg (Option.map IoAction.sock) hs
    obtain ⟨r, wr, hsrc, -, -⟩ := World.notifyAll_deliver notified s.stream
    have spent : (c.os.source s.stream).reg = none → t ∉ events.map Event.token :=
      World.notifyAll_unregistered notified own
    refine ⟨?_, ?_⟩
    · rw [hclient.bytes, show (os.source s.stream).input = _ from congrArg Source.input hsrc]
      rfl
    · cases hclient.stage with
      | reading hreg unarmed short single unpushed unfailed =>
        refine .reading ((reg _).trans hreg) ?_ short ?_ unpushed unfailed
        · rw [show (os.source s.stream).writeArmed = _ from congrArg Source.writeArmed hsrc]
          simp [Source.deliver, unarmed]
        · have hcount := World.notifyAll_count notified own
          rw [unarmed] at hcount
          exact Nat.le_trans hcount (Bool.toNat_le _)
      | handedOff hreg full _ kept pushed unfailed =>
        exact .handedOff ((reg _).trans hreg) full (spent hreg) kept pushed unfailed
      | failed hreg _ unpushed => exact .failed ((reg _).trans hreg) (spent hreg) unpushed
  · rw [next]
    exact h.below n hn

end

end Loop

namespace System

variable {env : Env}

structure Custody (ns : List Note) (s : System) : Prop where
  boot : s.phase = .boot → ns = []
  custody : ∀ c, s.flow = .running c → Loop.Custody ns (Phase.pend s.phase) c

theorem custody_new (next : Sock) : Loop.Custody [] [] (.new ⟨fun _ => .idle, next⟩) where
  clients tk s h := by cases h
  once := List.nodup_nil
  apart k h := by cases h
  below n h := by cases h
  held k h := by cases h
  queue := List.nil_suffix
  queued w fd h := by cases h

-- what is registered before the loop is no client stream
theorem custody_booted {os : World Token UInt8} {c : Loop} {refused : Sock → Bool} {main output unix : Sock}
    {workers : List (Sock × Sock)} (hb : (Loop.new os).boot refused main output unix workers = .ok c)
    (w : Loop.Wired (bootIssues main output unix workers) [] c) : Loop.Custody [] [] c where
  clients tk s hs := absurd rfl (bootIssues_kind (w.actions tk _ hs)).1
  once := List.nodup_nil
  apart k h := by cases h
  below n h := by cases h
  held k h := by cases h
  queue := by
    rw [show c.newRequests = [] from congrArg Loop.newRequests (Loop.boot_boots hb).rest]
    exact List.nil_suffix
  queued v fd hfd := by
    rw [show c.workers = fun _ => .new ro from congrArg Loop.workers (Loop.boot_boots hb).rest] at hfd
    cases hfd

theorem Custody.touch {ns new : List Note} {issues : List Issue} {s : System} (h : Custody ns s)
    {c : Loop} (hc : s.flow = .running c) (w : Loop.Wired issues (Phase.pend s.phase) c) {tk : Token}
    {a : IoAction} (found : c.act tk = some a) {f : Source Token UInt8 → Source Token UInt8}
    (hf : ∀ src, Loop.Fed (bytesOf a.sock new) src (f src)) (unpushed : handedOver new = [])
    (unfailed : failures new = []) (own : ∀ n ∈ new, n.sock = a.sock) (boot : s.phase ≠ .boot) :
    Custody (ns ++ new) { s with flow := .running { c with os := c.os.modify a.sock f } } where
  boot phase := absurd phase boot
  custody c' hc' := by
    cases hc'
    exact (h.custody c hc).touch (w.below _ (w.actions tk a found)).2 hf unpushed unfailed own

theorem Custody.step {ns : List Note} {issues : List Issue} {s s' : System} {l : Label}
    (h : Custody ns s) (w : Wired issues s) (hs : step env s l = some s') :
    Custody (ns ++ s.noted l) s' := by
  have w' := w.step hs
  obtain ⟨c, hc, hcase⟩ := step_cases env hs
  have wired := w.wired c hc
  have custody := h.custody c hc
  have booted : ∀ {tk a}, c.act tk = some a → s.phase ≠ .boot := by
    intro tk a ha phase
    rw [(w.boot c hc phase).2] at ha
    cases ha
  cases hcase with
  | boot refused main output unix workers phase below =>
    have hn : s.noted (.boot refused main output unix workers) = [] := by simp [noted, hc]
    rw [hn, List.append_nil]
    obtain ⟨rfl, hnew⟩ := w.boot c hc phase
    have hi : s.issued (.boot refused main output unix workers) =
        bootIssues main output unix workers := by simp [issued, hc, phase]
    rw [hi, List.nil_append] at w'
    obtain rfl := h.boot phase
    refine ⟨fun hp => (by cases hp), fun c' hc' => ?_⟩
    cases hb : c.boot refused main output unix workers with
    | error e => simp [hb, outcome] at hc'
    | ok c'' =>
      simp only [hb, outcome] at hc'
      cases hc'
      have wired' := w'.wired c' (by simp [hb, outcome])
      rw [hnew] at hb
      exact custody_booted hb wired'
  | head io phase order =>
    have hn : s.noted (.head io) = [] := by simp [noted, hc]
    rw [hn, List.append_nil]
    rw [phase] at wired custody
    exact ⟨fun hp => (by cases hp), fun c' hc' => custody.head wired hc'⟩
  | poll events os phase notified =>
    have hn : s.noted (.poll events) = [] := by simp [noted, hc]
    rw [hn, List.append_nil]
    rw [phase] at custody
    refine ⟨fun hp => (by cases hp), fun c' hc' => ?_⟩
    cases hc'
    exact custody.polled notified
  | event io ev batch phase =>
    have hn : s.noted (.event io) = c.noted ev io := by simp [noted, hc, phase]
    have hi : s.issued (.event io) = c.issued ev io := by simp [issued, hc, phase]
    rw [hn]
    rw [phase] at wired custody
    refine ⟨fun hp => (by cases hp), fun c' hc' => ?_⟩
    have wired' := w'.wired c' hc'
    rw [hi] at wired'
    exact custody.event wired wired' hc'
  | connect tk act found listens =>
    have hn : s.noted (.connect tk) = [] := by simp [noted, hc]
    rw [hn]
    exact @Custody.touch ns [] issues s h c hc wired tk act found _
      (fun _ => ⟨rfl, (List.append_nil _).symm, id⟩) rfl rfl (by simp) (booted found)
  | arrive tk act bytes found listens =>
    have hn : s.noted (.arrive tk bytes) = [.received act.sock bytes] := by
      simp [noted, hc, Loop.sockOf, found]
    rw [hn]
    refine @Custody.touch ns [.received act.sock bytes] issues s h c hc wired tk act found _
      (fun src => ⟨src.arrive_reg bytes, ?_, fun hu => Source.arrive_unarmed hu bytes⟩) rfl rfl ?_
      (booted found)
    · simp [bytesOf, bytesTo]
    · intro n hn
      rw [List.mem_singleton.mp hn]
      rfl
  | close tk act found listens =>
    have hn : s.noted (.close tk) = [] := by simp [noted, hc]
    rw [hn]
    exact @Custody.touch ns [] issues s h c hc wired tk act found _
      (fun _ => ⟨rfl, (List.append_nil _).symm, id⟩) rfl rfl (by simp) (booted found)

theorem custody_init (next : Sock) : Custody [] (machine env next).init := by
  refine ⟨fun _ => rfl, fun c hc => ?_⟩
  cases hc
  exact custody_new next

theorem custody_run {next : Sock} {ls : List Label} {s : System} {ns : List Note}
    (run : ((machine env next).traced noted).exec ls = some (s, ns)) :
    Custody ns s ∧ ∃ issues, Wired issues s := by
  refine @Machine.invariant _ _ ((machine env next).traced noted)
    (fun p => Custody p.2 p.1 ∧ ∃ issues, Wired issues p.1) ?_ (fun p l p' hp hl => ?_) _ _ run
  · exact ⟨@custody_init env next, [], @wired_init env next⟩
  · obtain ⟨hs, heq⟩ := Machine.traced_step hl
    obtain ⟨custody, issues, wired⟩ := hp
    rw [heq]
    exact ⟨custody.step wired hs, _, wired.step hs⟩

-- a connection is its socket: descriptors are numbered by connection and never used again
structure HandsOff (ns : List Note) (c : Loop) : Prop where
  header : ∀ req ∈ pushes ns, bytesOf req.2 ns = req.1.toList ++ (c.os.source req.2).input
  once : (handedOver ns).Nodup
  failed : ∀ k ∈ failures ns, k ∉ handedOver ns
  queued : c.newRequests <:+ pushes ns ∧ ∀ w, ∀ fd ∈ (c.workers w).outFds, fd ∈ handedOver ns
  held : ∀ req ∈ pushes ns, ∃ tk s, c.ioActions tk = some (.clientStream s) ∧ tk ∉ c.toRemove ∧
    s.rawFd = req.2 ∧ s.header = req.1

theorem hands_off {next : Sock} {ls : List Label} {s : System} {ns : List Note} {c : Loop}
    (run : ((machine env next).traced noted).exec ls = some (s, ns)) (running : s.flow = .running c) :
    HandsOff ns c := by
  obtain ⟨hs, issues, wired⟩ := custody_run run
  have custody := hs.custody c running
  have owned : ∀ req ∈ pushes ns, ∃ tk s, c.ioActions tk = some (.clientStream s) ∧ tk ∉ c.toRemove ∧
      req = (s.header, s.stream) ∧
      bytesOf s.stream ns = s.header.toList ++ (c.os.source s.stream).input := by
    intro req hreq
    obtain ⟨tk, s, ha, heq⟩ := custody.held req.2 (List.mem_map_of_mem hreq)
    have hclient := custody.clients tk s ((wired.wired c running).act_of ha)
    have gone : s.stream ∈ handedOver ns := heq ▸ List.mem_map_of_mem hreq
    cases hclient.stage with
    | reading _ _ _ _ unpushed _ => exact absurd gone unpushed
    | failed _ _ unpushed => exact absurd gone unpushed
    | handedOff _ full _ kept pushed _ =>
      refine ⟨tk, s, ha, kept, ?_, ?_⟩
      · exact List.inj_on_of_nodup_map custody.once hreq pushed heq.symm
      · have hbytes := hclient.bytes
        rwa [full, List.take_of_length_le (by simp)] at hbytes
  refine ⟨fun req hreq => ?_, custody.once, custody.apart, ⟨custody.queue, custody.queued⟩,
    fun req hreq => ?_⟩
  · obtain ⟨tk, s, -, -, rfl, hbytes⟩ := owned req hreq
    exact hbytes
  · obtain ⟨tk, s, ha, kept, rfl, -⟩ := owned req hreq
    exact ⟨tk, s, ha, kept, rfl, rfl⟩

def twoChunks : List Label :=
  [.boot (fun _ => false) 0 1 2 [(3, 4)], .head (calmHead []), .connect 0, .poll [⟨0, true, false⟩],
    .event calmEvent, .arrive 5 [1, 0, 0], .head (calmHead []), .poll [⟨5, true, false⟩],
    .event calmEvent, .arrive 5 [0, 0, 0, 0, 7, 9], .head (calmHead []), .poll [⟨5, true, false⟩],
    .event calmEvent]

theorem hands_off_twoChunks : ∃ s ns c, ((machine fixintEnv 5).traced noted).exec twoChunks = some (s, ns) ∧
    s.flow = .running c ∧ HandsOff ns c ∧ pushes ns = [(#v[1, 0, 0, 0, 0, 0, 0, 7], 5)] := by
  have hrun : (((machine fixintEnv 5).traced noted).exec twoChunks).any (fun p =>
      p.1.runs && decide (pushes p.2 = [(#v[1, 0, 0, 0, 0, 0, 0, 7], 5)])) = true := by
    decide +kernel
  obtain ⟨⟨s, ns⟩, run, hp⟩ := (Option.any_eq_true _ _).mp hrun
  obtain ⟨hc, pushed⟩ := Bool.and_eq_true_iff.mp hp
  obtain ⟨c, running⟩ := runs_iff.mp hc
  exact ⟨s, ns, c, run, running, hands_off run running, of_decide_eq_true pushed⟩

end System
end PyProxy.Master
