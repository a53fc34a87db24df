import PyProxy.Master.Events
import PyProxy.Master.Wiring

namespace PyProxy.Master
open Poll Server Lines

namespace Loop

def enroll (c : Loop) (k : Sock) (io : EventIo) (kind : Kind) : List Issue :=
  if (c.os.source k).backlog ≠ 0 ∧ io.accept.refused = false ∧ io.registerRefused = false then
    [⟨c.ioToken, c.os.next, kind⟩]
  else []

def issued (c : Loop) (ev : Event) (io : EventIo) : List Issue :=
  match c.ioActions ev.token with
  | some (.mainListener k) => c.enroll k io .clientStream
  | some (.outputListener k) => c.enroll k io .outputStream
  | some (.unixListener k) => c.enroll k io .workerStream
  | _ => []

theorem enroll_kind {c : Loop} {k : Sock} {io : EventIo} {kind : Kind} {x : Issue}
    (h : x ∈ c.enroll k io kind) : x.kind = kind := by
  simp only [enroll] at h
  split at h
  · rw [List.mem_singleton.mp h]
  · cases h

namespace Wired

variable {env : Env} {issues : List Issue} {pend : List Token} {c c' : Loop} {k : Sock} {tk : Token}
  {a : IoAction} {io : EventIo} {ev : Event}

theorem enroll_none {kind : Kind}
    (h : ((c.os.source k).backlog = 0 ∨ io.accept.refused = true) ∨ io.registerRefused = true) :
    c.enroll k io kind = [] := by
  refine if_neg ?_
  rintro ⟨hready, hok, hreg⟩
  rcases h with (h | h) | h
  · exact hready h
  · rw [hok] at h
    cases h
  · rw [hreg] at h
    cases h

theorem enrolled (h : Wired issues pend c) {os : World Token UInt8} (ok : c.os.Accepted k io.accept os)
    (sock : a.sock = c.os.next) (ready : (c.os.source k).backlog ≠ 0)
    (accept : io.accept.refused = false) (reg : io.registerRefused = false)
    (ad : Adopts { c with os := os } c' c.ioToken a) :
    Wired (issues ++ c.enroll k io a.kind) pend c' := by
  have henroll : c.enroll k io a.kind = [⟨c.ioToken, a.sock, a.kind⟩] := by
    rw [sock]
    exact if_pos ⟨ready, accept, reg⟩
  rw [henroll]
  refine (h.accepted ok).adopt ad (fun x hx => ?_) ?_ ?_
  · rw [sock]
    exact h.fresh hx
  · rw [sock, ok.next]
    exact Nat.lt_succ_self _
  · exact fun hrem => Nat.lt_irrefl _ (h.removed _ hrem)

theorem adopts_deferred (h : Wired issues pend c) {os : World Token UInt8}
    (kind : a.kind = .clientStream) : Adopts { c with os := os } { c with
      os := os.modify a.sock (·.attach c.ioToken ro)
      toInsert := c.toInsert ++ [(c.ioToken, a)]
      ioToken := c.ioToken + 1 } c.ioToken a where
  os := rfl
  token := ⟨Nat.lt_succ_self _, Nat.le_succ _⟩
  act := IoActions.insertAll_concat _ _ _ _
  ioActions := fun _ => id
  inserted := by
    intro p hp
    rcases List.mem_append.mp hp with hp | hp
    · exact h.inserted p hp
    · rw [List.mem_singleton.mp hp]
      exact h.ioActions_fresh
  toRemove := rfl
  streams := fun p => .inl
  sessions := rfl
  outputs := fun _ _ => rfl
  output := fun hk => by
    rw [kind] at hk
    cases hk
  listener := fun hk => by
    rw [kind] at hk
    cases hk

theorem adopts_now (h : Wired issues pend c) (os : World Token UInt8) {streams : WorkerStreams}
    (workers : Workers) (outputs : Outputs) (quits : a.kind ≠ .mainListener)
    (added : ∀ p ∈ streams.streams, p ∈ c.workerStreams.streams ∨
      p = (c.ioToken, a.sock) ∧ a.kind = .workerStream)
    (other : ∀ k, k ≠ a.sock → outputs k = c.outputs k)
    (output : a.kind = .outputStream → (outputs a.sock).token = c.ioToken) :
    Adopts { c with os := os } { c with
      os := os.modify a.sock (·.attach c.ioToken ro)
      workers := workers
      outputs := outputs
      workerStreams := streams
      ioActions := c.ioActions.insert c.ioToken a
      ioToken := c.ioToken + 1 } c.ioToken a where
  os := rfl
  token := ⟨Nat.lt_succ_self _, Nat.le_succ _⟩
  act := IoActions.insertAll_insert fun _ => h.toInsert_fresh
  ioActions := by
    intro t ht
    simp only [IoActions.insert]
    split
    · rfl
    · exact ht
  inserted := fun p hp =>
    (IoActions.insert_other _ _ (h.toInsert_fresh hp)).trans (h.inserted p hp)
  toRemove := rfl
  streams := added
  sessions := rfl
  outputs := other
  output := output
  listener := fun hk => absurd hk quits

theorem acceptMain (h : Wired issues pend c) (ha : c.ioActions tk = some (.mainListener k))
    (hc : c.acceptMain k io = .running c') :
    Wired (issues ++ c.enroll k io .clientStream) pend c' := by
  have hmain := h.act_of ha
  obtain ⟨rfl, -⟩ := h.listener tk k hmain
  cases acceptMain_cases hc with
  | idle none =>
    rw [enroll_none (.inl none), List.append_nil]
    exact h
  | dropped os ready accept ok refused reg =>
    rw [enroll_none (.inr refused), List.append_nil]
    exact ((h.accepted ok).attach (h.actions _ _ hmain) reg rfl).skip
  | adopted os ready accept ok registered reg =>
    have base := h.enrolled ok (a := .clientStream (.new c.os.next)) rfl ready accept registered
      (h.adopts_deferred rfl)
    exact base.attach (List.mem_append_left _ (h.actions _ _ hmain)) reg rfl

theorem acceptOutput (h : Wired issues pend c) :
    Wired (issues ++ c.enroll k io .outputStream) pend (c.acceptOutput k io) := by
  have hcase := c.acceptOutput_cases k io
  generalize c.acceptOutput k io = d at hcase ⊢
  cases hcase with
  | idle none =>
    rw [enroll_none (.inl none), List.append_nil]
    exact h
  | dropped os ready accept ok refused =>
    rw [enroll_none (.inr refused), List.append_nil]
    exact (h.accepted ok).skip
  | adopted os ready accept ok registered =>
    have ad := h.adopts_now (a := .outputStream c.os.next) os c.workers
      (c.outputs.set c.os.next (.new c.ioToken ro)) Kind.noConfusion (fun p => .inl)
      (fun j hj => Outputs.set_other _ _ hj)
      fun _ => congrArg OutputStream.token (Outputs.set_same _ _ _)
    exact h.enrolled ok rfl ready accept registered ad

theorem acceptUnix (h : Wired issues pend c) (hc : c.acceptUnix k io = .running c') :
    Wired (issues ++ c.enroll k io .workerStream) pend c' := by
  cases acceptUnix_cases hc with
  | idle none =>
    rw [enroll_none (.inl none), List.append_nil]
    exact h
  | adopted os ready accept ok registered =>
    have added : ∀ p ∈ (c.workerStreams.add c.ioToken c.os.next).streams,
        p ∈ c.workerStreams.streams ∨ p = (c.ioToken, c.os.next) ∧
          Kind.workerStream = .workerStream := by
      intro p hp
      rcases List.mem_append.mp hp with hp | hp
      · exact .inl hp
      · exact .inr ⟨List.mem_singleton.mp hp, rfl⟩
    have ad := h.adopts_now (a := .workerStream c.os.next) os
      (c.workers.set c.os.next (.new ro)) c.outputs Kind.noConfusion added (fun _ _ => rfl)
      Kind.noConfusion
    exact h.enrolled ok rfl ready accept registered ad

theorem clientEvent (h : Wired issues pend c) {s : ClientStream}
    (ha : c.ioActions tk = some (.clientStream s)) :
    Wired issues pend (c.clientEvent tk s io) := by
  have quiet := c.os.read_quiet s.stream s.room io.read
  simp only [Loop.clientEvent]
  generalize c.os.read s.stream s.room io.read = r at quiet ⊢
  obtain ⟨res, os⟩ := r
  have hstream := s.read_stream res
  dsimp only
  generalize s.read res = r at hstream ⊢
  obtain ⟨res, s'⟩ := r
  have base := (h.io quiet.sameReg c.workers fun _ => rfl).replace ha
    (show (IoAction.clientStream s').sock = _ from hstream) rfl Kind.noConfusion
  have hx := h.issue ha
  dsimp only at hstream ⊢
  cases res with
  | «continue» => exact base
  | closed =>
    rw [hstream]
    exact base.drop hx Kind.noConfusion
  | done =>
    rw [hstream]
    exact (base.deregister hx Kind.noConfusion).requests c.workers _ rfl
  | error e =>
    rw [hstream]
    exact base.drop hx Kind.noConfusion

theorem dropIfErr {ε T : Type} (h : Wired issues pend c) {x : Issue} (hx : x ∈ issues)
    (quits : x.kind ≠ .mainListener) (res : Except ε T) :
    Wired issues pend (c.dropIfErr x.token x.sock res) := by
  cases res with
  | ok => exact h
  | error => exact h.drop hx quits

theorem openOutput (h : Wired issues pend c) (hx : ⟨tk, k, .outputStream⟩ ∈ issues)
    (refused : Bool) : Wired issues pend (c.openOutput tk k refused) := by
  have tokens : ∀ j, ((c.outputs.set k (c.outputs k).takeSessionId.2) j).token =
      (c.outputs j).token := by
    intro j
    by_cases hj : j = k
    · subst hj
      rw [Outputs.set_same]
      rfl
    · rw [Outputs.set_other _ _ hj]
  have base := h.io (.refl c.os) c.workers tokens
  simp only [Loop.openOutput]
  generalize (c.outputs k).takeSessionId = r at base ⊢
  obtain ⟨sessionId, s⟩ := r
  cases sessionId with
  | none => exact base
  | some sessionId =>
    dsimp only
    cases hr : c.os.reregister refused k tk rw with
    | none => exact base
    | some os =>
      obtain ⟨hsome, rfl⟩ := World.reregister_some hr
      exact (base.attach hx hsome rfl).session hx sessionId

theorem outputRead (h : Wired issues pend c) (ha : c.ioActions ev.token = some (.outputStream k)) :
    Wired issues pend (c.outputRead env ev k io) := by
  have hx := h.issue ha
  simp only [Loop.outputRead]
  split
  · have quiet := c.os.read_quiet k bufferSize io.read
    generalize c.os.read k bufferSize io.read = r at quiet ⊢
    obtain ⟨res, os⟩ := r
    have tokens := (c.outputs k).read_token env.bc res
    dsimp only
    generalize (c.outputs k).read env.bc res = r at tokens ⊢
    obtain ⟨res, s⟩ := r
    have base := h.io quiet.sameReg c.workers (Outputs.set_token tokens)
    exact (base.dropIfErr hx Kind.noConfusion res).openOutput hx io.reregisterRefused
  · exact h

theorem outputWrite (h : Wired issues pend c) (hx : ⟨ev.token, k, .outputStream⟩ ∈ issues) :
    Wired issues pend (c.outputWrite ev k io) := by
  simp only [Loop.outputWrite]
  split
  · have quiet := c.os.write_quiet k (c.outputs k).outbuffer.length io.write
    generalize c.os.write k (c.outputs k).outbuffer.length io.write = r at quiet ⊢
    obtain ⟨res, os⟩ := r
    have tokens := (c.outputs k).write_token res
    dsimp only
    generalize (c.outputs k).write res = r at tokens ⊢
    obtain ⟨res, s⟩ := r
    exact (h.io quiet.sameReg c.workers (Outputs.set_token tokens)).dropIfErr hx Kind.noConfusion res
  · exact h

theorem workerWrite (h : Wired issues pend c) : Wired issues pend (c.workerWrite env ev k io) := by
  simp only [Loop.workerWrite]
  split
  · exact h.io (c.os.write_quiet k _ io.write).sameReg _ fun _ => rfl
  · exact h

theorem workerEvent (h : Wired issues pend c)
    (ha : c.ioActions ev.token = some (.workerStream k))
    (hc : c.workerEvent env ev k io = .running c') : Wired issues pend c' := by
  have hx := h.issue ha
  simp only [Loop.workerEvent] at hc
  split at hc
  · have quiet := c.os.read_quiet k bufferSize io.read
    generalize c.os.read k bufferSize io.read = r at quiet hc
    obtain ⟨res, os⟩ := r
    dsimp only at hc
    generalize (c.workers k).read env.mc res = r at hc
    obtain ⟨res, s⟩ := r
    have base := h.io quiet.sameReg (c.workers.set k s) fun _ => rfl
    cases res with
    | ok notices =>
      cases hc
      exact base.workerWrite
    | error e =>
      cases hc
      exact (base.drop hx Kind.noConfusion).workerWrite
    | panic msg => cases hc
  · cases hc
    exact h.workerWrite

theorem sendLines (h : Wired issues pend c) {send : OutputStream → List UInt8 → OutputStream}
    (token : ∀ s line, (send s line).token = s.token) (sessionId : String)
    (lines : List (List UInt8)) : Wired issues pend (c.sendLines send sessionId lines) := by
  simp only [Loop.sendLines]
  split
  · exact h
  · rename_i k _
    refine h.io (.refl c.os) c.workers (Outputs.set_token ?_)
    exact List.foldlRecOn (motive := fun s => s.token = (c.outputs k).token) lines send rfl
      fun s hs line _ => (token s line).trans hs

theorem sendLines_ioActions (send : OutputStream → List UInt8 → OutputStream) (c : Loop)
    (sessionId : String) (lines : List (List UInt8)) (tk : Token) :
    (c.sendLines send sessionId lines).ioActions tk = c.ioActions tk := by
  simp only [Loop.sendLines]
  split <;> rfl

theorem pipeEvent (h : Wired issues pend c) {send : OutputStream → List UInt8 → OutputStream}
    {wrap : PipeFrame → IoAction} {f : PipeFrame} (ha : c.ioActions tk = some (wrap f))
    (token : ∀ s line, (send s line).token = s.token) (sock : ∀ f, (wrap f).sock = f.recv)
    (kind : ∀ g, (wrap g).kind = (wrap f).kind) (quits : (wrap f).kind ≠ .mainListener) :
    Wired issues pend (c.pipeEvent send wrap tk f io) := by
  have quiet := c.os.read_quiet f.recv bufferSize io.read
  simp only [Loop.pipeEvent]
  generalize c.os.read f.recv bufferSize io.read = r at quiet ⊢
  obtain ⟨res, os⟩ := r
  have base := h.io quiet.sameReg c.workers fun _ => rfl
  have hx := h.issue ha
  rw [sock] at hx
  have hrecv := f.read_recv io.echo res
  dsimp only
  generalize f.read io.echo res = r at hrecv ⊢
  obtain ⟨_ | _ | ⟨sessionId, lines⟩, out, f'⟩ := r
  · dsimp only at hrecv ⊢
    rw [hrecv]
    exact (base.replace ha (by rw [sock, sock, hrecv]) (kind f') quits).drop hx quits
  · exact base.replace ha (by rw [sock, sock, hrecv]) (kind f') quits
  · have hs := base.sendLines token sessionId (lines.map (slice f'.buffer))
    have ha' := (sendLines_ioActions send { c with os := os } sessionId
      (lines.map (slice f'.buffer)) tk).trans ha
    exact hs.replace ha' (by rw [sock, sock, f'.clear_recv, hrecv]) (kind f'.clear) quits

theorem event (h : Wired issues pend c) (hc : c.event env ev io = .running c') :
    Wired (issues ++ c.issued ev io) pend c' := by
  simp only [Loop.event] at hc
  simp only [issued]
  cases ha : c.ioActions ev.token with
  | none =>
    simp only [ha] at hc
    cases hc
    rw [List.append_nil]
    exact h
  | some a =>
    cases a with
    | mainListener k =>
      simp only [ha] at hc
      exact h.acceptMain ha hc
    | clientStream s =>
      simp only [ha] at hc
      cases hc
      rw [List.append_nil]
      exact h.clientEvent ha
    | outputListener k =>
      simp only [ha] at hc
      cases hc
      exact h.acceptOutput
    | outputStream k =>
      simp only [ha] at hc
      cases hc
      rw [List.append_nil]
      exact (h.outputRead ha).outputWrite (h.issue ha)
    | unixListener k =>
      simp only [ha] at hc
      exact h.acceptUnix hc
    | stderr f =>
      simp only [ha] at hc
      cases hc
      rw [List.append_nil]
      exact h.pipeEvent ha (fun _ _ => rfl) (fun _ => rfl) (fun _ => rfl) Kind.noConfusion
    | stdout f =>
      simp only [ha] at hc
      cases hc
      rw [List.append_nil]
      exact h.pipeEvent ha (fun _ _ => rfl) (fun _ => rfl) (fun _ => rfl) Kind.noConfusion
    | workerStream k =>
      simp only [ha] at hc
      rw [List.append_nil]
      exact h.workerEvent ha hc

theorem dispatch (h : Wired issues pend c) : Wired issues pend (c.dispatch env) :=
  h.requests _ _ (WorkerStreams.dispatch_streams _ _ _)

theorem updateWorkers {io : HeadIo} {streams : List (Token × Sock)} (h : Wired issues pend c)
    (sub : ∀ p ∈ streams, p ∈ c.workerStreams.streams) (hc : updateWorkers io streams c = .ok c') :
    Wired issues pend c' := by
  induction streams generalizing c with
  | nil =>
    cases hc
    exact h
  | cons p streams ih =>
    obtain ⟨tk, k⟩ := p
    simp only [Loop.updateWorkers] at hc
    cases hu : c.updateWorker io tk k with
    | error e => simp [hu] at hc
    | ok c₁ =>
      simp only [hu] at hc
      have hx := h.workers _ (sub (tk, k) (by simp))
      rcases updateWorker_cases hu with ⟨rfl, -⟩ | ⟨i, hi, hreg, rfl⟩
      · exact ih h (fun q hq => sub q (by simp [hq])) hc
      · have h₁ := (h.attach hx hreg hi.readable).requests
          (c.workers.set k ((c.workers k).setInterest i)) c.newRequests rfl
        exact ih h₁ (fun q hq => sub q (by simp [hq])) hc

theorem updateOutput (h : Wired issues pend c) (io : HeadIo) (sessionId : String) :
    Wired issues pend (c.updateOutput io sessionId) := by
  rcases updateOutput_cases io c sessionId with ⟨heq, -⟩ | ⟨k, i, hk, hi, heq⟩
  · rw [heq]
    exact h
  · obtain ⟨tk, hx⟩ := h.sessions sessionId k hk
    have htk : (c.outputs k).token = tk := h.outputs _ hx rfl
    have base := h.io (.refl c.os) c.workers
      (@Outputs.set_token c.outputs k ((c.outputs k).setInterest i) rfl)
    rw [heq]
    rcases c.setOutputInterest_cases k (io.outputRefused sessionId) i with ⟨hreg, heq⟩ | heq
    · rw [heq, htk]
      exact base.attach hx hreg hi.readable
    · rw [heq, htk]
      exact base.drop hx Kind.noConfusion

theorem updateOutputs (h : Wired issues pend c) (io : HeadIo) (order : List String) :
    Wired issues pend (order.foldl (Loop.updateOutput io) c) :=
  List.foldlRecOn order _ h fun _ hc sessionId _ => hc.updateOutput io sessionId

theorem head (h : Wired issues [] c) {io : HeadIo} (hc : c.head env io = .running c') :
    Wired issues [] c' := by
  obtain ⟨c₁, hu, -, rfl⟩ := head_cases hc
  have base := @dispatch env _ _ _ h.settle
  exact (base.updateWorkers (fun _ => id) hu).updateOutputs io io.order

end Wired

end Loop
end PyProxy.Master
