import PyProxy.Master.Handlers

namespace PyProxy.Master
open Poll Lines

namespace Loop

-- the event of token `tk` and source `k` leaves every other source and action alone
structure Apart (tk : Token) (k : Sock) (c c' : Loop) : Prop where
  source : ∀ j, j ≠ k → j < c.os.next → c'.os.source j = c.os.source j
  next : c.os.next ≤ c'.os.next
  ioToken : c.ioToken ≤ c'.ioToken
  act : ∀ t, t ≠ tk → t < c.ioToken → c'.act t = c.act t
  ioActions : ∀ t, t ≠ tk → t < c.ioToken → c'.ioActions t = c.ioActions t
  toRemove : ∀ t, t ≠ tk → (t ∈ c'.toRemove ↔ t ∈ c.toRemove)

namespace Apart

variable {tk : Token} {k : Sock} {c c' c'' : Loop}

theorem refl (tk : Token) (k : Sock) (c : Loop) : Apart tk k c c :=
  ⟨fun _ _ _ => rfl, Nat.le_refl _, Nat.le_refl _, fun _ _ _ => rfl, fun _ _ _ => rfl,
    fun _ _ => Iff.rfl⟩

theorem trans (h : Apart tk k c c') (h' : Apart tk k c' c'') : Apart tk k c c'' where
  source j hj hlt := (h'.source j hj (Nat.lt_of_lt_of_le hlt h.next)).trans (h.source j hj hlt)
  next := Nat.le_trans h.next h'.next
  ioToken := Nat.le_trans h.ioToken h'.ioToken
  act t ht hlt := (h'.act t ht (Nat.lt_of_lt_of_le hlt h.ioToken)).trans (h.act t ht hlt)
  ioActions t ht hlt :=
    (h'.ioActions t ht (Nat.lt_of_lt_of_le hlt h.ioToken)).trans (h.ioActions t ht hlt)
  toRemove t ht := (h'.toRemove t ht).trans (h.toRemove t ht)

theorem world (tk : Token) (c : Loop) {os : World Token UInt8} (workers : Workers) (outputs : Outputs)
    (source : ∀ j, j ≠ k → os.source j = c.os.source j) (next : os.next = c.os.next) :
    Apart tk k c { c with os := os, workers := workers, outputs := outputs } :=
  ⟨fun j hj _ => source j hj, Nat.le_of_eq next.symm, Nat.le_refl _, fun _ _ _ => rfl,
    fun _ _ _ => rfl, fun _ _ => Iff.rfl⟩

theorem attach (tk t : Token) (c : Loop) (i : Interest) :
    Apart tk k c { c with os := c.os.modify k (·.attach t i) } :=
  world tk c c.workers c.outputs (fun _ hj => World.modify_other _ _ hj) rfl

theorem deregister (tk : Token) (k : Sock) (c : Loop) :
    Apart tk k c { c with os := c.os.deregister k } :=
  world tk c c.workers c.outputs (fun _ hj => World.modify_other _ _ hj) rfl

theorem drop (tk : Token) (k : Sock) (c : Loop) : Apart tk k c (c.drop tk k) where
  source j hj hlt := (deregister tk k c).source j hj hlt
  next := Nat.le_refl _
  ioToken := Nat.le_refl _
  act _ _ _ := rfl
  ioActions _ _ _ := rfl
  toRemove t ht := by simp [Loop.drop, ht]

theorem dropIfErr {ε T : Type} (tk : Token) (k : Sock) (c : Loop) (res : Except ε T) :
    Apart tk k c (c.dropIfErr tk k res) := by
  cases res with
  | ok => exact refl tk k c
  | error => exact drop tk k c

theorem insert (tk : Token) (k : Sock) (c : Loop) (a : IoAction) :
    Apart tk k c { c with ioActions := c.ioActions.insert tk a } where
  source _ _ _ := rfl
  next := Nat.le_refl _
  ioToken := Nat.le_refl _
  act _ ht _ := IoActions.insertAll_congr (IoActions.insert_other _ _ ht)
  ioActions _ ht _ := IoActions.insert_other _ _ ht
  toRemove _ _ := Iff.rfl

theorem accepted (tk : Token) {os : World Token UInt8} {new : AcceptIo UInt8}
    (ok : c.os.Accepted k new os) :
    Apart tk k c { c with os := os } where
  source j hj hlt := ok.other j hj (Nat.ne_of_lt hlt)
  next := by
    rw [ok.next]
    exact Nat.le_succ _
  ioToken := Nat.le_refl _
  act _ _ _ := rfl
  ioActions _ _ _ := rfl
  toRemove _ _ := Iff.rfl

theorem skip (tk : Token) (k : Sock) (c : Loop) :
    Apart tk k c { c with ioToken := c.ioToken + 1 } :=
  ⟨fun _ _ _ => rfl, Nat.le_refl _, Nat.le_succ _, fun _ _ _ => rfl, fun _ _ _ => rfl,
    fun _ _ => Iff.rfl⟩

end Apart

section

variable {env : Env} {c c' : Loop} {ev : Event} {io : EventIo} {k : Sock} {tk : Token}

-- a registered newcomer only shows at its own socket and token
theorem apart_adopted {os : World Token UInt8} {new : AcceptIo UInt8}
    (ok : c.os.Accepted k new os) {d : Loop}
    (hos : d.os = os.modify c.os.next (·.attach c.ioToken ro)) (token : d.ioToken = c.ioToken + 1)
    (act : ∀ t, t ≠ c.ioToken → d.act t = c.act t)
    (ioActions : ∀ t, t ≠ c.ioToken → d.ioActions t = c.ioActions t)
    (toRemove : d.toRemove = c.toRemove) : Apart tk k c d where
  source j hj hlt := by
    rw [hos, World.modify_other _ _ (Nat.ne_of_lt hlt)]
    exact ok.other j hj (Nat.ne_of_lt hlt)
  next := by
    rw [hos]
    exact Nat.le_trans (Nat.le_succ _) (Nat.le_of_eq ok.next.symm)
  ioToken := by
    rw [token]
    exact Nat.le_succ _
  act t _ hlt := act t (Nat.ne_of_lt hlt)
  ioActions t _ hlt := ioActions t (Nat.ne_of_lt hlt)
  toRemove t _ := by rw [toRemove]

theorem acceptMain_apart (hc : c.acceptMain k io = .running c') : Apart tk k c c' := by
  cases acceptMain_cases hc with
  | idle none => exact .refl tk k c
  | dropped os ready accept ok refused reg =>
    exact ((Apart.accepted tk ok).trans (.attach tk mainListenerTk _ ro)).trans (.skip tk k _)
  | adopted os ready accept ok registered reg =>
    have adopted : Apart tk k c { c with
        os := os.modify c.os.next (·.attach c.ioToken ro)
        toInsert := c.toInsert ++ [(c.ioToken, .clientStream (.new c.os.next))]
        ioToken := c.ioToken + 1 } := by
      refine apart_adopted ok rfl rfl (fun t ht => ?_) (fun _ _ => rfl) rfl
      exact (congrFun (IoActions.insertAll_concat _ _ _ _) t).trans (IoActions.insert_other _ _ ht)
    exact adopted.trans (.attach tk mainListenerTk _ ro)

theorem acceptOutput_apart : Apart tk k c (c.acceptOutput k io) := by
  have hcase := c.acceptOutput_cases k io
  generalize c.acceptOutput k io = d at hcase ⊢
  cases hcase with
  | idle none => exact .refl tk k c
  | dropped os ready accept ok refused => exact (Apart.accepted tk ok).trans (.skip tk k _)
  | adopted os ready accept ok registered =>
    exact apart_adopted ok rfl rfl
      (fun t ht => IoActions.insertAll_congr (IoActions.insert_other _ _ ht))
      (fun t ht => IoActions.insert_other _ _ ht) rfl

theorem acceptUnix_apart (hc : c.acceptUnix k io = .running c') : Apart tk k c c' := by
  cases acceptUnix_cases hc with
  | idle none => exact .refl tk k c
  | adopted os ready accept ok registered =>
    exact apart_adopted ok rfl rfl
      (fun t ht => IoActions.insertAll_congr (IoActions.insert_other _ _ ht))
      (fun t ht => IoActions.insert_other _ _ ht) rfl

theorem read_apart (tk : Token) (c : Loop) (k : Sock) (size : Nat) (io : ReadIo) (workers : Workers)
    (outputs : Outputs) : Apart tk k c
      { c with os := (c.os.read k size io).2, workers := workers, outputs := outputs } :=
  .world tk c workers outputs (fun _ hj => c.os.read_other size io hj) rfl

theorem write_apart (tk : Token) (c : Loop) (k : Sock) (len : Nat) (io : WriteIo) (workers : Workers)
    (outputs : Outputs) : Apart tk k c
      { c with os := (c.os.write k len io).2, workers := workers, outputs := outputs } :=
  .world tk c workers outputs (fun _ hj => c.os.write_other len io hj) rfl

theorem clientEvent_apart (s : ClientStream) : Apart tk s.stream c (c.clientEvent tk s io) := by
  have base := read_apart tk c s.stream s.room io.read c.workers c.outputs
  simp only [clientEvent]
  generalize c.os.read s.stream s.room io.read = r at base ⊢
  obtain ⟨res, os⟩ := r
  have hstream := s.read_stream res
  dsimp only
  generalize s.read res = r at hstream ⊢
  obtain ⟨res, s'⟩ := r
  dsimp only at hstream ⊢
  have inserted := base.trans (.insert tk s.stream _ (.clientStream s'))
  rw [hstream]
  cases res with
  | «continue» => exact inserted
  | closed => exact inserted.trans (.drop tk s.stream _)
  | done =>
    have hd := inserted.trans (.deregister tk s.stream _)
    exact ⟨hd.source, hd.next, hd.ioToken, hd.act, hd.ioActions, hd.toRemove⟩
  | error e => exact inserted.trans (.drop tk s.stream _)

theorem openOutput_apart (refused : Bool) : Apart tk k c (c.openOutput tk k refused) := by
  simp only [openOutput]
  generalize (c.outputs k).takeSessionId = r
  obtain ⟨sessionId, s⟩ := r
  have base : Apart tk k c { c with outputs := c.outputs.set k s } :=
    .world tk c c.workers _ (fun _ _ => rfl) rfl
  cases sessionId with
  | none => exact base
  | some sessionId =>
    dsimp only
    cases hr : c.os.reregister refused k tk rw with
    | none => exact base
    | some os =>
      obtain ⟨-, rfl⟩ := World.reregister_some hr
      have ha := base.trans (.attach tk tk _ rw)
      exact ⟨ha.source, ha.next, ha.ioToken, ha.act, ha.ioActions, ha.toRemove⟩

theorem outputRead_apart : Apart ev.token k c (c.outputRead env ev k io) := by
  simp only [outputRead]
  split
  · have base := read_apart ev.token c k bufferSize io.read c.workers
    generalize c.os.read k bufferSize io.read = r at base ⊢
    obtain ⟨res, os⟩ := r
    dsimp only
    generalize (c.outputs k).read env.bc res = r
    obtain ⟨res, s⟩ := r
    exact ((base _).trans (.dropIfErr _ k _ res)).trans (openOutput_apart _)
  · exact .refl _ k c

theorem outputWrite_apart : Apart ev.token k c (c.outputWrite ev k io) := by
  simp only [outputWrite]
  split
  · have base := write_apart ev.token c k (c.outputs k).outbuffer.length io.write c.workers
    generalize c.os.write k (c.outputs k).outbuffer.length io.write = r at base ⊢
    obtain ⟨res, os⟩ := r
    dsimp only
    generalize (c.outputs k).write res = r
    obtain ⟨res, s⟩ := r
    exact (base _).trans (.dropIfErr _ k _ res)
  · exact .refl _ k c

theorem workerWrite_apart : Apart ev.token k c (c.workerWrite env ev k io) := by
  simp only [workerWrite]
  split
  · exact write_apart ev.token c k _ io.write _ c.outputs
  · exact .refl _ k c

theorem workerEvent_apart (hc : c.workerEvent env ev k io = .running c') :
    Apart ev.token k c c' := by
  simp only [workerEvent] at hc
  split at hc
  · have base := read_apart ev.token c k bufferSize io.read
    generalize c.os.read k bufferSize io.read = r at base hc
    obtain ⟨res, os⟩ := r
    dsimp only at hc
    generalize (c.workers k).read env.mc res = r at hc
    obtain ⟨res, s⟩ := r
    cases res with
    | ok notices =>
      cases hc
      exact (base _ c.outputs).trans workerWrite_apart
    | error e =>
      cases hc
      exact ((base _ c.outputs).trans (.drop ev.token k _)).trans workerWrite_apart
    | panic msg => cases hc
  · cases hc
    exact workerWrite_apart

theorem sendLines_apart (send : OutputStream → List UInt8 → OutputStream) (sessionId : String)
    (lines : List (List UInt8)) : Apart tk k c (c.sendLines send sessionId lines) := by
  simp only [sendLines]
  split
  · exact .refl tk k c
  · exact .world tk c c.workers _ (fun _ _ => rfl) rfl

theorem pipeEvent_apart (send : OutputStream → List UInt8 → OutputStream)
    (wrap : PipeFrame → IoAction) (f : PipeFrame) :
    Apart tk f.recv c (c.pipeEvent send wrap tk f io) := by
  have base := read_apart tk c f.recv bufferSize io.read c.workers c.outputs
  simp only [pipeEvent]
  generalize c.os.read f.recv bufferSize io.read = r at base ⊢
  obtain ⟨res, os⟩ := r
  have hrecv := f.read_recv io.echo res
  dsimp only
  generalize f.read io.echo res = r at hrecv ⊢
  obtain ⟨_ | _ | ⟨sessionId, lines⟩, out, f'⟩ := r
  · dsimp only at hrecv ⊢
    rw [hrecv]
    exact (base.trans (.insert tk f.recv _ (wrap f'))).trans (.drop tk f.recv _)
  · exact base.trans (.insert tk f.recv _ (wrap f'))
  · exact (base.trans (sendLines_apart send sessionId _)).trans (.insert tk f.recv _ (wrap f'.clear))

theorem event_apart {a : IoAction} (ha : c.ioActions ev.token = some a)
    (hc : c.event env ev io = .running c') : Apart ev.token a.sock c c' := by
  simp only [event, ha] at hc
  cases a with
  | mainListener k => exact acceptMain_apart hc
  | clientStream s =>
    cases hc
    exact clientEvent_apart s
  | outputListener k =>
    cases hc
    exact acceptOutput_apart
  | outputStream k =>
    cases hc
    exact outputRead_apart.trans outputWrite_apart
  | unixListener k => exact acceptUnix_apart hc
  | stderr f =>
    cases hc
    exact pipeEvent_apart _ _ f
  | stdout f =>
    cases hc
    exact pipeEvent_apart _ _ f
  | workerStream k => exact workerEvent_apart hc

end

-- what the interest updates of the loop head can change
structure Tunes (c c' : Loop) : Prop where
  next : c'.os.next = c.os.next
  ioToken : c'.ioToken = c.ioToken
  ioActions : c'.ioActions = c.ioActions
  toInsert : c'.toInsert = c.toInsert
  newRequests : c'.newRequests = c.newRequests
  streams : c'.workerStreams = c.workerStreams
  sessions : c'.outputStreams = c.outputStreams
  worker : ∀ k, ∃ i, c'.workers k = (c.workers k).setInterest i
  output : ∀ k, ∃ i, c'.outputs k = (c.outputs k).setInterest i
  source : ∀ k, (c.os.source k).Retuned (c'.os.source k)
  unregistered : ∀ k, (c.os.source k).reg = none → (c'.os.source k).reg = none
  other : ∀ k, (∀ p ∈ c.workerStreams.streams, p.2 ≠ k) →
    (∀ sessionId, c.outputStreams.lookup sessionId ≠ some k) → c'.os.source k = c.os.source k
  toRemove : ∀ tk ∈ c'.toRemove, tk ∈ c.toRemove ∨
    ∃ sessionId k, c.outputStreams.lookup sessionId = some k ∧ tk = (c.outputs k).token

namespace Tunes

variable {c c' c'' : Loop}

theorem refl (c : Loop) : Tunes c c where
  next := rfl
  ioToken := rfl
  ioActions := rfl
  toInsert := rfl
  newRequests := rfl
  streams := rfl
  sessions := rfl
  worker k := ⟨(c.workers k).interest, rfl⟩
  output k := ⟨(c.outputs k).interest, rfl⟩
  source _ := .same
  unregistered _ h := h
  other _ _ _ := rfl
  toRemove _ htk := .inl htk

theorem output_token (h : Tunes c c') (k : Sock) : (c'.outputs k).token = (c.outputs k).token := by
  obtain ⟨i, hi⟩ := h.output k
  rw [hi]
  rfl

theorem trans (h : Tunes c c') (h' : Tunes c' c'') : Tunes c c'' where
  next := h'.next.trans h.next
  ioToken := h'.ioToken.trans h.ioToken
  ioActions := h'.ioActions.trans h.ioActions
  toInsert := h'.toInsert.trans h.toInsert
  newRequests := h'.newRequests.trans h.newRequests
  streams := h'.streams.trans h.streams
  sessions := h'.sessions.trans h.sessions
  worker k := by
    obtain ⟨i, hi⟩ := h.worker k
    obtain ⟨i', hi'⟩ := h'.worker k
    exact ⟨i', by rw [hi', hi]; rfl⟩
  output k := by
    obtain ⟨i, hi⟩ := h.output k
    obtain ⟨i', hi'⟩ := h'.output k
    exact ⟨i', by rw [hi', hi]; rfl⟩
  source k := (h.source k).trans (h'.source k)
  unregistered k hk := h'.unregistered k (h.unregistered k hk)
  other k hw ho :=
    (h'.other k (by rwa [h.streams]) (by rwa [h.sessions])).trans (h.other k hw ho)
  toRemove tk htk := by
    rcases h'.toRemove tk htk with htk | ⟨sessionId, k, hk, rfl⟩
    · exact h.toRemove tk htk
    · rw [h.sessions] at hk
      exact .inr ⟨sessionId, k, hk, h.output_token k⟩

end Tunes

theorem setInterest_worker (heap : Workers) (k : Sock) (i : Interest) (j : Sock) :
    ∃ i', heap.set k ((heap k).setInterest i) j = (heap j).setInterest i' := by
  by_cases hj : j = k
  · subst hj
    exact ⟨i, Workers.set_same _ _ _⟩
  · exact ⟨(heap j).interest, Workers.set_other _ _ hj⟩

theorem setInterest_output (heap : Outputs) (k : Sock) (i : Interest) (j : Sock) :
    ∃ i', heap.set k ((heap k).setInterest i) j = (heap j).setInterest i' := by
  by_cases hj : j = k
  · subst hj
    exact ⟨i, Outputs.set_same _ _ _⟩
  · exact ⟨(heap j).interest, Outputs.set_other _ _ hj⟩

section

variable {env : Env} {c c' : Loop} {io : HeadIo}

theorem attach_unregistered {w : World Token UInt8} {k j : Sock} (tk : Token) (i : Interest)
    (reg : (w.source k).reg.isSome = true) (hj : (w.source j).reg = none) :
    ((w.modify k (·.attach tk i)).source j).reg = none := by
  rw [World.modify_other]
  · exact hj
  · rintro rfl
    rw [hj] at reg
    cases reg

theorem updateWorker_tunes {tk : Token} {k : Sock} (mem : (tk, k) ∈ c.workerStreams.streams)
    (h : c.updateWorker io tk k = .ok c') : Tunes c c' := by
  rcases updateWorker_cases h with ⟨rfl, -⟩ | ⟨i, hi, reg, rfl⟩
  · exact .refl c'
  · exact { Tunes.refl c with
      worker := setInterest_worker c.workers k i
      source := attach_retuned c.os k tk hi.readable
      unregistered := fun j hj => attach_unregistered tk i reg hj
      other := fun j hj _ => by
        dsimp only
        exact World.modify_other _ _ (hj (tk, k) mem).symm }

theorem updateWorkers_tunes {streams : List (Token × Sock)}
    (sub : ∀ p ∈ streams, p ∈ c.workerStreams.streams)
    (h : updateWorkers io streams c = .ok c') : Tunes c c' := by
  induction streams generalizing c with
  | nil =>
    cases h
    exact .refl _
  | cons p streams ih =>
    obtain ⟨tk, k⟩ := p
    simp only [updateWorkers] at h
    cases hu : c.updateWorker io tk k with
    | error e => simp [hu] at h
    | ok c₁ =>
      simp only [hu] at h
      have first := updateWorker_tunes (sub (tk, k) (by simp)) hu
      refine first.trans (ih (fun q hq => ?_) h)
      rw [first.streams]
      exact sub q (by simp [hq])

theorem updateOutput_tunes (io : HeadIo) (c : Loop) (sessionId : String) :
    Tunes c (c.updateOutput io sessionId) := by
  rcases updateOutput_cases io c sessionId with ⟨heq, -⟩ | ⟨k, i, hk, hi, heq⟩
  · rw [heq]
    exact .refl c
  · rw [heq]
    rcases c.setOutputInterest_cases k (io.outputRefused sessionId) i with ⟨reg, hset⟩ | hset
    · rw [hset]
      exact { Tunes.refl c with
        output := setInterest_output c.outputs k i
        source := attach_retuned c.os k _ hi.readable
        unregistered := fun j hj => attach_unregistered _ i reg hj
        other := fun j _ hj => by
          dsimp only
          exact World.modify_other _ _ fun heq => hj sessionId (heq ▸ hk) }
    · rw [hset]
      refine { Tunes.refl c with
        output := setInterest_output c.outputs k i
        source := fun j => ?_
        unregistered := fun j hj => by
          rw [drop, World.deregister_reg, hj, ite_self]
        other := fun j _ hj => by
          rw [drop, World.deregister]
          exact World.modify_other _ _ fun heq => hj sessionId (heq ▸ hk)
        toRemove := fun tk htk => ?_ }
      · by_cases hj : j = k
        · subst hj
          rw [drop, World.deregister, World.modify_same]
          exact .detach
        · rw [drop, World.deregister, World.modify_other _ _ hj]
          exact .same
      · rcases List.mem_append.mp htk with htk | htk
        · exact .inl htk
        · exact .inr ⟨sessionId, k, hk, List.mem_singleton.mp htk⟩

theorem updateOutputs_tunes (io : HeadIo) (order : List String) (c : Loop) :
    Tunes c (order.foldl (updateOutput io) c) :=
  List.foldlRecOn (motive := fun c' => Tunes c c') order _ (.refl c) fun c' h sessionId _ =>
    h.trans (updateOutput_tunes io c' sessionId)

theorem head_tunes (h : c.head env io = .running c') : Tunes (c.settle.dispatch env) c' := by
  obtain ⟨c₁, hu, -, rfl⟩ := head_cases h
  exact (updateWorkers_tunes (fun _ => id) hu).trans (updateOutputs_tunes io io.order c₁)

end

end Loop
end PyProxy.Master
