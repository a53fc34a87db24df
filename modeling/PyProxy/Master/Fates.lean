import PyProxy.Master.Frame
import PyProxy.Master.Routing
import PyProxy.Master.TokenMap

namespace PyProxy.Master
open Stream Protocol Server Poll Lines

-- what happens to an output stream that outlives the step in which it happens
inductive Fate where
  | greeted (sessionId : String) (k : Sock)
  | ended (k : Sock)
  | failed (k : Sock)
  deriving DecidableEq

def Fate.sock : Fate → Sock
  | .greeted _ k => k
  | .ended k => k
  | .failed k => k

namespace Loop

def endFate (k : Sock) : IoResult (List UInt8) → List Fate
  | .ok [] => [.ended k]
  | _ => []

def readFate (env : Env) (c : Loop) (ev : Event) (k : Sock) (io : EventIo) : List Fate :=
  if ev.readable then
    let (res, os) := c.os.read k bufferSize io.read
    endFate k res ++
      match (c.outputs k).read env.bc res with
      | (.error _, _) => [.failed k]
      | (.ok _, s) =>
        match s.sessionId with
        | none => []
        | some sessionId =>
          match os.reregister io.reregisterRefused k ev.token rw with
          | none => []
          | some _ => [.greeted sessionId k]
  else []

def writeFate (c : Loop) (ev : Event) (k : Sock) (io : EventIo) : List Fate :=
  if ev.writable then
    match (c.os.write k (c.outputs k).outbuffer.length io.write).1 with
    | .ok _ => []
    | .error _ => [.failed k]
  else []

def fates (env : Env) (c : Loop) (ev : Event) (io : EventIo) : List Fate :=
  match c.ioActions ev.token with
  | some (.outputStream k) =>
    c.readFate env ev k io ++ (c.outputRead env ev k io).writeFate ev k io
  | _ => []

-- the event of output stream `k` met the fates `fs` on the way from `c` to `c'`
structure Fares (k : Sock) (fs : List Fate) (c c' : Loop) : Prop where
  own : ∀ f ∈ fs, f.sock = k
  routed : ∀ S j, c'.outputStreams.lookup S = some j →
    .greeted S j ∈ fs ∨ c.outputStreams.lookup S = some j
  greeted : ∀ S, .greeted S k ∈ fs → ∃ j, c'.outputStreams.lookup S = some j
  kept : ∀ S j, c.outputStreams.lookup S = some j → ∃ j', c'.outputStreams.lookup S = some j'
  gone : .failed k ∈ fs → (c'.os.source k).reg = none
  unregistered : (c.os.source k).reg = none → (c'.os.source k).reg = none
  registered : .failed k ∉ fs → (c.os.source k).reg.isSome = true →
    (c'.os.source k).reg.isSome = true
  opened : ∀ S, .greeted S k ∈ fs → (c.os.source k).reg.isSome = true

namespace Fares

variable {k : Sock} {fs fs' : List Fate} {c c' c'' : Loop}

theorem refl (k : Sock) (c : Loop) : Fares k [] c c where
  own f h := by cases h
  routed _ _ := .inr
  greeted S h := by cases h
  kept S j h := ⟨j, h⟩
  gone h := by cases h
  unregistered := id
  registered _ := id
  opened S h := by cases h

theorem trans (h : Fares k fs c c') (h' : Fares k fs' c' c'') : Fares k (fs ++ fs') c c'' where
  own f hf := (List.mem_append.mp hf).elim (h.own f) (h'.own f)
  routed S j hj := by
    rcases h'.routed S j hj with hg | hj
    · exact .inl (List.mem_append_right _ hg)
    · exact (h.routed S j hj).imp_left (List.mem_append_left _)
  greeted S hg := by
    rcases List.mem_append.mp hg with hg | hg
    · obtain ⟨j, hj⟩ := h.greeted S hg
      exact h'.kept S j hj
    · exact h'.greeted S hg
  kept S j hj := by
    obtain ⟨j', hj'⟩ := h.kept S j hj
    exact h'.kept S j' hj'
  gone hf := by
    rcases List.mem_append.mp hf with hf | hf
    · exact h'.unregistered (h.gone hf)
    · exact h'.gone hf
  unregistered hr := h'.unregistered (h.unregistered hr)
  registered hf hr := by
    rw [List.mem_append, not_or] at hf
    exact h'.registered hf.2 (h.registered hf.1 hr)
  opened S hg := by
    rcases List.mem_append.mp hg with hg | hg
    · exact h.opened S hg
    · cases hr : (c.os.source k).reg with
      | some r => rfl
      | none =>
        have := h'.opened S hg
        rw [h.unregistered hr] at this
        cases this

end Fares

variable {env : Env} {c c' : Loop} {k : Sock} {io : EventIo} {ev : Event}

theorem fares_io {os : World Token UInt8} {fs : List Fate} (same : c.os.SameReg os) (outputs : Outputs)
    (only : ∀ f ∈ fs, f = .ended k) : Fares k fs c { c with os := os, outputs := outputs } where
  own f hf := by rw [only f hf]; rfl
  routed _ _ := .inr
  greeted S h := by cases only _ h
  kept S j h := ⟨j, h⟩
  gone h := by cases only _ h
  unregistered h := (same.2 k).trans h
  registered _ h := by
    dsimp only
    rwa [same.2 k]
  opened S h := by cases only _ h

theorem fares_drop (tk : Token) : Fares k [.failed k] c (c.drop tk k) where
  own f hf := by rw [List.mem_singleton.mp hf]; rfl
  routed _ _ := .inr
  greeted S h := by cases List.mem_singleton.mp h
  kept S j h := ⟨j, h⟩
  gone _ := by simp [drop, World.deregister, Source.detach]
  unregistered _ := by simp [drop, World.deregister, Source.detach]
  registered h := absurd (List.mem_singleton.mpr rfl) h
  opened S h := by cases List.mem_singleton.mp h

theorem fares_bound (S : String) (tk : Token) (outputs : Outputs)
    (reg : (c.os.source k).reg.isSome = true) : Fares k [.greeted S k] c { c with
      os := c.os.modify k (·.attach tk rw)
      outputs := outputs
      outputStreams := c.outputStreams.insert S k } where
  own f hf := by rw [List.mem_singleton.mp hf]; rfl
  routed T j hj := by
    by_cases hT : T = S
    · subst hT
      rw [AList.lookup_insert] at hj
      cases hj
      exact .inl (List.mem_singleton.mpr rfl)
    · rw [AList.lookup_insert_ne hT] at hj
      exact .inr hj
  greeted T h := by
    cases List.mem_singleton.mp h
    exact ⟨k, AList.lookup_insert _⟩
  kept T j hj := by
    by_cases hT : T = S
    · subst hT
      exact ⟨k, AList.lookup_insert _⟩
    · exact ⟨j, (AList.lookup_insert_ne hT).trans hj⟩
  gone h := by cases List.mem_singleton.mp h
  unregistered h := by
    rw [h] at reg
    cases reg
  registered _ _ := by simp [Source.attach]
  opened _ _ := reg

theorem endFate_only {res : IoResult (List UInt8)} {f : Fate} (h : f ∈ endFate k res) : f = .ended k := by
  simp only [endFate] at h
  split at h
  · exact List.mem_singleton.mp h
  · cases h

theorem outputRead_fares (unbound : (c.outputs k).sessionId = none) :
    Fares k (c.readFate env ev k io) c (c.outputRead env ev k io) := by
  cases hr : ev.readable with
  | false =>
    simp only [readFate, outputRead, hr]
    exact .refl k c
  | true =>
    have same := (c.os.read_quiet k bufferSize io.read).sameReg
    generalize got : c.os.read k bufferSize io.read = r at same
    obtain ⟨res, os⟩ := r
    have base := fun outputs => fares_io same outputs fun _ => @endFate_only k res _
    generalize read : (c.outputs k).read env.bc res = r
    obtain ⟨_ | ⟨⟩, s⟩ := r
    · rw [outputRead_failed hr got unbound read]
      simp only [readFate, hr, if_true, got, read]
      exact (base _).trans (fares_drop ev.token)
    · cases hello : s.sessionId with
      | none =>
        rw [outputRead_more hr got read hello]
        simp only [readFate, hr, if_true, got, read, hello, List.append_nil]
        exact base _
      | some sessionId =>
        rw [outputRead_hello hr got read hello]
        simp only [readFate, hr, if_true, got, read, hello]
        cases again : os.reregister io.reregisterRefused k ev.token rw with
        | none =>
          rw [List.append_nil]
          exact base _
        | some os' =>
          obtain ⟨reg, rfl⟩ := World.reregister_some again
          exact (base c.outputs).trans (fares_bound sessionId ev.token _ reg)

theorem outputWrite_fares : Fares k (c.writeFate ev k io) c (c.outputWrite ev k io) := by
  cases hw : ev.writable with
  | false =>
    simp only [writeFate, outputWrite, hw]
    exact .refl k c
  | true =>
    have same := (c.os.write_quiet k (c.outputs k).outbuffer.length io.write).sameReg
    have hcase := @outputWrite_cases c k io ev hw
    have base := fun os outputs same => @fares_io c k os [] same outputs (by simp)
    generalize c.outputWrite ev k io = d at hcase ⊢
    simp only [writeFate, hw, if_true]
    cases hcase with
    | failed e os got =>
      rw [got] at same ⊢
      exact (base os c.outputs same).trans (fares_drop ev.token)
    | written n os got =>
      rw [got] at same ⊢
      exact base os _ same

def Unbound (issues : List Issue) (c : Loop) : Prop :=
  ∀ tk k, ⟨tk, k, .outputStream⟩ ∈ issues → (c.outputs k).sessionId = none

theorem issued_output {tk : Token} (h : ⟨tk, k, .outputStream⟩ ∈ c.issued ev io) :
    ∃ j os, c.ioActions ev.token = some (.outputListener j) ∧ k = c.os.next ∧
      (c.os.source j).backlog ≠ 0 ∧ io.accept.refused = false ∧ c.os.Accepted j io.accept os ∧
      c.acceptOutput j io = { c with
        os := os.modify c.os.next (·.attach c.ioToken ro)
        outputs := c.outputs.set c.os.next (.new c.ioToken ro)
        ioActions := c.ioActions.insert c.ioToken (.outputStream c.os.next)
        ioToken := c.ioToken + 1 } := by
  simp only [issued] at h
  cases ha : c.ioActions ev.token with
  | none => simp [ha] at h
  | some a =>
    simp only [ha] at h
    cases a with
    | mainListener j => cases enroll_kind h
    | unixListener j => cases enroll_kind h
    | outputListener j =>
      simp only [enroll] at h
      split at h
      · rename_i hok
        obtain ⟨ready, accept, registered⟩ := hok
        obtain ⟨rfl, rfl, -⟩ := Issue.mk.inj (List.mem_singleton.mp h)
        have hcase := c.acceptOutput_cases j io
        generalize hd : c.acceptOutput j io = d at hcase
        cases hcase with
        | idle none => exact absurd none (by simp [ready, accept])
        | dropped os _ _ _ refused =>
          rw [registered] at refused
          cases refused
        | adopted os _ _ ok _ => exact ⟨j, os, rfl, rfl, ready, accept, ok, hd⟩
      · cases h
    | _ => cases h

theorem Unbound.event {issues : List Issue} {pend : List Token} (h : Unbound issues c)
    (w : Wired issues (ev.token :: pend) c) (hc : c.event env ev io = .running c') :
    Unbound (issues ++ c.issued ev io) c' := by
  obtain ⟨a, ha⟩ := Option.isSome_iff_exists.mp (w.held ev.token (by simp))
  have hown := w.issue ha
  intro tk k hx
  rcases List.mem_append.mp hx with hx | hx
  · have below := (w.below _ hx).2
    by_cases ho : a.kind = .outputStream
    · cases a with
      | outputStream j =>
        simp only [Loop.event, ha] at hc
        cases hc
        obtain ⟨beside, -, out, hout⟩ := @outputWrite_beside (c.outputRead env ev j io) j io ev
        have unbound := h _ j hown
        by_cases hk : k = j
        · subst hk
          rw [hout]
          exact outputRead_unbound unbound ev io
        · have reads := @outputRead_beside env c j io ev unbound
          rw [(beside.output k hk).trans (reads.output k hk)]
          exact h tk k hx
      | _ => cases ho
    · rcases (event_routes ha ho hc).streams k below with heq | ⟨sessionId, out, -, heq⟩
      · rw [heq]
        exact h tk k hx
      · rw [heq]
        exact h tk k hx
  · obtain ⟨j, os, hl, rfl, -, -, -, hnew⟩ := issued_output hx
    simp only [Loop.event, hl, hnew] at hc
    cases hc
    exact congrArg OutputStream.sessionId (Outputs.set_same _ _ _)

theorem Unbound.head {issues : List Issue} {io : HeadIo} (h : Unbound issues c)
    (hc : c.head env io = .running c') : Unbound issues c' := by
  intro tk k hx
  obtain ⟨i, hi⟩ := (head_tunes hc).output k
  rw [hi]
  exact h tk k hx

structure Fated (issues : List Issue) (fs : List Fate) (c : Loop) : Prop where
  routed : ∀ S k, c.outputStreams.lookup S = some k → .greeted S k ∈ fs
  greeted : ∀ S k, .greeted S k ∈ fs → ∃ j, c.outputStreams.lookup S = some j
  gone : ∀ k, .failed k ∈ fs → (c.os.source k).reg = none
  known : ∀ f ∈ fs, ∃ tk, ⟨tk, f.sock, .outputStream⟩ ∈ issues

theorem event_fares {a : IoAction} (ha : c.ioActions ev.token = some a)
    (unbound : a.kind = .outputStream → (c.outputs a.sock).sessionId = none)
    (hc : c.event env ev io = .running c') :
    a.kind = .outputStream ∧ Fares a.sock (c.fates env ev io) c c' ∨
      a.kind ≠ .outputStream ∧ c.fates env ev io = [] ∧ c'.outputStreams = c.outputStreams := by
  by_cases ho : a.kind = .outputStream
  · cases a with
    | outputStream k =>
      simp only [Loop.event, ha] at hc
      cases hc
      refine .inl ⟨rfl, ?_⟩
      simp only [fates, ha]
      exact (outputRead_fares (unbound rfl)).trans outputWrite_fares
    | _ => cases ho
  · refine .inr ⟨ho, ?_, (event_routes ha ho hc).sessions⟩
    simp only [fates, ha]
    cases a with
    | outputStream k => exact absurd rfl ho
    | _ => rfl

theorem Fated.event {issues : List Issue} {fs : List Fate} {pend : List Token} (h : Fated issues fs c)
    (unbound : Unbound issues c) (w : Wired issues (ev.token :: pend) c)
    (hc : c.event env ev io = .running c') :
    Fated (issues ++ c.issued ev io) (fs ++ c.fates env ev io) c' := by
  obtain ⟨a, ha⟩ := Option.isSome_iff_exists.mp (w.held ev.token (by simp))
  have hown := w.issue ha
  have ap := event_apart ha hc
  have away : ∀ j, .failed j ∈ fs → j ≠ a.sock → (c'.os.source j).reg = none := by
    intro j hf hj
    obtain ⟨tk, hx⟩ := h.known _ hf
    rw [ap.source j hj (w.below _ hx).2]
    exact h.gone j hf
  have issue : ∀ {x}, x ∈ issues → x ∈ issues ++ c.issued ev io := List.mem_append_left _
  rcases event_fares ha (fun ho => unbound _ _ (ho ▸ hown)) hc with ⟨ho, fares⟩ | ⟨ho, hfs, same⟩
  · refine ⟨fun S k hk => ?_, fun S k hg => ?_, fun j hf => ?_, fun f hf => ?_⟩
    · rcases fares.routed S k hk with hg | hk
      · exact List.mem_append_right _ hg
      · exact List.mem_append_left _ (h.routed S k hk)
    · rcases List.mem_append.mp hg with hg | hg
      · obtain ⟨j, hj⟩ := h.greeted S k hg
        exact fares.kept S j hj
      · obtain rfl := fares.own _ hg
        exact fares.greeted S hg
    · rcases List.mem_append.mp hf with hf | hf
      · by_cases hj : j = a.sock
        · subst hj
          exact fares.unregistered (h.gone _ hf)
        · exact away j hf hj
      · obtain rfl := fares.own _ hf
        exact fares.gone hf
    · rcases List.mem_append.mp hf with hf | hf
      · obtain ⟨tk, hx⟩ := h.known f hf
        exact ⟨tk, issue hx⟩
      · rw [fares.own f hf]
        exact ⟨ev.token, issue (ho ▸ hown)⟩
  · rw [hfs, List.append_nil]
    refine ⟨fun S k hk => ?_, fun S k hg => ?_, fun j hf => away j hf fun eq => ?_, fun f hf => ?_⟩
    · rw [same] at hk
      exact h.routed S k hk
    · rw [same]
      exact h.greeted S k hg
    · obtain ⟨tk, hx⟩ := h.known _ hf
      exact ho (congrArg Issue.kind (w.same_sock hx hown eq)).symm
    · obtain ⟨tk, hx⟩ := h.known f hf
      exact ⟨tk, issue hx⟩

theorem Fated.head {issues : List Issue} {fs : List Fate} {io : HeadIo} (h : Fated issues fs c)
    (hc : c.head env io = .running c') : Fated issues fs c' := by
  have tunes := head_tunes hc
  refine ⟨fun S k hk => ?_, fun S k hg => ?_, fun k hf => tunes.unregistered k (h.gone k hf), h.known⟩
  · rw [tunes.sessions] at hk
    exact h.routed S k hk
  · rw [tunes.sessions]
    exact h.greeted S k hg

theorem Fated.sameReg {issues : List Issue} {fs : List Fate} {os : World Token UInt8}
    (h : Fated issues fs c) (same : c.os.SameReg os) : Fated issues fs { c with os := os } :=
  ⟨h.routed, h.greeted, fun k hf => (same.2 k).trans (h.gone k hf), h.known⟩

end Loop

namespace System

variable {env : Env}

def fates (env : Env) (s : System) (l : Label) : List Fate :=
  match s.flow, l, s.phase with
  | .running c, .event io, .turn (ev :: _) => c.fates env ev io
  | _, _, _ => []

structure Fated (issues : List Issue) (fs : List Fate) (s : System) : Prop where
  unbound : ∀ c, s.flow = .running c → c.Unbound issues
  fated : ∀ c, s.flow = .running c → c.Fated issues fs

theorem Fated.touch {issues : List Issue} {fs : List Fate} {s : System} (h : Fated issues fs s)
    {c : Loop} (hc : s.flow = .running c) {os : World Token UInt8} (same : c.os.SameReg os)
    (phase : Phase) : Fated issues fs ⟨.running { c with os := os }, phase⟩ := by
  refine ⟨fun c' hc' => ?_, fun c' hc' => ?_⟩
  · cases hc'
    exact h.unbound c hc
  · cases hc'
    exact (h.fated c hc).sameReg same

theorem Fated.step {issues : List Issue} {fs : List Fate} {s s' : System} {l : Label}
    (h : Fated issues fs s) (w : Wired issues s) (hs : step env s l = some s') :
    Fated (issues ++ s.issued l) (fs ++ fates env s l) s' := by
  obtain ⟨c, hc, hcase⟩ := step_cases env hs
  have silent : s.issued l = [] → fates env s l = [] → Fated issues fs s' →
      Fated (issues ++ s.issued l) (fs ++ fates env s l) s' := by
    intro hi hf h'
    rwa [hi, hf, List.append_nil, List.append_nil]
  cases hcase with
  | boot refused main output unix workers phase below =>
    obtain ⟨rfl, hnew⟩ := w.boot c hc phase
    have hf : fates env s (.boot refused main output unix workers) = [] := by simp [fates, hc]
    have hi : s.issued (.boot refused main output unix workers) =
        bootIssues main output unix workers := by simp [issued, hc, phase]
    have fresh : fs = [] := by
      cases fs with
      | nil => rfl
      | cons f fs =>
        obtain ⟨tk, hx⟩ := (h.fated c hc).known f (by simp)
        cases hx
    subst fresh
    rw [hf, hi, List.nil_append, List.nil_append]
    refine ⟨fun c' _ tk k hx => absurd rfl (bootIssues_kind hx).2.1, fun c' hc' => ?_⟩
    cases hb : c.boot refused main output unix workers with
    | error e => simp [hb, outcome] at hc'
    | ok c'' =>
      simp only [hb, outcome] at hc'
      cases hc'
      have boots := Loop.boot_boots hb
      rw [hnew] at boots
      have hsessions : c'.outputStreams = ∅ := congrArg Loop.outputStreams boots.rest
      refine ⟨fun S k hk => ?_, fun S k hg => (by cases hg), fun k hf => (by cases hf),
        fun f hf => (by cases hf)⟩
      rw [hsessions, AList.lookup_empty] at hk
      cases hk
  | head io phase order =>
    refine silent (by simp [issued, hc]) (by simp [fates, hc]) ⟨fun c' hc' => ?_, fun c' hc' => ?_⟩
    · exact (h.unbound c hc).head hc'
    · exact (h.fated c hc).head hc'
  | poll events os phase notified =>
    exact silent (by simp [issued, hc]) (by simp [fates, hc])
      (h.touch hc (World.notifyAll_some notified).1 _)
  | event io ev batch phase =>
    have hi : s.issued (.event io) = c.issued ev io := by simp [issued, hc, phase]
    have hf : fates env s (.event io) = c.fates env ev io := by simp [fates, hc, phase]
    have wired := w.wired c hc
    rw [phase] at wired
    rw [hi, hf]
    refine ⟨fun c' hc' => ?_, fun c' hc' => ?_⟩
    · exact (h.unbound c hc).event wired hc'
    · exact (h.fated c hc).event (h.unbound c hc) wired hc'
  | connect tk act found listens =>
    exact silent (by simp [issued, hc]) (by simp [fates, hc])
      (h.touch hc (c.os.sameReg_modify _ rfl) _)
  | arrive tk act bytes found listens =>
    exact silent (by simp [issued, hc]) (by simp [fates, hc])
      (h.touch hc (c.os.sameReg_modify _ (Source.arrive_reg _ bytes)) _)
  | close tk act found listens =>
    exact silent (by simp [issued, hc]) (by simp [fates, hc])
      (h.touch hc (c.os.sameReg_modify _ rfl) _)

theorem fated_init (next : Sock) : Fated [] [] (machine env next).init := by
  refine ⟨fun c hc tk k hx => (by cases hx), fun c hc => ?_⟩
  cases hc
  exact ⟨fun S k hk => (by cases hk), fun S k hg => (by cases hg), fun k hf => (by cases hf),
    fun f hf => (by cases hf)⟩

end System
end PyProxy.Master
