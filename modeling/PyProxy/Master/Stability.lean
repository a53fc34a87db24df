import PyProxy.Master.Handshake

namespace PyProxy.Master
open Stream Protocol Server Poll Lines

namespace OutputStream

variable {bc : Bincode} {S : String} {s : OutputStream}

-- all of `b` is one hello with the token of `S`
def IsHello (bc : Bincode) (S : String) (b : List UInt8) : Prop :=
  ∃ header, requestHeaderSize ≤ b.length ∧
    RequestMessageHeader.fromBuf (copyHeader requestHeaderSize b) = .ok header ∧
    b.length = header.msgLenUsize + requestHeaderSize ∧
    Output.readHello bc ((b.drop requestHeaderSize).take header.msgLenUsize) = .ok ⟨S⟩

-- the token of the hello that all of `b` is
def saidBy (bc : Bincode) (b : List UInt8) : Option String :=
  match RequestMessageHeader.fromBuf (copyHeader requestHeaderSize b) with
  | .error _ => none
  | .ok header =>
    match Output.readHello bc ((b.drop requestHeaderSize).take header.msgLenUsize) with
    | .error _ => none
    | .ok msg => some msg.streamToken

theorem IsHello.saidBy {b : List UInt8} (h : IsHello bc S b) : saidBy bc b = some S := by
  obtain ⟨header, -, decoded, -, read⟩ := h
  simp only [OutputStream.saidBy, decoded, read]

theorem hello_session_iff (unbound : s.sessionId = none) :
    (∃ s', s.hello bc = .ok s' ∧ s'.sessionId = some S) ↔ IsHello bc S s.inbuffer := by
  constructor
  · rintro ⟨s', hs, hS⟩
    have kept : ∀ {t}, Except.ok (ε := Error) s = .ok t → t.sessionId ≠ some S := by
      rintro t ht h
      cases ht
      rw [unbound] at h
      cases h
    simp only [hello] at hs
    split at hs
    · exact absurd hS (kept hs)
    · rename_i size
      split at hs
      · cases hs
      · rename_i header decoded
        split at hs
        · exact absurd hS (kept hs)
        · split at hs
          · exact absurd hS (kept hs)
          · split at hs
            · cases hs
            · rename_i msg read
              cases hs
              cases hS
              exact ⟨header, by omega, decoded, by omega, read⟩
  · rintro ⟨header, size, decoded, whole, read⟩
    refine ⟨{ s with
      sessionId := some S
      inbuffer := compact (header.msgLenUsize + requestHeaderSize) s.inbuffer }, ?_, rfl⟩
    simp only [hello, decoded, read]
    rw [if_neg (by omega), if_neg (by omega), if_neg (by omega)]

end OutputStream

namespace Loop

variable {env : Env} {c c' : Loop} {k : Sock} {ev : Event} {io : EventIo} {S : String}

-- output connection `k` completes a hello with the token of `S` in this event
structure Claims (env : Env) (c : Loop) (ev : Event) (io : EventIo) (S : String) (k : Sock) : Prop where
  readable : ev.readable = true
  registered : (c.os.source k).reg.isSome = true
  granted : io.reregisterRefused = false
  hello : ∃ bytes, (c.os.read k bufferSize io.read).1 = .ok bytes ∧
    OutputStream.IsHello env.bc S ((c.outputs k).inbuffer ++ bytes)

theorem outputRead_claims (h : Claims env c ev io S k) (unbound : (c.outputs k).sessionId = none) :
    (c.outputRead env ev k io).outputStreams.lookup S = some k := by
  obtain ⟨bytes, hbytes, hello⟩ := h.hello
  have same := (c.os.read_quiet k bufferSize io.read).sameReg.2 k
  generalize got : c.os.read k bufferSize io.read = r at hbytes same
  obtain ⟨_, os⟩ := r
  cases hbytes
  dsimp only at same
  obtain ⟨s', hs', hS⟩ := (OutputStream.hello_session_iff
    (s := { c.outputs k with inbuffer := (c.outputs k).inbuffer ++ bytes }) unbound).mpr hello
  have read : (c.outputs k).read env.bc (.ok bytes) = (.ok (), s') := by
    simp only [OutputStream.read, hs']
  have again : os.reregister io.reregisterRefused k ev.token rw =
      some (os.modify k (·.attach ev.token rw)) := by
    rw [h.granted]
    exact World.reregister_ok (by rw [same]; exact h.registered) ev.token rw
  rw [outputRead_hello h.readable got read hS, again]
  exact AList.lookup_insert _

theorem outputRead_unclaimed (h : ¬ Claims env c ev io S k)
    (unbound : (c.outputs k).sessionId = none) :
    (c.outputRead env ev k io).outputStreams.lookup S = c.outputStreams.lookup S := by
  cases readable : ev.readable with
  | false => simp only [outputRead, readable, Bool.false_eq_true, if_false]
  | true =>
    have same := (c.os.read_quiet k bufferSize io.read).sameReg.2 k
    generalize got : c.os.read k bufferSize io.read = r at same
    obtain ⟨res, os⟩ := r
    generalize read : (c.outputs k).read env.bc res = r
    obtain ⟨_ | ⟨⟩, s⟩ := r
    · rw [outputRead_failed readable got unbound read]
      rfl
    · cases hello : s.sessionId with
      | none => rw [outputRead_more readable got read hello]
      | some T =>
        rw [outputRead_hello readable got read hello]
        cases again : os.reregister io.reregisterRefused k ev.token rw with
        | none => rfl
        | some os' =>
          refine AList.lookup_insert_ne fun eq => h ?_
          subst eq
          obtain ⟨reg, -⟩ := World.reregister_some again
          refine ⟨readable, by rwa [← same], World.reregister_granted again, ?_⟩
          rw [got]
          cases res with
          | error e => cases read
          | ok bytes =>
            refine ⟨bytes, rfl, (OutputStream.hello_session_iff
              (s := { c.outputs k with inbuffer := (c.outputs k).inbuffer ++ bytes }) unbound).mp
              ⟨s, ?_, hello⟩⟩
            simp only [OutputStream.read] at read
            split at read
            · cases read
            · rename_i hs
              cases read
              exact hs

theorem event_bound_iff {issues : List Issue} {pend : List Token} (bound : c.outputStreams.lookup S = some k)
    (unbound : Unbound issues c) (w : Wired issues (ev.token :: pend) c)
    (hc : c.event env ev io = .running c') : c'.outputStreams.lookup S = some k ↔
      ∀ j, c.ioActions ev.token = some (.outputStream j) → Claims env c ev io S j → j = k := by
  obtain ⟨a, ha⟩ := Option.isSome_iff_exists.mp (w.held ev.token (by simp))
  by_cases output : a.kind = .outputStream
  · cases a with
    | outputStream j =>
      have free := unbound _ j (w.issue ha)
      have hc₀ := hc
      simp only [event, ha] at hc₀
      cases hc₀
      rw [outputWrite_beside.2.1, ha]
      by_cases claims : Claims env c ev io S j
      · rw [outputRead_claims claims free, Option.some.injEq]
        constructor
        · rintro rfl i hi -
          cases hi
          rfl
        · exact fun h => h j rfl claims
      · rw [outputRead_unclaimed claims free]
        refine iff_of_true bound fun i hi hclaims => ?_
        cases hi
        exact absurd hclaims claims
    | _ => cases output
  · rw [(event_routes ha output hc).sessions]
    refine iff_of_true bound fun j hj => ?_
    cases ha.symm.trans hj
    exact absurd rfl output

theorem captured_delivered {r : Capture} (hr : r ∈ c.captured ev io)
    (bound : c.outputStreams.lookup r.sessionId = some k) (hc : c.event env ev io = .running c') :
    c'.outputs = c.outputs.set k { c.outputs k with
      outbuffer := (c.outputs k).outbuffer ++
        OutputStream.frames r.msgType (r.lines.map (slice r.frame.buffer)) } := by
  obtain ⟨f, wrap, out, read, -, heq⟩ := @captured_event env c io ev r hr
  cases heq.symm.trans hc
  simp only [pipeEvent, read, sendLines, bound, OutputStream.send_all]

end Loop

namespace System

variable {env : Env} {s s' : System} {l : Label} {S : String} {k : Sock}

def Bound (S : String) (k : Sock) (s : System) : Prop :=
  ∀ c, s.flow = .running c → c.outputStreams.lookup S = some k

-- the lines that this step reads for `S` go to output connection `k`, and nothing goes to another
def Delivers (env : Env) (S : String) (k : Sock) (s : System) (l : Label) : Prop :=
  ∀ c ev batch io c', s.flow = .running c → s.phase = .turn (ev :: batch) → l = .event io →
    c.event env ev io = .running c' → ∀ r ∈ c.captured ev io, r.sessionId = S →
      (c'.outputs k).outbuffer = (c.outputs k).outbuffer ++
          OutputStream.frames r.msgType (r.lines.map (slice r.frame.buffer)) ∧
        ∀ j, j ≠ k → c'.outputs j = c.outputs j

-- no other output connection completes a hello with the token of `S`
def Unclaimed (env : Env) (S : String) (k : Sock) (s : System) (l : Label) : Prop :=
  match s.flow, l, s.phase with
  | .running c, .event io, .turn (ev :: _) =>
    ∀ j, c.ioActions ev.token = some (.outputStream j) → c.Claims env ev io S j → j = k
  | _, _, _ => True

theorem Bound.delivers (h : Bound S k s) : Delivers env S k s l := by
  rintro c ev batch io c' running - - hc r hr rfl
  rw [Loop.captured_delivered hr (h c running) hc]
  exact ⟨congrArg OutputStream.outbuffer (Outputs.set_same _ _ _), fun j => Outputs.set_other _ _⟩

theorem unclaimed_idle (h : step env s l = none) : Unclaimed env S k s l := by
  simp only [Unclaimed]
  split
  · rename_i c io ev batch running phase
    simp [step, running, phase] at h
  · trivial

theorem bound_step {issues : List Issue} {fs : List Fate} (w : Wired issues s)
    (fated : Fated issues fs s) (h : Bound S k s) (hs : step env s l = some s') :
    Bound S k s' ↔ Unclaimed env S k s l := by
  obtain ⟨c, hc, hcase⟩ := step_cases env hs
  have bound := h c hc
  have touched : ∀ os phase, Bound S k ⟨.running { c with os := os }, phase⟩ := by
    intro os phase c' hc'
    cases hc'
    exact bound
  simp only [Unclaimed, hc]
  cases hcase with
  | boot refused main output unix workers phase below =>
    refine iff_of_true (fun c' hc' => ?_) trivial
    cases hb : c.boot refused main output unix workers with
    | error e => simp [hb, outcome] at hc'
    | ok c₁ =>
      rw [hb] at hc'
      cases hc'
      rw [(Loop.boot_boots hb).rest]
      exact bound
  | head io phase order =>
    refine iff_of_true (fun c' hc' => ?_) trivial
    rw [(Loop.head_tunes hc').sessions]
    exact bound
  | poll events os phase notified => exact iff_of_true (touched _ _) trivial
  | event io ev batch phase =>
    have wired := w.wired c hc
    rw [phase] at wired ⊢
    cases running : c.event env ev io with
    | running c' =>
      refine Iff.trans ⟨fun h' => h' c' rfl, fun h' d hd => ?_⟩
        (Loop.event_bound_iff bound (fated.unbound c hc) wired running)
      cases hd
      exact h'
    | returned d res =>
      refine iff_of_true (fun c' hc' => ?_) fun j hj => ?_
      · cases hc'
      · simp [Loop.event, hj] at running
  | connect tk act found listens => exact iff_of_true (touched _ _) trivial
  | arrive tk act bytes found listens => exact iff_of_true (touched _ _) trivial
  | close tk act found listens => exact iff_of_true (touched _ _) trivial

-- `k` need not be open for this: nothing in the loop takes a route away but another hello
theorem route_stable_iff {next : Sock} {past : List Label} {c : Loop}
    (run : (machine env next).exec past = some s) (running : s.flow = .running c)
    (bound : c.outputStreams.lookup S = some k) (later : List Label) :
    ((machine env next).resume s).Always (Bound S k) later ∧
        ((machine env next).resume s).Along (Delivers env S k) later ↔
      ((machine env next).resume s).Along (Unclaimed env S k) later := by
  have start : Bound S k s := by
    intro d hd
    cases running.symm.trans hd
    exact bound
  have kept := @Machine.always_iff_along _ _ ((machine env next).resume s) (Bound S k)
    (Unclaimed env S k) start (fun _ _ => unclaimed_idle)
    (fun ls s₁ l s₂ hls bound₁ hl => by
      rw [Machine.exec_resume run] at hls
      obtain ⟨fs, traced⟩ := @Machine.traced_exec _ _ _ _ (fates env) _ _ hls
      obtain ⟨issues, wired, fated⟩ := fated_run traced
      exact bound_step wired fated bound₁ hl) later
  rw [← kept]
  refine and_iff_left_of_imp fun always pre l post s₁ eq hs₁ => ?_
  exact (always pre s₁ ⟨l :: post, eq.symm⟩ hs₁).delivers

def undisturbed (env : Env) (S : String) (s : System) (l : Label) : Bool :=
  match s.flow, l, s.phase with
  | .running c, .event io, .turn (ev :: _) =>
    match c.ioActions ev.token with
    | some (.outputStream j) =>
      match (c.os.read j bufferSize io.read).1 with
      | .ok bytes => OutputStream.saidBy env.bc ((c.outputs j).inbuffer ++ bytes) != some S
      | .error _ => true
    | _ => true
  | _, _, _ => true

theorem unclaimed_of (h : s.undisturbed env S l = true) : Unclaimed env S k s l := by
  simp only [undisturbed] at h
  simp only [Unclaimed]
  split at h
  · intro j hj claims
    obtain ⟨bytes, read, hello⟩ := claims.hello
    simp [hj, read, hello.saidBy] at h
  · trivial

def speaking (routes : List String) (S : String) : List Label :=
  [.head (calmHead routes), .arrive 3 (Pipe.startLine S ++ asBytes "x\n"), .poll [⟨3, true, false⟩]]

def spoken (S : String) : List Label := speaking [S] S ++ [.event calmEvent]

-- another output connection says the hello of `T` while `S` has its route
def second (S T : String) : List Label :=
  [.head (calmHead [S]), .connect 1, .poll [⟨1, true, false⟩], .event (acceptHello T),
    .head (calmHead [S]), .poll [⟨6, true, false⟩], .event calmEvent]

def elsewhere (S T : String) : List Label := second S T ++ speaking [S, T] S ++ [.event calmEvent]

def stolen (S : String) : List Label := second S S ++ speaking [S] S

theorem route_stable_spoken : ∃ s c s',
    (machine fixintEnv 5).exec (greeting Pipe.sessionA) = some s ∧ s.flow = .running c ∧
      c.outputStreams.lookup Pipe.sessionA = some 5 ∧
      ((machine fixintEnv 5).resume s).exec (elsewhere Pipe.sessionA "b") = some s' ∧
      s'.holds (fun c => (c.outputs 5).outbuffer = OutputStream.frames .stdout [asBytes "x"] ∧
        c.outputStreams.lookup "b" = some 6) = true ∧
      ((machine fixintEnv 5).resume s).Always (Bound Pipe.sessionA 5) (elsewhere Pipe.sessionA "b") ∧
      ((machine fixintEnv 5).resume s).Along (Delivers fixintEnv Pipe.sessionA 5)
        (elsewhere Pipe.sessionA "b") := by
  have hrun : ((machine fixintEnv 5).exec (greeting Pipe.sessionA)).any (fun s =>
      decide (s.routes Pipe.sessionA = some 5) &&
        (((machine fixintEnv 5).resume s).checks (undisturbed fixintEnv Pipe.sessionA) s
            (elsewhere Pipe.sessionA "b") &&
          (((machine fixintEnv 5).resume s).exec (elsewhere Pipe.sessionA "b")).any (·.holds fun c =>
            (c.outputs 5).outbuffer = OutputStream.frames .stdout [asBytes "x"] ∧
              c.outputStreams.lookup "b" = some 6))) = true := by
    decide +kernel
  obtain ⟨s, run, hs⟩ := (Option.any_eq_true _ _).mp hrun
  obtain ⟨hroutes, hs⟩ := Bool.and_eq_true_iff.mp hs
  obtain ⟨checks, later⟩ := Bool.and_eq_true_iff.mp hs
  obtain ⟨s', run', appended⟩ := (Option.any_eq_true _ _).mp later
  obtain ⟨c, running, -, routed⟩ := routes_some (of_decide_eq_true hroutes)
  have unclaimed : ((machine fixintEnv 5).resume s).Along (Unclaimed fixintEnv Pipe.sessionA 5)
      (elsewhere Pipe.sessionA "b") :=
    (Machine.along_of_checks checks).imp fun _ _ _ => unclaimed_of
  obtain ⟨always, delivers⟩ := (route_stable_iff run running routed _).mpr unclaimed
  exact ⟨s, c, s', run, running, routed, run', appended, always, delivers⟩

def opened (k : Sock) (s : System) : Bool := s.holds fun c => (c.os.source k).reg.isSome

-- of every live route of a run, and the lines that are later captured for it
def Stable (env : Env) (P : String → Sock → System → List Label → Prop) : Prop :=
  ∀ S k past s c, (machine env 5).exec past = some s → s.flow = .running c →
    c.outputStreams.lookup S = some k → (c.os.source k).reg.isSome = true → ∀ later, P S k s later

def sent (k : Sock) (s : System) : Bool := s.holds fun c => !(c.outputs k).outbuffer.isEmpty

theorem not_delivers {io : EventIo} {j : Sock} (hs : step env s (.event io) = some s') (hj : j ≠ k)
    (captured : ∃ r, s.captured (.event io) = some r ∧ r.sessionId = S)
    (before : s.sent j = false) (after : s'.sent j = true) : ¬ Delivers env S k s (.event io) := by
  intro delivers
  obtain ⟨c', hc', full⟩ := holds_iff.mp after
  obtain ⟨r, hr, hS⟩ := captured
  obtain ⟨c, hc, hcase⟩ := step_cases env hs
  cases hcase with
  | event io ev batch phase =>
    simp only [System.captured, hc, phase] at hr
    have kept := (delivers c ev batch io c' hc phase rfl hc' r hr hS).2 j hj
    rw [kept] at full
    rw [sent, holds_iff.mpr ⟨c, hc, full⟩] at before
    cases before

theorem route_stolen :
    (¬ Stable fixintEnv fun S k s later => ((machine fixintEnv 5).resume s).Always (Bound S k) later) ∧
      ¬ Stable fixintEnv fun S k s later =>
        ((machine fixintEnv 5).resume s).Along (Delivers fixintEnv S k) later := by
  have hrun : ((machine fixintEnv 5).exec (greeting Pipe.sessionA)).any (fun s =>
      decide (s.routes Pipe.sessionA = some 5) && s.opened 5 &&
        (((machine fixintEnv 5).resume s).exec (stolen Pipe.sessionA)).any
          fun s₁ =>
            (s₁.captured (.event calmEvent)).any (fun r => decide (r.sessionId = Pipe.sessionA)) &&
            !s₁.sent 6 && (step fixintEnv s₁ (.event calmEvent)).any (·.sent 6)) = true := by
    decide +kernel
  obtain ⟨s, run, hs⟩ := (Option.any_eq_true _ _).mp hrun
  simp only [Bool.and_eq_true, decide_eq_true_eq, Bool.not_eq_true', Option.any_eq_true] at hs
  obtain ⟨⟨hroutes, hopened⟩, s₁, run₁, ⟨captured, before⟩, s₂, step₂, after⟩ := hs
  obtain ⟨c, running, -, routed⟩ := routes_some hroutes
  obtain ⟨d, hd, reg⟩ := holds_iff.mp hopened
  cases running.symm.trans hd
  have misses := @not_delivers fixintEnv s₁ s₂ Pipe.sessionA 5 calmEvent 6 step₂ (by decide)
    captured before after
  constructor
  · intro stable
    have bound := stable Pipe.sessionA 5 _ s c run running routed reg
      (stolen Pipe.sessionA) _ s₁ List.prefix_rfl run₁
    exact misses bound.delivers
  · intro stable
    exact misses (stable Pipe.sessionA 5 _ s c run running routed reg
      (stolen Pipe.sessionA ++ [.event calmEvent]) _ _ [] s₁ rfl run₁)

end System
end PyProxy.Master
