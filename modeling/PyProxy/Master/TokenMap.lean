import PyProxy.Master.Frame
import PyProxy.Protocol.Fixint

namespace PyProxy.Master
open Poll

def pipeIssues : Token → List (Sock × Sock) → List Issue
  | _, [] => []
  | tk, (stdout, stderr) :: workers =>
    ⟨tk, stdout, .stdout⟩ :: ⟨tk + 1, stderr, .stderr⟩ :: pipeIssues (tk + 2) workers

def bootIssues (main output unix : Sock) (workers : List (Sock × Sock)) : List Issue :=
  ⟨mainListenerTk, main, .mainListener⟩ :: ⟨outputListenerTk, output, .outputListener⟩ ::
    ⟨unixListenerTk, unix, .unixListener⟩ :: pipeIssues tokenStart workers

theorem pipeIssues_kind {tk : Token} {workers : List (Sock × Sock)} {x : Issue}
    (h : x ∈ pipeIssues tk workers) : x.kind = .stdout ∨ x.kind = .stderr := by
  induction workers generalizing tk with
  | nil => cases h
  | cons w workers ih =>
    simp only [pipeIssues, List.mem_cons] at h
    rcases h with rfl | rfl | h
    · exact .inl rfl
    · exact .inr rfl
    · exact ih h

theorem bootIssues_kind {main output unix : Sock} {workers : List (Sock × Sock)} {x : Issue}
    (h : x ∈ bootIssues main output unix workers) :
    x.kind ≠ .clientStream ∧ x.kind ≠ .outputStream ∧ x.kind ≠ .workerStream := by
  simp only [bootIssues, List.mem_cons] at h
  rcases h with rfl | rfl | rfl | h
  · simp
  · simp
  · simp
  · rcases pipeIssues_kind h with hk | hk <;> simp [hk]

namespace Loop

structure Booting (issues : List Issue) (c : Loop) : Prop extends Wired issues [] c where
  watched : ∀ x ∈ issues, (c.os.source x.sock).reg.isSome = true
  toRemove_nil : c.toRemove = []
  toInsert_nil : c.toInsert = []

namespace Booting

variable {issues : List Issue} {c c' : Loop} {a : IoAction} {tk t : Token}

theorem listened (h : Booting issues c) (hreg : (c.os.source a.sock).reg = none)
    (new : ∀ x ∈ issues, x.token ≠ tk) (below : a.sock < c.os.next) (ht : tk < t)
    (le : c.ioToken ≤ t) (listener : a.kind = .mainListener → tk = mainListenerTk)
    (output : a.kind ≠ .outputStream) : Booting (issues ++ [⟨tk, a.sock, a.kind⟩]) { c with
      os := c.os.modify a.sock (·.attach tk ro)
      ioActions := c.ioActions.insert tk a
      ioToken := t } where
  toWired := by
    refine h.toWired.adopt (a := a) ?_ (fun x hx => ⟨new x hx, fun eq => ?_⟩) below ?_
    · exact {
        os := rfl
        token := ⟨ht, le⟩
        act := IoActions.insertAll_insert fun p hp => by
          rw [h.toInsert_nil] at hp
          cases hp
        ioActions := fun s hs => by
          simp only [IoActions.insert]
          split
          · rfl
          · exact hs
        inserted := fun p hp => by
          rw [h.toInsert_nil] at hp
          cases hp
        toRemove := rfl
        streams := fun p => .inl
        sessions := rfl
        outputs := fun _ _ => rfl
        output := fun hk => absurd hk output
        listener := listener }
    · have hwatched := h.watched x hx
      rw [eq, hreg] at hwatched
      cases hwatched
    · rw [h.toRemove_nil]
      exact List.not_mem_nil
  watched := by
    intro x hx
    rw [World.attach_reg]
    split
    · rfl
    · rename_i hne
      rcases List.mem_append.mp hx with hx | hx
      · exact h.watched x hx
      · obtain rfl := List.mem_singleton.mp hx
        exact absurd rfl hne
  toRemove_nil := h.toRemove_nil
  toInsert_nil := h.toInsert_nil

theorem listen (h : Booting issues c) {action : String} {refused : Bool}
    (hc : c.listen action refused tk a = .ok c') (new : ∀ x ∈ issues, x.token ≠ tk)
    (below : a.sock < c.os.next) (ht : tk < c.ioToken)
    (listener : a.kind = .mainListener → tk = mainListenerTk) (output : a.kind ≠ .outputStream) :
    Booting (issues ++ [⟨tk, a.sock, a.kind⟩]) c' ∧ c'.ioToken = c.ioToken ∧
      c'.os.next = c.os.next := by
  obtain ⟨hreg, rfl⟩ := listen_ok hc
  exact ⟨h.listened hreg new below ht (Nat.le_refl _) listener output, rfl, rfl⟩

theorem addPipe (h : Booting issues c) {action : String} {refused : Bool}
    (hc : c.addPipe action refused a = .ok c') (below : a.sock < c.os.next)
    (listener : a.kind ≠ .mainListener) (output : a.kind ≠ .outputStream) :
    Booting (issues ++ [⟨c.ioToken, a.sock, a.kind⟩]) c' ∧ c'.ioToken = c.ioToken + 1 ∧
      c'.os.next = c.os.next := by
  simp only [Loop.addPipe] at hc
  cases hl : c.listen action refused c.ioToken a with
  | error e => simp [hl] at hc
  | ok c₁ =>
    simp only [hl] at hc
    cases hc
    obtain ⟨hreg, rfl⟩ := listen_ok hl
    refine ⟨h.listened hreg (fun x hx => (h.fresh hx).1) below (Nat.lt_succ_self _) (Nat.le_succ _)
      (fun hk => absurd hk listener) output, rfl, rfl⟩

theorem addPipes (refused : Sock → Bool) {workers : List (Sock × Sock)} (h : Booting issues c)
    (hc : Loop.addPipes refused workers c = .ok c')
    (below : ∀ w ∈ workers, w.1 < c.os.next ∧ w.2 < c.os.next) :
    Booting (issues ++ pipeIssues c.ioToken workers) c' := by
  induction workers generalizing c issues with
  | nil =>
    cases hc
    simpa [pipeIssues] using h
  | cons w workers ih =>
    obtain ⟨stdout, stderr⟩ := w
    have hw := below (stdout, stderr) (by simp)
    simp only [Loop.addPipes] at hc
    split at hc
    · cases hc
    · rename_i c₁ h₁
      obtain ⟨hb₁, ht₁, hn₁⟩ := h.addPipe h₁ hw.1 Kind.noConfusion Kind.noConfusion
      split at hc
      · cases hc
      · rename_i c₂ h₂
        have hlt : stderr < c₁.os.next := hn₁ ▸ hw.2
        obtain ⟨hb₂, ht₂, hn₂⟩ := hb₁.addPipe h₂ hlt Kind.noConfusion Kind.noConfusion
        have hrest := ih hb₂ hc fun w hw => by
          rw [hn₂, hn₁]
          exact below w (by simp [hw])
        rw [ht₂, ht₁] at hrest
        simpa [pipeIssues, IoAction.sock, IoAction.kind, PipeFrame.new] using hrest

theorem new (next : Sock) : Booting [] (.new ⟨fun _ => .idle, next⟩) where
  tokens := List.nodup_nil
  socks := List.nodup_nil
  below := by simp
  actions := fun tk a h => by cases h
  registered := fun k tk i h => by cases h
  listener := fun tk k h => by cases h
  workers := fun p hp => by cases hp
  sessions := fun sid k h => by
    rw [show (Loop.new ⟨fun _ => .idle, next⟩).outputStreams = ∅ from rfl, AList.lookup_empty] at h
    cases h
  outputs := by simp
  removed := fun tk h => by cases h
  inserted := fun p hp => by cases hp
  held := by simp
  watched := by simp
  toRemove_nil := rfl
  toInsert_nil := rfl

theorem boot (refused : Sock → Bool) {next main output unix : Sock} {workers : List (Sock × Sock)}
    (hc : (Loop.new ⟨fun _ => .idle, next⟩).boot refused main output unix workers = .ok c')
    (below : ∀ k ∈ main :: output :: unix :: workers.flatMap fun w => [w.1, w.2], k < next) :
    Booting (bootIssues main output unix workers) c' := by
  simp only [Loop.boot] at hc
  split at hc
  · cases hc
  · rename_i c₁ h₁
    obtain ⟨hb₁, ht₁, hn₁⟩ := (new next).listen h₁ (by simp) (below main (by simp))
      (by simp [Loop.new, mainListenerTk, tokenStart]) (fun _ => rfl) Kind.noConfusion
    split at hc
    · cases hc
    · rename_i c₂ h₂
      have new₂ : ∀ x ∈ [] ++ [(⟨mainListenerTk, main, .mainListener⟩ : Issue)],
          x.token ≠ outputListenerTk := by simp [mainListenerTk, outputListenerTk]
      have lt₂ : output < c₁.os.next := hn₁ ▸ below output (by simp)
      obtain ⟨hb₂, ht₂, hn₂⟩ := hb₁.listen h₂ new₂ lt₂
        (by simp [ht₁, Loop.new, outputListenerTk, tokenStart]) Kind.noConfusion Kind.noConfusion
      split at hc
      · cases hc
      · rename_i c₃ h₃
        have new₃ : ∀ x ∈ [] ++ [(⟨mainListenerTk, main, .mainListener⟩ : Issue)] ++
            [⟨outputListenerTk, output, .outputListener⟩], x.token ≠ unixListenerTk := by
          simp [mainListenerTk, outputListenerTk, unixListenerTk]
        have lt₃ : unix < c₂.os.next := by
          rw [hn₂, hn₁]
          exact below unix (by simp)
        obtain ⟨hb₃, ht₃, hn₃⟩ := hb₂.listen h₃ new₃ lt₃
          (by simp [ht₂, ht₁, Loop.new, unixListenerTk, tokenStart]) Kind.noConfusion Kind.noConfusion
        have hpipes := hb₃.addPipes refused hc fun w hw => by
          rw [hn₃, hn₂, hn₁]
          have mem : ∀ k ∈ [w.1, w.2], k ∈ workers.flatMap fun w => [w.1, w.2] :=
            fun k hk => List.mem_flatMap.mpr ⟨w, hw, hk⟩
          constructor
          · exact below w.1 (by simp [mem])
          · exact below w.2 (by simp [mem])
        rw [ht₃, ht₂, ht₁] at hpipes
        exact hpipes

end Booting
end Loop

namespace System

variable {env : Env}

def issued (s : System) (l : Label) : List Issue :=
  match s.flow, l, s.phase with
  | .running _, .boot _ main output unix workers, .boot => bootIssues main output unix workers
  | .running c, .event io, .turn (ev :: _) => c.issued ev io
  | _, _, _ => []

def Phase.pend : Phase → List Token
  | .turn batch => batch.map Event.token
  | _ => []

structure Wired (issues : List Issue) (s : System) : Prop where
  boot : ∀ c, s.flow = .running c → s.phase = .boot →
    issues = [] ∧ c = .new ⟨fun _ => .idle, c.os.next⟩
  wired : ∀ c, s.flow = .running c → Loop.Wired issues (Phase.pend s.phase) c
  polling : ∀ c, s.flow = .running c → s.phase = .polling → c.toInsert = []

theorem wired_init (next : Sock) : Wired [] (machine env next).init where
  boot := by
    rintro c h -
    cases h
    exact ⟨rfl, rfl⟩
  wired := by
    rintro c h
    cases h
    exact (Loop.Booting.new next).toWired
  polling := by
    rintro c - h
    cases h

theorem Wired.touch {issues : List Issue} {s : System} (h : Wired issues s) {c : Loop}
    (hc : s.flow = .running c) {tk : Token} {a : IoAction} (found : c.act tk = some a)
    {f : Source Token UInt8 → Source Token UInt8} (hf : ∀ src, (f src).reg = src.reg) :
    Wired issues { s with flow := .running { c with os := c.os.modify a.sock f } } where
  boot := by
    intro c' hc' phase
    obtain ⟨-, heq⟩ := h.boot c hc phase
    rw [heq] at found
    cases found
  wired := by
    intro c' hc'
    cases hc'
    exact (h.wired c hc).io (c.os.sameReg_modify _ (hf _)) c.workers fun _ => rfl
  polling := by
    intro c' hc' phase
    cases hc'
    exact h.polling c hc phase

theorem Wired.step {issues : List Issue} {s s' : System} {l : Label} (h : Wired issues s)
    (hs : step env s l = some s') : Wired (issues ++ s.issued l) s' := by
  obtain ⟨c, hc, hcase⟩ := step_cases env hs
  have wired := h.wired c hc
  cases hcase with
  | boot refused main output unix workers phase below =>
    obtain ⟨rfl, heq⟩ := h.boot c hc phase
    have hissued : s.issued (.boot refused main output unix workers) =
        bootIssues main output unix workers := by simp [issued, hc, phase]
    rw [hissued, List.nil_append]
    refine ⟨fun _ _ hp => (by cases hp), fun c' hc' => ?_, fun _ _ hp => (by cases hp)⟩
    rw [heq] at hc'
    cases hb : (Loop.new ⟨fun _ => .idle, c.os.next⟩).boot refused main output unix workers with
    | error e => simp [hb, outcome] at hc'
    | ok c'' =>
      simp only [hb, outcome] at hc'
      cases hc'
      exact (Loop.Booting.boot refused hb below).toWired
  | head io phase order =>
    have hissued : s.issued (.head io) = [] := by simp [issued, hc]
    rw [hissued, List.append_nil]
    rw [phase] at wired
    exact ⟨fun _ _ hp => (by cases hp), fun c' hc' => wired.head hc',
      fun c' hc' _ => (Loop.head_tunes hc').toInsert⟩
  | poll events os phase notified =>
    have hissued : s.issued (.poll events) = [] := by simp [issued, hc]
    rw [hissued, List.append_nil]
    obtain ⟨same, found⟩ := World.notifyAll_some notified
    refine ⟨fun _ _ hp => (by cases hp), fun c' hc' => ?_, fun _ _ hp => (by cases hp)⟩
    cases hc'
    refine { wired.io same c.workers fun _ => rfl with held := fun tk htk => ?_ }
    obtain ⟨ev, hev, rfl⟩ := List.mem_map.mp htk
    obtain ⟨k, i, hk, hreg⟩ := found ev hev
    obtain ⟨a, ha, -⟩ := Option.map_eq_some_iff.mp hk
    rw [Loop.act, h.polling c hc phase] at ha
    exact Option.isSome_iff_exists.mpr ⟨a, ha⟩
  | event io ev batch phase =>
    have hissued : s.issued (.event io) = c.issued ev io := by simp [issued, hc, phase]
    rw [hissued]
    rw [phase] at wired
    refine ⟨fun _ _ hp => (by cases hp), fun c' hc' => ?_, fun _ _ hp => (by cases hp)⟩
    exact (wired.event hc').weaken fun t ht => List.mem_cons_of_mem _ ht
  | connect tk act found listens =>
    have hissued : s.issued (.connect tk) = [] := by simp [issued, hc]
    rw [hissued, List.append_nil]
    exact h.touch hc found (fun _ => rfl)
  | arrive tk act bytes found listens =>
    have hissued : s.issued (.arrive tk bytes) = [] := by simp [issued, hc]
    rw [hissued, List.append_nil]
    exact h.touch hc found (fun src => src.arrive_reg bytes)
  | close tk act found listens =>
    have hissued : s.issued (.close tk) = [] := by simp [issued, hc]
    rw [hissued, List.append_nil]
    exact h.touch hc found (fun _ => rfl)

theorem wired_run {next : Sock} {ls : List Label} {s : System} {issues : List Issue}
    (run : ((machine env next).traced issued).exec ls = some (s, issues)) : Wired issues s := by
  refine @Machine.invariant _ _ ((machine env next).traced issued) (fun p => Wired p.2 p.1)
    (@wired_init env next) (fun p l p' hp hl => ?_) _ _ run
  obtain ⟨hs, heq⟩ := Machine.traced_step hl
  rw [heq]
  exact hp.step hs

-- what `poll.poll` finds registered, against every token given out so far
structure TokenMap (issues : List Issue) (c : Loop) : Prop where
  settled : c.toInsert = []
  keyed : ∀ k tk i, (c.os.source k).reg = some (tk, i) →
    ∃ a, c.ioActions tk = some a ∧ a.sock = k ∧ ⟨tk, k, a.kind⟩ ∈ issues
  sole : ∀ tk tk' a a', c.ioActions tk = some a → c.ioActions tk' = some a' → a.sock = a'.sock → tk = tk'
  own : ∀ j k tk i i', (c.os.source j).reg = some (tk, i) → (c.os.source k).reg = some (tk, i') → j = k
  below : ∀ x ∈ issues, x.token < c.ioToken
  once : (issues.map Issue.token).Nodup ∧ (issues.map Issue.sock).Nodup

theorem token_map {next : Sock} {ls : List Label} {s : System} {issues : List Issue} {c : Loop}
    (run : ((machine env next).traced issued).exec ls = some (s, issues))
    (running : s.flow = .running c) : (s.phase = .polling → TokenMap issues c) ∧
      ∀ batch, s.phase = .turn batch → ∀ ev ∈ batch,
        ∃ a, c.ioActions ev.token = some a ∧ ⟨ev.token, a.sock, a.kind⟩ ∈ issues := by
  have hs := wired_run run
  have wired := hs.wired c running
  constructor
  · intro polling
    have settled := hs.polling c running polling
    refine ⟨settled, fun k tk i hreg => ?_, fun tk tk' a a' ha ha' eq => ?_,
      fun j k tk i i' hj hk => ?_, fun x hx => (wired.below x hx).1, wired.tokens, wired.socks⟩
    · obtain ⟨a, ha, hsock, hx⟩ := wired.reg_issue hreg
      rw [Loop.act, settled] at ha
      exact ⟨a, ha, hsock, hx⟩
    · exact (wired.act_sock (wired.act_of ha) (wired.act_of ha') eq).1
    · obtain ⟨a, -, -, hx⟩ := wired.reg_issue hk
      exact wired.reg_sock hx hj
  · intro batch phase ev hev
    rw [phase] at wired
    obtain ⟨a, ha⟩ := Option.isSome_iff_exists.mp
      (wired.held ev.token (List.mem_map_of_mem hev))
    exact ⟨a, ha, wired.issue ha⟩

def calmHead (order : List String) : HeadIo := ⟨fun _ => false, order, fun _ => false, .ok ()⟩

def calmEvent : EventIo where
  accept := ⟨false, [], false⟩
  registerRefused := false
  adopted := .ok ()
  reregisterRefused := false
  read := ⟨4096, false⟩
  write := ⟨some 4096, false⟩
  echo := fun _ => .ok ()

def fixintEnv : Env := ⟨Protocol.fixint, Protocol.fixintMessages, .draining 2⟩

def polls (s : System) : Bool :=
  match s.flow, s.phase with
  | .running _, .polling => true
  | _, _ => false

theorem polls_iff {s : System} : s.polls = true ↔ ∃ c, s.flow = .running c ∧ s.phase = .polling := by
  simp only [polls]
  split
  · rename_i c hc hp
    simp [hc, hp]
  · rename_i hne
    simp only [Bool.false_eq_true, false_iff]
    rintro ⟨c, hc, hp⟩
    exact hne c hc hp

def holds (p : Loop → Bool) (s : System) : Bool :=
  match s.flow with
  | .running c => p c
  | .returned _ _ => false

theorem holds_iff {p : Loop → Bool} {s : System} :
    s.holds p = true ↔ ∃ c, s.flow = .running c ∧ p c = true := by
  simp only [holds]
  cases s.flow <;> simp

def oneClient : List Label :=
  [.boot (fun _ => false) 0 1 2 [(3, 4)], .head (calmHead []), .connect 0, .connect 2,
    .poll [⟨2, true, false⟩, ⟨0, true, false⟩], .event calmEvent, .event calmEvent, .head (calmHead [])]

theorem token_map_oneClient : ∃ s issues c,
    ((machine fixintEnv 5).traced issued).exec oneClient = some (s, issues) ∧
      s.flow = .running c ∧ TokenMap issues c := by
  have hrun : (((machine fixintEnv 5).traced issued).exec oneClient).any (·.1.polls) = true := by
    decide +kernel
  obtain ⟨⟨s, issues⟩, run, hp⟩ := (Option.any_eq_true _ _).mp hrun
  obtain ⟨c, running, polling⟩ := polls_iff.mp hp
  exact ⟨s, issues, c, run, running, (token_map run running).1 polling⟩

end System
end PyProxy.Master
