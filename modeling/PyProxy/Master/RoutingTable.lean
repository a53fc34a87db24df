import PyProxy.Client.Connection
import PyProxy.Master.Fates
import PyProxy.Protocol.Fixint

namespace PyProxy.Master
open Stream Protocol Server Poll Lines

namespace Loop

variable {env : Env} {c c' : Loop} {k : Sock} {ev : Event}

theorem attach_registered {w : World Token UInt8} {j : Sock} (tk : Token) (i : Interest)
    (h : (w.source j).reg.isSome = true) :
    ((w.modify k (·.attach tk i)).source j).reg.isSome = true := by
  rw [World.attach_reg]
  split
  · rfl
  · exact h

theorem updateWorkers_registered {io : HeadIo} {streams : List (Token × Sock)}
    (h : updateWorkers io streams c = .ok c') (reg : (c.os.source k).reg.isSome = true) :
    (c'.os.source k).reg.isSome = true := by
  induction streams generalizing c with
  | nil =>
    cases h
    exact reg
  | cons p streams ih =>
    obtain ⟨tk, j⟩ := p
    simp only [updateWorkers] at h
    cases hu : c.updateWorker io tk j with
    | error e => simp [hu] at h
    | ok c₁ =>
      simp only [hu] at h
      refine ih h ?_
      rcases updateWorker_cases hu with ⟨rfl, -⟩ | ⟨i, -, -, rfl⟩
      · exact reg
      · exact attach_registered tk i reg

theorem updateOutput_registered {io : HeadIo} (ok : ∀ S, io.outputRefused S = false) (S : String)
    (reg : (c.os.source k).reg.isSome = true) :
    ((c.updateOutput io S).os.source k).reg.isSome = true := by
  rcases updateOutput_cases io c S with ⟨heq, -⟩ | ⟨j, i, -, -, heq⟩
  · rwa [heq]
  · rw [heq, ok S]
    simp only [setOutputInterest]
    cases hr : c.os.reregister false j ((c.outputs j).setInterest i).token i with
    | some os =>
      obtain ⟨-, rfl⟩ := World.reregister_some hr
      exact attach_registered _ i reg
    | none =>
      have unregistered : (c.os.source j).reg = none := by simpa [World.reregister] using hr
      rw [drop, World.deregister_reg, if_neg]
      · exact reg
      · rintro rfl
        rw [unregistered] at reg
        cases reg

theorem head_registered {io : HeadIo} (ok : ∀ S, io.outputRefused S = false)
    (h : c.head env io = .running c') (reg : (c.os.source k).reg.isSome = true) :
    (c'.os.source k).reg.isSome = true := by
  obtain ⟨c₁, hu, -, rfl⟩ := head_cases h
  have reg₁ : (c₁.os.source k).reg.isSome = true := updateWorkers_registered hu reg
  exact List.foldlRecOn (motive := fun d : Loop => (d.os.source k).reg.isSome = true) io.order _ reg₁
    fun d hd S _ => updateOutput_registered ok S hd

-- what the table promises of a stream it routes to, once the pending removals are done
structure Live (fs : List Fate) (c : Loop) (k : Sock) : Prop where
  held : c.settle.ioActions (c.outputs k).token = some (.outputStream k)
  registered : ∃ i, (c.os.source k).reg = some ((c.outputs k).token, i)
  lasting : .ended k ∉ fs
  sound : .failed k ∉ fs

-- a stream that is routed, or that this event routes, neither fails nor ends
def Unharmed (env : Env) (fs : List Fate) (c : Loop) (ev : Event) (io : EventIo) : Prop :=
  ∀ k S, c.ioActions ev.token = some (.outputStream k) →
    (c.outputRead env ev k io).outputStreams.lookup S = some k →
      .ended k ∉ fs ++ c.fates env ev io ∧ .failed k ∉ c.fates env ev io

structure Routed (fs : List Fate) (c : Loop) : Prop where
  registered : ∀ S k, c.outputStreams.lookup S = some k → (c.os.source k).reg.isSome = true
  lasting : ∀ S k, c.outputStreams.lookup S = some k → .ended k ∉ fs
  sound : ∀ S k, c.outputStreams.lookup S = some k → .failed k ∉ fs

namespace Routed

variable {issues : List Issue} {fs : List Fate} {pend : List Token}

theorem live (h : Routed fs c) (w : Wired issues pend c) {S : String}
    (hk : c.outputStreams.lookup S = some k) : Live fs c k := by
  obtain ⟨tk, hx⟩ := w.sessions S k hk
  have token : (c.outputs k).token = tk := w.outputs _ hx rfl
  obtain ⟨⟨t, i⟩, hreg⟩ := Option.isSome_iff_exists.mp (h.registered S k hk)
  obtain rfl : t = tk := w.reg_token hx hreg
  obtain ⟨-, kept, a, ha, hsock⟩ := w.registered k t i hreg
  have hact := w.actions t a ha
  have hkind := congrArg Issue.kind (w.same_token hact hx rfl)
  refine ⟨?_, ⟨i, by rw [token]; exact hreg⟩, h.lasting S k hk, h.sound S k hk⟩
  rw [token]
  cases a with
  | outputStream j =>
    cases hsock
    exact Wired.act_settle kept ha
  | _ => cases hkind

theorem event {io : EventIo} (h : Routed fs c) (w : Wired issues (ev.token :: pend) c)
    (unbound : Unbound issues c) (fated : Fated issues fs c) (unharmed : Unharmed env fs c ev io)
    (hc : c.event env ev io = .running c') : Routed (fs ++ c.fates env ev io) c' := by
  obtain ⟨a, ha⟩ := Option.isSome_iff_exists.mp (w.held ev.token (by simp))
  have hown := w.issue ha
  have ap := event_apart ha hc
  have away : ∀ {S k}, c.outputStreams.lookup S = some k → k ≠ a.sock →
      c'.os.source k = c.os.source k := by
    intro S k hk hne
    obtain ⟨tk, hx⟩ := w.sessions S k hk
    exact ap.source k hne (w.below _ hx).2
  have all : ∀ S k, c'.outputStreams.lookup S = some k → (c'.os.source k).reg.isSome = true ∧
      .ended k ∉ fs ++ c.fates env ev io ∧ .failed k ∉ fs ++ c.fates env ev io := by
    intro S k hk
    rcases event_fares ha (fun ho => unbound _ _ (ho ▸ hown)) hc with ⟨ho, fares⟩ | ⟨ho, hfs, same⟩
    · by_cases hne : k = a.sock
      · subst hne
        have routed : (c.outputRead env ev a.sock io).outputStreams.lookup S = some a.sock := by
          cases a with
          | outputStream j =>
            simp only [Loop.event, ha] at hc
            cases hc
            rwa [outputWrite_beside.2.1] at hk
          | _ => cases ho
        have hact : c.ioActions ev.token = some (.outputStream a.sock) := by
          cases a with
          | outputStream j => exact ha
          | _ => cases ho
        obtain ⟨lasting, sound⟩ := unharmed a.sock S hact routed
        have before : (c.os.source a.sock).reg.isSome = true ∧ .failed a.sock ∉ fs := by
          rcases fares.routed S _ hk with hg | hk
          · have reg := fares.opened S hg
            refine ⟨reg, fun hf => ?_⟩
            rw [fated.gone _ hf] at reg
            cases reg
          · exact ⟨h.registered S _ hk, h.sound S _ hk⟩
        refine ⟨fares.registered sound before.1, lasting, ?_⟩
        rw [List.mem_append, not_or]
        exact ⟨before.2, sound⟩
      · have foreign : ∀ f ∈ c.fates env ev io, f.sock ≠ k := by
          intro f hf eq
          exact hne (eq.symm.trans (fares.own f hf))
        have hold : c.outputStreams.lookup S = some k :=
          (fares.routed S k hk).resolve_left fun hg => foreign _ hg rfl
        rw [away hold hne, List.mem_append, List.mem_append, not_or, not_or]
        exact ⟨h.registered S k hold, ⟨h.lasting S k hold, fun hf => foreign _ hf rfl⟩,
          ⟨h.sound S k hold, fun hf => foreign _ hf rfl⟩⟩
    · rw [same] at hk
      have hne : k ≠ a.sock := by
        intro eq
        obtain ⟨tk, hx⟩ := w.sessions S k hk
        exact ho (congrArg Issue.kind (w.same_sock hx hown eq)).symm
      rw [hfs, List.append_nil, away hk hne]
      exact ⟨h.registered S k hk, h.lasting S k hk, h.sound S k hk⟩
  exact ⟨fun S k hk => (all S k hk).1, fun S k hk => (all S k hk).2.1, fun S k hk => (all S k hk).2.2⟩

theorem head {io : HeadIo} (h : Routed fs c) (ok : ∀ S, io.outputRefused S = false)
    (hc : c.head env io = .running c') : Routed fs c' := by
  have sessions := (head_tunes hc).sessions
  refine ⟨fun S k hk => ?_, fun S k hk => ?_, fun S k hk => ?_⟩
  · rw [sessions] at hk
    exact head_registered ok hc (h.registered S k hk)
  · rw [sessions] at hk
    exact h.lasting S k hk
  · rw [sessions] at hk
    exact h.sound S k hk

theorem sameReg {os : World Token UInt8} (h : Routed fs c) (same : c.os.SameReg os) :
    Routed fs { c with os := os } where
  registered S k hk := by
    dsimp only
    rw [same.2 k]
    exact h.registered S k hk
  lasting := h.lasting
  sound := h.sound

end Routed
end Loop

namespace System

variable {env : Env}

def Unharmed (env : Env) (p : System × List Fate) (l : Label) : Prop :=
  match p.1.flow, l, p.1.phase with
  | .running _, .head io, _ => ∀ S, io.outputRefused S = false
  | .running c, .event io, .turn (ev :: _) => c.Unharmed env p.2 ev io
  | _, _, _ => True

structure Routing (issues : List Issue) (fs : List Fate) (s : System) : Prop where
  wired : Wired issues s
  fated : Fated issues fs s
  routed : ∀ c, s.flow = .running c → c.Routed fs

theorem routing_init (next : Sock) : Routing [] [] (machine env next).init := by
  refine ⟨@wired_init env next, @fated_init env next, fun c hc => ?_⟩
  cases hc
  exact ⟨fun S k hk => (by cases hk), fun S k hk => (by cases hk), fun S k hk => (by cases hk)⟩

theorem Routing.step {issues : List Issue} {fs : List Fate} {s s' : System} {l : Label}
    (h : Routing issues fs s) (unharmed : Unharmed env (s, fs) l) (hs : step env s l = some s') :
    Routing (issues ++ s.issued l) (fs ++ fates env s l) s' := by
  have fated := h.fated.step h.wired hs
  refine ⟨h.wired.step hs, fated, ?_⟩
  obtain ⟨c, hc, hcase⟩ := step_cases env hs
  have routed := h.routed c hc
  have wired := h.wired.wired c hc
  have touched : fates env s l = [] → ∀ {os : World Token UInt8}, c.os.SameReg os →
      Loop.Routed (fs ++ fates env s l) { c with os := os } := by
    intro hf os same
    rw [hf, List.append_nil]
    exact routed.sameReg same
  cases hcase with
  | boot refused main output unix workers phase below =>
    have hf : fates env s (.boot refused main output unix workers) = [] := by simp [fates, hc]
    rw [hf, List.append_nil] at fated ⊢
    intro c' hc'
    have unrouted : ∀ S k, c'.outputStreams.lookup S ≠ some k := by
      intro S k hk
      obtain ⟨tk, hx⟩ := (h.fated.fated c hc).known _ ((fated.fated c' hc').routed S k hk)
      rw [(h.wired.boot c hc phase).1] at hx
      cases hx
    exact ⟨fun S k hk => absurd hk (unrouted S k), fun S k hk => absurd hk (unrouted S k),
      fun S k hk => absurd hk (unrouted S k)⟩
  | head io phase order =>
    have hf : fates env s (.head io) = [] := by simp [fates, hc]
    rw [hf, List.append_nil]
    simp only [Unharmed, hc] at unharmed
    exact fun c' hc' => routed.head unharmed hc'
  | poll events os phase notified =>
    intro c' hc'
    cases hc'
    exact touched (by simp [fates, hc]) (World.notifyAll_some notified).1
  | event io ev batch phase =>
    have hf : fates env s (.event io) = c.fates env ev io := by simp [fates, hc, phase]
    rw [hf]
    simp only [Unharmed, hc, phase] at unharmed
    rw [phase] at wired
    exact fun c' hc' => routed.event wired (h.fated.unbound c hc) (h.fated.fated c hc) unharmed hc'
  | connect tk act found listens =>
    intro c' hc'
    cases hc'
    exact touched (by simp [fates, hc]) (c.os.sameReg_modify _ rfl)
  | arrive tk act bytes found listens =>
    intro c' hc'
    cases hc'
    exact touched (by simp [fates, hc]) (c.os.sameReg_modify _ (Source.arrive_reg _ bytes))
  | close tk act found listens =>
    intro c' hc'
    cases hc'
    exact touched (by simp [fates, hc]) (c.os.sameReg_modify _ rfl)

theorem table_live {next : Sock} {ls : List Label} {s : System} {fs : List Fate} {c : Loop}
    (run : ((machine env next).traced (fates env)).exec ls = some (s, fs))
    (unharmed : ((machine env next).traced (fates env)).Along (Unharmed env) ls)
    (running : s.flow = .running c) {S : String} {k : Sock}
    (routed : c.outputStreams.lookup S = some k) : Loop.Live fs c k := by
  obtain ⟨issues, h⟩ := @Machine.invariant_along _ _ ((machine env next).traced (fates env))
    (fun p => ∃ issues, Routing issues p.2 p.1) (Unharmed env) ⟨[], @routing_init env next⟩
    (fun p l p' hp hall hl => by
      obtain ⟨issues, h⟩ := hp
      obtain ⟨hs, heq⟩ := Machine.traced_step hl
      rw [heq]
      exact ⟨_, h.step hall hs⟩) _ _ run unharmed
  exact (h.routed c running).live (h.wired.wired c running) routed

def greeted : Fate → Bool
  | .greeted _ _ => true
  | _ => false

def Calm : Label → Prop
  | .head io => ∀ S, io.outputRefused S = false
  | _ => True

theorem unharmed_of_greeted {next : Sock} {ls : List Label} {s : System} {fs : List Fate}
    (run : ((machine env next).traced (fates env)).exec ls = some (s, fs))
    (all : fs.all greeted = true) (calm : ∀ l ∈ ls, Calm l) :
    ((machine env next).traced (fates env)).Along (Unharmed env) ls := by
  rintro pre l post p rfl hp
  have noted := Machine.traced_noted run pre l post p rfl hp
  have calmed := calm l (by simp)
  have only : ∀ f ∈ p.2 ++ fates env p.1 l, greeted f = true := fun f hf =>
    List.all_eq_true.mp all f (noted.subset hf)
  simp only [Unharmed]
  split
  · exact calmed
  · rename_i c io ev batch hc phase
    have hf : fates env p.1 (.event io) = c.fates env ev io := by simp [fates, hc, phase]
    rw [hf] at only
    refine fun k S _ _ => ⟨fun he => ?_, fun he => ?_⟩
    · cases only _ he
    · cases only _ (List.mem_append_right _ he)
  · trivial

def routes (s : System) (S : String) : Option Sock :=
  match s.flow, s.phase with
  | .running c, .turn [] => c.outputStreams.lookup S
  | _, _ => none

theorem routes_some {s : System} {S : String} {k : Sock} (h : s.routes S = some k) :
    ∃ c, s.flow = .running c ∧ s.phase = .turn [] ∧ c.outputStreams.lookup S = some k := by
  simp only [routes] at h
  split at h
  · rename_i c hc hp
    exact ⟨c, hc, hp, h⟩
  · cases h

def acceptHello (S : String) : EventIo :=
  { calmEvent with accept := ⟨false, Client.outputHello Protocol.fixint S, false⟩ }

def greeting (S : String) : List Label :=
  [.boot (fun _ => false) 0 1 2 [(3, 4)], .head (calmHead []), .connect 1, .poll [⟨1, true, false⟩],
    .event (acceptHello S), .head (calmHead []), .poll [⟨5, true, false⟩], .event calmEvent]

theorem table_live_greeting : ∃ s fs c,
    ((machine fixintEnv 5).traced (fates fixintEnv)).exec (greeting "a") = some (s, fs) ∧
      s.flow = .running c ∧ c.outputStreams.lookup "a" = some 5 ∧ Loop.Live fs c 5 := by
  have hrun : (((machine fixintEnv 5).traced (fates fixintEnv)).exec (greeting "a")).any
      (fun p => decide (p.1.routes "a" = some 5) && p.2.all greeted) = true := by decide +kernel
  obtain ⟨⟨s, fs⟩, run, hp⟩ := (Option.any_eq_true _ _).mp hrun
  obtain ⟨hroutes, all⟩ := Bool.and_eq_true_iff.mp hp
  obtain ⟨c, running, -, routed⟩ := routes_some (of_decide_eq_true hroutes)
  have calm : ∀ l ∈ greeting "a", Calm l := by simp [greeting, Calm, calmHead]
  exact ⟨s, fs, c, run, running, routed,
    table_live run (unharmed_of_greeted run all calm) running routed⟩

def hangup (S : String) : List Label :=
  greeting S ++ [.head (calmHead [S]), .close 5, .poll [⟨5, true, false⟩], .event calmEvent]

theorem dead_route : ¬ ∀ s fs c,
    ((machine fixintEnv 5).traced (fates fixintEnv)).exec (hangup "a") = some (s, fs) →
      s.flow = .running c → s.phase = .turn [] →
        ∀ S k, c.outputStreams.lookup S = some k → Loop.Live fs c k := by
  have hrun : (((machine fixintEnv 5).traced (fates fixintEnv)).exec (hangup "a")).any
      (fun p => decide (p.1.routes "a" = some 5) && decide (Fate.ended 5 ∈ p.2)) = true := by
    decide +kernel
  obtain ⟨⟨s, fs⟩, run, hp⟩ := (Option.any_eq_true _ _).mp hrun
  obtain ⟨hroutes, ended⟩ := Bool.and_eq_true_iff.mp hp
  obtain ⟨c, running, phase, routed⟩ := routes_some (of_decide_eq_true hroutes)
  intro h
  exact (h s fs c run running phase "a" 5 routed).lasting (of_decide_eq_true ended)

end System
end PyProxy.Master
