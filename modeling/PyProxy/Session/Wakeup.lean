import PyProxy.Master.Wakeup
import PyProxy.Worker.Failures
import PyProxy.Worker.Wakeup

namespace PyProxy.Session
open Protocol Server Poll Worker

-- neither loop polls while something waits that no notification will tell of
theorem both_wakeful (menv : Master.Env) (wenv : Worker.Env) :
    (∀ next ls s c, (Master.System.machine menv next).exec ls = some s →
      (Master.System.machine menv next).Along (fun s l => s.attends menv l = true) ls →
        s.flow = .running c → s.phase = .polling → c.os.Wakeful) ∧
    ∀ ls s c, (Daemon.machine wenv).exec ls = some s →
      (Daemon.machine wenv).Along (fun s l => s.attends wenv l = true) ls →
        s.flow = .running c → s.phase = .polling → c.os.Wakeful := by
  constructor
  · intro next ls s c run attends running polling
    obtain ⟨issues, watchful⟩ := Master.System.watchful_run run attends
    have alert := watchful.alert c running
    rw [polling] at alert
    exact alert.wakeful
  · intro ls s c run attends running polling
    have alert := (Daemon.watchful_run run attends).alert c running
    rw [polling] at alert
    exact alert.wakeful

def polling (s : Daemon) : Bool :=
  match s.flow, s.phase with
  | .running _, .polling => true
  | _, _ => false

theorem polling_iff {s : Daemon} : polling s = true ↔ ∃ c, s.flow = .running c ∧ s.phase = .polling := by
  simp only [polling]
  split
  · rename_i c hc hp
    simp [hc, hp]
  · rename_i hne
    simp only [Bool.false_eq_true, false_iff]
    rintro ⟨c, hc, hp⟩
    exact hne c hc hp

def greeted : List Daemon.Label := Daemon.opening ++ [.head (loopbackHead [1])]

theorem wakeful_greeted :
    (∃ s c, (Master.System.machine Master.System.fixintEnv 5).exec Master.System.oneClient = some s ∧
      s.flow = .running c ∧ s.phase = .polling ∧ c.os.Wakeful) ∧
    ∃ s c, (Daemon.machine loopback).exec greeted = some s ∧
      s.flow = .running c ∧ s.phase = .polling ∧ c.os.Wakeful := by
  have both := both_wakeful Master.System.fixintEnv loopback
  constructor
  · have hrun : ((Master.System.machine Master.System.fixintEnv 5).exec Master.System.oneClient).any
        Master.System.polls = true := by decide +kernel
    have attends : (Master.System.machine Master.System.fixintEnv 5).checks
        (Master.System.attends Master.System.fixintEnv)
        (Master.System.machine Master.System.fixintEnv 5).init Master.System.oneClient = true := by
      decide +kernel
    obtain ⟨s, run, hp⟩ := (Option.any_eq_true _ _).mp hrun
    obtain ⟨c, running, phase⟩ := Master.System.polls_iff.mp hp
    exact ⟨s, c, run, running, phase,
      both.1 5 _ s c run (Machine.along_of_checks attends) running phase⟩
  · have hrun : ((Daemon.machine loopback).exec greeted).any polling = true := by decide +kernel
    have attends : (Daemon.machine loopback).checks (Daemon.attends loopback)
        (Daemon.machine loopback).init greeted = true := by decide +kernel
    obtain ⟨s, run, hp⟩ := (Option.any_eq_true _ _).mp hrun
    obtain ⟨c, running, phase⟩ := polling_iff.mp hp
    exact ⟨s, c, run, running, phase, both.2 _ s c run (Machine.along_of_checks attends) running phase⟩

-- two workers connect between two polls of the master
def twoWorkers : List Master.Label :=
  [.boot (fun _ => false) 0 1 2 [(3, 4)], .head (Master.System.calmHead []), .connect 2, .connect 2,
    .poll [⟨2, true, false⟩], .event Master.System.calmEvent, .head (Master.System.calmHead [])]

-- a request of 5000 bytes, one read of which takes 4096
def longRequest : List Daemon.Label :=
  greeted ++ [.poll [], .head (loopbackHead [1]),
    .arrive 1 ((RequestMessageHeader.new .codeString 0 4992).intoBuf.toList ++ List.replicate 4992 0),
    .poll [⟨1, true, false⟩], .event ⟨4096, false⟩ 0 ⟨none, false⟩, .head (loopbackHead [1])]

def stuck (os : World Token UInt8) (k : Sock) : Bool :=
  (os.source k).reg.isSome && (os.source k).pending && !(os.source k).readArmed

theorem not_wakeful {os : World Token UInt8} {k : Sock} (h : stuck os k = true) : ¬ os.Wakeful := by
  simp only [stuck, Bool.and_eq_true, Bool.not_eq_true'] at h
  obtain ⟨⟨reg, pending⟩, unarmed⟩ := h
  intro wakeful
  rw [wakeful k reg pending] at unarmed
  cases unarmed

def masterStuck (k : Sock) (s : Master.System) : Bool :=
  match s.flow, s.phase with
  | .running c, .polling => stuck c.os k
  | _, _ => false

def workerStuck (k : Sock) (s : Daemon) : Bool :=
  match s.flow, s.phase with
  | .running c, .polling => stuck c.os k
  | _, _ => false

theorem stranded :
    (¬ ∀ next ls s c, (Master.System.machine Master.System.fixintEnv next).exec ls = some s →
      s.flow = .running c → s.phase = .polling → c.os.Wakeful) ∧
    ¬ ∀ ls s c, (Daemon.machine loopback).exec ls = some s →
      s.flow = .running c → s.phase = .polling → c.os.Wakeful := by
  constructor
  · intro h
    have hrun : ((Master.System.machine Master.System.fixintEnv 5).exec twoWorkers).any (masterStuck 2) =
        true := by decide +kernel
    obtain ⟨s, run, hs⟩ := (Option.any_eq_true _ _).mp hrun
    simp only [masterStuck] at hs
    split at hs
    · rename_i c running phase
      exact not_wakeful hs (h 5 twoWorkers s c run running phase)
    · cases hs
  · intro h
    have hrun : ((Daemon.machine loopback).exec longRequest).any (workerStuck 1) = true := by
      decide +kernel
    obtain ⟨s, run, hs⟩ := (Option.any_eq_true _ _).mp hrun
    simp only [workerStuck] at hs
    split at hs
    · rename_i c running phase
      exact not_wakeful hs (h longRequest s c run running phase)
    · cases hs

end PyProxy.Session
