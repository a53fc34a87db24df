import Mathlib.Data.List.Infix
import Mathlib.Logic.Relation

namespace Rpc

variable {χ ω μ : Type} [DecidableEq χ]

-- callers and the workers that perform for them; of a stranger nothing is known
structure Service (χ ω μ : Type) where
  caller : χ → Prop
  asked : χ → List μ
  home : χ → Option ω
  done : ω → List (χ × μ)

namespace Service

def idle : Service χ ω μ := ⟨fun _ => False, fun _ => [], fun _ => none, fun _ => []⟩

def doneFor (s : Service χ ω μ) (w : ω) (x : χ) : List μ := ((s.done w).filter fun p => p.1 = x).map Prod.snd

def performed (s : Service χ ω μ) (x : χ) : List μ := (s.home x).elim [] (s.doneFor · x)

structure Sound (s : Service χ ω μ) : Prop where
  at_home : ∀ w x m, (x, m) ∈ s.done w → s.home x = some w
  in_turn : ∀ x, s.caller x → s.performed x <+: s.asked x

variable {s s' : Service χ ω μ} {w v : ω} {x y : χ} {m : μ}

theorem sound_idle : Sound (idle : Service χ ω μ) where
  at_home w x m h := by cases h
  in_turn x h := by cases h

-- a worker that is not the caller's home has performed nothing for it
theorem Sound.not_elsewhere (h : Sound s) (home : s.home x = some w) (other : v ≠ w) : s.doneFor v x = [] := by
  rw [doneFor, List.map_eq_nil_iff, List.filter_eq_nil_iff]
  rintro ⟨y, n⟩ mem same
  have there := h.at_home v y n mem
  have here : y = x := of_decide_eq_true same
  rw [here, home] at there
  exact other (Option.some.inj there).symm

def dial (s : Service χ ω μ) (x : χ) : Service χ ω μ := { s with caller := fun y => y = x ∨ s.caller y }

def ask (s : Service χ ω μ) (x : χ) (m : μ) : Service χ ω μ :=
  { s with asked := fun y => if y = x then s.asked x ++ [m] else s.asked y }

variable [DecidableEq ω]

def perform (s : Service χ ω μ) (w : ω) (x : χ) (m : μ) : Service χ ω μ :=
  { s with
    home := fun y => if y = x then some w else s.home y
    done := fun v => if v = w then s.done w ++ [(x, m)] else s.done v }

-- a worker that performs for a caller becomes its home, and performs what the caller asked for next
inductive Step (s : Service χ ω μ) : Service χ ω μ → Prop where
  | dial (x : χ) (fresh : s.home x = none) : Step s (s.dial x)
  | ask (x : χ) (m : μ) (known : s.caller x) : Step s (s.ask x m)
  | perform (w : ω) (x : χ) (m : μ) (free : ∀ v, s.home x = some v → v = w)
      (next : s.caller x → s.doneFor w x ++ [m] <+: s.asked x) : Step s (s.perform w x m)

abbrev Runs : Service χ ω μ → Service χ ω μ → Prop := Relation.ReflTransGen Step

theorem doneFor_perform : (s.perform w x m).doneFor v y =
    if v = w ∧ y = x then s.doneFor w x ++ [m] else s.doneFor v y := by
  by_cases hv : v = w
  · subst hv
    by_cases hy : y = x
    · subst hy
      simp [doneFor, perform]
    · simp [doneFor, perform, hy, Ne.symm hy]
  · simp [doneFor, perform, hv]

theorem performed_perform : (s.perform w x m).performed y =
    if y = x then s.doneFor w x ++ [m] else s.performed y := by
  have home : (s.perform w x m).home y = if y = x then some w else s.home y := rfl
  rw [performed, home]
  split
  · rename_i same
    rw [Option.elim_some, doneFor_perform, if_pos ⟨rfl, same⟩]
  · rename_i other
    rw [performed]
    cases s.home y with
    | none => rfl
    | some v => rw [Option.elim_some, Option.elim_some, doneFor_perform, if_neg fun h => other h.2]

theorem Sound.step (h : Sound s) (hs : Step s s') : Sound s' := by
  cases hs with
  | dial x fresh =>
    refine ⟨h.at_home, fun y known => ?_⟩
    rcases known with same | known
    · have none : (s.dial x).performed y = [] := by
        rw [same, performed]
        exact congrArg (Option.elim · [] _) fresh
      rw [none]
      exact List.nil_prefix
    · exact h.in_turn y known
  | ask x m known =>
    refine ⟨h.at_home, fun y caller => (h.in_turn y caller).trans ?_⟩
    change s.asked y <+: if y = x then _ else _
    split
    · rename_i same
      rw [same]
      exact List.prefix_append _ _
    · exact List.prefix_rfl
  | perform w x m free next =>
    refine ⟨fun v y n mem => ?_, fun y caller => ?_⟩
    · change (if y = x then some w else s.home y) = some v
      replace mem : (y, n) ∈ if v = w then s.done w ++ [(x, m)] else s.done v := mem
      have old : (y, n) ∈ s.done v → (if y = x then some w else s.home y) = some v := by
        intro mem
        have home := h.at_home v y n mem
        split
        · rename_i same
          rw [free v (same ▸ home)]
        · exact home
      split at mem
      · rename_i here
        subst here
        rcases List.mem_append.mp mem with mem | mem
        · exact old mem
        · cases List.mem_singleton.mp mem
          exact if_pos rfl
      · exact old mem
    · rw [performed_perform]
      split
      · rename_i same
        rw [same] at caller ⊢
        exact next caller
      · exact h.in_turn y caller

theorem sound_run (run : Runs idle s) : Sound s := by
  induction run with
  | refl => exact sound_idle
  | tail _ step ih => exact ih.step step

omit [DecidableEq ω] in
theorem Sound.performed_all (h : Sound s) (known : s.caller x) (all : s.doneFor w x = s.asked x) :
    s.performed x = s.asked x := by
  cases home : s.home x with
  | some v =>
    by_cases here : v = w
    · rw [performed, home, ← all, here]
      rfl
    · have there : s.home x = some v := home
      have some : s.doneFor w x = [] := h.not_elsewhere there (Ne.symm here)
      rw [← all, some]
      exact List.prefix_nil.mp (some ▸ all ▸ h.in_turn x known)
  | none =>
    have none : s.doneFor w x = [] := by
      rw [doneFor, List.map_eq_nil_iff, List.filter_eq_nil_iff]
      rintro ⟨y, n⟩ mem same
      obtain rfl : y = x := of_decide_eq_true same
      rw [h.at_home w y n mem] at home
      cases home
    rw [← all, none]
    exact List.prefix_nil.mp (none ▸ all ▸ h.in_turn x known)

end Service
end Rpc
