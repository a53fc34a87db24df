import Mathlib.Data.List.Basic
import Mathlib.Data.List.Induction

variable {σ ℓ ν : Type}

structure Machine (σ ℓ : Type) where
  init : σ
  step : σ → ℓ → Option σ

namespace Machine

variable (M : Machine σ ℓ)

def exec (ls : List ℓ) : Option σ := ls.foldlM M.step M.init

@[simp] theorem exec_nil : M.exec [] = some M.init := rfl

theorem exec_concat (ls : List ℓ) (l : ℓ) : M.exec (ls ++ [l]) = (M.exec ls).bind (M.step · l) := by
  simp [exec, List.foldlM_append]

theorem exec_concat_some {ls : List ℓ} {l : ℓ} {s : σ} (h : M.exec (ls ++ [l]) = some s) :
    ∃ s₀, M.exec ls = some s₀ ∧ M.step s₀ l = some s := by
  rw [exec_concat] at h
  exact Option.bind_eq_some_iff.mp h

theorem exec_append_some {ls ls' : List ℓ} {s : σ} (h : M.exec (ls ++ ls') = some s) :
    ∃ s₀, M.exec ls = some s₀ := by
  simp only [exec, List.foldlM_append] at h
  obtain ⟨s₀, hs, -⟩ := Option.bind_eq_some_iff.mp h
  exact ⟨s₀, hs⟩

def Along (P : σ → ℓ → Prop) (ls : List ℓ) : Prop :=
  ∀ pre l post s, ls = pre ++ l :: post → M.exec pre = some s → P s l

variable {M}

theorem along_nil {P : σ → ℓ → Prop} : M.Along P [] := by
  intro pre l post s h
  simp at h

theorem along_concat {P : σ → ℓ → Prop} {ls : List ℓ} {l : ℓ} :
    M.Along P (ls ++ [l]) ↔ M.Along P ls ∧ ∀ s, M.exec ls = some s → P s l := by
  constructor
  · intro h
    constructor
    · rintro pre l' post s rfl hs
      exact h pre l' (post ++ [l]) s (by simp) hs
    · intro s hs
      exact h ls l [] s rfl hs
  · rintro ⟨hall, hlast⟩ pre l' post s eq hs
    induction post using List.reverseRecOn with
    | nil =>
      obtain ⟨rfl, hl⟩ := List.append_inj' eq rfl
      obtain rfl := List.singleton_inj.mp hl
      exact hlast s hs
    | append_singleton post x _ =>
      rw [← List.cons_append, ← List.append_assoc] at eq
      obtain ⟨rfl, -⟩ := List.append_inj' eq rfl
      exact hall pre l' post s rfl hs

theorem along_snoc {P : σ → ℓ → Prop} {ls : List ℓ} {l : ℓ} {s : σ} (run : M.exec ls = some s) :
    M.Along P (ls ++ [l]) ↔ M.Along P ls ∧ P s l := by
  rw [along_concat, run]
  refine and_congr_right fun _ => ⟨fun last => last s rfl, fun holds s' hs => ?_⟩
  cases hs
  exact holds

theorem along_of_forall {P : ℓ → Prop} {ls : List ℓ} (h : ∀ l ∈ ls, P l) :
    M.Along (fun _ => P) ls := by
  rintro pre l post - rfl -
  exact h l (by simp)

variable (M) in
-- the steps of a run from `s`, each checked in the state it is taken in
def checks (P : σ → ℓ → Bool) (s : σ) : List ℓ → Bool
  | [] => true
  | l :: ls => P s l && (M.step s l).all (checks P · ls)

theorem checks_along {P : σ → ℓ → Bool} {s s' : σ} {pre post : List ℓ} {l : ℓ}
    (h : M.checks P s (pre ++ l :: post) = true) (run : pre.foldlM M.step s = some s') :
    P s' l = true := by
  induction pre generalizing s with
  | nil =>
    cases run
    exact (Bool.and_eq_true_iff.mp h).1
  | cons x pre ih =>
    obtain ⟨s₁, hs₁, rest⟩ := Option.bind_eq_some_iff.mp run
    have later := (Bool.and_eq_true_iff.mp h).2
    rw [hs₁] at later
    exact ih later rest

theorem along_of_checks {P : σ → ℓ → Bool} {ls : List ℓ} (h : M.checks P M.init ls = true) :
    M.Along (fun s l => P s l = true) ls := by
  rintro pre l post s rfl run
  exact checks_along h run

theorem along_of_decide {P : σ → ℓ → Prop} [∀ s l, Decidable (P s l)] {ls : List ℓ}
    (h : M.checks (fun s l => decide (P s l)) M.init ls = true) : M.Along P ls := by
  intro pre l post s eq run
  exact of_decide_eq_true (along_of_checks h pre l post s eq run)

theorem Along.prefix {P : σ → ℓ → Prop} {ls ls' : List ℓ} (h : M.Along P ls') (pre : ls <+: ls') :
    M.Along P ls := by
  obtain ⟨later, rfl⟩ := pre
  rintro pre l post s rfl run
  exact h pre l (post ++ later) s (by simp) run

theorem Along.imp {P Q : σ → ℓ → Prop} {ls : List ℓ} (h : M.Along P ls)
    (step : ∀ s l, l ∈ ls → P s l → Q s l) : M.Along Q ls := by
  rintro pre l post s rfl run
  exact step s l (by simp) (h pre l post s rfl run)

theorem along_of_steps {P : σ → ℓ → Prop} {ls : List ℓ} {s : σ} (run : M.exec ls = some s)
    (step : ∀ pre s l s', M.exec pre = some s → M.step s l = some s' → P s l) : M.Along P ls := by
  rintro pre l post s₀ rfl hs₀
  rw [List.append_cons] at run
  obtain ⟨s', hs'⟩ := M.exec_append_some run
  obtain ⟨s₁, hs₁, hl⟩ := M.exec_concat_some hs'
  cases hs₀.symm.trans hs₁
  exact step pre s₀ l s' hs₀ hl

theorem along_congr {P Q : σ → ℓ → Prop} {ls : List ℓ} (h : M.Along (fun s l => P s l ↔ Q s l) ls) :
    M.Along P ls ↔ M.Along Q ls := by
  constructor
  · exact fun all pre l post s eq hs => (h pre l post s eq hs).mp (all pre l post s eq hs)
  · exact fun all pre l post s eq hs => (h pre l post s eq hs).mpr (all pre l post s eq hs)

theorem history_invariant {I : List ℓ → σ → Prop} {P : σ → ℓ → Prop} (start : I [] M.init)
    (step : ∀ ls s l s', I ls s → P s l → M.step s l = some s' → I (ls ++ [l]) s')
    {ls : List ℓ} {s : σ} (run : M.exec ls = some s) (all : M.Along P ls) : I ls s := by
  induction ls using List.reverseRecOn generalizing s with
  | nil =>
    obtain rfl := Option.some.inj run
    exact start
  | append_singleton ls l ih =>
    obtain ⟨s₀, hs₀, hl⟩ := M.exec_concat_some run
    obtain ⟨hall, hlast⟩ := along_concat.mp all
    exact step ls s₀ l s (ih hs₀ hall) (hlast s₀ hs₀) hl

theorem invariant_along {I : σ → Prop} {P : σ → ℓ → Prop} (start : I M.init)
    (step : ∀ s l s', I s → P s l → M.step s l = some s' → I s') {ls : List ℓ} {s : σ}
    (run : M.exec ls = some s) (all : M.Along P ls) : I s :=
  @history_invariant _ _ _ (fun _ => I) _ start (fun _ s l s' => step s l s') _ _ run all

theorem invariant {I : σ → Prop} (start : I M.init)
    (step : ∀ s l s', I s → M.step s l = some s' → I s') {ls : List ℓ} {s : σ}
    (run : M.exec ls = some s) : I s :=
  @invariant_along _ _ _ I (fun _ _ => True) start (fun s l s' hs _ hl => step s l s' hs hl) _ _ run
    fun _ _ _ _ _ _ => trivial

variable (M) in
-- the machine as it goes on from `s`
def resume (s : σ) : Machine σ ℓ := { M with init := s }

theorem exec_resume {ls : List ℓ} {s : σ} (run : M.exec ls = some s) (ls' : List ℓ) :
    (M.resume s).exec ls' = M.exec (ls ++ ls') := by
  have hrun : ls.foldlM M.step M.init = some s := run
  simp [exec, resume, List.foldlM_append, hrun]

variable (M) in
def Always (I : σ → Prop) (ls : List ℓ) : Prop := ∀ pre s, pre <+: ls → M.exec pre = some s → I s

theorem always_nil {I : σ → Prop} : M.Always I [] ↔ I M.init := by
  constructor
  · exact fun h => h [] M.init List.prefix_rfl rfl
  · intro h pre s hpre hs
    obtain rfl := List.prefix_nil.mp hpre
    cases hs
    exact h

theorem always_concat {I : σ → Prop} {ls : List ℓ} {l : ℓ} :
    M.Always I (ls ++ [l]) ↔ M.Always I ls ∧ ∀ s, M.exec (ls ++ [l]) = some s → I s := by
  constructor
  · intro h
    exact ⟨fun pre s hpre => h pre s (hpre.trans (List.prefix_append _ _)),
      fun s => h _ s List.prefix_rfl⟩
  · rintro ⟨all, last⟩ pre s hpre hs
    rcases List.prefix_concat_iff.mp hpre with rfl | hpre
    · exact last s hs
    · exact all pre s hpre hs

-- where one step keeps `I` exactly under `C`, a run does
theorem always_iff_along {I : σ → Prop} {C : σ → ℓ → Prop} (start : I M.init)
    (idle : ∀ s l, M.step s l = none → C s l)
    (step : ∀ ls s l s', M.exec ls = some s → I s → M.step s l = some s' → (I s' ↔ C s l))
    (ls : List ℓ) : M.Always I ls ↔ M.Along C ls := by
  induction ls using List.reverseRecOn with
  | nil => exact iff_of_true (always_nil.mpr start) along_nil
  | append_singleton ls l ih =>
    rw [always_concat, along_concat, ← ih]
    refine and_congr_right fun before => ⟨fun last s hs => ?_, fun last s' hs' => ?_⟩
    · have held := before ls s List.prefix_rfl hs
      cases hl : M.step s l with
      | none => exact idle s l hl
      | some s' => exact (step ls s l s' hs held hl).mp (last s' (by rw [exec_concat, hs]; exact hl))
    · obtain ⟨s, hs, hl⟩ := M.exec_concat_some hs'
      exact (step ls s l s' hs (before ls s List.prefix_rfl hs) hl).mpr (last s hs)

theorem always_of_checks {p : σ → Bool} {ls : List ℓ} (start : p M.init = true)
    (h : M.checks (fun s l => (M.step s l).all p) M.init ls = true) :
    M.Always (fun s => p s = true) ls := by
  refine (always_iff_along start (fun s l none => ?_) (fun _ s l s' _ _ hl => ?_) ls).mpr
    (along_of_checks h)
  · rw [none]
    rfl
  · rw [hl]
    rfl

variable (M) in
-- the machine together with what `note` records of each of its steps
def traced (note : σ → ℓ → List ν) : Machine (σ × List ν) ℓ where
  init := (M.init, [])
  step p l := (M.step p.1 l).map fun s => (s, p.2 ++ note p.1 l)

variable {note : σ → ℓ → List ν}

theorem traced_step {p p' : σ × List ν} {l : ℓ} (h : (M.traced note).step p l = some p') :
    M.step p.1 l = some p'.1 ∧ p'.2 = p.2 ++ note p.1 l := by
  obtain ⟨s, hs, rfl⟩ := Option.map_eq_some_iff.mp h
  exact ⟨hs, rfl⟩

theorem exec_of_traced {ls : List ℓ} {s : σ} {ns : List ν}
    (h : (M.traced note).exec ls = some (s, ns)) : M.exec ls = some s := by
  induction ls using List.reverseRecOn generalizing s ns with
  | nil =>
    cases h
    rfl
  | append_singleton ls l ih =>
    obtain ⟨⟨s₀, ns₀⟩, hs₀, hl⟩ := exec_concat_some _ h
    rw [exec_concat, ih hs₀]
    exact (traced_step hl).1

theorem traced_exec {ls : List ℓ} {s : σ} (h : M.exec ls = some s) :
    ∃ ns, (M.traced note).exec ls = some (s, ns) := by
  induction ls using List.reverseRecOn generalizing s with
  | nil =>
    cases h
    exact ⟨[], rfl⟩
  | append_singleton ls l ih =>
    obtain ⟨s₀, hs₀, hl⟩ := exec_concat_some _ h
    obtain ⟨ns, hns⟩ := ih hs₀
    refine ⟨ns ++ note s₀ l, ?_⟩
    rw [exec_concat, hns]
    exact congrArg (Option.map _) hl

theorem along_traced {P : σ → ℓ → Prop} {ls : List ℓ} :
    (M.traced note).Along (fun p => P p.1) ls ↔ M.Along P ls := by
  constructor
  · intro h pre l post s eq hs
    obtain ⟨ns, hns⟩ := traced_exec hs
    exact h pre l post (s, ns) eq hns
  · intro h pre l post p eq hp
    exact h pre l post p.1 eq (exec_of_traced hp)

theorem traced_prefix {pre post : List ℓ} {p q : σ × List ν} (hp : (M.traced note).exec pre = some p)
    (hq : (M.traced note).exec (pre ++ post) = some q) : p.2 <+: q.2 := by
  induction post using List.reverseRecOn generalizing q with
  | nil =>
    rw [List.append_nil, hp] at hq
    cases hq
    exact List.prefix_rfl
  | append_singleton post l ih =>
    rw [← List.append_assoc] at hq
    obtain ⟨q₀, hq₀, hl⟩ := exec_concat_some _ hq
    rw [(traced_step hl).2]
    exact (ih hq₀).trans (List.prefix_append _ _)

theorem traced_noted {ls : List ℓ} {q : σ × List ν} (run : (M.traced note).exec ls = some q) :
    (M.traced note).Along (fun p l => p.2 ++ note p.1 l <+: q.2) ls := by
  rintro pre l post p rfl hp
  rw [List.append_cons] at run
  obtain ⟨p', hp'⟩ := exec_append_some _ run
  obtain ⟨p₀, hp₀, hl⟩ := exec_concat_some _ hp'
  cases hp.symm.trans hp₀
  rw [← (traced_step hl).2]
  exact traced_prefix hp' run

-- a run that goes on for ever, from any state
structure Endless (M : Machine σ ℓ) where
  states : Nat → σ
  labels : Nat → ℓ
  steps : ∀ n, M.step (states n) (labels n) = some (states (n + 1))

namespace Endless

def before (e : M.Endless) {s : σ} {l : ℓ} (first : M.step s l = some (e.states 0)) : M.Endless where
  states
    | 0 => s
    | n + 1 => e.states n
  labels
    | 0 => l
    | n + 1 => e.labels n
  steps
    | 0 => first
    | n + 1 => e.steps n

def later (e : M.Endless) (k : Nat) : M.Endless where
  states n := e.states (k + n)
  labels n := e.labels (k + n)
  steps n := e.steps (k + n)

-- two steps, the second of which leads back
def alternate {s s' : σ} {l l' : ℓ} (go : M.step s l = some s') (back : M.step s' l' = some s) : M.Endless where
  states n := if n % 2 = 0 then s else s'
  labels n := if n % 2 = 0 then l else l'
  steps n := by
    rcases Nat.mod_two_eq_zero_or_one n with even | odd
    · rw [if_pos even, if_pos even, if_neg (by omega)]
      exact go
    · rw [if_neg (by omega), if_neg (by omega), if_pos (by omega)]
      exact back

variable (e : M.Endless)

theorem invariant {I : σ → Prop} (start : I (e.states 0))
    (step : ∀ s l s', I s → M.step s l = some s' → I s') (n : Nat) : I (e.states n) := by
  induction n with
  | zero => exact start
  | succ n ih => exact step _ _ _ ih (e.steps n)

-- what grows with every step of a kind that recurs cannot stay bounded
theorem reaches {P : ℓ → Prop} {goal : σ → Prop} {rank : σ → Nat} {bound : Nat}
    (recurs : ∀ n, ∃ m, n ≤ m ∧ P (e.labels m))
    (keeps : ∀ n, rank (e.states n) ≤ rank (e.states (n + 1)))
    (grows : ∀ n, P (e.labels n) → goal (e.states (n + 1)) ∨ rank (e.states n) < rank (e.states (n + 1)))
    (bounded : ∀ n, rank (e.states n) ≤ bound) : ∃ n, goal (e.states n) := by
  by_contra never
  have later : ∀ n k, rank (e.states n) ≤ rank (e.states (n + k)) := by
    intro n k
    induction k with
    | zero => exact Nat.le_refl _
    | succ k ih => exact Nat.le_trans ih (keeps (n + k))
  have climbs : ∀ b, ∃ n, b ≤ rank (e.states n) := by
    intro b
    induction b with
    | zero => exact ⟨0, Nat.zero_le _⟩
    | succ b ih =>
      obtain ⟨n, hn⟩ := ih
      obtain ⟨m, hm, hp⟩ := recurs n
      have between := later n (m - n)
      rw [Nat.add_sub_cancel' hm] at between
      rcases grows m hp with goal | more
      · exact absurd ⟨_, goal⟩ never
      · exact ⟨m + 1, by omega⟩
  obtain ⟨n, hn⟩ := climbs (bound + 1)
  have le := bounded n
  omega

-- a run that reached the start of `e` and goes on with it
theorem exec {ls : List ℓ} (run : M.exec ls = some (e.states 0)) (n : Nat) :
    M.exec (ls ++ (List.range n).map e.labels) = some (e.states n) := by
  induction n with
  | zero => rw [List.range_zero, List.map_nil, List.append_nil, run]
  | succ n ih =>
    rw [List.range_succ, List.map_append, ← List.append_assoc, List.map_singleton, exec_concat, ih]
    exact e.steps n

end Endless

end Machine
