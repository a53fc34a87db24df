import Mathlib.Order.WellFounded
import PyProxy.Machine.Run
import PyProxy.Poll.EdgeTriggered

namespace Poll

variable {σ ℓ τ : Type} {M : Machine σ ℓ}

inductive Beat (τ : Type) where
  | head
  | poll (events : List (Event τ))
  | event
  | aside

-- a loop that polls, works off the events one by one, and polls again
structure Turns (M : Machine σ ℓ) (batch : σ → Option (List (Event τ))) (beat : ℓ → Beat τ) : Prop where
  head : ∀ s l s', M.step s l = some s' → beat l = .head → batch s = some [] ∧ batch s' = none
  poll : ∀ s l s' evs, M.step s l = some s' → beat l = .poll evs → batch s = none ∧ batch s' = some evs
  event : ∀ s l s', M.step s l = some s' → beat l = .event →
    ∃ ev rest, batch s = some (ev :: rest) ∧ batch s' = some rest
  aside : ∀ s l s', M.step s l = some s' → beat l = .aside → batch s' = batch s

namespace Turns

variable {batch : σ → Option (List (Event τ))} {beat : ℓ → Beat τ} {e : M.Endless}

theorem handled (turns : Turns M batch beat) {n m : Nat} (later : n ≤ m)
    (round : beat (e.labels m) = .head) {evs : List (Event τ)} (batched : batch (e.states n) = some evs)
    {ev : Event τ} (mem : ev ∈ evs) : ∃ k rest, n ≤ k ∧ beat (e.labels k) = .event ∧
      batch (e.states k) = some (ev :: rest) := by
  obtain ⟨d, rfl⟩ := Nat.exists_eq_add_of_le later
  clear later
  induction d generalizing n evs with
  | zero =>
    have empty := (turns.head _ _ _ (e.steps n) round).1
    rw [batched] at empty
    cases empty
    cases mem
  | succ d ih =>
    have rest : ∀ evs, batch (e.states (n + 1)) = some evs → ev ∈ evs → ∃ k rest, n ≤ k ∧
        beat (e.labels k) = .event ∧ batch (e.states k) = some (ev :: rest) := by
      intro evs batched mem
      rw [show n + (d + 1) = n + 1 + d by omega] at round
      obtain ⟨k, rest, after, handles⟩ := ih batched mem round
      exact ⟨k, rest, Nat.le_of_succ_le after, handles⟩
    cases hb : beat (e.labels n) with
    | head =>
      have empty := (turns.head _ _ _ (e.steps n) hb).1
      rw [batched] at empty
      cases empty
      cases mem
    | poll evs' =>
      have none := (turns.poll _ _ _ _ (e.steps n) hb).1
      rw [batched] at none
      cases none
    | event =>
      obtain ⟨first, others, before, after⟩ := turns.event _ _ _ (e.steps n) hb
      cases batched.symm.trans before
      rcases List.mem_cons.mp mem with rfl | mem
      · exact ⟨n, others, Nat.le_refl n, hb, before⟩
      · exact rest others after mem
    | aside =>
      have same := turns.aside _ _ _ (e.steps n) hb
      exact rest evs (same.trans batched) mem

-- a notification that stays armed is told of, and what is told of is handled
structure Fair (e : M.Endless) (batch : σ → Option (List (Event τ))) (beat : ℓ → Beat τ) (armed : σ → Prop)
    (tells : Event τ → Prop) : Prop where
  turning : ∀ n, ∃ m, n ≤ m ∧ beat (e.labels m) = .head
  told : ∀ n, (∀ m, n ≤ m → batch (e.states m) = none → armed (e.states m)) →
    ∃ m evs ev, n ≤ m ∧ beat (e.labels m) = .poll evs ∧ ev ∈ evs ∧ tells ev

theorem reaches (turns : Turns M batch beat) {armed : σ → Prop} {tells : Event τ → Prop}
    (fair : Fair e batch beat armed tells) {goal : σ → Prop} {left : σ → Nat}
    (watched : ∀ n, batch (e.states n) = none → goal (e.states n) ∨ armed (e.states n))
    (keeps : ∀ n, goal (e.states (n + 1)) ∨ left (e.states (n + 1)) ≤ left (e.states n))
    (shrinks : ∀ n ev rest, beat (e.labels n) = .event → batch (e.states n) = some (ev :: rest) →
      tells ev → goal (e.states n) ∨ goal (e.states (n + 1)) ∨ left (e.states (n + 1)) < left (e.states n))
    (n : Nat) : ∃ m, n ≤ m ∧ goal (e.states m) := by
  by_contra never
  have unmet : ∀ m, n ≤ m → ¬ goal (e.states m) := fun m hm met => never ⟨m, hm, met⟩
  have antitone : ∀ m d, n ≤ m → left (e.states (m + d)) ≤ left (e.states m) := by
    intro m d hm
    induction d with
    | zero => exact Nat.le_refl _
    | succ d ih => exact Nat.le_trans ((keeps (m + d)).resolve_left (unmet _ (by omega))) ih
  obtain ⟨m, hm, least⟩ :=
    (measure fun m => left (e.states m)).wf.has_min {m | n ≤ m} ⟨n, Nat.le_refl n⟩
  have hm : n ≤ m := hm
  obtain ⟨p, evs, ev, later, polls, mem, tells⟩ :=
    fair.told m fun k hk idle => (watched k idle).resolve_left (unmet k (Nat.le_trans hm hk))
  have batched := (turns.poll _ _ _ _ (e.steps p) polls).2
  obtain ⟨q, round, head⟩ := fair.turning (p + 1)
  obtain ⟨k, rest, after, handles, first⟩ := turns.handled round head batched mem
  have reached : m ≤ k := by omega
  have less : left (e.states (k + 1)) < left (e.states k) :=
    ((shrinks k ev rest handles first tells).resolve_left (unmet k (by omega))).resolve_left (unmet (k + 1) (by omega))
  have most := antitone m (k - m) hm
  rw [Nat.add_sub_cancel' reached] at most
  exact least (k + 1) (show n ≤ k + 1 by omega) (Nat.lt_of_lt_of_le less most)

end Turns
end Poll
