import Mathlib.Data.Int.CardIntervalMod
import Mathlib.Data.List.Chain

namespace Rotation

variable {α : Type} {k : Nat} {r : Nat → α}

-- the numbers name the `k` members of a ring, round and round
structure Ring (k : Nat) (r : Nat → α) : Prop where
  pos : 0 < k
  eq_iff : ∀ i j, r i = r j ↔ i ≡ j [MOD k]

def Follows (r : Nat → α) (a b : α) : Prop := ∃ i, a = r i ∧ b = r (i + 1)

def Balanced [DecidableEq α] (r : Nat → α) (seq : List α) : Prop :=
  ∀ pre, pre <+: seq → ∀ i j, pre.count (r i) ≤ pre.count (r j) + 1

structure Spread [DecidableEq α] (r : Nat → α) (seq : List α) : Prop where
  cyclic : seq.IsChain (Follows r)
  balanced : Balanced r seq

def Steps (k : Nat) (slots : List Nat) : Prop := slots.IsChain fun i j => j ≡ i + 1 [MOD k]

-- as many times the slot of a batch as the batch has members
def slots {β : Type} : Nat → List (List β) → List Nat
  | _, [] => []
  | i, batch :: batches => List.replicate batch.length i ++ slots (i + 1) batches

namespace Ring

variable (R : Ring k r)
include R

theorem follows_iff (i j : Nat) : Follows r (r i) (r j) ↔ j ≡ i + 1 [MOD k] := by
  constructor
  · rintro ⟨m, hi, hj⟩
    exact ((R.eq_iff _ _).mp hj).trans (((R.eq_iff _ _).mp hi).symm.add_right 1)
  · exact fun h => ⟨i, rfl, (R.eq_iff _ _).mpr h⟩

theorem walk {slots : List Nat} (h : Steps k slots) :
    ∃ p, slots.map r = (List.range slots.length).map fun n => r (p + n) := by
  induction slots with
  | nil => exact ⟨0, rfl⟩
  | cons i slots ih =>
    have tail : Steps k slots := List.IsChain.tail h
    obtain ⟨p, hp⟩ := ih tail
    refine ⟨i, ?_⟩
    rw [List.map_cons, hp, List.length_cons, List.range_succ_eq_map, List.map_cons, List.map_map]
    refine congrArg (r i :: ·) (List.map_congr_left fun n hn => ?_)
    cases slots with
    | nil => simp at hn
    | cons j slots =>
      have next : j ≡ i + 1 [MOD k] := (List.isChain_cons_cons.mp h).1
      rw [List.map_cons, List.length_cons, List.range_succ_eq_map, List.map_cons] at hp
      have start : j ≡ p [MOD k] := (R.eq_iff _ _).mp (List.cons.inj hp).1
      refine (R.eq_iff _ _).mpr ?_
      have := (start.symm.trans next).add_right n
      simpa [Nat.add_assoc, Nat.add_comm 1 n] using this

variable [DecidableEq α]

theorem count_walk (p i n : Nat) : ((List.range n).map fun m => r (p + m)).count (r i) =
    Nat.count (fun m => p + m ≡ i [MOD k]) n := by
  induction n with
  | zero => rfl
  | succ n ih =>
    rw [List.range_succ, List.map_append, List.count_append, ih, Nat.count_succ]
    simp [List.count_singleton, R.eq_iff]

theorem count_bounds (p i n : Nat) :
    n / k ≤ ((List.range n).map fun m => r (p + m)).count (r i) ∧
      ((List.range n).map fun m => r (p + m)).count (r i) ≤ n / k + 1 := by
  have shift : ∀ m, p + m ≡ i [MOD k] ↔ m ≡ i + (k - 1) * p [MOD k] := by
    intro m
    have hk : p + (k - 1) * p = k * p := by
      rw [Nat.add_comm, ← Nat.succ_mul, Nat.succ_eq_add_one, Nat.sub_add_cancel R.pos]
    have back : p + (i + (k - 1) * p) ≡ i [MOD k] := by
      rw [Nat.add_left_comm, hk]
      simp [Nat.ModEq]
    constructor
    · exact fun h => Nat.ModEq.add_left_cancel' p (h.trans back.symm)
    · exact fun h => (h.add_left p).trans back
  rw [R.count_walk]
  simp only [shift]
  rw [Nat.count_modEq_card _ R.pos]
  split <;> omega

theorem balanced_walk (p n : Nat) : Balanced r ((List.range n).map fun m => r (p + m)) := by
  intro pre hpre i j
  have hpre : pre = (List.range (min pre.length n)).map fun m => r (p + m) := by
    rw [← List.take_range, List.map_take]
    exact List.prefix_iff_eq_take.mp hpre
  rw [hpre]
  have hi := R.count_bounds p i (min pre.length n)
  have hj := R.count_bounds p j (min pre.length n)
  omega

theorem spread_iff (p : Nat) (slots : List Nat) :
    Spread r (slots.map fun i => r (p + i)) ↔ Steps k slots := by
  have shifted : Ring k fun i => r (p + i) :=
    ⟨R.pos, fun i j => (R.eq_iff _ _).trans ⟨Nat.ModEq.add_left_cancel' p, fun h => h.add_left p⟩⟩
  have chain : (slots.map fun i => r (p + i)).IsChain (Follows r) ↔ Steps k slots := by
    rw [List.isChain_map, Steps]
    refine List.IsChain.iff fun i j => ?_
    rw [R.follows_iff, Nat.add_assoc]
    exact ⟨Nat.ModEq.add_left_cancel' p, fun h => h.add_left p⟩
  constructor
  · exact fun h => chain.mp h.cyclic
  · intro h
    obtain ⟨q, hq⟩ := shifted.walk h
    refine ⟨chain.mpr h, ?_⟩
    rw [hq]
    simpa only [Nat.add_assoc] using R.balanced_walk (p + q) slots.length

end Ring
end Rotation
