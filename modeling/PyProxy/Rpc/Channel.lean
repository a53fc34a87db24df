import Mathlib.Data.List.Basic

namespace Rpc

variable {ρ ο ο' : Type}

-- the messages sent so far, of which the receiver has taken the first `taken`
structure Channel (ρ : Type) where
  sent : List ρ
  taken : Nat
  connected : Bool

inductive RecvError where
  | disconnected
  deriving DecidableEq, Repr

inductive RecvTimeoutError where
  | timeout
  | disconnected
  deriving DecidableEq, Repr

inductive TryRecvError where
  | empty
  | disconnected
  deriving DecidableEq, Repr

namespace Channel

def queue (c : Channel ρ) : List ρ := c.sent.drop c.taken

def take (c : Channel ρ) : Channel ρ := { c with taken := c.taken + 1 }

-- `none` while the call blocks
def recv (c : Channel ρ) : Option (Except RecvError ρ × Channel ρ) :=
  match c.queue with
  | r :: _ => some (.ok r, c.take)
  | [] => if c.connected then none else some (.error .disconnected, c)

def recvTimeout (c : Channel ρ) : Except RecvTimeoutError ρ × Channel ρ :=
  match c.queue with
  | r :: _ => (.ok r, c.take)
  | [] => if c.connected then (.error .timeout, c) else (.error .disconnected, c)

def tryRecv (c : Channel ρ) : Except TryRecvError ρ × Channel ρ :=
  match c.queue with
  | r :: _ => (.ok r, c.take)
  | [] => if c.connected then (.error .empty, c) else (.error .disconnected, c)

end Channel

-- a call on the receiver: the response that had been sent by then, and what the call came to
structure Call (ρ ο : Type) where
  response : Option ρ
  outcome : ο

def Call.map (view : ο → ο') (c : Call ρ ο) : Call ρ ο' := ⟨c.response, view c.outcome⟩

def answered (cs : List (Call ρ ο)) : Nat := cs.countP fun c => c.response.isSome

theorem answered_map (view : ο → ο') (cs : List (Call ρ ο)) :
    answered (cs.map (Call.map view)) = answered cs := by
  rw [answered, List.countP_map]
  rfl

structure Repeatable (value : ρ → ο) (cs : List (Call ρ ο)) : Prop where
  delivered : ∀ pre c post r, cs = pre ++ c :: post → c.response = some r →
    (∀ d ∈ pre, ∀ r', d.outcome ≠ value r') → c.outcome = value r
  stable : ∀ pre c post r, cs = pre ++ c :: post → c.outcome = value r →
    ∀ d ∈ post, d.outcome = c.outcome

-- the calls on a receiver whose channel carries one message at most
inductive Account (value : ρ → ο) (Miss : ο → Prop) (closed : ο) :
    List ρ → Nat → List (Call ρ ο) → Prop where
  | unanswered (early) (misses : ∀ c ∈ early, c.response = none ∧ Miss c.outcome) :
      Account value Miss closed [] 0 early
  | unread (r early) (misses : ∀ c ∈ early, c.response = none ∧ Miss c.outcome) :
      Account value Miss closed [r] 0 early
  | read (r early n) (misses : ∀ c ∈ early, c.response = none ∧ Miss c.outcome) :
      Account value Miss closed [r] 1 (early ++ ⟨some r, value r⟩ :: List.replicate n ⟨some r, closed⟩)

namespace Account

variable {value : ρ → ο} {Miss : ο → Prop} {closed : ο} {sent : List ρ} {taken : Nat}
  {cs early : List (Call ρ ο)}

theorem answered_early (misses : ∀ c ∈ early, c.response = none ∧ Miss c.outcome) : answered early = 0 := by
  rw [answered, List.countP_eq_zero]
  intro c hc
  simp [(misses c hc).1]

theorem send (a : Account value Miss closed sent taken cs) {sent' : List ρ} (more : sent <+: sent')
    (one : sent'.length ≤ 1) : Account value Miss closed sent' taken cs := by
  cases a with
  | unanswered _ misses =>
    match sent', one with
    | [], _ => exact .unanswered _ misses
    | [r], _ => exact .unread r _ misses
  | unread r _ misses =>
    rw [← more.eq_of_length_le one]
    exact .unread r _ misses
  | read r _ n misses =>
    rw [← more.eq_of_length_le one]
    exact .read r _ n misses

theorem received (a : Account value Miss closed sent taken cs) {r : ρ} {rest : List ρ}
    (queue : sent.drop taken = r :: rest) :
    Account value Miss closed sent (taken + 1) (cs ++ [⟨sent.head?, value r⟩]) := by
  cases a with
  | unanswered _ misses => cases queue
  | unread r' _ misses =>
    cases queue
    exact .read _ _ 0 misses
  | read r _ n misses => cases queue

theorem missed (a : Account value Miss closed sent taken cs) (queue : sent.drop taken = []) {o : ο}
    (miss : Miss o) (gone : sent ≠ [] → o = closed) :
    Account value Miss closed sent taken (cs ++ [⟨sent.head?, o⟩]) := by
  cases a with
  | unanswered early misses =>
    refine .unanswered _ fun c hc => ?_
    rcases List.mem_append.mp hc with hc | hc
    · exact misses c hc
    · rw [List.mem_singleton.mp hc]
      exact ⟨rfl, miss⟩
  | unread r _ misses => cases queue
  | read r early n misses =>
    have again : Account value Miss closed _ _ _ := .read r early (n + 1) misses
    rw [List.replicate_succ'] at again
    rw [gone (List.cons_ne_nil r []), List.append_assoc, List.cons_append]
    exact again

theorem map (view : ο → ο') {Miss' : ο' → Prop} (keeps : ∀ o, Miss o → Miss' (view o))
    (a : Account value Miss closed sent taken cs) :
    Account (fun r => view (value r)) Miss' (view closed) sent taken (cs.map (Call.map view)) := by
  have kept : ∀ early : List (Call ρ ο), (∀ c ∈ early, c.response = none ∧ Miss c.outcome) →
      ∀ c ∈ early.map (Call.map view), c.response = none ∧ Miss' c.outcome := by
    intro early misses c hc
    obtain ⟨d, hd, rfl⟩ := List.mem_map.mp hc
    exact ⟨(misses d hd).1, keeps _ (misses d hd).2⟩
  cases a with
  | unanswered _ misses => exact .unanswered _ (kept _ misses)
  | unread r _ misses => exact .unread r _ (kept _ misses)
  | read r _ n misses =>
    rw [List.map_append, List.map_cons, List.map_replicate]
    exact .read r _ n (kept _ misses)

theorem early_repeatable (apart : ∀ r, ¬ Miss (value r))
    (misses : ∀ c ∈ early, c.response = none ∧ Miss c.outcome) : Repeatable value early where
  delivered pre c post r eq hr := by
    have none := (misses c (by simp [eq])).1
    rw [hr] at none
    cases none
  stable pre c post r eq hr := by
    have miss := (misses c (by simp [eq])).2
    rw [hr] at miss
    exact absurd miss (apart r)

theorem repeatable_iff (apart : ∀ r, ¬ Miss (value r)) (miss : Miss closed)
    (a : Account value Miss closed sent taken cs) : Repeatable value cs ↔ answered cs ≤ 1 := by
  cases a with
  | unanswered _ misses =>
    rw [answered_early misses]
    exact iff_of_true (early_repeatable apart misses) (Nat.zero_le 1)
  | unread r _ misses =>
    rw [answered_early misses]
    exact iff_of_true (early_repeatable apart misses) (Nat.zero_le 1)
  | read r early n misses =>
    have count : answered (early ++ ⟨some r, value r⟩ :: List.replicate n ⟨some r, closed⟩) = n + 1 := by
      rw [answered, List.countP_append, List.countP_cons_of_pos rfl, List.countP_replicate]
      have none := answered_early misses
      rw [answered] at none
      rw [none]
      simp
    rw [count]
    constructor
    · intro rep
      by_contra more
      obtain ⟨m, rfl⟩ : ∃ m, n = m + 1 := ⟨n - 1, by omega⟩
      have same := rep.stable early ⟨some r, value r⟩ _ r rfl rfl ⟨some r, closed⟩ (by simp [List.replicate_succ])
      dsimp only at same
      rw [same] at miss
      exact apart r miss
    · intro one
      obtain rfl : n = 0 := by omega
      have last : ∀ pre c post, early ++ [⟨some r, value r⟩] = pre ++ c :: post →
          c ∈ early ∨ c = ⟨some r, value r⟩ ∧ post = [] := by
        intro pre c post eq
        rcases List.eq_nil_or_concat' post with rfl | ⟨post, d, rfl⟩
        · exact .inr ⟨(List.singleton_inj.mp (List.append_inj' eq rfl).2).symm, rfl⟩
        · rw [← List.cons_append, ← List.append_assoc] at eq
          obtain ⟨rfl, -⟩ := List.append_inj' eq rfl
          exact .inl (by simp)
      refine ⟨fun pre c post r' eq hr _ => ?_, fun pre c post r' eq hr d hd => ?_⟩
      · rcases last pre c post eq with hc | ⟨rfl, rfl⟩
        · have none := (misses c hc).1
          rw [hr] at none
          cases none
        · cases hr
          rfl
      · rcases last pre c post eq with hc | ⟨rfl, rfl⟩
        · have missed := (misses c hc).2
          rw [hr] at missed
          exact absurd missed (apart r')
        · cases hd

end Account
end Rpc
