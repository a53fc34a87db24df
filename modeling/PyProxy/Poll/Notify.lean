import PyProxy.Poll.Quiet

namespace Poll

variable {τ α : Type} [DecidableEq τ]

namespace Source

-- an armed notification brings an event about, which then tells all that the source is registered and ready for
def answers (s : Source τ α) (ev : Event τ) : Bool :=
  decide (s.reg.map Prod.fst = some ev.token) && (ev.readable && s.readArmed || ev.writable && s.writeArmed) &&
    (!ev.readable || s.readArmed || s.reads && (s.pending || s.closed)) &&
    (!ev.writable || s.writeArmed || s.writes)

omit [DecidableEq τ] in
theorem deliver_deliver (s : Source τ α) (r wr r' wr' : Bool) :
    (s.deliver r wr).deliver r' wr' = s.deliver (r || r') (wr || wr') := by
  simp [deliver, Bool.and_assoc]

end Source

namespace World

def notify (sockOf : τ → Option Sock) (w : World τ α) (ev : Event τ) : Option (World τ α) :=
  match sockOf ev.token with
  | none => none
  | some k =>
    if (w.source k).answers ev then some (w.modify k (·.deliver ev.readable ev.writable)) else none

def notifyAll (sockOf : τ → Option Sock) (w : World τ α) (evs : List (Event τ)) :
    Option (World τ α) := evs.foldlM (notify sockOf) w

theorem notify_some {sockOf : τ → Option Sock} {w w' : World τ α} {ev : Event τ}
    (h : w.notify sockOf ev = some w') : ∃ k i, sockOf ev.token = some k ∧
      (w.source k).reg = some (ev.token, i) ∧
      (ev.readable = true ∧ (w.source k).readArmed = true ∨ ev.writable = true ∧ (w.source k).writeArmed = true) ∧
      w' = w.modify k (·.deliver ev.readable ev.writable) := by
  simp only [notify] at h
  split at h
  · cases h
  · rename_i k hk
    split at h
    · rename_i hans
      simp only [Source.answers, Bool.and_eq_true, decide_eq_true_eq, Bool.or_eq_true] at hans
      obtain ⟨⟨⟨hreg, armed⟩, -⟩, -⟩ := hans
      obtain ⟨⟨tk, i⟩, hti, rfl⟩ := Option.map_eq_some_iff.mp hreg
      exact ⟨k, i, hk, hti, armed, (Option.some.inj h).symm⟩
    · cases h

theorem notifyAll_some {sockOf : τ → Option Sock} {w w' : World τ α} {evs : List (Event τ)}
    (h : w.notifyAll sockOf evs = some w') : SameReg w w' ∧
      ∀ ev ∈ evs, ∃ k i, sockOf ev.token = some k ∧ (w.source k).reg = some (ev.token, i) := by
  induction evs generalizing w with
  | nil =>
    cases h
    exact ⟨.refl _, by simp⟩
  | cons ev evs ih =>
    simp only [notifyAll, List.foldlM_cons] at h
    obtain ⟨w₁, h₁, h₂⟩ := Option.bind_eq_some_iff.mp h
    obtain ⟨k, i, hk, hreg, -, rfl⟩ := notify_some h₁
    have same₁ := w.sameReg_modify k (f := (·.deliver ev.readable ev.writable)) rfl
    obtain ⟨same, found⟩ := ih h₂
    refine ⟨⟨same.1.trans same₁.1, fun j => (same.2 j).trans (same₁.2 j)⟩, fun ev' hev => ?_⟩
    rcases List.mem_cons.mp hev with rfl | hev
    · exact ⟨k, i, hk, hreg⟩
    · obtain ⟨j, i', hj, hregj⟩ := found ev' hev
      exact ⟨j, i', hj, (same₁.2 j).symm.trans hregj⟩

-- what a poll does to a source: it disarms what the events of the source report
theorem notifyAll_deliver {sockOf : τ → Option Sock} {w w' : World τ α} {evs : List (Event τ)}
    (h : w.notifyAll sockOf evs = some w') (k : Sock) :
    ∃ r wr, w'.source k = (w.source k).deliver r wr ∧
      (r = true → ∃ ev ∈ evs, sockOf ev.token = some k ∧ ev.readable = true) ∧
      (wr = true → ∃ ev ∈ evs, sockOf ev.token = some k ∧ ev.writable = true) := by
  induction evs generalizing w with
  | nil =>
    cases h
    exact ⟨false, false, by simp [Source.deliver], by simp, by simp⟩
  | cons ev evs ih =>
    simp only [notifyAll, List.foldlM_cons] at h
    obtain ⟨w₁, h₁, h₂⟩ := Option.bind_eq_some_iff.mp h
    obtain ⟨j, i, hj, -, -, rfl⟩ := notify_some h₁
    obtain ⟨r, wr, hsrc, hr, hwr⟩ := ih h₂
    have later : ∀ {P : Event τ → Prop}, (∃ e ∈ evs, P e) → ∃ e ∈ ev :: evs, P e :=
      fun ⟨e, he, hp⟩ => ⟨e, List.mem_cons_of_mem _ he, hp⟩
    by_cases hk : k = j
    · subst hk
      rw [modify_same, Source.deliver_deliver] at hsrc
      refine ⟨_, _, hsrc, fun h => ?_, fun h => ?_⟩
      · rcases Bool.or_eq_true_iff.mp h with h | h
        · exact ⟨ev, by simp, hj, h⟩
        · exact later (hr h)
      · rcases Bool.or_eq_true_iff.mp h with h | h
        · exact ⟨ev, by simp, hj, h⟩
        · exact later (hwr h)
    · rw [modify_other _ _ hk] at hsrc
      exact ⟨r, wr, hsrc, fun h => later (hr h), fun h => later (hwr h)⟩

theorem notifyAll_unregistered {sockOf : τ → Option Sock} {w w' : World τ α} {evs : List (Event τ)}
    (h : w.notifyAll sockOf evs = some w') {tk : τ} {k : Sock} (own : sockOf tk = some k)
    (hreg : (w.source k).reg = none) : tk ∉ evs.map Event.token := by
  intro htk
  obtain ⟨ev, hev, rfl⟩ := List.mem_map.mp htk
  obtain ⟨j, i, hj, hregj⟩ := (notifyAll_some h).2 ev hev
  obtain rfl := Option.some.inj (own.symm.trans hj)
  rw [hreg] at hregj
  cases hregj

-- every event of a source uses up a notification of it
theorem notifyAll_count {sockOf : τ → Option Sock} {w w' : World τ α} {evs : List (Event τ)}
    (h : w.notifyAll sockOf evs = some w') {tk : τ} {k : Sock} (own : sockOf tk = some k) :
    (evs.map Event.token).count tk ≤
      (w.source k).readArmed.toNat + (w.source k).writeArmed.toNat := by
  induction evs generalizing w with
  | nil => simp
  | cons ev evs ih =>
    simp only [notifyAll, List.foldlM_cons] at h
    obtain ⟨w₁, h₁, h₂⟩ := Option.bind_eq_some_iff.mp h
    obtain ⟨j, i, hj, -, armed, rfl⟩ := notify_some h₁
    have rest := ih h₂
    rw [List.map_cons, List.count_cons]
    by_cases hk : k = j
    · subst hk
      rw [modify_same] at rest
      have spent : ((w.source k).deliver ev.readable ev.writable).readArmed.toNat +
          ((w.source k).deliver ev.readable ev.writable).writeArmed.toNat + 1 ≤
          (w.source k).readArmed.toNat + (w.source k).writeArmed.toNat := by
        rcases armed with ⟨readable, armed⟩ | ⟨writable, armed⟩
        · simp only [Source.deliver, readable, armed]
          cases (w.source k).writeArmed <;> cases ev.writable <;> decide
        · simp only [Source.deliver, writable, armed]
          cases (w.source k).readArmed <;> cases ev.readable <;> decide
      split <;> omega
    · rw [modify_other _ _ hk] at rest
      rw [if_neg]
      · exact rest
      · intro heq
        rw [beq_iff_eq] at heq
        rw [heq, own] at hj
        exact hk (Option.some.inj hj)

end World
end Poll
