import PyProxy.Poll.EdgeTriggered

namespace Poll

variable {τ α : Type}

-- what reading, writing and accepting can do to a source: nothing arrives and nothing is disarmed
structure Source.Quiet (s s' : Source τ α) : Prop where
  reg : s'.reg = s.reg
  closed : s'.closed = s.closed
  readArmed : s.readArmed = true → s'.readArmed = true
  writeArmed : s.writeArmed = true → s'.writeArmed = true
  pending : s'.pending = true → s.pending = true

namespace Source

theorem pending_iff {s : Source τ α} : s.pending = true ↔ s.input ≠ [] ∨ 0 < s.backlog := by
  simp [pending]

theorem Quiet.refl (s : Source τ α) : Quiet s s := ⟨rfl, rfl, id, id, id⟩

theorem quiet_drop (s : Source τ α) (n : Nat) : Quiet s { s with input := s.input.drop n } := by
  refine ⟨rfl, rfl, id, id, fun h => ?_⟩
  rw [pending_iff] at h ⊢
  exact h.imp_left fun hne hnil => hne (by simp [hnil])

theorem take_quiet (s : Source τ α) (size : Nat) (io : ReadIo) : Quiet s (s.take size io).2 := by
  simp only [take]
  split
  · exact Quiet.refl s
  · split
    · exact Quiet.refl s
    · exact s.quiet_drop _

theorem put_quiet (s : Source τ α) (len : Nat) (io : WriteIo) : Quiet s (s.put len io).2 := by
  simp only [put]
  split
  · exact Quiet.refl s
  · split
    · exact ⟨rfl, rfl, id, fun h => by simp [h], id⟩
    · exact ⟨rfl, rfl, id, fun h => by simp [h], id⟩

theorem dequeue_quiet (s : Source τ α) : Quiet s s.dequeue := by
  refine ⟨rfl, rfl, id, id, fun h => ?_⟩
  rw [pending_iff] at h ⊢
  exact h.imp_right fun hpos => Nat.lt_of_lt_of_le hpos (Nat.sub_le _ _)

-- what registering again and deregistering can do to a source
inductive Retuned (s : Source τ α) : Source τ α → Prop where
  | same : Retuned s s
  | attach (tk : τ) (i : Interest) (readable : i.readable = true) : Retuned s (s.attach tk i)
  | detach : Retuned s s.detach

theorem Retuned.input {s s' : Source τ α} (h : Retuned s s') : s'.input = s.input := by
  cases h <;> rfl

theorem Retuned.trans {s s' s'' : Source τ α} (h : Retuned s s') (h' : Retuned s' s'') :
    Retuned s s'' := by
  cases h' with
  | same => exact h
  | attach tk i readable => cases h <;> exact .attach tk i readable
  | detach => cases h <;> exact .detach

end Source

namespace World

def Quiet (w w' : World τ α) : Prop :=
  w'.next = w.next ∧ ∀ k, (w.source k).Quiet (w'.source k)

def SameReg (w w' : World τ α) : Prop :=
  w'.next = w.next ∧ ∀ k, (w'.source k).reg = (w.source k).reg

theorem SameReg.refl (w : World τ α) : SameReg w w := ⟨rfl, fun _ => rfl⟩

theorem Quiet.sameReg {w w' : World τ α} (h : Quiet w w') : SameReg w w' :=
  ⟨h.1, fun k => (h.2 k).reg⟩

theorem sameReg_modify (w : World τ α) (k : Sock) {f : Source τ α → Source τ α}
    (hf : (f (w.source k)).reg = (w.source k).reg) : SameReg w (w.modify k f) := by
  refine ⟨rfl, fun j => ?_⟩
  by_cases h : j = k
  · subst h
    rw [modify_same, hf]
  · rw [modify_other w f h]

theorem quiet_modify (w : World τ α) (k : Sock) {f : Source τ α → Source τ α}
    (hf : (w.source k).Quiet (f (w.source k))) : Quiet w (w.modify k f) := by
  refine ⟨rfl, fun j => ?_⟩
  by_cases h : j = k
  · subst h
    rw [modify_same]
    exact hf
  · rw [modify_other w f h]
    exact .refl _

theorem write_other (w : World τ α) {j k : Sock} (len : Nat) (io : WriteIo) (h : j ≠ k) :
    (w.write k len io).2.source j = w.source j :=
  modify_other w (fun s => (s.put len io).2) h

theorem read_quiet (w : World τ α) (k : Sock) (size : Nat) (io : ReadIo) :
    Quiet w (w.read k size io).2 := w.quiet_modify k ((w.source k).take_quiet size io)

theorem write_quiet (w : World τ α) (k : Sock) (len : Nat) (io : WriteIo) :
    Quiet w (w.write k len io).2 := w.quiet_modify k ((w.source k).put_quiet len io)

structure Accepted (w : World τ α) (k : Sock) (io : AcceptIo α) (w' : World τ α) : Prop where
  next : w'.next = w.next + 1
  opened : w'.source w.next = { (Source.idle : Source τ α) with input := io.early, closed := io.closed }
  listener : k ≠ w.next → w'.source k = (w.source k).dequeue
  other : ∀ j, j ≠ k → j ≠ w.next → w'.source j = w.source j

theorem Accepted.fresh {w w' : World τ α} {k : Sock} {io : AcceptIo α} (h : Accepted w k io w') :
    (w'.source w.next).reg = none := by
  rw [h.opened]
  rfl

theorem Accepted.quiet {w w' : World τ α} {k : Sock} {io : AcceptIo α} (h : Accepted w k io w')
    {j : Sock}
    (hj : j ≠ w.next) : (w.source j).Quiet (w'.source j) := by
  by_cases hk : j = k
  · subst hk
    rw [h.listener hj]
    exact (w.source j).dequeue_quiet
  · rw [h.other j hk hj]
    exact .refl _

theorem accept_cases (w : World τ α) (k : Sock) (io : AcceptIo α) :
    (∃ e, w.accept k io = (.error e, w) ∧ ((w.source k).backlog = 0 ∨ io.refused = true)) ∨
      (w.source k).backlog ≠ 0 ∧ io.refused = false ∧
        ∃ w', w.accept k io = (.ok w.next, w') ∧ Accepted w k io w' := by
  simp only [accept]
  split
  · rename_i h
    exact .inl ⟨_, rfl, .inl h⟩
  · rename_i hready
    split
    · rename_i h
      exact .inl ⟨_, rfl, .inr h⟩
    · rename_i hok
      refine .inr ⟨hready, by simpa using hok, _, rfl, rfl, ?_, fun h => ?_,
        fun j hk hj => ?_⟩
      · simp only [modify_same]
      · simp only [modify_other _ _ h, modify_same]
      · simp only [modify_other _ _ hj, modify_other _ _ hk]

end World
end Poll
