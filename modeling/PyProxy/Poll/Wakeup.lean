import Mathlib.Logic.Relation
import PyProxy.Poll.Notify

namespace Poll

variable {τ α : Type}

namespace Source

-- what the owner of a source can do with it
inductive Serves (s : Source τ α) : Source τ α → Prop where
  | take (size : Nat) (io : ReadIo) : Serves s (s.take size io).2
  | put (len : Nat) (io : WriteIo) : Serves s (s.put len io).2
  | dequeue : Serves s s.dequeue
  | attach (tk : τ) (i : Interest) (readable : i.readable = true) : Serves s (s.attach tk i)
  | detach : Serves s s.detach

abbrev Served : Source τ α → Source τ α → Prop := Relation.ReflTransGen Serves

def Awake (s : Source τ α) : Prop := s.pending = true → s.readArmed = true

def Unmissed (s : Source τ α) : Prop := s.reg = none ∨ s.Awake

def acceptsAll (s : Source τ α) (io : AcceptIo α) : Bool :=
  decide (s.backlog ≤ if io.refused = true then 0 else 1)

def readsAll (s : Source τ α) (size : Nat) (io : ReadIo) : Bool :=
  io.reset && s.closed || decide (s.input.length ≤ min (max io.amount 1) size)

variable {s s' s'' : Source τ α}

theorem Quiet.trans (h : Quiet s s') (h' : Quiet s' s'') : Quiet s s'' where
  reg := h'.reg.trans h.reg
  closed := h'.closed.trans h.closed
  readArmed := h'.readArmed ∘ h.readArmed
  writeArmed := h'.writeArmed ∘ h.writeArmed
  pending := h.pending ∘ h'.pending

theorem Quiet.unmissed (h : Quiet s s') (unmissed : s.Unmissed) : s'.Unmissed := by
  rcases unmissed with free | awake
  · exact .inl (h.reg.trans free)
  · exact .inr fun pending => h.readArmed (awake (h.pending pending))

theorem unmissed_attach (s : Source τ α) (tk : τ) {i : Interest} (readable : i.readable = true) :
    (s.attach tk i).Unmissed := by
  refine .inr fun pending => ?_
  have left : s.pending = true := pending
  simp [attach, readable, left]

theorem Serves.cases (h : Serves s s') : s'.Unmissed ∨ Quiet s s' := by
  cases h with
  | take size io => exact .inr (s.take_quiet size io)
  | put len io => exact .inr (s.put_quiet len io)
  | dequeue => exact .inr s.dequeue_quiet
  | attach tk i readable => exact .inl (s.unmissed_attach tk readable)
  | detach => exact .inl (.inl rfl)

theorem Served.cases (h : Served s s') : s'.Unmissed ∨ Quiet s s' := by
  induction h with
  | refl => exact .inr (.refl s)
  | tail _ step ih =>
    rcases step.cases with done | quiet
    · exact .inl done
    · rcases ih with done | before
      · exact .inl (quiet.unmissed done)
      · exact .inr (before.trans quiet)

theorem Served.unmissed (h : Served s s') (unmissed : s.Unmissed) : s'.Unmissed := by
  rcases h.cases with done | quiet
  · exact done
  · exact quiet.unmissed unmissed

theorem Serves.keeps (h : Serves s s') :
    (s.input = [] → s'.input = []) ∧ (s.backlog = 0 → s'.backlog = 0) := by
  cases h with
  | take size io =>
    simp only [Source.take]
    split
    · exact ⟨id, id⟩
    · split
      · exact ⟨id, id⟩
      · exact ⟨fun none => by simp [none], id⟩
  | put len io =>
    refine ⟨fun none => (s.put_input len io).trans none, ?_⟩
    simp only [Source.put]
    split
    · exact id
    · split <;> exact id
  | dequeue => exact ⟨id, fun none => by simp [Source.dequeue, none]⟩
  | attach tk i readable => exact ⟨id, id⟩
  | detach => exact ⟨id, id⟩

theorem Served.keeps (h : Served s s') :
    (s.input = [] → s'.input = []) ∧ (s.backlog = 0 → s'.backlog = 0) := by
  induction h with
  | refl => exact ⟨id, id⟩
  | tail _ step ih => exact ⟨step.keeps.1 ∘ ih.1, step.keeps.2 ∘ ih.2⟩

theorem Retuned.served (h : Retuned s s') : Served s s' := by
  cases h with
  | same => exact .refl
  | attach tk i readable => exact .single (.attach tk i readable)
  | detach => exact .single .detach

theorem take_all {size : Nat} {io : ReadIo} (all : s.readsAll size io = true) (calm : s.backlog = 0) :
    (∃ e, (s.take size io).1 = .error e) ∨ (s.take size io).2.Unmissed := by
  simp only [take]
  split
  · exact .inl ⟨_, rfl⟩
  · rename_i hno
    refine .inr (.inr fun pending => ?_)
    rw [pending_iff] at pending
    simp only [readsAll, Bool.or_eq_true, hno, decide_eq_true_eq, Bool.false_eq_true, false_or] at all
    split at pending
    · rename_i hempty
      simp [List.isEmpty_iff.mp hempty, calm] at pending
    · rcases pending with some | waits
      · exact absurd (List.drop_eq_nil_of_le all) some
      · exact absurd calm (Nat.ne_of_gt waits)

theorem dequeue_all {io : AcceptIo α} (all : s.acceptsAll io = true) (silent : s.input = [])
    (accept : io.refused = false) : s.dequeue.Unmissed := by
  refine .inr fun pending => ?_
  rw [pending_iff] at pending
  simp only [acceptsAll, accept, decide_eq_true_eq, Bool.false_eq_true, if_false] at all
  rcases pending with some | waits
  · exact absurd silent some
  · simp only [dequeue] at waits
    omega

-- what can happen to a source from outside
def Stirred (s s' : Source τ α) : Prop :=
  s' = s ∨ s'.reg = s.reg ∧ (s.reads = true → s'.readArmed = true)

theorem stirred_offer (s : Source τ α) : s.Stirred s.offer :=
  .inr ⟨rfl, fun reads => by simp [offer, wake, reads]⟩

theorem stirred_close (s : Source τ α) : s.Stirred s.close :=
  .inr ⟨rfl, fun reads => by simp [close, wake, reads]⟩

theorem stirred_arrive (s : Source τ α) (bytes : List α) : s.Stirred (s.arrive bytes) := by
  simp only [arrive]
  split
  · exact .inl rfl
  · exact .inr ⟨rfl, fun reads => by simp [wake, reads]⟩

end Source

namespace World

open Source

-- what waits at a registered source is armed, or a readable event of `evs` is about it
def Alert (w : World τ α) (evs : List (Event τ)) : Prop :=
  ∀ k tk i, (w.source k).reg = some (tk, i) → (w.source k).pending = true →
    (w.source k).readArmed = true ∨ ∃ ev ∈ evs, ev.token = tk ∧ ev.readable = true

-- nothing waits at a registered source without a notification to come
def Wakeful (w : World τ α) : Prop :=
  ∀ k, (w.source k).reg.isSome = true → (w.source k).pending = true → (w.source k).readArmed = true

-- each source of `w'` comes from the one of `w`, or is a newcomer
def Tended (w w' : World τ α) : Prop :=
  w.next ≤ w'.next ∧ ∀ k, Served (w.source k) (w'.source k) ∨
    w.next ≤ k ∧ ∃ s : Source τ α, s.reg = none ∧ s.backlog = 0 ∧ Served s (w'.source k)

variable {w w' w'' : World τ α} {evs : List (Event τ)}

theorem Tended.refl (w : World τ α) : Tended w w := ⟨Nat.le_refl _, fun _ => .inl .refl⟩

theorem Tended.trans (h : Tended w w') (h' : Tended w' w'') : Tended w w'' := by
  refine ⟨Nat.le_trans h.1 h'.1, fun k => ?_⟩
  rcases h'.2 k with again | ⟨new, s, free, calm, served⟩
  · rcases h.2 k with first | ⟨new, s, free, calm, served⟩
    · exact .inl (first.trans again)
    · exact .inr ⟨new, s, free, calm, served.trans again⟩
  · exact .inr ⟨Nat.le_trans h.1 new, s, free, calm, served⟩

theorem tended_modify (w : World τ α) (k : Sock) {f : Source τ α → Source τ α}
    (hf : Served (w.source k) (f (w.source k))) : Tended w (w.modify k f) := by
  refine ⟨Nat.le_refl _, fun j => .inl ?_⟩
  by_cases h : j = k
  · subst h
    rwa [modify_same]
  · rw [modify_other w f h]

theorem tended_read (w : World τ α) (k : Sock) (size : Nat) (io : ReadIo) :
    Tended w (w.read k size io).2 :=
  w.tended_modify k (.single (.take size io))

theorem tended_write (w : World τ α) (k : Sock) (len : Nat) (io : WriteIo) :
    Tended w (w.write k len io).2 :=
  w.tended_modify k (.single (.put len io))

theorem tended_attach (w : World τ α) (k : Sock) (tk : τ) {i : Interest} (readable : i.readable = true) :
    Tended w (w.modify k (·.attach tk i)) :=
  w.tended_modify k (.single (.attach tk i readable))

theorem tended_deregister (w : World τ α) (k : Sock) : Tended w (w.deregister k) :=
  w.tended_modify k (.single .detach)

theorem Accepted.tended {k : Sock} {io : AcceptIo α} (h : Accepted w k io w') : Tended w w' := by
  refine ⟨by rw [h.next]; exact Nat.le_succ _, fun j => ?_⟩
  by_cases new : j = w.next
  · subst new
    exact .inr ⟨Nat.le_refl _, _, h.fresh, by rw [h.opened]; rfl, .refl⟩
  · refine .inl ?_
    by_cases own : j = k
    · subst own
      rw [h.listener new]
      exact .single .dequeue
    · rw [h.other j own new]

theorem tended_reregister {refused : Bool} {k : Sock} {tk : τ} {i : Interest} (readable : i.readable = true)
    (h : w.reregister refused k tk i = some w') : Tended w w' := by
  obtain ⟨-, rfl⟩ := reregister_some h
  exact w.tended_attach k tk readable

theorem Tended.unmissed (h : Tended w w') {k : Sock} (unmissed : (w.source k).Unmissed) :
    (w'.source k).Unmissed := by
  rcases h.2 k with served | ⟨-, s, free, -, served⟩
  · exact served.unmissed unmissed
  · exact served.unmissed (.inl free)

theorem deregister_unmissed (w : World τ α) (k : Sock) : ((w.deregister k).source k).Unmissed :=
  .inl (by rw [deregister_reg, if_pos rfl])

theorem attach_unmissed (w : World τ α) (k : Sock) (tk : τ) {i : Interest} (readable : i.readable = true) :
    ((w.modify k (·.attach tk i)).source k).Unmissed := by
  rw [modify_same]
  exact (w.source k).unmissed_attach tk readable

theorem read_all {k : Sock} {size : Nat} {io : ReadIo} (all : (w.source k).readsAll size io = true)
    (calm : (w.source k).backlog = 0) : (∃ e, (w.read k size io).1 = .error e) ∨
      ((w.read k size io).2.source k).Unmissed := by
  rw [read, modify_same]
  exact take_all all calm

theorem alert_nil : w.Alert [] ↔ ∀ k, (w.source k).Unmissed := by
  constructor
  · intro h k
    cases hreg : (w.source k).reg with
    | none => exact .inl hreg
    | some r =>
      refine .inr fun pending => ?_
      rcases h k r.1 r.2 hreg pending with armed | ⟨ev, hev, -⟩
      · exact armed
      · cases hev
  · intro h k tk i hreg pending
    rcases h k with free | awake
    · rw [free] at hreg
      cases hreg
    · exact .inl (awake pending)

theorem Alert.wakeful (h : w.Alert []) : w.Wakeful := by
  intro k reg pending
  obtain ⟨⟨tk, i⟩, hreg⟩ := Option.isSome_iff_exists.mp reg
  rcases h k tk i hreg pending with armed | ⟨ev, hev, -⟩
  · exact armed
  · cases hev

theorem Alert.handled {ev : Event τ} (h : w.Alert (ev :: evs)) (tended : Tended w w')
    (own : ev.readable = true → ∀ k i, (w.source k).reg = some (ev.token, i) → (w'.source k).Unmissed) :
    w'.Alert evs := by
  intro k tk i hreg pending
  have unmissed : (w'.source k).Unmissed → (w'.source k).readArmed = true := by
    rintro (free | awake)
    · rw [free] at hreg
      cases hreg
    · exact awake pending
  rcases tended.2 k with served | ⟨-, s, free, -, served⟩
  · rcases served.cases with done | quiet
    · exact .inl (unmissed done)
    · rw [quiet.reg] at hreg
      rcases h k tk i hreg (quiet.pending pending) with armed | ⟨e, he, rfl, readable⟩
      · exact .inl (quiet.readArmed armed)
      · rcases List.mem_cons.mp he with rfl | he
        · exact .inl (unmissed (own readable k i hreg))
        · exact .inr ⟨e, he, rfl, readable⟩
  · exact .inl (unmissed (served.unmissed (.inl free)))

theorem Alert.tended (h : w.Alert []) (tended : Tended w w') : w'.Alert [] := by
  rw [alert_nil] at h ⊢
  exact fun k => tended.unmissed (h k)

theorem Alert.stirred {k : Sock} {f : Source τ α → Source τ α} (h : w.Alert evs)
    (stirred : (w.source k).Stirred (f (w.source k)))
    (reads : ∀ tk i, (w.source k).reg = some (tk, i) → i.readable = true) :
    (w.modify k f).Alert evs := by
  intro j tk i hreg pending
  by_cases hj : j = k
  · subst hj
    rw [modify_same] at hreg pending ⊢
    rcases stirred with same | ⟨reg, armed⟩
    · rw [same] at hreg pending ⊢
      exact h j tk i hreg pending
    · rw [reg] at hreg
      exact .inl (armed (by simp [Source.reads, hreg, reads tk i hreg]))
  · rw [modify_other _ _ hj] at hreg pending ⊢
    exact h j tk i hreg pending

theorem Alert.polled [DecidableEq τ] {sockOf : τ → Option Sock} (h : w.Alert [])
    (notified : w.notifyAll sockOf evs = some w') : w'.Alert evs := by
  rw [alert_nil] at h
  intro k tk i hreg pending
  obtain ⟨same, found⟩ := notifyAll_some notified
  obtain ⟨r, wr, source, hr, -⟩ := notifyAll_deliver notified k
  rw [same.2 k] at hreg
  rw [source] at pending ⊢
  rcases h k with free | awake
  · rw [free] at hreg
    cases hreg
  · have armed := awake pending
    cases r with
    | false => exact .inl (by simp [deliver, armed])
    | true =>
      obtain ⟨ev, hev, own, readable⟩ := hr rfl
      obtain ⟨j, i', hj, hregj⟩ := found ev hev
      obtain rfl := Option.some.inj (own.symm.trans hj)
      rw [hreg] at hregj
      cases hregj
      exact .inr ⟨ev, hev, rfl, readable⟩

end World
end Poll
