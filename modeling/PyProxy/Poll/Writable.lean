import PyProxy.Poll.Notify

namespace Poll

variable {τ α : Type}

namespace Source

def live (s : Source τ α) : Bool := s.reg.isSome && !s.closed

def told (s : Source τ α) (evs : List (Event τ)) : Prop :=
  s.writeArmed = true ∨ ∃ ev ∈ evs, s.reg.map Prod.fst = some ev.token ∧ ev.writable = true

-- the owner of the source believes it registered with `interest` and has `data` for it
structure Due (s : Source τ α) (evs : List (Event τ)) (interest : Interest) (data : Bool) : Prop where
  tuned : interest = ro ∨ interest = rw
  writes : interest = rw → s.writes = true
  told : interest = rw → data = true → s.told evs

def Promised (s : Source τ α) (evs : List (Event τ)) (interest : Interest) (data : Bool) : Prop :=
  s.live = true → s.Due evs interest data

-- drained since its owner asked for writes, and with no notification to come
def stale [DecidableEq τ] (s : Source τ α) (evs : List (Event τ)) (interest : Interest) (data : Bool) : Bool :=
  s.live && decide (interest = rw) && !data && !s.writeArmed &&
    !evs.any fun ev => decide (s.reg.map Prod.fst = some ev.token) && ev.writable

variable {s s' : Source τ α} {evs evs' : List (Event τ)} {interest : Interest} {data data' : Bool}

theorem live_iff : s.live = true ↔ s.reg.isSome = true ∧ s.closed = false := by
  simp [live]

theorem rw_ne_ro : rw ≠ ro := by decide

theorem promised_free (h : s.reg = none) : s.Promised evs interest data := by
  intro live
  rw [live_iff, h] at live
  cases live.1

theorem promised_ro (s : Source τ α) (evs : List (Event τ)) (data : Bool) : s.Promised evs ro data :=
  fun _ => ⟨.inl rfl, fun h => absurd h.symm rw_ne_ro, fun h => absurd h.symm rw_ne_ro⟩

theorem promised_attach (s : Source τ α) (tk : τ) (evs : List (Event τ)) {i : Interest}
    (tuned : interest = ro ∨ interest = rw) (writable : interest = rw → i.writable = true) :
    (s.attach tk i).Promised evs interest data := by
  refine fun _ => ⟨tuned, fun h => ?_, fun h _ => .inl (writable h)⟩
  simp [Source.writes, attach, writable h]

theorem Promised.attach (h : s.Promised evs interest data) (reg : s.reg.isSome = true) (tk : τ)
    {i : Interest} (writable : i.writable = true) (evs' : List (Event τ)) :
    (s.attach tk i).Promised evs' interest data := by
  intro live
  have tuned := (h (live_iff.mpr ⟨reg, (live_iff.mp live).2⟩)).tuned
  exact promised_attach s tk evs' tuned (fun _ => writable) live

theorem Promised.mono (h : s.Promised evs interest data) (reg : s'.reg = s.reg)
    (closed : s'.closed = false → s.closed = false) (armed : s.writeArmed = true → s'.writeArmed = true)
    (less : data' = true → data = true) : s'.Promised evs interest data' := by
  intro live
  rw [live_iff, reg] at live
  obtain ⟨tuned, writes, told⟩ := h (live_iff.mpr ⟨live.1, closed live.2⟩)
  refine ⟨tuned, fun hi => ?_, fun hi some => ?_⟩
  · rw [Source.writes, reg]
    exact writes hi
  · rcases told hi (less some) with now | ⟨ev, hev, own, writable⟩
    · exact .inl (armed now)
    · exact .inr ⟨ev, hev, by rw [reg, own], writable⟩

theorem Promised.quiet (h : s.Promised evs interest data) (quiet : Quiet s s') :
    s'.Promised evs interest data :=
  h.mono quiet.reg (fun open_ => quiet.closed.symm.trans open_) quiet.writeArmed id

-- an event of another source, or one that does not report a write, is no notification of this one
theorem Promised.skip {ev : Event τ} (h : s.Promised (ev :: evs) interest data)
    (other : ev.writable = true → s.reg.map Prod.fst ≠ some ev.token) : s.Promised evs interest data := by
  intro live
  obtain ⟨tuned, writes, told⟩ := h live
  refine ⟨tuned, writes, fun hi some => ?_⟩
  rcases told hi some with now | ⟨e, he, own, writable⟩
  · exact .inl now
  · rcases List.mem_cons.mp he with rfl | he
    · exact absurd own (other writable)
    · exact .inr ⟨e, he, own, writable⟩

theorem Promised.put (h : s.Promised evs interest data) (len : Nat) (io : WriteIo)
    (left : ∀ n, (s.put len io).1 = .ok n → data' = true → n < len) :
    (s.put len io).2.Promised evs' interest data' := by
  rcases s.put_cases len io with ⟨e, he, closed⟩ | he | ⟨n, -, he⟩
  · rw [he]
    intro live
    rw [live_iff, closed] at live
    cases live.2
  · rw [he]
    intro live
    obtain ⟨tuned, writes, -⟩ := h live
    refine ⟨tuned, writes, fun hi _ => .inl ?_⟩
    simp [writes hi]
  · rw [he] at left ⊢
    intro live
    obtain ⟨tuned, writes, -⟩ := h live
    refine ⟨tuned, writes, fun hi some => .inl ?_⟩
    simp [writes hi, left n rfl some]

theorem Promised.refill [DecidableEq τ] (h : s.Promised evs interest data)
    (fresh : s.stale evs interest data = false) : s.Promised evs interest data' := by
  intro live
  obtain ⟨tuned, writes, told⟩ := h live
  refine ⟨tuned, writes, fun hi _ => ?_⟩
  cases data with
  | true => exact told hi rfl
  | false =>
    by_contra silent
    simp only [Source.told, not_or, not_exists, not_and, Bool.not_eq_true] at silent
    simp only [stale, live, hi, silent.1, Bool.not_false, decide_true, Bool.and_true, Bool.true_and,
      Bool.not_eq_false', List.any_eq_true, Bool.and_eq_true, decide_eq_true_eq] at fresh
    obtain ⟨ev, hev, own, writable⟩ := fresh
    rw [silent.2 ev hev own] at writable
    cases writable

theorem Due.told_nil (h : s.Due [] interest data) (hi : interest = rw) (some : data = true) :
    s.writes = true ∧ s.writeArmed = true := by
  refine ⟨h.writes hi, ?_⟩
  rcases h.told hi some with now | ⟨ev, hev, -⟩
  · exact now
  · cases hev

end Source

namespace World

open Source

variable {w w' : World τ α} {evs : List (Event τ)} {k : Sock} {interest : Interest} {data data' : Bool}

theorem promised_write (h : (w.source k).Promised evs interest data) (len : Nat) (io : WriteIo)
    {evs' : List (Event τ)} (left : ∀ n, (w.write k len io).1 = .ok n → data' = true → n < len) :
    ((w.write k len io).2.source k).Promised evs' interest data' := by
  rw [write, modify_same]
  exact h.put len io left

theorem promised_read (h : (w.source k).Promised evs interest data) (j : Sock) (size : Nat) (io : ReadIo) :
    ((w.read j size io).2.source k).Promised evs interest data :=
  h.quiet ((w.read_quiet j size io).2 k)

theorem promised_notified [DecidableEq τ] {sockOf : τ → Option Sock}
    (h : (w.source k).Promised [] interest data) (notified : w.notifyAll sockOf evs = some w') :
    (w'.source k).Promised evs interest data := by
  obtain ⟨same, found⟩ := notifyAll_some notified
  obtain ⟨r, wr, source, -, hw⟩ := notifyAll_deliver notified k
  intro live
  have before : (w.source k).live = true := by
    rw [source] at live
    exact live
  have due := h before
  rw [source]
  refine ⟨due.tuned, due.writes, fun hi some => ?_⟩
  have armed := (due.told_nil hi some).2
  cases wr with
  | false => exact .inl (by simp [deliver, armed])
  | true =>
    obtain ⟨ev, hev, own, writable⟩ := hw rfl
    obtain ⟨j, i, hj, hreg⟩ := found ev hev
    obtain rfl := Option.some.inj (own.symm.trans hj)
    exact .inr ⟨ev, hev, by simp [deliver, hreg], writable⟩

theorem deregister_promised (w : World τ α) (k : Sock) (evs : List (Event τ)) (interest : Interest)
    (data : Bool) : ((w.deregister k).source k).Promised evs interest data :=
  promised_free (by rw [deregister_reg, if_pos rfl])

end World
end Poll
