import PyProxy.Stream.Framer

namespace Stream

variable {ε μ α : Type}

structure Link (μ α : Type) where
  queued : List (List α × μ)
  out : List α
  wire : List α
  inbuf : List α
  got : List μ

namespace Link

def empty : Link μ α := ⟨[], [], [], [], []⟩

inductive Step (F : Framer ε μ α) : Link μ α → Link μ α → Prop where
  | idle (l) : Step F l l
  | queue (l) (p : List α × μ) (hp : F.Encodes p.1 p.2) :
      Step F l { l with queued := l.queued ++ [p], out := l.out ++ p.1 }
  | write (l) (n : Nat) :
      Step F l { l with out := l.out.drop n, wire := l.wire ++ l.out.take n }
  | read (l) (n : Nat) :
      Step F l { l with
        wire := l.wire.drop n
        inbuf := (F.drain (l.inbuf ++ l.wire.take n)).rest
        got := l.got ++ (F.drain (l.inbuf ++ l.wire.take n)).msgs }

structure Sound (F : Framer ε μ α) (l : Link μ α) : Prop where
  encodes : ∀ p ∈ l.queued, F.Encodes p.1 p.2
  split : ∃ done left, l.queued = done ++ left ∧ l.got = done.map Prod.snd ∧
    l.inbuf ++ (l.wire ++ l.out) = Framer.stream left
  waiting : F.next l.inbuf = .wait

theorem sound_empty (F : Framer ε μ α) : Sound F (empty : Link μ α) :=
  ⟨by simp [empty], ⟨[], [], rfl, rfl, rfl⟩, F.next_nil⟩

theorem Sound.drain_ok {F : Framer ε μ α} {l : Link μ α} (h : Sound F l) (n : Nat) :
    ∃ done left, l.queued = done ++ left ∧
      (F.drain (l.inbuf ++ l.wire.take n)).err = none ∧
      l.got ++ (F.drain (l.inbuf ++ l.wire.take n)).msgs = done.map Prod.snd ∧
      (F.drain (l.inbuf ++ l.wire.take n)).rest ++ (l.wire.drop n ++ l.out) = Framer.stream left := by
  obtain ⟨done, left, hq, hg, hs⟩ := h.split
  have hcut : l.inbuf ++ l.wire.take n ++ (l.wire.drop n ++ l.out) = Framer.stream left := by
    rw [← hs, List.append_assoc, ← List.append_assoc (l.wire.take n), List.take_append_drop]
  have hok : ∀ p ∈ left, F.Encodes p.1 p.2 := fun p hp => h.encodes p (by simp [hq, hp])
  obtain ⟨d, r, rfl, hm, he, hr⟩ := F.drain_stream left hok _ _ hcut
  exact ⟨done ++ d, r, by simp [hq], he, by simp [hg, hm], hr⟩

theorem Sound.step {F : Framer ε μ α} {l l' : Link μ α} (h : Sound F l) (hs : Step F l l') :
    Sound F l' := by
  cases hs with
  | idle => exact h
  | queue p hp =>
    obtain ⟨done, left, hq, hg, hb⟩ := h.split
    refine ⟨?_, ⟨done, left ++ [p], by simp [hq], hg, ?_⟩, h.waiting⟩
    · intro q hqm
      rcases List.mem_append.mp hqm with hqm | hqm
      · exact h.encodes q hqm
      · rw [List.mem_singleton.mp hqm]
        exact hp
    · rw [Framer.stream_append, ← hb]
      simp
  | write n =>
    obtain ⟨done, left, hq, hg, hb⟩ := h.split
    refine ⟨h.encodes, ⟨done, left, hq, hg, ?_⟩, h.waiting⟩
    rw [← hb, List.append_assoc l.wire, List.take_append_drop]
  | read n =>
    obtain ⟨done, left, hq, he, hg, hb⟩ := h.drain_ok n
    exact ⟨h.encodes, ⟨done, left, hq, hg, hb⟩, F.drain_rest_wait _ he⟩

theorem Sound.queueAll {F : Framer ε μ α} {l : Link μ α} (h : Sound F l) {ps : List (List α × μ)}
    (ok : ∀ p ∈ ps, F.Encodes p.1 p.2) :
    Sound F { l with queued := l.queued ++ ps, out := l.out ++ Framer.stream ps } := by
  induction ps generalizing l with
  | nil => simpa using h
  | cons p ps ih =>
    have first := h.step (.queue l p (ok p (by simp)))
    simpa using ih first fun q hq => ok q (by simp [hq])

theorem Sound.flush {F : Framer ε μ α} {l : Link μ α} (h : Sound F l) {sent left : List α}
    (cut : sent ++ left = l.out) : Sound F { l with out := left, wire := l.wire ++ sent } := by
  have written := h.step (.write l sent.length)
  rw [← cut, List.drop_left, List.take_left] at written
  exact written

theorem Sound.got_initial {F : Framer ε μ α} {l : Link μ α} (h : Sound F l) :
    l.got <+: l.queued.map Prod.snd := by
  obtain ⟨done, left, hq, hg, -⟩ := h.split
  exact ⟨left.map Prod.snd, by rw [hq, hg, List.map_append]⟩

theorem Sound.got_all {F : Framer ε μ α} {l : Link μ α} (h : Sound F l) (hw : l.wire = [])
    (ho : l.out = []) : l.got = l.queued.map Prod.snd := by
  obtain ⟨done, left, hq, hg, hb⟩ := h.split
  have hwait := h.waiting
  rw [hw, ho, List.append_nil, List.append_nil] at hb
  rw [hb] at hwait
  have hleft := F.stream_waiting (fun p hp => h.encodes p (by simp [hq, hp])) hwait
  rw [hg, hq, hleft, List.append_nil]

theorem Sound.read_ok {F : Framer ε μ α} {l : Link μ α} (h : Sound F l) (n : Nat) :
    (F.drain (l.inbuf ++ l.wire.take n)).err = none := by
  obtain ⟨-, -, -, he, -⟩ := h.drain_ok n
  exact he

end Link
end Stream
