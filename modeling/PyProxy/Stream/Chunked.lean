import PyProxy.Stream.Headed

namespace Stream

variable {α : Type}

-- a way to cut `bytes` into the chunks of successive reads
structure Chunking (limit : Nat) (bytes : List α) where
  chunks : List (List α)
  nonempty : ∀ c ∈ chunks, c ≠ []
  bounded : ∀ c ∈ chunks, c.length ≤ limit
  whole : chunks.flatten = bytes

namespace Chunking

variable {limit : Nat} {bytes : List α}

def piecewise (pos : 0 < limit) (bytes : List α) : Chunking limit bytes where
  chunks := bytes.map ([·])
  nonempty c hc := by
    obtain ⟨x, -, rfl⟩ := List.mem_map.mp hc
    simp
  bounded c hc := by
    obtain ⟨x, -, rfl⟩ := List.mem_map.mp hc
    exact pos
  whole := by
    induction bytes with
    | nil => rfl
    | cons x bytes ih => simp [ih]

end Chunking

namespace Framer

variable {ε μ : Type} (F : Framer ε μ α)

-- chunk after chunk, up to the first that fails
def feed (b : List α) : List (List α) → Parsed ε μ α
  | [] => ⟨[], none, b⟩
  | c :: cs =>
    let p := F.drain (b ++ c)
    match p.err with
    | some _ => p
    | none =>
      let tail := feed p.rest cs
      { tail with msgs := p.msgs ++ tail.msgs }

theorem feed_spec {b : List α} (waiting : F.next b = .wait) (cs : List (List α)) :
    (F.feed b cs).msgs = (F.drain (b ++ cs.flatten)).msgs ∧
      (F.feed b cs).err = (F.drain (b ++ cs.flatten)).err ∧
      ((F.feed b cs).err = none → (F.feed b cs).rest = (F.drain (b ++ cs.flatten)).rest) := by
  induction cs generalizing b with
  | nil => simp [feed, F.drain_wait waiting]
  | cons c cs ih =>
    rw [List.flatten_cons, ← List.append_assoc]
    cases herr : (F.drain (b ++ c)).err with
    | some e =>
      obtain ⟨he, hm⟩ := F.drain_append_fail (b ++ c) cs.flatten herr
      simp only [feed, herr, he, hm]
      exact ⟨trivial, trivial, fun h => by cases h⟩
    | none =>
      obtain ⟨hm, he, hr⟩ := ih (F.drain_rest_wait (b ++ c) herr)
      rw [F.drain_append (b ++ c) cs.flatten herr]
      simp only [feed, herr, hm]
      exact ⟨trivial, he, hr⟩

theorem drain_frames {P : List α → μ → Prop} (hP : ∀ {b m n}, F.next b = .frame m n → P (b.take n) m)
    (b : List α) : ∃ fs, b = stream fs ++ (F.drain b).rest ∧ (F.drain b).msgs = fs.map Prod.snd ∧
      ∀ p ∈ fs, P p.1 p.2 := by
  induction b using F.drain_induction with
  | wait b hb => exact ⟨[], by simp [F.drain_wait hb], by simp [F.drain_wait hb], by simp⟩
  | fail b e hb => exact ⟨[], by simp [F.drain_fail hb], by simp [F.drain_fail hb], by simp⟩
  | frame b m n hb ih =>
    obtain ⟨fs, hrest, hmsgs, hall⟩ := ih
    rw [F.drain_frame hb]
    refine ⟨(b.take n, m) :: fs, ?_, by simp [hmsgs], ?_⟩
    · rw [stream_cons, List.append_assoc, ← hrest, List.take_append_drop]
    · intro p hp
      rcases List.mem_cons.mp hp with rfl | hp
      · exact hP hb
      · exact hall p hp

theorem drain_encodes (ms : List (List α × μ)) (ok : ∀ p ∈ ms, F.Encodes p.1 p.2) :
    F.drain (stream ms) = ⟨ms.map Prod.snd, none, []⟩ := by
  induction ms with
  | nil => simp [F.drain_wait F.next_nil]
  | cons p ms ih =>
    rw [stream_cons, F.drain_encoded (ok p (by simp)), ih fun q hq => ok q (by simp [hq])]
    rfl

-- whole frames, and then bytes that are refused
structure Malformed (bytes : List α) (frames : List (List α × μ)) (bad : List α) (e : ε) : Prop where
  bytes : bytes = stream frames ++ bad
  whole : ∀ p ∈ frames, F.Encodes p.1 p.2
  refused : F.next bad = .fail e

variable {F}

theorem Malformed.drain {bytes bad : List α} {frames : List (List α × μ)} {e : ε}
    (h : F.Malformed bytes frames bad e) : F.drain bytes = ⟨frames.map Prod.snd, some e, bad⟩ := by
  obtain ⟨rfl, whole, refused⟩ := h
  induction frames with
  | nil => simp [F.drain_fail refused]
  | cons p frames ih =>
    rw [stream_cons, List.append_assoc, F.drain_encoded (whole p (by simp)),
      ih fun q hq => whole q (by simp [hq])]
    rfl

theorem Malformed.initial {bytes bad : List α} {frames : List (List α × μ)} {e : ε}
    (h : F.Malformed bytes frames bad e) {b : List α} (hb : b <+: bytes) :
    ∃ done left, frames = done ++ left ∧ (F.drain b).msgs = done.map Prod.snd ∧
      (stream done).length ≤ b.length ∧
      ∀ p rest, left = p :: rest → b.length < (stream (done ++ [p])).length := by
  obtain ⟨rfl, whole, refused⟩ := h
  obtain ⟨c, hc⟩ := hb
  induction frames generalizing b with
  | nil =>
    refine ⟨[], [], rfl, ?_, Nat.zero_le _, fun p rest h => by cases h⟩
    rw [stream_nil, List.nil_append] at hc
    cases hn : F.next b with
    | wait => rw [F.drain_wait hn]; rfl
    | fail e' => rw [F.drain_fail hn]; rfl
    | frame m n =>
      have later := F.frame_append c hn
      rw [hc, refused] at later
      cases later
  | cons p frames ih =>
    have hp := whole p (by simp)
    rw [stream_cons, List.append_assoc] at hc
    by_cases short : b.length < p.1.length
    · refine ⟨[], p :: frames, rfl, ?_, Nat.zero_le _, ?_⟩
      · rw [F.drain_wait (F.wait_of_short hp hc short)]
        rfl
      · rintro q rest h
        cases h
        simpa using short
    · obtain ⟨b', rfl⟩ : p.1 <+: b :=
        List.prefix_of_prefix_length_le ⟨_, rfl⟩ ⟨c, hc⟩ (Nat.le_of_not_lt short)
      rw [List.append_assoc] at hc
      obtain ⟨done, left, rfl, hm, le, lt⟩ :=
        ih (fun q hq => whole q (by simp [hq])) (List.append_cancel_left hc)
      refine ⟨p :: done, left, rfl, ?_, ?_, fun q rest h => ?_⟩
      · rw [F.drain_encoded hp, hm]
        rfl
      · rw [stream_cons, List.length_append, List.length_append]
        omega
      · have later := lt q rest h
        rw [List.cons_append, stream_cons, List.length_append, List.length_append]
        omega

end Framer

section
variable {ε η μ : Type} [Inhabited α] {size : Nat} {header : Vector α size → Except ε η} {len : η → Nat}
    {body : η → List α → Except ε μ}

-- a whole message: a header, and as many bytes as it announces
def Whole (header : Vector α size → Except ε η) (len : η → Nat) (body : η → List α → Except ε μ)
    (bytes : List α) (m : μ) : Prop :=
  ∃ v d payload, bytes = Vector.toList v ++ payload ∧ header v = .ok d ∧ len d = payload.length ∧
    body d payload = .ok m

theorem Whole.encodes {bytes : List α} {m : μ} (pos : 0 < size) (h : Whole header len body bytes m) :
    (headed size header len body pos).Encodes bytes m := by
  obtain ⟨v, d, payload, rfl, hv, hl, hb⟩ := h
  exact headed_encodes size header len body pos hv hl hb

theorem copyHeader_take {b : List α} (h : size ≤ b.length) :
    (copyHeader size b).toList = b.take size := by
  apply List.ext_getElem?
  intro i
  by_cases hi : i < size
  · have hb : i < b.length := by omega
    simp [copyHeader, hi, hb]
  · rw [List.getElem?_eq_none (by simp; omega), List.getElem?_eq_none (by simp; omega)]

theorem headed_whole (pos : 0 < size) {b : List α} {m : μ} {n : Nat}
    (h : (headed size header len body pos).next b = .frame m n) : Whole header len body (b.take n) m := by
  obtain ⟨hs, ⟨e, -, hc⟩ | ⟨d, hd, hl, ⟨e, -, hc⟩ | ⟨m', hm, hc⟩⟩⟩ :=
    headedNext_cases size header len body h (by simp)
  · cases hc
  · cases hc
  · cases hc
    refine ⟨_, d, _, ?_, hd, ?_, hm⟩
    · rw [copyHeader_take hs, List.take_add]
    · rw [List.length_take, List.length_drop]
      omega

theorem headed_wait_iff (pos : 0 < size) {b : List α} :
    (headed size header len body pos).next b = .wait ↔ b.length < size ∨
      ∃ d, header (copyHeader size b) = .ok d ∧ b.length < size + len d := by
  simp only [headed, headedNext]
  split
  · rename_i hs
    simp [hs]
  · rename_i hs
    cases hh : header (copyHeader size b) with
    | error e => simp [hs]
    | ok d =>
      dsimp only
      split
      · rename_i hl
        simp [hl]
      · rename_i hl
        cases body d ((b.drop size).take (len d)) <;> simp [hs, hl]

end
end Stream
