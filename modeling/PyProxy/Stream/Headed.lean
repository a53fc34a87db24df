import PyProxy.Stream.Buffer
import PyProxy.Stream.Framer

namespace Stream

variable {ε η μ α : Type} [Inhabited α]

def headedNext (size : Nat) (header : Vector α size → Except ε η) (len : η → Nat)
    (body : η → List α → Except ε μ) (b : List α) : Cut ε μ :=
  if b.length < size then .wait
  else match header (copyHeader size b) with
    | .error e => .fail e
    | .ok h =>
      if b.length < size + len h then .wait
      else match body h ((b.drop size).take (len h)) with
        | .error e => .fail e
        | .ok m => .frame m (size + len h)

section
variable (size : Nat) (header : Vector α size → Except ε η) (len : η → Nat)
    (body : η → List α → Except ε μ)

theorem headedNext_cases {b : List α} {cut : Cut ε μ}
    (h : headedNext size header len body b = cut) (hw : cut ≠ .wait) :
    size ≤ b.length ∧ ((∃ e, header (copyHeader size b) = .error e ∧ cut = .fail e) ∨
      ∃ d, header (copyHeader size b) = .ok d ∧ size + len d ≤ b.length ∧
        ((∃ e, body d ((b.drop size).take (len d)) = .error e ∧ cut = .fail e) ∨
          ∃ m, body d ((b.drop size).take (len d)) = .ok m ∧ cut = .frame m (size + len d))) := by
  unfold headedNext at h
  split at h
  · exact absurd h.symm hw
  · rename_i hs
    refine ⟨by omega, ?_⟩
    cases hh : header (copyHeader size b) with
    | error e =>
      rw [hh] at h
      exact .inl ⟨e, rfl, h.symm⟩
    | ok d =>
      rw [hh] at h
      dsimp only at h
      split at h
      · exact absurd h.symm hw
      · rename_i hl
        refine .inr ⟨d, rfl, by omega, ?_⟩
        cases hb : body d ((b.drop size).take (len d)) with
        | error e =>
          rw [hb] at h
          exact .inl ⟨e, rfl, h.symm⟩
        | ok m =>
          rw [hb] at h
          exact .inr ⟨m, rfl, h.symm⟩

theorem headedNext_append {b : List α} (c : List α)
    (h : headedNext size header len body b ≠ .wait) :
    headedNext size header len body (b ++ c) = headedNext size header len body b := by
  obtain ⟨hs, hcase⟩ := headedNext_cases size header len body rfl h
  have hhead := copyHeader_append size b c hs
  rcases hcase with ⟨e, he, hcut⟩ | ⟨d, hd, hl, hcase⟩
  · rw [hcut]
    simp [headedNext, show ¬ b.length + c.length < size by omega, hhead, he]
  · have hslice : ((b ++ c).drop size).take (len d) = (b.drop size).take (len d) := by
      rw [List.drop_append_of_le_length hs, List.take_append_of_le_length]
      rw [List.length_drop]
      omega
    rcases hcase with ⟨e, he, hcut⟩ | ⟨m, hm, hcut⟩
    · rw [hcut]
      simp [headedNext, show ¬ b.length + c.length < size by omega,
        show ¬ b.length + c.length < size + len d by omega, hhead, hd, hslice, he]
    · rw [hcut]
      simp [headedNext, show ¬ b.length + c.length < size by omega,
        show ¬ b.length + c.length < size + len d by omega, hhead, hd, hslice, hm]

def headed (pos : 0 < size) : Framer ε μ α where
  next := headedNext size header len body
  next_nil := by simp [headedNext, pos]
  frame_pos := by
    intro b m n h
    obtain ⟨-, ⟨e, -, hc⟩ | ⟨d, -, -, ⟨e, -, hc⟩ | ⟨m', -, hc⟩⟩⟩ :=
      headedNext_cases size header len body h (by simp)
    · cases hc
    · cases hc
    · cases hc
      omega
  frame_le := by
    intro b m n h
    obtain ⟨-, ⟨e, -, hc⟩ | ⟨d, -, hl, ⟨e, -, hc⟩ | ⟨m', -, hc⟩⟩⟩ :=
      headedNext_cases size header len body h (by simp)
    · cases hc
    · cases hc
    · cases hc
      exact hl
  frame_append := by
    intro b m n c h
    rw [headedNext_append size header len body c (by simp [h]), h]
  fail_append := by
    intro b e c h
    rw [headedNext_append size header len body c (by simp [h]), h]

theorem headed_frame (pos : 0 < size) {b : List α} {m : μ} {n : Nat}
    (h : (headed size header len body pos).next b = .frame m n) :
    ∃ d raw, body d raw = .ok m := by
  obtain ⟨-, ⟨e, -, hc⟩ | ⟨d, -, -, ⟨e, -, hc⟩ | ⟨m', hm, hc⟩⟩⟩ :=
    headedNext_cases size header len body h (by simp)
  · cases hc
  · cases hc
  · cases hc
    exact ⟨d, _, hm⟩

theorem headed_encodes (pos : 0 < size) {v : Vector α size} {d : η} {payload : List α} {m : μ}
    (hv : header v = .ok d) (hl : len d = payload.length) (hb : body d payload = .ok m) :
    (headed size header len body pos).Encodes (v.toList ++ payload) m := by
  intro rest
  have hslice : ((v.toList ++ payload ++ rest).drop size).take payload.length = payload := by
    rw [List.append_assoc, List.drop_left' (by simp), List.take_left]
  have hhead : copyHeader size (v.toList ++ payload ++ rest) = v := by
    rw [List.append_assoc, copyHeader_toList]
  have hlen : (v.toList ++ payload ++ rest).length = size + payload.length + rest.length := by
    simp [Nat.add_assoc]
  simp only [headed, headedNext, hhead, hv, hlen, hl]
  rw [if_neg (by omega), if_neg (by omega), hslice, hb]
  simp

end

section

variable {β : Type} {decode : β → Except ε η} {encode : η → β} {canon : β → β}

-- what a decoder keeps of the buffers it accepts is their canonical form
structure Canonical (decode : β → Except ε η) (encode : η → β) (canon : β → β) : Prop where
  decode_canon : ∀ b, decode (canon b) = decode b
  encode_eq : ∀ {b h}, decode b = .ok h → encode h = canon b

namespace Canonical

variable (C : Canonical decode encode canon)
include C

theorem decode_encode {b : β} {h : η} (hb : decode b = .ok h) : decode (encode h) = .ok h := by
  rw [C.encode_eq hb, C.decode_canon, hb]

theorem encode_eq_iff {b : β} {h : η} (hb : decode b = .ok h) : encode h = b ↔ canon b = b := by
  rw [C.encode_eq hb]

end Canonical

end
end Stream
