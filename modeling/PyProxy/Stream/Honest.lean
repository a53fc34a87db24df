import PyProxy.Stream.Headed

namespace Stream

variable {ε η μ α : Type} [Inhabited α] {size : Nat}

-- what the decoder makes of a frame whose body gives `r` and of the bytes after it
def Framer.after (F : Framer ε μ α) (frame rest : List α) : Except ε μ → Parsed ε μ α
  | .error e => ⟨[], some e, frame ++ rest⟩
  | .ok m => { F.drain rest with msgs := m :: (F.drain rest).msgs }

def Honest (F : Framer ε μ α) (header : Vector α size → Except ε η) (len : η → Nat)
    (body : η → List α → Except ε μ) (frame payload : List α) : Prop :=
  ∃ d, header (copyHeader size frame) = .ok d ∧ len d = payload.length ∧
    ∀ rest, F.drain (frame ++ rest) = F.after frame rest (body d payload)

section
variable {header : Vector α size → Except ε η} {len : η → Nat} {body : η → List α → Except ε μ}
    {v : Vector α size} {d : η}

theorem headedNext_announced (hv : header v = .ok d) (b : List α) :
    headedNext size header len body (v.toList ++ b) =
      if b.length < len d then .wait
      else match body d (b.take (len d)) with
        | .error e => .fail e
        | .ok m => .frame m (size + len d) := by
  have hlen : (v.toList ++ b).length = size + b.length := by simp
  have hdrop : (v.toList ++ b).drop size = b := List.drop_left' (by simp)
  simp only [headedNext, copyHeader_toList, hv, hlen, hdrop]
  rw [if_neg (by omega)]
  exact if_congr (Nat.add_lt_add_iff_left ..) rfl rfl

theorem honest_iff (pos : 0 < size) (hv : header v = .ok d) (payload : List α) :
    Honest (headed size header len body pos) header len body (v.toList ++ payload) payload ↔
      len d = payload.length := by
  have hhead : copyHeader size (v.toList ++ payload) = v := copyHeader_toList v payload
  constructor
  · rintro ⟨d', hd', hl, -⟩
    rw [hhead, hv] at hd'
    cases hd'
    exact hl
  · intro hl
    refine ⟨d, (congrArg header hhead).trans hv, hl, fun rest => ?_⟩
    have hnext : (headed size header len body pos).next (v.toList ++ payload ++ rest) =
        match body d payload with
        | .error e => .fail e
        | .ok m => .frame m (v.toList ++ payload).length := by
      rw [List.append_assoc]
      change headedNext size header len body _ = _
      rw [headedNext_announced hv, if_neg (by simp [hl]), hl, List.take_left]
      simp
    cases hb : body d payload with
    | error e =>
      rw [hb] at hnext
      exact Framer.drain_fail _ hnext
    | ok m =>
      rw [hb] at hnext
      rw [Framer.drain_frame _ hnext, List.drop_left]
      rfl

end
end Stream
