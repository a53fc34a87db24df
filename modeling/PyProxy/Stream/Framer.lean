import Mathlib.Data.List.Basic

namespace Stream

inductive Cut (ε μ : Type) where
  | wait
  | fail (e : ε)
  | frame (m : μ) (len : Nat)

structure Framer (ε μ α : Type) where
  next : List α → Cut ε μ
  next_nil : next [] = .wait
  frame_pos : ∀ {b m n}, next b = .frame m n → 0 < n
  frame_le : ∀ {b m n}, next b = .frame m n → n ≤ b.length
  frame_append : ∀ {b m n} (c : List α), next b = .frame m n → next (b ++ c) = .frame m n
  fail_append : ∀ {b e} (c : List α), next b = .fail e → next (b ++ c) = .fail e

structure Parsed (ε μ α : Type) where
  msgs : List μ
  err : Option ε
  rest : List α

namespace Framer

variable {ε μ α : Type} (F : Framer ε μ α)

def loop : Nat → List α → Parsed ε μ α
  | 0, b => ⟨[], none, b⟩
  | fuel + 1, b =>
    match F.next b with
    | .wait => ⟨[], none, b⟩
    | .fail e => ⟨[], some e, b⟩
    | .frame m n =>
      let tail := loop fuel (b.drop n)
      { tail with msgs := m :: tail.msgs }

def drain (b : List α) : Parsed ε μ α := F.loop (b.length + 1) b

theorem loop_fuel (b : List α) (f g : Nat) (hf : b.length < f) (hg : b.length < g) :
    F.loop f b = F.loop g b := by
  induction f generalizing b g with
  | zero => omega
  | succ f ih =>
    cases g with
    | zero => omega
    | succ g =>
      cases h : F.next b with
      | wait => simp only [loop, h]
      | fail e => simp only [loop, h]
      | frame m n =>
        have hp := F.frame_pos h
        have hl := F.frame_le h
        have hd : (b.drop n).length = b.length - n := List.length_drop
        simp only [loop, h]
        rw [ih (b.drop n) g (by omega) (by omega)]

theorem drain_wait {b : List α} (h : F.next b = .wait) : F.drain b = ⟨[], none, b⟩ := by
  simp [drain, loop, h]

theorem drain_fail {b : List α} {e : ε} (h : F.next b = .fail e) :
    F.drain b = ⟨[], some e, b⟩ := by
  simp [drain, loop, h]

theorem drain_frame {b : List α} {m : μ} {n : Nat} (h : F.next b = .frame m n) :
    F.drain b = { F.drain (b.drop n) with msgs := m :: (F.drain (b.drop n)).msgs } := by
  have hp := F.frame_pos h
  have hl := F.frame_le h
  have hd : (b.drop n).length = b.length - n := List.length_drop
  unfold drain
  rw [loop, h]
  simp only [F.loop_fuel (b.drop n) b.length ((b.drop n).length + 1) (by omega) (by omega)]

theorem drain_induction {P : List α → Prop}
    (wait : ∀ b, F.next b = .wait → P b)
    (fail : ∀ b e, F.next b = .fail e → P b)
    (frame : ∀ b m n, F.next b = .frame m n → P (b.drop n) → P b) (b : List α) : P b := by
  induction hn : b.length using Nat.strongRecOn generalizing b with
  | _ k ih =>
    cases h : F.next b with
    | wait => exact wait b h
    | fail e => exact fail b e h
    | frame m n =>
      have hp := F.frame_pos h
      have hl := F.frame_le h
      exact frame b m n h (ih _ (by rw [List.length_drop]; omega) _ rfl)

theorem drain_rest_wait (b : List α) (h : (F.drain b).err = none) :
    F.next (F.drain b).rest = .wait := by
  induction b using F.drain_induction with
  | wait b hb => rwa [F.drain_wait hb]
  | fail b e hb => simp [F.drain_fail hb] at h
  | frame b m n hb ih =>
    rw [F.drain_frame hb] at h ⊢
    exact ih h

theorem drain_forall {P : μ → Prop} (hP : ∀ {b m n}, F.next b = .frame m n → P m) (b : List α) :
    ∀ m ∈ (F.drain b).msgs, P m := by
  induction b using F.drain_induction with
  | wait b hb => simp [F.drain_wait hb]
  | fail b e hb => simp [F.drain_fail hb]
  | frame b m n hb ih =>
    rw [F.drain_frame hb]
    intro m' hm
    rcases List.mem_cons.mp hm with rfl | hm
    · exact hP hb
    · exact ih m' hm

theorem drain_append (b c : List α) (h : (F.drain b).err = none) :
    F.drain (b ++ c) = { F.drain ((F.drain b).rest ++ c) with
      msgs := (F.drain b).msgs ++ (F.drain ((F.drain b).rest ++ c)).msgs } := by
  induction b using F.drain_induction with
  | wait b hb => simp [F.drain_wait hb]
  | fail b e hb => simp [F.drain_fail hb] at h
  | frame b m n hb ih =>
    have hl := F.frame_le hb
    have herr : (F.drain (b.drop n)).err = none := by simpa [F.drain_frame hb] using h
    rw [F.drain_frame (F.frame_append c hb), List.drop_append_of_le_length hl, ih herr,
      F.drain_frame hb]
    simp

theorem drain_append_fail (b c : List α) {e : ε} (h : (F.drain b).err = some e) :
    (F.drain (b ++ c)).err = some e ∧ (F.drain (b ++ c)).msgs = (F.drain b).msgs := by
  induction b using F.drain_induction with
  | wait b hb => simp [F.drain_wait hb] at h
  | fail b e' hb =>
    rw [F.drain_fail hb] at h ⊢
    rw [F.drain_fail (F.fail_append c hb)]
    exact ⟨h, rfl⟩
  | frame b m n hb ih =>
    have hl := F.frame_le hb
    have herr : (F.drain (b.drop n)).err = some e := by simpa [F.drain_frame hb] using h
    rw [F.drain_frame (F.frame_append c hb), List.drop_append_of_le_length hl, F.drain_frame hb]
    exact ⟨(ih herr).1, congrArg (m :: ·) (ih herr).2⟩

def Encodes (bytes : List α) (m : μ) : Prop :=
  ∀ rest, F.next (bytes ++ rest) = .frame m bytes.length

theorem drain_encoded {bytes : List α} {m : μ} (h : F.Encodes bytes m) (rest : List α) :
    F.drain (bytes ++ rest) = { F.drain rest with msgs := m :: (F.drain rest).msgs } := by
  rw [F.drain_frame (h rest), List.drop_left]

theorem wait_of_short {b c bytes rest : List α} {m : μ} (h : F.Encodes bytes m)
    (eq : b ++ c = bytes ++ rest) (short : b.length < bytes.length) : F.next b = .wait := by
  have hnext := h rest
  rw [← eq] at hnext
  cases hb : F.next b with
  | wait => rfl
  | fail e => simp [F.fail_append c hb] at hnext
  | frame m' n =>
    have hn := F.frame_append c hb
    have hl := F.frame_le hb
    rw [hnext] at hn
    obtain ⟨-, hlen⟩ := Cut.frame.inj hn
    omega

def stream (ms : List (List α × μ)) : List α := ms.flatMap Prod.fst

@[simp] theorem stream_nil : stream ([] : List (List α × μ)) = [] := rfl

@[simp] theorem stream_cons (p : List α × μ) (ms : List (List α × μ)) :
    stream (p :: ms) = p.1 ++ stream ms := rfl

@[simp] theorem stream_append (ms ns : List (List α × μ)) :
    stream (ms ++ ns) = stream ms ++ stream ns := by simp [stream]

theorem drain_stream (ms : List (List α × μ)) (ok : ∀ p ∈ ms, F.Encodes p.1 p.2)
    (b c : List α) (eq : b ++ c = stream ms) :
    ∃ done left, ms = done ++ left ∧ (F.drain b).msgs = done.map Prod.snd ∧
      (F.drain b).err = none ∧ (F.drain b).rest ++ c = stream left := by
  induction ms generalizing b with
  | nil =>
    obtain ⟨rfl, rfl⟩ := List.append_eq_nil_iff.mp eq
    rw [F.drain_wait F.next_nil]
    exact ⟨[], [], rfl, rfl, rfl, rfl⟩
  | cons p ms ih =>
    have hp := ok p (by simp)
    by_cases short : b.length < p.1.length
    · have hw := F.wait_of_short hp eq short
      rw [F.drain_wait hw]
      exact ⟨[], p :: ms, rfl, rfl, rfl, eq⟩
    · have hb : b = p.1 ++ b.drop p.1.length := by
        have ht := congrArg (List.take p.1.length) eq
        rw [List.take_append_of_le_length (by omega), stream_cons, List.take_left] at ht
        nth_rewrite 1 [← List.take_append_drop p.1.length b]
        rw [ht]
      have hrest : b.drop p.1.length ++ c = stream ms := by
        rw [hb, stream_cons, List.append_assoc] at eq
        exact List.append_cancel_left eq
      obtain ⟨done, left, rfl, hm, he, hr⟩ := ih (fun q hq => ok q (by simp [hq])) _ hrest
      rw [hb, F.drain_encoded hp]
      exact ⟨p :: done, left, rfl, by simp [hm], he, hr⟩

theorem stream_waiting {ms : List (List α × μ)} (ok : ∀ p ∈ ms, F.Encodes p.1 p.2)
    (h : F.next (stream ms) = .wait) : ms = [] := by
  cases ms with
  | nil => rfl
  | cons p ms =>
    rw [stream_cons, ok p (by simp) (stream ms)] at h
    cases h

end Framer
end Stream
