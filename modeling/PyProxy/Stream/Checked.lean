import PyProxy.Stream.Headed
import PyProxy.Stream.Lines

namespace Stream

variable {ε η μ α : Type}

-- the operations that panic out of bounds, `none` being the panic

def checkedSub (a b : Nat) : Option Nat := if b ≤ a then some (a - b) else none

def checkedSlice (b : List α) (start stop : Nat) : Option (List α) :=
  if start ≤ stop ∧ stop ≤ b.length then some ((b.drop start).take (stop - start)) else none

def checkedCopyDown (k : Nat) (buf : List α) (n : Nat) : Option (List α) :=
  match buf[n + k]? with
  | none => none
  | some x => if n < buf.length then some (buf.set n x) else none

def checkedCompact (k : Nat) (buf : List α) : Option (List α) :=
  match checkedSub buf.length k with
  | none => none
  | some remaining =>
    ((List.range remaining).foldlM (checkedCopyDown k) buf).map (List.take remaining)

theorem checkedSub_eq {a b : Nat} (h : b ≤ a) : checkedSub a b = some (a - b) := if_pos h

theorem checkedSlice_eq {b : List α} {start stop : Nat} (h : start ≤ stop) (h' : stop ≤ b.length) :
    checkedSlice b start stop = some ((b.drop start).take (stop - start)) := if_pos ⟨h, h'⟩

theorem checkedCopyDown_eq {k n : Nat} {buf : List α} (h : n + k < buf.length) :
    checkedCopyDown k buf n = some (copyDown k buf n) := by
  have hn : n < buf.length := by omega
  simp only [checkedCopyDown, copyDown, List.getElem?_eq_getElem h, if_pos hn]

theorem checkedCopy_eq {k : Nat} (ns : List Nat) {buf : List α} (h : ∀ n ∈ ns, n + k < buf.length) :
    ns.foldlM (checkedCopyDown k) buf = some (ns.foldl (copyDown k) buf) := by
  induction ns generalizing buf with
  | nil => rfl
  | cons n ns ih =>
    rw [List.foldlM_cons, checkedCopyDown_eq (h n (by simp)), List.foldl_cons]
    refine ih fun m hm => ?_
    rw [copyDown_length]
    exact h m (by simp [hm])

theorem checkedCompact_eq {k : Nat} {buf : List α} (h : k ≤ buf.length) :
    checkedCompact k buf = some (compact k buf) := by
  have inside : ∀ n ∈ List.range (buf.length - k), n + k < buf.length := by
    intro n hn
    have := List.mem_range.mp hn
    omega
  simp only [checkedCompact, checkedSub_eq h, checkedCopy_eq _ inside, Option.map_some, compact]

def checkedHeaded [Inhabited α] (size : Nat) (header : Vector α size → Except ε η) (len : η → Nat)
    (body : η → List α → Except ε μ) (b : List α) : Option (Cut ε μ) :=
  if b.length < size then some .wait
  else match header (copyHeader size b) with
    | .error e => some (.fail e)
    | .ok h =>
      if b.length < size + len h then some .wait
      else match checkedSlice b size (size + len h) with
        | none => none
        | some raw =>
          match body h raw with
          | .error e => some (.fail e)
          | .ok m => some (.frame m (size + len h))

theorem checkedHeaded_eq [Inhabited α] {size : Nat} {header : Vector α size → Except ε η} {len : η → Nat}
    {body : η → List α → Except ε μ} (b : List α) :
    checkedHeaded size header len body b = some (headedNext size header len body b) := by
  simp only [checkedHeaded, headedNext]
  split
  · rfl
  · cases header (copyHeader size b) with
    | error e => rfl
    | ok h =>
      dsimp only
      split
      · rfl
      · rename_i hl
        rw [checkedSlice_eq (Nat.le_add_right _ _) (Nat.not_lt.mp hl), Nat.add_sub_cancel_left]
        dsimp only
        cases body h ((b.drop size).take (len h)) <;> rfl

namespace Framer

def checkedLoop (next : List α → Option (Cut ε μ)) : Nat → List α → Option (Parsed ε μ α)
  | 0, b => some ⟨[], none, b⟩
  | fuel + 1, b =>
    match next b with
    | none => none
    | some .wait => some ⟨[], none, b⟩
    | some (.fail e) => some ⟨[], some e, b⟩
    | some (.frame m n) =>
      match checkedCompact n b with
      | none => none
      | some rest => (checkedLoop next fuel rest).map fun tail => { tail with msgs := m :: tail.msgs }

def checkedDrain (next : List α → Option (Cut ε μ)) (b : List α) : Option (Parsed ε μ α) :=
  checkedLoop next (b.length + 1) b

theorem checkedLoop_eq {F : Framer ε μ α} {next : List α → Option (Cut ε μ)}
    (h : ∀ b, next b = some (F.next b)) (fuel : Nat) (b : List α) :
    checkedLoop next fuel b = some (F.loop fuel b) := by
  induction fuel generalizing b with
  | zero => rfl
  | succ fuel ih =>
    simp only [checkedLoop, loop, h]
    cases hb : F.next b with
    | wait => rfl
    | fail e => rfl
    | frame m n =>
      dsimp only
      rw [checkedCompact_eq (F.frame_le hb), compact_eq_drop]
      dsimp only
      rw [ih]
      rfl

theorem checkedDrain_eq {F : Framer ε μ α} {next : List α → Option (Cut ε μ)}
    (h : ∀ b, next b = some (F.next b)) (b : List α) : checkedDrain next b = some (F.drain b) :=
  checkedLoop_eq h _ b

end Framer
end Stream

namespace Lines

open Stream

variable {α σ : Type}

theorem checkedSlice_span {b : List α} {s : Span} (h : s.start ≤ s.stop) (h' : s.stop ≤ b.length) :
    checkedSlice b s.start s.stop = some (slice b s) := checkedSlice_eq h h'

variable [DecidableEq α] {sep : α}

def checkedScanStep (sep : α) (f : σ → Span → Option σ) (s : Nat × σ) (x : α × Nat) : Option (Nat × σ) :=
  if x.1 = sep then (f s.2 ⟨s.1, x.2⟩).map (Prod.mk (x.2 + 1)) else some s

theorem checkedScan_eq {f : σ → Span → Option σ} {g : σ → Span → σ} (b : List α) {pos start : Nat}
    (h : ∀ z, ∀ s ∈ spansFrom sep pos start b, f z s = some (g z s)) (z : σ) :
    (b.zipIdx pos).foldlM (checkedScanStep sep f) (start, z) =
      some ((b.zipIdx pos).foldl (scanStep sep g) (start, z)) := by
  induction b generalizing pos start z with
  | nil => rfl
  | cons x b ih =>
    rw [List.zipIdx_cons, List.foldlM_cons, List.foldl_cons, checkedScanStep, scanStep]
    rw [spansFrom] at h
    split
    · rename_i hx
      rw [if_pos hx] at h
      rw [h z _ (by simp)]
      exact ih (fun z s hs => h z s (by simp [hs])) _
    · rename_i hx
      rw [if_neg hx] at h
      exact ih h z

end Lines
