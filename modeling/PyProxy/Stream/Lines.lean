import Mathlib.Data.List.Basic

namespace Lines

structure Span where
  start : Nat
  stop : Nat
  deriving DecidableEq, Repr

variable {α : Type}

def Span.shift (k : Nat) (s : Span) : Span := ⟨s.start + k, s.stop + k⟩

def slice (b : List α) (s : Span) : List α := (b.drop s.start).take (s.stop - s.start)

theorem slice_append {b : List α} {s : Span} (c : List α) (h : s.stop ≤ b.length) :
    slice (b ++ c) s = slice b s := by
  simp only [slice]
  by_cases hs : s.start ≤ b.length
  · rw [List.drop_append_of_le_length hs, List.take_append_of_le_length]
    rw [List.length_drop]
    omega
  · have hz : s.stop - s.start = 0 := by omega
    rw [hz, List.take_zero, List.take_zero]

theorem slice_shift (p b : List α) (s : Span) : slice (p ++ b) (s.shift p.length) = slice b s := by
  have hdrop : (p ++ b).drop (s.start + p.length) = b.drop s.start := by
    rw [Nat.add_comm, ← List.drop_drop, List.drop_left]
  simp only [slice, Span.shift, hdrop, Nat.add_sub_add_right]

variable [DecidableEq α] (sep : α)

def spansFrom (pos start : Nat) : List α → List Span
  | [] => []
  | c :: cs =>
    if c = sep then ⟨start, pos⟩ :: spansFrom (pos + 1) (pos + 1) cs
    else spansFrom (pos + 1) start cs

def startFrom (pos start : Nat) : List α → Nat
  | [] => start
  | c :: cs => if c = sep then startFrom (pos + 1) (pos + 1) cs else startFrom (pos + 1) start cs

def spans (b : List α) : List Span := spansFrom sep 0 0 b

theorem spansFrom_append (pos start : Nat) (b c : List α) :
    spansFrom sep pos start (b ++ c) = spansFrom sep pos start b ++
      spansFrom sep (pos + b.length) (startFrom sep pos start b) c := by
  induction b generalizing pos start with
  | nil => rfl
  | cons x b ih =>
    rw [List.cons_append, spansFrom, spansFrom, startFrom, List.length_cons,
      show pos + (b.length + 1) = pos + 1 + b.length by omega]
    split
    · rw [ih, List.cons_append]
    · rw [ih]

theorem spansFrom_shift (k pos start : Nat) (b : List α) :
    spansFrom sep (pos + k) (start + k) b = (spansFrom sep pos start b).map (Span.shift k) := by
  induction b generalizing pos start with
  | nil => rfl
  | cons x b ih =>
    rw [spansFrom, spansFrom, show pos + k + 1 = pos + 1 + k by omega]
    split
    · rw [ih, List.map_cons]
      rfl
    · rw [ih]

theorem mem_spansFrom {pos start : Nat} {b : List α} {s : Span} (h : s ∈ spansFrom sep pos start b) :
    pos ≤ s.stop ∧ s.stop < pos + b.length ∧ (start ≤ pos → start ≤ s.start ∧ s.start ≤ s.stop) := by
  induction b generalizing pos start with
  | nil => simp [spansFrom] at h
  | cons x b ih =>
    rw [spansFrom] at h
    rw [List.length_cons]
    split at h
    · rcases List.mem_cons.mp h with rfl | h
      · exact ⟨Nat.le_refl _, Nat.lt_add_of_pos_right (Nat.succ_pos _), fun hs => ⟨Nat.le_refl _, hs⟩⟩
      · obtain ⟨h1, h2, h3⟩ := ih h
        have := h3 (Nat.le_refl _)
        exact ⟨by omega, by omega, fun hs => ⟨by omega, this.2⟩⟩
    · obtain ⟨h1, h2, h3⟩ := ih h
      exact ⟨by omega, by omega, fun hs => h3 (by omega)⟩

theorem spansFrom_sorted (pos start : Nat) (b : List α) :
    (spansFrom sep pos start b).Pairwise fun s t => s.stop < t.stop := by
  induction b generalizing pos start with
  | nil => exact .nil
  | cons x b ih =>
    rw [spansFrom]
    split
    · refine List.pairwise_cons.mpr ⟨?_, ih _ _⟩
      intro t ht
      exact (mem_spansFrom sep ht).1
    · exact ih _ _

theorem spans_stop {b : List α} {s : Span} (h : s ∈ spans sep b) : s.stop < b.length := by
  have := (mem_spansFrom sep h).2.1
  omega

def scanStep {σ : Type} (f : σ → Span → σ) (s : Nat × σ) (x : α × Nat) : Nat × σ :=
  if x.1 = sep then (x.2 + 1, f s.2 ⟨s.1, x.2⟩) else s

theorem foldl_scanStep {σ : Type} (f : σ → Span → σ) (b : List α) (pos start : Nat) (z : σ) :
    (b.zipIdx pos).foldl (scanStep sep f) (start, z) =
      (startFrom sep pos start b, (spansFrom sep pos start b).foldl f z) := by
  induction b generalizing pos start z with
  | nil => rfl
  | cons x b ih =>
    rw [List.zipIdx_cons, List.foldl_cons, spansFrom, startFrom, scanStep]
    split
    · rw [ih, List.foldl_cons]
    · rw [ih]

section
variable {l pre post : List Span} {s : Span} {k : Nat}
  (sorted : l.Pairwise fun s t => s.stop < t.stop) (eq : l = pre ++ s :: post)
include sorted eq

theorem sorted_split : (∀ t ∈ pre, t.stop < s.stop) ∧ ∀ t ∈ post, s.stop < t.stop := by
  subst eq
  obtain ⟨-, hpost, hpre⟩ := List.pairwise_append.mp sorted
  exact ⟨fun t ht => hpre t ht s (by simp), (List.pairwise_cons.mp hpost).1⟩

theorem filter_sorted : l.filter (fun t => t.stop ≤ s.stop) = pre ++ [s] := by
  obtain ⟨hpre, hpost⟩ := sorted_split sorted eq
  have hin : pre.filter (fun t => t.stop ≤ s.stop) = pre := by
    rw [List.filter_eq_self]
    intro t ht
    exact decide_eq_true (Nat.le_of_lt (hpre t ht))
  have hout : post.filter (fun t => t.stop ≤ s.stop) = [] := by
    rw [List.filter_eq_nil_iff]
    intro t ht hle
    exact absurd (of_decide_eq_true hle) (Nat.not_le.mpr (hpost t ht))
  rw [eq, List.filter_append, hin, List.filter_cons, if_pos (decide_eq_true (Nat.le_refl _)), hout]

theorem filter_keep (h : s.stop < k) :
    l.filter (fun t => t.stop < k) = pre ++ s :: post.filter fun t => t.stop < k := by
  obtain ⟨hpre, -⟩ := sorted_split sorted eq
  have hin : pre.filter (fun t => t.stop < k) = pre := by
    rw [List.filter_eq_self]
    intro t ht
    exact decide_eq_true (Nat.lt_trans (hpre t ht) h)
  rw [eq, List.filter_append, hin, List.filter_cons, if_pos (decide_eq_true h)]

theorem filter_cut (h : k ≤ s.stop) :
    l.filter (fun t => t.stop < k) = pre.filter fun t => t.stop < k := by
  obtain ⟨-, hpost⟩ := sorted_split sorted eq
  have hout : (s :: post).filter (fun t => t.stop < k) = [] := by
    rw [List.filter_eq_nil_iff]
    intro t ht hlt
    have hk := of_decide_eq_true hlt
    rcases List.mem_cons.mp ht with rfl | ht
    · omega
    · have := hpost t ht
      omega
  rw [eq, List.filter_append, hout, List.append_nil]

theorem filter_late (h : k < s.stop) :
    l.filter (fun t => k < t.stop) = pre.filter (fun t => k < t.stop) ++ s :: post := by
  obtain ⟨-, hpost⟩ := sorted_split sorted eq
  have hin : (s :: post).filter (fun t => k < t.stop) = s :: post := by
    rw [List.filter_eq_self]
    intro t ht
    rcases List.mem_cons.mp ht with rfl | ht
    · exact decide_eq_true h
    · exact decide_eq_true (Nat.lt_trans h (hpost t ht))
  rw [eq, List.filter_append, hin]

theorem filter_past (h : s.stop ≤ k) :
    l.filter (fun t => k < t.stop) = post.filter fun t => k < t.stop := by
  obtain ⟨hpre, -⟩ := sorted_split sorted eq
  have hout : pre.filter (fun t => k < t.stop) = [] := by
    rw [List.filter_eq_nil_iff]
    intro t ht hlt
    have := hpre t ht
    have := of_decide_eq_true hlt
    omega
  rw [eq, List.filter_append, hout, List.nil_append, List.filter_cons,
    if_neg (by simp only [decide_eq_true_eq]; omega)]

end

theorem spans_append (b c : List α) : spans sep (b ++ c) = spans sep b ++
    spansFrom sep b.length (startFrom sep 0 0 b) c := by
  rw [spans, spansFrom_append, Nat.zero_add]
  rfl

theorem filter_spans_append (b c : List α) {k : Nat} (h : k < b.length) :
    (spans sep (b ++ c)).filter (fun s => s.stop ≤ k) = (spans sep b).filter fun s => s.stop ≤ k := by
  rw [spans_append, List.filter_append]
  have hout : (spansFrom sep b.length (startFrom sep 0 0 b) c).filter (fun s => s.stop ≤ k) = [] := by
    rw [List.filter_eq_nil_iff]
    intro s hs hle
    have := (mem_spansFrom sep hs).1
    exact absurd (of_decide_eq_true hle) (by omega)
  rw [hout, List.append_nil]

section
variable (p q : List α)

theorem startFrom_sep (pos start : Nat) :
    startFrom sep pos start (p ++ [sep]) = pos + p.length + 1 := by
  induction p generalizing pos start with
  | nil => simp [startFrom]
  | cons x p ih =>
    rw [List.cons_append, startFrom, ih, ih, ite_self, List.length_cons]
    omega

theorem spans_sep : spans sep (sep :: q) = ⟨0, 0⟩ :: spansFrom sep 1 1 q := by
  simp [spans, spansFrom]

theorem spans_split : spans sep (p ++ sep :: q) =
    spans sep (p ++ [sep]) ++ (spansFrom sep 1 1 q).map (Span.shift p.length) := by
  rw [show p ++ sep :: q = (p ++ [sep]) ++ q by simp, spans, spansFrom_append, startFrom_sep,
    ← spansFrom_shift]
  simp [spans, Nat.add_comm]

theorem spans_upto : (spans sep (p ++ sep :: q)).filter (fun s => s.stop ≤ p.length) =
    spans sep (p ++ [sep]) := by
  rw [spans_split, List.filter_append]
  have hin : (spans sep (p ++ [sep])).filter (fun s => s.stop ≤ p.length) = spans sep (p ++ [sep]) := by
    rw [List.filter_eq_self]
    intro s hs
    have := spans_stop sep hs
    simp only [List.length_append, List.length_singleton] at this
    simp only [decide_eq_true_eq]
    omega
  have hout : ((spansFrom sep 1 1 q).map (Span.shift p.length)).filter
      (fun s => s.stop ≤ p.length) = [] := by
    rw [List.filter_eq_nil_iff]
    intro s hs
    obtain ⟨t, ht, rfl⟩ := List.mem_map.mp hs
    have hpos := (mem_spansFrom sep ht).1
    intro hle
    exact absurd (of_decide_eq_true hle) (Nat.not_le.mpr (Nat.lt_add_of_pos_left hpos))
  rw [hin, hout, List.append_nil]

end
def lastStop (o : Option Nat) (l : List Span) : Option Nat := l.foldl (fun _ s => some s.stop) o

theorem spansFrom_silent {pos start : Nat} {b : List α} (h : sep ∉ b) :
    spansFrom sep pos start b = [] := by
  induction b generalizing pos with
  | nil => rfl
  | cons c b ih =>
    obtain ⟨hc, hb⟩ := List.ne_and_not_mem_of_not_mem_cons h
    rw [spansFrom, if_neg (Ne.symm hc), ih hb]

theorem lastStop_cases (o : Option Nat) (pos start : Nat) (b : List α) :
    (sep ∉ b ∧ lastStop o (spansFrom sep pos start b) = o) ∨
      ∃ p q, b = p ++ sep :: q ∧ sep ∉ q ∧
        lastStop o (spansFrom sep pos start b) = some (pos + p.length) := by
  induction b generalizing o pos start with
  | nil => exact .inl ⟨by simp, rfl⟩
  | cons c b ih =>
    rw [spansFrom]
    split
    · rename_i hc
      right
      rcases ih (some pos) (pos + 1) (pos + 1) with ⟨hb, hl⟩ | ⟨p, q, rfl, hq, hl⟩
      · exact ⟨[], b, by simp [hc], hb, hl⟩
      · refine ⟨c :: p, q, by simp, hq, ?_⟩
        rw [List.length_cons, show pos + (p.length + 1) = pos + 1 + p.length by omega]
        exact hl
    · rename_i hc
      rcases ih o (pos + 1) start with ⟨hb, hl⟩ | ⟨p, q, rfl, hq, hl⟩
      · exact .inl ⟨List.not_mem_cons_of_ne_of_not_mem (Ne.symm hc) hb, hl⟩
      · right
        refine ⟨c :: p, q, by simp, hq, ?_⟩
        rw [List.length_cons, show pos + (p.length + 1) = pos + 1 + p.length by omega]
        exact hl

def early (b : List α) : Option Nat → List Span
  | none => []
  | some r => (spans sep b).filter fun s => s.stop ≤ r

def late (b : List α) : Option Nat → List Span
  | none => spans sep b
  | some r => (spans sep b).filter fun s => r < s.stop

def retained : Option Nat → List Span
  | none => []
  | some r => [⟨r, r⟩]

def offset (o : Option Nat) : Nat := o.getD 0

def CutAt (b : List α) : Option Nat → Prop
  | none => True
  | some r => ∃ p q, b = p ++ sep :: q ∧ p.length = r

theorem late_split (p q : List α) : late sep (p ++ sep :: q) (some p.length) =
    (spansFrom sep 1 1 q).map (Span.shift p.length) := by
  rw [late, spans_split, List.filter_append]
  have hout : (spans sep (p ++ [sep])).filter (fun s => p.length < s.stop) = [] := by
    rw [List.filter_eq_nil_iff]
    intro s hs hlt
    have := spans_stop sep hs
    simp only [List.length_append, List.length_singleton] at this
    exact absurd (of_decide_eq_true hlt) (by omega)
  have hin : ((spansFrom sep 1 1 q).map (Span.shift p.length)).filter (fun s => p.length < s.stop) =
      (spansFrom sep 1 1 q).map (Span.shift p.length) := by
    rw [List.filter_eq_self]
    intro s hs
    obtain ⟨t, ht, rfl⟩ := List.mem_map.mp hs
    exact decide_eq_true (Nat.lt_add_of_pos_left (mem_spansFrom sep ht).1)
  rw [hout, hin, List.nil_append]

variable {sep}

theorem early_late {b : List α} {o : Option Nat} (h : CutAt sep b o) :
    early sep b o ++ late sep b o = spans sep b := by
  cases o with
  | none => rfl
  | some r =>
    obtain ⟨p, q, rfl, rfl⟩ := h
    rw [early, spans_upto, late_split, ← spans_split]

theorem window_spans {b : List α} {o : Option Nat} (h : CutAt sep b o) :
    (spans sep (b.drop (offset o))).map (Span.shift (offset o)) = retained o ++ late sep b o := by
  cases o with
  | none =>
    have hid : Span.shift 0 = id := rfl
    simp [offset, retained, late, hid]
  | some r =>
    obtain ⟨p, q, rfl, rfl⟩ := h
    rw [offset, Option.getD_some, List.drop_left, spans_sep, late_split]
    simp [retained, Span.shift]

omit [DecidableEq α] in
theorem CutAt.append {b : List α} {o : Option Nat} (h : CutAt sep b o) (c : List α) :
    CutAt sep (b ++ c) o := by
  cases o with
  | none => trivial
  | some r =>
    obtain ⟨p, q, rfl, rfl⟩ := h
    exact ⟨p, q ++ c, by simp, rfl⟩

omit [DecidableEq α] in
theorem CutAt.offset_le {b : List α} {o : Option Nat} (h : CutAt sep b o) : offset o ≤ b.length := by
  cases o with
  | none => exact Nat.zero_le _
  | some r =>
    obtain ⟨p, q, rfl, rfl⟩ := h
    simp [offset]

theorem CutAt.early_append {b : List α} {o : Option Nat} (h : CutAt sep b o) (c : List α) :
    early sep (b ++ c) o = early sep b o := by
  cases o with
  | none => rfl
  | some r =>
    obtain ⟨p, q, rfl, rfl⟩ := h
    exact filter_spans_append sep _ c (by simp)

theorem CutAt.late_append {b : List α} {o : Option Nat} (h : CutAt sep b o) (c : List α) :
    late sep (b ++ c) o = late sep b o ++ spansFrom sep b.length (startFrom sep 0 0 b) c := by
  have hall := early_late (h.append c)
  rw [spans_append, ← early_late h, h.early_append, List.append_assoc] at hall
  exact List.append_cancel_left hall

theorem CutAt.mem {b : List α} {r : Nat} (h : CutAt sep b (some r)) :
    ∃ s ∈ spans sep b, s.stop = r := by
  obtain ⟨p, q, rfl, rfl⟩ := h
  refine ⟨⟨startFrom sep 0 0 p, p.length⟩, ?_, rfl⟩
  rw [spans_split, spans_append]
  simp [spansFrom]

theorem CutAt.lt {b : List α} {r : Nat} (h : CutAt sep b (some r)) : r < b.length := by
  obtain ⟨s, hs, rfl⟩ := h.mem
  exact spans_stop sep hs

theorem spans_initial (b c : List α) :
    spans sep b = (spans sep (b ++ c)).filter fun s => s.stop < b.length := by
  rw [spans_append, List.filter_append]
  have hin : (spans sep b).filter (fun s => s.stop < b.length) = spans sep b := by
    rw [List.filter_eq_self]
    intro s hs
    exact decide_eq_true (spans_stop sep hs)
  have hout : (spansFrom sep b.length (startFrom sep 0 0 b) c).filter
      (fun s => s.stop < b.length) = [] := by
    rw [List.filter_eq_nil_iff]
    intro s hs hlt
    exact absurd (of_decide_eq_true hlt) (Nat.not_lt.mpr (mem_spansFrom sep hs).1)
  rw [hin, hout, List.append_nil]

section
variable (sep)

def unlines (ls : List (List α)) : List α := ls.flatMap (· ++ [sep])

omit [DecidableEq α] in
@[simp] theorem unlines_append (ls ls' : List (List α)) :
    unlines sep (ls ++ ls') = unlines sep ls ++ unlines sep ls' := List.flatMap_append

omit [DecidableEq α] in
@[simp] theorem unlines_cons (l : List α) (ls : List (List α)) :
    unlines sep (l :: ls) = l ++ sep :: unlines sep ls := by simp [unlines]

def place (pos : Nat) : List (List α) → List Span
  | [] => []
  | l :: ls => ⟨pos, pos + l.length⟩ :: place (pos + l.length + 1) ls

omit [DecidableEq α] in
theorem place_append (pos : Nat) (ls ls' : List (List α)) :
    place pos (ls ++ ls') = place pos ls ++ place (pos + (unlines sep ls).length) ls' := by
  induction ls generalizing pos with
  | nil => rfl
  | cons l ls ih =>
    rw [List.cons_append, place, place, ih, unlines_cons, List.length_append, List.length_cons,
      List.cons_append]
    congr 3
    omega

omit [DecidableEq α] in
theorem mem_place {pos : Nat} {ls : List (List α)} {s : Span} (h : s ∈ place pos ls) :
    ∃ pre l post, ls = pre ++ l :: post ∧
      s = ⟨pos + (unlines sep pre).length, pos + (unlines sep pre).length + l.length⟩ := by
  induction ls generalizing pos with
  | nil => simp [place] at h
  | cons l ls ih =>
    rcases List.mem_cons.mp h with rfl | h
    · exact ⟨[], l, ls, rfl, by simp [unlines]⟩
    · obtain ⟨pre, x, post, rfl, rfl⟩ := ih h
      refine ⟨l :: pre, x, post, rfl, ?_⟩
      simp only [unlines_cons, List.length_append, List.length_cons, Span.mk.injEq]
      omega

theorem spansFrom_line {pos start : Nat} {l : List α} (rest : List α) (h : sep ∉ l) :
    spansFrom sep pos start (l ++ sep :: rest) = ⟨start, pos + l.length⟩ ::
      spansFrom sep (pos + l.length + 1) (pos + l.length + 1) rest := by
  induction l generalizing pos with
  | nil => simp [spansFrom]
  | cons x l ih =>
    obtain ⟨hx, hl⟩ := List.ne_and_not_mem_of_not_mem_cons h
    rw [List.cons_append, spansFrom, if_neg (Ne.symm hx), ih hl, List.length_cons,
      show pos + 1 + l.length = pos + (l.length + 1) by omega]

theorem spansFrom_unlines (pos : Nat) {ls : List (List α)} (h : ∀ l ∈ ls, sep ∉ l) :
    spansFrom sep pos pos (unlines sep ls) = place pos ls := by
  induction ls generalizing pos with
  | nil => rfl
  | cons l ls ih =>
    rw [unlines_cons, spansFrom_line sep _ (h l (by simp)), ih _ fun x hx => h x (by simp [hx]), place]

omit [DecidableEq α] in
theorem slice_unlines (ls ls' : List (List α)) (l : List α) :
    slice (unlines sep (ls ++ l :: ls'))
      ⟨(unlines sep ls).length, (unlines sep ls).length + l.length⟩ = l := by
  have hshift := slice_shift (unlines sep ls) (unlines sep (l :: ls')) ⟨0, l.length⟩
  rw [unlines_append]
  simp only [Span.shift, Nat.zero_add, Nat.add_comm l.length] at hshift
  rw [hshift]
  simp [slice]

omit [DecidableEq α] in
end

theorem sublist_of_sorted {β : Type} {key : β → Nat} {l l' : List β}
    (hl : l.Pairwise fun x y => key x < key y) (hl' : l'.Pairwise fun x y => key x ≤ key y)
    (h : ∀ x ∈ l, x ∈ l') : l.Sublist l' := by
  induction l' generalizing l with
  | nil =>
    cases l with
    | nil => exact .slnil
    | cons x l => exact absurd (h x (by simp)) (by simp)
  | cons y l' ih =>
    obtain ⟨hy, hr⟩ := List.pairwise_cons.mp hl'
    cases l with
    | nil => exact List.nil_sublist _
    | cons x l =>
      obtain ⟨hx, hl₀⟩ := List.pairwise_cons.mp hl
      rcases List.mem_cons.mp (h x (by simp)) with rfl | hmem
      · refine List.Sublist.cons_cons _ (ih hl₀ hr fun z hz => ?_)
        rcases List.mem_cons.mp (h z (by simp [hz])) with rfl | hz'
        · exact absurd (hx z hz) (Nat.lt_irrefl _)
        · exact hz'
      · refine List.Sublist.cons _ (ih hl hr fun z hz => ?_)
        rcases List.mem_cons.mp (h z hz) with rfl | hz'
        · rcases List.mem_cons.mp hz with rfl | hz
          · exact hmem
          · exact absurd (hx z hz) (Nat.not_lt.mpr (hy x hmem))
        · exact hz'

end Lines
