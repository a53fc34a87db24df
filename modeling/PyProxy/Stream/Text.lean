import PyProxy.Stream.Lines

namespace Lines

variable {α : Type} [DecidableEq α] (sep : α)

-- the lines of `b` that end with `sep`, and what is left behind the last of them
def lines (b : List α) : List (List α) := (spans sep b).map (slice b)

def terminated (b : List α) : List α := b.take (startFrom sep 0 0 b)

def unterminated (b : List α) : List α := b.drop (startFrom sep 0 0 b)

theorem startFrom_shift (k pos start : Nat) (b : List α) :
    startFrom sep (pos + k) (start + k) b = startFrom sep pos start b + k := by
  induction b generalizing pos start with
  | nil => rfl
  | cons c b ih =>
    rw [startFrom, startFrom, Nat.add_right_comm]
    split
    · exact ih _ _
    · exact ih _ _

theorem startFrom_silent {pos start : Nat} {b : List α} (h : sep ∉ b) :
    startFrom sep pos start b = start := by
  induction b generalizing pos with
  | nil => rfl
  | cons c b ih =>
    obtain ⟨hc, hb⟩ := List.ne_and_not_mem_of_not_mem_cons h
    rw [startFrom, if_neg (Ne.symm hc), ih hb]

theorem startFrom_line {pos start : Nat} {l : List α} (rest : List α) (h : sep ∉ l) :
    startFrom sep pos start (l ++ sep :: rest) =
      startFrom sep (pos + l.length + 1) (pos + l.length + 1) rest := by
  induction l generalizing pos with
  | nil => simp [startFrom]
  | cons c l ih =>
    obtain ⟨hc, hl⟩ := List.ne_and_not_mem_of_not_mem_cons h
    rw [List.cons_append, startFrom, if_neg (Ne.symm hc), ih hl, List.length_cons,
      show pos + 1 + l.length = pos + (l.length + 1) by omega]

section
variable {l : List α} (rest : List α) (h : sep ∉ l)
include h

theorem start_line : startFrom sep 0 0 (l ++ sep :: rest) = (l ++ [sep]).length + startFrom sep 0 0 rest := by
  have shifted := startFrom_shift sep (l.length + 1) 0 0 rest
  rw [startFrom_line sep rest h, Nat.add_assoc, shifted, List.length_append, List.length_singleton,
    Nat.add_comm]

theorem lines_line : lines sep (l ++ sep :: rest) = l :: lines sep rest := by
  have shifted := spansFrom_shift sep (l ++ [sep]).length 0 0 rest
  have cut : l ++ sep :: rest = (l ++ [sep]) ++ rest := by simp
  have first : slice (l ++ sep :: rest) ⟨0, l.length⟩ = l := by simp [slice]
  rw [lines, spans, spansFrom_line sep rest h, List.map_cons, Nat.zero_add, first, lines, spans]
  rw [List.length_append, List.length_singleton, Nat.zero_add] at shifted
  rw [shifted, List.map_map, cut]
  refine congrArg (List.cons l) (List.map_congr_left fun s _ => ?_)
  have sliced := slice_shift (l ++ [sep]) rest s
  rwa [List.length_append, List.length_singleton] at sliced

theorem unterminated_line : unterminated sep (l ++ sep :: rest) = unterminated sep rest := by
  rw [unterminated, start_line sep rest h, show l ++ sep :: rest = (l ++ [sep]) ++ rest by simp,
    ← List.drop_drop, List.drop_left]
  rfl

theorem terminated_line : terminated sep (l ++ sep :: rest) = l ++ sep :: terminated sep rest := by
  rw [terminated, start_line sep rest h, show l ++ sep :: rest = (l ++ [sep]) ++ rest by simp,
    List.take_length_add_append, terminated]
  simp

end

theorem lines_silent {b : List α} (h : sep ∉ b) : lines sep b = [] := by
  rw [lines, spans, spansFrom_silent sep h, List.map_nil]

theorem unterminated_silent {b : List α} (h : sep ∉ b) : unterminated sep b = b := by
  rw [unterminated, startFrom_silent sep h, List.drop_zero]

theorem terminated_silent {b : List α} (h : sep ∉ b) : terminated sep b = [] := by
  rw [terminated, startFrom_silent sep h, List.take_zero]

theorem line_induction {P : List α → Prop} (silent : ∀ b, sep ∉ b → P b)
    (line : ∀ l rest, sep ∉ l → P rest → P (l ++ sep :: rest)) (b : List α) : P b := by
  induction hn : b.length using Nat.strongRecOn generalizing b with
  | _ n ih =>
    by_cases h : sep ∈ b
    · obtain ⟨l, rest, rfl, hl⟩ := List.eq_append_cons_of_mem h
      refine line l rest hl (ih rest.length ?_ rest rfl)
      rw [← hn, List.length_append, List.length_cons]
      omega
    · exact silent b h

theorem unterminated_free (b : List α) : sep ∉ unterminated sep b := by
  induction b using line_induction sep with
  | silent b h => rwa [unterminated_silent sep h]
  | line l rest h ih => rwa [unterminated_line sep rest h]

theorem lines_append (b c : List α) : lines sep (b ++ c) = lines sep b ++ lines sep (unterminated sep b ++ c) := by
  induction b using line_induction sep with
  | silent b h => rw [lines_silent sep h, unterminated_silent sep h, List.nil_append]
  | line l rest h ih =>
    rw [List.append_assoc, List.cons_append, lines_line sep _ h, lines_line sep _ h,
      unterminated_line sep rest h, ih, List.cons_append]

theorem unterminated_append (b c : List α) :
    unterminated sep (b ++ c) = unterminated sep (unterminated sep b ++ c) := by
  induction b using line_induction sep with
  | silent b h => rw [unterminated_silent sep h]
  | line l rest h ih =>
    rw [List.append_assoc, List.cons_append, unterminated_line sep _ h, unterminated_line sep _ h, ih]

theorem unlines_lines (b : List α) : unlines sep (lines sep b) = terminated sep b := by
  induction b using line_induction sep with
  | silent b h => rw [lines_silent sep h, terminated_silent sep h]; rfl
  | line l rest h ih => rw [lines_line sep rest h, terminated_line sep rest h, unlines_cons, ih]

theorem lastStop_drop {b : List α} (h : sep ∈ b) :
    ∃ r, lastStop none (spans sep b) = some r ∧ b.drop r = sep :: unterminated sep b := by
  rcases lastStop_cases sep none 0 0 b with ⟨free, -⟩ | ⟨p, q, rfl, free, last⟩
  · exact absurd h free
  · refine ⟨0 + p.length, last, ?_⟩
    rw [Nat.zero_add, List.drop_left, show p ++ sep :: q = (p ++ [sep]) ++ q by simp, unterminated_append]
    have none : unterminated sep (p ++ [sep]) = [] := by
      rw [unterminated, startFrom_sep, List.drop_eq_nil_of_le (by simp)]
    rw [none, List.nil_append, unterminated_silent sep free]

end Lines
