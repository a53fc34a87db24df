import Mathlib.Data.List.Basic

namespace Stream

variable {α : Type}

def copyDown (k : Nat) (buf : List α) (n : Nat) : List α :=
  match buf[n + k]? with
  | some x => buf.set n x
  | none => buf

def compact (k : Nat) (buf : List α) : List α :=
  let remaining := buf.length - k
  ((List.range remaining).foldl (copyDown k) buf).take remaining

theorem copyDown_length (k n : Nat) (buf : List α) : (copyDown k buf n).length = buf.length := by
  unfold copyDown
  cases buf[n + k]? <;> simp

theorem copied_getElem? (k : Nat) (buf : List α) (m : Nat) (hm : m + k ≤ buf.length) (i : Nat) :
    ((List.range m).foldl (copyDown k) buf)[i]? = if i < m then buf[i + k]? else buf[i]? := by
  induction m generalizing i with
  | zero => simp
  | succ m ih =>
    have hlen : ((List.range m).foldl (copyDown k) buf).length = buf.length := by
      clear ih hm
      induction m with
      | zero => simp
      | succ m ih => simp [List.range_succ, List.foldl_append, copyDown_length, ih]
    have hsrc : ((List.range m).foldl (copyDown k) buf)[m + k]? = buf[m + k]? := by
      rw [ih (by omega)]
      by_cases h : m + k < m
      · omega
      · simp [h]
    have hin : m + k < buf.length := by omega
    rw [List.range_succ, List.foldl_append]
    simp only [List.foldl_cons, List.foldl_nil, copyDown, hsrc, List.getElem?_eq_getElem hin]
    rw [List.getElem?_set, hlen, ih (by omega)]
    by_cases hi : m = i
    · subst hi
      simp [hin, show m < buf.length by omega]
    · by_cases hlt : i < m
      · simp [hi, hlt, show i < m + 1 by omega]
      · simp [hi, hlt, show ¬ i < m + 1 by omega]

@[simp] theorem compact_eq_drop (k : Nat) (buf : List α) : compact k buf = buf.drop k := by
  apply List.ext_getElem?
  intro i
  simp only [compact]
  by_cases hk : k ≤ buf.length
  · rw [List.getElem?_take, List.getElem?_drop]
    by_cases hi : i < buf.length - k
    · rw [if_pos hi, copied_getElem? k buf _ (by omega), if_pos hi, Nat.add_comm]
    · rw [if_neg hi]
      exact (List.getElem?_eq_none (by omega)).symm
  · have hz : buf.length - k = 0 := by omega
    rw [hz, List.take_zero, List.drop_eq_nil_of_le (by omega)]

def copyHeader [Inhabited α] (n : Nat) (buf : List α) : Vector α n :=
  Vector.ofFn fun i => buf.getD i default

theorem copyHeader_append [Inhabited α] (n : Nat) (buf rest : List α) (h : n ≤ buf.length) :
    copyHeader n (buf ++ rest) = copyHeader n buf := by
  ext i hi
  simp [copyHeader, List.getD_eq_getElem?_getD, List.getElem?_append_left (show i < buf.length by omega)]

theorem copyHeader_toList [Inhabited α] {n : Nat} (v : Vector α n) (rest : List α) :
    copyHeader n (v.toList ++ rest) = v := by
  ext i hi
  simp [copyHeader, List.getD_eq_getElem?_getD,
    List.getElem?_append_left (show i < v.toList.length by simpa using hi), hi]

end Stream
