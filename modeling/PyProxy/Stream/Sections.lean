import Mathlib.Data.List.Basic

namespace Sections

inductive Mark (σ : Type) where
  | start (s : σ)
  | stop
  | text
  deriving DecidableEq

variable {ι σ : Type}

def enter (cs : Option σ) : Mark σ → Option σ
  | .start s => some s
  | .stop => none
  | .text => cs

variable (mark : ι → Mark σ)

def owner (cs : Option σ) (l : List ι) : Option σ := l.foldl (fun cs i => enter cs (mark i)) cs

def pick (cs : Option σ) (i : ι) : List ι :=
  match mark i, cs with
  | .text, some _ => [i]
  | _, _ => []

def collected (cs : Option σ) : List ι → List ι
  | [] => []
  | i :: l => pick mark cs i ++ collected (enter cs (mark i)) l

@[simp] theorem owner_nil (cs : Option σ) : owner mark cs [] = cs := rfl

@[simp] theorem owner_cons (cs : Option σ) (i : ι) (l : List ι) :
    owner mark cs (i :: l) = owner mark (enter cs (mark i)) l := rfl

theorem owner_append (cs : Option σ) (l l' : List ι) :
    owner mark cs (l ++ l') = owner mark (owner mark cs l) l' := List.foldl_append

theorem owner_concat_text {i : ι} (cs : Option σ) (l : List ι) (h : mark i = .text) :
    owner mark cs (l ++ [i]) = owner mark cs l := by simp [owner_append, h, enter]

theorem owner_cases (cs : Option σ) (l : List ι) :
    (∀ cs', owner mark cs' l = owner mark cs l) ∨ ∀ cs', owner mark cs' l = cs' := by
  induction l generalizing cs with
  | nil => exact .inr fun _ => rfl
  | cons i l ih =>
    cases h : mark i with
    | start s => exact .inl fun cs' => by simp [h, enter]
    | stop => exact .inl fun cs' => by simp [h, enter]
    | text => simpa [h, enter] using ih cs

theorem owner_of_none {s : σ} {l : List ι} (h : owner mark none l = some s) (cs : Option σ) :
    owner mark cs l = some s := by
  rcases owner_cases mark none l with hall | hid
  · rw [hall, h]
  · rw [hid] at h
    cases h

theorem owner_none_of {cs : Option σ} {l : List ι} (h : owner mark cs l = none) :
    owner mark none l = none := by
  cases hn : owner mark none l with
  | none => rfl
  | some s => rw [owner_of_none mark hn] at h; cases h

theorem collected_append (cs : Option σ) (l l' : List ι) :
    collected mark cs (l ++ l') = collected mark cs l ++ collected mark (owner mark cs l) l' := by
  induction l generalizing cs with
  | nil => rfl
  | cons i l ih => simp [collected, ih]

theorem mem_pick {cs : Option σ} {i j : ι} :
    j ∈ pick mark cs i ↔ j = i ∧ mark i = .text ∧ cs ≠ none := by
  cases hm : mark i <;> cases cs <;> simp [pick, hm]

theorem mem_collected {cs : Option σ} {l : List ι} {i : ι} :
    i ∈ collected mark cs l ↔
      ∃ pre post, l = pre ++ i :: post ∧ mark i = .text ∧ owner mark cs pre ≠ none := by
  induction l generalizing cs with
  | nil => simp [collected]
  | cons j l ih =>
    rw [collected, List.mem_append, mem_pick, ih]
    constructor
    · rintro (⟨rfl, hm, hcs⟩ | ⟨pre, post, rfl, hm, ho⟩)
      · exact ⟨[], l, rfl, hm, hcs⟩
      · exact ⟨j :: pre, post, rfl, hm, ho⟩
    · rintro ⟨pre, post, eq, hm, ho⟩
      cases pre with
      | nil =>
        obtain ⟨rfl, rfl⟩ := List.cons.inj eq
        exact .inl ⟨rfl, hm, ho⟩
      | cons j' pre =>
        obtain ⟨rfl, rfl⟩ := List.cons.inj eq
        exact .inr ⟨pre, post, rfl, hm, ho⟩

theorem collected_sublist (cs : Option σ) (l : List ι) : (collected mark cs l).Sublist l := by
  induction l generalizing cs with
  | nil => exact .slnil
  | cons i l ih =>
    have hpick : (pick mark cs i).Sublist [i] := by
      cases hm : mark i <;> cases cs <;> simp [pick, hm]
    exact hpick.append (ih _)

theorem mem_collected_split {cs : Option σ} {pre post : List ι} {i : ι} (hpre : i ∉ pre)
    (hpost : i ∉ post) (text : mark i = .text) :
    i ∈ collected mark cs (pre ++ i :: post) ↔ owner mark cs pre ≠ none := by
  constructor
  · intro h
    rw [collected_append, collected, List.mem_append, List.mem_append, mem_pick] at h
    rcases h with h | ⟨-, -, ho⟩ | h
    · exact absurd ((collected_sublist mark _ _).subset h) hpre
    · exact ho
    · exact absurd ((collected_sublist mark _ _).subset h) hpost
  · intro ho
    exact (mem_collected mark).mpr ⟨pre, post, rfl, text, ho⟩

def skip (cs : Option σ) (i : ι) : List ι :=
  match mark i, cs with
  | .text, none => [i]
  | _, _ => []

def skipped (cs : Option σ) : List ι → List ι
  | [] => []
  | i :: l => skip mark cs i ++ skipped (enter cs (mark i)) l

theorem skipped_text {pre : List ι} (l : List ι) (h : ∀ i ∈ pre, mark i = .text) :
    skipped mark none (pre ++ l) = pre ++ skipped mark none l := by
  induction pre with
  | nil => rfl
  | cons i pre ih =>
    have hi := h i (by simp)
    rw [List.cons_append, skipped, hi, enter, ih fun j hj => h j (by simp [hj])]
    simp [skip, hi]

theorem owner_text {l : List ι} (h : ∀ i ∈ l, mark i = .text) (cs : Option σ) :
    owner mark cs l = cs := by
  induction l generalizing cs with
  | nil => rfl
  | cons i l ih =>
    rw [owner_cons, h i (by simp), ih fun j hj => h j (by simp [hj])]
    rfl

theorem owner_since {pre mid : List ι} {i : ι} {s : σ} (h : mark i = .start s)
    (hmid : ∀ j ∈ mid, mark j = .text) (cs : Option σ) :
    owner mark cs (pre ++ i :: mid) = some s := by
  rw [owner_append, owner_cons, h, owner_text mark hmid]
  rfl

theorem owner_ext {mark' : ι → Mark σ} {l : List ι} (h : ∀ i ∈ l, mark' i = mark i)
    (cs : Option σ) : owner mark' cs l = owner mark cs l := by
  induction l generalizing cs with
  | nil => rfl
  | cons i l ih =>
    rw [owner_cons, owner_cons, h i (by simp), ih fun j hj => h j (by simp [hj])]

theorem owner_map {κ : Type} {mark' : κ → Mark σ} {f : ι → κ} {l : List ι}
    (h : ∀ i ∈ l, mark' (f i) = mark i) (cs : Option σ) :
    owner mark' cs (l.map f) = owner mark cs l := by
  rw [owner, List.foldl_map]
  exact owner_ext mark h cs

theorem collected_map {κ : Type} {mark' : κ → Mark σ} {f : ι → κ} {l : List ι}
    (h : ∀ i ∈ l, mark' (f i) = mark i) (cs : Option σ) :
    collected mark' cs (l.map f) = (collected mark cs l).map f := by
  induction l generalizing cs with
  | nil => rfl
  | cons i l ih =>
    have hpick : pick mark' cs (f i) = (pick mark cs i).map f := by
      cases hm : mark i <;> cases cs <;> simp [pick, h i (by simp), hm]
    rw [List.map_cons, collected, collected, hpick, h i (by simp),
      ih fun j hj => h j (by simp [hj]), List.map_append]

end Sections
