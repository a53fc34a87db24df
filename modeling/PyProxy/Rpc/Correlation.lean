import Mathlib.Data.List.AList
import Mathlib.Data.List.Induction
import Mathlib.Data.List.Nodup

namespace Rpc

variable {κ φ ρ : Type}

inductive Entry (κ φ ρ : Type) where
  | submit (k : κ) (f : φ)
  | respond (k : κ) (r : ρ)

structure Table (κ φ ρ : Type) where
  pending : AList fun _ : κ => φ
  resolved : List (φ × ρ)

def Entry.submitted : Entry κ φ ρ → Option (κ × φ)
  | .submit k f => some (k, f)
  | .respond _ _ => none

def Entry.responded : Entry κ φ ρ → Option (κ × ρ)
  | .submit _ _ => none
  | .respond k r => some (k, r)

def submits (h : List (Entry κ φ ρ)) : List (κ × φ) := h.filterMap Entry.submitted

def responses (h : List (Entry κ φ ρ)) : List (κ × ρ) := h.filterMap Entry.responded

@[simp] theorem submits_append (g h : List (Entry κ φ ρ)) :
    submits (g ++ h) = submits g ++ submits h := List.filterMap_append

@[simp] theorem submits_submit (k : κ) (f : φ) (h : List (Entry κ φ ρ)) :
    submits (.submit k f :: h) = (k, f) :: submits h := rfl

@[simp] theorem submits_respond (k : κ) (r : ρ) (h : List (Entry κ φ ρ)) :
    submits (.respond k r :: h) = submits h := rfl

@[simp] theorem submits_nil : submits ([] : List (Entry κ φ ρ)) = [] := rfl

theorem concat_split {h pre post : List (Entry κ φ ρ)} {e : Entry κ φ ρ} {k : κ} {f : φ}
    (eq : h ++ [e] = pre ++ .submit k f :: post) :
    (post = [] ∧ e = .submit k f ∧ h = pre) ∨
      ∃ post', post = post' ++ [e] ∧ h = pre ++ .submit k f :: post' := by
  induction post using List.reverseRecOn with
  | nil =>
    obtain ⟨rfl, he⟩ := List.append_inj' eq rfl
    exact .inl ⟨rfl, List.singleton_inj.mp he, rfl⟩
  | append_singleton post' e' =>
    rw [← List.cons_append, ← List.append_assoc] at eq
    obtain ⟨rfl, he⟩ := List.append_inj' eq rfl
    obtain rfl := List.singleton_inj.mp he
    exact .inr ⟨post', rfl, rfl⟩

theorem submits_unique {h : List (Entry κ φ ρ)} (handles : ((submits h).map Prod.snd).Nodup)
    {k k' : κ} {f : φ} (hk : (k, f) ∈ submits h) (hk' : (k', f) ∈ submits h) : k = k' := by
  have := List.inj_on_of_nodup_map handles hk hk' rfl
  exact (Prod.mk.inj this).1

variable [DecidableEq κ]

def Table.empty : Table κ φ ρ := ⟨∅, []⟩

def Table.apply (t : Table κ φ ρ) : Entry κ φ ρ → Table κ φ ρ
  | .submit k f => { t with pending := t.pending.insert k f }
  | .respond k r =>
    match t.pending.lookup k with
    | none => t
    | some f => { pending := t.pending.erase k, resolved := t.resolved ++ [(f, r)] }

def replay (h : List (Entry κ φ ρ)) : Table κ φ ρ := h.foldl Table.apply .empty

@[simp] theorem replay_concat (h : List (Entry κ φ ρ)) (e : Entry κ φ ρ) :
    replay (h ++ [e]) = (replay h).apply e := by simp [replay, List.foldl_append]

def answer (k : κ) (h : List (Entry κ φ ρ)) : Option ρ :=
  h.findSome? fun
    | .submit _ _ => none
    | .respond k' r => if k' = k then some r else none

theorem answer_concat_submit (k k' : κ) (f : φ) (h : List (Entry κ φ ρ)) :
    answer k (h ++ [.submit k' f]) = answer k h := by
  simp [answer, List.findSome?_append]

theorem answer_concat_respond (k k' : κ) (r : ρ) (h : List (Entry κ φ ρ)) :
    answer k (h ++ [.respond k' r]) = (answer k h).or (if k' = k then some r else none) := by
  simp [answer, List.findSome?_append]

def Waiting (h : List (Entry κ φ ρ)) (k : κ) (f : φ) : Prop :=
  ∃ pre post, h = pre ++ .submit k f :: post ∧ answer k post = none

theorem waiting_concat_submit {h : List (Entry κ φ ρ)} {k k' : κ} {f f' : φ} :
    Waiting (h ++ [.submit k' f']) k f ↔ (k' = k ∧ f' = f) ∨ Waiting h k f := by
  constructor
  · rintro ⟨pre, post, eq, ha⟩
    rcases concat_split eq with ⟨-, he, -⟩ | ⟨post', rfl, rfl⟩
    · obtain ⟨rfl, rfl⟩ := Entry.submit.inj he
      exact .inl ⟨rfl, rfl⟩
    · exact .inr ⟨pre, post', rfl, by rwa [answer_concat_submit] at ha⟩
  · rintro (⟨rfl, rfl⟩ | ⟨pre, post, rfl, ha⟩)
    · exact ⟨h, [], rfl, rfl⟩
    · exact ⟨pre, post ++ [.submit k' f'], by simp, by rwa [answer_concat_submit]⟩

theorem waiting_concat_respond {h : List (Entry κ φ ρ)} {k k' : κ} {f : φ} {r : ρ} :
    Waiting (h ++ [.respond k' r]) k f ↔ k' ≠ k ∧ Waiting h k f := by
  constructor
  · rintro ⟨pre, post, eq, ha⟩
    rcases concat_split eq with ⟨-, he, -⟩ | ⟨post', rfl, rfl⟩
    · cases he
    · rw [answer_concat_respond, Option.or_eq_none_iff] at ha
      exact ⟨by simpa using ha.2, pre, post', rfl, ha.1⟩
  · rintro ⟨hne, pre, post, rfl, ha⟩
    refine ⟨pre, post ++ [.respond k' r], by simp, ?_⟩
    rw [answer_concat_respond, ha, if_neg hne]
    rfl

theorem Waiting.mem_submits {h : List (Entry κ φ ρ)} {k : κ} {f : φ} (w : Waiting h k f) :
    (k, f) ∈ submits h := by
  obtain ⟨pre, post, rfl, -⟩ := w
  simp

theorem lookup_pending {h : List (Entry κ φ ρ)} (keys : ((submits h).map Prod.fst).Nodup)
    (k : κ) (f : φ) : (replay h).pending.lookup k = some f ↔ Waiting h k f := by
  induction h using List.reverseRecOn with
  | nil =>
    constructor
    · intro hl
      simp [replay, Table.empty] at hl
    · rintro ⟨pre, post, eq, -⟩
      simp at eq
  | append_singleton h e ih =>
    cases e with
    | submit k' f' =>
      simp only [submits_append, submits_submit, submits_nil, List.map_append, List.map_cons,
        List.map_nil, List.nodup_append, List.mem_singleton] at keys
      rw [replay_concat, waiting_concat_submit, ← ih keys.1]
      simp only [Table.apply]
      by_cases hk : k = k'
      · subst hk
        have hnot : (replay h).pending.lookup k ≠ some f := by
          intro hl
          have hm := ((ih keys.1).mp hl).mem_submits
          exact keys.2.2 k (List.mem_map.mpr ⟨_, hm, rfl⟩) k rfl rfl
        simp [hnot]
      · rw [AList.lookup_insert_ne hk]
        simp [Ne.symm hk]
    | respond k' r =>
      simp only [submits_append, submits_respond, submits_nil, List.append_nil] at keys
      rw [replay_concat, waiting_concat_respond, ← ih keys]
      simp only [Table.apply]
      by_cases hk : k' = k
      · subst hk
        cases hl : (replay h).pending.lookup k' with
        | none => simp [hl]
        | some g => simp
      · cases hl : (replay h).pending.lookup k' with
        | none => simp [hk]
        | some g => simp [hk, AList.lookup_erase_ne (Ne.symm hk)]

theorem resolved_submitted {h : List (Entry κ φ ρ)} (keys : ((submits h).map Prod.fst).Nodup)
    {f : φ} {r : ρ} (hr : (f, r) ∈ (replay h).resolved) : f ∈ (submits h).map Prod.snd := by
  induction h using List.reverseRecOn with
  | nil => simp [replay, Table.empty] at hr
  | append_singleton h e ih =>
    rw [replay_concat] at hr
    cases e with
    | submit k' f' =>
      simp only [submits_append, submits_submit, submits_nil, List.map_append, List.nodup_append]
        at keys
      simp only [submits_append, List.map_append, List.mem_append]
      exact .inl (ih keys.1 hr)
    | respond k' r' =>
      simp only [submits_append, submits_respond, submits_nil, List.append_nil] at keys ⊢
      simp only [Table.apply] at hr
      cases hl : (replay h).pending.lookup k' with
      | none => exact ih keys (by simpa [hl] using hr)
      | some g =>
        simp only [hl, List.mem_append, List.mem_singleton, Prod.mk.injEq] at hr
        rcases hr with hr | ⟨rfl, -⟩
        · exact ih keys hr
        · exact List.mem_map.mpr ⟨_, ((lookup_pending keys k' f).mp hl).mem_submits, rfl⟩

variable [DecidableEq φ]

def results (t : Table κ φ ρ) (f : φ) : List ρ :=
  (t.resolved.filter fun p => p.1 = f).map Prod.snd

theorem results_unsubmitted {h : List (Entry κ φ ρ)} (keys : ((submits h).map Prod.fst).Nodup)
    {f : φ} (hf : f ∉ (submits h).map Prod.snd) : results (replay h) f = [] := by
  simp only [results, List.map_eq_nil_iff, List.filter_eq_nil_iff]
  rintro ⟨g, r⟩ hr heq
  obtain rfl : g = f := by simpa using heq
  exact hf (resolved_submitted keys hr)

theorem results_answer {h : List (Entry κ φ ρ)} (keys : ((submits h).map Prod.fst).Nodup)
    (handles : ((submits h).map Prod.snd).Nodup) {pre post : List (Entry κ φ ρ)} {k : κ} {f : φ}
    (eq : h = pre ++ .submit k f :: post) : results (replay h) f = (answer k post).toList := by
  induction h using List.reverseRecOn generalizing pre post with
  | nil => simp at eq
  | append_singleton h e ih =>
    rcases concat_split eq with ⟨rfl, rfl, rfl⟩ | ⟨post', rfl, hh⟩
    · -- the submission is the last entry: its handle has no result yet
      simp only [submits_append, submits_submit, submits_nil, List.map_append, List.map_cons,
        List.map_nil, List.nodup_append, List.mem_singleton] at keys handles
      have hf : f ∉ (submits h).map Prod.snd := fun hm => handles.2.2 f hm f rfl rfl
      have hres := results_unsubmitted keys.1 hf
      rw [replay_concat]
      exact hres
    · rw [replay_concat]
      cases e with
      | submit k' f' =>
        simp only [submits_append, submits_submit, submits_nil, List.map_append,
          List.nodup_append] at keys handles
        rw [answer_concat_submit, ← ih keys.1 handles.1 hh]
        rfl
      | respond k' r =>
        simp only [submits_append, submits_respond, submits_nil, List.append_nil] at keys handles
        have hprev := ih keys handles hh
        have hsub : (k, f) ∈ submits h := by simp [hh]
        rw [answer_concat_respond]
        simp only [Table.apply]
        cases hl : (replay h).pending.lookup k' with
        | none =>
          rw [hprev]
          by_cases hk : k' = k
          · subst hk
            cases ha : answer k' post' with
            | none =>
              have hw := (lookup_pending keys k' f).mpr ⟨pre, post', hh, ha⟩
              simp [hl] at hw
            | some r' => simp
          · simp [hk]
        | some g =>
          have hw := (lookup_pending keys k' g).mp hl
          by_cases hg : g = f
          · subst hg
            obtain rfl := submits_unique handles hw.mem_submits hsub
            obtain ⟨pre', post'', hh', ha⟩ := hw
            have hnone := ih keys handles hh'
            rw [hprev, ha] at hnone
            have hpost : answer k' post' = none := by simpa using hnone
            simp only [results] at hprev ⊢
            simp [hprev, hpost]
          · have hk : k' ≠ k := by
              rintro rfl
              have := List.inj_on_of_nodup_map keys hw.mem_submits hsub rfl
              exact hg (Prod.mk.inj this).2
            simp only [results] at hprev ⊢
            simp [hprev, hg, hk]

def InTime (h : List (Entry κ φ ρ)) : Prop :=
  ∀ pre k r post, h = pre ++ .respond k r :: post → ∃ f, Waiting pre k f

omit [DecidableEq φ] in
theorem inTime_concat {h : List (Entry κ φ ρ)} {e : Entry κ φ ρ} (time : InTime h)
    (last : ∀ k r, e = .respond k r → ∃ f, Waiting h k f) : InTime (h ++ [e]) := by
  intro pre k r post eq
  rcases List.eq_nil_or_concat post with rfl | ⟨post, x, rfl⟩
  · obtain ⟨rfl, same⟩ := List.append_inj' eq rfl
    exact last k r (List.singleton_inj.mp same)
  · rw [List.concat_eq_append, ← List.cons_append, ← List.append_assoc] at eq
    exact time pre k r post (List.append_inj' eq rfl).1

omit [DecidableEq φ] in
theorem answer_append_respond {k : κ} {g post : List (Entry κ φ ρ)} (r : ρ)
    (h : answer k g = none) : answer k (g ++ .respond k r :: post) = some r := by
  simp only [answer] at h
  simp [answer, List.findSome?_append, h]

theorem results_responded {h : List (Entry κ φ ρ)} (keys : ((submits h).map Prod.fst).Nodup)
    (handles : ((submits h).map Prod.snd).Nodup) (time : InTime h) {k : κ} {f : φ} {r : ρ}
    (hr : (k, r) ∈ responses h) (hs : (k, f) ∈ submits h) : results (replay h) f = [r] := by
  obtain ⟨e, he, hre⟩ := List.mem_filterMap.mp hr
  obtain ⟨p, q, rfl⟩ := List.append_of_mem he
  cases e with
  | submit => simp [Entry.responded] at hre
  | respond k' r' =>
    obtain ⟨rfl, rfl⟩ : k' = k ∧ r' = r := by simpa [Entry.responded] using hre
    obtain ⟨g, hw⟩ := time p k' r' q rfl
    have hg : g = f := by
      have hm : (k', g) ∈ submits (p ++ .respond k' r' :: q) := by
        simp [hw.mem_submits]
      exact (Prod.mk.inj (List.inj_on_of_nodup_map keys hm hs rfl)).2
    subst hg
    obtain ⟨pre, post, rfl, ha⟩ := hw
    rw [results_answer keys handles (show _ = pre ++ .submit k' g :: (post ++ .respond k' r' :: q) by simp),
      answer_append_respond r' ha]
    rfl

omit [DecidableEq φ] in
theorem answer_none {k : κ} {h : List (Entry κ φ ρ)} (hn : ∀ r, (k, r) ∉ responses h) :
    answer k h = none := by
  simp only [answer, List.findSome?_eq_none_iff]
  intro e he
  cases e with
  | submit => rfl
  | respond k' r =>
    have hk : k' ≠ k := by
      rintro rfl
      exact hn r (List.mem_filterMap.mpr ⟨_, he, rfl⟩)
    simp [hk]

def Owns (h : List (Entry κ φ ρ)) (k : κ) (f : φ) : Prop :=
  ∀ p ∈ submits h, p.1 = k ↔ p.2 = f

theorem results_silent {h : List (Entry κ φ ρ)} (keys : ((submits h).map Prod.fst).Nodup)
    (handles : ((submits h).map Prod.snd).Nodup) {k : κ} {f : φ} (own : Owns h k f)
    (hn : ∀ r, (k, r) ∉ responses h) : results (replay h) f = [] := by
  by_cases hf : f ∈ (submits h).map Prod.snd
  · obtain ⟨⟨k', f'⟩, hs, rfl⟩ := List.mem_map.mp hf
    obtain rfl := (own _ hs).mpr rfl
    obtain ⟨e, he, hse⟩ := List.mem_filterMap.mp hs
    obtain ⟨p, q, rfl⟩ := List.append_of_mem he
    cases e with
    | respond => simp [Entry.submitted] at hse
    | submit k f =>
      obtain ⟨rfl, rfl⟩ : k = k' ∧ f = f' := by simpa [Entry.submitted] using hse
      have hq : ∀ r, (k, r) ∉ responses q := by
        intro r hm
        apply hn r
        simp only [responses, List.filterMap_append, List.mem_append, List.filterMap_cons]
        exact .inr hm
      rw [results_answer keys handles rfl, answer_none hq]
      rfl
  · exact results_unsubmitted keys hf

theorem results_responded_owner {h : List (Entry κ φ ρ)} (keys : ((submits h).map Prod.fst).Nodup)
    (handles : ((submits h).map Prod.snd).Nodup) (time : InTime h) {k : κ} {f : φ} {r : ρ}
    (own : Owns h k f) (hr : (k, r) ∈ responses h) : results (replay h) f = [r] := by
  obtain ⟨e, he, hre⟩ := List.mem_filterMap.mp hr
  obtain ⟨p, q, rfl⟩ := List.append_of_mem he
  cases e with
  | submit => simp [Entry.responded] at hre
  | respond k' r' =>
    obtain ⟨rfl, rfl⟩ : k' = k ∧ r' = r := by simpa [Entry.responded] using hre
    obtain ⟨g, hw⟩ := time p k' r' q rfl
    have hs : (k', g) ∈ submits (p ++ .respond k' r' :: q) := by simp [hw.mem_submits]
    obtain rfl : g = f := (own _ hs).mp rfl
    exact results_responded keys handles time hr hs

theorem results_perm {g h : List (Entry κ φ ρ)} (keysG : ((submits g).map Prod.fst).Nodup)
    (handlesG : ((submits g).map Prod.snd).Nodup) (keysH : ((submits h).map Prod.fst).Nodup)
    (handlesH : ((submits h).map Prod.snd).Nodup) (timeG : InTime g) (timeH : InTime h)
    (perm : (responses g).Perm (responses h)) {k : κ} {f f' : φ} (ownG : Owns g k f)
    (ownH : Owns h k f') : results (replay g) f = results (replay h) f' := by
  by_cases hr : ∃ r, (k, r) ∈ responses g
  · obtain ⟨r, hr⟩ := hr
    rw [results_responded_owner keysG handlesG timeG ownG hr,
      results_responded_owner keysH handlesH timeH ownH (perm.mem_iff.mp hr)]
  · have hg : ∀ r, (k, r) ∉ responses g := fun r hm => hr ⟨r, hm⟩
    have hh : ∀ r, (k, r) ∉ responses h := fun r hm => hr ⟨r, perm.mem_iff.mpr hm⟩
    rw [results_silent keysG handlesG ownG hg, results_silent keysH handlesH ownH hh]

def respond (m : κ × ρ) : Entry κ φ ρ := .respond m.1 m.2

omit [DecidableEq φ] in
theorem Table.resolved_initial (t : Table κ φ ρ) (h : List (Entry κ φ ρ)) :
    t.resolved <+: (h.foldl Table.apply t).resolved := by
  induction h generalizing t with
  | nil => exact List.prefix_rfl
  | cons e h ih =>
    refine List.IsPrefix.trans ?_ (ih (t.apply e))
    cases e with
    | submit k f => exact List.prefix_rfl
    | respond k r =>
      cases hk : t.pending.lookup k with
      | none => simp [Table.apply, hk]
      | some f => simp [Table.apply, hk]

omit [DecidableEq φ] in
theorem Table.resolves_nothing_iff {t : Table κ φ ρ} {ms : List (κ × ρ)} :
    ((ms.map respond).foldl Table.apply t).resolved = t.resolved ↔
      ∀ m ∈ ms, t.pending.lookup m.1 = none := by
  induction ms generalizing t with
  | nil => simp
  | cons m ms ih =>
    rw [List.map_cons, List.foldl_cons, List.forall_mem_cons]
    cases hm : t.pending.lookup m.1 with
    | none =>
      have same : t.apply (respond m) = t := by simp [Table.apply, respond, hm]
      rw [same, ih]
      simp
    | some f =>
      refine iff_of_false ?_ (by simp)
      intro same
      have grown := ((t.apply (respond m)).resolved_initial (ms.map respond)).length_le
      rw [same] at grown
      have resolved : (t.apply (respond m)).resolved = t.resolved ++ [(f, m.2)] := by
        simp [Table.apply, respond, hm]
      rw [resolved, List.length_append, List.length_singleton] at grown
      omega

-- the handles that the table still knows, and those it has resolved
def Table.handles (t : Table κ φ ρ) : List φ := t.pending.entries.map Sigma.snd ++ t.resolved.map Prod.fst

omit [DecidableEq φ] in
theorem Table.handles_submit (t : Table κ φ ρ) (k : κ) (f : φ) :
    (t.apply (.submit k f)).handles.Subperm (f :: t.handles) := by
  have kept := (List.kerase_sublist k t.pending.entries).map Sigma.snd
  simp only [handles, apply, AList.entries_insert, List.map_cons, List.cons_append]
  exact ((kept.append (List.Sublist.refl _)).cons_cons f).subperm

omit [DecidableEq φ] in
theorem Table.handles_respond (t : Table κ φ ρ) (k : κ) (r : ρ) :
    (t.apply (.respond k r)).handles.Perm t.handles := by
  cases hk : t.pending.lookup k with
  | none => simp [apply, hk]
  | some f =>
    have held := AList.mem_lookup_iff.mp hk
    obtain ⟨g, before, after, -, split, erased⟩ :=
      List.exists_of_kerase (List.mem_keys_of_mem held)
    obtain rfl : f = g := t.pending.nodupKeys.eq_of_mk_mem held (by simp [split])
    have entries : (t.pending.erase k).entries = before ++ after := erased
    simp only [handles, apply, hk, entries, split, List.map_append, List.map_cons, List.map_nil,
      List.append_assoc, List.cons_append]
    refine List.Perm.append_left _ ?_
    rw [← List.append_assoc]
    exact List.perm_append_singleton f _

omit [DecidableEq φ] in
theorem replay_handles (h : List (Entry κ φ ρ)) :
    (replay h).handles.Subperm ((submits h).map Prod.snd) := by
  induction h using List.reverseRecOn with
  | nil => exact List.nil_subperm
  | append_singleton h e ih =>
    rw [replay_concat]
    cases e with
    | submit k f =>
      rw [submits_append, submits_submit, submits_nil, List.map_append, List.map_singleton]
      have added := ((replay h).handles_submit k f).trans ((List.subperm_cons f).mpr ih)
      exact added.trans (List.perm_append_singleton f _).symm.subperm
    | respond k r =>
      rw [submits_append, submits_respond, submits_nil, List.append_nil]
      exact ((replay h).handles_respond k r).subperm.trans ih

end Rpc
