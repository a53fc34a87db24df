import PyProxy.Master.Pipe

namespace PyProxy.Master
open Stream Protocol Server Lines Sections

namespace Pipe

def Isolated (p : Pipe) (c : Chunk) : Prop :=
  let seen := p.seen ++ c.bytes
  Written p c → ∀ T, inForce seen = some T → c.bound T = true →
    ∀ pre s post S, window seen p.cleared = pre ++ s :: post → spanMark seen s = .text →
      owner (spanMark seen) (inForce p.seen) pre = some S → S = T

def Attributed (p : Pipe) : Prop :=
  ∀ d ∈ p.delivered, inForceAt p.seen d.span.stop = some d.session

def Bounded (p : Pipe) : Prop := ∀ d ∈ p.delivered, d.span.stop < p.seen.length

variable {p p' : Pipe} {c : Chunk}

theorem inForceAt_split {b : List UInt8} {pre post : List Span} {s : Span}
    (h : spans newline b = pre ++ s :: post) (text : spanMark b s = .text) :
    inForceAt b s.stop = owner (spanMark b) none pre := by
  have hsplit := filter_sorted (spansFrom_sorted newline 0 0 b) h
  rw [inForceAt, spans, hsplit, owner_concat_text _ _ _ text]

theorem window_stop (h : p.Inv) {s : Span} (hs : s ∈ window (p.seen ++ c.bytes) p.cleared) :
    s.stop < (p.seen ++ c.bytes).length := by
  have hle := (h.cut.append c.bytes).offset_le
  obtain ⟨t, ht, rfl⟩ := List.mem_map.mp hs
  have hlt := spans_stop newline ht
  rw [List.length_drop] at hlt
  exact Nat.add_lt_of_lt_sub hlt

theorem window_attributed (h : p.Inv) {pre post : List Span} {s : Span} {S : String}
    (hw : window (p.seen ++ c.bytes) p.cleared = pre ++ s :: post)
    (text : spanMark (p.seen ++ c.bytes) s = .text)
    (ho : owner (spanMark (p.seen ++ c.bytes)) (inForce p.seen) pre = some S) :
    inForceAt (p.seen ++ c.bytes) s.stop = some S := by
  have hcut := h.cut.append c.bytes
  have hrun := h.running c.bytes ho
  have hall := early_late hcut
  rw [window, window_spans hcut] at hw
  cases hc : p.cleared with
  | none =>
    rw [hc] at hw hrun
    rw [inForceAt_split hw text]
    exact hrun
  | some r =>
    rw [hc] at hw hrun hall
    cases pre with
    | nil =>
      obtain ⟨rfl, -⟩ := List.cons.inj hw
      rw [List.append_nil] at hrun
      exact hrun
    | cons x pre =>
      obtain ⟨rfl, hlate⟩ := List.cons.inj hw
      have hphantom : spanMark (p.seen ++ c.bytes) ⟨r, r⟩ = .text :=
        @spanMark_retained _ (some r) _ (List.mem_singleton.mpr rfl)
      rw [show late newline (p.seen ++ c.bytes) (some r) = pre ++ s :: post from hlate,
        ← List.append_assoc] at hall
      rw [inForceAt_split hall.symm text, owner_append]
      rw [owner_append, owner_cons, hphantom] at hrun
      exact hrun

theorem mem_handed {d : Delivery} : d ∈ handed p c ↔
    inForce (p.seen ++ c.bytes) = some d.session ∧ c.bound d.session = true ∧
      d.span ∈ collected (spanMark (p.seen ++ c.bytes)) (inForce p.seen)
        (window (p.seen ++ c.bytes) p.cleared) := by
  cases hin : inForce (p.seen ++ c.bytes) with
  | none => simp [handed, hin]
  | some T =>
    simp only [handed, hin]
    split
    · rename_i hb
      constructor
      · intro hd
        obtain ⟨s, hs, rfl⟩ := List.mem_map.mp hd
        exact ⟨rfl, hb, hs⟩
      · rintro ⟨hT, -, hs⟩
        obtain rfl := Option.some.inj hT
        exact List.mem_map.mpr ⟨d.span, hs, rfl⟩
    · rename_i hb
      constructor
      · intro hd
        cases hd
      · rintro ⟨hT, hbound, -⟩
        obtain rfl := Option.some.inj hT
        exact absurd hbound hb

theorem handed_bounded (h : p.Inv) {d : Delivery} (hd : d ∈ handed p c) :
    d.span.stop < (p.seen ++ c.bytes).length := by
  obtain ⟨pre, post, hw, -, -⟩ := (mem_collected _).mp (mem_handed.mp hd).2.2
  exact window_stop h (by simp [hw])

theorem isolated_iff_handed (h : p.Inv) (written : Written p c) : Isolated p c ↔
    ∀ d ∈ handed p c, inForceAt (p.seen ++ c.bytes) d.span.stop = some d.session := by
  constructor
  · intro hi d hd
    obtain ⟨hT, hb, hs⟩ := mem_handed.mp hd
    obtain ⟨pre, post, hw, text, ho⟩ := (mem_collected _).mp hs
    obtain ⟨S, hS⟩ := Option.ne_none_iff_exists'.mp ho
    rw [window_attributed h hw text hS, hi written d.session hT hb pre d.span post S hw text hS]
  · intro ha _ T hT hb pre s post S hw text ho
    have hs : s ∈ collected (spanMark (p.seen ++ c.bytes)) (inForce p.seen)
        (window (p.seen ++ c.bytes) p.cleared) :=
      (mem_collected _).mpr ⟨pre, post, hw, text, by simp [ho]⟩
    have hd := ha ⟨T, s⟩ (mem_handed.mpr ⟨hT, hb, hs⟩)
    rw [window_attributed h hw text ho] at hd
    exact Option.some.inj hd

theorem step_bounded (h : p.Inv) (hb : Bounded p) (hs : p.step c = some p') : Bounded p' := by
  obtain ⟨hseen, ⟨-, -, hd⟩ | ⟨-, -, hd, -⟩⟩ := step_spec h hs
  all_goals
    intro d hmem
    rw [hd] at hmem
    rw [hseen]
  · exact Nat.lt_of_lt_of_le (hb d hmem) (by simp)
  · rcases List.mem_append.mp hmem with hold | hnew
    · exact Nat.lt_of_lt_of_le (hb d hold) (by simp)
    · exact handed_bounded h hnew

theorem attributed_seen (hb : Bounded p) (extra : List UInt8) :
    (∀ d ∈ p.delivered, inForceAt (p.seen ++ extra) d.span.stop = some d.session) ↔
      Attributed p := by
  constructor
  · intro h d hd
    rw [← inForceAt_append extra (hb d hd)]
    exact h d hd
  · intro h d hd
    rw [inForceAt_append extra (hb d hd)]
    exact h d hd

theorem step_attributed (h : p.Inv) (hb : Bounded p) (hs : p.step c = some p') :
    Attributed p' ↔ Attributed p ∧ Isolated p c := by
  obtain ⟨hseen, ⟨hw, -, hd⟩ | ⟨hw, -, hd, -⟩⟩ := step_spec h hs
  · have hi : Isolated p c := fun hyes => absurd hyes hw
    rw [Attributed, hd, hseen, attributed_seen hb]
    exact ⟨fun ha => ⟨ha, hi⟩, And.left⟩
  · rw [isolated_iff_handed h hw, Attributed, hd, hseen, ← attributed_seen hb c.bytes]
    simp only [List.mem_append]
    exact ⟨fun ha => ⟨fun d hd => ha d (.inl hd), fun d hd => ha d (.inr hd)⟩,
      fun ha d hd => hd.elim (ha.1 d) (ha.2 d)⟩

theorem inv_fresh : fresh.Inv where
  buffer := rfl
  cut := trivial
  session := rfl
  fresh S hS := by cases hS

theorem run_inv {chunks : List Chunk} (run : machine.exec chunks = some p) :
    (p.broken = false → p.Inv) ∧ Bounded p := by
  refine @Machine.invariant _ _ machine (fun p => (p.broken = false → p.Inv) ∧ Bounded p)
    ⟨fun _ => inv_fresh, fun d hd => by cases hd⟩ ?_ _ _ run
  rintro p c p' ⟨hi, hb⟩ hs
  have h := hi (step_running hs)
  refine ⟨fun hrunning => ?_, step_bounded h hb hs⟩
  obtain ⟨-, ⟨-, hbroken, -⟩ | ⟨-, hinv, -⟩⟩ := step_spec h hs
  · rw [hbroken] at hrunning
    cases hrunning
  · exact hinv

theorem isolated_iff {chunks : List Chunk} (run : machine.exec chunks = some p) :
    (∀ d ∈ p.delivered, inForceAt p.seen d.span.stop = some d.session) ↔
      machine.Along Isolated chunks := by
  induction chunks using List.reverseRecOn generalizing p with
  | nil =>
    obtain rfl := Option.some.inj run
    exact ⟨fun _ => Machine.along_nil, fun _ d hd => by cases hd⟩
  | append_singleton chunks c ih =>
    obtain ⟨p₀, hp₀, hs⟩ := machine.exec_concat_some run
    obtain ⟨hi, hb⟩ := run_inv hp₀
    have hstep := step_attributed (hi (step_running hs)) hb hs
    rw [Machine.along_concat, ← ih hp₀]
    refine hstep.trans (and_congr_right fun _ => ⟨fun h s hs₀ => ?_, fun h => h p₀ hp₀⟩)
    rw [hp₀] at hs₀
    obtain rfl := Option.some.inj hs₀
    exact h

def sessionA : String := String.ofList (List.replicate 32 'a')

def sessionB : String := String.ofList (List.replicate 32 'b')

def startLine (sessionId : String) : List UInt8 :=
  asBytes newRequestStart ++ asBytes sessionId ++ [newline]

def endLine : List UInt8 := asBytes newRequestEnd ++ [newline]

def arrival (bytes : List UInt8) : Chunk := ⟨bytes, fun _ => true, fun _ => .ok ()⟩

def separate : List Chunk :=
  [arrival (startLine sessionA ++ asBytes "x\n"), arrival endLine,
    arrival (startLine sessionB ++ asBytes "y\n")]

theorem isolated_iff_separate : (machine.exec separate).map (·.delivered.length) = some 2 ∧
    machine.Along Isolated separate := by
  have hrun : (machine.exec separate).map (fun p => p.delivered.all fun d =>
      inForceAt p.seen d.span.stop = some d.session) = some true := by decide +kernel
  obtain ⟨p, hp, hall⟩ := Option.map_eq_some_iff.mp hrun
  refine ⟨by decide +kernel, (isolated_iff hp).mp fun d hd => ?_⟩
  exact of_decide_eq_true (List.all_eq_true.mp hall d hd)

def mixed : Chunk :=
  arrival (startLine sessionA ++ asBytes "x\n" ++ startLine sessionB ++ asBytes "y\n")

theorem mixed_misattributed : ¬ ∀ p, machine.exec [mixed] = some p →
    ∀ d ∈ p.delivered, inForceAt p.seen d.span.stop = some d.session := by
  have hrun : (machine.exec [mixed]).map (fun p => (p.seen, p.delivered)) =
      some (mixed.bytes, [⟨sessionB, ⟨97, 98⟩⟩, ⟨sessionB, ⟨196, 197⟩⟩]) := by decide +kernel
  have hforce : inForceAt mixed.bytes 98 = some sessionA := by decide +kernel
  have hne : sessionA ≠ sessionB := by decide +kernel
  obtain ⟨p, hp, heq⟩ := Option.map_eq_some_iff.mp hrun
  obtain ⟨hseen, hd⟩ := Prod.mk.inj heq
  intro h
  have hx := h p hp ⟨sessionB, ⟨97, 98⟩⟩ (by simp [hd])
  rw [hseen, hforce] at hx
  exact hne (Option.some.inj hx)

end Pipe
end PyProxy.Master
