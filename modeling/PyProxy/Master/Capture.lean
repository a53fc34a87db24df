import PyProxy.Master.Isolation

namespace PyProxy.Master
open Stream Protocol Server Lines Sections

structure Block where
  session : String
  lines : List (List UInt8)

namespace Block

def head (b : Block) : List UInt8 := asBytes newRequestStart ++ asBytes b.session

def rows (b : Block) : List (List UInt8) := b.head :: b.lines ++ [asBytes newRequestEnd]

def bytes (b : Block) : List UInt8 := unlines newline b.rows

structure Valid (b : Block) : Prop where
  session : (asBytes b.session).length = sessionIdLength * 2
  clean : newline ∉ asBytes b.session
  lines : ∀ l ∈ b.lines, newline ∉ l ∧ lineMark l = .text

end Block

def stream (bs : List Block) : List UInt8 := bs.flatMap Block.bytes

structure Placed where
  session : String
  marker : Nat
  span : Span

def Block.placed (pos : Nat) (b : Block) : List Placed :=
  (place (pos + b.head.length + 1) b.lines).map fun s => ⟨b.session, pos + b.head.length, s⟩

def placed (pos : Nat) : List Block → List Placed
  | [] => []
  | b :: bs => b.placed pos ++ placed (pos + b.bytes.length) bs

def Placed.Lies (l : Placed) (b : List UInt8) : Prop :=
  ∃ pre t mid post, spans newline b = pre ++ t :: (mid ++ l.span :: post) ∧
    t.stop = l.marker ∧ spanMark b t = .start l.session ∧
    (∀ s ∈ mid, spanMark b s = .text) ∧ spanMark b l.span = .text

namespace Pipe

def bytesOf (chunks : List Chunk) : List UInt8 := chunks.flatMap (·.bytes)

structure CoveredAt (before : List Chunk) (c : Chunk) (l : Placed) : Prop where
  ended : l.span.stop < (bytesOf (before ++ [c])).length
  session : inForce (bytesOf (before ++ [c])) = some l.session
  written : ∃ p, machine.exec before = some p ∧ Written p c
  first : ∀ cut, cut <+: before → l.span.stop < (bytesOf cut).length → inForce (bytesOf cut) = none
  whole : (bytesOf before).length ≤ l.span.stop ∨ ∀ cut, cut <+: before →
    ¬ (l.marker < (bytesOf cut).length ∧ (bytesOf cut).length ≤ l.span.stop)

def Covered (chunks : List Chunk) (l : Placed) : Prop :=
  ∃ before c after, chunks = before ++ c :: after ∧ CoveredAt before c l

end Pipe

namespace Placed.Lies

variable {l : Placed} {b c : List UInt8}

theorem initial (h : l.Lies (b ++ c)) (hlt : l.span.stop < b.length) : l.Lies b := by
  obtain ⟨pre, t, mid, post, hspans, hstop, hstart, hmid, htext⟩ := h
  have heq : spans newline (b ++ c) = (pre ++ t :: mid) ++ l.span :: post := by simp [hspans]
  have hb : spans newline b = (pre ++ t :: mid) ++ l.span :: post.filter fun s => s.stop < b.length :=
    (spans_initial b c).trans (filter_keep (spansFrom_sorted newline 0 0 _) heq hlt)
  have hmark : ∀ s ∈ spans newline b, spanMark b s = spanMark (b ++ c) s :=
    fun s hs => (spanMark_append c hs).symm
  refine ⟨pre, t, mid, _, by rw [hb, List.append_assoc, List.cons_append], hstop, ?_, ?_, ?_⟩
  · rw [hmark t (by simp [hb]), hstart]
  · intro s hs
    rw [hmark s (by simp [hb, hs]), hmid s hs]
  · rw [hmark l.span (by simp [hb]), htext]

theorem inside (h : l.Lies (b ++ c)) (hm : l.marker < b.length) (hk : b.length ≤ l.span.stop) :
    inForce b = some l.session := by
  obtain ⟨pre, t, mid, post, hspans, hstop, hstart, hmid, -⟩ := h
  have hsorted := spansFrom_sorted newline 0 0 (b ++ c)
  have heq : spans newline (b ++ c) = (pre ++ t :: mid) ++ l.span :: post := by simp [hspans]
  have hcut := (spans_initial b c).trans (filter_cut hsorted heq hk)
  have hpart : (pre ++ t :: mid).Pairwise fun s t => s.stop < t.stop := by
    rw [← spans, heq] at hsorted
    exact (List.pairwise_append.mp hsorted).1
  rw [filter_keep hpart rfl (by rw [hstop]; exact hm)] at hcut
  have howner : owner (spanMark b) none (spans newline b) =
      owner (spanMark (b ++ c)) none (spans newline b) :=
    (owner_ext _ (fun s hs => spanMark_append c hs) none).symm
  rw [inForce, howner, hcut]
  exact owner_since _ hstart (fun s hs => hmid s (List.mem_filter.mp hs).1) none

theorem last (h : l.Lies b) (hall : ∀ s ∈ spans newline b, s.stop ≤ l.span.stop) :
    inForce b = some l.session := by
  obtain ⟨pre, t, mid, post, hspans, -, hstart, hmid, htext⟩ := h
  have heq : spans newline b = (pre ++ t :: mid) ++ l.span :: post := by simp [hspans]
  obtain ⟨-, hpost⟩ := sorted_split (spansFrom_sorted newline 0 0 b) heq
  have hnil : post = [] := by
    rw [List.eq_nil_iff_forall_not_mem]
    intro s hs
    exact absurd (hall s (by simp [hspans, hs])) (Nat.not_le.mpr (hpost s hs))
  rw [inForce, hspans, hnil]
  refine owner_since _ hstart (fun s hs => ?_) none
  rcases List.mem_append.mp hs with hs | hs
  · exact hmid s hs
  · rw [List.mem_singleton.mp hs, htext]

theorem stop_mem (h : l.Lies b) : l.span ∈ spans newline b := by
  obtain ⟨pre, t, mid, post, hspans, -⟩ := h
  simp [hspans]

theorem marker_mem (h : l.Lies b) : ∃ t ∈ spans newline b, t.stop = l.marker := by
  obtain ⟨pre, t, mid, post, hspans, hstop, -⟩ := h
  exact ⟨t, by simp [hspans], hstop⟩

end Placed.Lies

namespace Pipe

variable {p p' : Pipe} {c : Chunk} {l : Placed}

theorem retained_not_mem {s : Span} {o : Option Nat} (h : ∀ r, o = some r → r < s.stop) :
    s ∉ retained o := by
  intro hmem
  cases o with
  | none => simp [retained] at hmem
  | some r =>
    have hr := h r rfl
    rw [List.mem_singleton.mp hmem] at hr
    exact Nat.lt_irrefl r hr

theorem captured_iff (h : p.Inv) (lies : l.Lies (p.seen ++ c.bytes))
    (before : ∀ r, p.cleared = some r → r < l.span.stop) :
    l.span ∈ collected (spanMark (p.seen ++ c.bytes)) (inForce p.seen)
        (window (p.seen ++ c.bytes) p.cleared) ↔
      (∀ r, p.cleared = some r → r < l.marker) ∨ inForce p.seen ≠ none := by
  obtain ⟨pre, t, mid, post, hspans, hstop, hstart, hmid, htext⟩ := lies
  have hsorted := spansFrom_sorted newline 0 0 (p.seen ++ c.bytes)
  have heq : spans newline (p.seen ++ c.bytes) = (pre ++ t :: mid) ++ l.span :: post := by
    simp [hspans]
  obtain ⟨hbefore, hafter⟩ := sorted_split hsorted heq
  have hpart : (pre ++ t :: mid).Pairwise fun s t => s.stop < t.stop := by
    rw [← spans, heq] at hsorted
    exact (List.pairwise_append.mp hsorted).1
  have hpost : l.span ∉ post := fun hmem => Nat.lt_irrefl _ (hafter _ hmem)
  have hpre : ∀ part, (∀ s ∈ part, s ∈ pre ++ t :: mid) → l.span ∉ retained p.cleared ++ part := by
    intro part hpart hmem
    rcases List.mem_append.mp hmem with hmem | hmem
    · exact retained_not_mem before hmem
    · exact Nat.lt_irrefl _ (hbefore _ (hpart _ hmem))
  rw [window, window_spans (h.cut.append c.bytes)]
  by_cases hm : ∀ r, p.cleared = some r → r < l.marker
  · obtain ⟨pre', hpre', hlate⟩ : ∃ pre', (∀ s ∈ pre', s ∈ pre) ∧
        late newline (p.seen ++ c.bytes) p.cleared = (pre' ++ t :: mid) ++ l.span :: post := by
      cases hc : p.cleared with
      | none => exact ⟨pre, fun s hs => hs, heq⟩
      | some r =>
        refine ⟨pre.filter fun s => r < s.stop, fun s hs => (List.mem_filter.mp hs).1, ?_⟩
        have hlt : r < t.stop := hstop ▸ hm r hc
        exact (filter_late hsorted heq (before r hc)).trans
          (congrArg (· ++ l.span :: post) (filter_late hpart rfl hlt))
    rw [hlate, ← List.append_assoc, mem_collected_split _ (hpre _ ?_) hpost htext,
      ← List.append_assoc, owner_since _ hstart hmid]
    · simp only [ne_eq, reduceCtorEq, not_false_eq_true, true_iff]
      exact .inl hm
    · intro s hs
      rcases List.mem_append.mp hs with hs | hs
      · exact List.mem_append_left _ (hpre' s hs)
      · exact List.mem_append_right _ hs
  · obtain ⟨r, hc, hr⟩ : ∃ r, p.cleared = some r ∧ l.marker ≤ r := by simpa using hm
    have hpast : t.stop ≤ r := hstop ▸ hr
    have hlate : late newline (p.seen ++ c.bytes) p.cleared =
        mid.filter (fun s => r < s.stop) ++ l.span :: post := by
      rw [hc]
      exact (filter_late hsorted heq (before r hc)).trans
        (congrArg (· ++ l.span :: post) (filter_past hpart rfl hpast))
    rw [hlate, ← List.append_assoc, mem_collected_split _ (hpre _ ?_) hpost htext, owner_text]
    · exact (or_iff_right hm).symm
    · intro s hs
      rcases List.mem_append.mp hs with hs | hs
      · exact spanMark_retained hs
      · exact hmid s (List.mem_filter.mp hs).1
    · intro s hs
      exact List.mem_append_right _ (List.mem_cons_of_mem _ (List.mem_filter.mp hs).1)

theorem bytesOf_concat (chunks : List Chunk) (c : Chunk) :
    bytesOf (chunks ++ [c]) = bytesOf chunks ++ c.bytes := by simp [bytesOf]

theorem bytesOf_append (chunks chunks' : List Chunk) :
    bytesOf (chunks ++ chunks') = bytesOf chunks ++ bytesOf chunks' := List.flatMap_append

theorem spans_subset (b c : List UInt8) : ∀ s ∈ spans newline b, s ∈ spans newline (b ++ c) := by
  intro s hs
  rw [spans_append]
  exact List.mem_append_left _ hs

theorem step_unbroken (h : p.Inv) (hs : p.step c = some p') (hb : p'.broken = false) :
    Written p c ∧ p'.Inv ∧ (inForce p'.seen = none → p'.cleared = p.cleared) := by
  obtain ⟨-, ⟨-, hbroken, -⟩ | ⟨hw, hinv, -, hkept⟩⟩ := step_spec h hs
  · rw [hb] at hbroken
    cases hbroken
  · exact ⟨hw, hinv, hkept⟩

theorem Inv.cleared_some (h : p.Inv) {S : String} (hS : inForce p.seen = some S) :
    ∃ r, p.cleared = some r ∧ ∀ s ∈ spans newline p.seen, s.stop ≤ r := by
  obtain ⟨howner, hlate⟩ := h.fresh S hS
  cases hc : p.cleared with
  | none =>
    rw [hc] at howner
    cases howner
  | some r =>
    rw [hc] at hlate
    refine ⟨r, rfl, fun s hs => ?_⟩
    have hno := List.filter_eq_nil_iff.mp hlate s hs
    simpa using hno

variable {chunks : List Chunk}

theorem run_seen (run : machine.exec chunks = some p) : p.seen = bytesOf chunks := by
  induction chunks using List.reverseRecOn generalizing p with
  | nil =>
    obtain rfl := Option.some.inj run
    rfl
  | append_singleton chunks c ih =>
    obtain ⟨p₀, hp₀, hs⟩ := machine.exec_concat_some run
    obtain ⟨hseen, -⟩ := step_spec ((run_inv hp₀).1 (step_running hs)) hs
    rw [hseen, ih hp₀, bytesOf_concat]

structure Cleared (chunks : List Chunk) (p : Pipe) : Prop where
  covers : ∀ cut, cut <+: chunks → inForce (bytesOf cut) ≠ none →
    ∃ r, p.cleared = some r ∧ ∀ s ∈ spans newline (bytesOf cut), s.stop ≤ r
  within : ∀ r, p.cleared = some r →
    ∃ cut, cut <+: chunks ∧ inForce (bytesOf cut) ≠ none ∧ r < (bytesOf cut).length

theorem run_cleared (run : machine.exec chunks = some p) (hb : p.broken = false) :
    Cleared chunks p := by
  induction chunks using List.reverseRecOn generalizing p with
  | nil =>
    obtain rfl := Option.some.inj run
    refine ⟨fun cut hcut hin => ?_, fun r hr => by cases hr⟩
    rw [List.prefix_nil.mp hcut] at hin
    exact absurd rfl hin
  | append_singleton chunks c ih =>
    obtain ⟨p₀, hp₀, hs⟩ := machine.exec_concat_some run
    obtain ⟨-, hinv, hkept⟩ := step_unbroken ((run_inv hp₀).1 (step_running hs)) hs hb
    have hseen := run_seen run
    rw [hseen] at hkept
    cases hin : inForce (bytesOf (chunks ++ [c])) with
    | none =>
      obtain ⟨hcovers, hwithin⟩ := ih hp₀ (step_running hs)
      rw [← hkept hin] at hcovers hwithin
      refine ⟨fun cut hcut hne => ?_, fun r hr => ?_⟩
      · rcases List.prefix_concat_iff.mp hcut with rfl | hcut
        · exact absurd hin hne
        · exact hcovers cut hcut hne
      · obtain ⟨cut, hcut, hne, hlt⟩ := hwithin r hr
        exact ⟨cut, hcut.trans (List.prefix_append _ _), hne, hlt⟩
    | some S =>
      obtain ⟨r, hr, hall⟩ := hinv.cleared_some (hseen ▸ hin)
      rw [hseen] at hall
      refine ⟨fun cut hcut _ => ⟨r, hr, fun s hs => hall s ?_⟩, fun r' hr' => ?_⟩
      · obtain ⟨rest, hrest⟩ := hcut
        rw [← hrest, bytesOf_append]
        exact spans_subset _ _ s hs
      · have hcut := hinv.cut
        rw [hr', hseen] at hcut
        exact ⟨chunks ++ [c], List.prefix_rfl, by simp [hin], hcut.lt⟩

theorem covered_concat : Covered (chunks ++ [c]) l ↔ Covered chunks l ∨ CoveredAt chunks c l := by
  constructor
  · rintro ⟨before, c', after, eq, h⟩
    induction after using List.reverseRecOn with
    | nil =>
      obtain ⟨rfl, hc⟩ := List.append_inj' eq rfl
      obtain rfl := List.singleton_inj.mp hc
      exact .inr h
    | append_singleton after x _ =>
      rw [← List.cons_append, ← List.append_assoc] at eq
      obtain ⟨rfl, -⟩ := List.append_inj' eq rfl
      exact .inl ⟨before, c', after, rfl, h⟩
  · rintro (⟨before, c', after, rfl, h⟩ | h)
    · exact ⟨before, c', after ++ [c], by simp, h⟩
    · exact ⟨chunks, c, [], rfl, h⟩

def Settled (chunks : List Chunk) (l : Placed) : Prop :=
  ∃ cut, cut <+: chunks ∧ l.span.stop < (bytesOf cut).length ∧ inForce (bytesOf cut) ≠ none

theorem not_settled (h : ¬ Settled chunks l) {cut : List Chunk} (hcut : cut <+: chunks)
    (hin : inForce (bytesOf cut) ≠ none) : (bytesOf cut).length ≤ l.span.stop :=
  Nat.not_lt.mp fun hlt => h ⟨cut, hcut, hlt, hin⟩

theorem cut_lies {cut : List Chunk} (lies : l.Lies (bytesOf chunks ++ c.bytes))
    (hcut : cut <+: chunks) : ∃ rest, l.Lies (bytesOf cut ++ rest) := by
  obtain ⟨rest, rfl⟩ := hcut
  refine ⟨bytesOf rest ++ c.bytes, ?_⟩
  rwa [bytesOf_append, List.append_assoc] at lies

theorem whole_iff (open' : ¬ Settled chunks l) (h : p.Inv) (hseen : p.seen = bytesOf chunks)
    (cleared : Cleared chunks p) (lies : l.Lies (bytesOf chunks ++ c.bytes)) :
    ((bytesOf chunks).length ≤ l.span.stop ∨ ∀ cut, cut <+: chunks →
        ¬ (l.marker < (bytesOf cut).length ∧ (bytesOf cut).length ≤ l.span.stop)) ↔
      (∀ r, p.cleared = some r → r < l.marker) ∨ inForce p.seen ≠ none := by
  have hinside : ∀ cut, cut <+: chunks → l.marker < (bytesOf cut).length →
      (bytesOf cut).length ≤ l.span.stop → inForce (bytesOf cut) ≠ none := by
    intro cut hcut hm hk
    obtain ⟨rest, hlies⟩ := cut_lies lies hcut
    rw [hlies.inside hm hk]
    simp
  constructor
  · rintro (hle | hno)
    · by_cases hin : inForce p.seen = none
      · refine .inl fun r hr => ?_
        have hcut := h.cut
        rw [hr, hseen] at hcut
        rw [hseen] at hin
        by_contra hge
        have hlt := hcut.lt
        exact hinside chunks List.prefix_rfl (by omega) hle hin
      · exact .inr hin
    · refine .inl fun r hr => ?_
      obtain ⟨cut, hcut, hin, hlt⟩ := cleared.within r hr
      have hk := not_settled open' hcut hin
      have := hno cut hcut
      omega
  · rintro (hm | hin)
    · refine .inr fun cut hcut ⟨hlt, hk⟩ => ?_
      obtain ⟨r, hr, hall⟩ := cleared.covers cut hcut (hinside cut hcut hlt hk)
      obtain ⟨rest, hlies⟩ := cut_lies lies hcut
      obtain ⟨t, ht, hstop⟩ := hlies.marker_mem
      rw [spans_initial (bytesOf cut) rest] at hall
      have hle := hall t (List.mem_filter.mpr ⟨ht, by simpa [hstop] using hlt⟩)
      have := hm r hr
      omega
    · rw [hseen] at hin
      exact .inl (not_settled open' List.prefix_rfl hin)

theorem handed_open (open' : ¬ Settled chunks l) (run : machine.exec chunks = some p)
    (h : p.Inv) (cleared : Cleared chunks p)
    (lies : l.span.stop < (bytesOf chunks ++ c.bytes).length → l.Lies (bytesOf chunks ++ c.bytes))
    (bound : c.bound l.session = true) :
    (Written p c ∧ ⟨l.session, l.span⟩ ∈ handed p c) ↔ CoveredAt chunks c l := by
  have hseen := run_seen run
  have hearly : ∀ r, p.cleared = some r → r < l.span.stop := by
    intro r hr
    obtain ⟨cut, hcut, hin, hlt⟩ := cleared.within r hr
    exact Nat.lt_of_lt_of_le hlt (not_settled open' hcut hin)
  constructor
  · rintro ⟨hw, hd⟩
    have hlt := handed_bounded h hd
    obtain ⟨hS, -, hmem⟩ := mem_handed.mp hd
    rw [hseen] at hlt
    have hlies := lies hlt
    have hwhole := (captured_iff h (hseen ▸ hlies) hearly).mp hmem
    refine ⟨by rwa [bytesOf_concat], by rwa [bytesOf_concat, ← hseen], ⟨p, run, hw⟩, ?_,
      (whole_iff open' h hseen cleared hlies).mpr hwhole⟩
    intro cut hcut hk
    by_contra hin
    exact open' ⟨cut, hcut, hk, hin⟩
  · intro hc
    have hlt := hc.ended
    have hS := hc.session
    rw [bytesOf_concat] at hlt hS
    have hlies := lies hlt
    obtain ⟨q, hq, hw⟩ := hc.written
    obtain rfl : p = q := Option.some.inj (run.symm.trans hq)
    refine ⟨hw, mem_handed.mpr ⟨hseen ▸ hS, bound, ?_⟩⟩
    exact (captured_iff h (hseen ▸ hlies) hearly).mpr
      ((whole_iff open' h hseen cleared hlies).mp hc.whole)

theorem settled_cleared (cleared : Cleared chunks p) (hseen : p.seen = bytesOf chunks)
    (settled : Settled chunks l) (lies : l.span ∈ spans newline p.seen) :
    ∃ r, p.cleared = some r ∧ l.span.stop ≤ r := by
  obtain ⟨cut, hcut, hlt, hin⟩ := settled
  obtain ⟨r, hr, hall⟩ := cleared.covers cut hcut hin
  refine ⟨r, hr, hall l.span ?_⟩
  obtain ⟨rest, rfl⟩ := hcut
  rw [hseen, bytesOf_append] at lies
  rw [spans_initial (bytesOf cut) (bytesOf rest)]
  exact List.mem_filter.mpr ⟨lies, decide_eq_true hlt⟩

theorem window_after (h : p.Inv) {r : Nat} (hr : p.cleared = some r) {s : Span}
    (hs : s ∈ window (p.seen ++ c.bytes) p.cleared) : s = ⟨r, r⟩ ∨ r < s.stop := by
  rw [window, window_spans (h.cut.append c.bytes), hr] at hs
  rcases List.mem_append.mp hs with hs | hs
  · exact .inl (List.mem_singleton.mp hs)
  · exact .inr (of_decide_eq_true (List.mem_filter.mp hs).2)

theorem cleared_mono (h : p.Inv) (h' : p'.Inv) (hseen : p'.seen = p.seen ++ c.bytes)
    (hkept : inForce p'.seen = none → p'.cleared = p.cleared) {r r' : Nat}
    (hr : p.cleared = some r) (hr' : p'.cleared = some r') : r ≤ r' := by
  cases hin : inForce p'.seen with
  | none =>
    rw [hkept hin, hr] at hr'
    exact Nat.le_of_eq (Option.some.inj hr')
  | some S =>
    obtain ⟨r'', hr'', hall⟩ := h'.cleared_some hin
    rw [hr'] at hr''
    obtain rfl := Option.some.inj hr''
    have hcut := h.cut
    rw [hr] at hcut
    obtain ⟨s, hs, rfl⟩ := hcut.mem
    rw [hseen] at hall
    exact hall s (spans_subset _ _ s hs)

theorem handed_iff {b : List UInt8} (lies : l.Lies b) (whole : bytesOf chunks <+: b)
    (bound : ∀ c ∈ chunks, c.bound l.session = true) (run : machine.exec chunks = some p) :
    (⟨l.session, l.span⟩ ∈ p.delivered ↔ Covered chunks l) ∧
      (p.broken = false → p.cleared = some l.span.stop → ⟨l.session, l.span⟩ ∈ p.delivered) := by
  induction chunks using List.reverseRecOn generalizing p with
  | nil =>
    obtain rfl := Option.some.inj run
    refine ⟨⟨fun hd => absurd hd (List.not_mem_nil), ?_⟩, fun _ hc => by cases hc⟩
    rintro ⟨before, c, after, eq, -⟩
    simp at eq
  | append_singleton chunks c ih =>
    obtain ⟨p₀, hp₀, hs⟩ := machine.exec_concat_some run
    have h₀ := (run_inv hp₀).1 (step_running hs)
    have cleared₀ := run_cleared hp₀ (step_running hs)
    have hseen₀ := run_seen hp₀
    have hseen := run_seen run
    rw [bytesOf_concat] at whole hseen
    have hlies : l.span.stop < (bytesOf chunks ++ c.bytes).length →
        l.Lies (bytesOf chunks ++ c.bytes) := by
      obtain ⟨rest, rfl⟩ := whole
      exact lies.initial
    have hbound : c.bound l.session = true := bound c (by simp)
    obtain ⟨ih, hphantom⟩ := ih ((List.prefix_append _ _).trans whole)
      (fun c' hc' => bound c' (by simp [hc'])) hp₀
    have hdelivered : ⟨l.session, l.span⟩ ∈ p.delivered ↔ ⟨l.session, l.span⟩ ∈ p₀.delivered ∨
        Written p₀ c ∧ ⟨l.session, l.span⟩ ∈ handed p₀ c := by
      obtain ⟨-, ⟨hw, -, hd⟩ | ⟨hw, -, hd, -⟩⟩ := step_spec h₀ hs
      · simp [hd, hw]
      · simp [hd, hw]
    rw [covered_concat, ← ih, hdelivered]
    have hinitial : l.span.stop < (bytesOf chunks).length → l.Lies (bytesOf chunks) := fun hlt =>
      (hlies (Nat.lt_of_lt_of_le hlt (by simp))).initial hlt
    by_cases settled : Settled chunks l
    · obtain ⟨cut, hcut, hlt, hin⟩ := settled
      have hlt' : l.span.stop < (bytesOf chunks).length := by
        obtain ⟨rest, rfl⟩ := hcut
        rw [bytesOf_append, List.length_append]
        exact Nat.lt_add_right _ hlt
      obtain ⟨r, hr, hle⟩ := settled_cleared cleared₀ hseen₀ ⟨cut, hcut, hlt, hin⟩
        (hseen₀ ▸ (hinitial hlt').stop_mem)
      have hagain : r = l.span.stop → ⟨l.session, l.span⟩ ∈ p₀.delivered :=
        fun heq => hphantom (step_running hs) (heq ▸ hr)
      refine ⟨⟨fun hd => .inl (hd.elim id fun ⟨_, hd⟩ => hagain ?_),
        fun hd => hd.elim .inl fun hc => absurd (hc.first cut hcut hlt) hin⟩,
        fun hb hc => .inl (hagain ?_)⟩
      · have hmem := (collected_sublist _ _ _).subset (mem_handed.mp hd).2.2
        rcases window_after h₀ hr hmem with heq | hgt
        · exact (congrArg Span.stop heq).symm
        · exact absurd hgt (Nat.not_lt.mpr hle)
      · obtain ⟨-, h', hkept⟩ := step_unbroken h₀ hs hb
        exact Nat.le_antisymm (cleared_mono h₀ h' (hseen₀ ▸ hseen) hkept hr hc) hle
    · have hopen := handed_open settled hp₀ h₀ cleared₀ hlies hbound
      refine ⟨or_congr_right hopen, fun hb hc => ?_⟩
      obtain ⟨hw, h', hkept⟩ := step_unbroken h₀ hs hb
      cases hin : inForce p.seen with
      | none => exact .inl (hphantom (step_running hs) (hkept hin ▸ hc))
      | some T =>
        right
        obtain ⟨r, hr, hall⟩ := h'.cleared_some hin
        obtain rfl : l.span.stop = r := Option.some.inj (hc.symm.trans hr)
        have hcut := h'.cut
        rw [hr] at hcut
        have hlt := hcut.lt
        rw [hseen] at hlt hall
        refine hopen.mpr ⟨by rwa [bytesOf_concat], ?_, ⟨p₀, hp₀, hw⟩, ?_, .inl ?_⟩
        · rw [bytesOf_concat]
          exact (hlies hlt).last hall
        · intro cut hcut hlt
          by_contra hne
          exact settled ⟨cut, hcut, hlt, hne⟩
        · by_contra hgt
          have hlt := Nat.not_le.mp hgt
          have hforce := (hinitial hlt).last fun s hs => hall s (spans_subset _ _ s hs)
          exact settled ⟨chunks, List.prefix_rfl, hlt, by simp [hforce]⟩

theorem handed_sorted : (handed p c).Pairwise fun d e => d.span.stop ≤ e.span.stop := by
  have hwindow : (window (p.seen ++ c.bytes) p.cleared).Pairwise fun s t => s.stop ≤ t.stop := by
    rw [window, List.pairwise_map]
    exact (spansFrom_sorted newline 0 0 _).imp fun h => Nat.add_le_add_right (Nat.le_of_lt h) _
  simp only [handed]
  split
  · exact .nil
  · split
    · rw [List.pairwise_map]
      exact hwindow.sublist (collected_sublist _ _ _)
    · exact .nil

theorem handed_cleared (h : p.Inv) (h' : p'.Inv) (hseen : p'.seen = p.seen ++ c.bytes)
    (hkept : inForce p'.seen = none → p'.cleared = p.cleared) {d : Delivery}
    (hd : d ∈ handed p c) : ∃ r, p'.cleared = some r ∧ d.span.stop ≤ r := by
  obtain ⟨hin, -, hmem⟩ := mem_handed.mp hd
  rw [← hseen] at hin
  obtain ⟨r, hr, hall⟩ := h'.cleared_some hin
  refine ⟨r, hr, ?_⟩
  have hwin := (collected_sublist _ _ _).subset hmem
  have hsplit := hwin
  rw [window, window_spans (h.cut.append c.bytes)] at hsplit
  rcases List.mem_append.mp hsplit with hret | hlate
  · cases hc : p.cleared with
    | none => simp [hc, retained] at hret
    | some r₀ =>
      rw [hc] at hret
      rw [List.mem_singleton.mp hret]
      exact cleared_mono h h' hseen hkept hc hr
  · rw [hseen, ← early_late (h.cut.append c.bytes)] at hall
    exact hall _ (List.mem_append_right _ hlate)

theorem run_sorted (run : machine.exec chunks = some p) :
    (p.delivered.Pairwise fun d e => d.span.stop ≤ e.span.stop) ∧
      (p.broken = false → ∀ d ∈ p.delivered, ∃ r, p.cleared = some r ∧ d.span.stop ≤ r) := by
  induction chunks using List.reverseRecOn generalizing p with
  | nil =>
    obtain rfl := Option.some.inj run
    exact ⟨.nil, fun _ d hd => absurd hd List.not_mem_nil⟩
  | append_singleton chunks c ih =>
    obtain ⟨p₀, hp₀, hs⟩ := machine.exec_concat_some run
    have h₀ := (run_inv hp₀).1 (step_running hs)
    obtain ⟨hsorted, hle⟩ := ih hp₀
    obtain ⟨hseen, ⟨-, hb, hd⟩ | ⟨-, h', hd, hkept⟩⟩ := step_spec h₀ hs
    · refine ⟨hd ▸ hsorted, fun hrunning => ?_⟩
      rw [hb] at hrunning
      cases hrunning
    · constructor
      · rw [hd, List.pairwise_append]
        refine ⟨hsorted, handed_sorted, fun d hd e he => ?_⟩
        obtain ⟨r, hr, hdr⟩ := hle (step_running hs) d hd
        have hmem := (collected_sublist _ _ _).subset (mem_handed.mp he).2.2
        rcases window_after h₀ hr hmem with heq | hgt
        · rw [heq]
          exact hdr
        · exact Nat.le_trans hdr (Nat.le_of_lt hgt)
      · intro _ d hmem
        rw [hd] at hmem
        rcases List.mem_append.mp hmem with hold | hnew
        · obtain ⟨r, hr, hdr⟩ := hle (step_running hs) d hold
          cases hin : inForce p.seen with
          | none => exact ⟨r, (hkept hin).trans hr, hdr⟩
          | some S =>
            obtain ⟨r', hr', -⟩ := h'.cleared_some hin
            exact ⟨r', hr', Nat.le_trans hdr (cleared_mono h₀ h' hseen hkept hr hr')⟩
        · exact handed_cleared h₀ h' hseen hkept hnew

end Pipe

namespace Block

variable {b : Block} {bs : List Block}

theorem rows_clean (valid : b.Valid) : ∀ row ∈ b.rows, newline ∉ row := by
  have hstart : newline ∉ asBytes newRequestStart := by decide
  have hend : newline ∉ asBytes newRequestEnd := by decide
  intro row hrow
  simp only [rows, List.cons_append, List.mem_cons, List.mem_append, List.not_mem_nil,
    or_false] at hrow
  rcases hrow with rfl | hrow | rfl
  · simp only [head, List.mem_append, not_or]
    exact ⟨hstart, valid.clean⟩
  · exact (valid.lines row hrow).1
  · exact hend

theorem lineMark_head (valid : b.Valid) : lineMark b.head = .start b.session := by
  simp [lineMark, startMarker, head, valid.session]

theorem stream_rows (bs : List Block) : stream bs = unlines newline (bs.flatMap rows) := by
  rw [stream, unlines, List.flatMap_assoc]
  rfl

theorem spanMark_row (above below : List (List UInt8)) (row : List UInt8) :
    spanMark (unlines newline (above ++ row :: below))
      ⟨(unlines newline above).length, (unlines newline above).length + row.length⟩ =
      lineMark row := by
  rw [spanMark, slice_unlines]

end Block

section
variable {bs : List Block} {l : Placed}

theorem mem_placed {pos : Nat} (h : l ∈ placed pos bs) :
    ∃ done b rest pre line post, bs = done ++ b :: rest ∧ b.lines = pre ++ line :: post ∧
      l = ⟨b.session, pos + (stream done).length + b.head.length,
        ⟨pos + (stream done).length + b.head.length + 1 + (unlines newline pre).length,
          pos + (stream done).length + b.head.length + 1 + (unlines newline pre).length +
            line.length⟩⟩ := by
  induction bs generalizing pos with
  | nil => simp [placed] at h
  | cons b bs ih =>
    rcases List.mem_append.mp h with h | h
    · obtain ⟨s, hs, rfl⟩ := List.mem_map.mp h
      obtain ⟨pre, line, post, hlines, rfl⟩ := mem_place newline hs
      exact ⟨[], b, bs, pre, line, post, rfl, hlines, by simp [stream]⟩
    · obtain ⟨done, b', rest, pre, line, post, rfl, hlines, rfl⟩ := ih h
      refine ⟨b :: done, b', rest, pre, line, post, rfl, hlines, ?_⟩
      simp [stream, Nat.add_assoc]

theorem placed_lies (valid : ∀ b ∈ bs, b.Valid) (h : l ∈ placed 0 bs) : l.Lies (stream bs) := by
  obtain ⟨done, b, rest, pre, line, post, rfl, hlines, rfl⟩ := mem_placed h
  have hb : b.Valid := valid b (by simp)
  have hclean : ∀ row ∈ (done ++ b :: rest).flatMap Block.rows, newline ∉ row := by
    intro row hrow
    obtain ⟨b', hb', hrow⟩ := List.mem_flatMap.mp hrow
    exact Block.rows_clean (valid b' hb') row hrow
  have hrows : (done ++ b :: rest).flatMap Block.rows = done.flatMap Block.rows ++
      b.head :: (pre ++ line :: (post ++ asBytes newRequestEnd :: rest.flatMap Block.rows)) := by
    simp [Block.rows, hlines]
  have hdone : (unlines newline (done.flatMap Block.rows)).length = (stream done).length := by
    rw [Block.stream_rows]
  have htext : ∀ row ∈ pre ++ [line], lineMark row = .text := by
    intro row hrow
    refine (hb.lines row ?_).2
    rw [hlines]
    rcases List.mem_append.mp hrow with hrow | hrow
    · simp [hrow]
    · simp [List.mem_singleton.mp hrow]
  have hspans := spansFrom_unlines newline 0 hclean
  rw [hrows, place_append newline, place, place_append newline, place, Nat.zero_add, hdone] at hspans
  have hstream : stream (done ++ b :: rest) = unlines newline (done.flatMap Block.rows ++
      b.head :: (pre ++ line :: (post ++ asBytes newRequestEnd :: rest.flatMap Block.rows))) := by
    rw [Block.stream_rows, hrows]
  have hrow : ∀ above row below, spanMark (unlines newline
      (done.flatMap Block.rows ++ b.head :: (above ++ row :: below)))
      ⟨(stream done).length + b.head.length + 1 + (unlines newline above).length,
        (stream done).length + b.head.length + 1 + (unlines newline above).length + row.length⟩ =
      lineMark row := by
    intro above row below
    have hmark := Block.spanMark_row (done.flatMap Block.rows ++ b.head :: above) below row
    have hlen : (unlines newline (done.flatMap Block.rows ++ b.head :: above)).length =
        (stream done).length + b.head.length + 1 + (unlines newline above).length := by
      rw [unlines_append, List.length_append, hdone, unlines_cons, List.length_append,
        List.length_cons]
      omega
    rw [hlen, List.append_assoc, List.cons_append] at hmark
    exact hmark
  rw [hstream, Nat.zero_add]
  refine ⟨_, _, _, _, hspans, rfl, ?_, ?_, ?_⟩
  · have hmark := Block.spanMark_row (done.flatMap Block.rows)
      (pre ++ line :: (post ++ asBytes newRequestEnd :: rest.flatMap Block.rows)) b.head
    rw [hdone, Block.lineMark_head hb] at hmark
    exact hmark
  · intro s hs
    obtain ⟨above, row, below, rfl, rfl⟩ := mem_place newline hs
    rw [List.append_assoc, List.cons_append, hrow]
    exact htext row (by simp)
  · exact (hrow pre line _).trans (htext line (by simp))

theorem placed_sublist (pos : Nat) (bs : List Block) :
    ((placed pos bs).map Placed.span).Sublist (place pos (bs.flatMap Block.rows)) := by
  induction bs generalizing pos with
  | nil => exact .slnil
  | cons b bs ih =>
    have hb : ((b.placed pos).map Placed.span).Sublist (place pos b.rows) := by
      rw [Block.placed, List.map_map, Block.rows, List.cons_append, place, place_append newline]
      exact .cons _ ((List.map_id' (place (pos + b.head.length + 1) b.lines)).symm ▸
        List.sublist_append_left _ _)
    rw [placed, List.map_append, List.flatMap_cons, place_append newline]
    exact hb.append (ih _)

theorem placed_sorted (valid : ∀ b ∈ bs, b.Valid) :
    (placed 0 bs).Pairwise fun l m => l.span.stop < m.span.stop := by
  have hclean : ∀ row ∈ bs.flatMap Block.rows, newline ∉ row := by
    intro row hrow
    obtain ⟨b, hb, hrow⟩ := List.mem_flatMap.mp hrow
    exact Block.rows_clean (valid b hb) row hrow
  have hsorted := spansFrom_sorted newline 0 0 (unlines newline (bs.flatMap Block.rows))
  rw [spansFrom_unlines newline 0 hclean] at hsorted
  have hspans := hsorted.sublist (placed_sublist 0 bs)
  rwa [List.pairwise_map] at hspans

end

namespace Pipe

def sentTo (p : Pipe) (sessionId : String) : List Span :=
  (p.delivered.filter (·.session = sessionId)).map (·.span)

def linesOf (bs : List Block) (sessionId : String) : List Span :=
  ((placed 0 bs).filter (·.session = sessionId)).map (·.span)

theorem captured_iff_covered {bs : List Block} {chunks : List Chunk} {p : Pipe}
    (valid : ∀ b ∈ bs, b.Valid) (whole : bytesOf chunks = stream bs)
    (bound : ∀ c ∈ chunks, ∀ b ∈ bs, c.bound b.session = true)
    (run : machine.exec chunks = some p) :
    (∀ sessionId, (linesOf bs sessionId).Sublist (p.sentTo sessionId)) ↔
      ∀ l ∈ placed 0 bs, Covered chunks l := by
  have hhanded : ∀ l ∈ placed 0 bs, ⟨l.session, l.span⟩ ∈ p.delivered ↔ Covered chunks l := by
    intro l hl
    have hbound : ∀ c ∈ chunks, c.bound l.session = true := by
      intro c hc
      obtain ⟨done, b, rest, _, _, _, rfl, _, rfl⟩ := mem_placed hl
      exact bound c hc b (by simp)
    exact (handed_iff (placed_lies valid hl) (whole ▸ List.prefix_rfl) hbound run).1
  constructor
  · intro hsub l hl
    refine (hhanded l hl).mp ?_
    have hmem : l.span ∈ p.sentTo l.session := (hsub l.session).subset
      (List.mem_map_of_mem (List.mem_filter.mpr ⟨hl, decide_eq_true rfl⟩))
    obtain ⟨d, hd, hspan⟩ := List.mem_map.mp hmem
    obtain ⟨hd, hsession⟩ := List.mem_filter.mp hd
    rwa [← hspan, ← of_decide_eq_true hsession]
  · intro hall sessionId
    have hplaced := (placed_sorted valid).sublist
      (List.filter_sublist (p := fun l => decide (l.session = sessionId)))
    have hsent := (run_sorted run).1.sublist
      (List.filter_sublist (p := fun d => decide (d.session = sessionId)))
    refine @sublist_of_sorted _ Span.stop _ _ (List.pairwise_map.mpr hplaced)
      (List.pairwise_map.mpr hsent) fun s hs => ?_
    obtain ⟨l, hl, rfl⟩ := List.mem_map.mp hs
    obtain ⟨hl, hsession⟩ := List.mem_filter.mp hl
    exact List.mem_map.mpr ⟨⟨l.session, l.span⟩,
      List.mem_filter.mpr ⟨(hhanded l hl).mpr (hall l hl), hsession⟩, rfl⟩

def blockA : Block := ⟨sessionA, [asBytes "x"]⟩

theorem blockA_valid : blockA.Valid where
  session := by decide
  clean := by decide
  lines := by decide

theorem linesOf_blockA {sessionId : String} (h : sessionId ≠ sessionA) :
    linesOf [blockA] sessionId = [] := by
  have hne : ¬ sessionA = sessionId := fun heq => h heq.symm
  simp [linesOf, placed, Block.placed, blockA, place, hne]

def inTwoReads : List Chunk :=
  [arrival (startLine sessionA ++ asBytes "x\n"), arrival endLine]

theorem captured_inTwoReads :
    placed 0 [blockA] ≠ [] ∧ ∀ l ∈ placed 0 [blockA], Covered inTwoReads l := by
  have hrun : (machine.exec inTwoReads).map (·.sentTo sessionA) = some (linesOf [blockA] sessionA) := by
    decide +kernel
  obtain ⟨p, hp, hsent⟩ := Option.map_eq_some_iff.mp hrun
  refine ⟨by simp [placed, Block.placed, blockA, place],
    (@captured_iff_covered [blockA] inTwoReads p (by simp [blockA_valid]) (by decide +kernel)
      (fun c hc b hb => ?_) hp).mp fun sessionId => ?_⟩
  · simp only [inTwoReads, List.mem_cons, List.not_mem_nil, or_false] at hc
    rcases hc with rfl | rfl <;> rfl
  · by_cases h : sessionId = sessionA
    · rw [h, hsent]
    · rw [linesOf_blockA h]
      exact List.nil_sublist _

theorem whole_block_lost : ¬ ∀ p, machine.exec [arrival blockA.bytes] = some p →
    ∀ sessionId, (linesOf [blockA] sessionId).Sublist (p.sentTo sessionId) := by
  have hrun : (machine.exec [arrival blockA.bytes]).map (·.sentTo sessionA) = some [] := by
    decide +kernel
  have hlines : linesOf [blockA] sessionA = [⟨97, 98⟩] := by decide +kernel
  obtain ⟨p, hp, hsent⟩ := Option.map_eq_some_iff.mp hrun
  intro h
  have hsub := h p hp sessionA
  rw [hsent, hlines] at hsub
  cases hsub

end Pipe
end PyProxy.Master
