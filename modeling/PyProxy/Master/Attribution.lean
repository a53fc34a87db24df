import PyProxy.Machine.Run
import PyProxy.Master.PipeFrame

namespace PyProxy.Master
open Stream Protocol Server Lines Sections

def lineMark (line : List UInt8) : Mark String :=
  match startMarker line with
  | some sessionId => .start sessionId
  | none => if line = asBytes newRequestEnd then .stop else .text

def spanMark (b : List UInt8) (s : Span) : Mark String := lineMark (slice b s)

def inForce (b : List UInt8) : Option String := owner (spanMark b) none (spans newline b)

def inForceAt (b : List UInt8) (stop : Nat) : Option String :=
  owner (spanMark b) none ((spans newline b).filter fun s => s.stop ≤ stop)

theorem startMarker_end : startMarker (asBytes newRequestEnd) = none := by decide

theorem lineMark_empty : lineMark [] = .text := by decide

namespace Scan

variable {buffer : List UInt8} {w : Nat → IoResult Unit} {s : Scan}

theorem line_failed {e : IoError} (span : Span) (h : s.err = some e) : s.line buffer w span = s := by
  simp [line, h]

theorem line_ok {span : Span} (h : s.err = none)
    (hw : ∀ t ∈ skip (spanMark buffer) s.session span, w t.stop = .ok ()) :
    (s.line buffer w span).err = none ∧
      (s.line buffer w span).session = enter s.session (spanMark buffer span) ∧
      (s.line buffer w span).lines = s.lines ++ pick (spanMark buffer) s.session span ∧
      (s.line buffer w span).lastNewline = some span.stop := by
  cases hm : startMarker (slice buffer span) with
  | some sessionId => simp [line, h, hm, spanMark, lineMark, enter, pick]
  | none =>
    by_cases hend : slice buffer span = asBytes newRequestEnd
    · simp [line, h, hend, startMarker_end, spanMark, lineMark, enter, pick]
    · have htext : spanMark buffer span = .text := by simp [spanMark, lineMark, hm, hend]
      cases hs : s.session with
      | some sessionId => simp [line, h, hm, hend, hs, htext, enter, pick]
      | none =>
        have hok := hw span (by simp [skip, htext, hs])
        simp [line, h, hm, hend, hs, hok, htext, enter, pick]

theorem line_refused {span t : Span} (h : s.err = none)
    (ht : t ∈ skip (spanMark buffer) s.session span) (hw : w t.stop ≠ .ok ()) :
    (s.line buffer w span).err ≠ none := by
  cases hm : spanMark buffer span with
  | start sessionId => simp [skip, hm] at ht
  | stop => simp [skip, hm] at ht
  | text =>
    cases hs : s.session with
    | some sessionId => simp [skip, hm, hs] at ht
    | none =>
      obtain rfl : t = span := by simpa [skip, hm, hs] using ht
      have hmark : startMarker (slice buffer t) = none ∧ slice buffer t ≠ asBytes newRequestEnd := by
        simp only [spanMark, lineMark] at hm
        split at hm
        · cases hm
        · rename_i hn
          split at hm
          · cases hm
          · rename_i he
            exact ⟨hn, he⟩
      cases hr : w t.stop with
      | ok u => exact absurd hr hw
      | error e => simp [line, h, hmark.1, hmark.2, hs, hr]

theorem lines_failed {e : IoError} (l : List Span) (h : s.err = some e) :
    l.foldl (line buffer w) s = s := by
  induction l with
  | nil => rfl
  | cons span l ih => rw [List.foldl_cons, line_failed span h, ih]

theorem lines_spec (l : List Span) (h : s.err = none) :
    ((l.foldl (line buffer w) s).err = none ↔
        ∀ t ∈ skipped (spanMark buffer) s.session l, w t.stop = .ok ()) ∧
      ((l.foldl (line buffer w) s).err = none →
        (l.foldl (line buffer w) s).session = owner (spanMark buffer) s.session l ∧
        (l.foldl (line buffer w) s).lines = s.lines ++ collected (spanMark buffer) s.session l ∧
        (l.foldl (line buffer w) s).lastNewline = lastStop s.lastNewline l) := by
  induction l generalizing s with
  | nil => simp [h, skipped, collected, lastStop]
  | cons span l ih =>
    rw [List.foldl_cons]
    by_cases hw : ∀ t ∈ skip (spanMark buffer) s.session span, w t.stop = .ok ()
    · obtain ⟨herr, hsession, hlines, hlast⟩ := line_ok h hw
      obtain ⟨hiff, hspec⟩ := ih herr
      constructor
      · rw [hiff, hsession]
        simp only [skipped, List.mem_append]
        exact ⟨fun ha t ht => ht.elim (hw t) (ha t), fun ha t ht => ha t (.inr ht)⟩
      · intro hnone
        obtain ⟨h1, h2, h3⟩ := hspec hnone
        rw [h1, h2, h3, hsession, hlines, hlast]
        exact ⟨rfl, by simp [collected], rfl⟩
    · obtain ⟨t, ht, hbad⟩ : ∃ t ∈ skip (spanMark buffer) s.session span, w t.stop ≠ .ok () := by
        simpa using hw
      obtain ⟨e, he⟩ := Option.ne_none_iff_exists'.mp (line_refused h ht hbad)
      rw [lines_failed l he]
      constructor
      · constructor
        · intro hn
          rw [he] at hn
          cases hn
        · intro ha
          exact absurd (ha t (by simp [skipped, ht])) hbad
      · intro hn
        rw [he] at hn
        cases hn

end Scan

namespace PipeFrame

theorem scan_eq (f : PipeFrame) (w : Nat → IoResult Unit) : f.scan w =
    (spans newline f.buffer).foldl (Scan.line f.buffer w) ⟨none, f.currentSessionId, [], [], none⟩ := by
  rw [scan, foldl_scanStep]
  rfl

end PipeFrame
end PyProxy.Master
