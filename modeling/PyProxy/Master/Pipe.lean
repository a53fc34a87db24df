import PyProxy.Master.Attribution

namespace PyProxy.Master
open Stream Protocol Server Lines Sections

structure Delivery where
  session : String
  span : Span
  deriving DecidableEq, Repr

structure Chunk where
  bytes : List UInt8
  bound : String → Bool
  w : Nat → IoResult Unit

structure Pipe where
  frame : PipeFrame
  seen : List UInt8
  cleared : Option Nat
  delivered : List Delivery
  broken : Bool

namespace Pipe

def fresh : Pipe := ⟨.new 0, [], none, [], false⟩

def step (p : Pipe) (c : Chunk) : Option Pipe :=
  if p.broken then none
  else
    let seen := p.seen ++ c.bytes
    match p.frame.read c.w (.ok c.bytes) with
    | (.error _, _, frame) => some { p with frame := frame, seen := seen, broken := true }
    | (.ok none, _, frame) => some { p with frame := frame, seen := seen }
    | (.ok (some (sessionId, lines)), _, frame) =>
      some { p with
        frame := frame.clear
        seen := seen
        cleared := (frame.lastNewline.map (· + offset p.cleared)).or p.cleared
        delivered := p.delivered ++
          if c.bound sessionId then lines.map fun l => ⟨sessionId, l.shift (offset p.cleared)⟩ else [] }

def machine : Machine Pipe Chunk := ⟨fresh, step⟩

def window (seen : List UInt8) (cleared : Option Nat) : List Span :=
  (spans newline (seen.drop (offset cleared))).map (Span.shift (offset cleared))

def Written (p : Pipe) (c : Chunk) : Prop :=
  let buffer := (p.seen ++ c.bytes).drop (offset p.cleared)
  ∀ s ∈ skipped (spanMark buffer) (inForce p.seen) (spans newline buffer), c.w s.stop = .ok ()

structure Inv (p : Pipe) : Prop where
  buffer : p.frame.buffer = p.seen.drop (offset p.cleared)
  cut : CutAt newline p.seen p.cleared
  session : p.frame.currentSessionId = inForce p.seen
  fresh : ∀ S, inForce p.seen = some S →
    owner (spanMark p.seen) none (early newline p.seen p.cleared) = some S ∧
      late newline p.seen p.cleared = []

end Pipe

theorem spanMark_append {b : List UInt8} {s : Span} (c : List UInt8) (h : s ∈ spans newline b) :
    spanMark (b ++ c) s = spanMark b s := by
  rw [spanMark, spanMark, slice_append c (Nat.le_of_lt (spans_stop newline h))]

theorem spanMark_drop {b : List UInt8} {k : Nat} (h : k ≤ b.length) (s : Span) :
    spanMark b (s.shift k) = spanMark (b.drop k) s := by
  have hs := slice_shift (b.take k) (b.drop k) s
  rw [List.take_append_drop, List.length_take, Nat.min_eq_left h] at hs
  rw [spanMark, spanMark, hs]

theorem spanMark_retained {b : List UInt8} {o : Option Nat} {s : Span} (h : s ∈ retained o) :
    spanMark b s = .text := by
  cases o with
  | none => simp [retained] at h
  | some r =>
    obtain rfl : s = ⟨r, r⟩ := by simpa [retained] using h
    rw [spanMark, slice, Nat.sub_self, List.take_zero, lineMark_empty]

theorem inForce_append (b c : List UInt8) : inForce (b ++ c) =
    owner (spanMark (b ++ c)) (inForce b) (spansFrom newline b.length (startFrom newline 0 0 b) c) := by
  rw [inForce, spans_append, owner_append, inForce]
  congr 1
  exact owner_ext _ (fun s hs => spanMark_append c hs) none

theorem inForceAt_append {b : List UInt8} (c : List UInt8) {k : Nat} (h : k < b.length) :
    inForceAt (b ++ c) k = inForceAt b k := by
  rw [inForceAt, inForceAt, filter_spans_append newline b c h]
  exact owner_ext _ (fun s hs => spanMark_append c (List.mem_filter.mp hs).1) none

namespace Pipe.Inv

variable {p : Pipe} (h : p.Inv) (c : List UInt8)
include h

theorem owner_early : owner (spanMark (p.seen ++ c)) none (early newline (p.seen ++ c) p.cleared) =
    owner (spanMark p.seen) none (early newline p.seen p.cleared) := by
  rw [h.cut.early_append]
  apply owner_ext
  intro s hs
  apply spanMark_append
  rw [← early_late h.cut]
  exact List.mem_append_left _ hs

theorem running {pre : List Span} {S : String}
    (ho : owner (spanMark (p.seen ++ c)) (inForce p.seen) pre = some S) :
    owner (spanMark (p.seen ++ c)) none (early newline (p.seen ++ c) p.cleared ++ pre) = some S := by
  rw [owner_append, h.owner_early]
  cases hf : inForce p.seen with
  | some T =>
    rw [(h.fresh T hf).1, ← hf, ho]
  | none =>
    rw [hf] at ho
    exact owner_of_none _ ho _

theorem owner_window : owner (spanMark (p.seen ++ c)) (inForce p.seen)
    (window (p.seen ++ c) p.cleared) = inForce (p.seen ++ c) := by
  have hret : ∀ cs, owner (spanMark (p.seen ++ c)) cs (retained p.cleared) = cs :=
    owner_text _ fun s hs => spanMark_retained hs
  rw [window, window_spans (h.cut.append c), h.cut.late_append, inForce_append, owner_append, hret,
    owner_append]
  congr 1
  cases hf : inForce p.seen with
  | some S =>
    rw [(h.fresh S hf).2]
    rfl
  | none =>
    have hall : owner (spanMark (p.seen ++ c)) none (spans newline p.seen) = none :=
      (owner_ext _ (fun s hs => spanMark_append c hs) none).trans hf
    rw [← early_late h.cut, owner_append] at hall
    exact owner_none_of _ hall

theorem window_silent (hsilent : newline ∉ (p.seen ++ c).drop (offset p.cleared)) :
    inForce (p.seen ++ c) = none := by
  have hnil : window (p.seen ++ c) p.cleared = [] := by
    rw [window, spans, spansFrom_silent newline hsilent, List.map_nil]
  have hret : retained p.cleared ++ late newline (p.seen ++ c) p.cleared = [] := by
    rw [← window_spans (h.cut.append c)]
    exact hnil
  obtain ⟨hr, hl⟩ := List.append_eq_nil_iff.mp hret
  cases hc : p.cleared with
  | some r =>
    rw [hc] at hr
    cases hr
  | none =>
    rw [hc] at hl
    rw [inForce, show spans newline (p.seen ++ c) = [] from hl]
    rfl

end Pipe.Inv

namespace Pipe

def handed (p : Pipe) (c : Chunk) : List Delivery :=
  let seen := p.seen ++ c.bytes
  match inForce seen with
  | none => []
  | some sessionId =>
    if c.bound sessionId then
      (collected (spanMark seen) (inForce p.seen) (window seen p.cleared)).map (Delivery.mk sessionId)
    else []

variable {p p' : Pipe} {c : Chunk}

theorem read_spec (h : p.Inv) (s : Scan)
    (hs : s = PipeFrame.scan { p.frame with buffer := p.frame.buffer ++ c.bytes } c.w) :
    (s.err = none ↔ Written p c) ∧ (s.err = none →
      s.session = inForce (p.seen ++ c.bytes) ∧
      s.lines.map (Span.shift (offset p.cleared)) = collected (spanMark (p.seen ++ c.bytes))
        (inForce p.seen) (window (p.seen ++ c.bytes) p.cleared) ∧
      s.lastNewline = lastStop none
        (spans newline ((p.seen ++ c.bytes).drop (offset p.cleared)))) := by
  have hle : offset p.cleared ≤ (p.seen ++ c.bytes).length := (h.cut.append c.bytes).offset_le
  have hbuf : p.frame.buffer ++ c.bytes = (p.seen ++ c.bytes).drop (offset p.cleared) := by
    rw [h.buffer, List.drop_append_of_le_length h.cut.offset_le]
  have hmark : ∀ t ∈ spans newline ((p.seen ++ c.bytes).drop (offset p.cleared)),
      spanMark (p.seen ++ c.bytes) (t.shift (offset p.cleared)) =
        spanMark ((p.seen ++ c.bytes).drop (offset p.cleared)) t := fun t _ => spanMark_drop hle t
  obtain ⟨hiff, hspec⟩ := @Scan.lines_spec (p.frame.buffer ++ c.bytes) c.w
    ⟨none, p.frame.currentSessionId, [], [], none⟩ (spans newline (p.frame.buffer ++ c.bytes)) rfl
  rw [PipeFrame.scan_eq] at hs
  rw [hs]
  simp only [h.session, hbuf] at hiff hspec ⊢
  refine ⟨hiff, fun hnone => ?_⟩
  obtain ⟨hsession, hlines, hlast⟩ := hspec hnone
  refine ⟨?_, ?_, hlast⟩
  · rw [hsession, ← h.owner_window, window, owner_map _ hmark]
  · rw [hlines, List.nil_append, window, collected_map _ hmark]

theorem recut {b : List UInt8} {k : Nat} (hk : k ≤ b.length) : newline ∉ b.drop k ∨
    ∃ a q r, b = a ++ newline :: q ∧ newline ∉ q ∧ a.length = r + k ∧
      lastStop none (spans newline (b.drop k)) = some r := by
  rcases lastStop_cases newline none 0 0 (b.drop k) with ⟨hb, -⟩ | ⟨a, q, hb, hq, hl⟩
  · exact .inl hb
  · refine .inr ⟨b.take k ++ a, q, a.length, ?_, hq, ?_, ?_⟩
    · rw [List.append_assoc, ← hb, List.take_append_drop]
    · rw [List.length_append, List.length_take, Nat.min_eq_left hk, Nat.add_comm]
    · rw [spans, hl, Nat.zero_add]

theorem inv_cut {frame : PipeFrame} {seen a q : List UInt8} {delivered : List Delivery}
    (hseen : seen = a ++ newline :: q) (hq : newline ∉ q) (hbuf : frame.buffer = seen.drop a.length)
    (hsession : frame.currentSessionId = inForce seen) :
    Inv ⟨frame, seen, some a.length, delivered, false⟩ := by
  have hcut : CutAt newline seen (some a.length) := ⟨a, q, hseen, rfl⟩
  have hlate : late newline seen (some a.length) = [] := by
    rw [hseen, late_split, spansFrom_silent newline hq, List.map_nil]
  refine ⟨hbuf, hcut, hsession, fun S hS => ⟨?_, hlate⟩⟩
  have hall := early_late hcut
  rw [hlate, List.append_nil] at hall
  rw [← hS, inForce, ← hall]

theorem inv_kept {frame : PipeFrame} (h : p.Inv)
    (hbuf : frame.buffer = p.frame.buffer ++ c.bytes)
    (hsession : frame.currentSessionId = inForce (p.seen ++ c.bytes))
    (hnone : inForce (p.seen ++ c.bytes) = none) :
    Inv { p with frame := frame, seen := p.seen ++ c.bytes } where
  buffer := by rw [hbuf, h.buffer, List.drop_append_of_le_length h.cut.offset_le]
  cut := h.cut.append c.bytes
  session := hsession
  fresh S hS := by
    rw [hnone] at hS
    cases hS

def scanned (p : Pipe) (c : Chunk) : Scan :=
  PipeFrame.scan { p.frame with buffer := p.frame.buffer ++ c.bytes } c.w

def reframed (p : Pipe) (c : Chunk) : PipeFrame :=
  { p.frame with
    buffer := p.frame.buffer ++ c.bytes
    currentSessionId := (scanned p c).session
    lastNewline := (scanned p c).lastNewline }

theorem step_running (h : p.step c = some p') : p.broken = false := by
  cases hb : p.broken with
  | false => rfl
  | true => simp [step, hb] at h

theorem step_failed {e : IoError} (h : p.step c = some p') (herr : (scanned p c).err = some e) :
    p' = { p with frame := reframed p c, seen := p.seen ++ c.bytes, broken := true } := by
  have hb := step_running h
  simp only [scanned] at herr
  simp only [step, hb, Bool.false_eq_true, if_false, PipeFrame.read, herr] at h
  exact (Option.some.inj h).symm

theorem step_outside (h : p.step c = some p') (herr : (scanned p c).err = none)
    (hout : (scanned p c).session = none) :
    p' = { p with frame := reframed p c, seen := p.seen ++ c.bytes } := by
  have hb := step_running h
  have hframe : reframed p c = ⟨p.frame.recv, p.frame.buffer ++ c.bytes, none,
    (scanned p c).lastNewline⟩ := by rw [reframed, hout]
  simp only [scanned] at herr hout
  simp only [step, hb, Bool.false_eq_true, if_false, PipeFrame.read, herr, hout, Option.map_none] at h
  rw [hframe, hb]
  exact (Option.some.inj h).symm

theorem step_inside {S : String} (h : p.step c = some p') (herr : (scanned p c).err = none)
    (hin : (scanned p c).session = some S) :
    p' = { p with
      frame := (reframed p c).clear
      seen := p.seen ++ c.bytes
      cleared := ((scanned p c).lastNewline.map (· + offset p.cleared)).or p.cleared
      delivered := p.delivered ++
        if c.bound S then (scanned p c).lines.map fun l => ⟨S, l.shift (offset p.cleared)⟩
        else [] } := by
  have hb := step_running h
  have hframe : reframed p c = ⟨p.frame.recv, p.frame.buffer ++ c.bytes, some S,
    (scanned p c).lastNewline⟩ := by rw [reframed, hin]
  simp only [scanned] at herr hin
  simp only [step, hb, Bool.false_eq_true, if_false, PipeFrame.read, herr, hin, Option.map_some] at h
  rw [hframe, hb]
  exact (Option.some.inj h).symm

theorem step_spec (h : p.Inv) (hs : p.step c = some p') : p'.seen = p.seen ++ c.bytes ∧
    (¬ Written p c ∧ p'.broken = true ∧ p'.delivered = p.delivered ∨
      Written p c ∧ p'.Inv ∧ p'.delivered = p.delivered ++ handed p c ∧
        (inForce p'.seen = none → p'.cleared = p.cleared)) := by
  obtain ⟨hiff, hok⟩ := @read_spec p c h (scanned p c) rfl
  cases herr : (scanned p c).err with
  | some e =>
    obtain rfl := step_failed hs herr
    exact ⟨rfl, .inl ⟨fun hw => absurd (hiff.mpr hw) (by simp [herr]), rfl, rfl⟩⟩
  | none =>
    obtain ⟨hsession, hlines, hlast⟩ := hok herr
    have hw := hiff.mp herr
    cases hin : inForce (p.seen ++ c.bytes) with
    | none =>
      obtain rfl := step_outside hs herr (hsession.trans hin)
      exact ⟨rfl, .inr ⟨hw, inv_kept h rfl hsession hin, by simp [handed, hin], fun _ => rfl⟩⟩
    | some S =>
      obtain rfl := step_inside hs herr (hsession.trans hin)
      refine ⟨rfl, .inr ⟨hw, ?_, ?_, fun hnone => absurd (hin.symm.trans hnone) (by simp)⟩⟩
      · have hle : offset p.cleared ≤ (p.seen ++ c.bytes).length := (h.cut.append c.bytes).offset_le
        rcases recut hle with hsilent | ⟨a, q, r, hseen, hq, ha, hr⟩
        · exact absurd (h.window_silent c.bytes hsilent) (by simp [hin])
        · rw [← hlast] at hr
          have hbuf : (reframed p c).clear.buffer = (p.seen ++ c.bytes).drop a.length := by
            rw [ha, Nat.add_comm, ← List.drop_drop, List.drop_append_of_le_length h.cut.offset_le, ← h.buffer]
            simp [PipeFrame.clear, reframed, hr]
          have hsess : (reframed p c).clear.currentSessionId = inForce (p.seen ++ c.bytes) := by
            simp [PipeFrame.clear, reframed, hr, hsession]
          rw [hr, Option.map_some, Option.some_or, ← ha, step_running hs]
          exact inv_cut hseen hq hbuf hsess
      · have hcomp : (fun l => Delivery.mk S (Span.shift (offset p.cleared) l)) =
            Delivery.mk S ∘ Span.shift (offset p.cleared) := rfl
        simp only [handed, hin, ← hlines, List.map_map, hcomp]

theorem step_written (h : p.Inv) (hs : p.step c = some p') (hw : Written p c) : p'.broken = false := by
  have herr := (read_spec h (scanned p c) rfl).1.mpr hw
  have running := step_running hs
  cases hin : (scanned p c).session with
  | none =>
    obtain rfl := step_outside hs herr hin
    exact running
  | some S =>
    obtain rfl := step_inside hs herr hin
    exact running

end Pipe
end PyProxy.Master
