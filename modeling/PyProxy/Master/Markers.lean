import PyProxy.Master.Capture
import PyProxy.Master.WorkerStream
import PyProxy.Protocol.Fixint
import PyProxy.Worker.WorkerStream

namespace PyProxy.Master
open Stream Protocol Server Lines Sections

structure Visit where
  span : Span
  session : Option String
  deriving DecidableEq

def Scan.visits (buffer : List UInt8) (w : Nat → IoResult Unit) : Scan → List Span → List Visit
  | _, [] => []
  | s, span :: l =>
    if s.err.isSome then [] else ⟨span, s.session⟩ :: visits buffer w (s.line buffer w span) l

def PipeFrame.visits (f : PipeFrame) (w : Nat → IoResult Unit) : List Visit :=
  Scan.visits f.buffer w ⟨none, f.currentSessionId, [], [], none⟩ (spans newline f.buffer)

def Pipe.visits (p : Pipe) (c : Chunk) : List Visit :=
  (PipeFrame.visits { p.frame with buffer := p.frame.buffer ++ c.bytes } c.w).map fun v =>
    { v with span := v.span.shift (offset p.cleared) }

structure Written where
  session : String
  span : Span
  deriving DecidableEq

structure Joint where
  recv : List (String × RequestMessage)
  job : Option Worker.Job
  logger : Worker.WorkerStream
  unix : List UInt8
  stdout : List UInt8
  workerStream : WorkerStream
  crashed : Bool
  pipe : Pipe
  written : List Written
  visits : List Visit

inductive Action where
  | send (sessionId : String) (msg : RequestMessage)
  | start
  | line (line : List UInt8)
  | finish (pyErr : Option String) (ts : String)
  | log (level : LogLevel) (msg : String) (tags : List (String × LogValue)) (ts : String)
  | flush (n : Nat)
  | worker (n : Nat)
  | stdout (n : Nat) (bound : String → Bool) (w : Nat → IoResult Unit)

namespace Scan

variable {buffer : List UInt8} {w : Nat → IoResult Unit} {s : Scan}

theorem mem_visits {l : List Span} {v : Visit} (h : v ∈ s.visits buffer w l) : v.span ∈ l := by
  induction l generalizing s with
  | nil => simp [visits] at h
  | cons span l ih =>
    rw [visits] at h
    split at h
    · cases h
    · rcases List.mem_cons.mp h with rfl | h
      · exact List.mem_cons_self
      · exact List.mem_cons_of_mem _ (ih h)

theorem visits_failed {e : IoError} (l : List Span) (h : s.err = some e) :
    s.visits buffer w l = [] := by
  cases l with
  | nil => rfl
  | cons span l => simp [visits, h]

theorem line_echoed {span : Span} (herr : s.err = none) (hsession : s.session = none)
    (text : spanMark buffer span = .text) (hw : w span.stop = .ok ()) :
    (s.line buffer w span).err = none ∧ (s.line buffer w span).session = none := by
  have hskip : ∀ t ∈ skip (spanMark buffer) s.session span, w t.stop = .ok () := by
    intro t ht
    rw [hsession] at ht
    obtain rfl : t = span := by simpa [skip, text] using ht
    exact hw
  obtain ⟨h1, h2, -, -⟩ := line_ok herr hskip
  rw [text, hsession] at h2
  exact ⟨h1, h2⟩

theorem visits_echoed {pre : List Span} (l : List Span) (herr : s.err = none)
    (hsession : s.session = none) (text : ∀ t ∈ pre, spanMark buffer t = .text)
    (hw : ∀ t ∈ pre, w t.stop = .ok ()) : ∃ s' : Scan, s'.err = none ∧ s'.session = none ∧
      s.visits buffer w (pre ++ l) = pre.map (⟨·, none⟩) ++ s'.visits buffer w l := by
  induction pre generalizing s with
  | nil => exact ⟨s, herr, hsession, rfl⟩
  | cons span pre ih =>
    obtain ⟨h1, h2⟩ := line_echoed herr hsession (text span (by simp)) (hw span (by simp))
    obtain ⟨s', h1', h2', h⟩ := ih h1 h2 (fun t ht => text t (by simp [ht]))
      (fun t ht => hw t (by simp [ht]))
    refine ⟨s', h1', h2', ?_⟩
    rw [List.cons_append, visits, herr, h, hsession]
    rfl

theorem visits_refused {pre : List Span} (l : List Span) (herr : s.err = none)
    (hsession : s.session = none) (text : ∀ t ∈ pre, spanMark buffer t = .text)
    (hw : ∃ t ∈ pre, w t.stop ≠ .ok ()) : ∀ v ∈ s.visits buffer w (pre ++ l), v.span ∈ pre := by
  induction pre generalizing s with
  | nil =>
    obtain ⟨t, ht, -⟩ := hw
    cases ht
  | cons span pre ih =>
    intro v hv
    rw [List.cons_append, visits, herr] at hv
    rcases List.mem_cons.mp hv with rfl | hv
    · exact List.mem_cons_self
    · cases hr : w span.stop with
      | ok u =>
        obtain ⟨h1, h2⟩ := line_echoed herr hsession (text span (by simp)) hr
        refine List.mem_cons_of_mem _ (ih h1 h2 (fun t ht => text t (by simp [ht])) ?_ v hv)
        obtain ⟨t, ht, hbad⟩ := hw
        rcases List.mem_cons.mp ht with rfl | ht
        · exact absurd hr hbad
        · exact ⟨t, ht, hbad⟩
      | error e =>
        have hskip : span ∈ skip (spanMark buffer) s.session span := by
          simp [skip, text span (by simp), hsession]
        have hbad : w span.stop ≠ .ok () := by
          rw [hr]
          intro h
          cases h
        obtain ⟨e', he'⟩ := Option.ne_none_iff_exists'.mp (line_refused herr hskip hbad)
        rw [visits_failed _ he'] at hv
        cases hv

end Scan

namespace Joint

variable (mc : MessageCodecs)

def step (s : Joint) (a : Action) : Option Joint :=
  if s.crashed then none
  else match a with
  | .send sessionId msg => some { s with recv := s.recv ++ [(sessionId, msg)] }
  | .start =>
    match s.job, s.recv with
    | none, (sessionId, msg) :: recv =>
      let job : Worker.Job := ⟨sessionId, msg⟩
      some { s with recv := recv, job := some job, logger := job.start mc s.logger }
    | _, _ => none
  | .line line =>
    match s.job with
    | some job =>
      if job.executes ∧ newline ∉ line then
        let start := (s.pipe.seen ++ s.stdout).length
        some { s with
          stdout := s.stdout ++ line ++ [newline]
          written := s.written ++ [⟨job.sessionId, ⟨start, start + line.length⟩⟩] }
      else none
    | none => none
  | .finish pyErr ts =>
    match s.job with
    | some job => some { s with job := none, logger := job.finish mc s.logger pyErr ts }
    | none => none
  | .log level msg tags ts => some { s with logger := s.logger.log mc level msg tags ts }
  | .flush n =>
    if n ≤ s.logger.outbuffer.length then
      match s.logger.write (.ok n) with
      | .ok logger => some { s with logger := logger, unix := s.unix ++ s.logger.outbuffer.take n }
      | .error _ => some s
    else none
  | .worker n =>
    if s.unix.take n = [] then none
    else match s.workerStream.read mc (.ok (s.unix.take n)) with
    | (.panic _, workerStream) =>
      some { s with unix := s.unix.drop n, workerStream := workerStream, crashed := true }
    | (_, workerStream) => some { s with unix := s.unix.drop n, workerStream := workerStream }
  | .stdout n bound w =>
    let c : Chunk := ⟨s.stdout.take n, bound, w⟩
    match s.pipe.step c with
    | none => none
    | some pipe =>
      some { s with
        stdout := s.stdout.drop n
        pipe := pipe
        visits := s.visits ++ s.pipe.visits c }

def init (startup : List (List UInt8)) : Joint where
  recv := []
  job := none
  logger := .new 0
  unix := []
  stdout := unlines newline startup
  workerStream := .new ro
  crashed := false
  pipe := Pipe.fresh
  written := []
  visits := []

def machine (startup : List (List UInt8)) : Machine Joint Action := ⟨init startup, step mc⟩

def Attributed (s : Joint) : Prop :=
  ∀ v ∈ s.visits, ∀ x ∈ s.written, v.span = x.span → v.session = some x.session

def Silent (startup : List (List UInt8)) (s : Joint) : Action → Prop
  | .stdout n _ w => (∀ t ∈ place 0 startup, w t.stop = .ok ()) →
      ∀ x ∈ s.written, (s.pipe.seen ++ s.stdout.take n).length ≤ x.span.stop
  | _ => True

variable {mc : MessageCodecs} {startup : List (List UInt8)} {s s' : Joint} {a : Action}

inductive StepCase (s : Joint) (a : Action) (s' : Joint) : Prop where
  | read (n : Nat) (bound : String → Bool) (w : Nat → IoResult Unit)
      (action : a = .stdout n bound w) (step : s.pipe.step ⟨s.stdout.take n, bound, w⟩ = some s'.pipe)
      (stdout : s'.stdout = s.stdout.drop n) (written : s'.written = s.written)
      (visits : s'.visits = s.visits ++ s.pipe.visits ⟨s.stdout.take n, bound, w⟩)
  | line (session : String) (line : List UInt8) (action : a = .line line) (clean : newline ∉ line)
      (pipe : s'.pipe = s.pipe) (stdout : s'.stdout = s.stdout ++ line ++ [newline])
      (written : s'.written = s.written ++ [⟨session, (s.pipe.seen ++ s.stdout).length,
        (s.pipe.seen ++ s.stdout).length + line.length⟩])
      (visits : s'.visits = s.visits)
  | other (silent : ∀ startup, Silent startup s a) (pipe : s'.pipe = s.pipe)
      (stdout : s'.stdout = s.stdout) (written : s'.written = s.written)
      (visits : s'.visits = s.visits)

theorem step_cases (h : step mc s a = some s') : StepCase s a s' := by
  simp only [step] at h
  split at h
  · cases h
  · cases a with
    | send sessionId msg =>
      obtain rfl := Option.some.inj h
      exact .other (fun _ => trivial) rfl rfl rfl rfl
    | start =>
      simp only at h
      split at h
      · obtain rfl := Option.some.inj h
        exact .other (fun _ => trivial) rfl rfl rfl rfl
      · cases h
    | line line =>
      simp only at h
      split at h
      · split at h
        · rename_i job _ hline
          obtain rfl := Option.some.inj h
          exact .line job.sessionId line rfl hline.2 rfl rfl rfl rfl
        · cases h
      · cases h
    | finish pyErr ts =>
      simp only at h
      split at h
      · obtain rfl := Option.some.inj h
        exact .other (fun _ => trivial) rfl rfl rfl rfl
      · cases h
    | log level msg tags ts =>
      obtain rfl := Option.some.inj h
      exact .other (fun _ => trivial) rfl rfl rfl rfl
    | flush n =>
      simp only at h
      split at h
      · split at h
        · obtain rfl := Option.some.inj h
          exact .other (fun _ => trivial) rfl rfl rfl rfl
        · obtain rfl := Option.some.inj h
          exact .other (fun _ => trivial) rfl rfl rfl rfl
      · cases h
    | worker n =>
      simp only at h
      split at h
      · cases h
      · split at h
        · obtain rfl := Option.some.inj h
          exact .other (fun _ => trivial) rfl rfl rfl rfl
        · obtain rfl := Option.some.inj h
          exact .other (fun _ => trivial) rfl rfl rfl rfl
    | stdout n bound w =>
      simp only at h
      split at h
      · cases h
      · rename_i pipe hpipe
        obtain rfl := Option.some.inj h
        exact .read n bound w rfl hpipe rfl rfl rfl

structure Inv (startup : List (List UInt8)) (s : Joint) : Prop where
  pipe : s.pipe.broken = false → s.pipe.Inv
  bytes : ∃ lines, (∀ l ∈ lines, newline ∉ l) ∧
    s.pipe.seen ++ s.stdout = unlines newline (startup ++ lines) ∧
    s.written.map (·.span) = place (unlines newline startup).length lines
  visited : ∀ v ∈ s.visits, v.span.stop < s.pipe.seen.length

structure Unmarked (s : Joint) : Prop where
  visits : ∀ v ∈ s.visits, ∀ x ∈ s.written, v.span ≠ x.span
  pending : s.pipe.broken = false →
    s.pipe.cleared = none ∧ ∀ x ∈ s.written, s.pipe.seen.length ≤ x.span.stop

def Spoiled (s : Joint) : Prop := ∃ v ∈ s.visits, ∃ x ∈ s.written, v.span = x.span ∧ v.session = none

theorem Unmarked.attributed (h : s.Unmarked) : s.Attributed :=
  fun v hv x hx heq => absurd heq (h.visits v hv x hx)

theorem Spoiled.not_attributed (h : s.Spoiled) : ¬ s.Attributed := by
  obtain ⟨v, hv, x, hx, heq, hnone⟩ := h
  intro ha
  have hsome := ha v hv x hx heq
  rw [hnone] at hsome
  cases hsome

theorem visits_stop {p : Pipe} {c : Chunk} (h : p.Inv) {v : Visit} (hv : v ∈ p.visits c) :
    v.span.stop < (p.seen ++ c.bytes).length := by
  obtain ⟨u, hu, rfl⟩ := List.mem_map.mp hv
  have hbuf : p.frame.buffer ++ c.bytes = (p.seen ++ c.bytes).drop (offset p.cleared) := by
    rw [h.buffer, List.drop_append_of_le_length h.cut.offset_le]
  have hu := Scan.mem_visits hu
  simp only [hbuf] at hu
  exact Pipe.window_stop h (List.mem_map_of_mem hu)

theorem step_inv (h : Inv startup s) (hs : step mc s a = some s') : Inv startup s' := by
  obtain ⟨lines, hclean, hbytes, hspans⟩ := h.bytes
  cases step_cases hs with
  | read n bound w _ hp hout hw hv =>
    have hinv := h.pipe (Pipe.step_running hp)
    obtain ⟨hseen, hcase⟩ := Pipe.step_spec hinv hp
    refine ⟨fun hb => ?_, ⟨lines, hclean, ?_, hw ▸ hspans⟩, ?_⟩
    · exact (Pipe.step_unbroken hinv hp hb).2.1
    · rw [hseen, hout, List.append_assoc, List.take_append_drop]
      exact hbytes
    · intro v hmem
      rw [hv] at hmem
      rw [hseen]
      rcases List.mem_append.mp hmem with hold | hnew
      · exact Nat.lt_of_lt_of_le (h.visited v hold) (by simp)
      · exact visits_stop hinv hnew
  | line session line _ hline hp hout hw hv =>
    refine ⟨hp ▸ h.pipe, ⟨lines ++ [line], ?_, ?_, ?_⟩, hp ▸ hv ▸ h.visited⟩
    · intro l hl
      rcases List.mem_append.mp hl with hl | hl
      · exact hclean l hl
      · rw [List.mem_singleton.mp hl]
        exact hline
    · rw [hp, hout, ← List.append_assoc, ← List.append_assoc, hbytes, ← List.append_assoc startup,
        unlines_append newline (startup ++ lines)]
      simp [unlines]
    · rw [hw, List.map_append, hspans, place_append newline, hbytes, unlines_append,
        List.length_append]
      rfl
  | other _ hp hout hw hv => exact ⟨hp ▸ h.pipe, ⟨lines, hclean, by rw [hp, hout]; exact hbytes, hw ▸ hspans⟩,
      hp ▸ hv ▸ h.visited⟩

theorem spoiled_step (h : s.Spoiled) (hs : step mc s a = some s') : s'.Spoiled := by
  obtain ⟨v, hv, x, hx, heq, hnone⟩ := h
  cases step_cases hs with
  | read _ _ _ _ _ _ hw hvis => exact ⟨v, by simp [hvis, hv], x, hw ▸ hx, heq, hnone⟩
  | line _ _ _ _ _ _ hw hvis => exact ⟨v, hvis ▸ hv, x, by simp [hw, hx], heq, hnone⟩
  | other _ _ _ hw hvis => exact ⟨v, hvis ▸ hv, x, hw ▸ hx, heq, hnone⟩

theorem place_bounds {ls : List (List UInt8)} {pos : Nat} {t : Span} (h : t ∈ place pos ls) :
    pos ≤ t.stop ∧ t.stop < pos + (unlines newline ls).length := by
  obtain ⟨above, row, below, rfl, rfl⟩ := mem_place newline h
  simp only [unlines_append, unlines_cons, List.length_append, List.length_cons]
  omega

section
variable (quiet : ∀ l ∈ startup, newline ∉ l ∧ lineMark l = .text) {lines : List (List UInt8)}
  {b rest : List UInt8} (clean : ∀ l ∈ lines, newline ∉ l)
  (eq : b ++ rest = unlines newline (startup ++ lines))
include quiet eq

include clean in
theorem stream_spans : spans newline b =
    (place 0 startup ++ place (unlines newline startup).length lines).filter
      fun s => s.stop < b.length := by
  have hall : ∀ l ∈ startup ++ lines, newline ∉ l := by
    intro l hl
    rcases List.mem_append.mp hl with hl | hl
    · exact (quiet l hl).1
    · exact clean l hl
  have hplace := spansFrom_unlines newline 0 hall
  rw [place_append newline, Nat.zero_add, ← eq] at hplace
  rw [spans_initial b rest, spans, hplace]

theorem startup_text {t : Span} (ht : t ∈ place 0 startup) (hlt : t ∈ spans newline b) :
    spanMark b t = .text := by
  obtain ⟨above, row, below, rfl, rfl⟩ := mem_place newline ht
  rw [← spanMark_append rest hlt, eq, List.append_assoc, List.cons_append, Nat.zero_add,
    Block.spanMark_row]
  exact (quiet row (by simp)).2

end

section
variable (quiet : ∀ l ∈ startup, newline ∉ l ∧ lineMark l = .text) {lines : List (List UInt8)}
  {b rest : List UInt8} (clean : ∀ l ∈ lines, newline ∉ l)
  (eq : b ++ rest = unlines newline (startup ++ lines))
include quiet clean eq

theorem early_startup
    (none : ∀ t ∈ place (unlines newline startup).length lines, b.length ≤ t.stop) :
    (∀ t ∈ spans newline b, t ∈ place 0 startup) ∧ inForce b = .none := by
  have hin : ∀ t ∈ spans newline b, t ∈ place 0 startup := by
    intro t ht
    have hmem := ht
    rw [stream_spans quiet clean eq] at hmem
    obtain ⟨hmem, hlt⟩ := List.mem_filter.mp hmem
    rcases List.mem_append.mp hmem with hmem | hmem
    · exact hmem
    · exact absurd (of_decide_eq_true hlt) (Nat.not_lt.mpr (none t hmem))
  refine ⟨hin, ?_⟩
  rw [inForce]
  exact owner_text _ (fun t ht => startup_text quiet eq (hin t ht) ht) .none

theorem first_line {x : Span} (hx : x ∈ place (unlines newline startup).length lines)
    (hlt : x.stop < b.length) :
    ∃ first ∈ place (unlines newline startup).length lines, ∃ post,
      spans newline b = place 0 startup ++ first :: post := by
  have hstartup : (place 0 startup).filter (fun s => s.stop < b.length) = place 0 startup := by
    rw [List.filter_eq_self]
    intro t ht
    have hb := (place_bounds ht).2
    have hk := (place_bounds hx).1
    exact decide_eq_true (by omega)
  have hspans := stream_spans quiet clean eq
  rw [List.filter_append, hstartup] at hspans
  have hmem : x ∈ (place (unlines newline startup).length lines).filter fun s => s.stop < b.length :=
    List.mem_filter.mpr ⟨hx, decide_eq_true hlt⟩
  cases hfilter : (place (unlines newline startup).length lines).filter fun s => s.stop < b.length with
  | nil =>
    rw [hfilter] at hmem
    cases hmem
  | cons first post =>
    have hfirst : first ∈ (place (unlines newline startup).length lines).filter
        fun s => s.stop < b.length := by rw [hfilter]; exact List.mem_cons_self
    exact ⟨first, (List.mem_filter.mp hfirst).1, post, by rw [hspans, hfilter]⟩

end

theorem visits_uncleared {p : Pipe} {c : Chunk} (h : p.Inv) (hcleared : p.cleared = none)
    (hnone : inForce p.seen = none) : p.visits c =
      Scan.visits (p.seen ++ c.bytes) c.w ⟨none, none, [], [], none⟩
        (spans newline (p.seen ++ c.bytes)) := by
  have hbuf : p.frame.buffer = p.seen := by
    rw [h.buffer, hcleared]
    rfl
  have hid : (fun v : Visit => { v with span := v.span.shift 0 }) = id := rfl
  rw [Pipe.visits, PipeFrame.visits, hbuf, h.session, hnone, hcleared]
  exact (congrArg (List.map · _) hid).trans (List.map_id _)

theorem unmarked_read (quiet : ∀ l ∈ startup, newline ∉ l ∧ lineMark l = .text)
    (h : Inv startup s) (hu : s.Unmarked) {n : Nat} {bound : String → Bool}
    {w : Nat → IoResult Unit} (hp : s.pipe.step ⟨s.stdout.take n, bound, w⟩ = some s'.pipe)
    (hw : s'.written = s.written)
    (hv : s'.visits = s.visits ++ s.pipe.visits ⟨s.stdout.take n, bound, w⟩) :
    Silent startup s (.stdout n bound w) ∧ s'.Unmarked ∨
      ¬ Silent startup s (.stdout n bound w) ∧ s'.Spoiled := by
  obtain ⟨lines, hclean, hbytes, hspans⟩ := h.bytes
  have hinv := h.pipe (Pipe.step_running hp)
  obtain ⟨hcleared, hlate⟩ := hu.pending (Pipe.step_running hp)
  obtain ⟨hseen, hcase⟩ := Pipe.step_spec hinv hp
  have hplaced : ∀ t ∈ place (unlines newline startup).length lines, ∃ x ∈ s.written, x.span = t := by
    intro t ht
    rw [← hspans] at ht
    exact List.mem_map.mp ht
  have hwritten : ∀ x ∈ s.written, x.span ∈ place (unlines newline startup).length lines :=
    fun x hx => hspans ▸ List.mem_map_of_mem hx
  have hnone : inForce s.pipe.seen = none := by
    refine (early_startup quiet hclean hbytes fun t ht => ?_).2
    obtain ⟨x, hx, rfl⟩ := hplaced t ht
    exact hlate x hx
  have hvisits := @visits_uncleared s.pipe ⟨s.stdout.take n, bound, w⟩ hinv hcleared hnone
  have hprefix : (s.pipe.seen ++ s.stdout.take n) ++ s.stdout.drop n =
      unlines newline (startup ++ lines) := by
    rw [List.append_assoc, List.take_append_drop]
    exact hbytes
  have hdistinct : ∀ t ∈ place 0 startup, ∀ x ∈ s.written, t ≠ x.span := by
    intro t ht x hx heq
    have h1 := (place_bounds ht).2
    have h2 := (place_bounds (hwritten x hx)).1
    rw [heq] at h1
    omega
  have hfresh : (∀ v ∈ s.pipe.visits ⟨s.stdout.take n, bound, w⟩, v.span ∈ place 0 startup) →
      ∀ v ∈ s'.visits, ∀ x ∈ s'.written, v.span ≠ x.span := by
    intro hin v hmem x hx
    rw [hw] at hx
    rw [hv] at hmem
    rcases List.mem_append.mp hmem with hold | hnew
    · exact hu.visits v hold x hx
    · exact hdistinct _ (hin v hnew) x hx
  by_cases hany : ∃ x ∈ s.written, x.span.stop < (s.pipe.seen ++ s.stdout.take n).length
  · obtain ⟨x, hx, hlt⟩ := hany
    obtain ⟨first, hfirst, post, hsplit⟩ := first_line quiet hclean hprefix (hwritten x hx) hlt
    have htext : ∀ t ∈ place 0 startup, spanMark (s.pipe.seen ++ s.stdout.take n) t = .text :=
      fun t ht => startup_text quiet hprefix ht (by simp [hsplit, ht])
    rw [hsplit] at hvisits
    by_cases hecho : ∀ t ∈ place 0 startup, w t.stop = .ok ()
    · right
      refine ⟨fun hsilent => absurd (hsilent hecho x hx) (Nat.not_le.mpr hlt), ?_⟩
      obtain ⟨s₁, herr, hsession, heq⟩ := @Scan.visits_echoed _ w ⟨none, none, [], [], none⟩ _
        (first :: post) rfl rfl htext hecho
      obtain ⟨x₀, hx₀, hspan⟩ := hplaced first hfirst
      refine ⟨⟨first, none⟩, ?_, x₀, hw ▸ hx₀, hspan.symm, rfl⟩
      rw [hv, hvisits, heq, Scan.visits, herr, hsession]
      simp
    · left
      refine ⟨fun hsilent => absurd hsilent hecho, hfresh ?_, fun hb => ?_⟩
      · rw [hvisits]
        exact Scan.visits_refused _ rfl rfl htext (by simpa using hecho)
      · rcases hcase with ⟨-, hbroken, -⟩ | ⟨hwr, -⟩
        · rw [hb] at hbroken
          cases hbroken
        · have hskip : ∀ t ∈ place 0 startup, w t.stop = .ok () := by
            intro t ht
            simp only [Pipe.Written, hcleared, hnone] at hwr
            refine hwr t ?_
            show t ∈ skipped (spanMark (s.pipe.seen ++ s.stdout.take n)) none
              (spans newline (s.pipe.seen ++ s.stdout.take n))
            rw [hsplit, skipped_text _ _ htext]
            exact List.mem_append_left _ ht
          exact absurd hskip hecho
  · left
    have hlate' : ∀ x ∈ s.written, (s.pipe.seen ++ s.stdout.take n).length ≤ x.span.stop := by
      intro x hx
      exact Nat.not_lt.mp fun hlt => hany ⟨x, hx, hlt⟩
    obtain ⟨hin, hout⟩ := early_startup quiet hclean hprefix fun t ht => by
      obtain ⟨x, hx, rfl⟩ := hplaced t ht
      exact hlate' x hx
    refine ⟨fun _ => hlate', hfresh fun v hmem => ?_, fun hb => ⟨?_, ?_⟩⟩
    · rw [hvisits] at hmem
      exact hin _ (Scan.mem_visits hmem)
    · obtain ⟨-, -, hkept⟩ := Pipe.step_unbroken hinv hp hb
      rw [hkept (by rw [hseen]; exact hout), hcleared]
    · rw [hw, hseen]
      exact hlate'

theorem unmarked_step (quiet : ∀ l ∈ startup, newline ∉ l ∧ lineMark l = .text)
    (h : Inv startup s) (hu : s.Unmarked) (hs : step mc s a = some s') :
    Silent startup s a ∧ s'.Unmarked ∨ ¬ Silent startup s a ∧ s'.Spoiled := by
  cases step_cases hs with
  | read n bound w action hp _ hw hv =>
    rw [action]
    exact unmarked_read quiet h hu hp hw hv
  | line session line action _ hp _ hw hv =>
    left
    rw [action]
    refine ⟨trivial, fun v hmem x hx => ?_, fun hb => ?_⟩
    · rw [hv] at hmem
      rw [hw] at hx
      rcases List.mem_append.mp hx with hold | hnew
      · exact hu.visits v hmem x hold
      · rw [List.mem_singleton.mp hnew]
        intro heq
        have hlt := h.visited v hmem
        have hstop := congrArg Span.stop heq
        simp only [List.length_append] at hstop
        omega
    · rw [hp] at hb ⊢
      obtain ⟨hcleared, hlate⟩ := hu.pending hb
      refine ⟨hcleared, fun x hx => ?_⟩
      rw [hw] at hx
      rcases List.mem_append.mp hx with hold | hnew
      · exact hlate x hold
      · rw [List.mem_singleton.mp hnew]
        simp only [List.length_append]
        omega
  | other silent hp _ hw hv =>
    refine .inl ⟨silent startup, fun v hmem x hx => ?_, fun hb => ?_⟩
    · rw [hv] at hmem
      rw [hw] at hx
      exact hu.visits v hmem x hx
    · rw [hp] at hb ⊢
      rw [hw]
      exact hu.pending hb

theorem init_inv : Inv startup (init startup) where
  pipe _ := Pipe.inv_fresh
  bytes := ⟨[], by simp, by simp [init, Pipe.fresh], rfl⟩
  visited := by simp [init]

theorem init_unmarked : (init startup).Unmarked :=
  ⟨by simp [init], fun _ => ⟨rfl, by simp [init]⟩⟩

theorem run_cases (quiet : ∀ l ∈ startup, newline ∉ l ∧ lineMark l = .text) {acts : List Action}
    (run : (machine mc startup).exec acts = some s) : Inv startup s ∧
      ((machine mc startup).Along (Silent startup) acts ∧ s.Unmarked ∨
        ¬ (machine mc startup).Along (Silent startup) acts ∧ s.Spoiled) := by
  induction acts using List.reverseRecOn generalizing s with
  | nil =>
    obtain rfl := Option.some.inj run
    exact ⟨init_inv, .inl ⟨Machine.along_nil, init_unmarked⟩⟩
  | append_singleton acts a ih =>
    obtain ⟨s₀, hs₀, hs⟩ := (machine mc startup).exec_concat_some run
    obtain ⟨hinv, hcase⟩ := ih hs₀
    have halong : (∀ t, (machine mc startup).exec acts = some t → Silent startup t a) ↔
        Silent startup s₀ a := by
      rw [hs₀]
      exact ⟨fun h => h s₀ rfl, fun h t ht => Option.some.inj ht ▸ h⟩
    rw [Machine.along_concat, halong]
    refine ⟨step_inv hinv hs, ?_⟩
    rcases hcase with ⟨hall, hu⟩ | ⟨hnot, hspoiled⟩
    · rcases unmarked_step quiet hinv hu hs with ⟨hsilent, hu⟩ | ⟨hloud, hspoiled⟩
      · exact .inl ⟨⟨hall, hsilent⟩, hu⟩
      · exact .inr ⟨fun h => hloud h.2, hspoiled⟩
    · exact .inr ⟨fun h => hnot h.1, spoiled_step hspoiled hs⟩

theorem attributed_iff_silent (mc : MessageCodecs) {startup : List (List UInt8)}
    (quiet : ∀ l ∈ startup, newline ∉ l ∧ lineMark l = .text) {acts : List Action} {s : Joint}
    (run : (machine mc startup).exec acts = some s) :
    (∀ v ∈ s.visits, ∀ x ∈ s.written, v.span = x.span → v.session = some x.session) ↔
      (machine mc startup).Along (Silent startup) acts := by
  obtain ⟨-, ⟨hall, hu⟩ | ⟨hnot, hspoiled⟩⟩ := run_cases quiet run
  · exact iff_of_true hu.attributed hall
  · exact iff_of_false hspoiled.not_attributed hnot

def greeting : List (List UInt8) := [asBytes "started"]

-- the line of the request is on the pipe, and the read stops before its newline
def unread : List Action :=
  [.send Pipe.sessionA (.codeString ⟨"1", "print('x')", [], []⟩), .start, .flush 109, .worker 109,
    .line (asBytes "x"), .finish none "", .stdout 9 (fun _ => true) fun _ => .ok ()]

theorem silent_unread : (∃ s, (machine fixintMessages greeting).exec unread = some s ∧
    s.written = [⟨Pipe.sessionA, ⟨8, 9⟩⟩] ∧ s.stdout = [newline]) ∧
      (machine fixintMessages greeting).Along (Silent greeting) unread := by
  have hrun : ((machine fixintMessages greeting).exec unread).map (fun s => (s.visits, s.written, s.stdout)) =
      some ([⟨⟨0, 7⟩, none⟩], [⟨Pipe.sessionA, ⟨8, 9⟩⟩], [newline]) := by decide +kernel
  obtain ⟨s, hs, heq⟩ := Option.map_eq_some_iff.mp hrun
  simp only [Prod.mk.injEq] at heq
  obtain ⟨hvisits, hwritten, hstdout⟩ := heq
  refine ⟨⟨s, hs, hwritten, hstdout⟩, (attributed_iff_silent fixintMessages (by decide) hs).mp fun v hv x hx same => ?_⟩
  rw [hvisits, List.mem_singleton] at hv
  rw [hwritten, List.mem_singleton] at hx
  subst hv hx
  cases same

def printing : List Action :=
  [.send Pipe.sessionA (.codeString ⟨"1", "print('x')", [], []⟩), .start, .flush 109, .worker 109,
    .line (asBytes "x"), .finish none "", .stdout 10 (fun _ => true) fun _ => .ok ()]

theorem marker_misses_pipe : ¬ ∀ s, (machine fixintMessages greeting).exec printing = some s →
    ∀ v ∈ s.visits, ∀ x ∈ s.written, v.span = x.span → v.session = some x.session := by
  have hrun : ((machine fixintMessages greeting).exec printing).map
      (fun s => (s.visits, s.written)) =
      some ([⟨⟨0, 7⟩, none⟩, ⟨⟨8, 9⟩, none⟩], [⟨Pipe.sessionA, ⟨8, 9⟩⟩]) := by decide +kernel
  obtain ⟨s, hs, heq⟩ := Option.map_eq_some_iff.mp hrun
  obtain ⟨hvisits, hwritten⟩ := Prod.mk.inj heq
  intro h
  have hx := h s hs ⟨⟨8, 9⟩, none⟩ (by simp [hvisits]) ⟨Pipe.sessionA, ⟨8, 9⟩⟩ (by simp [hwritten]) rfl
  cases hx

end Joint
end PyProxy.Master
