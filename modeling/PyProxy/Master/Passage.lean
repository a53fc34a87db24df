import PyProxy.Master.Isolation
import PyProxy.Master.RunForever
import PyProxy.Stream.Text

namespace PyProxy.Master
open Stream Protocol Server Lines Sections

-- what the reads of one pipe have written to the master's own output and delivered to sessions
structure Passage where
  written : List UInt8
  delivered : List (String × List UInt8)
  frame : PipeFrame
  broken : Bool

namespace Passage

def fresh : Passage := ⟨[], [], .new 0, false⟩

def pass (p : Passage) (c : Chunk) : Passage :=
  if p.broken then p
  else match p.frame.read c.w (.ok c.bytes) with
    | (.error _, written, frame) =>
      { p with written := p.written ++ written, frame := frame, broken := true }
    | (.ok none, written, frame) => { p with written := p.written ++ written, frame := frame }
    | (.ok (some (sessionId, lines)), written, frame) =>
      { p with
        written := p.written ++ written
        delivered := p.delivered ++
          if c.bound sessionId then lines.map fun l => (sessionId, slice frame.buffer l) else []
        frame := frame.clear }

def passAll (chunks : List Chunk) : Passage := chunks.foldl pass fresh

def received (chunks : List Chunk) : List UInt8 := chunks.flatMap Chunk.bytes

@[simp] theorem received_nil : received [] = [] := rfl

@[simp] theorem received_cons (c : Chunk) (cs : List Chunk) : received (c :: cs) = c.bytes ++ received cs :=
  rfl

@[simp] theorem received_append (cs cs' : List Chunk) :
    received (cs ++ cs') = received cs ++ received cs' := by simp [received]

def Unmarked (b : List UInt8) : Prop := ∀ line ∈ lines newline b, lineMark line = .text

theorem Unmarked.initial {b c : List UInt8} (h : Unmarked (b ++ c)) : Unmarked b := by
  intro line hline
  apply h
  rw [lines_append]
  exact List.mem_append_left _ hline

theorem Unmarked.later {b c : List UInt8} (h : Unmarked (b ++ c)) :
    Unmarked (unterminated newline b ++ c) := by
  intro line hline
  apply h
  rw [lines_append]
  exact List.mem_append_right _ hline

theorem unmarked_newline {b : List UInt8} (h : Unmarked b) : Unmarked (newline :: b) := by
  intro line hline
  have first : lines newline (newline :: b) = [] :: lines newline b := lines_line newline b List.not_mem_nil
  rw [first] at hline
  rcases List.mem_cons.mp hline with rfl | hline
  · exact lineMark_empty
  · exact h line hline

theorem Unmarked.spans {b : List UInt8} (h : Unmarked b) : ∀ s ∈ spans newline b, spanMark b s = .text :=
  fun _ hs => h _ (List.mem_map_of_mem hs)

theorem lineMark_text {line : List UInt8} (h : lineMark line = .text) :
    startMarker line = none ∧ line ≠ asBytes newRequestEnd := by
  simp only [lineMark] at h
  split at h
  · cases h
  · rename_i hs
    refine ⟨hs, fun he => ?_⟩
    rw [if_pos he] at h
    cases h

section

variable {b : List UInt8} {w : Nat → IoResult Unit} {s : Scan} {l : List Span}

theorem line_inside {S : String} (err : s.err = none) (session : s.session = some S)
    (text : ∀ t ∈ l, spanMark b t = .text) : l.foldl (Scan.line b w) s =
      { s with lastNewline := lastStop s.lastNewline l, lines := s.lines ++ l } := by
  induction l generalizing s with
  | nil => simp [lastStop]
  | cons t l ih =>
    obtain ⟨hs, he⟩ := lineMark_text (text t (by simp))
    have first : s.line b w t = { s with lastNewline := some t.stop, lines := s.lines ++ [t] } := by
      simp [Scan.line, err, hs, he, session]
    rw [List.foldl_cons, first, @ih { s with lastNewline := some t.stop, lines := s.lines ++ [t] } err session
      fun t ht => text t (by simp [ht])]
    simp [lastStop]

theorem line_outside (err : s.err = none) (session : s.session = none)
    (text : ∀ t ∈ l, spanMark b t = .text) (writes : ∀ n, w n = .ok ()) : l.foldl (Scan.line b w) s =
      { s with
        lastNewline := lastStop s.lastNewline l
        written := s.written ++ unlines newline (l.map (slice b)) } := by
  induction l generalizing s with
  | nil => simp [lastStop, unlines]
  | cons t l ih =>
    obtain ⟨hs, he⟩ := lineMark_text (text t (by simp))
    have first : s.line b w t =
        { s with lastNewline := some t.stop, written := s.written ++ slice b t ++ [newline] } := by
      simp [Scan.line, err, hs, he, session, writes]
    rw [List.foldl_cons, first, @ih { s with
      lastNewline := some t.stop, written := s.written ++ slice b t ++ [newline] } err session
      fun t ht => text t (by simp [ht])]
    simp [lastStop]

end

section

variable {p : Passage} {c : Chunk} (running : p.broken = false)
include running

-- the frame after the scan, before it is cleared
def scanned (p : Passage) (c : Chunk) : Scan :=
  PipeFrame.scan { p.frame with buffer := p.frame.buffer ++ c.bytes } c.w

theorem pass_outside (err : (scanned p c).err = none) (session : (scanned p c).session = none) :
    p.pass c = { p with
      written := p.written ++ (scanned p c).written
      frame := ⟨p.frame.recv, p.frame.buffer ++ c.bytes, none, (scanned p c).lastNewline⟩ } := by
  simp only [scanned] at err session ⊢
  simp only [pass, running, Bool.false_eq_true, if_false, PipeFrame.read, err, session, Option.map_none]

theorem pass_inside {S : String} (err : (scanned p c).err = none)
    (session : (scanned p c).session = some S) (bound : c.bound S = true) :
    p.pass c = { p with
      written := p.written ++ (scanned p c).written
      delivered := p.delivered ++
        (scanned p c).lines.map fun l => (S, slice (p.frame.buffer ++ c.bytes) l)
      frame := (⟨p.frame.recv, p.frame.buffer ++ c.bytes, some S,
        (scanned p c).lastNewline⟩ : PipeFrame).clear } := by
  simp only [scanned] at err session ⊢
  simp only [pass, running, Bool.false_eq_true, if_false, PipeFrame.read, err, session, Option.map_some,
    bound, if_true]

omit running in
theorem clear_buffer {f : PipeFrame} (h : newline ∈ f.buffer)
    (last : f.lastNewline = lastStop none (spans newline f.buffer)) :
    f.clear = ⟨f.recv, newline :: unterminated newline f.buffer, f.currentSessionId, none⟩ := by
  obtain ⟨r, hr, hdrop⟩ := lastStop_drop newline h
  rw [hr] at last
  simp only [PipeFrame.clear, last, compact_eq_drop, hdrop]

end

section outside

variable {p : Passage} {c : Chunk}

theorem pass_unmarked (running : p.broken = false) (none : p.frame.currentSessionId = none)
    (text : Unmarked (p.frame.buffer ++ c.bytes)) (writes : ∀ n, c.w n = .ok ()) :
    p.pass c = { p with
      written := p.written ++ terminated newline (p.frame.buffer ++ c.bytes)
      frame := ⟨p.frame.recv, p.frame.buffer ++ c.bytes, Option.none,
        lastStop Option.none (spans newline (p.frame.buffer ++ c.bytes))⟩ } := by
  have scan : scanned p c = _ :=
    (PipeFrame.scan_eq _ _).trans (line_outside rfl none text.spans writes)
  rw [pass_outside running (by rw [scan]) (by rw [scan]; exact none), scan]
  simp only [List.nil_append, ← unlines_lines, lines]

-- every read writes again all complete lines received so far
def rewritten (seen : List UInt8) : List Chunk → List UInt8
  | [] => []
  | c :: cs => terminated newline (seen ++ c.bytes) ++ rewritten (seen ++ c.bytes) cs

theorem rewritten_silent {seen : List UInt8} {chunks : List Chunk}
    (free : newline ∉ seen ++ received chunks) : rewritten seen chunks = [] := by
  induction chunks generalizing seen with
  | nil => rfl
  | cons c cs ih =>
    rw [received_cons, ← List.append_assoc] at free
    rw [rewritten, ih free, terminated_silent newline fun h => free (List.mem_append_left _ h)]
    rfl

theorem passAll_unmarked {chunks : List Chunk} (running : p.broken = false)
    (none : p.frame.currentSessionId = none) (text : Unmarked (p.frame.buffer ++ received chunks))
    (writes : ∀ c ∈ chunks, ∀ n, c.w n = .ok ()) :
    (chunks.foldl pass p).written = p.written ++ rewritten p.frame.buffer chunks ∧
      (chunks.foldl pass p).frame.buffer = p.frame.buffer ++ received chunks := by
  induction chunks generalizing p with
  | nil => simp [rewritten]
  | cons c cs ih =>
    rw [received_cons, ← List.append_assoc] at text ⊢
    have first := pass_unmarked running none text.initial (writes c (by simp))
    rw [List.foldl_cons, first]
    obtain ⟨hw, hb⟩ := @ih { p with
      written := p.written ++ terminated newline (p.frame.buffer ++ c.bytes)
      frame := ⟨p.frame.recv, p.frame.buffer ++ c.bytes, Option.none,
        lastStop Option.none (spans newline (p.frame.buffer ++ c.bytes))⟩ } running rfl text
      fun c hc => writes c (by simp [hc])
    exact ⟨by rw [hw, rewritten, List.append_assoc], hb⟩

theorem passed_through_iff {chunks : List Chunk} (writes : ∀ c ∈ chunks, ∀ n, c.w n = .ok ())
    (text : Unmarked (received chunks)) :
    ((passAll chunks).written = terminated newline (received chunks) ∧
        (passAll chunks).frame.buffer = unterminated newline (received chunks)) ↔
      newline ∉ received chunks := by
  obtain ⟨hw, hb⟩ := @passAll_unmarked fresh chunks rfl rfl text writes
  rw [passAll, hw, hb]
  constructor
  · rintro ⟨-, kept⟩
    have free := unterminated_free newline (received chunks)
    rwa [← kept] at free
  · intro free
    exact ⟨by rw [rewritten_silent free, terminated_silent newline free]; rfl,
      (unterminated_silent newline free).symm⟩

theorem passed_through_unended : (passAll [Pipe.arrival [97], Pipe.arrival [98]]).frame.buffer = [97, 98] := by
  have writes : ∀ c ∈ [Pipe.arrival [97], Pipe.arrival [98]], ∀ n, c.w n = .ok () := by
    simp [Pipe.arrival]
  have text : Unmarked (received [Pipe.arrival [97], Pipe.arrival [98]]) := fun _ h => by cases h
  exact ((passed_through_iff writes text).mpr (by decide)).2

-- a line, and the first byte of the next
theorem line_written_twice :
    ¬ ((passAll [Pipe.arrival [97, 10], Pipe.arrival [98]]).written =
        terminated newline (received [Pipe.arrival [97, 10], Pipe.arrival [98]]) ∧
      (passAll [Pipe.arrival [97, 10], Pipe.arrival [98]]).frame.buffer =
        unterminated newline (received [Pipe.arrival [97, 10], Pipe.arrival [98]])) := by
  decide +kernel

end outside

section inside

variable {p : Passage} {c : Chunk} {S : String} {marker body : List UInt8} {chunks : List Chunk}

theorem pass_running (running : p.broken = false) (session : p.frame.currentSessionId = some S)
    (ended : newline ∈ p.frame.buffer) (text : Unmarked (p.frame.buffer ++ c.bytes))
    (bound : c.bound S = true) : p.pass c = { p with
      delivered := p.delivered ++ (lines newline (p.frame.buffer ++ c.bytes)).map (Prod.mk S)
      frame := ⟨p.frame.recv, newline :: unterminated newline (p.frame.buffer ++ c.bytes), some S, none⟩ } := by
  have scan : scanned p c = _ := (PipeFrame.scan_eq _ _).trans (line_inside rfl session text.spans)
  rw [pass_inside running (by rw [scan]) (by rw [scan]; exact session) bound, scan,
    clear_buffer (List.mem_append_left _ ended) rfl]
  simp only [List.append_nil, List.nil_append, lines, List.map_map]
  rfl

-- the newline kept by `clear` comes back as an empty line at every later read
def echoed (tail : List UInt8) : List Chunk → List (List UInt8)
  | [] => []
  | c :: cs => [] :: lines newline (tail ++ c.bytes) ++ echoed (unterminated newline (tail ++ c.bytes)) cs

theorem echoed_length {tail : List UInt8} (free : newline ∉ tail) (chunks : List Chunk) :
    (echoed tail chunks).length = chunks.length + (lines newline (tail ++ received chunks)).length := by
  induction chunks generalizing tail with
  | nil => simp [echoed, lines_silent newline free]
  | cons c cs ih =>
    rw [echoed, received_cons, ← List.append_assoc, lines_append newline (tail ++ c.bytes)]
    simp only [List.cons_append, List.length_cons, List.length_append, ih (unterminated_free newline _)]
    omega

theorem passAll_running {tail : List UInt8} (running : p.broken = false)
    (session : p.frame.currentSessionId = some S) (kept : p.frame.buffer = newline :: tail)
    (text : Unmarked (tail ++ received chunks)) (bound : ∀ c ∈ chunks, c.bound S = true) :
    (chunks.foldl pass p).delivered = p.delivered ++ (echoed tail chunks).map (Prod.mk S) ∧
      ∃ before, (chunks.foldl pass p).frame.buffer =
        before ++ (if chunks = [] then tail else unterminated newline (tail ++ received chunks)) := by
  induction chunks generalizing p tail with
  | nil => exact ⟨by simp [echoed], [newline], by simp [kept]⟩
  | cons c cs ih =>
    rw [received_cons, ← List.append_assoc] at text ⊢
    have whole : p.frame.buffer ++ c.bytes = newline :: (tail ++ c.bytes) := by rw [kept, List.cons_append]
    have ended : newline ∈ p.frame.buffer := by
      rw [kept]
      exact List.mem_cons_self
    have first := pass_running running session ended
      (by rw [whole]; exact unmarked_newline text.initial) (bound c (by simp))
    have again : lines newline (newline :: (tail ++ c.bytes)) = [] :: lines newline (tail ++ c.bytes) :=
      lines_line newline _ List.not_mem_nil
    have left : unterminated newline (newline :: (tail ++ c.bytes)) = unterminated newline (tail ++ c.bytes) :=
      unterminated_line newline _ List.not_mem_nil
    rw [whole, again, left] at first
    rw [List.foldl_cons, first]
    obtain ⟨hd, before, hb⟩ := @ih { p with
      delivered := p.delivered ++ ([] :: lines newline (tail ++ c.bytes)).map (Prod.mk S)
      frame := ⟨p.frame.recv, newline :: unterminated newline (tail ++ c.bytes), some S, none⟩ }
      (unterminated newline (tail ++ c.bytes)) running rfl rfl text.later fun c hc => bound c (by simp [hc])
    refine ⟨?_, before, ?_⟩
    · rw [hd, echoed, List.map_append, List.append_assoc]
    · rw [hb, if_neg (List.cons_ne_nil _ _), unterminated_append newline (tail ++ c.bytes)]
      split
      · rename_i none
        rw [none, received_nil, List.append_nil, unterminated_silent newline (unterminated_free newline _)]
      · rfl

theorem passAll_silent (running : p.broken = false) (session : p.frame.currentSessionId = none)
    (free : newline ∉ p.frame.buffer ++ received chunks) :
    (chunks.foldl pass p).delivered = p.delivered ∧ (chunks.foldl pass p).broken = false ∧
      (chunks.foldl pass p).frame.currentSessionId = none ∧
      (chunks.foldl pass p).frame.buffer = p.frame.buffer ++ received chunks := by
  induction chunks generalizing p with
  | nil => exact ⟨rfl, running, session, (List.append_nil _).symm⟩
  | cons c cs ih =>
    rw [received_cons, ← List.append_assoc] at free ⊢
    have none : spans newline (p.frame.buffer ++ c.bytes) = [] :=
      spansFrom_silent newline fun h => free (List.mem_append_left _ h)
    have scan : scanned p c = ⟨Option.none, p.frame.currentSessionId, [], [], Option.none⟩ := by
      rw [scanned, PipeFrame.scan_eq]
      simp only [none, List.foldl_nil]
    have first := pass_outside running (by rw [scan]) (by rw [scan]; exact session)
    rw [List.foldl_cons, first]
    exact @ih { p with
      written := p.written ++ (scanned p c).written
      frame := ⟨p.frame.recv, p.frame.buffer ++ c.bytes, Option.none, (scanned p c).lastNewline⟩ }
      running rfl free

theorem pass_marker (started : startMarker marker = some S) (one : newline ∉ marker)
    (running : p.broken = false) (whole : p.frame.buffer ++ c.bytes = marker ++ newline :: body) (text : Unmarked body)
    (bound : c.bound S = true) : p.pass c = { p with
      delivered := p.delivered ++ (lines newline body).map (Prod.mk S)
      frame := ⟨p.frame.recv, newline :: unterminated newline body, some S, none⟩ } := by
  have all : lines newline (marker ++ newline :: body) = marker :: lines newline body :=
    lines_line newline body one
  obtain ⟨first, later, hspans, hfirst, hlater⟩ := List.map_eq_cons_iff.mp all
  have marks : ∀ t ∈ later, spanMark (marker ++ newline :: body) t = .text := by
    intro t ht
    refine text _ ?_
    rw [← hlater]
    exact List.mem_map_of_mem ht
  have scan : scanned p c =
      ⟨lastStop none (spans newline (marker ++ newline :: body)), some S, later, [], none⟩ := by
    have start : Scan.line (marker ++ newline :: body) c.w ⟨none, p.frame.currentSessionId, [], [], none⟩
        first = ⟨some first.stop, some S, [], [], none⟩ := by
      simp [Scan.line, hfirst, started]
    rw [scanned, PipeFrame.scan_eq]
    simp only [whole]
    rw [hspans, List.foldl_cons, start, line_inside rfl rfl marks]
    simp [lastStop]
  have ended : newline ∈ marker ++ newline :: body := by simp
  rw [pass_inside running (by rw [scan]) (by rw [scan]) bound, scan, whole, clear_buffer ended rfl]
  simp only [List.append_nil, unterminated_line newline body one, ← hlater, List.map_map]
  rfl

theorem split_reads {n : Nat} (long : n < (received chunks).length) : ∃ pre c post,
    chunks = pre ++ c :: post ∧ (received pre).length ≤ n ∧ n < (received pre ++ c.bytes).length := by
  induction chunks generalizing n with
  | nil => simp at long
  | cons c cs ih =>
    by_cases here : n < c.bytes.length
    · exact ⟨[], c, cs, rfl, Nat.zero_le _, by simpa using here⟩
    · rw [received_cons, List.length_append] at long
      obtain ⟨pre, c', post, rfl, le, lt⟩ := @ih (n - c.bytes.length) (by omega)
      refine ⟨c :: pre, c', post, rfl, ?_, ?_⟩
      · rw [received_cons, List.length_append]
        omega
      · rw [received_cons, List.append_assoc, List.length_append]
        omega

theorem delivered_once_iff (started : startMarker marker = some S) (one : newline ∉ marker)
    (text : Unmarked body) (whole : received chunks = marker ++ newline :: body)
    (bound : ∀ c ∈ chunks, c.bound S = true) :
    ((passAll chunks).delivered = (lines newline body).map (Prod.mk S) ∧
        unterminated newline body <:+ (passAll chunks).frame.buffer) ↔
      (received chunks.dropLast).length ≤ marker.length := by
  obtain ⟨pre, c, post, rfl, le, lt⟩ := @split_reads chunks marker.length (by
    rw [whole, List.length_append, List.length_cons]
    omega)
  rw [received_append, received_cons, ← List.append_assoc] at whole
  obtain ⟨rest, hrest⟩ : marker ++ [newline] <+: received pre ++ c.bytes := by
    refine List.prefix_of_prefix_length_le ⟨body, by simp⟩ ⟨received post, whole⟩ ?_
    rw [List.length_append, List.length_singleton]
    exact lt
  have rest_body : rest ++ received post = body := by
    rw [← hrest] at whole
    simpa using whole
  have free : newline ∉ received pre := by
    have before : received pre <+: marker := by
      refine List.prefix_of_prefix_length_le ⟨c.bytes ++ received post, ?_⟩ ⟨newline :: body, rfl⟩ le
      rw [← List.append_assoc, whole]
    exact fun h => one (before.subset h)
  subst rest_body
  obtain ⟨hd, hrun, -, hbuf⟩ := @passAll_silent fresh pre rfl rfl free
  have read : (pre.foldl pass fresh).frame.buffer ++ c.bytes = marker ++ newline :: rest := by
    rw [hbuf, show fresh.frame.buffer ++ received pre = received pre from rfl, ← hrest]
    simp
  have marked := pass_marker started one hrun read text.initial (bound c (by simp))
  obtain ⟨hd', before, hb⟩ := @passAll_running _ S post (unterminated newline rest)
    (show ((pre.foldl pass fresh).pass c).broken = false by rw [marked]; exact hrun)
    (by rw [marked]) (by rw [marked]) text.later fun c hc => bound c (by simp [hc])
  have delivered : (passAll (pre ++ c :: post)).delivered =
      (lines newline rest ++ echoed (unterminated newline rest) post).map (Prod.mk S) := by
    have none : fresh.delivered = [] := rfl
    rw [passAll, List.foldl_append, List.foldl_cons, hd', marked, List.map_append]
    simp only [hd, none, List.nil_append]
  have kept : unterminated newline (rest ++ received post) <:+ (passAll (pre ++ c :: post)).frame.buffer := by
    rw [passAll, List.foldl_append, List.foldl_cons, hb, unterminated_append newline rest]
    refine ⟨before, ?_⟩
    split
    · rename_i none
      rw [none, received_nil, List.append_nil, unterminated_silent newline (unterminated_free newline _)]
    · rfl
  have last : (received (pre ++ c :: post).dropLast).length ≤ marker.length ↔ post = [] := by
    cases post with
    | nil => simpa using le
    | cons c' post =>
      refine iff_of_false ?_ (List.cons_ne_nil _ _)
      rw [List.dropLast_append_of_ne_nil (List.cons_ne_nil _ _), List.dropLast_cons_of_ne_nil
        (List.cons_ne_nil _ _), received_append, received_cons, ← List.append_assoc, List.length_append]
      omega
  rw [last, delivered]
  constructor
  · rintro ⟨same, -⟩
    have count := congrArg List.length same
    rw [List.length_map, List.length_map, List.length_append,
      echoed_length (unterminated_free newline rest), lines_append newline rest, List.length_append] at count
    exact List.length_eq_zero_iff.mp (by omega)
  · rintro rfl
    exact ⟨by simp [echoed], kept⟩

def markerA : List UInt8 := asBytes newRequestStart ++ asBytes Pipe.sessionA

def oneRead : List Chunk := [Pipe.arrival (markerA ++ [10, 97, 10])]

theorem delivered_once_oneRead : (passAll oneRead).delivered = [(Pipe.sessionA, [97])] := by
  have started : startMarker markerA = some Pipe.sessionA := by decide +kernel
  have one : newline ∉ markerA := by decide +kernel
  have text : Unmarked [97, 10] := by
    intro line hline
    obtain rfl : line = [97] := by
      have all : lines newline [97, 10] = [[97]] := by decide
      rw [all] at hline
      exact List.mem_singleton.mp hline
    decide +kernel
  have bound : ∀ c ∈ oneRead, c.bound Pipe.sessionA = true := by simp [oneRead, Pipe.arrival]
  have whole : received oneRead = markerA ++ newline :: [97, 10] := rfl
  exact ((delivered_once_iff started one text whole bound).mpr (Nat.zero_le _)).1

-- the line comes with the read after the marker's
theorem empty_line_delivered : ¬ (passAll [Pipe.arrival (markerA ++ [10]), Pipe.arrival [97, 10]]).delivered =
    (lines newline [97, 10]).map (Prod.mk Pipe.sessionA) := by
  decide +kernel

end inside

end Passage

namespace Loop

-- the loop's own handling of a pipe is a `pass`
theorem pipeEvent_pass {c : Loop} {tk : Token} {io : EventIo} {bytes : List UInt8} {p : Passage}
    (send : OutputStream → List UInt8 → OutputStream) (wrap : PipeFrame → IoAction)
    (running : p.broken = false) (read : (c.os.read p.frame.recv bufferSize io.read).1 = .ok bytes) :
    let q := p.pass ⟨bytes, fun sessionId => (c.outputStreams.lookup sessionId).isSome, io.echo⟩
    (c.pipeEvent send wrap tk p.frame io).ioActions = c.ioActions.insert tk (wrap q.frame) ∧
      ∃ sessionId lines, q.delivered = p.delivered ++ lines.map (Prod.mk sessionId) ∧
        (c.pipeEvent send wrap tk p.frame io).outputs = (c.sendLines send sessionId lines).outputs := by
  simp only [pipeEvent, Passage.pass, running, Bool.false_eq_true, if_false]
  generalize c.os.read p.frame.recv bufferSize io.read = r at read ⊢
  obtain ⟨res, os⟩ := r
  dsimp only at read ⊢
  subst read
  have nothing : ∀ sessionId, (c.sendLines send sessionId []).outputs = c.outputs := by
    intro sessionId
    simp only [sendLines]
    split
    · rfl
    · simp
  generalize p.frame.read io.echo (.ok bytes) = r
  obtain ⟨_ | _ | ⟨sessionId, lines⟩, written, frame⟩ := r
  · exact ⟨rfl, "", [], by simp, (nothing "").symm⟩
  · exact ⟨rfl, "", [], by simp, (nothing "").symm⟩
  · dsimp only
    rcases Option.eq_none_or_eq_some (c.outputStreams.lookup sessionId) with hk | ⟨k, hk⟩
    · refine ⟨?_, "", [], by simp [hk], ?_⟩
      · simp [sendLines, hk]
      · rw [nothing]
        simp [sendLines, hk]
    · refine ⟨?_, sessionId, lines.map (slice frame.buffer), ?_, ?_⟩
      · simp [sendLines, hk]
      · simp [hk, List.map_map, Function.comp_def]
      · simp [sendLines, hk]

end Loop
end PyProxy.Master
