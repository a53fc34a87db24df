import PyProxy.Master.Events

namespace PyProxy.Master
open Stream Protocol Server Poll Lines

namespace OutputStream

def frames (msgType : Output.MessageType) (lines : List (List UInt8)) : List UInt8 :=
  lines.flatMap fun line => Output.newMsg ⟨msgType, line.length⟩ line

theorem send_all (msgType : Output.MessageType) (lines : List (List UInt8)) (s : OutputStream) :
    lines.foldl (send msgType) s = { s with outbuffer := s.outbuffer ++ frames msgType lines } := by
  induction lines generalizing s with
  | nil => simp [frames]
  | cons line lines ih =>
    rw [List.foldl_cons, ih]
    simp [send, frames]

end OutputStream

namespace Loop

variable {env : Env} {c c' c'' : Loop} {k : Sock} {io : EventIo} {tk : Token} {ev : Event}

-- what other events do to the output streams: a captured line may be appended
structure Routes (c c' : Loop) : Prop where
  sessions : c'.outputStreams = c.outputStreams
  streams : ∀ k < c.os.next, c'.outputs k = c.outputs k ∨ ∃ sessionId out,
    c.outputStreams.lookup sessionId = some k ∧
      c'.outputs k = { c.outputs k with outbuffer := (c.outputs k).outbuffer ++ out }

theorem routes_of_eq (sessions : c'.outputStreams = c.outputStreams) (outputs : c'.outputs = c.outputs) :
    Routes c c' := ⟨sessions, fun _ _ => .inl (congrFun outputs _)⟩

theorem workerWrite_outputs : (c.workerWrite env ev k io).outputStreams = c.outputStreams ∧
    (c.workerWrite env ev k io).outputs = c.outputs := by
  cases hw : ev.writable with
  | false =>
    simp only [workerWrite, hw]
    exact ⟨rfl, rfl⟩
  | true =>
    have hcase := @workerWrite_cases env c k io ev hw
    generalize c.workerWrite env ev k io = d at hcase ⊢
    cases hcase <;> exact ⟨rfl, rfl⟩

theorem workerEvent_outputs (hc : c.workerEvent env ev k io = .running c') :
    c'.outputStreams = c.outputStreams ∧ c'.outputs = c.outputs := by
  cases hr : ev.readable with
  | false =>
    simp only [workerEvent, hr] at hc
    cases hc
    exact workerWrite_outputs
  | true =>
    obtain ⟨c₁, hread, rfl⟩ := workerEvent_cases hr hc
    cases hread with
    | failed => exact workerWrite_outputs
    | read n bytes read some fits decoded => exact workerWrite_outputs

theorem event_outputs {a : IoAction} (ha : c.ioActions ev.token = some a)
    (hc : c.event env ev io = .running c') (output : a.kind ≠ .outputStream) (stderr : a.kind ≠ .stderr)
    (stdout : a.kind ≠ .stdout) : c'.outputStreams = c.outputStreams ∧
      ∀ j < c.os.next, c'.outputs j = c.outputs j := by
  have of_eq : c'.outputStreams = c.outputStreams ∧ c'.outputs = c.outputs →
      c'.outputStreams = c.outputStreams ∧ ∀ j < c.os.next, c'.outputs j = c.outputs j :=
    fun same => ⟨same.1, fun j _ => congrFun same.2 j⟩
  simp only [event, ha] at hc
  cases a with
  | mainListener k => cases acceptMain_cases hc <;> exact of_eq ⟨rfl, rfl⟩
  | outputListener k =>
    cases hc
    have hcase := c.acceptOutput_cases k io
    generalize c.acceptOutput k io = d at hcase ⊢
    cases hcase with
    | idle none => exact ⟨rfl, fun _ _ => rfl⟩
    | dropped os ready accept ok refused => exact ⟨rfl, fun _ _ => rfl⟩
    | adopted os ready accept ok registered =>
      exact ⟨rfl, fun j hj => Outputs.set_other _ _ (Nat.ne_of_lt hj)⟩
  | unixListener k => cases acceptUnix_cases hc <;> exact of_eq ⟨rfl, rfl⟩
  | clientStream s =>
    cases hc
    simp only [clientEvent]
    generalize s.read (c.os.read s.stream s.room io.read).1 = r
    obtain ⟨_ | _ | _ | _, s'⟩ := r <;> exact ⟨rfl, fun _ _ => rfl⟩
  | workerStream k => exact of_eq (workerEvent_outputs hc)
  | outputStream k => exact absurd rfl output
  | stderr f => exact absurd rfl stderr
  | stdout f => exact absurd rfl stdout

theorem pipeEvent_routes (msgType : Output.MessageType) (wrap : PipeFrame → IoAction) (f : PipeFrame) :
    Routes c (c.pipeEvent (OutputStream.send msgType) wrap tk f io) := by
  have hcase := pipeEvent_cases (OutputStream.send msgType) wrap c tk f io
  generalize c.pipeEvent (OutputStream.send msgType) wrap tk f io = d at hcase ⊢
  cases hcase with
  | failed res os e out f' got read => exact routes_of_eq rfl rfl
  | outside res os out f' got read => exact routes_of_eq rfl rfl
  | unbound res os sessionId lines out f' got read none => exact routes_of_eq rfl rfl
  | sent res os sessionId lines out f' k got read some =>
    refine ⟨rfl, fun j _ => ?_⟩
    by_cases hj : j = k
    · subst hj
      exact .inr ⟨sessionId, _, some, (Outputs.set_same _ _ _).trans (OutputStream.send_all msgType _ _)⟩
    · exact .inl (Outputs.set_other _ _ hj)

theorem event_routes {a : IoAction} (ha : c.ioActions ev.token = some a) (ne : a.kind ≠ .outputStream)
    (hc : c.event env ev io = .running c') : Routes c c' := by
  have hc' := hc
  simp only [event, ha] at hc
  cases a with
  | outputStream k => exact absurd rfl ne
  | stderr f =>
    cases hc
    exact pipeEvent_routes .stderr .stderr f
  | stdout f =>
    cases hc
    exact pipeEvent_routes .stdout .stdout f
  | _ =>
    obtain ⟨sessions, outputs⟩ := event_outputs ha hc' ne Kind.noConfusion Kind.noConfusion
    exact ⟨sessions, fun k hk => .inl (outputs k hk)⟩

theorem outputRead_unbound (unbound : (c.outputs k).sessionId = none) (ev : Event) (io : EventIo) :
    ((c.outputRead env ev k io).outputs k).sessionId = none := by
  cases hr : ev.readable with
  | false => simpa only [outputRead, hr, Bool.false_eq_true, if_false] using unbound
  | true =>
    have hcase := @outputRead_cases env c k io ev unbound hr
    generalize c.outputRead env ev k io = d at hcase ⊢
    cases hcase with
    | failed res os e s got read =>
      have wait := (OutputStream.read_error env.bc read).trans unbound
      exact (congrArg OutputStream.sessionId (Outputs.set_same _ _ _)).trans wait
    | more res os s got read wait =>
      exact (congrArg OutputStream.sessionId (Outputs.set_same _ _ _)).trans wait
    | refused res os s sessionId got read hello no =>
      exact congrArg OutputStream.sessionId (Outputs.set_same _ _ _)
    | bound res os s sessionId got read hello registered =>
      exact congrArg OutputStream.sessionId (Outputs.set_same _ _ _)

theorem outputRead_others {j : Sock} (hj : j ≠ k) : (c.outputRead env ev k io).outputs j = c.outputs j := by
  have opened : ∀ (d : Loop) (refused : Bool), (d.openOutput ev.token k refused).outputs j = d.outputs j := by
    intro d refused
    simp only [openOutput]
    split
    · exact Outputs.set_other _ _ hj
    · split <;> exact Outputs.set_other _ _ hj
  have dropped : ∀ {ε T : Type} (d : Loop) (res : Except ε T),
      (d.dropIfErr ev.token k res).outputs = d.outputs := by
    intro ε T d res
    cases res <;> rfl
  simp only [outputRead]
  split
  · rw [opened, dropped]
    exact Outputs.set_other _ _ hj
  · rfl

-- what the event of output stream `k` leaves of the others
structure Beside (k : Sock) (c c' : Loop) : Prop where
  output : ∀ j, j ≠ k → c'.outputs j = c.outputs j
  session : ∀ sessionId j, c'.outputStreams.lookup sessionId = some j →
    j = k ∨ c.outputStreams.lookup sessionId = some j

theorem outputRead_beside (unbound : (c.outputs k).sessionId = none) :
    Beside k c (c.outputRead env ev k io) := by
  refine ⟨fun j hj => outputRead_others hj, ?_⟩
  cases hr : ev.readable with
  | false =>
    simp only [outputRead, hr]
    exact fun _ _ => .inr
  | true =>
    have hcase := @outputRead_cases env c k io ev unbound hr
    generalize c.outputRead env ev k io = d at hcase ⊢
    cases hcase with
    | failed res os e s got read => exact fun _ _ => .inr
    | more res os s got read wait => exact fun _ _ => .inr
    | refused res os s sessionId got read hello no => exact fun _ _ => .inr
    | bound res os s sessionId got read hello reg =>
      intro sid j hj
      by_cases hs : sid = sessionId
      · subst hs
        rw [AList.lookup_insert] at hj
        exact .inl (Option.some.inj hj).symm
      · rw [AList.lookup_insert_ne hs] at hj
        exact .inr hj

theorem outputWrite_beside : Beside k c (c.outputWrite ev k io) ∧
    (c.outputWrite ev k io).outputStreams = c.outputStreams ∧
    ∃ out, (c.outputWrite ev k io).outputs k = { c.outputs k with outbuffer := out } := by
  cases hw : ev.writable with
  | false =>
    simp only [outputWrite, hw]
    exact ⟨⟨fun _ _ => rfl, fun _ _ => .inr⟩, rfl, _, rfl⟩
  | true =>
    have hcase := @outputWrite_cases c k io ev hw
    generalize c.outputWrite ev k io = d at hcase ⊢
    cases hcase with
    | failed e os got => exact ⟨⟨fun _ _ => rfl, fun _ _ => .inr⟩, rfl, _, rfl⟩
    | written n os got =>
      exact ⟨⟨fun j hj => Outputs.set_other _ _ hj, fun _ _ => .inr⟩, rfl, _, Outputs.set_same _ _ _⟩

end Loop
end PyProxy.Master
