import PyProxy.Master.Capture
import PyProxy.Master.Hello
import PyProxy.Protocol.Message
import PyProxy.Worker.Delivery
import PyProxy.Worker.Sessions

namespace PyProxy.Master.Pipe
open Stream Protocol Server Lines Sections

theorem step_total {p : Pipe} (h : p.broken = false) (c : Chunk) : ∃ p', p.step c = some p' := by
  simp only [step, h, Bool.false_eq_true, if_false]
  split <;> exact ⟨_, rfl⟩

theorem quiet_run {chunks : List Chunk} (h : newline ∉ bytesOf chunks) : ∃ p,
    machine.exec chunks = some p ∧ p.Inv ∧ p.broken = false ∧ p.seen = bytesOf chunks ∧ p.cleared = none := by
  induction chunks using List.reverseRecOn with
  | nil => exact ⟨fresh, rfl, inv_fresh, rfl, rfl, rfl⟩
  | append_singleton chunks c ih =>
    have split : bytesOf (chunks ++ [c]) = bytesOf chunks ++ c.bytes := by simp [bytesOf]
    rw [split] at h ⊢
    have hpre : newline ∉ bytesOf chunks := fun hn => h (List.mem_append_left _ hn)
    obtain ⟨p, run, inv, running, seen, cleared⟩ := ih hpre
    obtain ⟨p', hstep⟩ := step_total running c
    have silent : spans newline (p.seen ++ c.bytes) = [] := by
      rw [seen]
      exact spansFrom_silent newline h
    have written : Written p c := by
      intro s hs
      rw [cleared, show offset none = 0 from rfl, List.drop_zero, silent] at hs
      cases hs
    obtain ⟨hseen, ⟨unwritten, -⟩ | ⟨-, inv', -, kept⟩⟩ := step_spec inv hstep
    · exact absurd written unwritten
    · rw [seen] at hseen
      refine ⟨p', ?_, inv', ?_, hseen, ?_⟩
      · rw [machine.exec_concat, run]
        exact hstep
      · exact step_written inv hstep written
      · rw [kept ?_, cleared]
        rw [hseen, ← seen, inForce, silent]
        rfl

theorem startLine_session {S : String} (length : (asBytes S).length = sessionIdLength * 2)
    (clean : newline ∉ asBytes S) {chunks : List Chunk} (nonempty : ∀ c ∈ chunks, c.bytes ≠ [])
    (h : bytesOf chunks = startLine S) : ∃ p, machine.exec chunks = some p ∧ p.broken = false ∧
      p.frame.currentSessionId = some S := by
  have hstart : newline ∉ asBytes newRequestStart := by decide
  have marker : newline ∉ asBytes newRequestStart ++ asBytes S := by simp [hstart, clean]
  rcases List.eq_nil_or_concat chunks with rfl | ⟨chunks, c, rfl⟩
  · simp [bytesOf, startLine] at h
  · rw [List.concat_eq_append] at h nonempty ⊢
    have split : bytesOf (chunks ++ [c]) = bytesOf chunks ++ c.bytes := by simp [bytesOf]
    have hne := nonempty c (by simp)
    have line : bytesOf chunks ++ c.bytes = startLine S := split.symm.trans h
    obtain ⟨front, last, hlast⟩ := (List.eq_nil_or_concat c.bytes).resolve_left hne
    rw [split, startLine, hlast, List.concat_eq_append, ← List.append_assoc] at h
    obtain ⟨hfront, -⟩ := List.append_inj' h rfl
    have quiet : newline ∉ bytesOf chunks := by
      intro hn
      rw [← hfront] at marker
      exact marker (List.mem_append_left _ hn)
    obtain ⟨p, run, inv, running, seen, cleared⟩ := quiet_run quiet
    obtain ⟨p', hstep⟩ := step_total running c
    have spans_line : spans newline (p.seen ++ c.bytes) =
        [⟨0, (asBytes newRequestStart ++ asBytes S).length⟩] := by
      rw [seen, line, startLine, spans, spansFrom_line newline [] marker, Nat.zero_add]
      rfl
    have mark : spanMark (p.seen ++ c.bytes)
        ⟨0, (asBytes newRequestStart ++ asBytes S).length⟩ = .start S := by
      rw [seen, line, startLine, spanMark, slice_append _ (Nat.le_refl _)]
      have whole : slice (asBytes newRequestStart ++ asBytes S)
          ⟨0, (asBytes newRequestStart ++ asBytes S).length⟩ = asBytes newRequestStart ++ asBytes S :=
        List.take_length
      rw [whole]
      exact Block.lineMark_head (b := ⟨S, []⟩) ⟨length, clean, by simp⟩
    have written : Written p c := by
      intro s hs
      rw [cleared, show offset none = 0 from rfl, List.drop_zero, spans_line] at hs
      simp only [skipped, skip, mark, List.nil_append] at hs
      cases hs
    have running' := step_written inv hstep written
    obtain ⟨hseen, ⟨unwritten, -⟩ | ⟨-, inv', -⟩⟩ := step_spec inv hstep
    · exact absurd written unwritten
    · refine ⟨p', ?_, running', ?_⟩
      · rw [machine.exec_concat, run]
        exact hstep
      · rw [inv'.session, hseen, inForce, spans_line, owner_cons, mark]
        rfl

end PyProxy.Master.Pipe

namespace PyProxy.Session
open Stream Protocol Poll Worker

-- who holds the session id of the connection that `cs` serves, and when
structure Agreed (wenv : Worker.Env) (menv : Master.Env) (rnd : Vector UInt8 sessionIdLength)
    (cs : ClientStream) (conn : Client.PyConnection) : Prop where
  named : conn.sessionId = wenv.hex rnd.toList
  client : ∀ incoming later, List.flatten incoming = cs.outbuffer ++ later →
    Client.newSimpleConnection wenv.bc ⟨.ok (), .ok (), incoming, .ok ()⟩ = .ok conn
  requests : ∀ ls s ds c, ((Daemon.machine wenv).traced (Daemon.drawn wenv)).exec ls = some (s, ds) →
    s.flow = .running c → ∀ q ∈ c.threadSender, (q.token, rnd) ∈ ds → q.sessionId = conn.sessionId
  routed : ∀ next ls s ns c,
    ((Master.System.machine menv next).traced Master.System.noted).exec ls = some (s, ns) →
      s.flow = .running c → ∀ k K,
        Master.Note.bytesOf k ns <+: Client.outputHello menv.bc conn.streamToken →
          c.outputStreams.lookup K = some k → K = conn.sessionId
  inserted : ∀ (c : Master.Loop) k (ev : Master.Event) (ios : List Master.EventIo), (c.outputs k).sessionId = none →
    (c.outputs k).inbuffer = [] → (c.os.source k).input = Client.outputHello menv.bc conn.streamToken →
      (c.os.source k).reg.isSome = true → (c.os.source k).closed = false → ev.readable = true →
        (∀ io ∈ ios, io.reregisterRefused = false) →
          let c' := ios.foldl (fun c io => c.outputRead menv ev k io) c
          ((c.os.source k).input.length ≤ ios.length → (c'.os.source k).input = []) ∧
            ((c'.os.source k).input = [] →
              c'.outputStreams = c.outputStreams.insert conn.sessionId k)
  marked : ∀ chunks, (∀ c ∈ chunks, Master.Chunk.bytes c ≠ []) →
    Master.Pipe.bytesOf chunks = Master.Pipe.startLine cs.sessionId →
      ∃ p, Master.Pipe.machine.exec chunks = some p ∧ p.broken = false ∧
        p.frame.currentSessionId = some conn.sessionId

theorem new_outbuffer {bc : Bincode} {hex : List UInt8 → String} {cfg : Config}
    {header : Vector UInt8 requestHeaderSize} {stream : Sock} {interest : Interest}
    {rnd : Vector UInt8 sessionIdLength} {cs : ClientStream}
    (h : ClientStream.new bc hex cfg header stream interest rnd = .ok cs) :
    cs.outbuffer = (ResponseMessageHeader.new .hello 0 (bc.responseClientHello.serialize
      ⟨hex rnd.toList, hex rnd.toList, cfg.outputAddr⟩).length 1).intoBuf.toList ++
        bc.responseClientHello.serialize ⟨hex rnd.toList, hex rnd.toList, cfg.outputAddr⟩ := by
  simp only [ClientStream.new] at h
  split at h
  · cases h
  · split at h
    · cases h
      rfl
    · cases h

theorem one_identity {wenv : Worker.Env} {menv : Master.Env} (same : menv.bc = wenv.bc)
    (hello : wenv.bc.responseClientHello.RoundTrips) (outputHello : wenv.bc.clientHello.RoundTrips)
    (sizes : HelloSizes wenv.bc) (hex : HexDigits wenv.hex)
    (addr : (asBytes wenv.cfg.outputAddr).length < 2 ^ 31) {header : Vector UInt8 requestHeaderSize}
    {stream : Sock} {interest : Interest} {rnd : Vector UInt8 sessionIdLength} {cs : ClientStream}
    (new : ClientStream.new wenv.bc wenv.hex wenv.cfg header stream interest rnd = .ok cs) :
    ∃ conn, Agreed wenv menv rnd cs conn := by
  have length := hex.sessionId rnd
  have helloFits : (wenv.bc.responseClientHello.serialize
      ⟨wenv.hex rnd.toList, wenv.hex rnd.toList, wenv.cfg.outputAddr⟩).length < 2 ^ 32 := by
    have digits : sessionIdLength * 2 = 32 := rfl
    rw [sizes.responseClientHello, length]
    dsimp only
    omega
  have tokenFits : (menv.bc.clientHello.serialize ⟨wenv.hex rnd.toList⟩).length < 2 ^ 32 := by
    rw [same, sizes.clientHello, length]
    decide
  have token : menv.bc.clientHello.RoundTrips := same ▸ outputHello
  refine ⟨⟨wenv.hex rnd.toList, wenv.hex rnd.toList, wenv.cfg.outputAddr⟩, rfl, ?_, ?_, ?_, ?_, ?_⟩
  · intro incoming later h
    rw [new_outbuffer new] at h
    exact Client.connection_of_hello hello helloFits h
  · intro ls s ds c run running q sent drew
    exact Daemon.sent_session run running drew sent
  · intro next ls s ns c run running k K sent routed
    exact Master.System.routed_key token tokenFits run running sent routed
  · intro c k ev ios unbound empty input reg opened readable ok
    have start : Master.Loop.Greeting menv c c k (wenv.hex rnd.toList) (c.os.source k).input := by
      refine ⟨rfl, unbound, fun _ => ⟨?_, reg, opened, rfl⟩, fun hnil => ?_⟩
      · rw [empty, input]
        rfl
      · rw [input] at hnil
        exact absurd (congrArg List.length hnil) (by simp [Client.outputHello, newReq])
    obtain ⟨rest, hlen, h⟩ := start.run token tokenFits readable ok
    refine ⟨fun enough => ?_, fun drained => (h.bound (h.input.symm.trans drained)).1⟩
    rw [h.input]
    rcases hlen with hnil | hlen
    · exact hnil
    · exact List.length_eq_zero_iff.mp (by omega)
  · intro chunks nonempty line
    have id := (ClientStream.new_fields wenv.bc new).2.2.2.2
    rw [id] at line
    exact Master.Pipe.startLine_session length (hex.clean _ (by decide)) nonempty line

def drawnId : Vector UInt8 sessionIdLength := #v[0, 1, 2, 3, 4, 5, 6, 7, 8, 9, 10, 11, 12, 13, 14, 255]

theorem one_identity_drawnId : ∃ cs conn, ClientStream.new fixint lowerHex loopback.cfg
      (RequestMessageHeader.new .hello 0 0).intoBuf 7 ro drawnId = .ok cs ∧
    Agreed loopback Master.System.fixintEnv drawnId cs conn ∧
    conn.sessionId = "000102030405060708090a0b0c0d0eff" := by
  obtain ⟨cs, new⟩ : ∃ cs, ClientStream.new fixint lowerHex loopback.cfg
      (RequestMessageHeader.new .hello 0 0).intoBuf 7 ro drawnId = .ok cs := ⟨_, rfl⟩
  have addr : (asBytes loopback.cfg.outputAddr).length < 2 ^ 31 := by decide
  obtain ⟨conn, agreed⟩ := @one_identity loopback Master.System.fixintEnv rfl
    fixint_responseClientHello_roundTrips fixint_clientHello_roundTrips fixint_helloSizes
    lowerHex_digits addr _ _ _ _ _ new
  exact ⟨cs, conn, new, agreed, agreed.named.trans (by decide +kernel)⟩

end PyProxy.Session
