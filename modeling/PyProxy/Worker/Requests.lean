import PyProxy.Protocol.Fixint
import PyProxy.Stream.Chunked
import PyProxy.Worker.RunForever

namespace PyProxy.Worker
open Stream Protocol

namespace ClientStream

variable (bc : Bincode)

-- the reads of the loop, up to the first that fails
def readAll (s : ClientStream) : List (List UInt8) → Except Error Unit × ClientStream
  | [] => (.ok (), s)
  | chunk :: chunks =>
    match s.read bc (.ok chunk) with
    | (.error e, s) => (.error e, s)
    | (.ok _, s) => readAll s chunks

def outcome : Option Protocol.Error → Except Error Unit
  | none => .ok ()
  | some e => .error (.protocol e)

def RequestFrame (bytes : List UInt8) (msg : RequestMessage) : Prop :=
  Whole RequestMessageHeader.fromBuf RequestMessageHeader.msgLenUsize (readReq bc) bytes msg

def Unfinished (buffer : List UInt8) : Prop :=
  buffer.length < requestHeaderSize ∨
    ∃ header, RequestMessageHeader.fromBuf (copyHeader requestHeaderSize buffer) = .ok header ∧
      buffer.length < requestHeaderSize + header.msgLenUsize

variable {bc}

theorem unfinished_iff {buffer : List UInt8} :
    Unfinished buffer ↔ (framer bc).next buffer = .wait := (headed_wait_iff (by decide)).symm

theorem readAll_spec (s : ClientStream) {chunks : List (List UInt8)} (nonempty : ∀ c ∈ chunks, c ≠ []) :
    (s.readAll bc chunks).1 = outcome ((framer bc).feed s.inbuffer chunks).err ∧
      (s.readAll bc chunks).2.reqMsgs = s.reqMsgs ++ ((framer bc).feed s.inbuffer chunks).msgs ∧
      (s.readAll bc chunks).2.inbuffer = ((framer bc).feed s.inbuffer chunks).rest := by
  induction chunks generalizing s with
  | nil => simp [readAll, Framer.feed, outcome]
  | cons c cs ih =>
    obtain ⟨b, bs, rfl⟩ := List.exists_cons_of_ne_nil (nonempty c (by simp))
    cases herr : ((framer bc).drain (s.inbuffer ++ b :: bs)).err with
    | some e => simp [readAll, read, Framer.feed, herr, outcome]
    | none =>
      have rest := ih { s with
        inbuffer := ((framer bc).drain (s.inbuffer ++ b :: bs)).rest
        reqMsgs := s.reqMsgs ++ ((framer bc).drain (s.inbuffer ++ b :: bs)).msgs }
        fun c hc => nonempty c (by simp [hc])
      simpa [readAll, read, Framer.feed, herr] using rest

theorem readAll_drain {s : ClientStream} (idle : Unfinished s.inbuffer) {bytes : List UInt8}
    (x : Chunking bufferSize bytes) :
    (s.readAll bc x.chunks).1 = outcome ((framer bc).drain (s.inbuffer ++ bytes)).err ∧
      (s.readAll bc x.chunks).2.reqMsgs = s.reqMsgs ++ ((framer bc).drain (s.inbuffer ++ bytes)).msgs ∧
      ((s.readAll bc x.chunks).1 = .ok () →
        (s.readAll bc x.chunks).2.inbuffer = ((framer bc).drain (s.inbuffer ++ bytes)).rest) := by
  obtain ⟨hres, hmsgs, hrest⟩ := @readAll_spec bc s x.chunks x.nonempty
  obtain ⟨msgs, err, rest⟩ := (framer bc).feed_spec (unfinished_iff.mp idle) x.chunks
  rw [x.whole] at msgs err rest
  refine ⟨hres.trans (congrArg outcome err), hmsgs.trans (by rw [msgs]), fun ok => ?_⟩
  rw [hrest]
  apply rest
  rw [hres] at ok
  cases he : ((framer bc).feed s.inbuffer x.chunks).err with
  | none => rfl
  | some e =>
    rw [he] at ok
    cases ok

theorem parsing_independent (s : ClientStream) (idle : Unfinished s.inbuffer) {bytes : List UInt8}
    (x y : Chunking bufferSize bytes) :
    (s.readAll bc x.chunks).1 = (s.readAll bc y.chunks).1 ∧
      (s.readAll bc x.chunks).2.reqMsgs = (s.readAll bc y.chunks).2.reqMsgs ∧
      ((s.readAll bc x.chunks).1 = .ok () →
        (s.readAll bc x.chunks).2.inbuffer = (s.readAll bc y.chunks).2.inbuffer ∧
          Unfinished (s.readAll bc x.chunks).2.inbuffer ∧
          ∃ frames, s.inbuffer ++ bytes = Framer.stream frames ++ (s.readAll bc x.chunks).2.inbuffer ∧
            (s.readAll bc x.chunks).2.reqMsgs = s.reqMsgs ++ frames.map Prod.snd ∧
            ∀ p ∈ frames, RequestFrame bc p.1 p.2) := by
  obtain ⟨xres, xmsgs, xrest⟩ := @readAll_drain bc s idle bytes x
  obtain ⟨yres, ymsgs, yrest⟩ := @readAll_drain bc s idle bytes y
  refine ⟨xres.trans yres.symm, xmsgs.trans ymsgs.symm, fun ok => ?_⟩
  have same : (s.readAll bc y.chunks).1 = .ok () := by rw [yres, ← xres, ok]
  have clean : ((framer bc).drain (s.inbuffer ++ bytes)).err = none := by
    rw [xres] at ok
    cases he : ((framer bc).drain (s.inbuffer ++ bytes)).err with
    | none => rfl
    | some e =>
      rw [he] at ok
      cases ok
  obtain ⟨frames, hbytes, hmsgs, hall⟩ := (framer bc).drain_frames
    (P := RequestFrame bc) (fun h => headed_whole (by decide) h) (s.inbuffer ++ bytes)
  rw [xrest ok, yrest same, xmsgs]
  exact ⟨rfl, unfinished_iff.mpr ((framer bc).drain_rest_wait _ clean), frames, hbytes,
    congrArg (s.reqMsgs ++ ·) hmsgs, hall⟩

def accepted : ClientStream := ⟨0, [], [], ro, "", 1, []⟩

-- a message without a body, and the first bytes of the next
def cutHello : List UInt8 := [0, 0, 1, 0, 0, 0, 0, 0, 0, 0, 2]

theorem parsing_independent_cutHello :
    (accepted.readAll fixint [cutHello]).2.reqMsgs = [.hello] ∧
      (accepted.readAll fixint (cutHello.map ([·]))).2.reqMsgs = [.hello] := by
  have pos : 0 < bufferSize := by decide
  have once : (accepted.readAll fixint [cutHello]).2.reqMsgs = [.hello] := rfl
  have same := (@parsing_independent fixint accepted (.inl (by decide)) cutHello
    ⟨[cutHello], by decide, by decide, rfl⟩ (.piecewise pos cutHello)).2.1
  exact ⟨once, same.symm.trans once⟩

def helloHeader (n : UInt8) : Vector UInt8 requestHeaderSize := #v[0, 0, 1, 0, 0, 0, 0, n]

def helloFrame : List UInt8 := (helloHeader 0).toList

-- a message whose body is itself a message
def nestedFrame : List UInt8 := (helloHeader 8).toList ++ helloFrame

theorem helloFrame_frame : RequestFrame bc helloFrame .hello :=
  ⟨helloHeader 0, _, [], rfl, rfl, rfl, rfl⟩

theorem nestedFrame_frame : RequestFrame bc nestedFrame .hello :=
  ⟨helloHeader 8, _, helloFrame, rfl, rfl, rfl, rfl⟩

theorem readReq_hello {header : RequestMessageHeader} {body : List UInt8}
    (h : readReq bc header body = .ok .hello) (rest : List UInt8) : readReq bc header rest = .ok .hello := by
  cases ht : header.msgType with
  | hello => simp [readReq, ht]
  | codeString =>
    simp only [readReq, ht] at h
    cases hb : bincodeErr (bc.codeString.deserialize body) <;> simp [hb, Except.map] at h
  | codePickle =>
    simp only [readReq, ht] at h
    cases hb : bincodeErr (bc.codePickle.deserialize body) <;> simp [hb, Except.map] at h

-- a body that is left unread swallows the beginning of what follows it
theorem swallowed_of_waiting {body : List UInt8} (ne : body ≠ [])
    (waiting : (framer bc).next body = .wait)
    (parsed : ((framer bc).drain (body ++ helloFrame)).msgs = [.hello]) :
    ∃ m, 0 < m ∧ m ≤ 8 ∧ ∀ follow, helloFrame.take 7 <+: follow → m ≤ follow.length →
      (framer bc).next (body ++ follow) = .frame .hello (body.length + m) := by
  have pos : 0 < body.length := List.length_pos_iff.mpr ne
  cases hn : (framer bc).next (body ++ helloFrame) with
  | wait => simp [(framer bc).drain_wait hn] at parsed
  | fail e => simp [(framer bc).drain_fail hn] at parsed
  | frame m k =>
    obtain rfl : m = .hello := by
      rw [(framer bc).drain_frame hn] at parsed
      exact (List.cons.inj parsed).1
    obtain ⟨hs, ⟨e, -, hc⟩ | ⟨d, hd, hl, ⟨e, -, hc⟩ | ⟨m, hm, hc⟩⟩⟩ :=
      headedNext_cases requestHeaderSize RequestMessageHeader.fromBuf RequestMessageHeader.msgLenUsize
        (readReq bc) hn (by simp)
    · cases hc
    · cases hc
    · obtain ⟨rfl, rfl⟩ := Cut.frame.inj hc
      have hlen : (body ++ helloFrame).length = body.length + 8 := by
        rw [List.length_append]
        rfl
      have same : ∀ follow, helloFrame.take 7 <+: follow →
          copyHeader requestHeaderSize (body ++ follow) =
            copyHeader requestHeaderSize (body ++ helloFrame) := by
        have enough : requestHeaderSize ≤ (body ++ helloFrame.take 7).length := by
          have h7 : (helloFrame.take 7).length = 7 := rfl
          rw [List.length_append, h7]
          simp only [requestHeaderSize]
          omega
        have at7 : ∀ follow, helloFrame.take 7 <+: follow →
            copyHeader requestHeaderSize (body ++ follow) =
              copyHeader requestHeaderSize (body ++ helloFrame.take 7) := by
          rintro _ ⟨rest, rfl⟩
          rw [← List.append_assoc, copyHeader_append _ _ _ enough]
        intro follow h
        rw [at7 follow h, at7 helloFrame (List.take_prefix _ _)]
      have beyond : body.length < requestHeaderSize + d.msgLenUsize := by
        rcases (headed_wait_iff (by decide)).mp waiting with short | ⟨d', hd', short⟩
        · omega
        · by_cases h8 : body.length < requestHeaderSize
          · omega
          · rw [copyHeader_append _ _ _ (by omega), hd'] at hd
            cases hd
            exact short
      refine ⟨requestHeaderSize + d.msgLenUsize - body.length, by omega, by omega, fun follow h long => ?_⟩
      have hfollow : (body ++ follow).length = body.length + follow.length := List.length_append
      have hsize : requestHeaderSize + d.msgLenUsize =
          body.length + (requestHeaderSize + d.msgLenUsize - body.length) := by omega
      rw [← hsize]
      simp only [framer, headed, headedNext, same follow h, hd, readReq_hello hm]
      rw [if_neg (by omega), if_neg (by omega)]

theorem body_empty {body : List UInt8} (h : ∀ frames : List (List UInt8 × RequestMessage),
      (∀ p ∈ frames, RequestFrame bc p.1 p.2) →
        ((framer bc).drain (body ++ Framer.stream frames)).msgs = frames.map Prod.snd) :
    body = [] := by
  by_contra ne
  have alone : ((framer bc).drain body).msgs = [] := by simpa using h [] (by simp)
  have once : ((framer bc).drain (body ++ helloFrame)).msgs = [.hello] := by
    simpa using h [(helloFrame, .hello)] (by simp [helloFrame_frame])
  have twice : ((framer bc).drain (body ++ (helloFrame ++ helloFrame))).msgs = [.hello, .hello] := by
    simpa using h [(helloFrame, .hello), (helloFrame, .hello)] (by simp [helloFrame_frame])
  have nested : ((framer bc).drain (body ++ nestedFrame)).msgs = [.hello] := by
    simpa using h [(nestedFrame, .hello)] (by simp [nestedFrame_frame])
  cases hn : (framer bc).next body with
  | frame m k => simp [(framer bc).drain_frame hn] at alone
  | fail e =>
    obtain ⟨-, hm⟩ := (framer bc).drain_append_fail body helloFrame (by rw [(framer bc).drain_fail hn])
    rw [hm, alone] at once
    cases once
  | wait =>
    obtain ⟨m, pos, le, swallows⟩ := swallowed_of_waiting ne hn once
    have long : m ≤ (helloFrame ++ helloFrame).length := Nat.le_trans le (by decide)
    have second := (framer bc).drain_frame (swallows (helloFrame ++ helloFrame) ⟨_, rfl⟩ long)
    have inner := (framer bc).drain_frame (swallows nestedFrame ⟨_, rfl⟩ (Nat.le_trans le (by decide)))
    rw [List.drop_append] at second inner
    simp only [List.drop_eq_nil_of_le (Nat.le_add_right _ _), List.nil_append, Nat.add_sub_cancel_left]
      at second inner
    rw [second] at twice
    rw [inner] at nested
    have hfail : ∀ {b : List UInt8} {e}, (framer bc).next b = .fail e →
        RequestMessage.hello :: ((framer bc).drain b).msgs ≠ [.hello, .hello] := by
      intro b e hb
      simp [(framer bc).drain_fail hb]
    have h8 : m = 8 := by
      by_contra hm
      have cases : m = 1 ∨ m = 2 ∨ m = 3 ∨ m = 4 ∨ m = 5 ∨ m = 6 ∨ m = 7 := by omega
      rcases cases with rfl | rfl | rfl | rfl | rfl | rfl | rfl <;> exact hfail rfl twice
    subst h8
    have rest : ((framer bc).drain (nestedFrame.drop 8)).msgs = [.hello] := rfl
    rw [rest] at nested
    cases nested

theorem accepted_queues {hex : List UInt8 → String} {cfg : Config}
    {header : Vector UInt8 requestHeaderSize} {stream : Sock} {interest : Interest}
    {sessionId : Vector UInt8 sessionIdLength} {s : ClientStream}
    (accepted : new bc hex cfg header stream interest sessionId = .ok s) {bytes : List UInt8}
    (x : Chunking bufferSize bytes) :
    (s.readAll bc x.chunks).2.reqMsgs = ((framer bc).drain bytes).msgs := by
  obtain ⟨-, hin, hreq, -⟩ := new_fields bc accepted
  have idle : Unfinished s.inbuffer := .inl (by rw [hin]; decide)
  have queued := (@readAll_drain bc s idle bytes x).2.1
  rwa [hin, hreq, List.nil_append, List.nil_append] at queued

theorem new_decoded {hex : List UInt8 → String} {cfg : Config}
    {header : Vector UInt8 requestHeaderSize} {stream : Sock} {interest : Interest}
    {sessionId : Vector UInt8 sessionIdLength} {s : ClientStream}
    (accepted : new bc hex cfg header stream interest sessionId = .ok s) :
    ∃ msgHeader, RequestMessageHeader.fromBuf header = .ok msgHeader := by
  simp only [new] at accepted
  split at accepted
  · cases accepted
  · exact ⟨_, ‹_›⟩

theorem hello_skipped_iff {hex : List UInt8 → String} {cfg : Config}
    {header : Vector UInt8 requestHeaderSize} {stream : Sock} {interest : Interest}
    {sessionId : Vector UInt8 sessionIdLength} {s : ClientStream}
    (accepted : new bc hex cfg header stream interest sessionId = .ok s) :
    ∃ msgHeader, RequestMessageHeader.fromBuf header = .ok msgHeader ∧
      ∀ body : List UInt8, body.length = msgHeader.msgLenUsize →
        ((∀ frames : List (List UInt8 × RequestMessage), (∀ p ∈ frames, RequestFrame bc p.1 p.2) →
            ∀ x : Chunking bufferSize (body ++ Framer.stream frames),
              (s.readAll bc x.chunks).2.reqMsgs = frames.map Prod.snd) ↔
          msgHeader.msgLenUsize = 0) := by
  obtain ⟨msgHeader, decoded⟩ := new_decoded accepted
  refine ⟨msgHeader, decoded, fun body sent => ?_⟩
  rw [← sent, List.length_eq_zero_iff]
  constructor
  · intro skipped
    apply @body_empty bc
    intro frames ok
    have pos : 0 < bufferSize := by decide
    rw [← accepted_queues accepted (.piecewise pos _), skipped frames ok]
  · rintro rfl frames ok x
    rw [accepted_queues accepted, List.nil_append,
      (framer bc).drain_encodes frames fun p hp => (ok p hp).encodes (by decide)]

def localConfig : Config := ⟨"localhost:9001"⟩

def zeroId : Vector UInt8 sessionIdLength := .replicate sessionIdLength 0

theorem hello_skipped_empty : ∃ s, new fixint lowerHex localConfig (helloHeader 0) 1 ro zeroId = .ok s ∧
    (s.readAll fixint [helloFrame]).2.reqMsgs = [.hello] := by
  obtain ⟨s, accepted⟩ : ∃ s, new fixint lowerHex localConfig (helloHeader 0) 1 ro zeroId = .ok s :=
    ⟨_, rfl⟩
  have frames : ∀ p ∈ [(helloFrame, RequestMessage.hello)], RequestFrame fixint p.1 p.2 := by
    intro p hp
    rw [List.mem_singleton.mp hp]
    exact helloFrame_frame
  obtain ⟨msgHeader, decoded, skipped⟩ := hello_skipped_iff accepted
  cases decoded
  exact ⟨s, accepted, (skipped [] rfl).mpr rfl _ frames ⟨[helloFrame], by decide, by decide, rfl⟩⟩

theorem hello_body_queued : ¬ ∀ (s : ClientStream) (body : List UInt8),
    new fixint lowerHex localConfig (helloHeader 8) 1 ro zeroId = .ok s → body.length = 8 →
      ∀ x : Chunking bufferSize body, (s.readAll fixint x.chunks).2.reqMsgs = [] := by
  intro skipped
  obtain ⟨s, accepted⟩ : ∃ s, new fixint lowerHex localConfig (helloHeader 8) 1 ro zeroId = .ok s :=
    ⟨_, rfl⟩
  have whole : Chunking bufferSize helloFrame := ⟨[helloFrame], by decide, by decide, rfl⟩
  have queued := skipped s helloFrame accepted rfl whole
  rw [accepted_queues accepted] at queued
  cases queued

end ClientStream
end PyProxy.Worker
