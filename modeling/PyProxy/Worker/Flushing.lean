import PyProxy.Poll.Writable
import PyProxy.Worker.Housed
import PyProxy.Worker.Replies
import PyProxy.Worker.Sleep

namespace PyProxy.Worker
open Stream Protocol Server Poll Source

namespace Loop

variable {env : Env} {held : List Sock} {c c' : Loop} {evs : List Event} {tk : Token} {cs : ClientStream}
  {w w' : World Token UInt8}

-- a stream the loop has not given up is registered as the loop believes, and owed what it waits for
structure Attended (w : World Token UInt8) (evs : List Event) (tk : Token) (cs : ClientStream) : Prop where
  reg : (w.source cs.stream).reg = some (tk, cs.interest)
  tuned : cs.interest = ro ∨ cs.interest = rw
  promised : (w.source cs.stream).Promised evs cs.interest cs.hasOutData

def Owed (c : Loop) (evs : List Event) : Prop :=
  ∀ tk cs, c.clientStreams.lookup tk = some cs → tk ∉ c.toRemove → Attended c.os evs tk cs

theorem Attended.source (h : Attended w evs tk cs) (same : w'.source cs.stream = w.source cs.stream) :
    Attended w' evs tk cs := by
  refine ⟨?_, h.tuned, ?_⟩
  · rw [same]
    exact h.reg
  · rw [same]
    exact h.promised

theorem Attended.quiet (h : Attended w evs tk cs) (quiet : (w.source cs.stream).Quiet (w'.source cs.stream)) :
    Attended w' evs tk cs :=
  ⟨quiet.reg.trans h.reg, h.tuned, h.promised.quiet quiet⟩

theorem Attended.skip {ev : Event} (h : Attended w (ev :: evs) tk cs) (other : ev.writable = true → tk ≠ ev.token) :
    Attended w evs tk cs := by
  refine ⟨h.reg, h.tuned, h.promised.skip fun writable own => other writable ?_⟩
  rw [h.reg] at own
  exact Option.some.inj own

theorem Attended.congr {cs' : ClientStream} (h : Attended w evs tk cs) (stream : cs'.stream = cs.stream)
    (interest : cs'.interest = cs.interest) (outbuffer : cs'.outbuffer = cs.outbuffer) :
    Attended w evs tk cs' := by
  have data : cs'.hasOutData = cs.hasOutData := by rw [ClientStream.hasOutData, outbuffer]; rfl
  refine ⟨?_, ?_, ?_⟩
  · rw [stream, interest]
    exact h.reg
  · rw [interest]
    exact h.tuned
  · rw [stream, interest, data]
    exact h.promised

theorem kept_attach (w : World Token UInt8) (tk : Token) {i : Interest} (interest : cs.interest = i)
    (tuned : i = ro ∨ i = rw) : Attended (w.modify cs.stream (·.attach tk i)) [] tk cs := by
  refine ⟨?_, interest ▸ tuned, ?_⟩
  · rw [World.attach_reg, if_pos rfl, interest]
  · rw [World.modify_same, interest]
    exact promised_attach _ tk [] tuned fun h => by rw [h]; rfl

theorem streamOf_lookup (h : c.clientStreams.lookup tk = some cs) : c.streamOf tk = some cs.stream := by
  rw [streamOf, h]
  rfl

theorem Owed.addStream (h : Owed c []) (housed : Housed (cs.stream :: held) c) (interest : cs.interest = ro)
    (ts : String) : Owed (c.addStream env ts cs (c.os.modify cs.stream (·.attach c.tokenIo ro))) [] := by
  intro t cs' found kept
  change (c.clientStreams.insert c.tokenIo cs).lookup t = some cs' at found
  by_cases ht : t = c.tokenIo
  · subst ht
    rw [AList.lookup_insert] at found
    cases found
    exact kept_attach c.os c.tokenIo interest (.inl rfl)
  · rw [AList.lookup_insert_ne ht] at found
    have apart : cs'.stream ≠ cs.stream := by
      intro same
      have own := streamOf_lookup found
      exact (housed.streams t _ own).2.2 (by rw [same]; exact List.mem_cons_self ..)
    exact (h t cs' found kept).source (World.modify_other _ (·.attach c.tokenIo ro) apart)

theorem Owed.takeStreams (h : Owed c []) (plugged : Plugged c) (housed : Housed [] c) (io : HeadIo) :
    Owed (c.takeStreams env io) [] ∧ Plugged (c.takeStreams env io) ∧ Housed [] (c.takeStreams env io) := by
  have fold : ∀ (msgs : List (Vector UInt8 requestHeaderSize × Sock)) (c : Loop), Owed c [] → Plugged c →
      Housed (msgs.map Prod.snd) c → Owed (msgs.foldl (Loop.takeStream env io) c) [] ∧
        Plugged (msgs.foldl (Loop.takeStream env io) c) ∧
          Housed [] (msgs.foldl (Loop.takeStream env io) c) := by
    intro msgs
    induction msgs with
    | nil => exact fun c h plugged housed => ⟨h, plugged, housed⟩
    | cons msg msgs ih =>
      intro c h plugged housed
      refine ih _ ?_ (plugged.takeStream io msg).1 (housed.takeStream io)
      rcases c.takeStream_cases env io msg with he | he | ⟨cs, hport, interest, -, -, he⟩
      · rw [he]
        exact h
      · rw [he]
        exact h
      · rw [he]
        have stream : cs.stream = msg.2 := congrArg Port.stream hport
        rw [List.map_cons, ← stream] at housed
        rw [← stream]
        exact h.addStream housed interest _
  refine fold c.workerStream.newMsgs { c with workerStream := { c.workerStream with newMsgs := [] } } h
    ⟨plugged.calm, plugged.registered, plugged.positive, plugged.tokens⟩ ?_
  exact ⟨housed.unix, housed.waiting, housed.fresh, housed.streams, housed.distinct⟩

theorem Owed.updateInterest (h : Owed c []) (housed : Housed [] c) {refused : Bool}
    (hu : c.updateInterest refused = .ok c') : Owed c' [] := by
  rcases updateInterest_cases hu with rfl | ⟨i, os, -, hr, rfl⟩
  · exact h
  · obtain ⟨-, rfl⟩ := World.reregister_some hr
    intro tk cs found kept
    have apart := (housed.streams tk _ (streamOf_lookup found)).2.1
    exact (h tk cs found kept).source (World.modify_other _ (·.attach workerStreamTk i) apart)

-- the interest of a stream fits what is left to write to it
def Fits (cs : ClientStream) : Prop := cs.interest.writable = cs.hasOutData

-- what the loop does about a stream before it polls
inductive Forwards (c : Loop) (tk : Token) (cs : ClientStream) (c' : Loop) : Prop where
  | retuned (i) (tuned : i = ro ∨ i = rw) (fits : i.writable = cs.hasOutData)
      (streams : c'.clientStreams = c.clientStreams.insert tk { cs with reqMsgs := [], interest := i })
      (os : c'.os = c.os.modify cs.stream (·.attach tk i)) (removed : c'.toRemove = c.toRemove)
  | refused (i)
      (streams : c'.clientStreams = c.clientStreams.insert tk { cs with reqMsgs := [], interest := i })
      (os : c'.os = c.os) (removed : c'.toRemove = c.toRemove ++ [tk])
  | kept (fits : cs.interest = ro ∨ cs.interest = rw → cs.interest.writable = cs.hasOutData)
      (streams : c'.clientStreams = c.clientStreams.insert tk { cs with reqMsgs := [] })
      (os : c'.os = c.os) (removed : c'.toRemove = c.toRemove)

theorem setStreamInterest_forwards {o : List UInt8} {sent : List Sent} {refused : Bool} {i : Interest}
    (tuned : i = ro ∨ i = rw) (fits : i.writable = cs.hasOutData) :
    Forwards c tk cs (({ c with
      workerStream := { c.workerStream with outbuffer := o }
      threadSender := sent } : Loop).setStreamInterest tk { cs with reqMsgs := [] } refused i) := by
  simp only [setStreamInterest, ClientStream.setInterest]
  cases hr : c.os.reregister refused cs.stream tk i with
  | none => exact .refused i rfl rfl rfl
  | some os =>
    obtain ⟨-, rfl⟩ := World.reregister_some hr
    exact .retuned i tuned fits rfl rfl rfl

theorem forward_forwards (io : HeadIo) (found : c.clientStreams.lookup tk = some cs) :
    Forwards c tk cs (c.forward env io tk) := by
  obtain ⟨o, ho⟩ := sendMsgs env tk cs.sessionId io.queueTs cs.reqMsgs c
  simp only [forward, found, ho]
  split
  · rename_i up
    exact setStreamInterest_forwards (.inr rfl) up.2.symm
  · rename_i up
    split
    · rename_i down
      exact setStreamInterest_forwards (.inl rfl) down.2.symm
    · rename_i down
      refine .kept (fun tuned => ?_) rfl rfl rfl
      have data : ({ cs with reqMsgs := [] } : ClientStream).hasOutData = cs.hasOutData := rfl
      rw [data] at up down
      rcases tuned with i | i
      · cases hd : cs.hasOutData with
        | true => exact absurd ⟨i, hd⟩ up
        | false => rw [i, ro]
      · cases hd : cs.hasOutData with
        | true => rw [i, rw]
        | false => exact absurd ⟨by rw [i, rw], hd⟩ down

theorem Forwards.owed (h : Forwards c tk cs c') (owed : Owed c []) (housed : Housed [] c)
    (found : c.clientStreams.lookup tk = some cs) : Owed c' [] := by
  have others : ∀ {t cs' i}, c'.clientStreams = c.clientStreams.insert tk { cs with reqMsgs := [], interest := i } →
      c'.clientStreams.lookup t = some cs' → t ≠ tk → c.clientStreams.lookup t = some cs' ∧ cs'.stream ≠ cs.stream := by
    intro t cs' i streams found' ht
    rw [streams, AList.lookup_insert_ne ht] at found'
    refine ⟨found', fun same => ht ?_⟩
    exact housed.distinct t tk _ (streamOf_lookup found') (by rw [same]; exact streamOf_lookup found)
  have own : ∀ {cs' i}, c'.clientStreams = c.clientStreams.insert tk { cs with reqMsgs := [], interest := i } →
      c'.clientStreams.lookup tk = some cs' → cs' = { cs with reqMsgs := [], interest := i } := by
    intro cs' i streams found'
    rw [streams, AList.lookup_insert] at found'
    exact (Option.some.inj found').symm
  intro t cs' found' kept
  by_cases ht : t = tk
  · subst ht
    cases h with
    | retuned i tuned fits streams os removed =>
      obtain rfl := own streams found'
      rw [os]
      exact @kept_attach { cs with reqMsgs := [], interest := i } c.os t i rfl tuned
    | refused i streams os removed =>
      rw [removed] at kept
      exact absurd (List.mem_append_right _ (List.mem_singleton_self _)) kept
    | kept fits streams os removed =>
      obtain rfl := own streams found'
      rw [removed] at kept
      rw [os]
      exact (owed t cs found kept).congr rfl rfl rfl
  · cases h with
    | retuned i tuned fits streams os removed =>
      obtain ⟨old, apart⟩ := others streams found' ht
      rw [removed] at kept
      rw [os]
      exact (owed t cs' old kept).source (World.modify_other _ (·.attach tk i) apart)
    | refused i streams os removed =>
      obtain ⟨old, -⟩ := others streams found' ht
      rw [removed] at kept
      rw [os]
      exact owed t cs' old fun hm => kept (List.mem_append_left _ hm)
    | kept fits streams os removed =>
      obtain ⟨old, -⟩ := others streams found' ht
      rw [removed] at kept
      rw [os]
      exact owed t cs' old kept

-- the streams that the loop has seen to
def Fitted (c : Loop) (seen : List Token) : Prop :=
  ∀ tk cs, c.clientStreams.lookup tk = some cs → tk ∉ c.toRemove → tk ∈ seen → Fits cs

theorem Forwards.fitted (h : Forwards c tk cs c') (owed : Owed c []) {seen : List Token} (fitted : Fitted c seen)
    (found : c.clientStreams.lookup tk = some cs) : Fitted c' (tk :: seen) := by
  intro t cs' found' kept mem
  by_cases ht : t = tk
  · subst ht
    cases h with
    | retuned i tuned fits streams os removed =>
      rw [streams, AList.lookup_insert] at found'
      cases found'
      exact fits
    | refused i streams os removed =>
      rw [removed] at kept
      exact absurd (List.mem_append_right _ (List.mem_singleton_self _)) kept
    | kept fits streams os removed =>
      rw [streams, AList.lookup_insert] at found'
      rw [removed] at kept
      cases found'
      exact fits (owed t cs found kept).tuned
  · have before := (List.mem_cons.mp mem).resolve_left ht
    cases h with
    | retuned i tuned fits streams os removed =>
      rw [streams, AList.lookup_insert_ne ht] at found'
      exact fitted t cs' found' (removed ▸ kept) before
    | refused i streams os removed =>
      rw [streams, AList.lookup_insert_ne ht] at found'
      rw [removed] at kept
      exact fitted t cs' found' (fun hm => kept (List.mem_append_left _ hm)) before
    | kept fits streams os removed =>
      rw [streams, AList.lookup_insert_ne ht] at found'
      exact fitted t cs' found' (removed ▸ kept) before

structure Settled (c : Loop) (evs : List Event) : Prop where
  owed : Owed c evs
  plugged : Plugged c
  housed : Housed [] c

theorem forwards_settled (io : HeadIo) (order : List Token) (h : Settled c []) :
    Settled (order.foldl (forward env io) c) [] ∧ Fitted (order.foldl (forward env io) c) order := by
  have fold : ∀ (order seen : List Token) (c : Loop), Settled c [] → Fitted c seen →
      Settled (order.foldl (forward env io) c) [] ∧
        Fitted (order.foldl (forward env io) c) (order.reverse ++ seen) := by
    intro order
    induction order with
    | nil => exact fun seen c h fitted => ⟨h, fitted⟩
    | cons tk order ih =>
      intro seen c h fitted
      rw [List.reverse_cons, List.append_assoc]
      refine ih (tk :: seen) _ ⟨?_, h.plugged.upkeep (h.plugged.forward io tk), h.housed.forward h.plugged io tk⟩ ?_
      · cases found : c.clientStreams.lookup tk with
        | none =>
          rw [c.forward_none env io found]
          exact h.owed
        | some cs => exact (forward_forwards io found).owed h.owed h.housed found
      · cases found : c.clientStreams.lookup tk with
        | none =>
          rw [c.forward_none env io found]
          intro t cs found' kept mem
          refine fitted t cs found' kept ((List.mem_cons.mp mem).resolve_left ?_)
          rintro rfl
          rw [found] at found'
          cases found'
        | some cs => exact (forward_forwards io found).fitted h.owed fitted found
  obtain ⟨settled, fitted⟩ := fold order [] c h fun _ _ _ _ hm => absurd hm List.not_mem_nil
  refine ⟨settled, fun tk cs found kept mem => fitted tk cs found kept ?_⟩
  rw [List.append_nil]
  exact List.mem_reverse.mpr mem

theorem forwards_keys (io : HeadIo) (order : List Token) (c : Loop) (tk : Token)
    (h : tk ∈ (order.foldl (forward env io) c).clientStreams) : tk ∈ c.clientStreams := by
  refine List.foldlRecOn (motive := fun d : Loop => tk ∈ d.clientStreams → tk ∈ c.clientStreams)
    order _ id (fun d hd t _ mem => hd ?_) h
  cases found : d.clientStreams.lookup t with
  | none => rwa [d.forward_none env io found] at mem
  | some cs =>
    have keys : ∀ {cs'}, (d.forward env io t).clientStreams = d.clientStreams.insert t cs' → tk ∈ d.clientStreams := by
      intro cs' streams
      rw [streams, AList.mem_insert] at mem
      rcases mem with rfl | mem
      · exact AList.lookup_isSome.mp (by rw [found]; rfl)
      · exact mem
    cases @forward_forwards env _ _ _ io found with
    | retuned i tuned fits streams => exact keys streams
    | refused i streams => exact keys streams
    | kept fits streams => exact keys streams

theorem head_settled {io : HeadIo} (h : Settled c [])
    (order : io.order.Perm (c.takeStreams env io).clientStreams.keys) (hc : c.head env io = .running c') :
    Settled c' [] ∧ ∀ tk cs, c'.clientStreams.lookup tk = some cs → tk ∉ c'.toRemove → Fits cs := by
  obtain ⟨owed, plugged, housed⟩ := @Owed.takeStreams env _ h.owed h.plugged h.housed io
  obtain ⟨d, hu, rfl⟩ := head_turns hc
  have settled : Settled d [] :=
    ⟨owed.updateInterest housed hu, plugged.upkeep (.updateInterest hu), housed.updateInterest hu⟩
  obtain ⟨after, fitted⟩ := @forwards_settled env _ io io.order settled
  refine ⟨after, fun tk cs found kept => fitted tk cs found kept (order.mem_iff.mpr ?_)⟩
  have known := forwards_keys io io.order d tk (AList.lookup_isSome.mp (by rw [found]; rfl))
  have same : d.clientStreams = (c.takeStreams env io).clientStreams := by
    rcases updateInterest_cases hu with rfl | ⟨i, os, -, -, rfl⟩ <;> rfl
  rw [same] at known
  exact known

variable {ev : Event} {io : EventIo} {batch : List Event}

theorem event_sockets (hc : c.event env ev io = .running c') : c'.os.next = c.os.next ∧
    (c'.workerStream.sockets = c.workerStream.sockets ∨
      c'.workerStream.sockets = c.workerStream.sockets ++ io.fds) := by
  cases event_turns hc with
  | worker token d d' read write =>
    have near := c.workerRead_near ev io
    rw [read] at near
    have same := d.workerWrite_same ev io
    rw [write] at same
    rw [same.next, same.sockets]
    exact ⟨near.next, near.sockets⟩
  | unknown => exact ⟨rfl, .inl rfl⟩
  | client token cs found =>
    obtain ⟨held, read⟩ := clientRead_spec env io found
    have write := clientWrite_same io held
    have same : (c.clientRead env ev cs io).1.os.next = c.os.next ∧
        (c.clientRead env ev cs io).1.workerStream.sockets = c.workerStream.sockets := by
      rcases read with read | ⟨n, read⟩
      · exact ⟨read.next, read.sockets⟩
      · exact ⟨read.next, read.sockets⟩
    exact ⟨write.next.trans same.1, .inl (write.sockets.trans same.2)⟩

theorem worker_owed (h : Owed c (ev :: batch)) (plugged : Plugged c) (token : ev.token = workerStreamTk)
    {d : Loop} (read : c.workerRead ev io = (.ok (), d)) (write : d.workerWrite ev io = (.ok (), c')) :
    Owed c' batch := by
  have reads : c.os.Quiet d.os ∧ d.clientStreams = c.clientStreams ∧ d.toRemove = c.toRemove := by
    have quiet := c.os.read_quiet c.workerStream.stream bufferSize io.read
    have eq := congrArg Prod.snd read
    simp only [workerRead] at eq
    split at eq
    · rw [← eq]
      exact ⟨quiet, rfl, rfl⟩
    · rw [← eq]
      exact ⟨⟨rfl, fun k => .refl _⟩, rfl, rfl⟩
  have writes : d.os.Quiet c'.os ∧ c'.clientStreams = d.clientStreams ∧ c'.toRemove = d.toRemove := by
    have quiet := d.os.write_quiet d.workerStream.stream d.workerStream.outbuffer.length io.write
    have eq := congrArg Prod.snd write
    simp only [workerWrite] at eq
    split at eq
    · split at eq
      · rw [← eq]
        exact ⟨quiet, rfl, rfl⟩
      · rw [← eq]
        exact ⟨quiet, rfl, rfl⟩
    · rw [← eq]
      exact ⟨⟨rfl, fun k => .refl _⟩, rfl, rfl⟩
  intro tk cs found kept
  rw [writes.2.1, reads.2.1] at found
  rw [writes.2.2, reads.2.2] at kept
  have old := (h tk cs found kept).skip fun _ same =>
    Nat.ne_of_gt (plugged.tokens tk _ (streamOf_lookup found)).1 (same.trans token)
  exact (old.quiet (reads.1.2 _)).quiet (writes.1.2 _)

-- a step of the stream `cs` of `tk`, up to its failing
structure Serving (c : Loop) (tk : Token) (cs : ClientStream) (c' : Loop) (cs' : ClientStream) : Prop where
  streams : ∀ t, t ≠ tk → c'.clientStreams.lookup t = c.clientStreams.lookup t
  found : c'.clientStreams.lookup tk = some cs'
  stream : cs'.stream = cs.stream
  elsewhere : ∀ j, j ≠ cs.stream → c'.os.source j = c.os.source j
  removed : c.toRemove ⊆ c'.toRemove

theorem clientRead_serving (found : c.clientStreams.lookup ev.token = some cs) :
    Serving c ev.token cs (c.clientRead env ev cs io).1 (c.clientRead env ev cs io).2 ∧
      (ev.token ∉ (c.clientRead env ev cs io).1.toRemove → Attended c.os evs ev.token cs →
        Attended (c.clientRead env ev cs io).1.os evs ev.token (c.clientRead env ev cs io).2) := by
  simp only [clientRead]
  split
  · obtain ⟨stream, -, interest⟩ := cs.read_fields env.bc (c.os.read cs.stream bufferSize io.read).1
    have out := congrArg Front.outbuffer (cs.read_front env.bc (c.os.read cs.stream bufferSize io.read).1)
    have quiet := c.os.read_quiet cs.stream bufferSize io.read
    generalize cs.read env.bc (c.os.read cs.stream bufferSize io.read).1 = r at stream interest out ⊢
    obtain ⟨res, cs'⟩ := r
    dsimp only at stream interest out ⊢
    have others : ∀ t, t ≠ ev.token → (c.clientStreams.insert ev.token cs').lookup t = c.clientStreams.lookup t :=
      fun t ht => AList.lookup_insert_ne ht
    have elsewhere : ∀ j, j ≠ cs.stream → (c.os.read cs.stream bufferSize io.read).2.source j = c.os.source j :=
      fun j hj => c.os.read_other bufferSize io.read hj
    cases res with
    | ok u =>
      refine ⟨⟨others, AList.lookup_insert _, stream, elsewhere, List.Subset.refl _⟩, fun _ kept => ?_⟩
      exact (kept.quiet (quiet.2 _)).congr stream interest out
    | error e =>
      refine ⟨⟨others, AList.lookup_insert _, stream, fun j hj => ?_, List.subset_append_left ..⟩,
        fun kept => ?_⟩
      · rw [← elsewhere j hj]
        exact World.modify_other _ Source.detach (stream.symm ▸ hj)
      · exact absurd (List.mem_append_right _ (List.mem_singleton_self _)) kept
  · exact ⟨⟨fun _ _ => rfl, found, rfl, fun _ _ => rfl, List.Subset.refl _⟩, fun _ kept => kept⟩

theorem clientWrite_serving (found : c.clientStreams.lookup ev.token = some cs) :
    ∃ cs', Serving c ev.token cs (c.clientWrite ev cs io) cs' ∧
      (ev.token ∉ (c.clientWrite ev cs io).toRemove → Attended c.os (ev :: batch) ev.token cs →
        Attended (c.clientWrite ev cs io).os batch ev.token cs') := by
  simp only [clientWrite]
  split
  · have reg := ((c.os.write_quiet cs.stream cs.outbuffer.length io.write).2 cs.stream).reg
    have elsewhere : ∀ j, j ≠ cs.stream →
        (c.os.write cs.stream cs.outbuffer.length io.write).2.source j = c.os.source j :=
      fun j hj => c.os.write_other _ _ hj
    cases res : (c.os.write cs.stream cs.outbuffer.length io.write).1 with
    | error e =>
      refine ⟨cs, ⟨fun _ _ => rfl, found, rfl, fun j hj => ?_, List.subset_append_left ..⟩,
        fun kept => ?_⟩
      · rw [← elsewhere j hj]
        exact World.modify_other _ Source.detach hj
      · exact absurd (List.mem_append_right _ (List.mem_singleton_self _)) kept
    | ok n =>
      refine ⟨{ cs with outbuffer := compact n cs.outbuffer },
        ⟨fun t ht => AList.lookup_insert_ne ht, AList.lookup_insert _, rfl, elsewhere, List.Subset.refl _⟩,
        fun _ kept => ⟨reg.trans kept.reg, kept.tuned, ?_⟩⟩
      refine World.promised_write kept.promised _ io.write fun m written data => ?_
      rw [res] at written
      cases written
      rw [ClientStream.hasOutData, compact_eq_drop] at data
      have left : cs.outbuffer.drop n ≠ [] := by simpa using data
      rw [ne_eq, List.drop_eq_nil_iff] at left
      exact Nat.lt_of_not_le left
  · rename_i writable
    exact ⟨cs, ⟨fun _ _ => rfl, found, rfl, fun _ _ => rfl, List.Subset.refl _⟩,
      fun _ kept => kept.skip fun w => absurd w writable⟩

theorem Serving.trans {cs' cs'' : ClientStream} {c'' : Loop} (h : Serving c tk cs c' cs')
    (h' : Serving c' tk cs' c'' cs'') : Serving c tk cs c'' cs'' where
  streams t ht := (h'.streams t ht).trans (h.streams t ht)
  found := h'.found
  stream := h'.stream.trans h.stream
  elsewhere j hj := (h'.elsewhere j (h.stream.symm ▸ hj)).trans (h.elsewhere j hj)
  removed _ ht := h'.removed (h.removed ht)

theorem Serving.owed {cs' : ClientStream} (h : Serving c tk cs c' cs') (owed : Owed c (ev :: batch))
    (token : tk = ev.token) (distinct : ∀ t, c.streamOf t = some cs.stream → t = tk)
    (own : tk ∉ c'.toRemove → Attended c.os (ev :: batch) tk cs → Attended c'.os batch tk cs')
    (found : c.clientStreams.lookup tk = some cs) : Owed c' batch := by
  intro t s found' kept
  have before : t ∉ c.toRemove := fun hm => kept (h.removed hm)
  by_cases ht : t = tk
  · subst ht
    obtain rfl := Option.some.inj (found'.symm.trans h.found)
    exact own kept (owed t cs found before)
  · rw [h.streams t ht] at found'
    refine ((owed t s found' before).skip fun _ same => ht (same.trans token.symm)).source (h.elsewhere _ fun same => ?_)
    exact ht (distinct t (by rw [← same]; exact streamOf_lookup found'))

theorem event_settled {fds : Nat} {read : ReadIo} {write : WriteIo} (h : Settled c (ev :: batch))
    (hc : (c.bindFds fds).event env ev ⟨read, List.range' c.os.next fds, write⟩ = .running c') :
    Settled c' batch := by
  have plugged : (c.bindFds fds).Plugged :=
    ⟨h.plugged.calm, h.plugged.registered, h.plugged.positive, h.plugged.tokens⟩
  have owed : Owed (c.bindFds fds) (ev :: batch) := fun tk cs found kept =>
    (h.owed tk cs found kept).source rfl
  have housed := h.housed.bindFds fds
  have up := Upkeep.event hc
  obtain ⟨next, sockets⟩ := event_sockets hc
  refine ⟨?_, plugged.upkeep up, housed.settle up next sockets⟩
  have distinct : ∀ tk tk' k, (c.bindFds fds).streamOf tk = some k → (c.bindFds fds).streamOf tk' = some k → tk = tk' :=
    h.housed.distinct
  generalize c.bindFds fds = d at owed plugged distinct hc
  cases event_turns hc with
  | worker token e e' hr hw => exact worker_owed owed plugged token hr hw
  | unknown token found =>
    intro tk cs found' kept
    refine (owed tk cs found' kept).skip fun _ same => ?_
    rw [same, found] at found'
    cases found'
  | client token cs found =>
    obtain ⟨reads, own⟩ := @clientRead_serving env d (ev :: batch) cs ev ⟨read, List.range' c.os.next fds, write⟩ found
    generalize d.clientRead env ev cs ⟨read, List.range' c.os.next fds, write⟩ = r at reads own hc ⊢
    obtain ⟨e, cs'⟩ := r
    dsimp only at reads own ⊢
    obtain ⟨cs'', writes, own'⟩ := @clientWrite_serving e cs' ev ⟨read, List.range' c.os.next fds, write⟩ batch reads.found
    refine (reads.trans writes).owed owed rfl (fun t ht => distinct _ _ _ ht (streamOf_lookup found)) ?_ found
    exact fun kept before => own' kept (own (fun hm => kept (writes.removed hm)) before)

theorem Settled.touch {evs : List Event} {os : World Token UInt8} (h : Settled c evs)
    (same : c.os.SameReg os) (calm : ∀ k, (os.source k).backlog = (c.os.source k).backlog)
    (promised : ∀ k i data, (c.os.source k).Promised evs i data → (os.source k).Promised evs' i data) :
    Settled { c with os := os } evs' where
  owed tk cs found kept :=
    have own := h.owed tk cs found kept
    ⟨(same.2 _).trans own.reg, own.tuned, promised _ _ _ own.promised⟩
  plugged := h.plugged.rewire same calm
  housed := by
    refine ⟨?_, h.housed.waiting, ?_, ?_, h.housed.distinct⟩
    · exact same.1 ▸ h.housed.unix
    · exact same.1 ▸ h.housed.fresh
    · exact same.1 ▸ h.housed.streams

end Loop

namespace Daemon

variable {env : Env}

structure Settled (s : Daemon) : Prop where
  settled : ∀ c, s.flow = .running c → c.Settled (Phase.batch s.phase)
  fits : ∀ c, s.flow = .running c → s.phase = .polling →
    ∀ tk cs, c.clientStreams.lookup tk = some cs → tk ∉ c.toRemove → Loop.Fits cs

theorem start_settled : Settled ⟨.running start, .turn []⟩ := by
  refine ⟨fun c hc => ?_, fun c hc polling => ?_⟩
  · cases hc
    refine ⟨fun tk cs found => ?_, start_plugged, ⟨Nat.zero_lt_one, List.nodup_nil, fun k hk => ?_,
      fun tk k own => ?_, fun tk tk' k own => ?_⟩⟩
    · cases found
    · cases hk
    · cases own
    · cases own
  · cases polling

theorem Settled.touch {s : Daemon} {c : Loop} (h : Settled s) (hc : s.flow = .running c) (k : Sock)
    {f : Source Token UInt8 → Source Token UInt8}
    (kept : ∀ src, (f src).reg = src.reg ∧ (f src).backlog = src.backlog ∧ (f src).writeArmed = src.writeArmed ∧
      ((f src).closed = false → src.closed = false)) : Settled (s.touch c k f) := by
  have other : ∀ j, j ≠ k → (c.os.modify k f).source j = c.os.source j := fun j hj => World.modify_other _ f hj
  refine ⟨fun c' hc' => ?_, fun c' hc' polling => ?_⟩
  · cases hc'
    refine (h.settled c hc).touch (c.os.sameReg_modify k (kept _).1) (fun j => ?_) fun j i data promised => ?_
    · by_cases hj : j = k
      · rw [hj, World.modify_same, (kept _).2.1]
      · rw [other j hj]
    · by_cases hj : j = k
      · subst hj
        rw [World.modify_same]
        obtain ⟨reg, -, armed, closed⟩ := kept (c.os.source j)
        exact promised.mono reg closed (fun now => armed.trans now) id
      · rw [other j hj]
        exact promised
  · cases hc'
    exact h.fits c hc polling

theorem Settled.step {s s' : Daemon} {l : Label} (h : Settled s) (hs : step env s l = some s') : Settled s' := by
  obtain ⟨c, hc, hcase⟩ := step_cases hs
  have settled := h.settled c hc
  have arrived : ∀ bytes (src : Source Token UInt8), (src.arrive bytes).reg = src.reg ∧
      (src.arrive bytes).backlog = src.backlog ∧ (src.arrive bytes).writeArmed = src.writeArmed ∧
        ((src.arrive bytes).closed = false → src.closed = false) := by
    intro bytes src
    simp only [arrive]
    split <;> exact ⟨rfl, rfl, rfl, id⟩
  have closes : ∀ src : Source Token UInt8, src.close.reg = src.reg ∧ src.close.backlog = src.backlog ∧
      src.close.writeArmed = src.writeArmed ∧ (src.close.closed = false → src.closed = false) :=
    fun src => ⟨rfl, rfl, rfl, fun open_ => by cases open_⟩
  cases hcase with
  | head io phase order =>
    rw [phase] at settled
    exact ⟨fun c' hc' => (Loop.head_settled settled order hc').1,
      fun c' hc' _ => (Loop.head_settled settled order hc').2⟩
  | poll events os phase notified =>
    rw [phase] at settled
    refine ⟨fun c' hc' => ?_, fun c' hc' polling => ?_⟩
    · cases hc'
      refine settled.touch (World.notifyAll_some notified).1 (fun k => ?_)
        fun k i data promised => World.promised_notified promised notified
      obtain ⟨r, wr, source, -⟩ := World.notifyAll_deliver notified k
      rw [source]
      rfl
    · cases polling
  | event read fds write ev batch phase =>
    rw [phase] at settled
    refine ⟨fun c' hc' => Loop.event_settled settled hc', fun c' hc' polling => ?_⟩
    cases polling
  | master bytes => exact h.touch hc _ (arrived bytes)
  | hangup => exact h.touch hc _ closes
  | arrive k bytes client => exact h.touch hc k (arrived bytes)
  | close k client => exact h.touch hc k closes
  | pythread msgType msg =>
    refine ⟨fun c' hc' => ?_, fun c' hc' polling => ?_⟩
    · cases hc'
      exact ⟨settled.owed, ⟨settled.plugged.calm, settled.plugged.registered, settled.plugged.positive,
        settled.plugged.tokens⟩, ⟨settled.housed.unix, settled.housed.waiting, settled.housed.fresh,
          settled.housed.streams, settled.housed.distinct⟩⟩
    · cases hc'
      exact h.fits c hc polling

-- what the loop has to do with a stream it has not given up, it is told to do
structure Tended (s : Daemon) (c : Loop) (tk : Token) (cs : ClientStream) : Prop where
  reg : (c.os.source cs.stream).reg = some (tk, cs.interest)
  tuned : cs.interest = ro ∨ cs.interest = rw
  wants : s.phase = .polling → (cs.interest = rw ↔ cs.outbuffer ≠ [])
  armed : s.phase = .polling → (c.os.source cs.stream).closed = false → cs.outbuffer ≠ [] →
    (c.os.source cs.stream).writeArmed = true

theorem Settled.run {ls : List Label} {s : Daemon} (run : (machine env).exec ls = some s) : Settled s :=
  Machine.invariant start_settled (fun _ _ _ h => h.step) run

theorem Settled.tended {s : Daemon} {c : Loop} {tk : Token} {cs : ClientStream} (inv : Settled s)
    (running : s.flow = .running c) (found : c.clientStreams.lookup tk = some cs) (kept : tk ∉ c.toRemove) :
    Tended s c tk cs := by
  have own := (inv.settled c running).owed tk cs found kept
  have wants : s.phase = .polling → (cs.interest = rw ↔ cs.outbuffer ≠ []) := by
    intro polling
    have fits := inv.fits c running polling tk cs found kept
    rw [Loop.Fits] at fits
    rcases own.tuned with i | i
    · have none : cs.outbuffer = [] := by simpa [i, ro, ClientStream.hasOutData] using fits
      simp [i, none, ro, rw]
    · rw [i, rw] at fits
      simpa [i, ClientStream.hasOutData] using fits
  refine ⟨own.reg, own.tuned, wants, fun polling open_ some => ?_⟩
  have promised := own.promised
  rw [polling] at promised
  have due := promised (live_iff.mpr ⟨by rw [own.reg]; rfl, open_⟩)
  exact (due.told_nil ((wants polling).mpr some) (by simpa [ClientStream.hasOutData] using some)).2

theorem clients_watched {ls : List Label} {s : Daemon} {c : Loop} (run : (machine env).exec ls = some s)
    (running : s.flow = .running c) :
    ∀ tk cs, c.clientStreams.lookup tk = some cs → tk ∉ c.toRemove → Tended s c tk cs :=
  fun _ _ found kept => (Settled.run run).tended running found kept

-- the hello of the first client is still to be written
theorem clients_watched_greeting : ∃ s c cs, (machine loopback).exec greeting = some s ∧
    s.flow = .running c ∧ c.clientStreams.lookup 1 = some cs ∧ cs.outbuffer ≠ [] ∧
      (c.os.source cs.stream).writeArmed = true := by
  have run : (machine loopback).exec greeting = some ⟨.running _, .polling⟩ := rfl
  have watched := clients_watched run rfl 1 _ rfl (by decide)
  exact ⟨_, _, _, run, rfl, rfl, by decide, watched.armed rfl rfl (by decide)⟩

end Daemon
end PyProxy.Worker
