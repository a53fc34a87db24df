import PyProxy.Worker.Wakeup

namespace PyProxy.Worker
open Stream Protocol Server Poll

namespace Loop

variable {env : Env} {held : List Sock} {c c' : Loop}

-- every socket has one place: the unix stream, the sockets still to be taken, one token
structure Housed (held : List Sock) (c : Loop) : Prop where
  unix : c.workerStream.stream < c.os.next
  waiting : (held ++ c.workerStream.sockets).Nodup
  fresh : ∀ k ∈ held ++ c.workerStream.sockets, k < c.os.next ∧ k ≠ c.workerStream.stream
  streams : ∀ tk k, c.streamOf tk = some k →
    k < c.os.next ∧ k ≠ c.workerStream.stream ∧ k ∉ held ++ c.workerStream.sockets
  distinct : ∀ tk tk' k, c.streamOf tk = some k → c.streamOf tk' = some k → tk = tk'

namespace Housed

theorem weaken {k : Sock} (h : Housed (k :: held) c) : Housed held c where
  unix := h.unix
  waiting := (List.nodup_cons.mp h.waiting).2
  fresh j hj := h.fresh j (List.mem_cons_of_mem _ hj)
  streams tk j own :=
    have ⟨below, apart, out⟩ := h.streams tk j own
    ⟨below, apart, fun hj => out (List.mem_cons_of_mem _ hj)⟩
  distinct := h.distinct

theorem upkeep (h : Housed held c) (up : Upkeep c c') (next : c'.os.next = c.os.next)
    (sockets : c'.workerStream.sockets = c.workerStream.sockets) : Housed held c' := by
  refine ⟨?_, ?_, fun k hk => ?_, fun tk k own => ?_, fun tk tk' k own own' => ?_⟩
  · rw [up.unix, next]
    exact h.unix
  · rw [sockets]
    exact h.waiting
  · rw [sockets] at hk
    rw [next, up.unix]
    exact h.fresh k hk
  · rw [up.streamOf] at own
    rw [next, up.unix, sockets]
    exact h.streams tk k own
  · rw [up.streamOf] at own own'
    exact h.distinct tk tk' k own own'

theorem addStream {cs : ClientStream} (h : Housed (cs.stream :: held) c) (ts : String) {os : World Token UInt8}
    (next : os.next = c.os.next) : Housed held (c.addStream env ts cs os) := by
  have streams := @streamOf_insert c (c.addStream env ts cs os) c.tokenIo cs rfl
  have new : ∀ {tk}, c.streamOf tk ≠ some cs.stream := fun own =>
    (h.streams _ _ own).2.2 (List.mem_cons_self ..)
  refine ⟨?_, h.weaken.waiting, fun k hk => ?_, fun tk k own => ?_, fun tk tk' k own own' => ?_⟩
  · change c.workerStream.stream < os.next
    rw [next]
    exact h.unix
  · change k < os.next ∧ _
    rw [next]
    exact h.weaken.fresh k hk
  · change k < os.next ∧ _
    rw [next]
    rw [streams] at own
    split at own
    · cases own
      obtain ⟨below, apart⟩ := h.fresh cs.stream (List.mem_cons_self ..)
      exact ⟨below, apart, (List.nodup_cons.mp h.waiting).1⟩
    · exact h.weaken.streams tk k own
  · rw [streams] at own own'
    split at own
    · rename_i ht
      split at own'
      · rename_i ht'
        rw [ht, ht']
      · cases own
        exact absurd own' new
    · split at own'
      · cases own'
        exact absurd own new
      · exact h.distinct tk tk' k own own'

theorem takeStream (io : HeadIo) {msg : Vector UInt8 requestHeaderSize × Sock}
    (h : Housed (msg.2 :: held) c) : Housed held (c.takeStream env io msg) := by
  rcases c.takeStream_cases env io msg with he | he | ⟨cs, hport, -, -, -, he⟩
  · rw [he]
    exact h.weaken
  · rw [he]
    exact ⟨h.unix, h.weaken.waiting, h.weaken.fresh, h.weaken.streams, h.distinct⟩
  · rw [he]
    have stream : cs.stream = msg.2 := congrArg Port.stream hport
    rw [← stream] at h
    exact h.addStream _ rfl

theorem updateInterest {refused : Bool} (h : Housed [] c) (hu : c.updateInterest refused = .ok c') :
    Housed [] c' :=
  have same := same_updateInterest hu
  h.upkeep (.updateInterest hu) same.next same.sockets

theorem forward (h : Housed [] c) (plugged : Plugged c) (io : HeadIo) (tk : Token) :
    Housed [] (c.forward env io tk) := by
  refine h.upkeep (plugged.forward io tk) ?_ ?_
  · cases found : c.clientStreams.lookup tk with
    | none => rw [c.forward_none env io found]
    | some cs => exact (c.forward_some env io found).next
  · cases found : c.clientStreams.lookup tk with
    | none => rw [c.forward_none env io found]
    | some cs => exact (c.forward_some env io found).sockets

theorem bindFds (h : Housed [] c) (n : Nat) : Housed (List.range' c.os.next n) (c.bindFds n) where
  unix := Nat.lt_add_right n h.unix
  waiting := by
    refine List.nodup_append.mpr ⟨List.nodup_range', h.waiting, fun k hk k' hk' he => ?_⟩
    exact absurd (he ▸ (h.fresh k' hk').1) (Nat.not_lt.mpr (List.mem_range'_1.mp hk).1)
  fresh k hk := by
    rcases List.mem_append.mp hk with hk | hk
    · obtain ⟨above, below⟩ := List.mem_range'_1.mp hk
      exact ⟨below, Nat.ne_of_gt (Nat.lt_of_lt_of_le h.unix above)⟩
    · exact ⟨Nat.lt_add_right n (h.fresh k hk).1, (h.fresh k hk).2⟩
  streams tk k own := by
    obtain ⟨below, apart, out⟩ := h.streams tk k own
    refine ⟨Nat.lt_add_right n below, apart, fun hk => ?_⟩
    rcases List.mem_append.mp hk with hk | hk
    · exact absurd below (Nat.not_lt.mpr (List.mem_range'_1.mp hk).1)
    · exact out hk
  distinct := h.distinct

-- sockets held are taken in, or never heard of again
theorem settle (h : Housed held c) (up : Upkeep c c') (next : c'.os.next = c.os.next)
    (sockets : c'.workerStream.sockets = c.workerStream.sockets ∨
      c'.workerStream.sockets = c.workerStream.sockets ++ held) : Housed [] c' := by
  have sub : ∀ k ∈ c'.workerStream.sockets, k ∈ held ++ c.workerStream.sockets := by
    intro k hk
    rcases sockets with same | all
    · exact List.mem_append_right _ (same ▸ hk)
    · rw [all] at hk
      exact List.mem_append.mpr (List.mem_append.mp hk).symm
  refine ⟨?_, ?_, fun k hk => ?_, fun tk k own => ?_, fun tk tk' k own own' => ?_⟩
  · rw [up.unix, next]
    exact h.unix
  · rw [List.nil_append]
    rcases sockets with same | all
    · rw [same]
      exact (List.nodup_append.mp h.waiting).2.1
    · rw [all]
      exact List.nodup_append_comm.mp h.waiting
  · rw [next, up.unix]
    exact h.fresh k (sub k hk)
  · rw [up.streamOf] at own
    rw [next, up.unix]
    obtain ⟨below, apart, out⟩ := h.streams tk k own
    exact ⟨below, apart, fun hk => out (sub k hk)⟩
  · rw [up.streamOf] at own own'
    exact h.distinct tk tk' k own own'

end Housed
end Loop
end PyProxy.Worker
