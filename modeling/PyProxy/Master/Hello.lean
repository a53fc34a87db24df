import PyProxy.Client.Connection
import PyProxy.Master.Custody
import PyProxy.Master.Fates

namespace PyProxy.Master
open Stream Protocol Poll

namespace OutputStream

variable {bc : Bincode} {S : String} {s : OutputStream}

theorem read_nothing (h : s.inbuffer = []) : s.read bc (.ok []) = (.ok (), s) := by
  cases s
  cases h
  rfl

section

variable (fits : (bc.clientHello.serialize ⟨S⟩).length < 2 ^ 32)
include fits

theorem hello_part {rest : List UInt8} (h : s.inbuffer ++ rest = Client.outputHello bc S)
    (more : rest ≠ []) : s.hello bc = .ok s := by
  simp only [hello]
  split
  · rfl
  · rename_i hsize
    have hlen : (s.inbuffer ++ rest).length = requestHeaderSize + (bc.clientHello.serialize ⟨S⟩).length := by
      rw [h]
      simp [Client.outputHello, newReq]
    have hpos := List.length_pos_iff.mpr more
    rw [List.length_append] at hlen
    have hcopy : copyHeader requestHeaderSize s.inbuffer =
        (RequestMessageHeader.new .hello 0 (bc.clientHello.serialize ⟨S⟩).length).intoBuf := by
      rw [← copyHeader_append requestHeaderSize s.inbuffer rest (by omega), h]
      exact copyHeader_toList _ _
    rw [hcopy, RequestMessageHeader.fromBuf_intoBuf_new]
    dsimp only
    rw [RequestMessageHeader.msgLenUsize_new fits, if_neg (by omega), if_pos (by omega)]

theorem hello_whole (roundTrips : bc.clientHello.RoundTrips) (h : s.inbuffer = Client.outputHello bc S) :
    s.hello bc = .ok { s with sessionId := some S, inbuffer := [] } := by
  have hlen : s.inbuffer.length = requestHeaderSize + (bc.clientHello.serialize ⟨S⟩).length := by
    rw [h]
    simp [Client.outputHello, newReq]
  have hcopy : copyHeader requestHeaderSize s.inbuffer =
      (RequestMessageHeader.new .hello 0 (bc.clientHello.serialize ⟨S⟩).length).intoBuf := by
    rw [h]
    exact copyHeader_toList _ _
  have hbody : (s.inbuffer.drop requestHeaderSize).take (bc.clientHello.serialize ⟨S⟩).length =
      bc.clientHello.serialize ⟨S⟩ := by
    rw [h, Client.outputHello, newReq, List.drop_left' (by simp), List.take_length]
  simp only [hello, hcopy, RequestMessageHeader.fromBuf_intoBuf_new,
    RequestMessageHeader.msgLenUsize_new fits, hbody, Output.readHello, roundTrips ⟨S⟩ fits, bincodeErr]
  rw [if_neg (by omega), if_neg (by omega), if_neg (by omega), compact_eq_drop,
    List.drop_of_length_le (by omega)]

theorem read_hello (roundTrips : bc.clientHello.RoundTrips) {bytes : List UInt8}
    (h : s.inbuffer ++ bytes <+: Client.outputHello bc S) :
    s.inbuffer ++ bytes ≠ Client.outputHello bc S ∧
        s.read bc (.ok bytes) = (.ok (), { s with inbuffer := s.inbuffer ++ bytes }) ∨
      s.inbuffer ++ bytes = Client.outputHello bc S ∧
        s.read bc (.ok bytes) = (.ok (), { s with sessionId := some S, inbuffer := [] }) := by
  obtain ⟨rest, hrest⟩ := h
  simp only [read]
  cases rest with
  | nil =>
    rw [List.append_nil] at hrest
    rw [hello_whole fits roundTrips hrest]
    exact .inr ⟨hrest, rfl⟩
  | cons b bs =>
    rw [hello_part fits hrest (List.cons_ne_nil b bs)]
    refine .inl ⟨fun whole => ?_, rfl⟩
    rw [whole] at hrest
    exact List.cons_ne_nil b bs (List.append_right_eq_self.mp hrest)

end

end OutputStream

namespace Loop

variable {env : Env} {c c' : Loop} {k : Sock} {ev : Event} {S : String}

-- `c'` is `c` after its output stream `k` has read the hello of session `S` up to `rest`
structure Greeting (env : Env) (c c' : Loop) (k : Sock) (S : String) (rest : List UInt8) : Prop where
  input : (c'.os.source k).input = rest
  unbound : (c'.outputs k).sessionId = none
  waiting : rest ≠ [] → (c'.outputs k).inbuffer ++ rest = Client.outputHello env.bc S ∧
    (c'.os.source k).reg.isSome = true ∧ (c'.os.source k).closed = false ∧
    c'.outputStreams = c.outputStreams
  bound : rest = [] → c'.outputStreams = c.outputStreams.insert S k ∧ (c'.outputs k).inbuffer = []

section

variable (roundTrips : env.bc.clientHello.RoundTrips)
  (fits : (env.bc.clientHello.serialize ⟨S⟩).length < 2 ^ 32)
include roundTrips fits

theorem Greeting.more {rest : List UInt8} (h : Greeting env c c' k S rest) (left : rest ≠ [])
    (readable : ev.readable = true) {io : EventIo} (ok : io.reregisterRefused = false) :
    ∃ rest', rest'.length < rest.length ∧ Greeting env c (c'.outputRead env ev k io) k S rest' := by
  obtain ⟨prior, reg, opened, same⟩ := h.waiting left
  obtain ⟨n, hpos, -, hio⟩ := World.read_open (Nat.zero_lt_succ 4095) io.read opened
    (show (c'.os.source k).input ≠ [] by rwa [h.input])
  rw [h.input] at hio
  have parts : (c'.outputs k).inbuffer ++ rest.take n ++ rest.drop n = Client.outputHello env.bc S := by
    rw [List.append_assoc, List.take_append_drop, prior]
  have drained : ((c'.os.modify k (·.drained n)).source k) = (c'.os.source k).drained n :=
    World.modify_same _ _ _
  have input : ((c'.os.source k).drained n).input = rest.drop n :=
    congrArg (List.drop n) h.input
  have fewer : (rest.drop n).length < rest.length := by
    have := List.length_pos_iff.mpr left
    rw [List.length_drop]
    omega
  refine ⟨rest.drop n, fewer, ?_⟩
  rcases OutputStream.read_hello fits roundTrips ⟨rest.drop n, parts⟩ with
    ⟨part, hread⟩ | ⟨whole, hread⟩
  · have left : rest.drop n ≠ [] := fun hnil => part (by rw [← parts, hnil, List.append_nil])
    rw [outputRead_more readable hio hread h.unbound]
    refine ⟨?_, ?_, fun _ => ⟨?_, ?_, ?_, same⟩, fun h => absurd h left⟩
    · rw [drained, input]
    · exact (congrArg OutputStream.sessionId (Outputs.set_same _ _ _)).trans h.unbound
    · exact (congrArg (OutputStream.inbuffer · ++ rest.drop n) (Outputs.set_same _ _ _)).trans parts
    · rw [drained]
      exact reg
    · rw [drained]
      exact opened
  · have hrest : rest.drop n = [] := by
      rw [whole] at parts
      exact List.append_right_eq_self.mp parts
    have again : (c'.os.modify k (·.drained n)).reregister io.reregisterRefused k ev.token rw =
        some ((c'.os.modify k (·.drained n)).modify k (·.attach ev.token rw)) := by
      rw [World.reregister, ok, drained]
      exact if_neg (by simp [Source.drained, Option.isSome_iff_ne_none.mp reg])
    rw [outputRead_hello readable hio hread rfl, again, hrest]
    refine ⟨?_, congrArg OutputStream.sessionId (Outputs.set_same _ _ _), fun h => absurd rfl h,
      fun _ => ⟨?_, congrArg OutputStream.inbuffer (Outputs.set_same _ _ _)⟩⟩
    · rw [World.modify_same, drained, Source.attach_input, input, hrest]
    · dsimp only
      rw [same]

omit roundTrips fits in
theorem Greeting.over (h : Greeting env c c' k S []) (readable : ev.readable = true) (io : EventIo) :
    Greeting env c (c'.outputRead env ev k io) k S [] := by
  obtain ⟨bound, empty⟩ := h.bound rfl
  rcases c'.os.read_results k (Nat.zero_lt_succ 4095) io.read with ⟨e, he⟩ | he | ⟨n, -, hne, -⟩
  · rw [outputRead_failed readable he h.unbound rfl, Outputs.set_self]
    refine ⟨?_, h.unbound, fun h => absurd rfl h, fun _ => ⟨bound, empty⟩⟩
    exact (congrArg Source.input (World.modify_same c'.os k _)).trans h.input
  · rw [outputRead_more readable he (OutputStream.read_nothing empty) h.unbound, Outputs.set_self]
    exact ⟨h.input, h.unbound, fun h => absurd rfl h, fun _ => ⟨bound, empty⟩⟩
  · rw [h.input, List.take_nil] at hne
    exact absurd rfl hne

theorem Greeting.run {rest : List UInt8} (h : Greeting env c c' k S rest) (readable : ev.readable = true)
    {ios : List EventIo} (ok : ∀ io ∈ ios, io.reregisterRefused = false) :
    ∃ rest', (rest' = [] ∨ rest'.length + ios.length ≤ rest.length) ∧
      Greeting env c (ios.foldl (fun c io => c.outputRead env ev k io) c') k S rest' := by
  induction ios generalizing c' rest with
  | nil => exact ⟨rest, .inr (Nat.le_refl _), h⟩
  | cons io ios ih =>
    have later : ∀ io ∈ ios, io.reregisterRefused = false := fun io hio => ok io (by simp [hio])
    rw [List.foldl_cons]
    cases rest with
    | nil =>
      obtain ⟨rest', hlen, h'⟩ := ih (h.over readable io) later
      have spent : rest' = [] := by
        rcases hlen with hnil | hlen
        · exact hnil
        · rw [List.length_nil] at hlen
          exact List.length_eq_zero_iff.mp (by omega)
      exact ⟨rest', .inl spent, h'⟩
    | cons b bs =>
      obtain ⟨rest₁, hlt, h₁⟩ := h.more roundTrips fits (List.cons_ne_nil b bs) readable (ok io (by simp))
      obtain ⟨rest', hlen, h'⟩ := ih h₁ later
      refine ⟨rest', hlen.imp_right fun hlen => ?_, h'⟩
      simp only [List.length_cons] at hlt ⊢
      omega

end

-- what output stream `k` has done with the bytes received for it, when they are of the hello of `S`
inductive Hearing (bc : Bincode) (S : String) (bytes : List UInt8) (c : Loop) (k : Sock) : Prop where
  | waiting (all : (c.outputs k).inbuffer ++ (c.os.source k).input = bytes)
      (part : (c.outputs k).inbuffer ≠ Client.outputHello bc S)
      (unrouted : ∀ K, c.outputStreams.lookup K ≠ some k)
  | greeted (all : bytes = Client.outputHello bc S) (spent : (c.outputs k).inbuffer = [])
      (drained : (c.os.source k).input = []) (routed : ∀ K, c.outputStreams.lookup K = some k → K = S)

namespace Hearing

variable {bytes : List UInt8}

theorem frame {bc : Bincode} (h : Hearing bc S bytes c k)
    (inbuffer : (c'.outputs k).inbuffer = (c.outputs k).inbuffer)
    (input : (c'.os.source k).input = (c.os.source k).input)
    (sessions : ∀ K, c'.outputStreams.lookup K = some k → c.outputStreams.lookup K = some k) :
    Hearing bc S bytes c' k := by
  cases h with
  | waiting all part unrouted =>
    exact .waiting (by rw [inbuffer, input, all]) (by rwa [inbuffer])
      fun K hK => unrouted K (sessions K hK)
  | greeted all spent drained routed =>
    exact .greeted all (inbuffer.trans spent) (input.trans drained) fun K hK => routed K (sessions K hK)

theorem fed {bc : Bincode} {new : List UInt8} {os : World Token UInt8} (h : Hearing bc S bytes c k)
    (pre : bytes ++ new <+: Client.outputHello bc S)
    (input : (os.source k).input = (c.os.source k).input ++ new) :
    Hearing bc S (bytes ++ new) { c with os := os } k := by
  cases h with
  | waiting all part unrouted =>
    refine .waiting ?_ part unrouted
    dsimp only
    rw [input, ← List.append_assoc, all]
  | greeted all spent drained routed =>
    have none : new = [] := by
      have hlen := pre.length_le
      rw [all, List.length_append] at hlen
      exact List.length_eq_zero_iff.mp (by omega)
    subst none
    refine .greeted (by rw [all, List.append_nil]) spent ?_ routed
    dsimp only
    rw [input, drained, List.append_nil]

theorem write {bc : Bincode} (h : Hearing bc S bytes c k) (ev : Event) (io : EventIo) :
    Hearing bc S bytes (c.outputWrite ev k io) k := by
  obtain ⟨-, sessions, out, hout⟩ := @outputWrite_beside c k io ev
  refine h.frame (by rw [hout]) ?_ fun K hK => by rwa [sessions] at hK
  cases hw : ev.writable with
  | false => simp only [outputWrite, hw, Bool.false_eq_true, if_false]
  | true =>
    have hcase := @outputWrite_cases c k io ev hw
    have same := c.os.modify_input k (fun s => s.put_input (c.outputs k).outbuffer.length io.write) k
    generalize c.outputWrite ev k io = d at hcase ⊢
    cases hcase with
    | failed e os got =>
      obtain rfl : os = _ := (congrArg Prod.snd got).symm
      exact ((c.os.write k _ io.write).2.modify_input k (fun s => s.detach_input) k).trans same
    | written n os got =>
      obtain rfl : os = _ := (congrArg Prod.snd got).symm
      exact same

theorem read (roundTrips : env.bc.clientHello.RoundTrips)
    (fits : (env.bc.clientHello.serialize ⟨S⟩).length < 2 ^ 32) (h : Hearing env.bc S bytes c k)
    (pre : bytes <+: Client.outputHello env.bc S) (unbound : (c.outputs k).sessionId = none)
    (ev : Event) (io : EventIo) : Hearing env.bc S bytes (c.outputRead env ev k io) k := by
  cases hr : ev.readable with
  | false => simpa only [outputRead, hr, Bool.false_eq_true, if_false] using h
  | true =>
    rcases c.os.read_results k (Nat.zero_lt_succ 4095) io.read with ⟨e, he⟩ | he | ⟨n, he, hne, -⟩
    · rw [outputRead_failed hr he unbound rfl, Outputs.set_self]
      exact h.frame rfl (c.os.modify_input k (fun s => s.detach_input) k) fun _ => id
    · have hread : (c.outputs k).read env.bc (.ok []) = (.ok (), c.outputs k) := by
        cases h with
        | waiting all part unrouted =>
          have pre' : (c.outputs k).inbuffer ++ [] <+: Client.outputHello env.bc S := by
            rw [List.append_nil]
            exact (all ▸ List.prefix_append _ _).trans pre
          rcases OutputStream.read_hello fits roundTrips pre' with ⟨-, hread⟩ | ⟨whole, -⟩
          · rw [hread, List.append_nil]
          · rw [List.append_nil] at whole
            exact absurd whole part
        | greeted all spent drained routed => exact OutputStream.read_nothing spent
      rw [outputRead_more hr he hread unbound, Outputs.set_self]
      exact h.frame rfl rfl fun _ => id
    · have drained : (c.os.modify k (·.drained n)).source k = (c.os.source k).drained n :=
        World.modify_same _ _ _
      cases h with
      | greeted all spent nothing routed =>
        rw [nothing, List.take_nil] at hne
        exact absurd rfl hne
      | waiting all part unrouted =>
        have parts : (c.outputs k).inbuffer ++ (c.os.source k).input.take n ++
            (c.os.source k).input.drop n = bytes := by
          rw [List.append_assoc, List.take_append_drop, all]
        have pre' := (parts ▸ List.prefix_append _ _ : _ <+: bytes).trans pre
        rcases OutputStream.read_hello fits roundTrips pre' with ⟨more, hread⟩ | ⟨whole, hread⟩
        · rw [outputRead_more hr he hread unbound]
          refine .waiting ?_ ?_ unrouted
          · rw [drained]
            exact (congrArg (OutputStream.inbuffer · ++ (c.os.source k).input.drop n)
              (Outputs.set_same _ _ _)).trans parts
          · dsimp only
            rwa [Outputs.set_same]
        · have hrest : (c.os.source k).input.drop n = [] := by
            rw [← parts, whole] at pre
            have hlen := pre.length_le
            rw [List.length_append] at hlen
            exact List.length_eq_zero_iff.mp (by omega)
          rw [hrest, List.append_nil, whole] at parts
          rw [outputRead_hello hr he hread rfl]
          cases again : (c.os.modify k (·.drained n)).reregister io.reregisterRefused k ev.token rw with
          | none =>
            refine .greeted parts.symm (congrArg OutputStream.inbuffer (Outputs.set_same _ _ _)) ?_
              fun K hK => absurd hK (unrouted K)
            rw [drained]
            exact hrest
          | some os =>
            obtain ⟨-, rfl⟩ := World.reregister_some again
            refine .greeted parts.symm (congrArg OutputStream.inbuffer (Outputs.set_same _ _ _)) ?_
              fun K hK => ?_
            · rw [World.modify_same, drained]
              exact hrest
            · by_cases hs : K = S
              · exact hs
              · rw [AList.lookup_insert_ne hs] at hK
                exact absurd hK (unrouted K)

end Hearing

def Heard (bc : Bincode) (S : String) (issues : List Issue) (ns : List Note) (c : Loop) : Prop :=
  ∀ tk k, ⟨tk, k, .outputStream⟩ ∈ issues →
    Note.bytesOf k ns <+: Client.outputHello bc S → Hearing bc S (Note.bytesOf k ns) c k

namespace Heard

variable {issues : List Issue} {ns : List Note} {pend : List Token}

theorem own (roundTrips : env.bc.clientHello.RoundTrips)
    (fits : (env.bc.clientHello.serialize ⟨S⟩).length < 2 ^ 32) {io : EventIo} {j : Sock}
    (h : Heard env.bc S issues ns c) (unbound : Unbound issues c) {tk : Token} (below : k < c.os.next)
    (ap : Apart ev.token j c ((c.outputRead env ev j io).outputWrite ev j io))
    (hown : ⟨ev.token, j, .outputStream⟩ ∈ issues) (hx : ⟨tk, k, .outputStream⟩ ∈ issues)
    (pre : Note.bytesOf k ns <+: Client.outputHello env.bc S) : Hearing env.bc S (Note.bytesOf k ns)
      ((c.outputRead env ev j io).outputWrite ev j io) k := by
  obtain ⟨beside, sessions, -⟩ := @outputWrite_beside (c.outputRead env ev j io) j io ev
  by_cases hk : k = j
  · subst hk
    exact ((h tk k hx pre).read roundTrips fits pre (unbound tk k hx) ev io).write ev io
  · have reads := @outputRead_beside env c j io ev (unbound _ j hown)
    refine (h tk k hx pre).frame ?_ ?_ fun K hK => ?_
    · rw [(beside.output k hk).trans (reads.output k hk)]
    · rw [ap.source k hk below]
    · rw [sessions] at hK
      exact (reads.session K k hK).resolve_left hk

theorem event (roundTrips : env.bc.clientHello.RoundTrips)
    (fits : (env.bc.clientHello.serialize ⟨S⟩).length < 2 ^ 32) {io : EventIo}
    (h : Heard env.bc S issues ns c) (unbound : Unbound issues c)
    (w : Wired issues (ev.token :: pend) c) (below : ∀ n ∈ ns, n.sock < c.os.next)
    (hc : c.event env ev io = .running c') :
    Heard env.bc S (issues ++ c.issued ev io) (ns ++ c.noted ev io) c' := by
  obtain ⟨a, ha⟩ := Option.isSome_iff_exists.mp (w.held ev.token (by simp))
  have ap := event_apart ha hc
  have hown := w.issue ha
  intro tk k hx pre
  rcases List.mem_append.mp hx with hx | hx
  · have unheard : Note.bytesOf k (c.noted ev io) = [] := by
      refine Note.bytesOf_other fun n hn eq => ?_
      rcases event_next ha hc hn with hs | ⟨rfl, -⟩
      · have hk := congrArg Issue.kind (w.same_sock hx hown (eq.symm.trans hs))
        cases a with
        | outputStream j => simp [noted, ha] at hn
        | _ => cases hk
      · exact (w.fresh hx).2 eq.symm
    rw [Note.bytesOf_append, unheard, List.append_nil] at pre ⊢
    by_cases ho : a.kind = .outputStream
    · cases a with
      | outputStream j =>
        simp only [Loop.event, ha] at hc
        cases hc
        exact h.own roundTrips fits unbound (w.below _ hx).2 ap hown hx pre
      | _ => cases ho
    · have routes := event_routes ha ho hc
      have hk : k ≠ a.sock := fun eq => ho (congrArg Issue.kind (w.same_sock hx hown eq)).symm
      refine (h tk k hx pre).frame ?_ ?_ fun K hK => ?_
      · rcases routes.streams k (w.below _ hx).2 with heq | ⟨sessionId, out, -, heq⟩
        · rw [heq]
        · rw [heq]
      · rw [ap.source k hk (w.below _ hx).2]
      · rwa [routes.sessions] at hK
  · obtain ⟨j, os, hl, rfl, ready, accept, ok, hnew⟩ := issued_output hx
    simp only [Loop.event, hl, hnew] at hc
    cases hc
    have hout : (c.outputs.set c.os.next (.new c.ioToken ro)) c.os.next = .new c.ioToken ro :=
      Outputs.set_same _ _ _
    have unheard := Note.bytesOf_other fun n hn => Nat.ne_of_lt (below n hn)
    have early : Note.bytesOf c.os.next (ns ++ c.noted ev io) = io.accept.early := by
      rw [Note.bytesOf_append, unheard]
      simp [noted, hl, opened_ready ready accept, Note.bytesOf, Note.bytesTo]
    refine .waiting ?_ ?_ fun K hK => ?_
    · dsimp only
      rw [hout, early, World.modify_same, Source.attach_input, ok.opened]
      rfl
    · dsimp only
      rw [hout]
      exact fun hnil => Nat.noConfusion (congrArg List.length hnil)
    · obtain ⟨tk, hx⟩ := w.sessions K _ hK
      exact Nat.lt_irrefl _ (w.below _ hx).2

theorem head {io : HeadIo} (h : Heard env.bc S issues ns c) (hc : c.head env io = .running c') :
    Heard env.bc S issues ns c' := by
  have tunes := head_tunes hc
  intro tk k hx pre
  obtain ⟨i, hi⟩ := tunes.output k
  refine (h tk k hx pre).frame (by rw [hi]; rfl) (tunes.source k).input fun K hK => ?_
  rwa [tunes.sessions] at hK

theorem fed {bc : Bincode} {new : List Note} {os : World Token UInt8} (h : Heard bc S issues ns c)
    (input : ∀ k, (os.source k).input = (c.os.source k).input ++ Note.bytesOf k new) :
    Heard bc S issues (ns ++ new) { c with os := os } := by
  intro tk k hx pre
  rw [Note.bytesOf_append] at pre ⊢
  exact (h tk k hx ((List.prefix_append _ _).trans pre)).fed pre (input k)

end Heard

end Loop

namespace System

variable {env : Env} {S : String}

def Heard (bc : Bincode) (S : String) (issues : List Issue) (ns : List Note) (s : System) : Prop :=
  ∀ c, s.flow = .running c → Loop.Heard bc S issues ns c

theorem Heard.step (roundTrips : env.bc.clientHello.RoundTrips)
    (fits : (env.bc.clientHello.serialize ⟨S⟩).length < 2 ^ 32) {issues : List Issue} {ns : List Note}
    {fs : List Fate} {s s' : System} {l : Label} (h : Heard env.bc S issues ns s)
    (custody : Custody ns s) (fated : Fated issues fs s) (w : Wired issues s)
    (hs : step env s l = some s') : Heard env.bc S (issues ++ s.issued l) (ns ++ s.noted l) s' := by
  obtain ⟨c, hc, hcase⟩ := step_cases env hs
  have heard := h c hc
  have wired := w.wired c hc
  have below := (custody.custody c hc).below
  have silent : ∀ {os : World Token UInt8}, (∀ k, (os.source k).input = (c.os.source k).input) →
      Loop.Heard env.bc S issues ns { c with os := os } := by
    intro os input
    have hfed := @Loop.Heard.fed c S issues ns env.bc [] os heard fun k =>
      (input k).trans (List.append_nil _).symm
    rwa [List.append_nil] at hfed
  cases hcase with
  | boot refused main output unix workers phase hlt =>
    obtain ⟨rfl, -⟩ := w.boot c hc phase
    have hi : s.issued (.boot refused main output unix workers) =
        bootIssues main output unix workers := by simp [issued, hc, phase]
    rw [hi, List.nil_append]
    exact fun c' _ tk k hx => absurd rfl (bootIssues_kind hx).2.1
  | head io phase order =>
    have hn : s.noted (.head io) = [] := by simp [noted, hc]
    have hi : s.issued (.head io) = [] := by simp [issued, hc]
    rw [hn, hi, List.append_nil, List.append_nil]
    exact fun c' hc' => heard.head hc'
  | poll events os phase notified =>
    have hn : s.noted (.poll events) = [] := by simp [noted, hc]
    have hi : s.issued (.poll events) = [] := by simp [issued, hc]
    rw [hn, hi, List.append_nil, List.append_nil]
    intro c' hc'
    cases hc'
    refine silent fun k => ?_
    obtain ⟨r, wr, hsrc, -, -⟩ := World.notifyAll_deliver notified k
    rw [hsrc]
    rfl
  | event io ev batch phase =>
    have hn : s.noted (.event io) = c.noted ev io := by simp [noted, hc, phase]
    have hi : s.issued (.event io) = c.issued ev io := by simp [issued, hc, phase]
    rw [hn, hi]
    rw [phase] at wired
    exact fun c' hc' => heard.event roundTrips fits (fated.unbound c hc) wired below hc'
  | connect tk act found listens =>
    have hn : s.noted (.connect tk) = [] := by simp [noted, hc]
    have hi : s.issued (.connect tk) = [] := by simp [issued, hc]
    rw [hn, hi, List.append_nil, List.append_nil]
    intro c' hc'
    cases hc'
    exact silent (c.os.modify_input act.sock fun _ => rfl)
  | arrive tk act bytes found listens =>
    have hn : s.noted (.arrive tk bytes) = [.received act.sock bytes] := by
      simp [noted, hc, Loop.sockOf, found]
    have hi : s.issued (.arrive tk bytes) = [] := by simp [issued, hc]
    rw [hn, hi, List.append_nil]
    intro c' hc'
    cases hc'
    refine heard.fed fun k => ?_
    by_cases hk : k = act.sock
    · rw [hk, World.modify_same, Source.arrive_input]
      simp [Note.bytesOf, Note.bytesTo]
    · rw [World.modify_other _ _ hk]
      simp [Note.bytesOf, Note.bytesTo, Ne.symm hk]
  | close tk act found listens =>
    have hn : s.noted (.close tk) = [] := by simp [noted, hc]
    have hi : s.issued (.close tk) = [] := by simp [issued, hc]
    rw [hn, hi, List.append_nil, List.append_nil]
    intro c' hc'
    cases hc'
    exact silent (c.os.modify_input act.sock fun _ => rfl)

theorem heard_run (roundTrips : env.bc.clientHello.RoundTrips)
    (fits : (env.bc.clientHello.serialize ⟨S⟩).length < 2 ^ 32) {next : Sock} {ls : List Label}
    {s : System} {ns : List Note} (run : ((machine env next).traced noted).exec ls = some (s, ns)) :
    Custody ns s ∧ ∃ issues fs, Wired issues s ∧ Fated issues fs s ∧ Heard env.bc S issues ns s := by
  refine @Machine.invariant _ _ ((machine env next).traced noted)
    (fun p => Custody p.2 p.1 ∧ ∃ issues fs, Wired issues p.1 ∧ Fated issues fs p.1 ∧
      Heard env.bc S issues p.2 p.1) ?_ (fun p l p' hp hl => ?_) _ _ run
  · exact ⟨@custody_init env next, [], [], @wired_init env next, @fated_init env next,
      fun c hc tk k hx => (by cases hx)⟩
  · obtain ⟨hs, heq⟩ := Machine.traced_step hl
    obtain ⟨custody, issues, fs, wired, fated, heard⟩ := hp
    rw [heq]
    exact ⟨custody.step wired hs, _, _, wired.step hs, fated.step wired hs,
      heard.step roundTrips fits custody fated wired hs⟩

theorem routed_key (roundTrips : env.bc.clientHello.RoundTrips)
    (fits : (env.bc.clientHello.serialize ⟨S⟩).length < 2 ^ 32) {next : Sock} {ls : List Label}
    {s : System} {ns : List Note} {c : Loop} {K : String} {k : Sock}
    (run : ((machine env next).traced noted).exec ls = some (s, ns)) (running : s.flow = .running c)
    (sent : Note.bytesOf k ns <+: Client.outputHello env.bc S)
    (routed : c.outputStreams.lookup K = some k) : K = S := by
  obtain ⟨-, issues, fs, wired, -, heard⟩ := heard_run roundTrips fits run
  obtain ⟨tk, hx⟩ := (wired.wired c running).sessions K k routed
  cases heard c running tk k hx sent with
  | waiting all part unrouted => exact absurd routed (unrouted K)
  | greeted all spent drained routes => exact routes K routed

end System
end PyProxy.Master
