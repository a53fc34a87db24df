import PyProxy.Master.System
import PyProxy.Poll.Quiet

namespace PyProxy.Master
open Poll

-- a token given to a source that was registered with it
structure Issue where
  token : Token
  sock : Sock
  kind : Kind

namespace IoActions

variable {m m' : IoActions} {tk : Token} {a : IoAction}

@[simp] theorem insert_same (m : IoActions) (tk : Token) (a : IoAction) : m.insert tk a tk = some a :=
  if_pos rfl

theorem insert_other (m : IoActions) {tk t : Token} (a : IoAction) (h : t ≠ tk) :
    m.insert tk a t = m t := if_neg h

theorem insertAll_mono {l : List (Token × IoAction)} (h : m tk = some a → m' tk = some a)
    (ha : m.insertAll l tk = some a) : m'.insertAll l tk = some a := by
  induction l generalizing m m' with
  | nil => exact h ha
  | cons p l ih =>
    refine @ih (m.insert p.1 p.2) (m'.insert p.1 p.2) ?_ ha
    simp only [insert]
    split
    · exact id
    · exact h

theorem insertAll_congr {l : List (Token × IoAction)} (h : m tk = m' tk) :
    m.insertAll l tk = m'.insertAll l tk := by
  cases hm : m'.insertAll l tk with
  | some a => exact insertAll_mono (fun ha => h.trans ha) hm
  | none =>
    cases hm' : m.insertAll l tk with
    | none => rfl
    | some a =>
      rw [insertAll_mono (fun ha => h ▸ ha) hm'] at hm
      cases hm

theorem insertAll_other {l : List (Token × IoAction)} (h : ∀ p ∈ l, p.1 ≠ tk) :
    m.insertAll l tk = m tk := by
  induction l generalizing m with
  | nil => rfl
  | cons p l ih =>
    have hp := h p (by simp)
    exact (ih fun q hq => h q (by simp [hq])).trans (m.insert_other p.2 hp.symm)

theorem insertAll_insert {l : List (Token × IoAction)} (h : ∀ p ∈ l, p.1 ≠ tk) :
    (m.insert tk a).insertAll l = (m.insertAll l).insert tk a := by
  funext t
  by_cases ht : t = tk
  · subst ht
    rw [insertAll_other h, insert_same, insert_same]
  · rw [insert_other _ _ ht]
    exact insertAll_congr (insert_other _ _ ht)

theorem insertAll_isSome {l : List (Token × IoAction)}
    (h : (m tk).isSome = true ∨ ∃ p ∈ l, p.1 = tk) : (m.insertAll l tk).isSome = true := by
  induction l generalizing m with
  | nil =>
    rcases h with h | ⟨p, hp, -⟩
    · exact h
    · cases hp
  | cons q l ih =>
    apply @ih (m.insert q.1 q.2)
    by_cases hq : tk = q.1
    · subst hq
      exact .inl (by simp)
    · rw [insert_other _ _ hq]
      refine h.imp_right ?_
      rintro ⟨p, hp, rfl⟩
      rcases List.mem_cons.mp hp with rfl | hp
      · exact absurd rfl hq
      · exact ⟨p, hp, rfl⟩

theorem insertAll_concat (m : IoActions) (l : List (Token × IoAction)) (tk : Token) (a : IoAction) :
    m.insertAll (l ++ [(tk, a)]) = (m.insertAll l).insert tk a := by
  simp [insertAll, List.foldl_append]

theorem removeAll_eq (m : IoActions) (l : List Token) (tk : Token) :
    m.removeAll l tk = if tk ∈ l then none else m tk := by
  induction l generalizing m with
  | nil => rfl
  | cons t l ih =>
    have hrec : m.removeAll (t :: l) tk = if tk ∈ l then none else m.remove t tk := ih (m.remove t)
    rw [hrec, remove]
    by_cases ht : tk = t
    · simp [ht]
    · simp [ht]

end IoActions

namespace Loop

-- `pend` are the tokens of the events that the current batch still holds
structure Wired (issues : List Issue) (pend : List Token) (c : Loop) : Prop where
  tokens : (issues.map Issue.token).Nodup
  socks : (issues.map Issue.sock).Nodup
  below : ∀ x ∈ issues, x.token < c.ioToken ∧ x.sock < c.os.next
  actions : ∀ tk a, c.act tk = some a → ⟨tk, a.sock, a.kind⟩ ∈ issues
  registered : ∀ k tk i, (c.os.source k).reg = some (tk, i) →
    i.readable = true ∧ tk ∉ c.toRemove ∧ ∃ a, c.act tk = some a ∧ a.sock = k
  listener : ∀ tk k, c.act tk = some (.mainListener k) →
    tk = mainListenerTk ∧ (c.os.source k).reg.isSome = true
  workers : ∀ p ∈ c.workerStreams.streams, ⟨p.1, p.2, .workerStream⟩ ∈ issues
  sessions : ∀ sessionId k, c.outputStreams.lookup sessionId = some k →
    ∃ tk, ⟨tk, k, .outputStream⟩ ∈ issues
  outputs : ∀ x ∈ issues, x.kind = .outputStream → (c.outputs x.sock).token = x.token
  removed : ∀ tk ∈ c.toRemove, tk < c.ioToken
  inserted : ∀ p ∈ c.toInsert, c.ioActions p.1 = none
  held : ∀ tk ∈ pend, (c.ioActions tk).isSome = true

-- `c'` is `c` with the source of `a` registered under a new token
structure Adopts (c c' : Loop) (tk : Token) (a : IoAction) : Prop where
  os : c'.os = c.os.modify a.sock (·.attach tk ro)
  token : tk < c'.ioToken ∧ c.ioToken ≤ c'.ioToken
  act : c'.act = c.act.insert tk a
  ioActions : ∀ t, (c.ioActions t).isSome = true → (c'.ioActions t).isSome = true
  inserted : ∀ p ∈ c'.toInsert, c'.ioActions p.1 = none
  toRemove : c'.toRemove = c.toRemove
  streams : ∀ p ∈ c'.workerStreams.streams,
    p ∈ c.workerStreams.streams ∨ p = (tk, a.sock) ∧ a.kind = .workerStream
  sessions : c'.outputStreams = c.outputStreams
  outputs : ∀ k, k ≠ a.sock → c'.outputs k = c.outputs k
  output : a.kind = .outputStream → (c'.outputs a.sock).token = tk
  listener : a.kind = .mainListener → tk = mainListenerTk

namespace Wired

variable {issues : List Issue} {pend : List Token} {c : Loop} {x y : Issue} {k : Sock} {tk : Token} {i : Interest}
  {a : IoAction}

theorem same_token (h : Wired issues pend c) (hx : x ∈ issues) (hy : y ∈ issues)
    (eq : x.token = y.token) : x = y := List.inj_on_of_nodup_map h.tokens hx hy eq

theorem same_sock (h : Wired issues pend c) (hx : x ∈ issues) (hy : y ∈ issues)
    (eq : x.sock = y.sock) : x = y := List.inj_on_of_nodup_map h.socks hx hy eq

theorem reg_issue (h : Wired issues pend c) (hreg : (c.os.source k).reg = some (tk, i)) :
    ∃ a, c.act tk = some a ∧ a.sock = k ∧ ⟨tk, k, a.kind⟩ ∈ issues := by
  obtain ⟨-, -, a, hact, rfl⟩ := h.registered k tk i hreg
  exact ⟨a, hact, rfl, h.actions tk a hact⟩

theorem reg_token (h : Wired issues pend c) (hx : x ∈ issues)
    (hreg : (c.os.source x.sock).reg = some (tk, i)) : tk = x.token := by
  obtain ⟨a, -, -, hy⟩ := h.reg_issue hreg
  rw [h.same_sock hx hy rfl]

theorem reg_sock (h : Wired issues pend c) (hx : x ∈ issues)
    (hreg : (c.os.source k).reg = some (x.token, i)) : k = x.sock := by
  obtain ⟨a, -, -, hy⟩ := h.reg_issue hreg
  rw [h.same_token hx hy rfl]

theorem act_sock (h : Wired issues pend c) {a' : IoAction} {tk' : Token} (ha : c.act tk = some a)
    (ha' : c.act tk' = some a') (eq : a.sock = a'.sock) : tk = tk' ∧ a.kind = a'.kind := by
  have heq := h.same_sock (h.actions tk a ha) (h.actions tk' a' ha') eq
  exact ⟨congrArg Issue.token heq, congrArg Issue.kind heq⟩

theorem io (h : Wired issues pend c) {os : World Token UInt8} (same : c.os.SameReg os) (workers : Workers)
    {outputs : Outputs} (tokens : ∀ k, (outputs k).token = (c.outputs k).token) :
    Wired issues pend { c with os := os, workers := workers, outputs := outputs } := by
  obtain ⟨next, same⟩ := same
  exact { h with
    below := fun x hx => by
      rw [next]
      exact h.below x hx
    registered := fun k tk i hreg => h.registered k tk i (same k ▸ hreg)
    listener := fun tk k hact => by
      rw [same k]
      exact h.listener tk k hact
    outputs := fun x hx hk => (tokens x.sock).trans (h.outputs x hx hk) }

theorem requests (h : Wired issues pend c) {streams : WorkerStreams} (workers : Workers)
    (newRequests : List Request) (same : streams.streams = c.workerStreams.streams) :
    Wired issues pend
      { c with workerStreams := streams, workers := workers, newRequests := newRequests } :=
  { h with workers := fun p hp => h.workers p (same ▸ hp) }

theorem attach (h : Wired issues pend c) (hx : x ∈ issues) (hreg : (c.os.source x.sock).reg.isSome = true)
    (hi : i.readable = true) :
    Wired issues pend { c with os := c.os.modify x.sock (·.attach x.token i) } := by
  obtain ⟨⟨tk, i'⟩, hreg⟩ := Option.isSome_iff_exists.mp hreg
  obtain rfl := h.reg_token hx hreg
  refine { h with registered := fun j tk i hj => ?_, listener := fun tk j hj => ?_ }
  · rw [World.attach_reg] at hj
    split at hj
    · rename_i heq
      subst heq
      cases hj
      exact ⟨hi, (h.registered _ _ _ hreg).2⟩
    · exact h.registered j tk i hj
  · refine ⟨(h.listener tk j hj).1, ?_⟩
    rw [World.attach_reg]
    split
    · rfl
    · exact (h.listener tk j hj).2

theorem deregister (h : Wired issues pend c) (hx : x ∈ issues) (quits : x.kind ≠ .mainListener) :
    Wired issues pend { c with os := c.os.deregister x.sock } := by
  refine { h with registered := fun j tk i hj => ?_, listener := fun tk j hj => ?_ }
  · rw [World.deregister_reg] at hj
    split at hj
    · cases hj
    · exact h.registered j tk i hj
  · refine ⟨(h.listener tk j hj).1, ?_⟩
    rw [World.deregister_reg, if_neg]
    · exact (h.listener tk j hj).2
    · rintro rfl
      exact quits (congrArg Issue.kind (h.same_sock hx (h.actions tk _ hj) rfl))

theorem drop (h : Wired issues pend c) (hx : x ∈ issues) (quits : x.kind ≠ .mainListener) :
    Wired issues pend (c.drop x.token x.sock) := by
  have hd := h.deregister hx quits
  refine { hd with registered := fun j tk i hj => ?_, removed := fun tk htk => ?_ }
  · obtain ⟨hi, hrem, hact⟩ := hd.registered j tk i hj
    refine ⟨hi, ?_, hact⟩
    rw [Loop.drop, List.mem_append, not_or]
    refine ⟨hrem, fun htk => ?_⟩
    obtain rfl := List.mem_singleton.mp htk
    have hreg := hj
    rw [Loop.drop, World.deregister_reg] at hreg
    split at hreg
    · cases hreg
    · rename_i hne
      exact hne (h.reg_sock hx hreg)
  · rw [Loop.drop, List.mem_append, List.mem_singleton] at htk
    rcases htk with htk | rfl
    · exact h.removed tk htk
    · exact (h.below x hx).1

theorem skip (h : Wired issues pend c) : Wired issues pend { c with ioToken := c.ioToken + 1 } :=
  { h with
    below := fun x hx => ⟨Nat.lt_succ_of_lt (h.below x hx).1, (h.below x hx).2⟩
    removed := fun tk htk => Nat.lt_succ_of_lt (h.removed tk htk) }

theorem accepted (h : Wired issues pend c) {os : World Token UInt8} {new : AcceptIo UInt8}
    (ok : c.os.Accepted k new os) :
    Wired issues pend { c with os := os } := by
  refine { h with
    below := fun x hx => ?_
    registered := fun j tk i hj => ?_
    listener := fun tk j hj => ?_ }
  · refine ⟨(h.below x hx).1, Nat.lt_trans (h.below x hx).2 ?_⟩
    rw [ok.next]
    exact Nat.lt_succ_self _
  · by_cases hnext : j = c.os.next
    · subst hnext
      rw [ok.fresh] at hj
      cases hj
    · rw [(ok.quiet hnext).reg] at hj
      exact h.registered j tk i hj
  · refine ⟨(h.listener tk j hj).1, ?_⟩
    have hlt : j < c.os.next := (h.below _ (h.actions tk _ hj)).2
    rw [(ok.quiet (Nat.ne_of_lt hlt)).reg]
    exact (h.listener tk j hj).2

theorem act_of (h : Wired issues pend c) (ha : c.ioActions tk = some a) : c.act tk = some a := by
  refine (IoActions.insertAll_other fun p hp eq => ?_).trans ha
  have hnone := h.inserted p hp
  rw [eq, ha] at hnone
  cases hnone

theorem issue (h : Wired issues pend c) (ha : c.ioActions tk = some a) :
    ⟨tk, a.sock, a.kind⟩ ∈ issues := h.actions tk a (h.act_of ha)

theorem replace (h : Wired issues pend c) (ha : c.ioActions tk = some a) {a' : IoAction}
    (sock : a'.sock = a.sock) (kind : a'.kind = a.kind) (quits : a.kind ≠ .mainListener) :
    Wired issues pend { c with ioActions := c.ioActions.insert tk a' } := by
  have later : ∀ p ∈ c.toInsert, p.1 ≠ tk := by
    intro p hp eq
    have hp := h.inserted p hp
    rw [eq, ha] at hp
    cases hp
  have hact := h.act_of ha
  have hact' : act { c with ioActions := c.ioActions.insert tk a' } = c.act.insert tk a' :=
    IoActions.insertAll_insert later
  refine { h with
    actions := fun t b hb => ?_
    registered := fun j t i hj => ?_
    listener := fun t j hj => ?_
    inserted := fun p hp => ?_
    held := fun t ht => ?_ }
  · rw [hact', IoActions.insert] at hb
    split at hb
    · rename_i ht
      subst ht
      cases hb
      rw [sock, kind]
      exact h.actions t a hact
    · exact h.actions t b hb
  · obtain ⟨hi, hrem, b, hb, rfl⟩ := h.registered j t i hj
    refine ⟨hi, hrem, ?_⟩
    rw [hact', IoActions.insert]
    split
    · rename_i ht
      subst ht
      rw [hact] at hb
      cases hb
      exact ⟨a', rfl, sock⟩
    · exact ⟨b, hb, rfl⟩
  · rw [hact', IoActions.insert] at hj
    split at hj
    · cases hj
      exact absurd kind.symm quits
    · exact h.listener t j hj
  · exact (IoActions.insert_other _ _ (later p hp)).trans (h.inserted p hp)
  · simp only [IoActions.insert]
    split
    · rfl
    · exact h.held t ht

theorem session (h : Wired issues pend c) (hx : ⟨tk, k, .outputStream⟩ ∈ issues) (sessionId : String) :
    Wired issues pend { c with outputStreams := c.outputStreams.insert sessionId k } := by
  refine { h with sessions := fun sid j hj => ?_ }
  by_cases hs : sid = sessionId
  · subst hs
    rw [AList.lookup_insert] at hj
    cases hj
    exact ⟨tk, hx⟩
  · rw [AList.lookup_insert_ne hs] at hj
    exact h.sessions sid j hj

theorem settle_act {t : Token} (ha : c.settle.act t = some a) : c.act t = some a := by
  refine @IoActions.insertAll_mono (c.ioActions.removeAll c.toRemove) _ _ _ c.toInsert (fun h => ?_) ha
  rw [IoActions.removeAll_eq] at h
  split at h
  · cases h
  · exact h

theorem act_settle {t : Token} (ht : t ∉ c.toRemove) (ha : c.act t = some a) :
    c.settle.act t = some a := by
  refine @IoActions.insertAll_mono _ (c.ioActions.removeAll c.toRemove) _ _ c.toInsert (fun h => ?_) ha
  rw [IoActions.removeAll_eq, if_neg ht]
  exact h

theorem settle (h : Wired issues [] c) : Wired issues [] c.settle := by
  refine { h with
    actions := fun t a ha => h.actions t a (settle_act ha)
    registered := fun j t i hj => ?_
    listener := fun t j hj => h.listener t j (settle_act hj)
    removed := fun t ht => by cases ht
    inserted := fun p hp => by cases hp
    held := fun t ht => by cases ht }
  obtain ⟨hi, hrem, a, ha, hs⟩ := h.registered j t i hj
  exact ⟨hi, by simp [Loop.settle], a, act_settle hrem ha, hs⟩

theorem weaken (h : Wired issues pend c) {pend' : List Token} (sub : ∀ t ∈ pend', t ∈ pend) :
    Wired issues pend' c := { h with held := fun t ht => h.held t (sub t ht) }

theorem fresh (h : Wired issues pend c) (hx : x ∈ issues) : x.token ≠ c.ioToken ∧ x.sock ≠ c.os.next :=
  ⟨Nat.ne_of_lt (h.below x hx).1, Nat.ne_of_lt (h.below x hx).2⟩

theorem act_fresh (h : Wired issues pend c) : c.act c.ioToken = none := by
  cases ha : c.act c.ioToken with
  | none => rfl
  | some a => exact absurd rfl (h.fresh (h.actions _ a ha)).1

theorem ioActions_fresh (h : Wired issues pend c) : c.ioActions c.ioToken = none := by
  have hact := h.act_fresh
  cases ha : c.ioActions c.ioToken with
  | none => rfl
  | some a =>
    have hs := @IoActions.insertAll_isSome c.ioActions c.ioToken c.toInsert (.inl (by simp [ha]))
    rw [show c.ioActions.insertAll c.toInsert c.ioToken = none from hact] at hs
    cases hs

theorem toInsert_fresh (h : Wired issues pend c) {p : Token × IoAction} (hp : p ∈ c.toInsert) :
    p.1 ≠ c.ioToken := by
  intro eq
  have hs := @IoActions.insertAll_isSome c.ioActions c.ioToken c.toInsert (.inr ⟨p, hp, eq⟩)
  rw [show c.ioActions.insertAll c.toInsert c.ioToken = none from h.act_fresh] at hs
  cases hs

theorem nodup_concat {f : Issue → Nat} (h : (issues.map f).Nodup) (new : ∀ y ∈ issues, f y ≠ f x) :
    ((issues ++ [x]).map f).Nodup := by
  rw [List.map_append]
  refine List.Nodup.append h (List.nodup_singleton _) fun n hn hx => ?_
  obtain ⟨y, hy, rfl⟩ := List.mem_map.mp hn
  exact new y hy (List.mem_singleton.mp hx)

theorem adopt (h : Wired issues pend c) {c' : Loop} (ad : Adopts c c' tk a)
    (free : ∀ x ∈ issues, x.token ≠ tk ∧ x.sock ≠ a.sock) (sock : a.sock < c.os.next)
    (kept : tk ∉ c.toRemove) : Wired (issues ++ [⟨tk, a.sock, a.kind⟩]) pend c' where
  tokens := nodup_concat h.tokens fun x hx => (free x hx).1
  socks := nodup_concat h.socks fun x hx => (free x hx).2
  below := by
    intro x hx
    rw [ad.os]
    rcases List.mem_append.mp hx with hx | hx
    · exact ⟨Nat.lt_of_lt_of_le (h.below x hx).1 ad.token.2, (h.below x hx).2⟩
    · obtain rfl := List.mem_singleton.mp hx
      exact ⟨ad.token.1, sock⟩
  actions := by
    intro t b hb
    rw [ad.act, IoActions.insert] at hb
    split at hb
    · rename_i ht
      cases hb
      rw [ht]
      simp
    · exact List.mem_append_left _ (h.actions t b hb)
  registered := by
    intro j t i hj
    rw [ad.os, World.attach_reg] at hj
    rw [ad.toRemove, ad.act]
    split at hj
    · rename_i hs
      cases hj
      exact ⟨rfl, kept, a, IoActions.insert_same _ _ _, hs.symm⟩
    · obtain ⟨hi, hrem, b, hb, rfl⟩ := h.registered j t i hj
      have ht : t ≠ tk := (free _ (h.actions t b hb)).1
      exact ⟨hi, hrem, b, (IoActions.insert_other _ _ ht).trans hb, rfl⟩
  listener := by
    intro t j hj
    rw [ad.act, IoActions.insert] at hj
    rw [ad.os, World.attach_reg]
    split at hj
    · rename_i ht
      cases hj
      exact ⟨ht.trans (ad.listener rfl), by simp [IoAction.sock]⟩
    · refine ⟨(h.listener t j hj).1, ?_⟩
      split
      · rfl
      · exact (h.listener t j hj).2
  workers := by
    intro p hp
    rcases ad.streams p hp with hp | ⟨rfl, hk⟩
    · exact List.mem_append_left _ (h.workers p hp)
    · rw [← hk]
      simp
  sessions := by
    intro sid j hj
    rw [ad.sessions] at hj
    obtain ⟨t, ht⟩ := h.sessions sid j hj
    exact ⟨t, List.mem_append_left _ ht⟩
  outputs := by
    intro x hx hk
    rcases List.mem_append.mp hx with hx | hx
    · rw [ad.outputs x.sock (free x hx).2]
      exact h.outputs x hx hk
    · obtain rfl := List.mem_singleton.mp hx
      exact ad.output hk
  removed := by
    intro t ht
    rw [ad.toRemove] at ht
    exact Nat.lt_of_lt_of_le (h.removed t ht) ad.token.2
  inserted := ad.inserted
  held := fun t ht => ad.ioActions t (h.held t ht)

end Wired
end Loop
end PyProxy.Master
