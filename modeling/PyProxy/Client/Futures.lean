import PyProxy.Client.RunForever
import PyProxy.Machine.Run
import PyProxy.Protocol.Fixint
import PyProxy.Rpc.Correlation

namespace PyProxy.Client
open Protocol Rpc

abbrev History := List (Entry String Sender PythonResult)

def respEntry : ResponseMessage → Option (Entry String Sender PythonResult)
  | .hello _ => none
  | .codeString p => some (.respond p.futureId p.pyResult)
  | .codePickle s => some (.respond s.futureId s.pyResult)

def Label.evalId : Label → Option String
  | .evalStr id _ _ _ => some id
  | _ => none

def evalIds (ls : List Label) : List String := ls.filterMap Label.evalId

def evals (ls : List Label) : List (String × Sender) := (evalIds ls).zipIdx

namespace Loop

def table (c : Loop) : Table String Sender PythonResult := ⟨c.pendingFutures, c.futures⟩

def received (c : Loop) : History := c.codeRecv.map fun msg => .submit msg.id msg.futureSend

def answered (c : Loop) : History := c.mainStream.respMsgs.filterMap respEntry

def entries (c : Loop) : Label → History
  | .head io =>
    if io.close = .empty then c.received ++ if io.codeDisconnected then [] else c.answered
    else []
  | _ => []

variable (bc : Bincode)

theorem takeCode_table (c : Loop) :
    (c.takeCode bc).table = c.received.foldl Table.apply c.table := by
  suffices h : ∀ (l : List EvalCode) (c : Loop), (l.foldl (takeEval bc) c).table =
      (l.map fun msg => Entry.submit msg.id msg.futureSend).foldl Table.apply c.table from
    h c.codeRecv { c with codeRecv := [] }
  intro l
  induction l with
  | nil => exact fun c => rfl
  | cons msg l ih => exact fun c => ih (c.takeEval bc msg)

theorem takeCode_answered (c : Loop) : (c.takeCode bc).answered = c.answered := by
  obtain ⟨o, p, hc⟩ := c.takeCode_frame bc
  rw [hc]
  rfl

theorem resolveMsg_table (c : Loop) {resp : ResponseMessage} (h : resp.isHello = false) :
    (c.resolveMsg resp).table = (respEntry resp).toList.foldl Table.apply c.table := by
  cases resp with
  | hello => cases h
  | codeString p =>
    cases hl : c.pendingFutures.lookup p.futureId <;>
      simp [resolveMsg, respEntry, ResponseMessage.futureId, table, Table.apply, hl, send]
  | codePickle s =>
    cases hl : c.pendingFutures.lookup s.futureId <;>
      simp [resolveMsg, respEntry, ResponseMessage.futureId, table, Table.apply, hl, send]

theorem resolve_table (c : Loop) (h : ∀ resp ∈ c.mainStream.respMsgs, resp.isHello = false) :
    c.resolve.table = c.answered.foldl Table.apply c.table := by
  suffices hl : ∀ (l : List ResponseMessage) (c : Loop), (∀ resp ∈ l, resp.isHello = false) →
      (l.foldl resolveMsg c).table = (l.filterMap respEntry).foldl Table.apply c.table from
    hl _ { c with mainStream := { c.mainStream with respMsgs := [] } } h
  intro l
  induction l with
  | nil => exact fun c _ => rfl
  | cons resp l ih =>
    intro c hc
    have hhead := c.resolveMsg_table (hc resp (by simp))
    rw [List.foldl_cons, ih _ (fun r hr => hc r (by simp [hr])), hhead, ← List.foldl_append]
    cases hr : respEntry resp <;> simp [hr]

end Loop

def machine (bc : Bincode) : Machine (Flow Error Loop × History) Label where
  init := (.running .new, [])
  step
    | (.running c, h), l => some (c.step bc l, h ++ c.entries l)
    | (.returned _ _, _), _ => none

structure Tracked (ls : List Label) (c : Loop) (h : History) : Prop where
  table : c.table = replay h
  evals : evals ls = submits h ++ submits c.received
  fresh : c.nextSender = (evalIds ls).length
  noHello : ∀ resp ∈ c.mainStream.respMsgs, resp.isHello = false

theorem submits_received (c : Loop) :
    submits c.received = c.codeRecv.map fun msg => (msg.id, msg.futureSend) := by
  rw [submits, Loop.received, List.filterMap_map, ← List.filterMap_eq_map]
  rfl

theorem submits_answered (c : Loop) : submits c.answered = [] := by
  simp only [submits, Loop.answered, List.filterMap_filterMap, List.filterMap_eq_nil_iff]
  intro resp _
  cases resp <;> rfl

theorem replay_append (h g : History) : replay (h ++ g) = g.foldl Table.apply (replay h) := by
  simp [replay, List.foldl_append]

theorem evalIds_concat (ls : List Label) (l : Label) :
    evalIds (ls ++ [l]) = evalIds ls ++ l.evalId.toList := by
  cases hl : l.evalId <;> simp [evalIds, hl]

theorem evals_concat_silent {ls : List Label} {l : Label} (hl : l.evalId = none) :
    evals (ls ++ [l]) = evals ls := by simp [evals, evalIds_concat, hl]

namespace Tracked

variable {ls : List Label} {c : Loop} {h : History}

theorem silent {l : Label} (hl : l.evalId = none) (t : Tracked ls c h) : Tracked (ls ++ [l]) c h where
  table := t.table
  evals := by rw [evals_concat_silent hl, t.evals]
  fresh := by simp [t.fresh, evalIds_concat, hl]
  noHello := t.noHello

theorem evalStr (t : Tracked ls c h) (id code : String) (locals globals : List UInt8) :
    Tracked (ls ++ [.evalStr id code locals globals]) (c.evalStr id code locals globals).1 h where
  table := t.table
  evals := by
    have he := t.evals
    rw [submits_received] at he ⊢
    simp only [Client.evals] at he ⊢
    rw [evalIds_concat, List.zipIdx_append, he]
    simp [Loop.evalStr, Label.evalId, t.fresh]
  fresh := by simp [Loop.evalStr, t.fresh, evalIds_concat, Label.evalId]
  noHello := t.noHello

theorem takeCode (bc : Bincode) (t : Tracked ls c h) :
    Tracked ls (c.takeCode bc) (h ++ c.received) := by
  obtain ⟨o, p, hc⟩ := c.takeCode_frame bc
  refine ⟨?_, ?_, ?_, ?_⟩
  · rw [c.takeCode_table, t.table, replay_append]
  · have hempty : (c.takeCode bc).received = [] := by
      rw [hc]
      rfl
    rw [hempty, t.evals, submits_append, submits_nil, List.append_nil]
  · rw [hc]
    exact t.fresh
  · rw [hc]
    exact t.noHello

theorem resolve (t : Tracked ls c h) : Tracked ls c.resolve (h ++ c.answered) := by
  obtain ⟨p, f, hc⟩ := c.resolve_frame
  refine ⟨?_, ?_, ?_, ?_⟩
  · rw [c.resolve_table t.noHello, t.table, replay_append]
  · rw [submits_append, submits_answered, List.append_nil, t.evals, hc]
    rfl
  · rw [hc]
    exact t.fresh
  · rw [hc]
    simp

theorem head (bc : Bincode) (t : Tracked ls c h) (io : HeadIo) :
    Tracked ls (c.head bc io).state (h ++ c.entries (.head io)) := by
  rcases c.head_cases bc io with ⟨hclose, hs⟩ | ⟨hclose, hcode, hs⟩ | ⟨hclose, hcode, i, hs⟩
  · simpa [Loop.entries, hclose, hs] using t
  · simpa [Loop.entries, hclose, hcode, hs, Flow.state] using t.takeCode bc
  · have hr := (t.takeCode bc).resolve
    rw [Loop.takeCode_answered, List.append_assoc] at hr
    rw [hs]
    simp only [Loop.entries, hclose, hcode]
    exact ⟨hr.table, hr.evals, hr.fresh, hr.noHello⟩

theorem event (bc : Bincode) (t : Tracked ls c h) (ev : Event) (io : EventIo) :
    Tracked ls (c.event bc ev io).state h := by
  obtain ⟨s, o, l, hs, hm⟩ := c.event_frame bc ev io
  rw [hs]
  refine ⟨t.table, t.evals, t.fresh, ?_⟩
  intro resp hr
  rcases hm resp hr with hr | hr
  · exact t.noHello resp hr
  · exact hr

theorem step (bc : Bincode) (t : Tracked ls c h) (l : Label) :
    Tracked (ls ++ [l]) (c.step bc l).state (h ++ c.entries l) := by
  cases l with
  | evalStr id code locals globals =>
    rw [show h ++ c.entries (.evalStr id code locals globals) = h from List.append_nil h]
    exact t.evalStr id code locals globals
  | head io => exact (t.head bc io).silent rfl
  | event ev io =>
    rw [show h ++ c.entries (.event ev io) = h from List.append_nil h]
    exact (t.event bc ev io).silent rfl

end Tracked

theorem tracked_exec {bc : Bincode} {ls : List Label} {f : Flow Error Loop} {h : History}
    (run : (machine bc).exec ls = some (f, h)) : Tracked ls f.state h := by
  induction ls using List.reverseRecOn generalizing f h with
  | nil =>
    obtain ⟨rfl, rfl⟩ := Prod.mk.inj (Option.some.inj run)
    exact ⟨rfl, rfl, rfl, by simp [Loop.new, Flow.state, MainStream.new]⟩
  | append_singleton ls l ih =>
    obtain ⟨⟨f₀, h₀⟩, hrun, hstep⟩ := (machine bc).exec_concat_some run
    cases f₀ with
    | returned => cases hstep
    | running c =>
      obtain ⟨rfl, rfl⟩ := Prod.mk.inj (Option.some.inj hstep)
      exact (ih hrun).step bc l

theorem Tracked.keys {ls : List Label} {c : Loop} {h : History} (t : Tracked ls c h)
    (ids : (evalIds ls).Nodup) : ((submits h).map Prod.fst).Nodup := by
  have he : (Client.evals ls).map Prod.fst = evalIds ls := by simp [Client.evals]
  rw [t.evals, List.map_append] at he
  rw [← he] at ids
  exact (List.nodup_append.mp ids).1

theorem evals_handles (ls : List Label) : ((evals ls).map Prod.snd).Nodup := by
  simp [evals, List.nodup_range']

theorem Tracked.handles {ls : List Label} {c : Loop} {h : History} (t : Tracked ls c h) :
    ((submits h).map Prod.snd).Nodup := by
  have he := evals_handles ls
  rw [t.evals, List.map_append] at he
  exact (List.nodup_append.mp he).1

theorem Tracked.owns {ls : List Label} {c : Loop} {h : History} (t : Tracked ls c h)
    (ids : (evalIds ls).Nodup) {id : String} {f : Sender} (hf : (id, f) ∈ Client.evals ls) :
    Owns h id f := by
  have hkeys : ((Client.evals ls).map Prod.fst).Nodup := by simpa [Client.evals] using ids
  intro p hp
  have hp' : p ∈ Client.evals ls := by
    rw [t.evals]
    exact List.mem_append_left _ hp
  constructor
  · intro hk
    exact congrArg Prod.snd (List.inj_on_of_nodup_map hkeys hp' hf hk)
  · intro hk
    exact congrArg Prod.fst (List.inj_on_of_nodup_map (evals_handles ls) hp' hf hk)

theorem Loop.resolveMsg_unknown {c : Loop} {resp : ResponseMessage}
    (h : c.pendingFutures.lookup resp.futureId = none) : c.resolveMsg resp = c := by
  simp [resolveMsg, h]

theorem Loop.head_running {bc : Bincode} {c c' : Loop} {io : HeadIo}
    (h : c.head bc io = .running c') : c'.codeRecv = [] := by
  rcases c.head_cases bc io with ⟨hclose, -⟩ | ⟨-, -, hs⟩ | ⟨-, -, i, hs⟩
  · cases hio : io.close <;> simp [head, hio] at h hclose
  · rw [h] at hs
    cases hs
  · rw [h] at hs
    obtain ⟨p, f, hr⟩ := (c.takeCode bc).resolve_frame
    obtain ⟨o, q, hc⟩ := c.takeCode_frame bc
    change c' = _ at hs
    rw [hs, hr, hc]
    rfl

def Loop.results (c : Loop) (f : Sender) : List PythonResult :=
  (c.futures.filter fun p => p.1 = f).map Prod.snd

theorem Tracked.results {ls : List Label} {c : Loop} {h : History} (t : Tracked ls c h)
    (f : Sender) : c.results f = Rpc.results (replay h) f := by
  rw [← t.table]
  rfl

theorem Tracked.pending {ls : List Label} {c : Loop} {h : History} (t : Tracked ls c h)
    (ids : (evalIds ls).Nodup) (id : String) (f : Sender) :
    c.pendingFutures.lookup id = some f ↔ Waiting h id f := by
  rw [← lookup_pending (t.keys ids), ← t.table]
  rfl

theorem futures_resolved {bc : Bincode} {ls : List Label} {f : Flow Error Loop} {h : History}
    (run : (machine bc).exec ls = some (f, h)) (ids : (evalIds ls).Nodup) :
    evals ls = submits h ++ submits f.state.received ∧
      (∀ c io c', f = .running c → c.head bc io = .running c' → c'.received = []) ∧
      (∀ pre id s post, h = pre ++ .submit id s :: post →
        f.state.results s = (answer id post).toList) ∧
      (∀ s, s ∉ (submits h).map Prod.snd → f.state.results s = []) ∧
      (∀ resp, (∀ s, ¬ Waiting h resp.futureId s) → f.state.resolveMsg resp = f.state) ∧
      (∀ id s, f.state.pendingFutures.lookup id = some s ↔ Waiting h id s) ∧
      ∀ ls' f' h', (machine bc).exec ls' = some (f', h') → (evalIds ls').Nodup → InTime h → InTime h' →
        (responses h).Perm (responses h') →
        ∀ id s s', (id, s) ∈ evals ls → (id, s') ∈ evals ls' →
          f.state.results s = f'.state.results s' := by
  have t := tracked_exec run
  refine ⟨t.evals, ?_, ?_, ?_, ?_, t.pending ids, ?_⟩
  · intro c io c' _ hc
    rw [Loop.received, Loop.head_running hc, List.map_nil]
  · intro pre id s post hh
    rw [t.results, results_answer (t.keys ids) t.handles hh]
  · intro s hs
    rw [t.results, results_unsubmitted (t.keys ids) hs]
  · intro resp hw
    apply Loop.resolveMsg_unknown
    rw [Option.eq_none_iff_forall_ne_some]
    intro s hs
    exact hw s ((t.pending ids _ _).mp hs)
  · intro ls' f' h' run' ids' time time' perm id s s' hs hs'
    have t' := tracked_exec run'
    rw [t.results, t'.results]
    exact results_perm (t.keys ids) t.handles (t'.keys ids') t'.handles time time' perm
      (t.owns ids hs) (t'.owns ids' hs')

def quietHead : HeadIo := ⟨.empty, false, .ok (), .ok ()⟩

def returns (id : String) (ret : List UInt8) : List UInt8 :=
  let payload := fixint.responseCodePickle.serialize ⟨id, .return ret⟩
  (ResponseMessageHeader.new .codeString 0 payload.length 0).intoBuf.toList ++ payload

def returnSeven : List UInt8 := returns "a" [7]

def evalA : Label := .evalStr "a" "x" [] []

def evalB : Label := .evalStr "b" "y" [] []

def readMain (bytes : List UInt8) : Label :=
  .event ⟨mainStreamTk, true, false⟩ ⟨.error .wouldBlock, .ok bytes, true⟩

def readSeven : Label := readMain returnSeven

def twoEvals (responses : List Label) : List Label :=
  [evalA, .head quietHead, evalB, .head quietHead] ++ responses

-- `z` was never asked for, and `a` is answered twice
def strayed : List Label :=
  twoEvals [readMain (returns "b" [8] ++ returns "z" [0]), .head quietHead, readSeven, .head quietHead,
    readMain (returns "a" [9]), .head quietHead]

def swapped : List Label := twoEvals [readMain (returns "b" [8] ++ returnSeven), .head quietHead]

def ordered : List Label :=
  twoEvals [readSeven, .head quietHead, readMain (returns "b" [8]), .head quietHead]

def submitted : History := [.submit "a" 0, .submit "b" 1]

theorem submitted_inTime {id id' : String} {r r' : PythonResult} {s s' : Sender} (waits : Waiting submitted id s)
    (waits' : Waiting (submitted ++ [.respond id r]) id' s') :
    InTime (submitted ++ [.respond id r] ++ [.respond id' r']) := by
  have none : InTime ([] : History) := fun pre k r post eq => absurd eq (by simp)
  have one : InTime ([] ++ [.submit "a" 0] : History) := inTime_concat none nofun
  have two : InTime submitted := inTime_concat one nofun
  refine inTime_concat (inTime_concat two fun k q eq => ?_) fun k q eq => ?_
  · cases eq
    exact ⟨s, waits⟩
  · cases eq
    exact ⟨s', waits'⟩

theorem futures_resolved_evalA : ∃ c c' c'',
    (machine fixint).exec strayed = some (.running c, submitted ++ [.respond "b" (.return [8]),
      .respond "z" (.return [0]), .respond "a" (.return [7]), .respond "a" (.return [9])]) ∧
    c.results 0 = [.return [7]] ∧ c.results 1 = [.return [8]] ∧
    (machine fixint).exec swapped =
      some (.running c', submitted ++ [.respond "b" (.return [8])] ++ [.respond "a" (.return [7])]) ∧
    (machine fixint).exec ordered =
      some (.running c'', submitted ++ [.respond "a" (.return [7])] ++ [.respond "b" (.return [8])]) ∧
    c'.results 0 = c''.results 0 ∧ c'.results 1 = c''.results 1 := by
  have run : (machine fixint).exec strayed = some (.running _, submitted ++ [.respond "b" (.return [8]),
      .respond "z" (.return [0]), .respond "a" (.return [7]), .respond "a" (.return [9])]) := rfl
  have run' : (machine fixint).exec swapped =
      some (.running _, submitted ++ [.respond "b" (.return [8])] ++ [.respond "a" (.return [7])]) := rfl
  have run'' : (machine fixint).exec ordered =
      some (.running _, submitted ++ [.respond "a" (.return [7])] ++ [.respond "b" (.return [8])]) := rfl
  obtain ⟨-, -, resolved, -⟩ := futures_resolved run (by decide)
  obtain ⟨-, -, -, -, -, -, permuted⟩ := futures_resolved run' (by decide)
  have time' := @submitted_inTime "b" "a" (.return [8]) (.return [7]) 1 0 ⟨[.submit "a" 0], [], rfl, rfl⟩
    ⟨[], [.submit "b" 1, .respond "b" (.return [8])], rfl, rfl⟩
  have time'' := @submitted_inTime "a" "b" (.return [7]) (.return [8]) 0 1 ⟨[], [.submit "b" 1], rfl, rfl⟩
    ⟨[.submit "a" 0], [.respond "a" (.return [7])], rfl, rfl⟩
  have same := permuted _ _ _ run'' (by decide) time' time'' (List.Perm.swap _ _ [])
  exact ⟨_, _, _, run, resolved [] "a" 0 _ rfl, resolved [.submit "a" 0] "b" 1 _ rfl, run', run'',
    same "a" 0 0 (by decide) (by decide), same "b" 1 1 (by decide) (by decide)⟩

end PyProxy.Client
