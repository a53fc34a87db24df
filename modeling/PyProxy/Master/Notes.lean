import PyProxy.Master.Events
import PyProxy.Master.System

namespace PyProxy.Master
open Protocol Poll

inductive Note where
  | received (k : Sock) (bytes : List UInt8)
  | pushed (req : Request)
  | failed (k : Sock)

namespace Note

def sock : Note → Sock
  | .received k _ => k
  | .pushed req => req.2
  | .failed k => k

def bytesTo (k : Sock) : Note → List UInt8
  | .received j bytes => if j = k then bytes else []
  | _ => []

def request? : Note → Option Request
  | .pushed req => some req
  | _ => none

def failed? : Note → Option Sock
  | .failed k => some k
  | _ => none

def bytesOf (k : Sock) (ns : List Note) : List UInt8 := ns.flatMap (bytesTo k)

def pushes (ns : List Note) : List Request := ns.filterMap request?

def handedOver (ns : List Note) : List Sock := (pushes ns).map Prod.snd

def failures (ns : List Note) : List Sock := ns.filterMap failed?

variable {ns new : List Note} {k : Sock}

@[simp] theorem bytesOf_append : bytesOf k (ns ++ new) = bytesOf k ns ++ bytesOf k new := by
  simp [bytesOf]

@[simp] theorem pushes_append : pushes (ns ++ new) = pushes ns ++ pushes new := by simp [pushes]

@[simp] theorem handedOver_append : handedOver (ns ++ new) = handedOver ns ++ handedOver new := by
  simp [handedOver]

@[simp] theorem failures_append : failures (ns ++ new) = failures ns ++ failures new := by
  simp [failures]

theorem mem_handedOver : k ∈ handedOver ns ↔ ∃ header, Note.pushed (header, k) ∈ ns := by
  simp only [handedOver, pushes, List.mem_map, List.mem_filterMap]
  constructor
  · rintro ⟨req, ⟨n, hn, hreq⟩, rfl⟩
    cases n with
    | pushed r =>
      cases hreq
      exact ⟨req.1, hn⟩
    | received => cases hreq
    | failed => cases hreq
  · rintro ⟨header, hn⟩
    exact ⟨(header, k), ⟨_, hn, rfl⟩, rfl⟩

theorem mem_failures : k ∈ failures ns ↔ Note.failed k ∈ ns := by
  simp only [failures, List.mem_filterMap]
  constructor
  · rintro ⟨n, hn, hk⟩
    cases n with
    | failed j =>
      cases hk
      exact hn
    | received => cases hk
    | pushed => cases hk
  · exact fun hn => ⟨_, hn, rfl⟩

theorem bytesOf_other (h : ∀ n ∈ ns, n.sock ≠ k) : bytesOf k ns = [] := by
  rw [bytesOf, List.flatMap_eq_nil_iff]
  intro n hn
  cases n with
  | received j bytes => exact if_neg (h _ hn)
  | pushed => rfl
  | failed => rfl

theorem handedOver_other (h : ∀ n ∈ ns, n.sock ≠ k) : k ∉ handedOver ns := by
  intro hk
  obtain ⟨header, hn⟩ := mem_handedOver.mp hk
  exact h _ hn rfl

theorem failures_other (h : ∀ n ∈ ns, n.sock ≠ k) : k ∉ failures ns :=
  fun hk => h _ (mem_failures.mp hk) rfl

end Note

open Note

namespace Loop

def opened (c : Loop) (k : Sock) (io : EventIo) : List Note :=
  match (c.os.accept k io.accept).1 with
  | .ok conn => [.received conn io.accept.early]
  | .error _ => []

def handled : ClientStream.ReadResult × ClientStream → List Note
  | (.continue, _) => []
  | (.done, s) => [.pushed (s.header, s.rawFd)]
  | (.closed, s) => [.failed s.stream]
  | (.error _, s) => [.failed s.stream]

def noted (c : Loop) (ev : Event) (io : EventIo) : List Note :=
  match c.ioActions ev.token with
  | some (.mainListener k) => c.opened k io
  | some (.outputListener k) => c.opened k io
  | some (.unixListener k) => c.opened k io
  | some (.clientStream s) => handled (s.read (c.os.read s.stream s.room io.read).1)
  | _ => []

section

variable {env : Env} {c c' : Loop} {ev : Event} {io : EventIo} {k : Sock} {tk : Token}

theorem opened_mem {n : Note} (h : n ∈ c.opened k io) : n = .received c.os.next io.accept.early ∧
    (c.os.source k).backlog ≠ 0 ∧ io.accept.refused = false := by
  simp only [opened] at h
  rcases c.os.accept_cases k io.accept with ⟨e, he, -⟩ | ⟨ready, accept, os, he, -⟩
  · rw [he] at h
    cases h
  · rw [he] at h
    exact ⟨List.mem_singleton.mp h, ready, accept⟩

theorem opened_ready (ready : (c.os.source k).backlog ≠ 0) (accept : io.accept.refused = false) :
    c.opened k io = [.received c.os.next io.accept.early] := by
  rcases c.os.accept_cases k io.accept with ⟨e, -, hno⟩ | ⟨-, -, os', he, -⟩
  · exact absurd hno (by simp [ready, accept])
  · simp only [opened, he]

theorem handled_sock {n : Note} {s : ClientStream} {res : IoResult (List UInt8)}
    (h : n ∈ handled (s.read res)) : n.sock = s.stream := by
  have hstream := s.read_stream res
  generalize s.read res = r at h hstream
  obtain ⟨_ | _ | _ | _, s'⟩ := r
  · cases h
  · rw [List.mem_singleton.mp h]
    exact hstream
  · rw [List.mem_singleton.mp h]
    exact hstream
  · rw [List.mem_singleton.mp h]
    exact hstream

theorem noted_ends {a : IoAction} (ha : c.ioActions ev.token = some a) :
    (handedOver (c.noted ev io) = [] ∧ failures (c.noted ev io) = []) ∨
      ∃ s, a = .clientStream s ∧
        ((handedOver (c.noted ev io) = [s.stream] ∧ failures (c.noted ev io) = []) ∨
          (handedOver (c.noted ev io) = [] ∧ failures (c.noted ev io) = [s.stream])) := by
  have opens : ∀ k, handedOver (c.opened k io) = [] ∧ failures (c.opened k io) = [] := by
    intro k
    simp only [opened]
    split <;> exact ⟨rfl, rfl⟩
  simp only [noted, ha]
  cases a with
  | mainListener k => exact .inl (opens k)
  | outputListener k => exact .inl (opens k)
  | unixListener k => exact .inl (opens k)
  | clientStream s =>
    have hstream := s.read_stream (c.os.read s.stream s.room io.read).1
    dsimp only
    generalize s.read (c.os.read s.stream s.room io.read).1 = r at hstream
    obtain ⟨_ | _ | _ | _, s'⟩ := r
    · exact .inl ⟨rfl, rfl⟩
    · exact .inr ⟨s, rfl, .inr ⟨rfl, congrArg (fun k => [k]) hstream⟩⟩
    · exact .inr ⟨s, rfl, .inr ⟨rfl, congrArg (fun k => [k]) hstream⟩⟩
    · exact .inr ⟨s, rfl, .inl ⟨congrArg (fun k => [k]) hstream, rfl⟩⟩
  | outputStream k => exact .inl ⟨rfl, rfl⟩
  | workerStream k => exact .inl ⟨rfl, rfl⟩
  | stderr f => exact .inl ⟨rfl, rfl⟩
  | stdout f => exact .inl ⟨rfl, rfl⟩

theorem event_next {a : IoAction} (ha : c.ioActions ev.token = some a)
    (hc : c.event env ev io = .running c') {n : Note} (hn : n ∈ c.noted ev io) :
    n.sock = a.sock ∨ n = .received c.os.next io.accept.early ∧ c.os.next < c'.os.next := by
  simp only [event, ha] at hc
  simp only [noted, ha] at hn
  cases a with
  | mainListener k =>
    obtain ⟨rfl, ready, accept⟩ := opened_mem hn
    refine .inr ⟨rfl, ?_⟩
    cases acceptMain_cases hc with
    | idle none => exact absurd none (by simp [ready, accept])
    | dropped os _ _ ok _ _ =>
      rw [World.modify_next, ok.next]
      exact Nat.lt_succ_self _
    | adopted os _ _ ok _ _ =>
      rw [World.modify_next, World.modify_next, ok.next]
      exact Nat.lt_succ_self _
  | outputListener k =>
    cases hc
    obtain ⟨rfl, ready, accept⟩ := opened_mem hn
    refine .inr ⟨rfl, ?_⟩
    have hcase := c.acceptOutput_cases k io
    generalize c.acceptOutput k io = d at hcase ⊢
    cases hcase with
    | idle none => exact absurd none (by simp [ready, accept])
    | dropped os _ _ ok _ =>
      rw [ok.next]
      exact Nat.lt_succ_self _
    | adopted os _ _ ok _ =>
      rw [World.modify_next, ok.next]
      exact Nat.lt_succ_self _
  | unixListener k =>
    obtain ⟨rfl, ready, accept⟩ := opened_mem hn
    refine .inr ⟨rfl, ?_⟩
    cases acceptUnix_cases hc with
    | idle none => exact absurd none (by simp [ready, accept])
    | adopted os _ _ ok _ =>
      rw [World.modify_next, ok.next]
      exact Nat.lt_succ_self _
  | clientStream s => exact .inl (handled_sock hn)
  | outputStream k => cases hn
  | workerStream k => cases hn
  | stderr f => cases hn
  | stdout f => cases hn

end

end Loop

namespace System

def noted (s : System) (l : Label) : List Note :=
  match s.flow, l, s.phase with
  | .running c, .arrive tk bytes, _ => (c.sockOf tk).toList.map (.received · bytes)
  | .running c, .event io, .turn (ev :: _) => c.noted ev io
  | _, _, _ => []

end System
end PyProxy.Master
