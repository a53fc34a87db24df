import PyProxy.Master.WorkerStream

namespace PyProxy.Master
open Stream Protocol

namespace WorkerStream

variable {fdQueue : FdQueue} {s : WorkerStream}

theorem dispatch_full (req : Request) (h : fdQueue.capacity ≤ s.outFds.length) :
    s.dispatch fdQueue req = s := by
  rw [dispatch, sendFd, fdQueue.bounded, if_neg (Nat.not_lt.mpr h)]
  rfl

theorem dispatch_room (req : Request) (h : s.outFds.length < fdQueue.capacity) :
    s.dispatch fdQueue req =
      { s with outFds := s.outFds ++ [req.2], outbuffer := s.outbuffer ++ req.1.toList } := by
  rw [dispatch, sendFd, fdQueue.bounded, if_pos h]
  rfl

def accepted (fdQueue : FdQueue) (s : WorkerStream) (reqs : List Request) : List Request :=
  reqs.take (fdQueue.capacity - s.outFds.length)

theorem dispatch_all (s : WorkerStream) (reqs : List Request) :
    reqs.foldl (dispatch fdQueue) s =
      { s with
        outFds := s.outFds ++ (s.accepted fdQueue reqs).map Prod.snd
        outbuffer := s.outbuffer ++ (s.accepted fdQueue reqs).flatMap (·.1.toList) } := by
  induction reqs generalizing s with
  | nil => simp [accepted]
  | cons req reqs ih =>
    by_cases h : s.outFds.length < fdQueue.capacity
    · have hroom : fdQueue.capacity - s.outFds.length = (fdQueue.capacity - (s.outFds.length + 1)) + 1 := by omega
      rw [List.foldl_cons, dispatch_room req h, ih]
      simp [accepted, hroom]
    · have hfull : fdQueue.capacity - s.outFds.length = 0 := by omega
      rw [List.foldl_cons, dispatch_full req (by omega), ih]
      simp [accepted, hfull]

theorem dispatch_all_interest (s : WorkerStream) (reqs : List Request) :
    (reqs.foldl (dispatch fdQueue) s).interest = s.interest := by
  rw [dispatch_all]

end WorkerStream

namespace WorkerStreams

def given (reqs : List Request) (place : List (Option Sock)) (x : Option Sock) : List Request :=
  ((reqs.zip place).filter (·.2 = x)).map Prod.fst

structure Placed (s : WorkerStreams) (heap : Workers) (reqs : List Request) (d : Dispatched)
    (place : List (Option Sock)) : Prop where
  length : place.length = reqs.length
  connected : ∀ k, some k ∈ place → k ∈ s.streams.map Prod.snd
  fds : ∀ k, (d.heap k).outFds = (heap k).outFds ++ (given reqs place (some k)).map Prod.snd
  headers : ∀ k, (d.heap k).outbuffer =
    (heap k).outbuffer ++ (given reqs place (some k)).flatMap (·.1.toList)
  kept : d.newRequests = given reqs place none

variable {fdQueue : FdQueue} {s : WorkerStreams} {heap : Workers} {reqs : List Request}

theorem dispatch_none (h : s.chosen = none) : s.dispatch fdQueue heap reqs = ⟨s, heap, reqs⟩ := by
  rw [dispatch, h]

section
variable {k : Sock} (h : s.chosen = some k)
include h

theorem dispatch_some : s.dispatch fdQueue heap reqs =
    ⟨{ s with lastSend := (s.lastSend + 1) % s.streams.length },
      heap.set k (reqs.foldl (WorkerStream.dispatch fdQueue) (heap k)), []⟩ := by
  rw [dispatch, h]

theorem dispatch_chosen : (s.dispatch fdQueue heap reqs).heap k =
    reqs.foldl (WorkerStream.dispatch fdQueue) (heap k) := by
  rw [dispatch_some h]
  exact Workers.set_same _ _ _

theorem dispatch_other {j : Sock} (hj : j ≠ k) :
    (s.dispatch fdQueue heap reqs).heap j = heap j := by
  rw [dispatch_some h]
  exact Workers.set_other _ _ hj

theorem dispatch_newRequests : (s.dispatch fdQueue heap reqs).newRequests = [] := by
  rw [dispatch_some h]

end

theorem given_same (reqs : List Request) (x : Option Sock) :
    given reqs (List.replicate reqs.length x) x = reqs := by
  have hall : (reqs.zip (List.replicate reqs.length x)).filter (·.2 = x) =
      reqs.zip (List.replicate reqs.length x) := by
    rw [List.filter_eq_self]
    intro p hp
    exact decide_eq_true (List.eq_of_mem_replicate (List.of_mem_zip hp).2)
  rw [given, hall, List.map_fst_zip]
  simp

theorem given_other (reqs : List Request) {x y : Option Sock} (h : x ≠ y) :
    given reqs (List.replicate reqs.length x) y = [] := by
  rw [given, List.map_eq_nil_iff, List.filter_eq_nil_iff]
  intro p hp hy
  exact h ((List.eq_of_mem_replicate (List.of_mem_zip hp).2).symm.trans (of_decide_eq_true hy))

theorem given_all {place : List (Option Sock)} {x : Option Sock}
    (length : place.length = reqs.length) (h : ∀ y, y ≠ x → given reqs place y = []) :
    given reqs place x = reqs := by
  have hall : (reqs.zip place).filter (·.2 = x) = reqs.zip place := by
    rw [List.filter_eq_self]
    intro p hp
    by_contra hne
    have hy : p.2 ≠ x := by simpa using hne
    have hmem : p.1 ∈ given reqs place p.2 :=
      List.mem_map_of_mem (List.mem_filter.mpr ⟨hp, decide_eq_true rfl⟩)
    rw [h p.2 hy] at hmem
    cases hmem
  rw [given, hall, List.map_fst_zip (Nat.le_of_eq length.symm)]

theorem placed_chosen {k : Sock} {place : List (Option Sock)} (h : s.chosen = some k)
    (placed : Placed s heap reqs (s.dispatch fdQueue heap reqs) place) :
    given reqs place (some k) = reqs := by
  refine given_all placed.length fun y hy => ?_
  cases y with
  | none => rw [← placed.kept, dispatch_newRequests h]
  | some j =>
    have hne : j ≠ k := fun heq => hy (by rw [heq])
    have hfds := placed.fds j
    rw [dispatch_other h hne] at hfds
    exact List.map_eq_nil_iff.mp (List.self_eq_append_right.mp hfds)

theorem accepted_of_placed {k : Sock} {place : List (Option Sock)} (h : s.chosen = some k)
    (placed : Placed s heap reqs (s.dispatch fdQueue heap reqs) place) :
    reqs.length ≤ fdQueue.capacity - (heap k).outFds.length := by
  have hfds := placed.fds k
  rw [placed_chosen h placed, dispatch_chosen h, WorkerStream.dispatch_all] at hfds
  have hlen := congrArg List.length (List.append_cancel_left hfds)
  rw [List.length_map, List.length_map, WorkerStream.accepted, List.length_take] at hlen
  omega

theorem placed_kept (h : s.chosen = none) :
    Placed s heap reqs (s.dispatch fdQueue heap reqs) (List.replicate reqs.length none) := by
  rw [dispatch_none h]
  have hnone : ∀ k, given reqs (List.replicate reqs.length none) (some k) = [] :=
    fun k => given_other reqs (by simp)
  refine ⟨by simp, fun k hk => ?_, fun k => by simp [hnone], fun k => by simp [hnone],
    (given_same reqs none).symm⟩
  cases List.eq_of_mem_replicate hk

theorem placed_handed {k : Sock} (h : s.chosen = some k)
    (room : reqs.length ≤ fdQueue.capacity - (heap k).outFds.length) :
    Placed s heap reqs (s.dispatch fdQueue heap reqs) (List.replicate reqs.length (some k)) := by
  have hall : (heap k).accepted fdQueue reqs = reqs := List.take_of_length_le room
  have hgiven : ∀ j, j ≠ k → given reqs (List.replicate reqs.length (some k)) (some j) = [] :=
    fun j hj => given_other reqs (by simp [hj.symm])
  refine ⟨by simp, fun j hj => ?_, fun j => ?_, fun j => ?_, ?_⟩
  · obtain rfl := Option.some.inj (List.eq_of_mem_replicate hj)
    exact chosen_mem h
  · by_cases hj : j = k
    · rw [hj, given_same, dispatch_chosen h, WorkerStream.dispatch_all, hall]
    · rw [dispatch_other h hj, hgiven j hj, List.map_nil, List.append_nil]
  · by_cases hj : j = k
    · rw [hj, given_same, dispatch_chosen h, WorkerStream.dispatch_all, hall]
    · rw [dispatch_other h hj, hgiven j hj, List.flatMap_nil, List.append_nil]
  · rw [dispatch_newRequests h, given_other reqs (by simp)]

theorem dispatch_conserves_iff (fdQueue : FdQueue) (s : WorkerStreams) (heap : Workers)
    (reqs : List Request) :
    (∃ place, Placed s heap reqs (s.dispatch fdQueue heap reqs) place) ↔
      s.streams = [] ∨ ∀ k, s.chosen = some k → reqs.length ≤ fdQueue.capacity - (heap k).outFds.length := by
  constructor
  · rintro ⟨place, placed⟩
    exact .inr fun k hk => accepted_of_placed hk placed
  · rintro (hnil | hroom)
    · exact ⟨_, placed_kept (chosen_none.mpr hnil)⟩
    · cases hk : s.chosen with
      | none => exact ⟨_, placed_kept hk⟩
      | some k => exact ⟨_, placed_handed hk (hroom k hk)⟩

def oneWorker : WorkerStreams := ⟨[(5, 9)], 0⟩

def threeRequests : List Request := [(.replicate 8 0, 20), (.replicate 8 0, 21), (.replicate 8 0, 22)]

theorem queue_full_drops : ¬ ∃ place, Placed oneWorker (fun _ => .new ro) threeRequests
    (oneWorker.dispatch (.draining 2) (fun _ => .new ro) threeRequests) place := by
  rintro ⟨place, placed⟩
  have hroom := @accepted_of_placed (.draining 2) oneWorker (fun _ => .new ro) threeRequests 9 place rfl placed
  revert hroom
  decide

end WorkerStreams
end PyProxy.Master
