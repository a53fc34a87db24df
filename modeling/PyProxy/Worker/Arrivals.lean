import PyProxy.Worker.WorkerStream

namespace PyProxy.Worker.WorkerStream
open Stream Protocol

-- the whole headers that a buffer starts with
def headers (buffer : List UInt8) : List (Vector UInt8 requestHeaderSize) :=
  (List.range (buffer.length / requestHeaderSize)).map fun i =>
    copyHeader requestHeaderSize (buffer.drop (requestHeaderSize * i))

def arrivals (buffer : List UInt8) (fds : List Sock) : Nat :=
  min (buffer.length / requestHeaderSize) fds.length

structure TakesAll (newMsgs : List (Vector UInt8 requestHeaderSize × Sock)) (buffer : List UInt8)
    (fds : List Sock) (s : WorkerStream) : Prop where
  pairs : s.newMsgs = newMsgs ++ (headers buffer).zip fds
  rest : s.inbuffer = buffer.drop (requestHeaderSize * arrivals buffer fds)
  left : s.inFds = fds.drop (arrivals buffer fds)
  drained : ¬ (requestHeaderSize ≤ s.inbuffer.length ∧ s.inFds ≠ [])

theorem pairs_length (buffer : List UInt8) (fds : List Sock) :
    ((headers buffer).zip fds).length = arrivals buffer fds := by
  simp [headers, arrivals]

theorem headers_cons {buffer : List UInt8} (h : requestHeaderSize ≤ buffer.length) :
    ∃ later, headers buffer = copyHeader requestHeaderSize buffer :: later := by
  obtain ⟨n, hn⟩ : ∃ n, buffer.length / requestHeaderSize = n + 1 := by
    have pos : 0 < buffer.length / requestHeaderSize := Nat.div_pos h (by decide)
    exact ⟨_, (Nat.succ_pred_eq_of_pos pos).symm⟩
  rw [headers, hn, List.range_succ_eq_map, List.map_cons, Nat.mul_zero, List.drop_zero]
  exact ⟨_, rfl⟩

theorem takeHeader_none {s : WorkerStream} (h : arrivals s.inbuffer s.inFds = 0) : s.takeHeader = s := by
  simp only [takeHeader]
  split
  · rename_i hlen
    have pos : 0 < s.inbuffer.length / requestHeaderSize := Nat.div_pos hlen (by decide)
    cases hfds : s.inFds with
    | nil => rfl
    | cons fd fds =>
      simp only [arrivals, hfds, List.length_cons] at h
      omega
  · rfl

theorem takeHeader_some {s : WorkerStream} {fd : Sock} {fds : List Sock}
    (hlen : requestHeaderSize ≤ s.inbuffer.length) (hfds : s.inFds = fd :: fds) :
    s.takeHeader = { s with
      inFds := fds
      newMsgs := s.newMsgs ++ [(copyHeader requestHeaderSize s.inbuffer, fd)]
      inbuffer := s.inbuffer.drop requestHeaderSize } := by
  simp [takeHeader, hlen, hfds]

theorem takeHeader_takesAll (s : WorkerStream) :
    TakesAll s.newMsgs s.inbuffer s.inFds s.takeHeader ↔ arrivals s.inbuffer s.inFds ≤ 1 := by
  have hpairs := pairs_length s.inbuffer s.inFds
  cases hn : arrivals s.inbuffer s.inFds with
  | zero =>
    rw [takeHeader_none hn]
    rw [hn] at hpairs
    have none : (headers s.inbuffer).zip s.inFds = [] := List.length_eq_zero_iff.mp hpairs
    refine iff_of_true ⟨by rw [none, List.append_nil], by rw [hn]; rfl, by rw [hn]; rfl, ?_⟩ (Nat.zero_le 1)
    rintro ⟨hlen, hne⟩
    have pos : 0 < s.inbuffer.length / requestHeaderSize := Nat.div_pos hlen (by decide)
    have one : 0 < s.inFds.length := List.length_pos_iff.mpr hne
    simp only [arrivals] at hn
    omega
  | succ n =>
    have hlen : requestHeaderSize ≤ s.inbuffer.length := by
      by_contra short
      rw [arrivals, Nat.div_eq_of_lt (by omega), Nat.zero_min] at hn
      cases hn
    obtain ⟨fd, fds, hfds⟩ : ∃ fd fds, s.inFds = fd :: fds := by
      cases hfds : s.inFds with
      | nil => simp [arrivals, hfds] at hn
      | cons fd fds => exact ⟨fd, fds, rfl⟩
    obtain ⟨later, hlater⟩ := headers_cons hlen
    rw [takeHeader_some hlen hfds]
    rw [hlater, hfds, List.zip_cons_cons] at hpairs
    constructor
    · intro taken
      have pairs := taken.pairs
      rw [hlater, hfds, List.zip_cons_cons] at pairs
      have none : later.zip fds = [] := (List.cons.inj (List.append_cancel_left pairs)).2.symm
      rw [none, ← hfds, hn] at hpairs
      exact Nat.le_of_eq hpairs.symm
    · intro le
      obtain rfl : n = 0 := by omega
      rw [← hfds, hn] at hpairs
      have none : later.zip fds = [] := by
        rw [List.length_cons] at hpairs
        exact List.length_eq_zero_iff.mp (by omega)
      refine ⟨by rw [hlater, hfds, List.zip_cons_cons, none], by rw [hn]; rfl, by rw [hn, hfds]; rfl, ?_⟩
      rintro ⟨hmore, hne⟩
      have one : 0 < fds.length := List.length_pos_iff.mpr hne
      dsimp only at hmore
      rw [List.length_drop] at hmore
      have two : 2 ≤ s.inbuffer.length / requestHeaderSize :=
        (Nat.le_div_iff_mul_le (by decide)).mpr (by omega)
      rw [arrivals, hfds, List.length_cons] at hn
      omega

theorem takes_all_iff {s : WorkerStream} {fds : List Sock} {bytes : List UInt8}
    (ok : (s.read fds (.ok bytes)).1 = .ok ()) :
    TakesAll s.newMsgs (s.inbuffer ++ bytes) (s.inFds ++ fds) (s.read fds (.ok bytes)).2 ↔
      arrivals (s.inbuffer ++ bytes) (s.inFds ++ fds) ≤ 1 := by
  cases bytes with
  | nil => cases ok
  | cons b bs =>
    exact takeHeader_takesAll { s with inFds := s.inFds ++ fds, inbuffer := s.inbuffer ++ b :: bs }

def twoClients : List UInt8 := [0, 0, 1, 0, 0, 0, 0, 0, 0, 0, 1, 0, 0, 0, 0, 0]

theorem takes_all_one : ((new 0).read [7] (.ok twoClients)).2.inbuffer = twoClients.drop 8 := by
  have ok : ((new 0).read [7] (.ok twoClients)).1 = .ok () := rfl
  exact ((takes_all_iff ok).mpr (by decide)).rest

theorem second_client_waits : ¬ TakesAll [] twoClients [7, 8] ((new 0).read [7, 8] (.ok twoClients)).2 :=
  fun taken => taken.drained (by decide)

end PyProxy.Worker.WorkerStream
