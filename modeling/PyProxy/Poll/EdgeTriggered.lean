import Mathlib.Data.List.Basic

namespace Poll

structure Interest where
  readable : Bool
  writable : Bool
  deriving DecidableEq, Repr

def ro : Interest := ⟨true, false⟩

def rw : Interest := ⟨true, true⟩

inductive IoError where
  | wouldBlock
  | connectionAborted
  | other
  deriving DecidableEq, Repr

abbrev Sock := Nat

structure Event (τ : Type) where
  token : τ
  readable : Bool
  writable : Bool
  deriving DecidableEq, Repr

structure Source (τ α : Type) where
  reg : Option (τ × Interest)
  readArmed : Bool
  writeArmed : Bool
  input : List α
  backlog : Nat
  closed : Bool

structure ReadIo where
  amount : Nat
  reset : Bool

structure WriteIo where
  room : Option Nat
  reset : Bool

-- `early` is what the peer sent before its connection was accepted
structure AcceptIo (α : Type) where
  refused : Bool
  early : List α
  closed : Bool

variable {τ α : Type}

namespace Source

def idle : Source τ α := ⟨none, false, false, [], 0, false⟩

def pending (s : Source τ α) : Bool := !s.input.isEmpty || decide (0 < s.backlog)

def reads (s : Source τ α) : Bool := s.reg.any fun r => r.2.readable

def writes (s : Source τ α) : Bool := s.reg.any fun r => r.2.writable

def attach (s : Source τ α) (tk : τ) (interest : Interest) : Source τ α :=
  { s with
    reg := some (tk, interest)
    readArmed := interest.readable && s.pending
    writeArmed := interest.writable }

def detach (s : Source τ α) : Source τ α :=
  { s with reg := none, readArmed := false, writeArmed := false }

def wake (s : Source τ α) : Source τ α := { s with readArmed := s.readArmed || s.reads }

def arrive (s : Source τ α) (bytes : List α) : Source τ α :=
  if bytes.isEmpty then s else { s.wake with input := s.input ++ bytes }

def offer (s : Source τ α) : Source τ α := { s.wake with backlog := s.backlog + 1 }

def close (s : Source τ α) : Source τ α := { s.wake with closed := true }

def deliver (s : Source τ α) (readable writable : Bool) : Source τ α :=
  { s with readArmed := s.readArmed && !readable, writeArmed := s.writeArmed && !writable }

def take (s : Source τ α) (size : Nat) (io : ReadIo) : Except IoError (List α) × Source τ α :=
  if io.reset && s.closed then (.error .other, s)
  else if s.input.isEmpty then (if s.closed then .ok [] else .error .wouldBlock, s)
  else
    let n := min (max io.amount 1) size
    (.ok (s.input.take n), { s with input := s.input.drop n })

def put (s : Source τ α) (len : Nat) (io : WriteIo) : Except IoError Nat × Source τ α :=
  if io.reset && s.closed then (.error .other, s)
  else match io.room with
    | none => (.error .wouldBlock, { s with writeArmed := s.writeArmed || s.writes })
    | some room =>
      (.ok (min room len),
        { s with writeArmed := s.writeArmed || (s.writes && decide (room < len)) })

def dequeue (s : Source τ α) : Source τ α := { s with backlog := s.backlog - 1 }

def drained (s : Source τ α) (n : Nat) : Source τ α := { s with input := s.input.drop n }

@[simp] theorem attach_input (s : Source τ α) (tk : τ) (i : Interest) :
    (s.attach tk i).input = s.input := rfl

@[simp] theorem detach_input (s : Source τ α) : s.detach.input = s.input := rfl

@[simp] theorem put_input (s : Source τ α) (len : Nat) (io : WriteIo) :
    (s.put len io).2.input = s.input := by
  simp only [put]
  split
  · rfl
  · split <;> rfl

@[simp] theorem arrive_input (s : Source τ α) (bytes : List α) :
    (s.arrive bytes).input = s.input ++ bytes := by
  simp only [arrive]
  split
  · rename_i h
    simp [List.isEmpty_iff.mp h]
  · rfl

theorem arrive_reg (s : Source τ α) (bytes : List α) : (s.arrive bytes).reg = s.reg := by
  simp only [arrive]
  split <;> rfl

theorem arrive_unarmed {s : Source τ α} (h : s.writeArmed = false) (bytes : List α) :
    (s.arrive bytes).writeArmed = false := by
  simp only [arrive]
  split
  · exact h
  · exact h

theorem take_cases (s : Source τ α) {size : Nat} (pos : 0 < size) (io : ReadIo) :
    (∃ e, s.take size io = (.error e, s)) ∨ s.take size io = (.ok [], s) ∨
      ∃ n, s.take size io = (.ok (s.input.take n), s.drained n) ∧
        s.input.take n ≠ [] ∧ n ≤ size := by
  simp only [take]
  split
  · exact .inl ⟨_, rfl⟩
  · split
    · split
      · exact .inr (.inl rfl)
      · exact .inl ⟨_, rfl⟩
    · rename_i hne
      refine .inr (.inr ⟨min (max io.amount 1) size, rfl, ?_, Nat.min_le_right _ _⟩)
      rw [List.isEmpty_iff] at hne
      simp only [ne_eq, List.take_eq_nil_iff, hne, or_false]
      omega

theorem take_open {s : Source τ α} {size : Nat} (pos : 0 < size) (io : ReadIo)
    (open_ : s.closed = false) (some : s.input ≠ []) : ∃ n, 0 < n ∧ n ≤ size ∧
      s.take size io = (.ok (s.input.take n), s.drained n) := by
  refine ⟨min (max io.amount 1) size, by omega, Nat.min_le_right _ _, ?_⟩
  simp [take, open_, some, drained]

theorem put_cases (s : Source τ α) (len : Nat) (io : WriteIo) :
    (∃ e, s.put len io = (.error e, s) ∧ s.closed = true) ∨
      s.put len io = (.error .wouldBlock, { s with writeArmed := s.writeArmed || s.writes }) ∨
      ∃ n, n ≤ len ∧ s.put len io =
        (.ok n, { s with writeArmed := s.writeArmed || (s.writes && decide (n < len)) }) := by
  simp only [put]
  split
  · rename_i h
    exact .inl ⟨_, rfl, (Bool.and_eq_true_iff.mp h).2⟩
  · split
    · exact .inr (.inl rfl)
    · rename_i room _
      refine .inr (.inr ⟨min room len, Nat.min_le_right _ _, ?_⟩)
      have short : (min room len < len) ↔ room < len := by omega
      simp only [short]

end Source

structure World (τ α : Type) where
  source : Sock → Source τ α
  next : Sock

namespace World

def modify (w : World τ α) (k : Sock) (f : Source τ α → Source τ α) : World τ α :=
  { w with source := fun j => if j = k then f (w.source k) else w.source j }

@[simp] theorem modify_next (w : World τ α) (k : Sock) (f : Source τ α → Source τ α) :
    (w.modify k f).next = w.next := rfl

@[simp] theorem modify_same (w : World τ α) (k : Sock) (f : Source τ α → Source τ α) :
    (w.modify k f).source k = f (w.source k) := if_pos rfl

theorem modify_other (w : World τ α) {j k : Sock} (f : Source τ α → Source τ α) (h : j ≠ k) :
    (w.modify k f).source j = w.source j := if_neg h

def register (w : World τ α) (refused : Bool) (k : Sock) (tk : τ) (interest : Interest) :
    Option (World τ α) :=
  if refused || (w.source k).reg.isSome then none else some (w.modify k (·.attach tk interest))

def reregister (w : World τ α) (refused : Bool) (k : Sock) (tk : τ) (interest : Interest) :
    Option (World τ α) :=
  if refused || (w.source k).reg.isNone then none else some (w.modify k (·.attach tk interest))

def deregister (w : World τ α) (k : Sock) : World τ α := w.modify k Source.detach

def read (w : World τ α) (k : Sock) (size : Nat) (io : ReadIo) :
    Except IoError (List α) × World τ α :=
  (((w.source k).take size io).1, w.modify k fun s => (s.take size io).2)

def write (w : World τ α) (k : Sock) (len : Nat) (io : WriteIo) : Except IoError Nat × World τ α :=
  (((w.source k).put len io).1, w.modify k fun s => (s.put len io).2)

def accept (w : World τ α) (k : Sock) (io : AcceptIo α) : Except IoError Sock × World τ α :=
  if (w.source k).backlog = 0 then (.error .wouldBlock, w)
  else if io.refused then (.error .other, w)
  else
    let opened : Source τ α := { (Source.idle : Source τ α) with input := io.early, closed := io.closed }
    (.ok w.next,
      { (w.modify k Source.dequeue).modify w.next fun _ => opened with next := w.next + 1 })

theorem modify_input (w : World τ α) (k : Sock) {f : Source τ α → Source τ α}
    (hf : ∀ s, (f s).input = s.input) (j : Sock) :
    ((w.modify k f).source j).input = (w.source j).input := by
  by_cases h : j = k
  · subst h
    rw [modify_same, hf]
  · rw [modify_other w f h]

def SameInput (w w' : World τ α) : Prop :=
  (∀ j, (w'.source j).input = (w.source j).input) ∧ w'.next = w.next

theorem read_other (w : World τ α) {j k : Sock} (size : Nat) (io : ReadIo) (h : j ≠ k) :
    (w.read k size io).2.source j = w.source j :=
  modify_other w (fun s => (s.take size io).2) h

theorem modify_congr (w : World τ α) (k : Sock) {f g : Source τ α → Source τ α}
    (h : f (w.source k) = g (w.source k)) : w.modify k f = w.modify k g := by
  simp only [modify, h]

theorem modify_self (w : World τ α) (k : Sock) {f : Source τ α → Source τ α}
    (h : f (w.source k) = w.source k) : w.modify k f = w := by
  have hsrc : (w.modify k f).source = w.source := by
    funext j
    by_cases hj : j = k
    · rw [hj, modify_same, h]
    · rw [modify_other _ _ hj]
  cases w
  simp only [modify] at hsrc ⊢
  rw [hsrc]

theorem read_results (w : World τ α) (k : Sock) {size : Nat} (pos : 0 < size) (io : ReadIo) :
    (∃ e, w.read k size io = (.error e, w)) ∨ w.read k size io = (.ok [], w) ∨
      ∃ n, w.read k size io = (.ok ((w.source k).input.take n), w.modify k (·.drained n)) ∧
        (w.source k).input.take n ≠ [] ∧ n ≤ size := by
  rcases (w.source k).take_cases pos io with ⟨e, he⟩ | he | ⟨n, he, hne, hn⟩
  · exact .inl ⟨e, by rw [read, he, w.modify_self k (by rw [he])]⟩
  · exact .inr (.inl (by rw [read, he, w.modify_self k (by rw [he])]))
  · have hw : w.modify k (fun s => (s.take size io).2) = w.modify k (·.drained n) :=
      w.modify_congr k (by rw [he])
    exact .inr (.inr ⟨n, by rw [read, he, hw], hne, hn⟩)

theorem read_open {w : World τ α} {k : Sock} {size : Nat} (pos : 0 < size) (io : ReadIo)
    (open_ : (w.source k).closed = false) (some : (w.source k).input ≠ []) :
    ∃ n, 0 < n ∧ n ≤ size ∧
      w.read k size io = (.ok ((w.source k).input.take n), w.modify k (·.drained n)) := by
  obtain ⟨n, hpos, hle, he⟩ := Source.take_open pos io open_ some
  refine ⟨n, hpos, hle, ?_⟩
  have hw : w.modify k (fun s => (s.take size io).2) = w.modify k (·.drained n) :=
    w.modify_congr k (by rw [he])
  rw [read, he, hw]

theorem write_results (w : World τ α) (k : Sock) (len : Nat) (io : WriteIo) :
    ((∃ e, w.write k len io = (.error e, w)) ∧ (w.source k).closed = true) ∨
      w.write k len io = (.error .wouldBlock,
        w.modify k fun s => { s with writeArmed := s.writeArmed || s.writes }) ∨
      ∃ n, n ≤ len ∧ w.write k len io = (.ok n, w.modify k fun s =>
        { s with writeArmed := s.writeArmed || (s.writes && decide (n < len)) }) := by
  have same : ∀ {res : Except IoError Nat} {f : Source τ α → Source τ α},
      (w.source k).put len io = (res, f (w.source k)) → w.write k len io = (res, w.modify k f) := by
    intro res f h
    rw [write, h, w.modify_congr k (by rw [h])]
  rcases (w.source k).put_cases len io with ⟨e, he, hclosed⟩ | he | ⟨n, hn, he⟩
  · refine .inl ⟨⟨e, (@same _ id he).trans ?_⟩, hclosed⟩
    rw [w.modify_self k rfl]
  · exact .inr (.inl (@same _ (fun s => { s with writeArmed := s.writeArmed || s.writes }) he))
  · exact .inr (.inr ⟨n, hn, @same _
      (fun s => { s with writeArmed := s.writeArmed || (s.writes && decide (n < len)) }) he⟩)

theorem written_le {w : World τ α} {k : Sock} {len n : Nat} {io : WriteIo}
    (h : (w.write k len io).1 = .ok n) : n ≤ len := by
  rcases w.write_results k len io with ⟨⟨e, he⟩, -⟩ | he | ⟨m, hm, he⟩
  · rw [he] at h
    cases h
  · rw [he] at h
    cases h
  · rw [he] at h
    cases h
    exact hm

theorem read_cases (w : World τ α) (k : Sock) {size : Nat} (pos : 0 < size) (io : ReadIo) :
    (∃ e os, w.read k size io = (.error e, os) ∧ SameInput w os) ∨
      (∃ os, w.read k size io = (.ok [], os) ∧ SameInput w os) ∨
      ∃ n os, w.read k size io = (.ok ((w.source k).input.take n), os) ∧
        (w.source k).input.take n ≠ [] ∧
        SameInput (w.modify k fun s => { s with input := s.input.drop n }) os := by
  rcases w.read_results k pos io with ⟨e, he⟩ | he | ⟨n, he, hne, -⟩
  · exact .inl ⟨e, w, he, fun _ => rfl, rfl⟩
  · exact .inr (.inl ⟨w, he, fun _ => rfl, rfl⟩)
  · exact .inr (.inr ⟨n, _, he, hne, fun _ => rfl, rfl⟩)

theorem register_some {w w' : World τ α} {refused : Bool} {k : Sock} {tk : τ} {i : Interest}
    (h : w.register refused k tk i = some w') :
    (w.source k).reg = none ∧ w' = w.modify k (·.attach tk i) := by
  simp only [register] at h
  split at h
  · cases h
  · rename_i hc
    simp only [Bool.or_eq_true, not_or, Bool.not_eq_true, Option.isSome_eq_false_iff,
      Option.isNone_iff_eq_none] at hc
    exact ⟨hc.2, (Option.some.inj h).symm⟩

theorem register_free {w : World τ α} {k : Sock} (h : (w.source k).reg = none) (refused : Bool) (tk : τ)
    (i : Interest) : w.register refused k tk i =
      if refused = true then none else some (w.modify k (·.attach tk i)) := by
  simp [register, h]

theorem reregister_some {w w' : World τ α} {refused : Bool} {k : Sock} {tk : τ} {i : Interest}
    (h : w.reregister refused k tk i = some w') :
    (w.source k).reg.isSome = true ∧ w' = w.modify k (·.attach tk i) := by
  simp only [reregister] at h
  split at h
  · cases h
  · rename_i hc
    simp only [Bool.or_eq_true, not_or, Bool.not_eq_true] at hc
    exact ⟨by simpa using hc.2, (Option.some.inj h).symm⟩

theorem reregister_granted {w w' : World τ α} {refused : Bool} {k : Sock} {tk : τ} {i : Interest}
    (h : w.reregister refused k tk i = some w') : refused = false := by
  cases refused with
  | false => rfl
  | true => simp [reregister] at h

theorem reregister_ok {w : World τ α} {k : Sock} (reg : (w.source k).reg.isSome = true) (tk : τ)
    (i : Interest) : w.reregister false k tk i = some (w.modify k (·.attach tk i)) := by
  have registered : (w.source k).reg.isNone = false := by simpa [Option.isNone_eq_false_iff] using reg
  simp [reregister, registered]

theorem attach_reg (w : World τ α) (k : Sock) (tk : τ) (i : Interest) (j : Sock) :
    ((w.modify k (·.attach tk i)).source j).reg =
      if j = k then some (tk, i) else (w.source j).reg := by
  split
  · rename_i h
    rw [h, modify_same]
    rfl
  · rename_i h
    rw [modify_other _ _ h]

theorem deregister_reg (w : World τ α) (k j : Sock) :
    ((w.deregister k).source j).reg = if j = k then none else (w.source j).reg := by
  split
  · rename_i h
    rw [h, deregister, modify_same]
    rfl
  · rename_i h
    rw [deregister, modify_other _ _ h]

end World
end Poll
