import PyProxy.Poll.EdgeTriggered

namespace PyProxy

export Poll (Interest ro rw IoError Sock ReadIo WriteIo)

abbrev Token := Nat

abbrev IoResult (T : Type) := Except IoError T

def registered {T : Type} : Option T → IoResult T
  | some t => .ok t
  | none => .error .other

-- the queue of the crate that passes descriptors over a unix stream, as the descriptors it holds in their order
structure FdQueue where
  capacity : Nat
  enqueue : List Sock → Sock → Option (List Sock)
  sent : List Sock → Nat → List Sock
  unsent : List Sock → IoResult Nat → List Sock
  -- `none` is `QueueFullError`
  bounded : ∀ fds fd, enqueue fds fd = if fds.length < capacity then some (fds ++ [fd]) else none
  fewer : ∀ fds res, unsent fds res ⊆ fds

namespace FdQueue

-- descriptors go out with the bytes that a write gets away, or wait for a later one
structure InOrder (q : FdQueue) : Prop where
  sent : ∀ fds n, 0 < n → q.sent fds n ++ q.unsent fds (.ok n) = fds

theorem unsent_nil (q : FdQueue) (res : IoResult Nat) : q.unsent [] res = [] :=
  List.subset_nil.mp (q.fewer [] res)

-- what is queued is taken out for the next write, and is lost if that fails
def draining (capacity : Nat) : FdQueue where
  capacity := capacity
  enqueue fds fd := if fds.length < capacity then some (fds ++ [fd]) else none
  sent fds _ := fds
  unsent _ _ := []
  bounded _ _ := rfl
  fewer _ _ := List.nil_subset _

theorem draining_inOrder (capacity : Nat) : (draining capacity).InOrder := ⟨fun fds _ _ => List.append_nil fds⟩

end FdQueue

inductive Flow (ε σ : Type) where
  | running (s : σ)
  | returned (s : σ) (res : Except ε Unit)

def Flow.state {ε σ : Type} : Flow ε σ → σ
  | .running s => s
  | .returned s _ => s

def Flow.Failed {ε σ : Type} (f : Flow ε σ) : Prop := ∃ s e, f = .returned s (.error e)

theorem Flow.not_failed_running {ε σ : Type} {s : σ} : ¬ (Flow.running s : Flow ε σ).Failed := by
  rintro ⟨_, _, h⟩
  cases h

theorem Flow.not_failed_ok {ε σ : Type} {s : σ} : ¬ (Flow.returned s (.ok ()) : Flow ε σ).Failed := by
  rintro ⟨_, _, h⟩
  cases h

end PyProxy
