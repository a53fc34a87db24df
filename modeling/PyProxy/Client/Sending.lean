import PyProxy.Client.Wire
import PyProxy.Machine.Run

namespace PyProxy.Client
open Stream Protocol

variable {bc : Bincode}

def Label.Sends (l : Label) : Prop :=
  ∃ ev io n, l = .event ev io ∧ ev.token = mainStreamTk ∧ ev.writable = true ∧ io.write = .ok n ∧ 0 < n

-- the loop keeps polling, and a main stream registered as writable is written to in the end
structure Fair (e : ((machine bc).traced wrote).Endless) : Prop where
  turning : ∀ n, ∃ m io, n ≤ m ∧ e.labels m = .head io
  writable : ∀ n, (∀ m io, n ≤ m → e.labels m = .head io →
      (e.states (m + 1)).1.1.state.mainStream.interest.writable = true) →
    ∃ m, n ≤ m ∧ (e.labels m).Sends

namespace Loop

end Loop

section

variable {e : ((machine bc).traced wrote).Endless}

end

end PyProxy.Client
