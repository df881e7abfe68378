import FragmentRelay.Reassembly

/-!
# Polling: trying again until an operation is ready

A poll tries at once and then, as long as the outcome asks for another attempt and attempts are
left, after each delay of a normal backoff. It ends with the first outcome that does not ask for
another attempt, or with the last one.

How an attempt is made and how time passes are functions on a state, so that a poll can run against
any evolution of the store.
-/

namespace FragmentRelay

/-- Whether an outcome says that fragments are still to be ingested. -/
def ReassemblyError.pending {α : Type} : Except ReassemblyError α → Bool
  | .ok _ => false
  | .error e => e.notReady

namespace Backoff

variable {ρ σ : Type}

/-- Tries with a number of attempts left after this one. -/
def pollFrom (again : ρ → Bool) (attempt : σ → ρ × σ) (sleep : Span → σ → σ) (b : Backoff) :
    (left number : Nat) → σ → ρ × σ
  | 0, _, s => attempt s
  | left + 1, number, s =>
    match attempt s with
    | (r, s) =>
      if again r then
        pollFrom again attempt sleep b left (number + 1) (sleep (b.delayAfter number) s)
      else (r, s)

/-- Tries up to a number of times, but at least once. -/
def poll (again : ρ → Bool) (attempt : σ → ρ × σ) (sleep : Span → σ → σ) (b : Backoff)
    (attempts : Nat) (s : σ) : ρ × σ :=
  pollFrom again attempt sleep b.normalized (attempts - 1) 1 s

end Backoff

end FragmentRelay
