import FragmentRelay.Proofs.Store.Attempts
import Mathlib.Tactic.Common

/-!
# Schedules: computations that run at the same time

Several computations share a store, and each request of each of them is one step. A schedule says
whose turn it is at which instant; every schedule is possible, so the states that can be reached are
the ones after some schedule. Where requests may fail, a schedule is a list of turns, each of which
also says whether its request does.

* `step_moves`: a step moves one computation on and leaves the others alone.
* `run_induction`: what every step preserves holds after every schedule.
* `take_cases`, `play_induction`: the same for turns in which requests may fail.
-/

namespace FragmentRelay

/-- Some computations in the middle of their work, and the store that they share. -/
structure Concurrent (α : Type) where
  calls : List (Access α)
  store : Store

namespace Concurrent

variable {α : Type} {c : Concurrent α} {now : Instant} {m n : Nat} {a a' : Access α} {s : Store}

/-- The computation with a number carries out its next request, if it has one. -/
def step (c : Concurrent α) (now : Instant) (n : Nat) : Concurrent α :=
  match (c.calls[n]?).bind (·.step now c.store) with
  | none => c
  | some (a, s) => { calls := c.calls.set n a, store := s }

/-- The computations take turns as a schedule says. -/
def run (c : Concurrent α) (schedule : List (Instant × Nat)) : Concurrent α :=
  schedule.foldl (fun c turn => c.step turn.1 turn.2) c

@[simp] theorem run_nil (c : Concurrent α) : c.run [] = c := rfl

@[simp] theorem run_cons (c : Concurrent α) (turn : Instant × Nat)
    (schedule : List (Instant × Nat)) :
    c.run (turn :: schedule) = (c.step turn.1 turn.2).run schedule := rfl

theorem step_of_some (hn : c.calls[n]? = some a) (ha : a.step now c.store = some (a', s)) :
    c.step now n = { calls := c.calls.set n a', store := s } := by
  simp [step, hn, ha]

theorem step_moves (now : Instant) (hn : c.calls[n]? = some a)
    (ha : a.step now c.store = some (a', s)) :
    (c.step now n).calls[n]? = some a' ∧ (∀ m, m ≠ n → (c.step now n).calls[m]? = c.calls[m]?) ∧
      (c.step now n).store = s := by
  rw [step_of_some hn ha]
  refine ⟨?_, fun m hm => ?_, rfl⟩
  · rw [List.getElem?_set_self (List.getElem?_eq_some_iff.1 hn).1]
  · rw [List.getElem?_set_ne (Ne.symm hm)]

theorem step_of_ended (hn : c.calls[n]? = some a) (ha : a.step now c.store = none) :
    c.step now n = c := by
  simp [step, hn, ha]

theorem step_of_absent (hn : c.calls[n]? = none) : c.step now n = c := by
  simp [step, hn]

theorem run_induction {P : Concurrent α → Prop} (h : P c)
    (hstep : ∀ c now n, P c → P (c.step now n)) (schedule : List (Instant × Nat)) :
    P (c.run schedule) := by
  induction schedule generalizing c with
  | nil => exact h
  | cons turn rest ih => exact ih (hstep _ _ _ h)

end Concurrent

/-! ### Turns in which requests may fail -/

/-- An entry of a list of which one was changed is the new one, or another one as it was. -/
theorem cases_of_getElem?_set {α : Type} {l : List α} {m n : Nat} {a x : α}
    (h : (l.set n a)[m]? = some x) : (m = n ∧ x = a) ∨ (m ≠ n ∧ l[m]? = some x) := by
  by_cases hmn : m = n
  · subst hmn
    have hlt := (List.getElem?_eq_some_iff.1 h).1
    rw [List.length_set] at hlt
    rw [List.getElem?_set_self hlt] at h
    exact .inl ⟨rfl, (Option.some.inj h).symm⟩
  · rw [List.getElem?_set_ne (Ne.symm hmn)] at h
    exact .inr ⟨hmn, h⟩

/-- Whose turn it is and when, and the error with which its request fails if it does. -/
structure Turn where
  now : Instant
  call : Nat
  fault : Option StoreError := none

namespace Concurrent

variable {α : Type} {c : Concurrent α} {a : Access α}

/-- A computation takes its turn, if it has a request to make. -/
def take (c : Concurrent α) (t : Turn) : Concurrent α :=
  match (c.calls[t.call]?).bind (·.attempt t.fault t.now c.store) with
  | none => c
  | some (a, s) => { calls := c.calls.set t.call a, store := s }

/-- The computations take their turns one after the other. -/
def play (c : Concurrent α) (turns : List Turn) : Concurrent α := turns.foldl take c

/-- A turn changes nothing as there is no request to make, or one computation makes its next
request. -/
theorem take_cases (c : Concurrent α) (t : Turn) :
    (c.take t = c ∧ ∀ a, c.calls[t.call]? = some a → a.attempt t.fault t.now c.store = none) ∨
    ∃ a a' s, c.calls[t.call]? = some a ∧ a.attempt t.fault t.now c.store = some (a', s) ∧
      c.take t = { calls := c.calls.set t.call a', store := s } := by
  cases hn : c.calls[t.call]? with
  | none => exact .inl ⟨by simp [take, hn], nofun⟩
  | some a =>
    cases ha : a.attempt t.fault t.now c.store with
    | none =>
      refine .inl ⟨by simp [take, hn, ha], fun b hb => ?_⟩
      cases hb
      exact ha
    | some p => exact .inr ⟨a, p.1, p.2, rfl, ha, by simp [take, hn, ha]⟩

theorem play_induction {P : Concurrent α → Prop} (h : P c) (htake : ∀ c t, P c → P (c.take t))
    (turns : List Turn) : P (c.play turns) := by
  induction turns generalizing c with
  | nil => exact h
  | cons t rest ih => exact ih (htake c t h)

theorem step_eq_take (c : Concurrent α) (now : Instant) (n : Nat) :
    c.step now n = c.take { now, call := n } := rfl

end Concurrent

/-- The value of a computation that is done. -/
def Access.result? {α : Type} : Access α → Option α
  | done a => some a
  | _ => none

theorem Access.result?_eq_some {α : Type} {a : Access α} {x : α} :
    a.result? = some x ↔ a = .done x := by
  cases a <;> simp [result?]

end FragmentRelay
