import FragmentRelay.Polling
import FragmentRelay.Store.Basic
import Mathlib.Data.Nat.Find
import Mathlib.Order.Monotone.Basic

/-!
# Polling: when a poll tries, and how it ends

The course of a poll is fixed: an attempt and a delay in turn, whatever the attempts come to. The
states in which its attempts are made (`visit`) tell how it ends: with the first attempt that does
not ask for another one, or when its attempts are used up (`Decides`). A loop that counts the
attempts in a word ends the same way, and the word is large enough. A poll whose attempts depend on
the instant alone, and take no time, tries at the instants that its delays add up to (`Ends`), and
`poll_eq` says what it returns and when it tried.

* `Backoff.Normal`: the delays of a normal schedule are not zero, and making it normal again changes
  nothing.
* `Backoff.instantAfter`: the instants of the attempts, in strict order.
* `Backoff.poll_eq_visit`: a whole poll, by induction on the attempts that are left.
* `Backoff.countedPoll?_eq`: the loop that counts in a word, by the same induction.
* `Backoff.poll_eq`: a poll against a clock.
-/

namespace FragmentRelay

namespace Backoff

variable {b : Backoff} {start : Instant}

/-! ### Normal schedules -/

/-- A schedule whose first delay is at least a millisecond and not longer than the ceiling. -/
structure Normal (b : Backoff) : Prop where
  shortest_le : shortest ≤ b.initial
  initial_le : b.initial ≤ b.ceiling

theorem normal_normalized (b : Backoff) : b.normalized.Normal := by
  unfold normalized
  simp only
  split
  · rename_i h
    exact ⟨by rw [Span.le_iff, Span.nanos_max]; exact Nat.le_max_right _ _, h⟩
  · rename_i h
    exact ⟨by rw [Span.le_iff, Span.nanos_max]; exact Nat.le_max_right _ _, Nat.le_of_not_le h⟩

theorem Normal.normalized_eq (h : b.Normal) : b.normalized = b := by
  have hfirst := Span.le_iff.1 h.shortest_le
  have hlast := Span.le_iff.1 h.initial_le
  have hinitial : max b.initial shortest = b.initial :=
    Span.ext_nanos (by rw [Span.nanos_max]; omega)
  have hceiling : max b.ceiling shortest = b.ceiling :=
    Span.ext_nanos (by rw [Span.nanos_max]; omega)
  simp only [normalized, hinitial, hceiling, if_pos h.initial_le]

theorem Normal.delayAfter_pos (h : b.Normal) (attempt : Nat) :
    0 < (b.delayAfter attempt).nanos := by
  have hfirst : 0 < b.initial.nanos := Nat.lt_of_lt_of_le (by decide) (Span.le_iff.1 h.shortest_le)
  have hceiling : 0 < b.ceiling.nanos := Nat.lt_of_lt_of_le hfirst (Span.le_iff.1 h.initial_le)
  have hfactor : 0 < b.initial.nanos * 2 ^ doublings attempt :=
    Nat.mul_pos hfirst (Nat.two_pow_pos _)
  rw [delayAfter, Span.nanos_min, Span.nanos_scale, Nat.one_shiftLeft]
  exact Nat.lt_min.2 ⟨Nat.lt_min.2 ⟨hfactor, by decide⟩, hceiling⟩

/-! ### Instants of attempts -/

/-- The instant that is reached from another after the first delays of a schedule. The first attempt
is made after no delay, so this is when the attempt with the next number is made. -/
def instantAfter (b : Backoff) (start : Instant) : (delays : Nat) → Instant
  | 0 => start
  | n + 1 => instantAfter b start n + (b.delayAfter (n + 1)).nanos

theorem Normal.strictMono_instantAfter (h : b.Normal) (start : Instant) :
    StrictMono (b.instantAfter start) :=
  strictMono_nat_of_lt_succ fun n => Nat.lt_add_of_pos_right (h.delayAfter_pos (n + 1))

/-! ### The course of a poll -/

section Course

variable {ρ σ : Type} {again : ρ → Bool} {attempt : σ → ρ × σ} {sleep : Span → σ → σ} {s : σ}
  {attempts last left n : Nat}

/-- The state after some attempts, each followed by its delay. -/
def visit (attempt : σ → ρ × σ) (sleep : Span → σ → σ) (b : Backoff) (s : σ) : (delays : Nat) → σ
  | 0 => s
  | n + 1 => sleep (b.delayAfter (n + 1)) (attempt (visit attempt sleep b s n)).2

/-- The attempt after a number of delays is the last one: all attempts before ask for another one,
and this one does not or is the last that is allowed. -/
structure Decides (again : ρ → Bool) (outcome : Nat → ρ) (attempts last : Nat) : Prop where
  asks : ∀ j < last, again (outcome j) = true
  lt_attempts : last < attempts
  stops : last + 1 = attempts ∨ again (outcome last) = false

theorem exists_decides (again : ρ → Bool) (outcome : Nat → ρ) (h : 0 < attempts) :
    ∃ last, Decides again outcome attempts last := by
  have hex : ∃ n, n + 1 = attempts ∨ again (outcome n) = false := ⟨attempts - 1, .inl (by omega)⟩
  have hearlier : ∀ j < Nat.find hex, ¬ (j + 1 = attempts ∨ again (outcome j) = false) :=
    fun _ hj => Nat.find_min hex hj
  refine ⟨Nat.find hex, fun j hj => ?_, ?_, Nat.find_spec hex⟩
  · exact Bool.not_eq_false _ ▸ (not_or.1 (hearlier j hj)).2
  · have hle : Nat.find hex ≤ attempts - 1 := Nat.find_min' hex (.inl (by omega))
    omega

/-- Only the outcomes up to the last attempt matter. -/
theorem Decides.congr {outcome outcome' : Nat → ρ} (h : Decides again outcome attempts last)
    (heq : ∀ j ≤ last, outcome' j = outcome j) : Decides again outcome' attempts last where
  asks j hj := (congrArg again (heq j (Nat.le_of_lt hj))).trans (h.asks j hj)
  lt_attempts := h.lt_attempts
  stops := h.stops.imp_right (congrArg again (heq last (Nat.le_refl last))).trans

theorem pollFrom_eq_visit
    (h : Decides again (fun j => (attempt (visit attempt sleep b s j)).1) attempts last)
    (hn : n ≤ last) (hleft : left + n + 1 = attempts) :
    b.pollFrom again attempt sleep left (n + 1) (visit attempt sleep b s n) =
      attempt (visit attempt sleep b s last) := by
  have hlt := h.lt_attempts
  induction left generalizing n with
  | zero =>
    obtain rfl : n = last := by omega
    rfl
  | succ left ih =>
    rw [pollFrom]
    simp only
    split
    · rename_i hagain
      have hne : n ≠ last := by
        rintro rfl
        rcases h.stops with hstop | hstop
        · omega
        · rw [hstop] at hagain
          cases hagain
      exact ih (n := n + 1) (by omega) (by omega)
    · rename_i hagain
      obtain rfl : n = last := by
        by_contra hne
        exact hagain (h.asks n (by omega))
      rfl

/-- **A poll ends with the attempt that decides**, and nothing happens after it. -/
theorem poll_eq_visit
    (h : Decides again (fun j => (attempt (visit attempt sleep b.normalized s j)).1)
      (max 1 attempts) last) :
    b.poll again attempt sleep attempts s = attempt (visit attempt sleep b.normalized s last) :=
  pollFrom_eq_visit (n := 0) h (Nat.zero_le last) (by omega)

end Course

/-! ### A counter of 32 bits -/

section Counter

variable {ρ σ : Type}

/-- The number after another, if a word of 32 bits holds it. -/
def successor? (n : UInt32) : Option UInt32 :=
  if n.toNat + 1 < UInt32.size then some (n + 1) else none

/-- Tries in a loop that counts its attempts in a word and compares the count with the attempts that
are allowed, for a number of rounds. It gives up if the count does not fit its word, or if no round
is left. -/
def countedFrom? (again : ρ → Bool) (attempt : σ → ρ × σ) (sleep : Span → σ → σ) (b : Backoff)
    (attempts : UInt32) :
    (rounds : Nat) → (number : UInt32) → σ → Option (ρ × σ)
  | 0, _, _ => none
  | rounds + 1, number, s =>
    match attempt s with
    | (r, s) =>
      if again r ∧ number < attempts then do
        let next ← successor? number
        countedFrom? again attempt sleep b attempts
          rounds next (sleep (b.delayAfter number.toNat) s)
      else some (r, s)

/-- The loop from the first attempt on, with as many rounds as attempts are allowed, but at least
one. -/
def countedPoll? (again : ρ → Bool) (attempt : σ → ρ × σ) (sleep : Span → σ → σ) (b : Backoff)
    (attempts : UInt32) (s : σ) : Option (ρ × σ) :=
  countedFrom? again attempt sleep b.normalized attempts (max 1 attempts.toNat) 1 s

theorem countedFrom?_eq (again : ρ → Bool) (attempt : σ → ρ × σ)
    (sleep : Span → σ → σ) (b : Backoff) {attempts number : UInt32} {left : Nat}
    (hleft : left = attempts.toNat - number.toNat) (s : σ) :
    countedFrom? again attempt sleep b attempts (left + 1) number s =
      some (b.pollFrom again attempt sleep left number.toNat s) := by
  induction left generalizing number s with
  | zero =>
    have hlast : ¬ number < attempts := by
      rw [UInt32.lt_iff_toNat_lt]
      omega
    simp [countedFrom?, pollFrom, hlast]
  | succ left ih =>
    have hmore : number < attempts := by
      rw [UInt32.lt_iff_toNat_lt]
      omega
    -- a number below another one is not the largest word
    have hfits := attempts.toNat_lt
    have hsize : UInt32.size = 4294967296 := rfl
    have hnext : successor? number = some (number + 1) := if_pos (by omega)
    have hnumber : (number + 1).toNat = number.toNat + 1 := by
      rw [UInt32.toNat_add, UInt32.toNat_one]
      omega
    rw [countedFrom?, pollFrom]
    simp only [hmore, and_true, hnext]
    split
    · rw [← hnumber]
      exact ih (by omega) _
    · rfl

/-- **The counter never overflows, and the loop ends**: in as many rounds as there are attempts,
with what the poll ends with. -/
theorem countedPoll?_eq (again : ρ → Bool) (attempt : σ → ρ × σ)
    (sleep : Span → σ → σ) (b : Backoff) (attempts : UInt32) (s : σ) :
    b.countedPoll? again attempt sleep attempts s =
      some (b.poll again attempt sleep attempts.toNat s) := by
  have hrounds : max 1 attempts.toNat = attempts.toNat - 1 + 1 := by omega
  rw [countedPoll?, hrounds]
  exact countedFrom?_eq again attempt sleep b.normalized rfl s

end Counter

end Backoff

/-! ### Polls against a clock -/

/-- A clock, and when something was tried. -/
structure Watch where
  now : Instant
  tried : List Instant := []
deriving DecidableEq

namespace Watch

/-- An attempt whose outcome depends on the instant. -/
def attempt {ρ : Type} (outcome : Instant → ρ) (w : Watch) : ρ × Watch :=
  (outcome w.now, { w with tried := w.tried ++ [w.now] })

/-- Lets a span pass. -/
def sleep (s : Span) (w : Watch) : Watch := { w with now := w.now + s.nanos }

end Watch

namespace Backoff

variable {ρ : Type} {again : ρ → Bool} {outcome : Instant → ρ} {b : Backoff} {start : Instant}
  {attempts last : Nat}

/-- A poll makes its last attempt after a number of delays: all attempts before ask for another one,
and this one does not or is the last that is allowed. -/
structure Ends (again : ρ → Bool) (outcome : Instant → ρ) (b : Backoff) (start : Instant)
    (attempts last : Nat) :
    Prop where
  asks : ∀ j < last, again (outcome (b.instantAfter start j)) = true
  lt_attempts : last < attempts
  stops : last + 1 = attempts ∨ again (outcome (b.instantAfter start last)) = false

theorem exists_ends (again : ρ → Bool) (outcome : Instant → ρ) (b : Backoff) (start : Instant)
    (h : 0 < attempts) : ∃ last, Ends again outcome b start attempts last := by
  obtain ⟨last, hlast⟩ := exists_decides again (fun j => outcome (b.instantAfter start j)) h
  exact ⟨last, hlast.asks, hlast.lt_attempts, hlast.stops⟩

theorem visit_watch (outcome : Instant → ρ) (b : Backoff) (start : Instant) (n : Nat) :
    visit (Watch.attempt outcome) Watch.sleep b ⟨start, []⟩ n =
      ⟨b.instantAfter start n, (List.range n).map (b.instantAfter start)⟩ := by
  induction n with
  | zero => rfl
  | succ n ih => rw [visit, ih, Watch.attempt, Watch.sleep, List.range_succ, List.map_append]; rfl

/-- **A poll returns the outcome of its last attempt**, and has tried once after each number of
delays up to then. -/
theorem poll_eq (hb : b.Normal) (h : Ends again outcome b start attempts last) :
    b.poll again (Watch.attempt outcome) Watch.sleep attempts ⟨start, []⟩ =
      (outcome (b.instantAfter start last),
        ⟨b.instantAfter start last, (List.range (last + 1)).map (b.instantAfter start)⟩) := by
  have hlt := h.lt_attempts
  have hattempts : max 1 attempts = attempts := by omega
  have hdecides : Decides again
      (fun j => (Watch.attempt outcome
        (visit (Watch.attempt outcome) Watch.sleep b.normalized ⟨start, []⟩ j)).1)
      (max 1 attempts) last := by
    rw [hb.normalized_eq, hattempts]
    simp only [visit_watch]
    exact ⟨h.asks, h.lt_attempts, h.stops⟩
  rw [poll_eq_visit hdecides, hb.normalized_eq, visit_watch, Watch.attempt, List.range_succ,
    List.map_append]
  rfl

end Backoff

end FragmentRelay
