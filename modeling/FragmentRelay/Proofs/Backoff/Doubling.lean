import FragmentRelay.Proofs.Reassembly.Polling
import Mathlib.Algebra.Group.Nat.Defs
import Mathlib.Logic.Function.Iterate

/-!
# Doubling: one schedule in two forms

A delay can be worked out from the number of the attempt, or from the delay before it. The first
form doubles the initial delay at most 31 times at once, the second doubles once and is cut at the
ceiling each time. A ceiling is a span itself, so it lies below the limit of spans and the limit is
never seen in either form (`nanos_delayAfter`, `nanos_next`). The two forms agree as long as the
first one goes on doubling; after that they agree exactly if the ceiling has been reached by then.

* `Span.scale_eq_scaleWords`: a span is multiplied as its seconds and the nanoseconds beyond them
  are.
* `Backoff.next_delayAfter`: one step while the first form doubles.
* `Backoff.Normal.next_delayAfter_iff`: one step after that.
* `Backoff.one_schedule`: the two forms side by side.
-/

namespace FragmentRelay

/-! ### Spans as words -/

namespace Span

/-- The longest span. -/
def longest : Span := ⟨limit, Nat.le_refl _⟩

/-- The whole seconds of a span, a word of 64 bits. -/
def seconds (s : Span) : UInt64 := UInt64.ofNat (s.nanos / 1000000000)

/-- The nanoseconds of a span beyond its whole seconds. -/
def beyond (s : Span) : Nat := s.nanos % 1000000000

theorem seconds_beyond (s : Span) : s.seconds.toNat * 1000000000 + s.beyond = s.nanos := by
  have hlimit := s.le_limit
  simp only [limit, UInt64.size] at hlimit
  simp only [seconds, beyond, UInt64.toNat_ofNat']
  omega

/-- The product of a span with a word, if its seconds fit their word. Seconds and nanoseconds are
multiplied on their own, and whole seconds of the latter are carried. -/
def scaleWords? (s : Span) (k : UInt32) : Option Span :=
  let carried := s.beyond * k.toNat
  let total := s.seconds.toNat * k.toNat + carried / 1000000000
  if h : total < UInt64.size then
    some ⟨total * 1000000000 + carried % 1000000000,
      by simp only [limit, UInt64.size] at h ⊢; omega⟩
  else none

/-- **A span is multiplied as its two words are**, and the product is the longest span where these
overflow. -/
theorem scale_eq_scaleWords (s : Span) (k : UInt32) :
    s.scale k.toNat = (s.scaleWords? k).getD longest := by
  have hcarry := Nat.div_add_mod (s.beyond * k.toNat) 1000000000
  have hrest := Nat.mod_lt (s.beyond * k.toNat) (by decide : 0 < 1000000000)
  refine ext_nanos ?_
  rw [nanos_scale, ← seconds_beyond, Nat.add_mul, Nat.mul_right_comm, scaleWords?]
  split
  · rename_i hfit
    simp only [Option.getD_some, limit, UInt64.size] at hfit ⊢
    omega
  · rename_i hover
    simp only [Option.getD_none, longest, limit, UInt64.size] at hover ⊢
    omega

end Span

namespace Backoff

variable {b : Backoff} {d : Span} {j k : Nat}

/-! ### The two forms without the limit -/

theorem nanos_delayAfter (b : Backoff) (k : Nat) :
    (b.delayAfter k).nanos = min (b.initial.nanos * 2 ^ doublings k) b.ceiling.nanos := by
  have := b.ceiling.le_limit
  rw [delayAfter, Span.nanos_min, Span.nanos_scale, Nat.one_shiftLeft]
  omega

theorem nanos_next (b : Backoff) (d : Span) :
    (b.next d).nanos = min (d.nanos * 2) b.ceiling.nanos := by
  have := b.ceiling.le_limit
  rw [next, Span.nanos_min, Span.nanos_scale]
  omega

/-! ### The number of doublings -/

theorem doublings_mono (h : j ≤ k) : doublings j ≤ doublings k := by
  unfold doublings
  omega

theorem doublings_succ (hpos : 1 ≤ k) (hle : k ≤ 31) : doublings (k + 1) = doublings k + 1 := by
  unfold doublings
  omega

theorem doublings_of_le (h : 32 ≤ k) : doublings k = 31 := by
  unfold doublings
  omega

/-! ### One step -/

/-- **A delay is the one before it doubled**, as long as the first form goes on doubling. -/
theorem next_delayAfter (b : Backoff) (hpos : 1 ≤ k) (hle : k ≤ 31) :
    b.next (b.delayAfter k) = b.delayAfter (k + 1) := by
  refine Span.ext_nanos ?_
  have hdouble : b.initial.nanos * 2 ^ doublings (k + 1) =
      b.initial.nanos * 2 ^ doublings k * 2 := by
    rw [doublings_succ hpos hle, pow_succ, Nat.mul_assoc]
  rw [nanos_next, nanos_delayAfter, nanos_delayAfter, hdouble]
  omega

theorem delayAfter_of_le (b : Backoff) (h : 32 ≤ k) : b.delayAfter k = b.delayAfter 32 := by
  rw [delayAfter, delayAfter, doublings_of_le h, doublings_of_le (Nat.le_refl 32)]

/-- **After the doublings a step agrees exactly if the ceiling has been reached.** -/
theorem Normal.next_delayAfter_iff (hb : b.Normal) (h : 32 ≤ k) :
    b.delayAfter (k + 1) = b.next (b.delayAfter k) ↔
    b.ceiling.nanos ≤ 2 ^ 31 * b.initial.nanos := by
  have hpos : 0 < b.initial.nanos := Nat.lt_of_lt_of_le (by decide) (Span.le_iff.1 hb.shortest_le)
  have hlast : (b.delayAfter 32).nanos = min (2 ^ 31 * b.initial.nanos) b.ceiling.nanos := by
    rw [nanos_delayAfter, doublings_of_le (Nat.le_refl 32), Nat.mul_comm]
  have hstep := nanos_next b (b.delayAfter 32)
  rw [b.delayAfter_of_le h, b.delayAfter_of_le (Nat.le_succ_of_le h)]
  constructor
  · intro he
    rw [← he, hlast] at hstep
    omega
  · intro hle
    refine Span.ext_nanos ?_
    rw [hstep, hlast]
    omega

/-! ### Whole schedules -/

theorem delayAfter_mono (b : Backoff) (h : j ≤ k) : b.delayAfter j ≤ b.delayAfter k := by
  have hgrow : b.initial.nanos * 2 ^ doublings j ≤ b.initial.nanos * 2 ^ doublings k :=
    Nat.mul_le_mul_left _ (Nat.pow_le_pow_right (by decide) (doublings_mono h))
  rw [Span.le_iff, nanos_delayAfter, nanos_delayAfter]
  omega

theorem delayAfter_le_ceiling (b : Backoff) (k : Nat) : b.delayAfter k ≤ b.ceiling := by
  rw [Span.le_iff, nanos_delayAfter]
  exact Nat.min_le_right _ _

theorem Normal.delayAfter_one (hb : b.Normal) : b.delayAfter 1 = b.initial := by
  have hle := Span.le_iff.1 hb.initial_le
  refine Span.ext_nanos ?_
  rw [nanos_delayAfter]
  simp only [doublings, Nat.sub_self, Nat.zero_min, pow_zero, Nat.mul_one]
  omega

theorem Normal.initial_le_delayAfter (hb : b.Normal) (k : Nat) : b.initial ≤ b.delayAfter k := by
  have hfirst : b.delayAfter 0 = b.initial := hb.delayAfter_one
  rw [← hfirst]
  exact b.delayAfter_mono (Nat.zero_le k)

/-- Doubling the initial delay step by step leads through the delays, as long as each step does. -/
theorem Normal.iterate_next (hb : b.Normal) {n : Nat}
    (hsteps : ∀ k, 1 ≤ k → k ≤ n → b.delayAfter (k + 1) = b.next (b.delayAfter k)) (hk : k ≤ n) :
    b.next^[k] b.initial = b.delayAfter (k + 1) := by
  induction k with
  | zero => exact hb.delayAfter_one.symm
  | succ k ih =>
    rw [Function.iterate_succ_apply', ih (Nat.le_of_succ_le hk),
      hsteps (k + 1) (Nat.le_add_left 1 k) hk]

/-- **The two forms of a back-off describe one schedule.** The next delay is the one before it
doubled and cut at the ceiling for the first 31 attempts; at the later ones that is so exactly if
the ceiling is at most 2^31 times the initial delay. -/
theorem one_schedule (b : Backoff) :
    let n := b.normalized
    let Steps (k : Nat) : Prop := n.delayAfter (k + 1) = n.next (n.delayAfter k)
    let Reached : Prop := n.ceiling.nanos ≤ 2 ^ 31 * n.initial.nanos
    (Span.ofMillis 1 ≤ n.initial ∧ n.initial ≤ n.ceiling) ∧
    (Span.ofMillis 1 ≤ b.initial → b.initial ≤ b.ceiling → n = b) ∧ n.normalized = n ∧
    (∀ j k, j ≤ k → n.delayAfter j ≤ n.delayAfter k) ∧
    (∀ k, n.initial ≤ n.delayAfter k ∧ n.delayAfter k ≤ n.ceiling) ∧
    n.delayAfter 0 = n.initial ∧ n.delayAfter 1 = n.initial ∧
    (∀ k, 1 ≤ k → k ≤ 31 → Steps k) ∧
    (∀ k ≤ 31, n.next^[k] n.initial = n.delayAfter (k + 1)) ∧
    (∀ k, 32 ≤ k → (Steps k ↔ Reached)) ∧
    ((∀ k, 1 ≤ k → Steps k) ↔ Reached) ∧
    ∀ (s : Span) (k : UInt32), s.scale k.toNat = (s.scaleWords? k).getD Span.longest := by
  intro n Steps Reached
  have hn : n.Normal := normal_normalized b
  have hearly : ∀ k, 1 ≤ k → k ≤ 31 → Steps k := fun k hpos hle => (n.next_delayAfter hpos hle).symm
  have hlate : ∀ k, 32 ≤ k → (Steps k ↔ Reached) := fun k h => hn.next_delayAfter_iff h
  refine ⟨⟨hn.shortest_le, hn.initial_le⟩, fun hfirst hlast => Normal.normalized_eq ⟨hfirst, hlast⟩,
    hn.normalized_eq, fun j k => n.delayAfter_mono,
    fun k => ⟨hn.initial_le_delayAfter k, n.delayAfter_le_ceiling k⟩, hn.delayAfter_one,
    hn.delayAfter_one, hearly, fun k hk => hn.iterate_next hearly hk, hlate,
    ⟨fun hall => ?_, fun hreached k hpos => ?_⟩, Span.scale_eq_scaleWords⟩
  · exact (hlate 32 (Nat.le_refl 32)).1 (hall 32 (by decide))
  · rcases Nat.lt_or_ge 31 k with hk | hk
    · exact (hlate k hk).2 hreached
    · exact hearly k hpos hk

/-- A schedule whose ceiling is above all doublings of its initial delay. -/
def wideSchedule : Backoff := ⟨Span.ofMillis 1, Span.ofSeconds 3000000⟩

theorem wideSchedule_parts :
    Span.ofMillis 1 ≤ wideSchedule.initial ∧ wideSchedule.initial ≤ wideSchedule.ceiling ∧
      wideSchedule.delayAfter 32 = wideSchedule.next (wideSchedule.delayAfter 31) ∧
      wideSchedule.delayAfter 33 ≠ wideSchedule.next (wideSchedule.delayAfter 32) := by
  obtain ⟨-, hnormal, -, -, -, -, -, hearly, -, hlate, -⟩ := one_schedule wideSchedule
  have hsame : wideSchedule.normalized = wideSchedule := hnormal (by decide) (by decide)
  simp only [hsame] at hearly hlate
  refine ⟨by decide, by decide, hearly 31 (by decide) (Nat.le_refl 31), fun hstep => ?_⟩
  exact absurd ((hlate 32 (Nat.le_refl 32)).1 hstep) (by decide)

end Backoff

end FragmentRelay
