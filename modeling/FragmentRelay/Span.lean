/-!
# Spans: lengths of time that stop at a ceiling

A span counts nanoseconds up to `limit`, which is one nanosecond less than 2^64 seconds. Arithmetic
on spans stops at the limit instead of failing.

* `nanos_ofNanos`: building a span cuts a count at the limit.
* `nanos_scale`: so does multiplying.
-/

namespace FragmentRelay

/-- The longest span in nanoseconds. -/
def Span.limit : Nat := UInt64.size * 1000000000 - 1

/-- A length of time in nanoseconds. -/
structure Span where
  nanos : Nat
  le_limit : nanos ≤ Span.limit
deriving DecidableEq

namespace Span

/-- A count of nanoseconds, cut at the limit. -/
def ofNanos (n : Nat) : Span := ⟨min n limit, Nat.min_le_right _ _⟩

/-- A count of milliseconds, cut at the limit. -/
def ofMillis (n : Nat) : Span := ofNanos (n * 1000000)

/-- A count of seconds, cut at the limit. -/
def ofSeconds (n : Nat) : Span := ofNanos (n * 1000000000)

/-- The whole milliseconds of a span. -/
def millis (s : Span) : Nat := s.nanos / 1000000

instance : LE Span := ⟨fun s t => s.nanos ≤ t.nanos⟩

instance (s t : Span) : Decidable (s ≤ t) := inferInstanceAs (Decidable (s.nanos ≤ t.nanos))

instance : Min Span := ⟨fun s t => if s ≤ t then s else t⟩

instance : Max Span := ⟨fun s t => if s ≤ t then t else s⟩

/-- A span multiplied by a factor, cut at the limit. -/
def scale (s : Span) (k : Nat) : Span := ofNanos (s.nanos * k)

theorem ext_nanos {s t : Span} (h : s.nanos = t.nanos) : s = t := by
  cases s; cases t; cases h; rfl

@[simp] theorem nanos_ofNanos (n : Nat) : (ofNanos n).nanos = min n limit := rfl

@[simp] theorem nanos_scale (s : Span) (k : Nat) :
    (s.scale k).nanos = min (s.nanos * k) limit := rfl

theorem le_iff {s t : Span} : s ≤ t ↔ s.nanos ≤ t.nanos := Iff.rfl

@[simp] theorem nanos_min (s t : Span) : (min s t).nanos = min s.nanos t.nanos := by
  show (if s ≤ t then s else t).nanos = _
  by_cases h : s ≤ t
  · rw [if_pos h, Nat.min_eq_left h]
  · rw [if_neg h]
    rw [le_iff] at h
    omega

@[simp] theorem nanos_max (s t : Span) : (max s t).nanos = max s.nanos t.nanos := by
  show (if s ≤ t then t else s).nanos = _
  by_cases h : s ≤ t
  · rw [if_pos h, Nat.max_eq_right h]
  · rw [if_neg h]
    rw [le_iff] at h
    omega

end Span

end FragmentRelay
