import FragmentRelay.Proofs.Store.Locality
import Mathlib.Tactic.Common

/-!
# Deadlines: entries that vanish, and purges that nothing sees

A value that is kept for a span reads as it was written until its deadline, and as absent from then
on. No key occurs twice in a store, so a purge takes away exactly the entries that have reached
their deadlines. These cannot be read at the time of the purge or later. So no computation goes
another way because there was a purge before it.

* `find?_self_of_set`: what a write leaves under its key.
* `get_of_deadline`: the deadline itself is too late.
* `Access.nodup_keys_alone`: no key occurs twice, whatever is run.
* `find?_purge`: what a purge leaves.
* `SameFrom.purge`, `Access.alone_same`: a purge is not seen, and what is run next keeps that so.
-/

namespace FragmentRelay

theorem Entry.live_of_le {e : Entry} {now later : Instant} (hle : now ≤ later)
    (h : e.live later = true) : e.live now = true := by
  cases hd : e.deadline with
  | none => simp [live, hd]
  | some t =>
    simp only [live, hd, decide_eq_true_eq] at h ⊢
    exact Nat.lt_of_le_of_lt hle h

namespace Store

variable {s s' t : Store} {now later clock : Instant} {key : Key} {bytes : Octets}

/-! ### Values with a deadline -/

theorem set_of_lt {ttl : Span} (h : now + ttl.nanos < Instant.horizon) (key : Key)
    (bytes : Octets) :
    s.set now key bytes (some ttl) = some (s.insert key ⟨bytes, some (now + ttl.nanos)⟩) := by
  simp [set, deadlineAfter, h]

theorem set_of_horizon_le {ttl : Span} (h : Instant.horizon ≤ now + ttl.nanos) (key : Key)
    (bytes : Octets) : s.set now key bytes (some ttl) = none := by
  simp only [set, deadlineAfter, if_neg (Nat.not_lt.2 h)]

theorem exists_set (s : Store) (key : Key) (bytes : Octets) {ttl : Option Span}
    (h : ∀ span ∈ ttl, now + span.nanos < Instant.horizon) :
    ∃ s', s.set now key bytes ttl = some s' := by
  cases ttl with
  | none => exact ⟨_, rfl⟩
  | some span => exact ⟨_, set_of_lt (h span rfl) key bytes⟩

theorem find?_self_of_set {ttl : Option Span} (h : s.set now key bytes ttl = some s') :
    s'.find? key = some ⟨bytes, ttl.map fun span => now + span.nanos⟩ := by
  cases ttl with
  | none =>
    cases h
    exact find?_insert_self _ _ _
  | some span =>
    simp only [set, deadlineAfter] at h
    split at h
    · cases h
    · rename_i hdeadline
      split at hdeadline
      · cases h
        cases hdeadline
        exact find?_insert_self _ _ _
      · cases hdeadline

theorem lt_horizon_of_set {ttl : Option Span} (h : s.set now key bytes ttl = some s') :
    ∀ span ∈ ttl, now + span.nanos < Instant.horizon := by
  rintro span rfl
  by_contra hlate
  simp [set, deadlineAfter, hlate] at h

/-- **A value is read until its deadline, and not at it.** -/
theorem get_of_deadline {u : Instant} (h : s.find? key = some ⟨bytes, some u⟩) :
    s.get now key = if now < u then some bytes else none := by
  by_cases hu : now < u <;> simp [get, live?, h, Option.filter, Entry.live, hu]

/-! ### No key occurs twice -/

theorem nodup_keys_insert (h : s.keys.Nodup) (key : Key) (e : Entry) :
    (s.insert key e).keys.Nodup := by
  have hl : ∀ l : List (Key × Entry), (⟨l⟩ : Store).keys.Nodup →
      ((⟨l⟩ : Store).insert key e).keys.Nodup := by
    intro l
    induction l with
    | nil => simp [keys, insert, replace]
    | cons p r ih =>
      obtain ⟨k, old⟩ := p
      intro h
      obtain ⟨hk, hr⟩ := List.nodup_cons.1 h
      by_cases hsame : k = key
      · simpa [keys, insert, replace, hsame] using h
      · simp only [keys, insert, replace, hsame, if_false, List.map_cons, List.nodup_cons]
        refine ⟨fun hin => ?_, ih hr⟩
        exact ((mem_keys_insert (s := ⟨r⟩)).1 hin).elim hsame hk
  exact hl s.entries h

theorem nodup_keys_set {ttl : Option Span} (h : s.keys.Nodup)
    (hs : s.set now key bytes ttl = some s') : s'.keys.Nodup := by
  unfold set at hs
  split at hs
  · cases hs
    exact nodup_keys_insert h key _
  · split at hs
    · cases hs
    · cases hs
      exact nodup_keys_insert h key _

theorem nodup_keys_increment {v : Int} (h : s.keys.Nodup) (hi : s.increment now key = .ok (v, s')) :
    s'.keys.Nodup := by
  unfold increment at hi
  split at hi
  · cases hi
    exact nodup_keys_insert h key _
  · split at hi
    · cases hi
    · split at hi
      · cases hi
        exact nodup_keys_insert h key _
      · cases hi

theorem nodup_keys_purge (h : s.keys.Nodup) (now : Instant) : (s.purge now).keys.Nodup :=
  h.sublist (List.filter_sublist.map _)

theorem mem_entries_iff {e : Entry} (h : s.keys.Nodup) :
    (key, e) ∈ s.entries ↔ s.find? key = some e := by
  have hl : ∀ l : List (Key × Entry), (l.map (·.1)).Nodup →
      ((key, e) ∈ l ↔ lookup key l = some e) := by
    intro l
    induction l with
    | nil => simp [lookup]
    | cons p r ih =>
      obtain ⟨k, old⟩ := p
      intro h
      obtain ⟨hk, hr⟩ := List.nodup_cons.1 h
      by_cases hsame : k = key
      · subst hsame
        have hout : (k, e) ∉ r := fun hmem => hk (List.mem_map.2 ⟨_, hmem, rfl⟩)
        simp [lookup, hout, eq_comm]
      · simp [lookup, hsame, Ne.symm hsame, ih hr]
  exact hl s.entries h

/-! ### Purges -/

/-- **A purge leaves exactly the entries that are live.** -/
theorem find?_purge (h : s.keys.Nodup) (now : Instant) (key : Key) :
    (s.purge now).find? key = s.live? now key := by
  have hl : ∀ l : List (Key × Entry), (⟨l⟩ : Store).keys.Nodup →
      ((⟨l⟩ : Store).purge now).find? key = (⟨l⟩ : Store).live? now key := by
    intro l
    induction l with
    | nil => exact fun _ => rfl
    | cons p r ih =>
      obtain ⟨k, e⟩ := p
      intro h
      obtain ⟨hk, hr⟩ := List.nodup_cons.1 h
      have ih := ih hr
      simp only [find?, live?, purge] at ih ⊢
      by_cases hsame : k = key
      · subst hsame
        cases hlive : e.live now with
        | true => simp [lookup, hlive, Option.filter]
        | false =>
          have habsent : lookup k r = none := lookup_eq_none_iff.2 hk
          rw [List.filter_cons_of_neg (by simp [hlive]), ih, habsent]
          simp [lookup, hlive, Option.filter]
      · rw [List.filter_cons]
        split <;> simpa [lookup, hsame] using ih
  exact hl s.entries h

theorem live?_insert (s : Store) (key other : Key) (e : Entry) (now : Instant) :
    (s.insert key e).live? now other = if other = key then (some e).filter (·.live now)
      else s.live? now other := by
  rw [live?, find?_insert]
  split <;> rfl

/-- From an instant on, two stores have the same live entries. -/
def SameFrom (clock : Instant) (s t : Store) : Prop :=
  ∀ now, clock ≤ now → ∀ key, s.live? now key = t.live? now key

namespace SameFrom

theorem refl (clock : Instant) (s : Store) : SameFrom clock s s := fun _ _ _ => rfl

theorem mono (h : SameFrom clock s t) (hle : clock ≤ later) : SameFrom later s t :=
  fun now hnow => h now (Nat.le_trans hle hnow)

/-- **No later request tells a purged store from the one before.** -/
theorem purge (h : SameFrom clock s t) (hs : s.keys.Nodup) : SameFrom clock (s.purge clock) t := by
  intro now hnow key
  rw [← h now hnow key, live?, find?_purge hs, live?, live?, Option.filter_filter]
  congr 1
  funext e
  cases hlive : e.live now with
  | false => rw [Bool.and_false]
  | true => rw [Entry.live_of_le hnow hlive, Bool.and_self]

theorem insert (h : SameFrom clock s t) (key : Key) (e : Entry) :
    SameFrom clock (s.insert key e) (t.insert key e) := by
  intro now hnow other
  rw [live?_insert, live?_insert, h now hnow other]

theorem indistinct (hle : clock ≤ now) : Indistinct (fun _ => True) now (SameFrom clock) where
  live?_eq h _ := h now hle _
  insert h key e := h.insert key e

end SameFrom

end Store

/-! ### Computations -/

namespace Access

open Store

variable {α σ : Type} {a : Access α} {s t : Store} {now clock : Instant}

/-- **No key occurs twice after a computation, whatever fails.** -/
theorem nodup_keys_run (h : s.keys.Nodup) (a : Access α) (faults : Faults σ)
    (now : Instant) (w : σ) : (a.run faults now w s).2.2.keys.Nodup := by
  induction a generalizing w s with
  | done a => exact h
  | crash text => exact h
  | get key next ih =>
    simp only [run]
    split
    · exact ih _ h _
    · exact ih _ h _
    · exact h
  | set key bytes ttl next ih =>
    simp only [run]
    split
    · split
      · rename_i hs
        exact ih _ (nodup_keys_set h hs) _
      · exact h
    · exact ih _ h _
    · exact h
  | increment key next ih =>
    simp only [run]
    split
    · split
      · rename_i hi
        exact ih _ (nodup_keys_increment h hi) _
      · exact ih _ h _
    · exact ih _ h _
    · exact h

theorem nodup_keys_alone (h : s.keys.Nodup) (a : Access α) (now : Instant) :
    (a.alone now s).2.keys.Nodup :=
  nodup_keys_run h a Faults.none now ()

/-- **A computation goes the same way on two stores that have the same live entries.** -/
theorem alone_same (h : SameFrom clock s t) (hle : clock ≤ now) (a : Access α) :
    (a.alone now s).1 = (a.alone now t).1 ∧ SameFrom clock (a.alone now s).2 (a.alone now t).2 :=
  alone_indistinct (SameFrom.indistinct hle) a.touchesOnly_any h

/-- What a computation reads from one of two stores with the same live entries, it reads from the
other. -/
theorem ReadOnly.alone_same (ha : a.ReadOnly) (h : SameFrom clock s t)
    (hle : clock ≤ now) {r : Outcome α} (hr : a.alone now t = (r, t)) : a.alone now s = (r, s) := by
  have hvalue : (a.alone now s).1 = r := by rw [(Access.alone_same h hle a).1, hr]
  exact Prod.ext hvalue (ha.run_store Faults.none now () s)

end Access

end FragmentRelay
