import FragmentRelay.Proofs.Store.Requests
import Mathlib.Tactic.Common

/-!
# Locality: computations that touch few keys

A computation that names only some keys in its requests sees nothing of the rest of the store and
leaves it alone. So it takes the same steps, with the same outcome, on any two stores that agree on
its keys, and they agree after it. The same holds of all pairs of stores that its requests cannot
tell apart.

* `Access.step_indistinct`, `Access.step_elsewhere`: one request.
* `Access.alone_indistinct`: a whole computation that is run alone.
-/

namespace FragmentRelay

namespace Store

variable {K : Key → Prop} {s t : Store} {now : Instant} {key : Key}

/-- Two stores have the same values and deadlines under some keys. -/
def AgreeOn (K : Key → Prop) (s t : Store) : Prop := ∀ key, K key → s.find? key = t.find? key

theorem AgreeOn.insert (h : AgreeOn K s t) (key : Key) (e : Entry) :
    AgreeOn K (s.insert key e) (t.insert key e) := by
  intro other hother
  rw [find?_insert, find?_insert, h other hother]

/-- A relation between stores that no request for some keys at an instant can tell apart: the keys
have the same live entries, and what is written keeps that so. -/
structure Indistinct (K : Key → Prop) (now : Instant) (R : Store → Store → Prop) : Prop where
  live?_eq : ∀ {s t key}, R s t → K key → s.live? now key = t.live? now key
  insert : ∀ {s t}, R s t → ∀ key e, R (s.insert key e) (t.insert key e)

theorem indistinct_agreeOn (K : Key → Prop) (now : Instant) : Indistinct K now (AgreeOn K) where
  live?_eq h hk := by rw [live?, live?, h _ hk]
  insert h key e := h.insert key e

namespace Indistinct

variable {R : Store → Store → Prop}

theorem get_eq (hR : Indistinct K now R) (h : R s t) (hk : K key) :
    s.get now key = t.get now key := by
  rw [get, get, hR.live?_eq h hk]

theorem set (hR : Indistinct K now R) (h : R s t) (key : Key) (bytes : Octets) (ttl : Option Span) :
    (s.set now key bytes ttl = none ∧ t.set now key bytes ttl = none) ∨
      ∃ s' t', s.set now key bytes ttl = some s' ∧ t.set now key bytes ttl = some t' ∧ R s' t' := by
  unfold Store.set
  split
  · exact .inr ⟨_, _, rfl, rfl, hR.insert h key _⟩
  · split
    · exact .inl ⟨rfl, rfl⟩
    · exact .inr ⟨_, _, rfl, rfl, hR.insert h key _⟩

theorem increment (hR : Indistinct K now R) (h : R s t) (hk : K key) :
    (∃ e, s.increment now key = .error e ∧ t.increment now key = .error e) ∨
      ∃ v s' t', s.increment now key = .ok (v, s') ∧
        t.increment now key = .ok (v, t') ∧ R s' t' := by
  unfold Store.increment
  rw [hR.live?_eq h hk]
  cases t.live? now key with
  | none => exact .inr ⟨_, _, _, rfl, rfl, hR.insert h key _⟩
  | some e =>
    simp only
    split
    · exact .inl ⟨_, rfl, rfl⟩
    · split
      · exact .inr ⟨_, _, _, rfl, rfl, hR.insert h key _⟩
      · exact .inl ⟨_, rfl, rfl⟩

end Indistinct

end Store

namespace Access

open Store

variable {α β : Type} {K L : Key → Prop} {a a' : Access α} {s s' t : Store} {now : Instant}

/-- Every request names a key of the given kind. -/
def TouchesOnly (K : Key → Prop) : Access α → Prop
  | done _ => True
  | crash _ => True
  | get key next => K key ∧ ∀ r, (next r).TouchesOnly K
  | set key _ _ next => K key ∧ ∀ r, (next r).TouchesOnly K
  | increment key next => K key ∧ ∀ r, (next r).TouchesOnly K

theorem TouchesOnly.writesOnly (h : a.TouchesOnly K) : a.WritesOnly K := by
  induction a with
  | done a => trivial
  | crash text => trivial
  | get key next ih => exact fun r => ih r (h.2 r)
  | set key bytes ttl next ih => exact ⟨h.1, fun r => ih r (h.2 r)⟩
  | increment key next ih => exact ⟨h.1, fun r => ih r (h.2 r)⟩

theorem TouchesOnly.mono (h : a.TouchesOnly K) (hKL : ∀ key, K key → L key) : a.TouchesOnly L := by
  induction a with
  | done a => trivial
  | crash text => trivial
  | get key next ih => exact ⟨hKL _ h.1, fun r => ih r (h.2 r)⟩
  | set key bytes ttl next ih => exact ⟨hKL _ h.1, fun r => ih r (h.2 r)⟩
  | increment key next ih => exact ⟨hKL _ h.1, fun r => ih r (h.2 r)⟩

theorem TouchesOnly.bind {f : α → Access β} (ha : a.TouchesOnly K) (hf : ∀ x, (f x).TouchesOnly K) :
    (a.bind f).TouchesOnly K := by
  induction a with
  | done a => exact hf a
  | crash text => trivial
  | get key next ih => exact ⟨ha.1, fun r => ih r (ha.2 r)⟩
  | set key bytes ttl next ih => exact ⟨ha.1, fun r => ih r (ha.2 r)⟩
  | increment key next ih => exact ⟨ha.1, fun r => ih r (ha.2 r)⟩

theorem touchesOnly_any (a : Access α) : a.TouchesOnly fun _ => True := by
  induction a with
  | done a => trivial
  | crash text => trivial
  | get key next ih => exact ⟨trivial, ih⟩
  | set key bytes ttl next ih => exact ⟨trivial, ih⟩
  | increment key next ih => exact ⟨trivial, ih⟩

/-- **A request is carried out alike on two stores that it cannot tell apart.** -/
theorem step_indistinct {R : Store → Store → Prop} (hR : Indistinct K now R)
    (ha : a.TouchesOnly K) (h : R s t) :
    (a.step now s = none ∧ a.step now t = none) ∨
      ∃ a' s' t', a.step now s = some (a', s') ∧ a.step now t = some (a', t') ∧ R s' t' := by
  cases a with
  | done x => exact .inl ⟨rfl, rfl⟩
  | crash text => exact .inl ⟨rfl, rfl⟩
  | get key next =>
    refine .inr ⟨_, s, t, rfl, ?_, h⟩
    rw [step, hR.get_eq h ha.1]
  | set key bytes ttl next =>
    rcases hR.set h key bytes ttl with ⟨hs, ht⟩ | ⟨s', t', hs, ht, h'⟩
    · exact .inl (by simp [step, hs, ht])
    · exact .inr ⟨_, s', t', by rw [step, hs]; rfl, by rw [step, ht]; rfl, h'⟩
  | increment key next =>
    rcases hR.increment h ha.1 with ⟨e, hs, ht⟩ | ⟨v, s', t', hs, ht, h'⟩
    · exact .inr ⟨_, s, t, by rw [step, hs], by rw [step, ht], h⟩
    · exact .inr ⟨_, s', t', by rw [step, hs], by rw [step, ht], h'⟩

/-- **A computation goes the same way on two stores that its requests cannot tell apart.** -/
theorem alone_indistinct {R : Store → Store → Prop} (hR : Indistinct K now R)
    (ha : a.TouchesOnly K) (h : R s t) :
    (a.alone now s).1 = (a.alone now t).1 ∧ R (a.alone now s).2 (a.alone now t).2 := by
  induction a generalizing s t with
  | done x => exact ⟨rfl, h⟩
  | crash text => exact ⟨rfl, h⟩
  | get key next ih =>
    rw [alone_get, alone_get, hR.get_eq h ha.1]
    exact ih _ (ha.2 _) h
  | set key bytes ttl next ih =>
    rcases hR.set h key bytes ttl with ⟨hs, ht⟩ | ⟨s', t', hs, ht, h'⟩
    · simpa [alone, run, Faults.none, hs, ht] using h
    · rw [alone_set_ok hs, alone_set_ok ht]
      exact ih _ (ha.2 _) h'
  | increment key next ih =>
    rcases hR.increment h ha.1 with ⟨e, hs, ht⟩ | ⟨v, s', t', hs, ht, h'⟩
    · rw [alone_increment_error hs, alone_increment_error ht]
      exact ih _ (ha.2 _) h
    · rw [alone_increment_ok hs, alone_increment_ok ht]
      exact ih _ (ha.2 _) h'

theorem step_agree (ha : a.TouchesOnly K) (h : AgreeOn K s t) (now : Instant) :
    (a.step now s = none ∧ a.step now t = none) ∨
      ∃ a' s' t', a.step now s = some (a', s') ∧ a.step now t = some (a', t') ∧ AgreeOn K s' t' :=
  step_indistinct (indistinct_agreeOn K now) ha h

theorem alone_agree (ha : a.TouchesOnly K) (h : AgreeOn K s t) (now : Instant) :
    (a.alone now s).1 = (a.alone now t).1 ∧ AgreeOn K (a.alone now s).2 (a.alone now t).2 :=
  alone_indistinct (indistinct_agreeOn K now) ha h

theorem TouchesOnly.of_step (ha : a.TouchesOnly K) (hs : a.step now s = some (a', s')) :
    a'.TouchesOnly K := by
  cases a with
  | done x => cases hs
  | crash text => cases hs
  | get key next =>
    cases hs
    exact ha.2 _
  | set key bytes ttl next =>
    obtain ⟨_, -, he⟩ := Option.map_eq_some_iff.1 hs
    cases he
    exact ha.2 _
  | increment key next =>
    simp only [step] at hs
    split at hs <;> cases hs <;> exact ha.2 _

/-- **A request leaves all other keys alone.** -/
theorem step_elsewhere (ha : a.TouchesOnly K) (hs : a.step now s = some (a', s')) {key : Key}
    (hk : ¬ K key) : s'.find? key = s.find? key := by
  cases a with
  | done x => cases hs
  | crash text => cases hs
  | get other next =>
    cases hs
    rfl
  | set other bytes ttl next =>
    obtain ⟨_, hset, he⟩ := Option.map_eq_some_iff.1 hs
    cases he
    exact find?_of_set hset fun he => hk (he ▸ ha.1)
  | increment other next =>
    simp only [step] at hs
    split at hs
    · rename_i hincrement
      cases hs
      exact find?_of_increment hincrement fun he => hk (he ▸ ha.1)
    · cases hs
      rfl

end Access

end FragmentRelay
