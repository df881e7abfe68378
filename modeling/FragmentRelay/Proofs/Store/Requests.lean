import FragmentRelay.Store.Access
import Mathlib.Tactic.Common

/-!
# Requests: what the store answers and what it keeps

The store is seen through `find?`, the entry under each key. This module says what the three
requests do to that view, for values without a deadline, and how a computation is run request by
request.

* `Counter.decode_encode`: a counter that is written is read back.
* `Store.increment_absent`, `Store.increment_counter`, `Store.increment_highest`: the three cases of
  counting.
* `Access.run_bind`, `Access.run_of_passing`: running two computations in a row, and running where
  nothing fails.
* `Access.requests_bind`: the requests that two computations in a row make.
* `Access.WritesOnly`: a computation that writes only under some keys leaves all other entries as
  they were, whatever fails (`find?_run`).
-/

namespace FragmentRelay

/-! ### Counters as text -/

namespace Octets

@[simp] theorem toText?_ofText (s : String) : (ofText s).toText? = some s := by
  have h : ByteArray.IsValidUTF8 s.toByteArray := s.isValidUTF8
  simp [toText?, ofText, String.fromUTF8?, String.fromUTF8, h]

end Octets

namespace Decimal

theorem isBlank_of_isDigit {c : Char} (h : c.isDigit = true) : Text.isBlank c = false := by
  simp only [Char.isDigit, Bool.and_eq_true, decide_eq_true_eq, UInt32.le_iff_toNat_le] at h
  have h₁ : 48 ≤ c.toNat := by simpa using h.1
  have h₂ : c.toNat ≤ 57 := by simpa using h.2
  simp [Text.isBlank, Text.blankRanges]
  omega

theorem trim_ofInt (v : Int) : Text.trim (ofInt v) = ofInt v := by
  have hlast : ∀ n : Nat, ∀ d ∈ (ofNat n).getLast?, Text.isBlank d = false := fun n d hd =>
    isBlank_of_isDigit (isDigit_of_mem_ofNat (List.mem_of_getLast? hd))
  cases v with
  | ofNat n =>
    cases h : ofNat n with
    | nil => exact absurd h (ofNat_ne_nil n)
    | cons c cs =>
      have hc : Text.isBlank c = false :=
        isBlank_of_isDigit (isDigit_of_mem_ofNat (h ▸ List.mem_cons_self))
      obtain ⟨d, hd⟩ :=
        Option.ne_none_iff_exists'.1 (mt List.getLast?_eq_none_iff.1 (List.cons_ne_nil c cs))
      simp only [ofInt, h]
      exact Text.trim_of_not_blank hc (hlast n d (by rw [h]; exact hd)) hd
  | negSucc n =>
    obtain ⟨d, hd⟩ :=
      Option.ne_none_iff_exists'.1 (mt List.getLast?_eq_none_iff.1 (ofNat_ne_nil (n + 1)))
    have hl : ('-' :: ofNat (n + 1)).getLast? = some d := by
      rw [List.getLast?_cons, hd]
      rfl
    exact Text.trim_of_not_blank (by decide) (hlast (n + 1) d hd) hl

end Decimal

namespace Counter

theorem decode_encode {v : Int} (h₁ : lowest ≤ v) (h₂ : v ≤ highest) :
    decode (encode v) = some v := by
  simp only [decode, encode, Octets.toText?_ofText, String.toList_ofList, Decimal.trim_ofInt,
    Decimal.int?_ofInt]
  simp [Option.filter, h₁, h₂]

theorem bounds_of_decode {bytes : Octets} {v : Int} (h : decode bytes = some v) :
    lowest ≤ v ∧ v ≤ highest := by
  unfold decode at h
  split at h
  · cases h
  · exact of_decide_eq_true (Option.filter_eq_some_iff.1 h).2

end Counter

/-! ### Requests seen through `find?` -/

namespace Store

variable {s : Store} {now : Instant} {key : Key} {bytes : Octets}

theorem find?_insert (s : Store) (key other : Key) (e : Entry) :
    (s.insert key e).find? other = if other = key then some e else s.find? other := by
  by_cases h : other = key
  · subst h; simp
  · rw [if_neg h, find?_insert_of_ne h]

@[simp] theorem find?_empty (key : Key) : ({} : Store).find? key = none := rfl

theorem get_of_find?_none (h : s.find? key = none) : s.get now key = none := by
  simp [get, live?, h]

theorem get_of_find?_some (h : s.find? key = some ⟨bytes, none⟩) : s.get now key = some bytes := by
  simp [get, live?, h, Option.filter, Entry.live]

theorem increment_absent (h : s.find? key = none) :
    s.increment now key = .ok (1, s.insert key ⟨Counter.encode 1, none⟩) := by
  simp [increment, live?, h]

theorem increment_counter {v : Int} (h : s.find? key = some ⟨Counter.encode v, none⟩)
    (h₁ : Counter.lowest ≤ v) (h₂ : v < Counter.highest) :
    s.increment now key = .ok (v + 1, s.insert key ⟨Counter.encode (v + 1), none⟩) := by
  simp [increment, live?, h, Option.filter, Entry.live,
    Counter.decode_encode h₁ (Int.le_of_lt h₂), h₂]

theorem increment_highest (h : s.find? key = some ⟨Counter.encode Counter.highest, none⟩) :
    s.increment now key = .error (.notACounter key) := by
  have hd : Counter.decode (Counter.encode Counter.highest) = some Counter.highest :=
    Counter.decode_encode (by decide) (Int.le_refl _)
  simp [increment, live?, h, Option.filter, Entry.live, hd]

theorem find?_of_set {bytes : Octets} {ttl : Option Span} {s' : Store} {other : Key}
    (h : s.set now key bytes ttl = some s') (hne : other ≠ key) :
    s'.find? other = s.find? other := by
  unfold set at h
  split at h
  · cases h; exact find?_insert_of_ne hne
  · split at h
    · cases h
    · cases h; exact find?_insert_of_ne hne

theorem find?_of_increment {v : Int} {s' : Store} {other : Key}
    (h : s.increment now key = .ok (v, s')) (hne : other ≠ key) :
    s'.find? other = s.find? other := by
  unfold increment at h
  split at h
  · cases h; exact find?_insert_of_ne hne
  · split at h
    · cases h
    · split at h
      · cases h; exact find?_insert_of_ne hne
      · cases h

end Store

/-! ### Running computations -/

namespace Access

variable {α β σ : Type}

attribute [local simp] run

@[simp] theorem bind_eq (a : Access α) (f : α → Access β) : (a >>= f) = a.bind f := rfl

@[simp] theorem pure_eq (a : α) : (pure a : Access α) = done a := rfl

@[simp] theorem done_bind (a : α) (f : α → Access β) : (done a).bind f = f a := rfl

@[simp] theorem read_bind (key : Key) (f : Except StoreError (Option Octets) → Access β) :
    (read key).bind f = get key f := rfl

@[simp] theorem write_bind (key : Key) (bytes : Octets) (ttl : Option Span)
    (f : Except StoreError Unit → Access β) :
    (write key bytes ttl).bind f = set key bytes ttl f := rfl

@[simp] theorem count_bind (key : Key) (f : Except StoreError Int → Access β) :
    (count key).bind f = increment key f := rfl

/-- Two computations in a row: the second runs on what the first left, unless that crashed. -/
theorem run_bind (faults : Faults σ) (now : Instant) (a : Access α) (f : α → Access β)
    (w : σ) (s : Store) :
    (a.bind f).run faults now w s =
      match a.run faults now w s with
      | (.value x, w, s) => (f x).run faults now w s
      | (.crashed text, w, s) => (.crashed text, w, s) := by
  induction a generalizing w s with
  | done a => rfl
  | crash text => rfl
  | get key next ih =>
    simp only [bind, run]
    split <;> simp only [ih]
  | set key bytes ttl next ih =>
    simp only [bind, run]
    split
    · split <;> simp only [ih]
    · simp only [ih]
    · rfl
  | increment key next ih =>
    simp only [bind, run]
    split
    · split <;> simp only [ih]
    · simp only [ih]
    · rfl

/-- A computation and its end, when it is run alone on a store that does not fail. -/
def alone (now : Instant) (a : Access α) (s : Store) : Outcome α × Store :=
  ((a.run Faults.none now () s).1, (a.run Faults.none now () s).2.2)

@[simp] theorem alone_done (now : Instant) (a : α) (s : Store) :
    (done a).alone now s = (.value a, s) := rfl

@[simp] theorem alone_get (now : Instant) (key : Key)
    (next : Except StoreError (Option Octets) → Access α) (s : Store) :
    (get key next).alone now s = (next (.ok (s.get now key))).alone now s := rfl

@[simp] theorem alone_set (now : Instant) (key : Key) (bytes : Octets)
    (next : Except StoreError Unit → Access α) (s : Store) :
    (set key bytes none next).alone now s =
      (next (.ok ())).alone now (s.insert key ⟨bytes, none⟩) := rfl

theorem alone_set_ok {now : Instant} {key : Key} {bytes : Octets} {ttl : Option Span}
    {next : Except StoreError Unit → Access α} {s s' : Store}
    (h : s.set now key bytes ttl = some s') :
    (set key bytes ttl next).alone now s = (next (.ok ())).alone now s' := by
  simp [alone, Faults.none, h]

theorem alone_set_none {now : Instant} {key : Key} {bytes : Octets} {ttl : Option Span}
    {next : Except StoreError Unit → Access α} {s : Store} (h : s.set now key bytes ttl = none) :
    (set key bytes ttl next).alone now s = (.crashed Instant.overflowText, s) := by
  simp [alone, Faults.none, h]

theorem alone_increment_ok {now : Instant} {key : Key}
    {next : Except StoreError Int → Access α} {s s' : Store} {v : Int}
    (h : s.increment now key = .ok (v, s')) :
    (increment key next).alone now s = (next (.ok v)).alone now s' := by
  simp [alone, Faults.none, h]

theorem alone_increment_error {now : Instant} {key : Key}
    {next : Except StoreError Int → Access α} {s : Store} {e : StoreError}
    (h : s.increment now key = .error e) :
    (increment key next).alone now s = (next (.error e)).alone now s := by
  simp [alone, Faults.none, h]

theorem alone_bind (now : Instant) (a : Access α) (f : α → Access β) (s : Store) :
    (a.bind f).alone now s =
      match a.alone now s with
      | (.value x, s) => (f x).alone now s
      | (.crashed text, s) => (.crashed text, s) := by
  simp only [alone, run_bind]
  split <;> simp_all

/-- The requests that a computation makes when it is run alone, in order. -/
def requests (now : Instant) : Access α → Store → List Request
  | done _, _ => []
  | crash _, _ => []
  | get key next, s => .get key :: (next (.ok (s.get now key))).requests now s
  | set key bytes ttl next, s =>
    .set key ::
      match s.set now key bytes ttl with
      | some s => (next (.ok ())).requests now s
      | none => []
  | increment key next, s =>
    .increment key ::
      match s.increment now key with
      | .ok (v, s) => (next (.ok v)).requests now s
      | .error e => (next (.error e)).requests now s

/-- Two computations in a row make the requests of the first, and those of the second unless the
first crashed. -/
theorem requests_bind (now : Instant) (a : Access α) (f : α → Access β) (s : Store) :
    (a.bind f).requests now s =
      a.requests now s ++
        match a.alone now s with
        | (.value x, s) => (f x).requests now s
        | (.crashed _, _) => [] := by
  induction a generalizing s with
  | done a => rfl
  | crash text => rfl
  | get key next ih => simp only [bind, requests, alone_get, List.cons_append, ih]
  | set key bytes ttl next ih =>
    simp only [bind, requests, List.cons_append]
    cases hs : s.set now key bytes ttl with
    | none => simp [alone, Faults.none, hs]
    | some s' => simp only [alone_set_ok hs, ih]
  | increment key next ih =>
    simp only [bind, requests, List.cons_append]
    cases hs : s.increment now key with
    | error e => simp only [alone_increment_error hs, ih]
    | ok p =>
      obtain ⟨v, s'⟩ := p
      simp only [alone_increment_ok hs, ih]

/-- A rule that lets every request pass in its present state and stays in that state. -/
def Passing (faults : Faults σ) (w : σ) : Prop := ∀ r, faults w r = (.pass, w)

theorem run_of_passing {faults : Faults σ} {w : σ} (h : Passing faults w) (now : Instant)
    (a : Access α) (s : Store) :
    a.run faults now w s = ((a.alone now s).1, w, (a.alone now s).2) := by
  induction a generalizing s with
  | done a => rfl
  | crash text => rfl
  | get key next ih => rw [run, h (.get key)]; exact ih _ _
  | set key bytes ttl next ih =>
    rw [run, h (.set key)]
    cases hs : s.set now key bytes ttl with
    | none => simp [alone, Faults.none, hs]
    | some s' => simpa [alone, Faults.none, hs] using ih (.ok ()) s'
  | increment key next ih =>
    rw [run, h (.increment key)]
    cases hs : s.increment now key with
    | error e => simpa [alone, Faults.none, hs] using ih (.error e) s
    | ok p => simpa [alone, Faults.none, hs] using ih (.ok p.1) p.2

/-! ### Computations that write under few keys -/

/-- Every request that writes names a key of the given kind. -/
def WritesOnly (K : Key → Prop) : Access α → Prop
  | done _ => True
  | crash _ => True
  | get _ next => ∀ r, (next r).WritesOnly K
  | set key _ _ next => K key ∧ ∀ r, (next r).WritesOnly K
  | increment key next => K key ∧ ∀ r, (next r).WritesOnly K

/-- A computation without a request that writes. -/
def ReadOnly (a : Access α) : Prop := a.WritesOnly fun _ => False

theorem WritesOnly.mono {K L : Key → Prop} (hKL : ∀ key, K key → L key) {a : Access α}
    (h : a.WritesOnly K) : a.WritesOnly L := by
  induction a with
  | done a => trivial
  | crash text => trivial
  | get key next ih => exact fun r => ih r (h r)
  | set key bytes ttl next ih => exact ⟨hKL _ h.1, fun r => ih r (h.2 r)⟩
  | increment key next ih => exact ⟨hKL _ h.1, fun r => ih r (h.2 r)⟩

theorem WritesOnly.bind {K : Key → Prop} {a : Access α} {f : α → Access β} (ha : a.WritesOnly K)
    (hf : ∀ x, (f x).WritesOnly K) : (a.bind f).WritesOnly K := by
  induction a with
  | done a => exact hf a
  | crash text => trivial
  | get key next ih => exact fun r => ih r (ha r)
  | set key bytes ttl next ih => exact ⟨ha.1, fun r => ih r (ha.2 r)⟩
  | increment key next ih => exact ⟨ha.1, fun r => ih r (ha.2 r)⟩

/-- **Entries under other keys stay as they are, whatever fails.** -/
theorem find?_run {K : Key → Prop} {a : Access α} (h : a.WritesOnly K) {key : Key} (hk : ¬ K key)
    (faults : Faults σ) (now : Instant) (w : σ) (s : Store) :
    (a.run faults now w s).2.2.find? key = s.find? key := by
  induction a generalizing w s with
  | done a => rfl
  | crash text => rfl
  | get other next ih =>
    simp only [run]
    split
    · exact ih _ (h _) _ _
    · exact ih _ (h _) _ _
    · rfl
  | set other bytes ttl next ih =>
    have hne : key ≠ other := fun e => hk (e ▸ h.1)
    simp only [run]
    split
    · split
      · rename_i hs
        rw [ih _ (h.2 _), Store.find?_of_set hs hne]
      · rfl
    · exact ih _ (h.2 _) _ _
    · rfl
  | increment other next ih =>
    have hne : key ≠ other := fun e => hk (e ▸ h.1)
    simp only [run]
    split
    · split
      · rename_i hs
        rw [ih _ (h.2 _), Store.find?_of_increment hs hne]
      · exact ih _ (h.2 _) _ _
    · exact ih _ (h.2 _) _ _
    · rfl

theorem find?_alone {K : Key → Prop} {a : Access α} (h : a.WritesOnly K) {key : Key}
    (hk : ¬ K key) (now : Instant) (s : Store) : (a.alone now s).2.find? key = s.find? key :=
  find?_run h hk Faults.none now () s

theorem ReadOnly.run_store {a : Access α} (h : a.ReadOnly) (faults : Faults σ) (now : Instant)
    (w : σ) (s : Store) : (a.run faults now w s).2.2 = s := by
  induction a generalizing w with
  | done a => rfl
  | crash text => rfl
  | get key next ih =>
    simp only [run]
    split
    · exact ih _ (h _) _
    · exact ih _ (h _) _
    · rfl
  | set key bytes ttl next ih => exact h.1.elim
  | increment key next ih => exact h.1.elim

theorem ReadOnly.run_outcome {faults : Faults σ} {P : σ → Prop}
    (hreads : ∀ w key, P w → ∃ w', faults w (.get key) = (.pass, w') ∧ P w') {a : Access α}
    (h : a.ReadOnly) (now : Instant) {w : σ} (hw : P w) (s : Store) :
    (a.run faults now w s).1 = (a.alone now s).1 := by
  induction a generalizing w with
  | done a => rfl
  | crash text => rfl
  | get key next ih =>
    obtain ⟨w', hpass, hw'⟩ := hreads w key hw
    rw [run, hpass]
    exact ih _ (h _) hw'
  | set key bytes ttl next ih => exact h.1.elim
  | increment key next ih => exact h.1.elim

end Access

end FragmentRelay
