import FragmentRelay.Key
import FragmentRelay.Span
import FragmentRelay.Store.Counter

/-!
# The store: values under keys, with deadlines

The store keeps a byte string under each key, some with a deadline at which it vanishes. A vanished
entry reads as absent but keeps its place until it is purged or written again.

* `find?_insert_self`, `find?_insert_of_ne`: a write is seen under its own key and under no other.
* `mem_keys_insert`: a write adds its key and no other.
-/

namespace FragmentRelay

/-- A point in time, in nanoseconds since the clock started. -/
abbrev Instant := Nat

/-- The first instant that the clock cannot show: its seconds are a signed word, and it shows parts
of a second. -/
def Instant.horizon : Instant := 9223372036854775808 * 1000000000

/-- Why the store did not carry out a request. -/
inductive StoreError where
  | unavailable (reason : String)
  | notACounter (key : Key)
  | backend (reason : String)
deriving DecidableEq

/-- The text of a store error. -/
def StoreError.message : StoreError → String
  | unavailable reason => s!"store unavailable: {reason}"
  | notACounter key => s!"value at {key.text} is not an integer counter"
  | backend reason => s!"store backend error: {reason}"

/-- A stored value and its deadline. -/
structure Entry where
  bytes : Octets
  deadline : Option Instant
deriving DecidableEq

/-- Whether an entry has not reached its deadline. -/
def Entry.live (now : Instant) (e : Entry) : Bool :=
  match e.deadline with
  | none => true
  | some t => decide (now < t)

/-- The entries of a store; no key occurs twice. -/
structure Store where
  entries : List (Key × Entry) := []
deriving DecidableEq

namespace Store

/-! ### Entries by key -/

/-- The first entry under a key. -/
def lookup (key : Key) : List (Key × Entry) → Option Entry
  | [] => none
  | (k, e) :: r => if k = key then some e else lookup key r

/-- The entries with the one under a key replaced or added. -/
def replace (key : Key) (e : Entry) : List (Key × Entry) → List (Key × Entry)
  | [] => [(key, e)]
  | (k, old) :: r => if k = key then (key, e) :: r else (k, old) :: replace key e r

/-- The entry under a key, live or not. -/
def find? (s : Store) (key : Key) : Option Entry := lookup key s.entries

/-- The store with the entry under a key replaced or added. -/
def insert (s : Store) (key : Key) (e : Entry) : Store := ⟨replace key e s.entries⟩

/-- The entry under a key if it is live. -/
def live? (s : Store) (now : Instant) (key : Key) : Option Entry :=
  (s.find? key).filter (·.live now)

/-- The keys that have an entry. -/
def keys (s : Store) : List Key := s.entries.map (·.1)

/-- The number of entries, live or not. -/
def size (s : Store) : Nat := s.entries.length

/-! ### Requests -/

/-- Reads the live value under a key. -/
def get (s : Store) (now : Instant) (key : Key) : Option Octets := (s.live? now key).map (·.bytes)

/-- The deadline of a value kept for a span, if the clock can show it. -/
def deadlineAfter (now : Instant) (ttl : Span) : Option Instant :=
  if now + ttl.nanos < Instant.horizon then some (now + ttl.nanos) else none

/-- Writes a value with a deadline if a span is given; there is no store afterwards if the clock
cannot show the deadline. -/
def set (s : Store) (now : Instant) (key : Key) (bytes : Octets)
    (ttl : Option Span) : Option Store :=
  match ttl with
  | none => some (s.insert key ⟨bytes, none⟩)
  | some span =>
    match deadlineAfter now span with
    | none => none
    | some t => some (s.insert key ⟨bytes, some t⟩)

/-- Adds one to the counter under a key. An absent or vanished counter starts anew at one, without a
deadline; a live one keeps its deadline. -/
def increment (s : Store) (now : Instant) (key : Key) : Except StoreError (Int × Store) :=
  match s.live? now key with
  | none => .ok (1, s.insert key ⟨Counter.encode 1, none⟩)
  | some e =>
    match Counter.decode e.bytes with
    | none => .error (.notACounter key)
    | some v =>
      if v < Counter.highest then .ok (v + 1, s.insert key ⟨Counter.encode (v + 1), e.deadline⟩)
      else .error (.notACounter key)

/-- The store without its vanished entries. -/
def purge (s : Store) (now : Instant) : Store := ⟨s.entries.filter fun e => e.2.live now⟩

/-- The live values in the order of their keys. -/
def listing (s : Store) (now : Instant) : List (Key × Octets) :=
  ((s.entries.filter fun e => e.2.live now).map fun e => (e.1, e.2.bytes)).mergeSort fun a b =>
    decide (a.1.text ≤ b.1.text)

/-! ### Laws of writing -/

@[simp] theorem lookup_replace_self (key : Key) (e : Entry) (l : List (Key × Entry)) :
    lookup key (replace key e l) = some e := by
  induction l with
  | nil => simp [replace, lookup]
  | cons p r ih =>
    obtain ⟨k, old⟩ := p
    by_cases h : k = key <;> simp [replace, lookup, h, ih]

theorem lookup_replace_of_ne {key other : Key} (e : Entry) (l : List (Key × Entry))
    (h : other ≠ key) : lookup other (replace key e l) = lookup other l := by
  induction l with
  | nil => simp [replace, lookup, Ne.symm h]
  | cons p r ih =>
    obtain ⟨k, old⟩ := p
    by_cases hk : k = key
    · subst hk; simp [replace, lookup, Ne.symm h]
    · by_cases ho : k = other
      · subst ho; simp [replace, lookup, hk]
      · simp [replace, lookup, hk, ho, ih]

@[simp] theorem find?_insert_self (s : Store) (key : Key) (e : Entry) :
    (s.insert key e).find? key = some e := lookup_replace_self key e s.entries

theorem find?_insert_of_ne {s : Store} {key other : Key} {e : Entry} (h : other ≠ key) :
    (s.insert key e).find? other = s.find? other := lookup_replace_of_ne e s.entries h

theorem lookup_eq_none_iff {key : Key} {l : List (Key × Entry)} :
    lookup key l = none ↔ key ∉ l.map (·.1) := by
  induction l with
  | nil => simp [lookup]
  | cons p r ih =>
    obtain ⟨k, e⟩ := p
    by_cases h : k = key
    · simp [lookup, h]
    · simp [lookup, h, ih, Ne.symm h]

theorem mem_keys_insert {s : Store} {key other : Key} {e : Entry} :
    other ∈ (s.insert key e).keys ↔ other = key ∨ other ∈ s.keys := by
  have hl : ∀ l : List (Key × Entry),
      other ∈ (replace key e l).map (·.1) ↔ other = key ∨ other ∈ l.map (·.1) := by
    intro l
    induction l with
    | nil => simp [replace]
    | cons p r ih =>
      obtain ⟨k, old⟩ := p
      by_cases h : k = key
      · simp [replace, h]
      · simp only [replace, h, if_false, List.map_cons, List.mem_cons, ih]
        exact ⟨fun h => by rcases h with h | h | h <;> simp [h],
          fun h => by rcases h with h | h | h <;> simp [h]⟩
  exact hl s.entries

end Store

end FragmentRelay
