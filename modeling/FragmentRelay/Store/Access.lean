import FragmentRelay.Store.Basic

/-!
# Access: computations that touch the store step by step

A computation over a shared store is a tree: it is done, or it makes one request and goes on with
the answer. Each request is atomic, and between two requests other computations may run, so the tree
shows exactly the points at which they can come in. Running a tree alone is one way to use it.

A computation may also give up in a crash, as arithmetic does on a number that its words cannot
hold. A request may fail without effect or crash the computation. Which requests do is decided by a
`Faults` rule with a state of its own, so that every pattern of failures can be described.
-/

namespace FragmentRelay

/-- A computation over the store. -/
inductive Access (α : Type) : Type where
  | done (a : α)
  | crash (text : String)
  | get (key : Key) (next : Except StoreError (Option Octets) → Access α)
  | set (key : Key) (bytes : Octets) (ttl : Option Span) (next : Except StoreError Unit → Access α)
  | increment (key : Key) (next : Except StoreError Int → Access α)

namespace Access

/-- Goes on with another computation. -/
def bind {α β : Type} : Access α → (α → Access β) → Access β
  | done a, f => f a
  | crash text, _ => crash text
  | get key next, f => get key fun r => (next r).bind f
  | set key bytes ttl next, f => set key bytes ttl fun r => (next r).bind f
  | increment key next, f => increment key fun r => (next r).bind f

instance : Monad Access where
  pure := done
  bind := bind

/-! ### Single requests -/

/-- Reads a key. -/
def read (key : Key) : Access (Except StoreError (Option Octets)) := get key done

/-- Writes a key. -/
def write (key : Key) (bytes : Octets) (ttl : Option Span) : Access (Except StoreError Unit) :=
  set key bytes ttl done

/-- Adds one to a counter. -/
def count (key : Key) : Access (Except StoreError Int) := increment key done

end Access

/-! ### Failures -/

/-- A request as a failure rule sees it. -/
inductive Request where
  | get (key : Key)
  | set (key : Key)
  | increment (key : Key)
deriving DecidableEq

/-- What a failure rule says about a request. -/
inductive Verdict where
  | pass
  | fail (e : StoreError)
  | crash (text : String)
deriving DecidableEq

/-- A rule that says of each request whether it fails, and keeps a state between requests. -/
abbrev Faults (σ : Type) := σ → Request → Verdict × σ

/-- The rule under which nothing fails. -/
def Faults.none : Faults Unit := fun s _ => (.pass, s)

/-- How a computation ended: with a value, or in a crash that a supervisor sees as a text. -/
inductive Outcome (α : Type) where
  | value (a : α)
  | crashed (text : String)
deriving DecidableEq

/-- The text of the crash when the clock cannot show a deadline. -/
def Instant.overflowText : String := "the deadline lies beyond the clock"

namespace Access

/-- Runs a computation alone, at one instant, under a failure rule. -/
def run {α σ : Type} (faults : Faults σ) (now : Instant) :
    Access α → σ → Store → Outcome α × σ × Store
  | done a, w, s => (.value a, w, s)
  | crash text, w, s => (.crashed text, w, s)
  | get key next, w, s =>
    match faults w (.get key) with
    | (.pass, w) => run faults now (next (.ok (s.get now key))) w s
    | (.fail e, w) => run faults now (next (.error e)) w s
    | (.crash text, w) => (.crashed text, w, s)
  | set key bytes ttl next, w, s =>
    match faults w (.set key) with
    | (.pass, w) =>
      match s.set now key bytes ttl with
      | some s => run faults now (next (.ok ())) w s
      | none => (.crashed Instant.overflowText, w, s)
    | (.fail e, w) => run faults now (next (.error e)) w s
    | (.crash text, w) => (.crashed text, w, s)
  | increment key next, w, s =>
    match faults w (.increment key) with
    | (.pass, w) =>
      match s.increment now key with
      | .ok (v, s) => run faults now (next (.ok v)) w s
      | .error e => run faults now (next (.error e)) w s
    | (.fail e, w) => run faults now (next (.error e)) w s
    | (.crash text, w) => (.crashed text, w, s)

/-- Carries out the first request of a computation on a store that does not fail. -/
def step {α : Type} (now : Instant) : Access α → Store → Option (Access α × Store)
  | done _, _ => Option.none
  | crash _, _ => Option.none
  | get key next, s => some (next (.ok (s.get now key)), s)
  | set key bytes ttl next, s => (s.set now key bytes ttl).map fun s => (next (.ok ()), s)
  | increment key next, s =>
    match s.increment now key with
    | .ok (v, s) => some (next (.ok v), s)
    | .error e => some (next (.error e), s)

end Access

end FragmentRelay
