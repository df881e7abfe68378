import FragmentRelay.Proofs.Store.Requests
import Mathlib.Tactic.Common

/-!
# Attempts: requests that pass or fail one by one

A computation that is run under a failure rule makes one request after the other. Each of them
passes, fails without effect, or crashes the computation, which then ends where it stands. So
whatever a single attempt preserves holds at the point where a run has stopped, and this covers all
points in the middle of a run.

* `attempt`: one request that passes or fails.
* `Stopped`: where a run has stopped, and why.
* `exists_stopped`: what every attempt preserves holds where a run has stopped.
* `Reaches`: how far a computation has come whose requests each find another store.
* `Answered`, `MayEnd`: how a computation goes on and ends, whatever its requests are answered;
  `mayEnd_run`: every run ends so.
* `Sure`, `exists_value`: a computation that nothing can crash ends with a value.
-/

namespace FragmentRelay

/-- In some state a rule gives a request the error with which it fails, or lets it pass if there is
none. -/
def Faults.Gives {σ : Type} (faults : Faults σ) (r : Request) : Option StoreError → Prop
  | .none => ∃ w, (faults w r).1 = .pass
  | .some e => ∃ w, (faults w r).1 = .fail e

/-- A rule that crashes no computation, so that requests fail without effect only. -/
def Faults.Lenient {σ : Type} (faults : Faults σ) : Prop := ∀ w r text, (faults w r).1 ≠ .crash text

theorem Faults.none_lenient : Faults.none.Lenient := fun _ _ _ h => nomatch h

namespace Access

variable {α σ : Type}

/-- The request that a computation makes next, if it makes one. -/
def request? : Access α → Option Request
  | done _ => none
  | crash _ => none
  | get key _ => some (.get key)
  | set key _ _ _ => some (.set key)
  | increment key _ => some (.increment key)

/-- A computation after its next request has failed without effect. -/
def refused (e : StoreError) : Access α → Option (Access α)
  | done _ => none
  | crash _ => none
  | get _ next => some (next (.error e))
  | set _ _ _ next => some (next (.error e))
  | increment _ next => some (next (.error e))

/-- Makes the next request of a computation; it fails without effect if an error is given. -/
def attempt (fault : Option StoreError) (now : Instant) (a : Access α) (s : Store) :
    Option (Access α × Store) :=
  match fault with
  | none => a.step now s
  | some e => (a.refused e).map fun a => (a, s)

@[simp] theorem attempt_none (now : Instant) (a : Access α) (s : Store) :
    a.attempt none now s = a.step now s := rfl

@[simp] theorem attempt_some (e : StoreError) (now : Instant) (a : Access α) (s : Store) :
    a.attempt (some e) now s = (a.refused e).map fun a => (a, s) := rfl

theorem attempt_bind {β : Type} {fault : Option StoreError} {now : Instant}
    {a b : Access α} {s s' : Store} (h : a.attempt fault now s = some (b, s')) (f : α → Access β) :
    (a.bind f).attempt fault now s = some (b.bind f, s') := by
  cases fault with
  | some e =>
    obtain ⟨b, hb, he⟩ := Option.map_eq_some_iff.1 h
    cases he
    cases a <;> cases hb <;> rfl
  | none =>
    cases a with
    | done x => cases h
    | crash text => cases h
    | get key next =>
      cases h
      rfl
    | set key bytes ttl next =>
      obtain ⟨t, ht, he⟩ := Option.map_eq_some_iff.1 h
      cases he
      simp only [bind, attempt_none, step, ht, Option.map_some]
    | increment key next =>
      simp only [attempt_none, step] at h
      simp only [bind, attempt_none, step]
      split at h <;> cases h <;> rfl

/-- Where a run with a given outcome has stopped: at its end, or before a request that was not
carried out. -/
inductive Stopped (faults : Faults σ) (now : Instant) : Outcome α → Access α → Store → Prop
  | ended (x : α) (s : Store) : Stopped faults now (.value x) (done x) s
  | gaveUp (text : String) (s : Store) : Stopped faults now (.crashed text) (crash text) s
  | cutOff {a : Access α} {s : Store} {r : Request} {w : σ} {text : String}
      (hr : a.request? = some r)
    (hw : (faults w r).1 = .crash text) : Stopped faults now (.crashed text) a s
  | overflowed {a : Access α} {s : Store} {r : Request} (hr : a.request? = some r)
      (hs : a.step now s = none) :
    Stopped faults now (.crashed Instant.overflowText) a s

/-- **What every attempt preserves holds where a run has stopped.** -/
theorem exists_stopped {faults : Faults σ} {now : Instant} {P : Access α → Store → Prop}
    (hstep : ∀ a s r fault a' s', P a s → a.request? = some r → faults.Gives r fault →
      a.attempt fault now s = some (a', s') → P a' s') (a : Access α) (w : σ) (s :
    Store) (h : P a s) :
    ∃ a', Stopped faults now (a.run faults now w s).1 a' (a.run faults now w s).2.2 ∧
      P a' (a.run faults now w s).2.2 := by
  induction a generalizing w s with
  | done x => exact ⟨_, .ended x s, h⟩
  | crash text => exact ⟨_, .gaveUp text s, h⟩
  | get key next ih =>
    rcases hv : faults w (.get key) with ⟨_ | e | text, w'⟩
    · rw [run, hv]
      exact ih _ w' s (hstep _ s _ none _ s h rfl ⟨w, congrArg Prod.fst hv⟩ rfl)
    · rw [run, hv]
      exact ih _ w' s (hstep _ s _ (some e) _ s h rfl ⟨w, congrArg Prod.fst hv⟩ rfl)
    · rw [run, hv]
      exact ⟨_, .cutOff rfl (congrArg Prod.fst hv), h⟩
  | set key bytes ttl next ih =>
    rcases hv : faults w (.set key) with ⟨_ | e | text, w'⟩
    · rw [run, hv]
      cases hs : s.set now key bytes ttl with
      | none => exact ⟨_, .overflowed rfl (by simp [step, hs]), h⟩
      | some s' =>
        have hattempt : (set key bytes ttl next).attempt none now s = some (next (.ok ()), s') := by
          simp [step, hs]
        exact ih _ w' s' (hstep _ s _ none _ s' h rfl ⟨w, congrArg Prod.fst hv⟩ hattempt)
    · rw [run, hv]
      exact ih _ w' s (hstep _ s _ (some e) _ s h rfl ⟨w, congrArg Prod.fst hv⟩ rfl)
    · rw [run, hv]
      exact ⟨_, .cutOff rfl (congrArg Prod.fst hv), h⟩
  | increment key next ih =>
    rcases hv : faults w (.increment key) with ⟨_ | e | text, w'⟩
    · rw [run, hv]
      cases hs : s.increment now key with
      | error e =>
        have hattempt : (increment key next).attempt none now s = some (next (.error e), s) := by
          simp [step, hs]
        exact ih _ w' s (hstep _ s _ none _ s h rfl ⟨w, congrArg Prod.fst hv⟩ hattempt)
      | ok p =>
        have hattempt : (increment key next).attempt none now s = some (next (.ok p.1), p.2) := by
          simp [step, hs]
        exact ih _ w' p.2 (hstep _ s _ none _ p.2 h rfl ⟨w, congrArg Prod.fst hv⟩ hattempt)
    · rw [run, hv]
      exact ih _ w' s (hstep _ s _ (some e) _ s h rfl ⟨w, congrArg Prod.fst hv⟩ rfl)
    · rw [run, hv]
      exact ⟨_, .cutOff rfl (congrArg Prod.fst hv), h⟩

/-- A computation comes to a point, and has made its requests at some instants and on some stores. A
request may fail, and between two requests anything may happen to the store. -/
inductive Reaches (a : Access α) : List (Instant × Store) → Access α → Prop
  | start : Reaches a [] a
  | request {seen : List (Instant × Store)} {b c : Access α} {fault : Option StoreError}
      {now : Instant} {s s' : Store}
    (h : Reaches a seen b) (hc : b.attempt fault now s = some (c, s')) : Reaches a
      (seen ++ [(now, s)]) c

/-! ### Any answers -/

/-- A computation after some answer to its next request, whether or not a store would give it. -/
inductive Answered : Access α → Access α → Prop
  | get (key : Key) (next : Except StoreError (Option Octets) → Access α)
      (answer : Except StoreError (Option Octets)) :
    Answered (get key next) (next answer)
  | set (key : Key) (bytes : Octets) (ttl : Option Span) (next : Except StoreError Unit → Access α)
    (answer : Except StoreError Unit) : Answered (set key bytes ttl next) (next answer)
  | increment (key : Key) (next : Except StoreError Int → Access α)
      (answer : Except StoreError Int) :
    Answered (increment key next) (next answer)

theorem answered_of_attempt {fault : Option StoreError} {now : Instant}
    {a a' : Access α} {s s' : Store} (h : a.attempt fault now s = some (a', s')) :
    a.Answered a' := by
  cases fault with
  | some e =>
    obtain ⟨b, hb, he⟩ := Option.map_eq_some_iff.1 h
    cases he
    cases a with
    | done x => cases hb
    | crash text => cases hb
    | get key next =>
      cases hb
      exact .get key next _
    | set key bytes ttl next =>
      cases hb
      exact .set key bytes ttl next _
    | increment key next =>
      cases hb
      exact .increment key next _
  | none =>
    cases a with
    | done x => cases h
    | crash text => cases h
    | get key next =>
      cases h
      exact .get key next _
    | set key bytes ttl next =>
      obtain ⟨_, -, he⟩ := Option.map_eq_some_iff.1 h
      cases he
      exact .set key bytes ttl next _
    | increment key next =>
      simp only [attempt_none, step] at h
      split at h <;> cases h <;> exact .increment key next _

/-- A computation may end in a way if some answers to its requests lead there. Any request may crash
it. -/
inductive MayEnd : Access α → Outcome α → Prop
  | done (x : α) : MayEnd (done x) (.value x)
  | crash (text : String) : MayEnd (crash text) (.crashed text)
  | cutOff {a : Access α} {r : Request} (hr : a.request? = some r) (text : String) :
      MayEnd a (.crashed text)
  | answered {a a' : Access α} {o : Outcome α} (ha : a.Answered a') (h : MayEnd a' o) : MayEnd a o

theorem MayEnd.of_done {x : α} {o : Outcome α} (h : (Access.done x).MayEnd o) : o = .value x := by
  cases h with
  | done => rfl
  | cutOff hr => cases hr
  | answered ha => cases ha

theorem MayEnd.of_bind {β : Type} {a : Access α} {f : α → Access β} {y : β}
    (h : (a.bind f).MayEnd (.value y)) : ∃ x, a.MayEnd (.value x) ∧ (f x).MayEnd (.value y) := by
  induction a with
  | done x => exact ⟨x, .done x, h⟩
  | crash text =>
    cases h with
    | answered ha _ => cases ha
  | get key next ih =>
    cases h with
    | answered ha h =>
      cases ha with
      | get _ _ answer =>
        obtain ⟨x, hx, hy⟩ := ih answer h
        exact ⟨x, .answered (.get key next answer) hx, hy⟩
  | set key bytes ttl next ih =>
    cases h with
    | answered ha h =>
      cases ha with
      | set _ _ _ _ answer =>
        obtain ⟨x, hx, hy⟩ := ih answer h
        exact ⟨x, .answered (.set key bytes ttl next answer) hx, hy⟩
  | increment key next ih =>
    cases h with
    | answered ha h =>
      cases ha with
      | increment _ _ answer =>
        obtain ⟨x, hx, hy⟩ := ih answer h
        exact ⟨x, .answered (.increment key next answer) hx, hy⟩

/-- **Every run ends as some answers make it end.** -/
theorem mayEnd_run (faults : Faults σ) (now : Instant) (a : Access α) (w : σ) (s : Store) :
    a.MayEnd (a.run faults now w s).1 := by
  obtain ⟨a', hstop, hback⟩ := exists_stopped (P := fun a' _ => ∀ o, a'.MayEnd o → a.MayEnd o)
    (fun _ _ _ _ _ _ hback _ _ ha o ho => hback o (.answered (answered_of_attempt ha) ho)) a w
      s fun _ ho => ho
  refine hback _ ?_
  generalize (a.run faults now w s).1 = o at hstop
  cases hstop with
  | ended x => exact .done x
  | gaveUp text => exact .crash text
  | cutOff hr => exact .cutOff hr _
  | overflowed hr => exact .cutOff hr _

/-! ### Runs that nothing crashes -/

/-- A computation that does not give up, and sets no deadline that the clock cannot show. -/
def Sure (now : Instant) : Access α → Prop
  | done _ => True
  | crash _ => False
  | get _ next => ∀ r, (next r).Sure now
  | set _ _ ttl next => (∀ span ∈ ttl, now + span.nanos < Instant.horizon) ∧ ∀ r, (next r).Sure now
  | increment _ next => ∀ r, (next r).Sure now

namespace Sure

variable {β : Type} {a a' : Access α} {now : Instant} {s s' : Store}

theorem bind {f : α → Access β} (ha : a.Sure now) (hf : ∀ x, (f x).Sure now) :
    (a.bind f).Sure now := by
  induction a with
  | done x => exact hf x
  | crash text => exact ha.elim
  | get key next ih => exact fun r => ih r (ha r)
  | set key bytes ttl next ih => exact ⟨ha.1, fun r => ih r (ha.2 r)⟩
  | increment key next ih => exact fun r => ih r (ha r)

theorem of_attempt (h : a.Sure now) {fault : Option StoreError}
    (ha : a.attempt fault now s = some (a', s')) : a'.Sure now := by
  cases answered_of_attempt ha with
  | get _ _ answer => exact h answer
  | set _ _ _ _ answer => exact h.2 answer
  | increment _ _ answer => exact h answer

theorem step_ne_none (h : a.Sure now) {r : Request} (hr : a.request? = some r) :
    a.step now s ≠ none := by
  cases a with
  | done x => cases hr
  | crash text => cases hr
  | get key next => simp [step]
  | set key bytes ttl next =>
    cases ttl with
    | none => simp [step, Store.set]
    | some span => simp [step, Store.set, Store.deadlineAfter, h.1 span rfl]
  | increment key next =>
    simp only [step]
    split <;> simp

/-- **Where requests fail without effect only, a computation that does not give up ends with a
value.** -/
theorem exists_value {faults : Faults σ} (h : a.Sure now) (hfaults : faults.Lenient)
    (w : σ) (s : Store) : ∃ x, (a.run faults now w s).1 = .value x := by
  obtain ⟨a', hstop, hsure⟩ := exists_stopped (P := fun a _ => a.Sure now)
    (fun _ _ _ _ _ _ hP _ _ ha => hP.of_attempt ha) a w s h
  generalize (a.run faults now w s).1 = o at hstop
  cases hstop with
  | ended x => exact ⟨x, rfl⟩
  | gaveUp text => exact hsure.elim
  | cutOff _ hw => exact absurd hw (hfaults _ _ _)
  | overflowed hr hs => exact absurd hs (hsure.step_ne_none hr)

end Sure

end Access

end FragmentRelay
