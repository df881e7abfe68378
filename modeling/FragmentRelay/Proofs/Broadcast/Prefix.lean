import FragmentRelay.Broadcast
import FragmentRelay.Proofs.Batch.Partition
import Mathlib.Tactic.Common

/-!
# Prefix: what a broadcast that stops has published

A transport may accept or refuse each publication as it likes. The programme of a batch is its
header and then its fragments, each with its subject and in its wire form. A broadcast goes through
it from the start, up to the first refusal, and what it reports says how far it came.

* `Publisher.recorded`: a transport with a list of what was tried on it.
* `Course`: the ways in which the loop over the fragments can go; `sendFragments_course`: it goes in
  one of them.
* `Course.accepted_prefix`, `Course.stops`, `Course.ok_iff`, `Course.of_refused`: what each of them
  leaves and reports.
* `Batch.Exact`: what was tried and what is reported for a whole batch; `broadcast_exact`: they fit
  on every transport.
-/

namespace FragmentRelay

/-- A publication that was tried: the subject and the body, and the answer of the transport. -/
structure Publication where
  message : String × Octets
  answer : Except TransportError Unit
deriving DecidableEq

namespace Publication

/-- Whether the transport accepted a publication. -/
def accepted (a : Publication) : Bool := a.answer.isOk

/-- The messages that the transport accepted, in order. -/
def acceptedIn (tried : List Publication) : List (String × Octets) :=
  (tried.filter (·.accepted)).map (·.message)

theorem acceptedIn_cons (m : String × Octets) (tried : List Publication) :
    acceptedIn (⟨m, .ok ()⟩ :: tried) = m :: acceptedIn tried := rfl

end Publication

open Publication

/-- Fragments as they are published on a subject. -/
def messagesOf (subject : String) (fs : List Fragment) : List (String × Octets) :=
  fs.map fun f => (subject, Wire.encode f)

/-- All that is to be published for a batch: the header on one subject, then the fragments on
another. -/
def Batch.programme (b : Batch) (subjects : Subjects) : List (String × Octets) :=
  (subjects.reassembly, Wire.encode b.header) :: messagesOf subjects.fragmentIngest b.fragments

namespace Publisher

variable {σ : Type}

/-- A transport that keeps a list of what was tried on it. -/
def recorded (p : Publisher σ) : Publisher (σ × List Publication) where
  publish subject body t :=
    ((p.publish subject body t.1).1, (p.publish subject body t.1).2,
      t.2 ++ [⟨(subject, body), (p.publish subject body t.1).1⟩])
  pace t := (p.pace t.1, t.2)

end Publisher

/-! ### The loop over the fragments -/

/-- The ways in which fragments can be published after a number of them was accepted: what is tried,
how it ends, and how many were accepted then. -/
inductive Course (subject : String) :
    List Fragment → Nat → List Publication → Except BroadcastError Unit → Nat → Prop where
  | finished (n : Nat) : Course subject [] n [] (.ok ()) n
  | refused (f : Fragment) (rest : List Fragment) (n : Nat) (e : TransportError) :
      Course subject (f :: rest) n [⟨(subject, Wire.encode f), .error e⟩]
        (.error (.fragment f.index n e)) n
  | accepted {f : Fragment} {rest : List Fragment} {n k : Nat} {tried : List Publication}
      {r : Except BroadcastError Unit} (h : Course subject rest (n + 1) tried r k) :
      Course subject (f :: rest) n (⟨(subject, Wire.encode f), .ok ()⟩ :: tried) r k

/-- **The loop takes one of these ways on every transport**, and is the same without the list. -/
theorem sendFragments_course {σ : Type} (p : Publisher σ) (subject : String) (fs : List Fragment) :
    ∀ (n : Nat) (s : σ) (before : List Publication), ∃ tried r k s',
      p.sendFragments subject fs n s = (r, k, s') ∧
      p.recorded.sendFragments subject fs n (s, before) = (r, k, s', before ++ tried) ∧
      Course subject fs n tried r k := by
  induction fs with
  | nil => exact fun n s before => ⟨[], _, _, _, rfl, by rw [List.append_nil]; rfl, .finished n⟩
  | cons f rest ih =>
    intro n s before
    -- the list may hold anything at the start, so that the rest of the loop finds its own course
    -- after one more entry
    rcases hp : p.publish subject (Wire.encode f) (p.pace s) with ⟨e | ⟨⟩, s₁⟩
    · refine ⟨_, _, _, s₁, ?_, ?_, .refused f rest n e⟩
      · simp only [Publisher.sendFragments, hp]
      · simp only [Publisher.sendFragments, Publisher.recorded, hp]
    · obtain ⟨tried, r, k, s', h₁, h₂, h⟩ :=
        ih (n + 1) s₁ (before ++ [⟨(subject, Wire.encode f), .ok ()⟩])
      refine ⟨_, r, k, s', ?_, ?_, .accepted h⟩
      · simpa only [Publisher.sendFragments, hp] using h₁
      · rw [List.append_assoc, List.singleton_append] at h₂
        simpa only [Publisher.sendFragments, Publisher.recorded, hp] using h₂

namespace Course

variable {subject : String} {fs : List Fragment} {n k : Nat} {tried : List Publication}
  {r : Except BroadcastError Unit}

theorem tried_prefix (h : Course subject fs n tried r k) :
    tried.map (·.message) <+: messagesOf subject fs := by
  induction h with
  | finished n => exact List.nil_prefix
  | refused f rest n e => exact List.cons_prefix_cons.2 ⟨rfl, List.nil_prefix⟩
  | accepted h ih => exact List.cons_prefix_cons.2 ⟨rfl, ih⟩

theorem accepted_prefix (h : Course subject fs n tried r k) :
    acceptedIn tried <+: messagesOf subject fs := by
  induction h with
  | finished n => exact List.nil_prefix
  | refused f rest n e => exact List.nil_prefix
  | accepted h ih => exact List.cons_prefix_cons.2 ⟨rfl, ih⟩

theorem stops (h : Course subject fs n tried r k) :
    tried.Pairwise fun a _ => a.accepted = true := by
  induction h with
  | finished n => exact List.Pairwise.nil
  | refused f rest n e => exact List.pairwise_singleton _ _
  | accepted h ih => exact List.pairwise_cons.2 ⟨fun _ _ => rfl, ih⟩

theorem count_eq (h : Course subject fs n tried r k) : k = n + (acceptedIn tried).length := by
  induction h with
  | finished n => rfl
  | refused f rest n e => rfl
  | accepted h ih =>
    rw [acceptedIn_cons, List.length_cons, ih]
    omega

/-- **It ends well exactly if everything was accepted.** -/
theorem ok_iff (h : Course subject fs n tried r k) :
    r = .ok () ↔ (acceptedIn tried).length = fs.length := by
  induction h with
  | finished n => exact ⟨fun _ => rfl, fun _ => rfl⟩
  | refused f rest n e => exact ⟨fun hr => (by cases hr), fun hl => (by cases hl)⟩
  | accepted h ih =>
    rw [ih, acceptedIn_cons, List.length_cons, List.length_cons, Nat.add_right_cancel_iff]

/-- **A refusal is reported** with the fragment that was refused and the number of those before
it. -/
theorem of_refused (h : Course subject fs n tried r k) {a : Publication} (ha : a ∈ tried)
    {e : TransportError} (he : a.answer = .error e) :
    ∃ f, fs[(acceptedIn tried).length]? = some f ∧ r = .error (.fragment f.index k e) := by
  induction h with
  | finished n => cases ha
  | refused f rest n e' =>
    cases List.mem_singleton.1 ha
    cases he
    exact ⟨f, rfl, rfl⟩
  | accepted h ih =>
    rcases List.mem_cons.1 ha with rfl | ha
    · cases he
    · exact ih ha

theorem of_error (h : Course subject fs n tried r k) {error : BroadcastError}
    (hr : r = .error error) : error.published = k ∧ ∃ a ∈ tried, a.accepted = false := by
  induction h with
  | finished n => cases hr
  | refused f rest n e =>
    cases hr
    exact ⟨rfl, _, List.mem_cons_self, rfl⟩
  | accepted h ih =>
    obtain ⟨hk, a, ha, hrefused⟩ := ih hr
    exact ⟨hk, a, List.mem_cons_of_mem _ ha, hrefused⟩

end Course

/-! ### Whole batches -/

/-- What was tried for a batch fits what is reported: an end, and a number of fragments. -/
structure Batch.Exact (b : Batch) (subjects : Subjects) (tried : List Publication)
    (r : Except BroadcastError Unit) (n : Nat) : Prop where
  tried_prefix : tried.map (·.message) <+: b.programme subjects
  accepted_prefix : acceptedIn tried <+: b.programme subjects
  stops : tried.Pairwise fun a _ => a.accepted = true
  ok_iff : r = .ok () ↔ (acceptedIn tried).length = b.header.cardinality.toNat + 1
  count_eq : n = (acceptedIn tried).length - 1
  header_refused : ∀ a ∈ tried, ∀ e, a.answer = .error e → acceptedIn tried = [] →
    r = .error (.header e)
  fragment_refused : ∀ a ∈ tried, ∀ e, a.answer = .error e → acceptedIn tried ≠ [] →
    ∃ x : UInt32, r = .error (.fragment x n e) ∧ x.toNat = n
  of_error : ∀ error, r = .error error → error.published = n ∧ ∃ a ∈ tried, a.accepted = false

namespace Batch

variable {b : Batch} {chunk : Nat} {nonce : UInt64} {payload : Octets} {subjects : Subjects}

theorem sliced_of_ok (hb : ofPayload chunk nonce payload = .ok b) :
    b.Sliced chunk nonce payload := by
  rcases Nat.lt_or_ge maxCardinality (slotCount chunk payload.length) with hmany | hfew
  · rw [ofPayload_of_lt hmany] at hb
    cases hb
  · obtain ⟨b', hb', h⟩ := exists_sliced nonce hfew
    rw [hb'] at hb
    cases hb
    exact h

theorem exact_of_header (b : Batch) (subjects : Subjects) (e : TransportError) :
    b.Exact subjects [⟨(subjects.reassembly, Wire.encode b.header), .error e⟩]
    (.error (.header e)) 0 where
  tried_prefix := List.cons_prefix_cons.2 ⟨rfl, List.nil_prefix⟩
  accepted_prefix := List.nil_prefix
  stops := List.pairwise_singleton _ _
  ok_iff := ⟨fun hr => (by cases hr), fun hl => (by cases hl)⟩
  count_eq := rfl
  header_refused a ha e' he _ := by
    cases List.mem_singleton.1 ha
    cases he
    rfl
  fragment_refused a ha e' he hne := absurd rfl hne
  of_error error hr := by
    cases hr
    exact ⟨rfl, _, List.mem_cons_self, rfl⟩

theorem Sliced.exact_of_course (hb : b.Sliced chunk nonce payload) {tried : List Publication}
    {r : Except BroadcastError Unit} {n : Nat}
    (h : Course subjects.fragmentIngest b.fragments 0 tried r n) :
    b.Exact subjects (⟨(subjects.reassembly, Wire.encode b.header), .ok ()⟩ :: tried) r n := by
  have hlength : b.fragments.length = b.header.cardinality.toNat :=
    hb.length_eq.trans hb.cardinality_eq.symm
  have hn : n = (acceptedIn tried).length := by rw [h.count_eq, Nat.zero_add]
  refine ⟨List.cons_prefix_cons.2 ⟨rfl, h.tried_prefix⟩,
    List.cons_prefix_cons.2 ⟨rfl, h.accepted_prefix⟩,
    List.pairwise_cons.2 ⟨fun _ _ => rfl, h.stops⟩, ?_, ?_, ?_, ?_, ?_⟩
  · rw [h.ok_iff, acceptedIn_cons, List.length_cons, hlength, Nat.add_right_cancel_iff]
  · rw [acceptedIn_cons, List.length_cons, hn, Nat.add_sub_cancel]
  · intro a _ e _ hnone
    rw [acceptedIn_cons] at hnone
    cases hnone
  · intro a ha e he _
    rcases List.mem_cons.1 ha with rfl | ha
    · cases he
    · obtain ⟨f, hf, hr⟩ := h.of_refused ha he
      exact ⟨f.index, hr, (hb.index_eq hf).trans hn.symm⟩
  · intro error hr
    obtain ⟨hk, a, ha, hrefused⟩ := h.of_error hr
    exact ⟨hk, a, List.mem_cons_of_mem _ ha, hrefused⟩

/-- **A broadcast fits its report on every transport.** -/
theorem Sliced.broadcast_exact {σ : Type} (hb : b.Sliced chunk nonce payload) (p : Publisher σ)
    (subjects : Subjects) (s : σ) : ∃ tried r n s', p.broadcast subjects b s = (r, n, s') ∧
      p.recorded.broadcast subjects b (s, []) = (r, n, s', tried) ∧ b.Exact subjects tried r n := by
  rcases hp : p.publish subjects.reassembly (Wire.encode b.header) s with ⟨e | ⟨⟩, s₁⟩
  · refine ⟨_, _, _, s₁, ?_, ?_, exact_of_header b subjects e⟩
    · simp only [Publisher.broadcast, hp]
    · simp only [Publisher.broadcast, Publisher.recorded, hp, List.nil_append]
  · obtain ⟨tried, r, n, s', h₁, h₂, h⟩ :=
      sendFragments_course p subjects.fragmentIngest b.fragments 0 s₁
      [⟨(subjects.reassembly, Wire.encode b.header), .ok ()⟩]
    refine ⟨_, r, n, s', ?_, ?_, hb.exact_of_course h⟩
    · simpa only [Publisher.broadcast, hp] using h₁
    · simpa only [Publisher.broadcast, Publisher.recorded, hp, List.nil_append,
        List.singleton_append] using h₂

end Batch

end FragmentRelay
