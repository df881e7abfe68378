import FragmentRelay.Proofs.Bus.View

/-!
# Spots: the steps of a group, and which message each of them moves

A group takes one step at a time: a message is handed over to it, handed out to a subscriber,
acknowledged or refused, or a timer lapses. `Group.Step` lists all that a step can do, with a note
of what happened. Every step moves at most one message from one spot to another (`Shift`), or it
settles a delivery that nobody awaits, and then nothing changes.

* `Group.Step.spots`: which message a step moves.
* `Group.steps_fire`: timers that run out together lapse one after another.
-/

namespace FragmentRelay.Bus

/-- A delivery of a message to a subscriber of a group. -/
structure Handout where
  instant : Instant
  ticket : Nat
  envelope : Envelope
  due : Instant
  maxDeliveries : Nat
deriving DecidableEq

/-- What happened to a group, and when. -/
inductive Note where
  | handedOver (instant : Instant) (body : Octets)
  | handedOut (h : Handout)
  | acknowledged (instant : Instant) (ticket : Nat)
  | refused (instant : Instant) (ticket : Nat) (after : Span)
  | lapsed (instant : Instant) (timer : Timer)
deriving DecidableEq

namespace Note

/-- When it happened. -/
def instant : Note → Instant
  | handedOver instant _ => instant
  | handedOut h => h.instant
  | acknowledged instant _ => instant
  | refused instant _ _ => instant
  | lapsed instant _ => instant

/-- The delivery that is settled, in time or not. -/
def settled? : Note → Option Nat
  | acknowledged _ ticket => some ticket
  | refused _ ticket _ => some ticket
  | _ => none

end Note

/-! ### Spots -/

/-- Where a message is. -/
inductive Spot where
  | queued (e : Envelope)
  | timed (t : Timer)
  | acknowledged (e : Envelope)
  | dead (e : Envelope)
deriving DecidableEq

namespace Spot

/-- The message on its present attempt. -/
def envelope : Spot → Envelope
  | queued e => e
  | timed t => t.envelope
  | acknowledged e => e
  | dead e => e

/-- Where a message is after an attempt that ended without an acknowledgement. -/
def again (e : Envelope) (maxDeliveries : Nat) : Spot :=
  if maxDeliveries ≤ e.attempt then dead e else queued { e with attempt := e.attempt + 1 }

end Spot

/-- How a message moves when something happens to it. -/
inductive Shift : Spot → Note → Spot → Prop where
  | handOut (h : Handout) :
    Shift (.queued h.envelope) (.handedOut h)
      (.timed ⟨h.due, .settlement h.ticket, h.envelope, h.maxDeliveries⟩)
  | acknowledge {t : Timer} {now : Instant} {ticket : Nat} (ht : t.wait = .settlement ticket) :
    Shift (.timed t) (.acknowledged now ticket) (.acknowledged t.envelope)
  | refuse {t : Timer} {now : Instant} {ticket : Nat} {after : Span}
      (ht : t.wait = .settlement ticket) (hafter : after.nanos = 0) :
    Shift (.timed t) (.refused now ticket after) (.again t.envelope t.maxDeliveries)
  | postpone {t : Timer} {now : Instant} {ticket : Nat} {after : Span}
      (ht : t.wait = .settlement ticket) (hafter : after.nanos ≠ 0) :
    Shift (.timed t) (.refused now ticket after)
      (.timed { t with due := now + after.nanos, wait := .delay })
  | lapse {t : Timer} {now : Instant} (hdue : t.due ≤ now) :
    Shift (.timed t) (.lapsed now t) (.again t.envelope t.maxDeliveries)

namespace Spot

@[simp] theorem serial_again (e : Envelope) (n : Nat) : (again e n).envelope.serial = e.serial := by
  unfold again
  split <;> rfl

@[simp] theorem body_again (e : Envelope) (n : Nat) : (again e n).envelope.body = e.body := by
  unfold again
  split <;> rfl

end Spot

/-- A message keeps its serial number and its bytes. -/
theorem Shift.same {s s' : Spot} {x : Note} (h : Shift s x s') :
    s'.envelope.serial = s.envelope.serial ∧ s'.envelope.body = s.envelope.body := by
  cases h with
  | handOut h => exact ⟨rfl, rfl⟩
  | acknowledge ht => exact ⟨rfl, rfl⟩
  | refuse ht hafter => exact ⟨Spot.serial_again _ _, Spot.body_again _ _⟩
  | postpone ht hafter => exact ⟨rfl, rfl⟩
  | lapse hdue => exact ⟨Spot.serial_again _ _, Spot.body_again _ _⟩

namespace Group

variable {g g' : Group} {t : Timer} {now : Instant}

/-- All spots of a group. -/
def spots (g : Group) : List Spot :=
  g.queue.map .queued ++ g.timers.map .timed ++ g.acknowledged.map .acknowledged ++ g.dead.map .dead

theorem places_eq_spots (g : Group) : g.places = g.spots.map (·.envelope) := by
  simp only [places, spots, List.map_append, List.map_map]
  have hid : ∀ l : List Envelope, l = l.map id := fun l => l.map_id.symm
  rw [hid g.queue, hid g.acknowledged, hid g.dead]
  simp only [List.map_map]
  rfl

theorem contents_eq_spots (g : Group) :
    g.contents = g.spots.map fun s => (s.envelope.body, s.envelope.serial) := by
  simp only [contents, places, spots, List.map_append, List.map_map]
  rfl

theorem count_spots (g : Group) (s : Spot) :
    g.spots.count s = (g.queue.map Spot.queued).count s + (g.timers.map Spot.timed).count s +
      (g.acknowledged.map Spot.acknowledged).count s + (g.dead.map Spot.dead).count s := by
  simp only [spots, List.count_append]

theorem mem_spots_timed : .timed t ∈ g.spots ↔ t ∈ g.timers := by
  simp [spots]

theorem mem_spots_dead {e : Envelope} : .dead e ∈ g.spots ↔ e ∈ g.dead := by
  simp [spots]

theorem spots_handOver (g : Group) (body : Octets) :
    (g.handOver body).spots.Perm (.queued ⟨g.handed, body, 1⟩ :: g.spots) := by
  rw [List.perm_iff_count]
  intro s
  simp only [List.count_cons, count_spots, handOver, List.map_append, List.map_cons, List.map_nil,
    List.count_append, List.count_nil]
  omega

theorem spots_redeliver (g : Group) (e : Envelope) (n : Nat) :
    (g.redeliver e n).spots.Perm (.again e n :: g.spots) := by
  rw [List.perm_iff_count]
  intro s
  unfold redeliver Spot.again
  split
  · simp only [List.count_cons, count_spots, List.map_cons]
    omega
  · simp only [List.count_cons, count_spots, List.map_append, List.map_cons, List.map_nil,
      List.count_append, List.count_nil]
    omega

/-- The group without one of its timers. -/
def without (g : Group) (t : Timer) : Group := { g with timers := g.timers.erase t }

theorem spots_without (ht : t ∈ g.timers) : g.spots.Perm (.timed t :: (g.without t).spots) := by
  have htimers := (List.perm_cons_erase ht).map Spot.timed
  rw [List.perm_iff_count] at htimers ⊢
  intro s
  have hs := htimers s
  simp only [List.map_cons, List.count_cons] at hs
  simp only [List.count_cons, count_spots, without] at hs ⊢
  omega

/-! ### Steps -/

/-- All that a group can do in one step. -/
inductive Step : Group → Note → Group → Prop where
  | handOver {g : Group} {now : Instant} {body : Octets} :
      Step g (.handedOver now body) (g.handOver body)
  | handOut {g : Group} {h : Handout} {rest : List Envelope} (hq : g.queue = h.envelope :: rest) :
    Step g (.handedOut h) { g with
      queue := rest, timers :=
        g.timers ++ [⟨h.due, .settlement h.ticket, h.envelope, h.maxDeliveries⟩] }
  | acknowledge {g : Group} {now : Instant} {ticket : Nat} :
    Step g (.acknowledged now ticket) (g.acknowledge ticket)
  | refuse {g : Group} {now : Instant} {ticket : Nat} {after : Span} :
    Step g (.refused now ticket after) (g.refuse now ticket after)
  | lapse {g : Group} {t : Timer} {now : Instant} (ht : t ∈ g.timers) (hdue : t.due ≤ now) :
    Step g (.lapsed now t) ((g.without t).redeliver t.envelope t.maxDeliveries)

/-- At most one timer waits for the settlement of a delivery. -/
def Apart (g : Group) : Prop :=
  ∀ ticket, (g.timers.filter fun t => t.wait == .settlement ticket).length ≤ 1

theorem awaiting?_eq_none_iff {ticket : Nat} :
    g.awaiting? ticket = none ↔ ∀ t ∈ g.timers, t.wait ≠ .settlement ticket := by
  simp [awaiting?, List.find?_eq_none]

theorem awaiting?_some {ticket : Nat} (h : g.awaiting? ticket = some t) :
    t ∈ g.timers ∧ t.wait = .settlement ticket :=
  ⟨List.mem_of_find?_eq_some h, by simpa using List.find?_some h⟩

/-- Where only one entry has a property, dropping those with the property drops that entry. -/
theorem filter_not_eq_erase {p : Timer → Bool} {l : List Timer}
    (h : (l.filter p).length ≤ 1) (ht : t ∈ l) (hp : p t = true) :
    (l.filter fun u => !p u) = l.erase t := by
  induction l with
  | nil => cases ht
  | cons u l ih =>
    by_cases hu : u = t
    · subst hu
      rw [List.filter_cons_of_pos hp, List.length_cons] at h
      have hnone : l.filter p = [] := List.length_eq_zero_iff.1 (by omega)
      rw [List.erase_cons_head, List.filter_cons_of_neg (by simp [hp]), List.filter_eq_self]
      intro v hv
      simpa using List.filter_eq_nil_iff.1 hnone v hv
    · have htl : t ∈ l := (List.mem_cons.1 ht).resolve_left (Ne.symm hu)
      have hpos : 0 < (l.filter p).length := List.length_pos_of_mem (List.mem_filter.2 ⟨htl, hp⟩)
      have hpu : ¬ p u = true := by
        intro hpu
        rw [List.filter_cons_of_pos hpu, List.length_cons] at h
        omega
      rw [List.filter_cons_of_neg hpu] at h
      rw [List.erase_cons_tail (by simpa using hu),
        List.filter_cons_of_pos (by simpa using hpu), ih h htl]

theorem stopAwaiting_eq {ticket : Nat} (h : g.Apart) (ht : g.awaiting? ticket = some t) :
    g.stopAwaiting ticket = g.without t := by
  obtain ⟨hmem, hwait⟩ := awaiting?_some ht
  have htimers := filter_not_eq_erase (h ticket) hmem (by simp [hwait])
  simp only [stopAwaiting, without, ← htimers]
  rfl

/-- **A step moves one message, or nothing.** -/
theorem Step.spots {x : Note} (h : g.Step x g') (hapart : g.Apart) :
    (∃ now body, x = .handedOver now body ∧ g' = g.handOver body) ∨
    (∃ s s' rest, Shift s x s' ∧ g.spots.Perm (s :: rest) ∧ g'.spots.Perm (s' :: rest) ∧
      g'.handed = g.handed) ∨
    (∃ ticket, x.settled? = some ticket ∧
      (∀ t ∈ g.timers, t.wait ≠ .settlement ticket) ∧ g' = g) := by
  cases h with
  | @handOver now body => exact .inl ⟨now, body, rfl, rfl⟩
  | @handOut h rest hq =>
    refine .inr (.inl ⟨_, _, { g with queue := rest }.spots, .handOut h, ?_, ?_, rfl⟩)
    · simp [Group.spots, hq]
    · rw [List.perm_iff_count]
      intro s
      simp only [List.count_cons, count_spots, List.map_append, List.map_cons, List.map_nil,
        List.count_append, List.count_nil]
      omega
  | @acknowledge now ticket =>
    cases ht : g.awaiting? ticket with
    | none =>
      exact .inr (.inr ⟨ticket, rfl, awaiting?_eq_none_iff.1 ht, by simp [Group.acknowledge, ht]⟩)
    | some t =>
      obtain ⟨hmem, hwait⟩ := awaiting?_some ht
      refine .inr (.inl ⟨_, _, (g.without t).spots, .acknowledge hwait, spots_without hmem, ?_, ?_⟩)
      · simp only [Group.acknowledge, ht, stopAwaiting_eq hapart ht]
        rw [List.perm_iff_count]
        intro s
        simp only [List.count_cons, count_spots, without, List.map_cons]
        omega
      · simp only [Group.acknowledge, ht]
        rfl
  | @refuse now ticket after =>
    cases ht : g.awaiting? ticket with
    | none =>
      exact .inr (.inr ⟨ticket, rfl, awaiting?_eq_none_iff.1 ht, by simp [Group.refuse, ht]⟩)
    | some t =>
      obtain ⟨hmem, hwait⟩ := awaiting?_some ht
      simp only [Group.refuse, ht, stopAwaiting_eq hapart ht]
      split
      · rename_i hzero
        exact .inr (.inl ⟨_, _, (g.without t).spots, .refuse hwait hzero, spots_without hmem,
          spots_redeliver _ _ _, handed_redeliver _ _ _⟩)
      · rename_i hpos
        refine .inr
          (.inl ⟨_, _, (g.without t).spots, .postpone hwait hpos, spots_without hmem, ?_, rfl⟩)
        rw [List.perm_iff_count]
        intro s
        simp only [List.count_cons, count_spots, without, List.map_append,
          List.map_cons, List.map_nil, List.count_append, List.count_nil]
        omega
  | @lapse t now ht hdue =>
    exact .inr
      (.inl ⟨_, _, (g.without t).spots, .lapse hdue, spots_without ht, spots_redeliver _ _ _,
        handed_redeliver _ _ _⟩)

/-! ### Several steps -/

/-- Steps in a row. -/
inductive Steps : Group → List Note → Group → Prop where
  | done {g : Group} : Steps g [] g
  | next {g g₁ g' : Group} {x : Note} {xs : List Note} (h : g.Step x g₁) (hs : Steps g₁ xs g') :
      Steps g (x :: xs) g'

theorem Step.steps {x : Note} (h : g.Step x g') : Steps g [x] g' := .next h .done

theorem steps_handOver (g : Group) (now : Instant) (bodies : List Octets) :
    Steps g (bodies.map (.handedOver now)) (bodies.foldl Group.handOver g) := by
  induction bodies generalizing g with
  | nil => exact .done
  | cons body bodies ih => exact .next .handOver (ih (g.handOver body))

theorem steps_lapse {now : Instant} (ts : List Timer) (hdue : ∀ t ∈ ts, t.due ≤ now) :
    ∀ g : Group, ts.Subperm g.timers →
      Steps g (ts.map (.lapsed now)) (redeliverAll { g with timers := g.timers.diff ts } ts) := by
  induction ts with
  | nil => exact fun g _ => .done
  | cons t ts ih =>
    -- a message that comes back goes to the queue or dies: the other timers are still there
    intro g hsub
    have hmem : t ∈ g.timers := hsub.subset List.mem_cons_self
    have htail : ts.Subperm (g.timers.erase t) := by
      have h := hsub.erase t
      rwa [List.erase_cons_head] at h
    have hrest := ih (fun u hu => hdue u (List.mem_cons_of_mem t hu))
      ((g.without t).redeliver t.envelope t.maxDeliveries) (by rw [timers_redeliver]; exact htail)
    have hstart : { (g.without t).redeliver t.envelope t.maxDeliveries with
        timers := ((g.without t).redeliver t.envelope t.maxDeliveries).timers.diff ts } =
        { g with timers := g.timers.diff (t :: ts) }.redeliver t.envelope t.maxDeliveries := by
      rw [timers_redeliver, List.diff_cons]
      unfold redeliver
      split <;> rfl
    rw [hstart] at hrest
    exact .next (.lapse hmem (hdue t List.mem_cons_self)) hrest

theorem diff_filter (p : Timer → Bool) (l : List Timer) :
    l.diff (l.filter p) = l.filter fun t => !p t := by
  induction l with
  | nil => rfl
  | cons t l ih =>
    by_cases hp : p t = true
    · rw [List.filter_cons_of_pos hp, List.filter_cons_of_neg (by simp [hp]), List.diff_cons,
        List.erase_cons_head, ih]
    · have hnot : t ∉ l.filter p := fun h => hp (List.mem_filter.1 h).2
      rw [List.filter_cons_of_neg hp, List.filter_cons_of_pos (by simpa using hp),
        List.cons_diff_of_not_mem hnot, ih]

/-- **Timers that run out together lapse one after another.** -/
theorem steps_fire (g : Group) (now : Instant) :
    Steps g ((g.dueTimers now).map (.lapsed now)) (g.fire now) := by
  have hdue : (g.dueTimers now).Perm (g.timers.filter fun t => decide (t.due ≤ now)) :=
    List.mergeSort_perm _ _
  have htimers :
      g.timers.diff (g.dueTimers now) = g.timers.filter fun t => decide (now < t.due) := by
    rw [hdue.diff_left, diff_filter]
    refine List.filter_congr fun t _ => ?_
    simp only [← decide_not, Nat.not_le]
  have hsteps := steps_lapse (g.dueTimers now) (fun t ht => (mem_dueTimers.1 ht).2) g
    (hdue.subperm.trans List.filter_sublist.subperm)
  rwa [htimers, ← fire_eq] at hsteps

end Group

end FragmentRelay.Bus
