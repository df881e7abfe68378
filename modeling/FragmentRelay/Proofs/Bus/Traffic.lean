import FragmentRelay.Bus.Group
import FragmentRelay.Handling
import Mathlib.Data.List.Nodup
import Mathlib.Data.List.Perm.Basic
import Mathlib.Tactic.Common

/-!
# Traffic: where the messages of a group are

A message that was handed to a group is always in exactly one place: in the queue, behind a timer,
acknowledged or dead. Attempts are counted up, but a message keeps its serial number and its bytes.
So the places of a group hold the messages that were handed to it, each once (`Carries`).

* `contents_fire`, `contents_finish`: timers that run out and settled deliveries move messages
  between places.
* `Carries.handOver`: handing over adds one message.
* `mem_queue_fire`, `mem_dead_fire`: where a message is after its timer ran out.
* `Spares`: messages of a kind that are refused before their last attempt only do not die.
-/

namespace FragmentRelay.Bus.Group

variable {g : Group} {now : Instant} {e : Envelope} {t : Timer} {bodies : List Octets}

/-! ### Places -/

/-- The messages in all places of a group. -/
def places (g : Group) : List Envelope :=
  g.queue ++ g.timers.map (·.envelope) ++ g.acknowledged ++ g.dead

/-- The bytes and the serial numbers of the messages in all places. -/
def contents (g : Group) : List (Octets × Nat) := g.places.map fun e => (e.body, e.serial)

/-- The places of a group hold the messages that were handed to it, in some order. -/
structure Carries (g : Group) (bodies : List Octets) : Prop where
  handed_eq : g.handed = bodies.length
  contents_perm : g.contents.Perm bodies.zipIdx

theorem Carries.getElem?_of_mem (h : g.Carries bodies) (he : e ∈ g.places) :
    bodies[e.serial]? = some e.body := by
  have hm : (e.body, e.serial) ∈ bodies.zipIdx := h.contents_perm.subset (List.mem_map_of_mem he)
  exact List.mem_zipIdx_iff_getElem?.1 hm

theorem Carries.exists_of_getElem? (h : g.Carries bodies) {n : Nat} {body : Octets}
    (hn : bodies[n]? = some body) : ∃ e ∈ g.places, e.serial = n ∧ e.body = body := by
  have hm : (body, n) ∈ g.contents :=
    h.contents_perm.symm.subset (List.mem_zipIdx_iff_getElem?.2 hn)
  obtain ⟨e, he, heq⟩ := List.mem_map.1 hm
  cases heq
  exact ⟨e, he, rfl, rfl⟩

/-- **No message is in two places.** -/
theorem Carries.nodup (h : g.Carries bodies) : (g.places.map (·.serial)).Nodup := by
  have hp : (g.places.map (·.serial)).Perm (bodies.zipIdx.map (·.2)) := by
    have := h.contents_perm.map (·.2)
    rwa [contents, List.map_map] at this
  rw [hp.nodup_iff, List.zipIdx_map_snd]
  exact List.nodup_range'

theorem Carries.length_eq (h : g.Carries bodies) :
    g.queue.length + g.timers.length + g.acknowledged.length + g.dead.length = bodies.length := by
  have := h.contents_perm.length_eq
  simp only [contents, places, List.length_map, List.length_append, List.length_zipIdx] at this
  exact this

theorem Carries.serial_ne (h : g.Carries bodies) (he : e ∈ g.queue) {a : Envelope}
    (ha : a ∈ g.acknowledged) : a.serial ≠ e.serial := by
  have hn := h.nodup
  simp only [places, List.map_append, List.append_assoc] at hn
  have hdis := (List.nodup_append.1 hn).2.2
  exact (hdis e.serial (List.mem_map_of_mem he) a.serial (by simp [List.mem_map_of_mem ha])).symm

theorem count_contents (g : Group) (x : Octets × Nat) :
    g.contents.count x = (g.queue.map fun e => (e.body, e.serial)).count x +
      (g.timers.map fun t => (t.envelope.body, t.envelope.serial)).count x +
      (g.acknowledged.map fun e => (e.body, e.serial)).count x +
        (g.dead.map fun e => (e.body, e.serial)).count x := by
  simp only [contents, places, List.map_append, List.count_append, List.map_map]
  rfl

/-! ### Handing over -/

theorem contents_handOver (g : Group) (body : Octets) :
    (g.handOver body).contents.Perm (g.contents ++ [(body, g.handed)]) := by
  rw [List.perm_iff_count]
  intro x
  simp only [List.count_append, count_contents, handOver, List.map_append,
    List.map_cons, List.map_nil]
  omega

theorem Carries.handOver (h : g.Carries bodies) (body : Octets) :
    (g.handOver body).Carries (bodies ++ [body]) where
  handed_eq := by simp [Group.handOver, h.handed_eq]
  contents_perm := by
    rw [List.zipIdx_append]
    refine (contents_handOver g body).trans ?_
    simpa [h.handed_eq] using h.contents_perm.append_right _

/-! ### Ends of attempts -/

@[simp] theorem handed_redeliver (g : Group) (e : Envelope) (n : Nat) :
    (g.redeliver e n).handed = g.handed := by
  unfold redeliver
  split <;> rfl

@[simp] theorem timers_redeliver (g : Group) (e : Envelope) (n : Nat) :
    (g.redeliver e n).timers = g.timers := by
  unfold redeliver
  split <;> rfl

@[simp] theorem acknowledged_redeliver (g : Group) (e : Envelope) (n : Nat) :
    (g.redeliver e n).acknowledged = g.acknowledged := by
  unfold redeliver
  split <;> rfl

theorem contents_redeliver (g : Group) (e : Envelope) (n : Nat) :
    (g.redeliver e n).contents.Perm (g.contents ++ [(e.body, e.serial)]) := by
  rw [List.perm_iff_count]
  intro x
  unfold redeliver
  split
  · simp only [List.count_append, count_contents, List.map_cons, List.count_cons, List.count_nil]
    omega
  · simp only [List.count_append, count_contents, List.map_append, List.map_cons, List.map_nil]
    omega

theorem mem_queue_redeliver {n : Nat} {x : Envelope} :
    x ∈ (g.redeliver e n).queue ↔ x ∈ g.queue ∨ e.attempt < n ∧
    x = { e with attempt := e.attempt + 1 } := by
  unfold redeliver
  split
  · rename_i h
    simp [Nat.not_lt.2 h]
  · rename_i h
    simp [Nat.not_le.1 h]

theorem mem_dead_redeliver {n : Nat} {x : Envelope} :
    x ∈ (g.redeliver e n).dead ↔ x ∈ g.dead ∨ n ≤ e.attempt ∧ x = e := by
  unfold redeliver
  split
  · rename_i h
    simp [h, or_comm]
  · rename_i h
    simp [h]

/-! ### Timers that run out -/

/-- Redelivers the messages of some timers. -/
def redeliverAll (g : Group) (ts : List Timer) : Group :=
  ts.foldl (fun g t => g.redeliver t.envelope t.maxDeliveries) g

@[simp] theorem redeliverAll_cons (g : Group) (t : Timer) (ts : List Timer) :
    g.redeliverAll (t :: ts) = (g.redeliver t.envelope t.maxDeliveries).redeliverAll ts := rfl

theorem redeliverAll_unchanged (g : Group) (ts : List Timer) :
    (g.redeliverAll ts).handed = g.handed ∧ (g.redeliverAll ts).timers = g.timers ∧
      (g.redeliverAll ts).acknowledged = g.acknowledged := by
  induction ts generalizing g with
  | nil => exact ⟨rfl, rfl, rfl⟩
  | cons t ts ih => simpa using ih (g.redeliver t.envelope t.maxDeliveries)

theorem contents_redeliverAll (g : Group) (ts : List Timer) :
    (g.redeliverAll ts).contents.Perm
      (g.contents ++ ts.map fun t => (t.envelope.body, t.envelope.serial)) := by
  induction ts generalizing g with
  | nil => simp [redeliverAll]
  | cons t ts ih =>
    refine (ih _).trans ?_
    simpa using (contents_redeliver g t.envelope t.maxDeliveries).append_right _

theorem mem_queue_redeliverAll {ts : List Timer} {x : Envelope}
    (h : x ∈ (g.redeliverAll ts).queue) :
    x ∈ g.queue ∨ ∃ t ∈ ts, t.envelope.attempt < t.maxDeliveries ∧
      x = { t.envelope with attempt := t.envelope.attempt + 1 } := by
  induction ts generalizing g with
  | nil => exact .inl h
  | cons t ts ih =>
    rcases ih h with h | ⟨u, hu, hrest⟩
    · rcases mem_queue_redeliver.1 h with h | ⟨hlt, hx⟩
      · exact .inl h
      · exact .inr ⟨t, List.mem_cons_self, hlt, hx⟩
    · exact .inr ⟨u, List.mem_cons_of_mem _ hu, hrest⟩

theorem mem_dead_redeliverAll {ts : List Timer} {x : Envelope} (h : x ∈ (g.redeliverAll ts).dead) :
    x ∈ g.dead ∨ ∃ t ∈ ts, t.maxDeliveries ≤ t.envelope.attempt ∧ x = t.envelope := by
  induction ts generalizing g with
  | nil => exact .inl h
  | cons t ts ih =>
    rcases ih h with h | ⟨u, hu, hrest⟩
    · rcases mem_dead_redeliver.1 h with h | ⟨hle, hx⟩
      · exact .inl h
      · exact .inr ⟨t, List.mem_cons_self, hle, hx⟩
    · exact .inr ⟨u, List.mem_cons_of_mem _ hu, hrest⟩

theorem fire_eq (g : Group) (now : Instant) :
    g.fire now = { g with timers := g.timers.filter fun t => decide (now < t.due) }.redeliverAll
      (g.dueTimers now) := rfl

theorem fire_of_untimed (h : g.timers = []) (now : Instant) : g.fire now = g := by
  obtain ⟨name, handed, queue, timers, acknowledged, dead, turn⟩ := g
  obtain rfl : timers = [] := h
  simp [fire, dueTimers]

theorem mem_dueTimers {now : Instant} : t ∈ g.dueTimers now ↔ t ∈ g.timers ∧ t.due ≤ now := by
  simp [dueTimers, List.mem_mergeSort]

/-- **Timers that run out move messages between places.** -/
theorem contents_fire (g : Group) (now : Instant) : (g.fire now).contents.Perm g.contents := by
  rw [fire_eq]
  refine (contents_redeliverAll _ _).trans ?_
  have hdue : ((g.dueTimers now).map fun t => (t.envelope.body, t.envelope.serial)).Perm
      ((g.timers.filter fun t => decide (t.due ≤ now)).map fun t =>
        (t.envelope.body, t.envelope.serial)) :=
    (List.mergeSort_perm _ _).map _
  have hsplit := (List.filter_append_perm (fun t : Timer => decide (t.due ≤ now)) g.timers).map
    fun t => (t.envelope.body, t.envelope.serial)
  have hnot : (fun t : Timer => !decide (t.due ≤ now)) = fun t => decide (now < t.due) := by
    funext t
    simp only [← decide_not, Nat.not_le]
  rw [hnot] at hsplit
  rw [List.perm_iff_count] at hdue hsplit ⊢
  intro x
  have h₁ := hdue x
  have h₂ := hsplit x
  simp only [List.map_append, List.count_append, count_contents] at h₁ h₂ ⊢
  omega

theorem Carries.fire (h : g.Carries bodies) (now : Instant) : (g.fire now).Carries bodies where
  handed_eq := by
    rw [fire_eq, (redeliverAll_unchanged _ _).1]
    exact h.handed_eq
  contents_perm := (contents_fire g now).trans h.contents_perm

theorem mem_timers_fire {now : Instant} (h : t ∈ (g.fire now).timers) : t ∈ g.timers := by
  rw [fire_eq, (redeliverAll_unchanged _ _).2.1] at h
  exact (List.mem_filter.1 h).1

theorem acknowledged_fire (g : Group) (now : Instant) :
    (g.fire now).acknowledged = g.acknowledged := by
  rw [fire_eq, (redeliverAll_unchanged _ _).2.2]

theorem mem_queue_fire {x : Envelope} (h : x ∈ (g.fire now).queue) :
    x ∈ g.queue ∨ ∃ t ∈ g.timers, t.envelope.attempt < t.maxDeliveries ∧
      x = { t.envelope with attempt := t.envelope.attempt + 1 } := by
  rw [fire_eq] at h
  rcases mem_queue_redeliverAll h with h | ⟨t, ht, hrest⟩
  · exact .inl h
  · exact .inr ⟨t, (mem_dueTimers.1 ht).1, hrest⟩

theorem mem_dead_fire {x : Envelope} (h : x ∈ (g.fire now).dead) :
    x ∈ g.dead ∨ ∃ t ∈ g.timers, t.maxDeliveries ≤ t.envelope.attempt ∧ x = t.envelope := by
  rw [fire_eq] at h
  rcases mem_dead_redeliverAll h with h | ⟨t, ht, hrest⟩
  · exact .inl h
  · exact .inr ⟨t, (mem_dueTimers.1 ht).1, hrest⟩

/-! ### Deliveries that are taken and settled at one instant -/

/-- The group after the first message of its queue was taken and settled. -/
def finish (g : Group) (now : Instant) (e : Envelope) (rest : List Envelope) (maxDeliveries : Nat) :
    Disposition → Group
  | .ack => { g with queue := rest, acknowledged := e :: g.acknowledged }
  | .nack after =>
    if after.nanos = 0 then { g with queue := rest }.redeliver e maxDeliveries
    else { g with queue := rest, timers := g.timers ++
      [⟨now + after.nanos, .delay, e, maxDeliveries⟩] }

theorem contents_finish {rest : List Envelope} (hq : g.queue = e :: rest) (now : Instant) (n : Nat)
    (s : Disposition) : (g.finish now e rest n s).contents.Perm g.contents := by
  rw [List.perm_iff_count]
  intro x
  have hg := count_contents g x
  rw [hq, List.map_cons, List.count_cons] at hg
  cases s with
  | ack =>
    simp only [finish, count_contents, List.map_cons, List.count_cons] at hg ⊢
    omega
  | nack after =>
    simp only [finish]
    split
    · have hr := List.perm_iff_count.1 (contents_redeliver { g with queue := rest } e n) x
      simp only [List.count_append, count_contents, List.count_cons, List.count_nil] at hr hg ⊢
      omega
    · simp only [count_contents, List.map_append, List.map_cons, List.map_nil, List.count_append,
        List.count_cons, List.count_nil] at hg ⊢
      omega

theorem Carries.finish (h : g.Carries bodies) {rest : List Envelope}
    (hq : g.queue = e :: rest) (now : Instant) (n : Nat) (s : Disposition) :
    (g.finish now e rest n s).Carries bodies where
  handed_eq := by
    cases s with
    | ack => exact h.handed_eq
    | nack after =>
      simp only [Group.finish]
      split
      · rw [handed_redeliver]
        exact h.handed_eq
      · exact h.handed_eq
  contents_perm := (contents_finish hq now n s).trans h.contents_perm

/-! ### Messages that are not given up -/

/-- All timers of a group wait for the end of a delay, and allow the same number of attempts. -/
def Resting (g : Group) (n : Nat) : Prop := ∀ t ∈ g.timers, t.wait = .delay ∧ t.maxDeliveries = n

namespace Resting

variable {n : Nat}

theorem handOver (h : g.Resting n) (body : Octets) : (g.handOver body).Resting n := h

theorem fire (h : g.Resting n) (now : Instant) :
    (g.fire now).Resting n := fun t ht => h t (mem_timers_fire ht)

theorem finish (h : g.Resting n) (now : Instant) (e : Envelope) (rest : List Envelope)
    (d : Disposition) : (g.finish now e rest n d).Resting n := by
  cases d with
  | ack => exact h
  | nack after =>
    intro t ht
    simp only [Group.finish] at ht
    split at ht
    · rw [timers_redeliver] at ht
      exact h t ht
    · rcases List.mem_append.1 ht with ht | ht
      · exact h t ht
      · rw [List.mem_singleton.1 ht]
        exact ⟨rfl, rfl⟩

end Resting

/-- Messages of one kind are not dead and will not be: where one waits it is not on its last
attempt. -/
structure Spares (g : Group) (kind : Octets → Prop) (n : Nat) : Prop where
  queue : ∀ e ∈ g.queue, kind e.body → e.attempt ≤ n
  timers : ∀ t ∈ g.timers, kind t.envelope.body → t.envelope.attempt < n
  dead : ∀ e ∈ g.dead, ¬ kind e.body

namespace Spares

variable {kind : Octets → Prop} {n : Nat}

theorem empty (name : String) (kind : Octets → Prop) (n : Nat) : Spares { name } kind n where
  queue _ he := absurd he List.not_mem_nil
  timers _ ht := absurd ht List.not_mem_nil
  dead _ he := absurd he List.not_mem_nil

theorem handOver (h : g.Spares kind n) (hn : 1 ≤ n) (body : Octets) :
    (g.handOver body).Spares kind n where
  queue e he hk := by
    rcases List.mem_append.1 he with he | he
    · exact h.queue e he hk
    · rw [List.mem_singleton.1 he]
      exact hn
  timers := h.timers
  dead := h.dead

theorem redeliver (h : g.Spares kind n) (he : kind e.body → e.attempt < n) :
    (g.redeliver e n).Spares kind n where
  queue x hx hk := by
    rcases mem_queue_redeliver.1 hx with hx | ⟨hlt, rfl⟩
    · exact h.queue x hx hk
    · exact hlt
  timers := by
    rw [timers_redeliver]
    exact h.timers
  dead x hx hk := by
    rcases mem_dead_redeliver.1 hx with hx | ⟨hle, rfl⟩
    · exact h.dead x hx hk
    · exact absurd (he hk) (Nat.not_lt.2 hle)

/-- A timer that runs out leads to another attempt. -/
theorem fire (h : g.Spares kind n) (hr : g.Resting n) (now : Instant) :
    (g.fire now).Spares kind n where
  queue e he hk := by
    rcases mem_queue_fire he with he | ⟨t, ht, hlt, rfl⟩
    · exact h.queue e he hk
    · exact h.timers t ht hk
  timers t ht := h.timers t (mem_timers_fire ht)
  dead e he hk := by
    rcases mem_dead_fire he with he | ⟨t, ht, hle, rfl⟩
    · exact h.dead e he hk
    · rw [(hr t ht).2] at hle
      exact absurd (h.timers t ht hk) (Nat.not_lt.2 hle)

/-- A message of the kind may be refused unless it is on its last attempt. -/
theorem finish (h : g.Spares kind n) {rest : List Envelope} (hq : g.queue = e :: rest)
    (now : Instant) {d : Disposition} (hd : kind e.body → d = .ack ∨ e.attempt < n) :
    (g.finish now e rest n d).Spares kind n := by
  have hrest : ∀ x ∈ rest, kind x.body →
    x.attempt ≤ n := fun x hx => h.queue x (hq ▸ List.mem_cons_of_mem e hx)
  cases d with
  | ack => exact ⟨hrest, h.timers, h.dead⟩
  | nack after =>
    have hlt : kind e.body → e.attempt < n := fun hk => (hd hk).resolve_left Disposition.noConfusion
    simp only [Group.finish]
    split
    · exact redeliver ⟨hrest, h.timers, h.dead⟩ hlt
    · refine ⟨hrest, fun t ht hk => ?_, h.dead⟩
      rcases List.mem_append.1 ht with ht | ht
      · exact h.timers t ht hk
      · rw [List.mem_singleton.1 ht] at hk ⊢
        exact hlt hk

end Spares

theorem acknowledged_sublist_finish (g : Group) (now : Instant) (e : Envelope)
    (rest : List Envelope) (n : Nat) (d : Disposition) :
    g.acknowledged.Sublist (g.finish now e rest n d).acknowledged := by
  cases d with
  | ack => exact List.sublist_cons_self e _
  | nack after =>
    simp only [finish]
    split
    · rw [acknowledged_redeliver]
    · exact List.Sublist.refl _

end FragmentRelay.Bus.Group
