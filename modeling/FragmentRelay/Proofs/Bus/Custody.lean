import FragmentRelay.Proofs.Bus.Audience
import FragmentRelay.Proofs.Bus.Ledger

/-!
# Custody: the place of a message

A message of a group is in its queue, delivered and awaited, waiting out a delay, acknowledged, or
dead. After any run every message that was meant for the group is in exactly one of these places,
once, and its last delivery tells which; nothing else is in them.

* `Group.inPlace_eq`: the places, by spots.
* `Told.place_eq`: the notes of a message tell its place.
* `each_message_in_one_place`: no message is lost and none is doubled.
-/

namespace FragmentRelay.Bus

/-- Where a message can be. -/
inductive Place where
  | queued
  | delivered
  | delayed
  | acknowledged
  | dead
deriving DecidableEq

/-- The messages of a group in a place. -/
def Group.inPlace (g : Group) : Place → List Envelope
  | .queued => g.queue
  | .delivered => (g.timers.filter fun t => t.wait ≠ .delay).map (·.envelope)
  | .delayed => (g.timers.filter fun t => t.wait = .delay).map (·.envelope)
  | .acknowledged => g.acknowledged
  | .dead => g.dead

/-- The place that its last delivery gives a message: before the first delivery it is queued, and so
it is after one that has ended, unless that was the last one allowed. -/
def placeOf (notes : List Note) (serial : Nat) : Place :=
  match (tries notes serial).getLast? with
  | none => .queued
  | some h =>
    match h.fate notes with
    | .awaited => .delivered
    | .delayed _ => .delayed
    | .acknowledged => .acknowledged
    | .ended => if h.maxDeliveries ≤ h.envelope.attempt then .dead else .queued

/-- The place of a spot. -/
def Spot.place : Spot → Place
  | .queued _ => .queued
  | .timed t => if t.wait = .delay then .delayed else .delivered
  | .acknowledged _ => .acknowledged
  | .dead _ => .dead

variable {notes : List Note} {s : Spot} {g : Group} {h : Handout} {f : Fate} {ticket n : Nat}

theorem Group.inPlace_eq (g : Group) (p : Place) :
    g.inPlace p = (g.spots.filter fun s => s.place = p).map (·.envelope) := by
  cases p <;>
    simp [inPlace, spots, List.filter_append, List.filter_map, Function.comp_def, Spot.place,
      Spot.envelope, ite_eq_iff]

theorem Told.place_eq (ht : Told notes s) : placeOf notes s.envelope.serial = s.place := by
  have hlatest : ∀ {h f}, Latest notes h f → h.envelope.serial = s.envelope.serial →
      (tries notes s.envelope.serial).getLast? = some h ∧ h.fate notes = f := by
    intro h f hl hserial
    obtain ⟨earlier, htries, -, -⟩ := hl.exists_earlier
    rw [← hserial, htries]
    exact ⟨List.getLast?_concat, hl.fate_eq⟩
  unfold placeOf
  cases s with
  | queued e =>
    obtain ⟨hspent, -⟩ := ht
    cases hlast : (tries notes e.serial).getLast? with
    | none => simp [Spot.envelope, hlast, Spot.place]
    | some h =>
      have hmem := List.mem_of_getLast? hlast
      simp [Spot.envelope, hlast, Spot.place, hspent.ended h hmem, hspent.allowed h hmem]
  | timed t =>
    obtain ⟨h, henvelope, -, ⟨hticket, -, hl⟩ | ⟨hdelay, hl⟩⟩ := ht
    · obtain ⟨hlast, hf⟩ := hlatest hl (congrArg _ henvelope)
      simp [hlast, hf, Spot.place, hticket]
    · obtain ⟨hlast, hf⟩ := hlatest hl (congrArg _ henvelope)
      simp [hlast, hf, Spot.place, hdelay]
  | acknowledged e =>
    obtain ⟨h, henvelope, hl⟩ := ht
    obtain ⟨hlast, hf⟩ := hlatest hl (congrArg _ henvelope)
    simp [hlast, hf, Spot.place]
  | dead e =>
    obtain ⟨h, henvelope, hle, hl⟩ := ht
    obtain ⟨hlast, hf⟩ := hlatest hl (congrArg _ henvelope)
    simp [hlast, hf, Spot.place, henvelope, hle]

/-! ### One place for each message -/

theorem filter_eq_singleton {l : List Spot} (hn : (l.map (·.envelope.serial)).Nodup) (hs : s ∈ l) :
    (l.filter fun u => u.envelope.serial = s.envelope.serial) = [s] := by
  have hsame : (l.filter fun u => u.envelope.serial = s.envelope.serial) = l.filter (· == s) := by
    refine List.filter_congr fun u hu => ?_
    rw [Bool.eq_iff_iff, decide_eq_true_iff, beq_iff_eq]
    exact ⟨fun he => List.inj_on_of_nodup_map hn hu hs he, fun he => by rw [he]⟩
  rw [hsame, List.filter_beq, List.count_eq_one_of_mem hn.of_map hs, List.replicate_one]

namespace Recorded

/-- **A message is in the place that its notes tell, once, and in no other.** -/
theorem inPlace_filter (hr : Recorded notes g ticket) {body : Octets}
    (hn : (bodies notes)[n]? = some body) :
    ∃ e : Envelope, e.body = body ∧
      ∀ p, ((g.inPlace p).filter fun e => e.serial = n) = if p = placeOf notes n
        then [e] else [] := by
  obtain ⟨e, he, rfl, rfl⟩ := hr.carries.exists_of_getElem? hn
  rw [Group.places_eq_spots] at he
  obtain ⟨s, hs, rfl⟩ := List.mem_map.1 he
  refine ⟨s.envelope, rfl, fun p => ?_⟩
  have hone := filter_eq_singleton hr.serials_nodup hs
  rw [(hr.told s hs).place_eq, Group.inPlace_eq, List.filter_map, List.filter_filter]
  have hcomm : (g.spots.filter fun u =>
      ((fun e : Envelope => decide (e.serial = s.envelope.serial)) ∘ Spot.envelope) u &&
        decide (u.place = p)) =
      (g.spots.filter fun u => u.envelope.serial = s.envelope.serial).filter fun u =>
        u.place = p := by
    rw [List.filter_filter]
    exact List.filter_congr fun u _ => Bool.and_comm _ _
  rw [hcomm, hone]
  by_cases hp : p = s.place
  · simp [hp]
  · simp [hp, Ne.symm hp]

theorem serial_lt_of_inPlace (hr : Recorded notes g ticket) {p : Place} {e : Envelope}
    (he : e ∈ g.inPlace p) : e.serial < (bodies notes).length := by
  rw [Group.inPlace_eq] at he
  obtain ⟨s, hs, rfl⟩ := List.mem_map.1 he
  have hmem : s.envelope ∈ g.places := by
    rw [Group.places_eq_spots]
    exact List.mem_map_of_mem (List.mem_filter.1 hs).1
  exact (List.getElem?_eq_some_iff.1 (hr.carries.getElem?_of_mem hmem)).1

theorem length_inPlace (hr : Recorded notes g ticket) (p : Place) :
    (g.inPlace p).length = (List.range (bodies notes).length).countP fun n =>
      placeOf notes n = p := by
  have hperm : ((g.inPlace p).map (·.serial)).Perm
      ((List.range (bodies notes).length).filter fun n => placeOf notes n = p) := by
    have hnodup : ((g.inPlace p).map (·.serial)).Nodup := by
      rw [Group.inPlace_eq, List.map_map]
      exact hr.serials_nodup.sublist (List.filter_sublist.map _)
    refine (List.perm_ext_iff_of_nodup hnodup (List.nodup_range.filter _)).2 fun n => ?_
    rw [List.mem_map, List.mem_filter, List.mem_range, decide_eq_true_iff]
    constructor
    · rintro ⟨e, he, rfl⟩
      have hlt := hr.serial_lt_of_inPlace he
      obtain ⟨_, _, hfilter⟩ := hr.inPlace_filter (List.getElem?_eq_getElem hlt)
      refine ⟨hlt, ?_⟩
      by_contra hne
      have hnone := hfilter p
      rw [if_neg (Ne.symm hne), List.filter_eq_nil_iff] at hnone
      exact hnone e he (decide_eq_true rfl)
    · rintro ⟨hlt, rfl⟩
      obtain ⟨e, -, hfilter⟩ := hr.inPlace_filter (List.getElem?_eq_getElem hlt)
      have hmem : e ∈ (g.inPlace (placeOf notes n)).filter fun e => e.serial = n := by
        rw [hfilter, if_pos rfl]
        exact List.mem_singleton_self e
      obtain ⟨hmem, hserial⟩ := List.mem_filter.1 hmem
      exact ⟨e, hmem, of_decide_eq_true hserial⟩
  rw [List.countP_eq_length_filter, ← hperm.length_eq, List.length_map]

end Recorded

theorem deadLetters_eq (b : Bus) (topic group : String) :
    b.deadLetters topic group = ((b.part topic group).inPlace .dead).length := by
  unfold deadLetters part view
  cases b.group? topic group <;> rfl

/-- **No message is lost and none is doubled.** At every moment of every run each message for a
group is in exactly one place, once, the one that its last delivery tells; nothing else is in any
place; and the dead letters are the messages whose place is the last one. -/
theorem each_message_in_one_place (events : List Happening) (topic group : String) :
    let bus := (run events).bus
    let messages := messagesFor topic group (opened events)
    let place := placeOf (chronicle topic group events)
    (∀ n body, messages[n]? = some body → ∃ e : Envelope, e.body = body ∧
      ∀ p, (((bus.part topic group).inPlace p).filter fun e => e.serial = n) = if p = place n
        then [e] else []) ∧
    (∀ p, ∀ e ∈ (bus.part topic group).inPlace p, e.serial < messages.length) ∧
    bus.deadLetters topic group = (List.range messages.length).countP fun n => place n = .dead := by
  have hr := (ledger_run events topic group).recorded
  simp only
  rw [← bodies_chronicle, deadLetters_eq]
  exact ⟨fun n body hn => hr.inPlace_filter hn, fun p e he => hr.serial_lt_of_inPlace he,
    hr.length_inPlace .dead⟩

/-- One message is kept, delivered twice and given up; another one is acknowledged. -/
def mixedRun : List Happening := [
  .publish "events" [1],
  .subscribe "events" "workers" { maxDeliveries := 2 },
  .publish "events" [2],
  .poll 0,
  .poll 0,
  .ack 1,
  .nack 0 (Span.ofNanos 0),
  .poll 0,
  .pass (Span.ofSeconds 30),
  .lapse "events" "workers" 0,
  .close]

theorem mixedRun_settled :
    (∃ e : Envelope, e.body = [1] ∧ ∀ p,
      (((run mixedRun).bus.part "events" "workers").inPlace p).filter (fun e => e.serial = 0) =
        if p = .dead then [e] else []) ∧
    (∃ e : Envelope, e.body = [2] ∧ ∀ p,
      (((run mixedRun).bus.part "events" "workers").inPlace p).filter (fun e => e.serial = 1) =
        if p = .acknowledged then [e] else []) ∧
    (run mixedRun).bus.deadLetters "events" "workers" = 1 := by
  obtain ⟨hplace, -, hdead⟩ := each_message_in_one_place mixedRun "events" "workers"
  have hmessages : messagesFor "events" "workers" (opened mixedRun) = [[1], [2]] := by
    decide +kernel
  have hfirst : placeOf (chronicle "events" "workers" mixedRun) 0 = .dead := by decide +kernel
  have hsecond : placeOf (chronicle "events" "workers" mixedRun) 1 = .acknowledged := by
    decide +kernel
  rw [hmessages] at hplace hdead
  have h₀ := hplace 0 [1] rfl
  have h₁ := hplace 1 [2] rfl
  rw [hfirst] at h₀
  rw [hsecond] at h₁
  exact ⟨h₀, h₁, hdead.trans (by decide +kernel)⟩

end FragmentRelay.Bus
