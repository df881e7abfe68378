import FragmentRelay.Proofs.Bus.Spots

/-!
# Fates: what becomes of the deliveries of a message

The notes of a group tell what became of every delivery: whether it is still awaited, was
acknowledged or refused in time, or has ended without an acknowledgement. `Recorded` says that the
spot of every message is what its notes tell: its deliveries are numbered from one, all of them have
ended but perhaps the last one, and that one's fate is the spot. Every step of a group keeps this.

* `Handout.next`: the fate of a delivery; the first settlement counts, and what comes later has no
  effect.
* `Told`: what the notes of a message say about its spot.
* `Recorded.step`: a step keeps notes and spots together.
-/

namespace FragmentRelay.Bus

/-! ### Deliveries and their fates -/

/-- What has become of a delivery. -/
inductive Fate where
  | awaited
  | acknowledged
  | delayed (due : Instant)
  | ended
deriving DecidableEq

namespace Handout

/-- What becomes of a delivery. While it is awaited it can be acknowledged or refused, or it ends
when its ack wait is over; a refused one ends when the delay is over. Nothing else has an effect. -/
def next (h : Handout) : Fate → Note → Fate
  | .awaited, .acknowledged _ ticket => if ticket = h.ticket then .acknowledged else .awaited
  | .awaited, .refused now ticket after =>
    if ticket = h.ticket then if after.nanos = 0 then .ended
      else .delayed (now + after.nanos) else .awaited
  | .awaited, .lapsed now t =>
    if t.wait = .settlement h.ticket ∧ h.due ≤ now then .ended else .awaited
  | .delayed due, .lapsed now t =>
    if t.wait = .delay ∧ t.envelope = h.envelope ∧ due ≤ now then .ended else .delayed due
  | f, _ => f

/-- The fate of a delivery after some notes. -/
def fate (h : Handout) (notes : List Note) : Fate := notes.foldl h.next .awaited

variable {h : Handout} {f : Fate} {x : Note} {notes : List Note}

theorem fate_append (h : Handout) (notes : List Note) (x : Note) :
    h.fate (notes ++ [x]) = h.next (h.fate notes) x := by
  simp [fate]

@[simp] theorem next_handedOver (now : Instant) (body : Octets) :
    h.next f (.handedOver now body) = f := by
  cases f <;> rfl

@[simp] theorem next_handedOut (o : Handout) : h.next f (.handedOut o) = f := by
  cases f <;> rfl

@[simp] theorem next_acknowledged : h.next .acknowledged x = .acknowledged := by
  cases x <;> rfl

@[simp] theorem next_ended : h.next .ended x = .ended := by
  cases x <;> rfl

theorem next_settled_of_not_awaited {ticket : Nat} (hx : x.settled? = some ticket)
    (hf : f ≠ .awaited) : h.next f x = f := by
  cases x with
  | handedOver now body => cases hx
  | handedOut o => cases hx
  | lapsed now t => cases hx
  | acknowledged now k =>
    cases f with
    | awaited => exact absurd rfl hf
    | acknowledged => rfl
    | delayed due => rfl
    | ended => rfl
  | refused now k after =>
    cases f with
    | awaited => exact absurd rfl hf
    | acknowledged => rfl
    | delayed due => rfl
    | ended => rfl

theorem next_settled_of_ne {ticket : Nat} (hx : x.settled? = some ticket)
    (hne : ticket ≠ h.ticket) : h.next f x = f := by
  by_cases hf : f = .awaited
  · subst hf
    cases x with
    | handedOver now body => cases hx
    | handedOut o => cases hx
    | lapsed now t => cases hx
    | acknowledged now k =>
      cases hx
      exact if_neg hne
    | refused now k after =>
      cases hx
      exact if_neg hne
  · exact next_settled_of_not_awaited hx hf

theorem next_lapsed_of_ne {now : Instant} {t : Timer} (hticket : t.wait ≠ .settlement h.ticket)
    (henvelope : t.wait = .delay → t.envelope ≠ h.envelope) : h.next f (.lapsed now t) = f := by
  cases f with
  | awaited => simp [next, hticket]
  | acknowledged => rfl
  | delayed due =>
    have hnot : ¬ (t.wait = .delay ∧ t.envelope = h.envelope ∧ due ≤ now) := fun hall =>
      henvelope hall.1 hall.2.1
    simp [next, hnot]
  | ended => rfl

end Handout

/-! ### The deliveries of a message -/

/-- The delivery that a note tells of. -/
def Note.handout? : Note → Option Handout
  | .handedOut h => some h
  | _ => none

/-- The bytes of a message that a note tells of when it is handed over. -/
def Note.body? : Note → Option Octets
  | .handedOver _ body => some body
  | _ => none

/-- The messages that were handed to the group. -/
def bodies (notes : List Note) : List Octets := notes.filterMap Note.body?

/-- The deliveries of the group. -/
def handouts (notes : List Note) : List Handout := notes.filterMap Note.handout?

/-- The deliveries of one message, by its serial number. -/
def tries (notes : List Note) (serial : Nat) : List Handout :=
  (handouts notes).filter fun h => h.envelope.serial == serial

variable {notes : List Note} {x : Note} {h o : Handout} {s s' : Spot} {n : Nat} {f : Fate}

theorem mem_handouts : h ∈ handouts notes ↔ .handedOut h ∈ notes := by
  simp only [handouts, List.mem_filterMap]
  constructor
  · rintro ⟨y, hy, he⟩
    cases y with
    | handedOut o =>
      cases he
      exact hy
    | handedOver now body => cases he
    | acknowledged now ticket => cases he
    | refused now ticket after => cases he
    | lapsed now t => cases he
  · exact fun hmem => ⟨_, hmem, rfl⟩

theorem mem_tries : h ∈ tries notes n ↔ h ∈ handouts notes ∧ h.envelope.serial = n := by
  simp [tries]

theorem handouts_append_handedOut (notes : List Note) (h : Handout) :
    handouts (notes ++ [.handedOut h]) = handouts notes ++ [h] := by
  simp [handouts, Note.handout?]

theorem handouts_append_of_ne (hx : ∀ o, x ≠ .handedOut o) :
    handouts (notes ++ [x]) = handouts notes := by
  cases x with
  | handedOut o => exact absurd rfl (hx o)
  | handedOver now body => simp [handouts, Note.handout?]
  | acknowledged now ticket => simp [handouts, Note.handout?]
  | refused now ticket after => simp [handouts, Note.handout?]
  | lapsed now t => simp [handouts, Note.handout?]

theorem tries_append_of_ne (hx : ∀ o, x = .handedOut o → o.envelope.serial ≠ n) :
    tries (notes ++ [x]) n = tries notes n := by
  cases x with
  | handedOut o =>
    have hne : ¬ o.envelope.serial = n := hx o rfl
    simp [tries, handouts_append_handedOut, hne]
  | handedOver now body => simp [tries, handouts, Note.handout?]
  | acknowledged now ticket => simp [tries, handouts, Note.handout?]
  | refused now ticket after => simp [tries, handouts, Note.handout?]
  | lapsed now t => simp [tries, handouts, Note.handout?]

theorem tries_append_own (notes : List Note) (h : Handout) :
    tries (notes ++ [.handedOut h]) h.envelope.serial = tries notes h.envelope.serial ++ [h] := by
  simp [tries, handouts_append_handedOut]

/-! ### What the notes tell -/

/-- Deliveries numbered from one that have all ended, none of them the last that is allowed. -/
structure Spent (notes : List Note) (hs : List Handout) : Prop where
  attempts_eq : hs.map (·.envelope.attempt) = List.range' 1 hs.length
  ended : ∀ h ∈ hs, h.fate notes = .ended
  allowed : ∀ h ∈ hs, h.envelope.attempt < h.maxDeliveries

/-- The latest delivery of a message, and its fate. -/
structure Latest (notes : List Note) (h : Handout) (f : Fate) : Prop where
  exists_earlier : ∃ earlier, tries notes h.envelope.serial = earlier ++ [h] ∧ Spent notes earlier ∧
    h.envelope.attempt = earlier.length + 1
  fate_eq : h.fate notes = f

/-- What the notes tell about a message in a spot. -/
def Told (notes : List Note) : Spot → Prop
  | .queued e => Spent notes (tries notes e.serial) ∧ e.attempt = (tries notes e.serial).length + 1
  | .timed t => ∃ h, h.envelope = t.envelope ∧ h.maxDeliveries = t.maxDeliveries ∧
      ((t.wait = .settlement h.ticket ∧ t.due = h.due ∧ Latest notes h .awaited) ∨
        t.wait = .delay ∧ Latest notes h (.delayed t.due))
  | .acknowledged e => ∃ h, h.envelope = e ∧ Latest notes h .acknowledged
  | .dead e => ∃ h, h.envelope = e ∧ h.maxDeliveries ≤ e.attempt ∧ Latest notes h .ended

theorem Latest.mem (hl : Latest notes h f) : h ∈ handouts notes := by
  obtain ⟨earlier, htries, -, -⟩ := hl.exists_earlier
  have hmem : h ∈ tries notes h.envelope.serial := by
    rw [htries]
    exact List.mem_append_right _ List.mem_cons_self
  exact (mem_tries.1 hmem).1

theorem Spent.snoc {hs : List Handout} (hp : Spent notes hs)
    (hattempt : h.envelope.attempt = hs.length + 1) (hended : h.fate notes = .ended)
    (hallowed : h.envelope.attempt < h.maxDeliveries) : Spent notes (hs ++ [h]) where
  attempts_eq := by
    rw [List.map_append, hp.attempts_eq, List.length_append, List.length_singleton,
      List.range'_concat]
    simp [hattempt, Nat.add_comm]
  ended o ho := by
    rcases List.mem_append.1 ho with ho | ho
    · exact hp.ended o ho
    · rwa [List.mem_singleton.1 ho]
  allowed o ho := by
    rcases List.mem_append.1 ho with ho | ho
    · exact hp.allowed o ho
    · rwa [List.mem_singleton.1 ho]

/-- After its latest delivery has ended a message goes where another attempt or none is allowed. -/
theorem Latest.told_again (hl : Latest notes h .ended) :
    Told notes (.again h.envelope h.maxDeliveries) := by
  unfold Spot.again
  split
  · rename_i hle
    exact ⟨h, rfl, hle, hl⟩
  · rename_i hlt
    obtain ⟨earlier, htries, hspent, hattempt⟩ := hl.exists_earlier
    refine ⟨?_, ?_⟩
    · rw [htries]
      exact hspent.snoc hattempt hl.fate_eq (Nat.not_le.1 hlt)
    · rw [htries, hattempt, List.length_append, List.length_singleton]

/-! ### Notes that leave a message alone -/

/-- A note leaves the deliveries of a message and their fates as they are. -/
structure Quiet (notes : List Note) (x : Note) (n : Nat) : Prop where
  other : ∀ o, x = .handedOut o → o.envelope.serial ≠ n
  fates : ∀ o ∈ tries notes n, o.next (o.fate notes) x = o.fate notes

theorem Spent.append {hs : List Handout} (hp : Spent notes hs) (x : Note) :
    Spent (notes ++ [x]) hs where
  attempts_eq := hp.attempts_eq
  ended o ho := by rw [Handout.fate_append, hp.ended o ho, Handout.next_ended]
  allowed := hp.allowed

theorem Quiet.latest (hq : Quiet notes x h.envelope.serial) (hl : Latest notes h f) :
    Latest (notes ++ [x]) h f where
  exists_earlier := by
    obtain ⟨earlier, htries, hspent, hattempt⟩ := hl.exists_earlier
    exact ⟨earlier, by rw [tries_append_of_ne hq.other, htries], hspent.append x, hattempt⟩
  fate_eq := by
    rw [Handout.fate_append, hq.fates h (mem_tries.2 ⟨hl.mem, rfl⟩), hl.fate_eq]

theorem Quiet.told (hq : Quiet notes x s.envelope.serial) (ht : Told notes s) :
    Told (notes ++ [x]) s := by
  cases s with
  | queued e =>
    obtain ⟨hspent, hattempt⟩ := ht
    have htries : tries (notes ++ [x]) e.serial = tries notes e.serial :=
      tries_append_of_ne hq.other
    refine ⟨?_, by rw [htries, hattempt]⟩
    rw [htries]
    exact hspent.append x
  | timed t =>
    obtain ⟨h, henvelope, hmax, hwait⟩ := ht
    have hq' : Quiet notes x h.envelope.serial := henvelope ▸ hq
    refine ⟨h, henvelope, hmax, ?_⟩
    rcases hwait with ⟨hticket, hdue, hl⟩ | ⟨hdelay, hl⟩
    · exact .inl ⟨hticket, hdue, hq'.latest hl⟩
    · exact .inr ⟨hdelay, hq'.latest hl⟩
  | acknowledged e =>
    obtain ⟨h, rfl, hl⟩ := ht
    exact ⟨h, rfl, hq.latest hl⟩
  | dead e =>
    obtain ⟨h, rfl, hle, hl⟩ := ht
    exact ⟨h, rfl, hle, hq.latest hl⟩

theorem eq_of_ticket_eq (hn : ((handouts notes).map (·.ticket)).Nodup) (hh : h ∈ handouts notes)
    (ho : o ∈ handouts notes) (he : h.ticket = o.ticket) : h = o :=
  List.inj_on_of_nodup_map hn hh ho he

theorem Told.settlement {t : Timer} {ticket : Nat} (ht : Told notes (.timed t))
    (hw : t.wait = .settlement ticket) :
    ∃ h, h.envelope = t.envelope ∧ h.maxDeliveries = t.maxDeliveries ∧
      h.ticket = ticket ∧ h.due = t.due ∧ Latest notes h .awaited := by
  obtain ⟨h, henvelope, hmax, ⟨hticket, hdue, hl⟩ | ⟨hdelay, hl⟩⟩ := ht
  · rw [hw] at hticket
    exact ⟨h, henvelope, hmax, (Wait.settlement.inj hticket).symm, hdue.symm, hl⟩
  · rw [hw] at hdelay
    cases hdelay

theorem Told.delay {t : Timer} (ht : Told notes (.timed t)) (hw : t.wait = .delay) :
    ∃ h, h.envelope = t.envelope ∧ h.maxDeliveries = t.maxDeliveries ∧
      Latest notes h (.delayed t.due) := by
  obtain ⟨h, henvelope, hmax, ⟨hticket, hdue, hl⟩ | ⟨hdelay, hl⟩⟩ := ht
  · rw [hw] at hticket
    cases hticket
  · exact ⟨h, henvelope, hmax, hl⟩

theorem Latest.eq_or_ended (hl : Latest notes h f) (ho : o ∈ tries notes h.envelope.serial) :
    o = h ∨ o.fate notes = .ended ∧ o.envelope.attempt < o.maxDeliveries := by
  obtain ⟨earlier, htries, hspent, -⟩ := hl.exists_earlier
  rw [htries] at ho
  rcases List.mem_append.1 ho with ho | ho
  · exact .inr ⟨hspent.ended o ho, hspent.allowed o ho⟩
  · exact .inl (List.mem_singleton.1 ho)

/-- A delivery has ended before the last attempt, or its fate is the spot of its message. -/
theorem Told.cases_of_try (ht : Told notes s) (hh : h ∈ tries notes s.envelope.serial) :
    (h.fate notes = .ended ∧ h.envelope.attempt < h.maxDeliveries) ∨
      (∃ t, s = .timed t ∧ t.wait = .settlement h.ticket ∧ h.fate notes = .awaited) ∨
      (∃ t, s = .timed t ∧ h.fate notes = .delayed t.due) ∨
      (∃ e, s = .acknowledged e ∧ h.fate notes = .acknowledged) ∨
      ∃ e, s = .dead e ∧ h.fate notes = .ended := by
  cases s with
  | queued e => exact .inl ⟨ht.1.ended h hh, ht.1.allowed h hh⟩
  | timed t =>
    obtain ⟨o, henvelope, -, ⟨hticket, -, hl⟩ | ⟨-, hl⟩⟩ := ht
    · rcases hl.eq_or_ended (by rwa [henvelope]) with rfl | hended
      · exact .inr (.inl ⟨t, rfl, hticket, hl.fate_eq⟩)
      · exact .inl hended
    · rcases hl.eq_or_ended (by rwa [henvelope]) with rfl | hended
      · exact .inr (.inr (.inl ⟨t, rfl, hl.fate_eq⟩))
      · exact .inl hended
  | acknowledged e =>
    obtain ⟨o, rfl, hl⟩ := ht
    rcases hl.eq_or_ended hh with rfl | hended
    · exact .inr (.inr (.inr (.inl ⟨_, rfl, hl.fate_eq⟩)))
    · exact .inl hended
  | dead e =>
    obtain ⟨o, rfl, -, hl⟩ := ht
    rcases hl.eq_or_ended hh with rfl | hended
    · exact .inr (.inr (.inr (.inr ⟨_, rfl, hl.fate_eq⟩)))
    · exact .inl hended

theorem quiet_of_shift (hs : Shift s x s') (ht : Told notes s)
    (hn : ((handouts notes).map (·.ticket)).Nodup) (hne : s.envelope.serial ≠ n) :
    Quiet notes x n := by
  have hticket : ∀ h ∈ handouts notes, h.envelope.serial = s.envelope.serial → ∀ o ∈ tries notes n,
      h.ticket ≠ o.ticket := by
    intro h hh hserial o ho heq
    obtain ⟨hmem, hserial'⟩ := mem_tries.1 ho
    obtain rfl := eq_of_ticket_eq hn hh hmem heq
    exact hne (hserial.symm.trans hserial')
  have hsettled : ∀ ticket t, s = .timed t → t.wait = .settlement ticket →
    x.settled? = some ticket →
      ∀ o ∈ tries notes n, o.next (o.fate notes) x = o.fate notes := by
    rintro ticket t rfl hw hx o ho
    obtain ⟨h, henvelope, -, rfl, -, hl⟩ := Told.settlement ht hw
    exact Handout.next_settled_of_ne hx (hticket h hl.mem (congrArg _ henvelope) o ho)
  cases hs with
  | handOut h =>
    refine ⟨fun o ho => ?_, fun o _ => Handout.next_handedOut _⟩
    cases ho
    exact hne
  | acknowledge hw => exact ⟨fun o ho => Note.noConfusion ho, hsettled _ _ rfl hw rfl⟩
  | refuse hw hafter => exact ⟨fun o ho => Note.noConfusion ho, hsettled _ _ rfl hw rfl⟩
  | postpone hw hafter => exact ⟨fun o ho => Note.noConfusion ho, hsettled _ _ rfl hw rfl⟩
  | @lapse t now hdue =>
    refine ⟨fun o ho => Note.noConfusion ho, fun o ho =>
      Handout.next_lapsed_of_ne (fun hw => ?_) fun _ he => ?_⟩
    · obtain ⟨h, henvelope, -, hk, -, hl⟩ := Told.settlement ht hw
      exact hticket h hl.mem (congrArg _ henvelope) o ho hk
    · exact hne ((congrArg _ he).trans (mem_tries.1 ho).2)

theorem told_of_shift (hs : Shift s x s') (ht : Told notes s)
    (hfresh : ∀ h, x = .handedOut h → h.fate notes = .awaited) : Told (notes ++ [x]) s' := by
  have hlatest : ∀ h f f', (∀ o, x ≠ .handedOut o) → Latest notes h f → h.next f x = f' →
      Latest (notes ++ [x]) h f' := by
    rintro h f f' hx hl rfl
    obtain ⟨earlier, htries, hspent, hattempt⟩ := hl.exists_earlier
    refine ⟨⟨earlier, ?_, hspent.append x, hattempt⟩, by rw [Handout.fate_append, hl.fate_eq]⟩
    rw [tries_append_of_ne fun o ho => absurd ho (hx o), htries]
  cases hs with
  | handOut h =>
    obtain ⟨hspent, hattempt⟩ := ht
    refine ⟨h, rfl, rfl,
      .inl ⟨rfl, rfl, ⟨_, tries_append_own notes h, hspent.append _, hattempt⟩, ?_⟩⟩
    rw [Handout.fate_append, hfresh h rfl, Handout.next_handedOut]
  | acknowledge hw =>
    obtain ⟨h, henvelope, -, rfl, -, hl⟩ := Told.settlement ht hw
    exact ⟨h, henvelope, hlatest h _ _ (fun _ => Note.noConfusion) hl (by simp [Handout.next])⟩
  | refuse hw hafter =>
    obtain ⟨h, henvelope, hmax, rfl, -, hl⟩ := Told.settlement ht hw
    have hl' := hlatest h _ .ended (fun _ => Note.noConfusion) hl (by simp [Handout.next, hafter])
    rw [← henvelope, ← hmax]
    exact hl'.told_again
  | postpone hw hafter =>
    obtain ⟨h, henvelope, hmax, rfl, -, hl⟩ := Told.settlement ht hw
    exact ⟨h, henvelope, hmax,
      .inr ⟨rfl, hlatest h _ _ (fun _ => Note.noConfusion) hl (by simp [Handout.next, hafter])⟩⟩
  | @lapse t now hdue =>
    have hended : ∃ h, h.envelope = t.envelope ∧ h.maxDeliveries = t.maxDeliveries ∧
        Latest (notes ++ [.lapsed now t]) h .ended := by
      cases hw : t.wait with
      | settlement ticket =>
        obtain ⟨h, henvelope, hmax, rfl, hdue', hl⟩ := Told.settlement ht hw
        have hle : h.due ≤ now := hdue' ▸ hdue
        exact ⟨h, henvelope, hmax, hlatest h _ _ (fun _ => Note.noConfusion) hl
          (by simp [Handout.next, hw, hle])⟩
      | delay =>
        obtain ⟨h, henvelope, hmax, hl⟩ := Told.delay ht hw
        exact ⟨h, henvelope, hmax,
          hlatest h _ _ (fun _ => Note.noConfusion) hl
            (by simp [Handout.next, hw, hdue, henvelope])⟩
    obtain ⟨h, henvelope, hmax, hl⟩ := hended
    rw [← henvelope, ← hmax]
    exact hl.told_again

/-! ### Notes and spots -/

theorem bodies_append (notes more : List Note) :
    bodies (notes ++ more) = bodies notes ++ bodies more :=
  List.filterMap_append

theorem Note.body?_of_settled {ticket : Nat} (hx : x.settled? = some ticket) : x.body? = none := by
  cases x with
  | handedOver now body => cases hx
  | handedOut h => rfl
  | acknowledged now ticket => rfl
  | refused now ticket after => rfl
  | lapsed now t => rfl

theorem Shift.body?_eq (hs : Shift s x s') : x.body? = none := by
  cases hs <;> rfl

/-- Where a list with one more entry is split, the entry is the last one or comes after the
split. -/
theorem split_append_singleton {α : Type} {xs before after : List α} {x y : α}
    (h : xs ++ [x] = before ++ y :: after) :
    (x = y ∧ xs = before ∧ after = []) ∨ ∃ after', xs = before ++ y :: after' ∧
    after = after' ++ [x] := by
  rcases List.eq_nil_or_concat after with rfl | ⟨after', z, rfl⟩
  · obtain ⟨hxs, hx⟩ := List.append_inj' h rfl
    exact .inl ⟨List.head_eq_of_cons_eq hx, hxs, rfl⟩
  · rw [List.concat_eq_append, ← List.cons_append, ← List.append_assoc] at h
    obtain ⟨hxs, hx⟩ := List.append_inj' h rfl
    exact .inr ⟨after', hxs, by rw [List.concat_eq_append, hx]⟩

theorem length_le_one_of_nodup {α : Type} {l : List α} (hn : l.Nodup)
    (h : ∀ a ∈ l, ∀ b ∈ l, a = b) : l.length ≤ 1 := by
  rcases l with _ | ⟨a, _ | ⟨b, l⟩⟩
  · exact Nat.zero_le _
  · exact Nat.le_refl _
  · obtain rfl := h a List.mem_cons_self b (List.mem_cons_of_mem _ List.mem_cons_self)
    exact absurd List.mem_cons_self (List.nodup_cons.1 hn).1

/-- The spots of a group are what its notes tell, and all tickets so far lie below a number. The
notes of a delivery come after the end of all deliveries of its message before (`opened`). -/
structure Recorded (notes : List Note) (g : Group) (ticket : Nat) : Prop where
  carries : g.Carries (bodies notes)
  told : ∀ s ∈ g.spots, Told notes s
  covered : ∀ h ∈ handouts notes, ∃ s ∈ g.spots, s.envelope.serial = h.envelope.serial
  tickets_nodup : ((handouts notes).map (·.ticket)).Nodup
  tickets_lt : ∀ h ∈ handouts notes, h.ticket < ticket
  fresh : ∀ h : Handout, ticket ≤ h.ticket → h.fate notes = .awaited
  opened : ∀ before h after, notes = before ++ .handedOut h :: after →
    Spent before (tries before h.envelope.serial) ∧
      h.envelope.attempt = (tries before h.envelope.serial).length + 1

namespace Recorded

variable {g g' : Group} {ticket ticket' : Nat}

theorem empty (name : String) : Recorded [] { name } 0 where
  carries := ⟨rfl, List.Perm.refl _⟩
  told _ hs := absurd hs List.not_mem_nil
  covered _ hh := absurd hh List.not_mem_nil
  tickets_nodup := List.nodup_nil
  tickets_lt _ hh := absurd hh List.not_mem_nil
  fresh _ _ := rfl
  opened before h after he := by simp at he

theorem mono (hr : Recorded notes g ticket) (hle : ticket ≤ ticket') :
    Recorded notes g ticket' where
  carries := hr.carries
  told := hr.told
  covered := hr.covered
  tickets_nodup := hr.tickets_nodup
  tickets_lt h hh := Nat.lt_of_lt_of_le (hr.tickets_lt h hh) hle
  fresh h hh := hr.fresh h (Nat.le_trans hle hh)
  opened := hr.opened

theorem serials_nodup (hr : Recorded notes g ticket) : (g.spots.map (·.envelope.serial)).Nodup := by
  have hn := hr.carries.nodup
  rwa [Group.places_eq_spots, List.map_map] at hn

/-- **A message has one spot.** -/
theorem spot_unique (hr : Recorded notes g ticket) (hs : s ∈ g.spots) (hs' : s' ∈ g.spots)
    (he : s.envelope.serial = s'.envelope.serial) : s = s' :=
  List.inj_on_of_nodup_map hr.serials_nodup hs hs' he

theorem timer_unique (hr : Recorded notes g ticket) {t u : Timer} {k : Nat} (ht : t ∈ g.timers)
    (hu : u ∈ g.timers) (htw : t.wait = .settlement k) (huw : u.wait = .settlement k) : t = u := by
  obtain ⟨h, henvelope, -, hk, -, hl⟩ := (hr.told _ (Group.mem_spots_timed.2 ht)).settlement htw
  obtain ⟨o, henvelope', -, hk', -, hl'⟩ := (hr.told _ (Group.mem_spots_timed.2 hu)).settlement huw
  obtain rfl := eq_of_ticket_eq hr.tickets_nodup hl.mem hl'.mem (hk.trans hk'.symm)
  have hspots := hr.spot_unique (Group.mem_spots_timed.2 ht) (Group.mem_spots_timed.2 hu)
    (congrArg Envelope.serial (henvelope.symm.trans henvelope'))
  exact Spot.timed.inj hspots

theorem apart (hr : Recorded notes g ticket) : g.Apart := by
  intro k
  have hspots : (g.timers.map Spot.timed).Nodup := by
    have hn := hr.serials_nodup.of_map
    simp only [Group.spots, List.append_assoc] at hn
    exact (List.nodup_append.1 (List.nodup_append.1 hn).2.1).1
  refine length_le_one_of_nodup (hspots.of_map.filter _) fun t ht u hu => ?_
  obtain ⟨ht, htw⟩ := List.mem_filter.1 ht
  obtain ⟨hu, huw⟩ := List.mem_filter.1 hu
  exact hr.timer_unique ht hu (by simpa using htw) (by simpa using huw)

theorem exists_timer (hr : Recorded notes g ticket) (hh : h ∈ handouts notes)
    (hf : h.fate notes = .awaited) : ∃ t ∈ g.timers, t.wait = .settlement h.ticket := by
  obtain ⟨s, hs, hserial⟩ := hr.covered h hh
  have hmem : h ∈ tries notes s.envelope.serial := mem_tries.2 ⟨hh, hserial.symm⟩
  rcases (hr.told s hs).cases_of_try hmem with
    ⟨hf', -⟩ | ⟨t, rfl, hw, -⟩ | ⟨t, rfl, hf'⟩ | ⟨e, rfl, hf'⟩ | ⟨e, rfl, hf'⟩
  · exact absurd (hf.symm.trans hf') Fate.noConfusion
  · exact ⟨t, Group.mem_spots_timed.1 hs, hw⟩
  · exact absurd (hf.symm.trans hf') Fate.noConfusion
  · exact absurd (hf.symm.trans hf') Fate.noConfusion
  · exact absurd (hf.symm.trans hf') Fate.noConfusion

theorem fresh_append (hr : Recorded notes g ticket) (hs : g.Step x g')
    (hsettled : ∀ k, x.settled? = some k → k < ticket) (hh : ticket ≤ h.ticket) :
    h.fate (notes ++ [x]) = .awaited := by
  rw [Handout.fate_append, hr.fresh h hh]
  cases hs with
  | handOver => rfl
  | handOut hq => rfl
  | @acknowledge now k =>
    exact Handout.next_settled_of_ne rfl (Nat.ne_of_lt (Nat.lt_of_lt_of_le (hsettled k rfl) hh))
  | @refuse now k after =>
    exact Handout.next_settled_of_ne rfl (Nat.ne_of_lt (Nat.lt_of_lt_of_le (hsettled k rfl) hh))
  | @lapse t now ht hdue =>
    have hne : t.wait ≠ .settlement h.ticket := by
      intro hw
      obtain ⟨o, -, -, hk, -, hl⟩ := (hr.told _ (Group.mem_spots_timed.2 ht)).settlement hw
      exact absurd (hr.tickets_lt o hl.mem) (by omega)
    simp [Handout.next, hne]

theorem opened_append (hr : Recorded notes g ticket)
    (hx : ∀ h, x = .handedOut h → Told notes (.queued h.envelope))
    (before : List Note) (h : Handout) (after : List Note)
    (he : notes ++ [x] = before ++ .handedOut h :: after) :
    Spent before (tries before h.envelope.serial) ∧
      h.envelope.attempt = (tries before h.envelope.serial).length + 1 := by
  rcases split_append_singleton he with ⟨rfl, rfl, rfl⟩ | ⟨after', hnotes, -⟩
  · exact hx h rfl
  · exact hr.opened before h after' hnotes

theorem serial_lt (hr : Recorded notes g ticket) (hh : h ∈ handouts notes) :
    h.envelope.serial < g.handed := by
  obtain ⟨s, hs, hserial⟩ := hr.covered h hh
  have hmem : s.envelope ∈ g.places := by
    rw [Group.places_eq_spots]
    exact List.mem_map_of_mem hs
  obtain ⟨hlt, -⟩ := List.getElem?_eq_some_iff.1 (hr.carries.getElem?_of_mem hmem)
  rw [← hserial, hr.carries.handed_eq]
  exact hlt

theorem told_handOver (hr : Recorded notes g ticket) (now : Instant) (body : Octets) :
    Told (notes ++ [.handedOver now body]) (.queued ⟨g.handed, body, 1⟩) := by
  have hnone : tries (notes ++ [.handedOver now body]) g.handed = [] := by
    rw [tries_append_of_ne fun o ho => Note.noConfusion ho, List.eq_nil_iff_forall_not_mem]
    intro h hh
    obtain ⟨hmem, hserial⟩ := mem_tries.1 hh
    exact absurd (hr.serial_lt hmem) (by omega)
  refine ⟨?_, by rw [hnone]; rfl⟩
  rw [hnone]
  exact ⟨rfl, List.forall_mem_nil _, List.forall_mem_nil _⟩

theorem quiet_of_stale (hr : Recorded notes g ticket) {k : Nat} (hk : x.settled? = some k)
    (hnone : ∀ t ∈ g.timers, t.wait ≠ .settlement k) (n : Nat) : Quiet notes x n := by
  have hother : ∀ o, x ≠ .handedOut o := by
    rintro o rfl
    cases hk
  refine ⟨fun o ho => absurd ho (hother o), fun o ho => ?_⟩
  by_cases he : k = o.ticket
  · refine Handout.next_settled_of_not_awaited hk fun hf => ?_
    obtain ⟨t, ht, hw⟩ := hr.exists_timer (mem_tries.1 ho).1 hf
    exact hnone t ht (he ▸ hw)
  · exact Handout.next_settled_of_ne hk he

theorem told_shift (hr : Recorded notes g ticket) (hshift : Shift s x s') {rest : List Spot}
    (hg : g.spots.Perm (s :: rest))
    (hfresh : ∀ h, x = .handedOut h → h.fate notes = .awaited) {s₁ : Spot} (hs₁ : s₁ ∈ s' :: rest) :
    Told (notes ++ [x]) s₁ := by
  have ht : Told notes s := hr.told s (hg.mem_iff.2 List.mem_cons_self)
  rcases List.mem_cons.1 hs₁ with rfl | hs₁
  · exact told_of_shift hshift ht hfresh
  · have hnodup := (hg.map fun s => s.envelope.serial).nodup_iff.1 hr.serials_nodup
    have hne : s.envelope.serial ≠ s₁.envelope.serial := by
      intro he
      exact (List.nodup_cons.1 hnodup).1 (List.mem_map.2 ⟨s₁, hs₁, he.symm⟩)
    exact (quiet_of_shift hshift ht hr.tickets_nodup hne).told
      (hr.told s₁ (hg.mem_iff.2 (List.mem_cons_of_mem s hs₁)))

theorem covered_shift (hr : Recorded notes g ticket) (hshift : Shift s x s') {rest : List Spot}
    (hg : g.spots.Perm (s :: rest)) (hh : h ∈ handouts (notes ++ [x])) :
    ∃ s₁ ∈ s' :: rest, s₁.envelope.serial = h.envelope.serial := by
  have hold : h ∈ handouts notes → ∃ s₁ ∈ s' :: rest, s₁.envelope.serial = h.envelope.serial := by
    intro hh
    obtain ⟨s₁, hs₁, hserial⟩ := hr.covered h hh
    rcases List.mem_cons.1 (hg.mem_iff.1 hs₁) with rfl | hs₁
    · exact ⟨s', List.mem_cons_self, hshift.same.1.trans hserial⟩
    · exact ⟨s₁, List.mem_cons_of_mem _ hs₁, hserial⟩
  rcases List.mem_append.1 (mem_handouts.1 hh) with hh | hh
  · exact hold (mem_handouts.2 hh)
  · obtain rfl := List.mem_singleton.1 hh
    cases hshift with
    | handOut h => exact ⟨_, List.mem_cons_self, rfl⟩

theorem carries_shift (hr : Recorded notes g ticket) (hshift : Shift s x s') {rest : List Spot}
    (hg : g.spots.Perm (s :: rest)) (hg' : g'.spots.Perm (s' :: rest))
    (hhanded : g'.handed = g.handed) : g'.Carries (bodies (notes ++ [x])) := by
  have hbodies : bodies (notes ++ [x]) = bodies notes := by
    simp [bodies, hshift.body?_eq]
  rw [hbodies]
  refine ⟨hhanded.trans hr.carries.handed_eq, ?_⟩
  have hsame : (s'.envelope.body, s'.envelope.serial) = (s.envelope.body, s.envelope.serial) := by
    rw [hshift.same.1, hshift.same.2]
  have hcontents := hr.carries.contents_perm
  rw [Group.contents_eq_spots] at hcontents ⊢
  refine (hg'.map _).trans (List.Perm.trans ?_ hcontents)
  have hold := (hg.map fun s => (s.envelope.body, s.envelope.serial)).symm
  rw [List.map_cons] at hold ⊢
  rwa [hsame]

theorem tickets_append (hr : Recorded notes g ticket) (hle : ticket ≤ ticket')
    (hticket : ∀ h, x = .handedOut h → h.ticket = ticket ∧ ticket < ticket') :
    ((handouts (notes ++ [x])).map (·.ticket)).Nodup ∧
    ∀ h ∈ handouts (notes ++ [x]), h.ticket < ticket' := by
  by_cases hx : ∃ h, x = .handedOut h
  · obtain ⟨h, rfl⟩ := hx
    obtain ⟨heq, hlt⟩ := hticket h rfl
    rw [handouts_append_handedOut]
    constructor
    · rw [List.map_append, List.nodup_append]
      refine ⟨hr.tickets_nodup, List.nodup_singleton _, ?_⟩
      rintro k hk i hi rfl
      obtain ⟨o, ho, rfl⟩ := List.mem_map.1 hk
      have hold := hr.tickets_lt o ho
      rw [List.map_singleton, List.mem_singleton, heq] at hi
      omega
    · intro o ho
      rcases List.mem_append.1 ho with ho | ho
      · exact Nat.lt_of_lt_of_le (hr.tickets_lt o ho) hle
      · rwa [List.mem_singleton.1 ho, heq]
  · rw [handouts_append_of_ne fun h hh => hx ⟨h, hh⟩]
    exact ⟨hr.tickets_nodup, fun h hh => Nat.lt_of_lt_of_le (hr.tickets_lt h hh) hle⟩

/-- **A step keeps notes and spots together.** -/
theorem step (hr : Recorded notes g ticket) (hs : g.Step x g')
    (hsettled : ∀ k, x.settled? = some k → k < ticket) (hle : ticket ≤ ticket')
    (hticket : ∀ h, x = .handedOut h → h.ticket = ticket ∧ ticket < ticket') :
    Recorded (notes ++ [x]) g' ticket' := by
  have hfresh : ∀ h : Handout, ticket' ≤ h.ticket → h.fate (notes ++ [x]) = .awaited :=
    fun h hh => hr.fresh_append hs hsettled (Nat.le_trans hle hh)
  obtain ⟨hnodup, hlt⟩ := hr.tickets_append hle hticket
  -- a message is handed over, one message moves, or a delivery that nobody awaits is settled
  rcases hs.spots hr.apart with ⟨now, body, rfl, rfl⟩ | ⟨s, s', rest, hshift, hg, hg', hhanded⟩ |
    ⟨k, hk, hnone, rfl⟩
  · have hspots := g.spots_handOver body
    refine ⟨?_, fun s hs => ?_, ?_, hnodup, hlt, hfresh, hr.opened_append fun _ => Note.noConfusion⟩
    · rw [bodies_append]
      exact hr.carries.handOver body
    · rcases List.mem_cons.1 (hspots.mem_iff.1 hs) with rfl | hs
      · exact hr.told_handOver now body
      · exact Quiet.told ⟨fun _ => Note.noConfusion, fun _ _ =>
          Handout.next_handedOver now body⟩ (hr.told s hs)
    · rw [handouts_append_of_ne fun _ => Note.noConfusion]
      intro h hh
      obtain ⟨s, hs, hserial⟩ := hr.covered h hh
      exact ⟨s, hspots.mem_iff.2 (List.mem_cons_of_mem _ hs), hserial⟩
  · have hnew : ∀ h, x = .handedOut h → h.fate notes = .awaited :=
      fun h hx => hr.fresh h (Nat.le_of_eq (hticket h hx).1.symm)
    refine ⟨hr.carries_shift hshift hg hg' hhanded, fun s₁ hs₁ =>
      hr.told_shift hshift hg hnew (hg'.mem_iff.1 hs₁), fun h hh => ?_, hnodup, hlt, hfresh,
      hr.opened_append fun h hx => ?_⟩
    · obtain ⟨s₁, hs₁, hserial⟩ := hr.covered_shift hshift hg hh
      exact ⟨s₁, hg'.mem_iff.2 hs₁, hserial⟩
    · subst hx
      cases hshift with
      | handOut h => exact hr.told _ (hg.mem_iff.2 List.mem_cons_self)
  · have hne : ∀ h, x ≠ .handedOut h := by
      rintro h rfl
      cases hk
    have hbodies : bodies (notes ++ [x]) = bodies notes := by
      simp [bodies, Note.body?_of_settled hk]
    refine ⟨hbodies ▸ hr.carries, fun s hs => (hr.quiet_of_stale hk hnone _).told (hr.told s hs),
      ?_, hnodup, hlt, hfresh, hr.opened_append fun h hx => absurd hx (hne h)⟩
    rw [handouts_append_of_ne hne]
    exact hr.covered

/-- So do several steps that hand nothing out. -/
theorem steps {xs : List Note} (hr : Recorded notes g ticket) (hs : Group.Steps g xs g')
    (hsettled : ∀ x ∈ xs, ∀ k, x.settled? = some k → k < ticket)
    (hnone : ∀ x ∈ xs, ∀ h, x ≠ .handedOut h) : Recorded (notes ++ xs) g' ticket := by
  induction hs generalizing notes with
  | done => rwa [List.append_nil]
  | @next g g₁ g' x xs h hs ih =>
    have hfirst := hr.step h (hsettled x List.mem_cons_self) (Nat.le_refl _)
      fun o ho => absurd ho (hnone x List.mem_cons_self o)
    have hrest := ih hfirst (fun y hy => hsettled y (List.mem_cons_of_mem x hy))
      fun y hy => hnone y (List.mem_cons_of_mem x hy)
    rwa [List.append_assoc, List.singleton_append] at hrest

end Recorded

end FragmentRelay.Bus
