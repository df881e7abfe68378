import FragmentRelay.Proofs.Bus.Runs
import Mathlib.Data.List.Induction

/-!
# Ledger: what the notes of a run are worth

Tickets are numbers in the order of the deliveries, a delivery is settled at most once, and the
notes of a run stand in the order of time. With that every event keeps notes and spots together, so
after any run the notes of a group tell where each of its messages is.

* `Clocked.booked`: what an event does to tickets.
* `ledger_run`: the ledger of any run.
-/

namespace FragmentRelay.Bus

variable {b : Bus} {c c' : Clocked} {topic group : String} {notes : List Note} {ticket : Nat}
  {f : Group → Group}

/-! ### Tickets -/

theorem settle_cases (b : Bus) (ticket : Nat) (f : Group → Group) :
    (b.settle ticket f = b ∧ (∀ topic group, b.holds topic group ticket = false)) ∨
      (∃ o ∈ b.holdings, o.ticket = ticket) ∧ (b.settle ticket f).nextTicket = b.nextTicket ∧
        (b.settle ticket f).holdings = b.holdings.filter fun o => o.ticket != ticket := by
  unfold settle holds
  cases ho : b.holdings.find? fun o => o.ticket == ticket with
  | none => exact .inl ⟨rfl, fun _ _ => rfl⟩
  | some o =>
    exact .inr ⟨⟨o, List.mem_of_find?_eq_some ho, by simpa using List.find?_some ho⟩, rfl, rfl⟩

theorem nextTicket_unsubscribe (b : Bus) (id : Nat) :
    (b.unsubscribe id).nextTicket = b.nextTicket := by
  unfold unsubscribe
  split <;> rfl

theorem holdings_unsubscribe (b : Bus) (id : Nat) : (b.unsubscribe id).holdings = b.holdings := by
  unfold unsubscribe
  split <;> rfl

theorem holdings_reserve (b : Bus) (s : Subscriber) : (b.reserve s).holdings = b.holdings := by
  unfold reserve
  split <;> rfl

theorem poll_tickets (b : Bus) (now : Instant) (id : Nat) :
    ((∀ d, (b.poll now id).1 ≠ .ready d) ∧ (b.poll now id).2.nextTicket = b.nextTicket ∧
        (b.poll now id).2.holdings = b.holdings) ∨
      ∃ d o, (b.poll now id).1 = .ready d ∧ d.ticket = b.nextTicket ∧ o.ticket = b.nextTicket ∧
        (b.poll now id).2.nextTicket = b.nextTicket + 1 ∧
        (b.poll now id).2.holdings = b.holdings ++ [o] := by
  have h := polled b now id
  generalize b.poll now id = p at h ⊢
  cases h with
  | absent => exact .inl ⟨fun _ => Poll.noConfusion, rfl, rfl⟩
  | closed id =>
    exact .inl ⟨fun _ => Poll.noConfusion, nextTicket_unsubscribe b id, holdings_unsubscribe b id⟩
  | pending s =>
    exact .inl ⟨fun _ => Poll.noConfusion, nextTicket_reserve b s, holdings_reserve b s⟩
  | @ready s d b' h =>
    obtain ⟨g, e, rest, -, -, -, rfl, rfl⟩ := deliver_eq h
    have hticket := nextTicket_reserve b s
    refine .inr ⟨_, ⟨(b.reserve s).nextTicket, s.id, s.topic, s.group⟩, rfl, hticket,
      hticket, ?_, ?_⟩
    · rw [← hticket]
    · rw [← holdings_reserve b s]

/-- What an event does to tickets, and which notes can tell of it. -/
inductive Booked (c c' : Clocked) (notes : List Note) : Prop where
  | keep (hnext : c'.bus.nextTicket = c.bus.nextTicket)
      (hholdings : c'.bus.holdings = c.bus.holdings)
      (hnotes : ∀ x ∈ notes, x.settled? = none ∧ ∀ h, x ≠ .handedOut h)
  | deliver (o : Holding) (ho : o.ticket = c.bus.nextTicket)
      (hnext : c'.bus.nextTicket = c.bus.nextTicket + 1)
      (hholdings : c'.bus.holdings = c.bus.holdings ++ [o])
      (hnotes : notes = [] ∨ ∃ h, notes = [.handedOut h] ∧ h.ticket = c.bus.nextTicket)
  | settle (ticket : Nat) (hheld : ∃ o ∈ c.bus.holdings, o.ticket = ticket)
      (hnext : c'.bus.nextTicket = c.bus.nextTicket)
      (hholdings : c'.bus.holdings = c.bus.holdings.filter fun o => o.ticket != ticket)
      (hnotes : notes = [] ∨ ∃ x, notes = [x] ∧ x.settled? = some ticket)

namespace Clocked

theorem booked_settle {x : Note} (hx : x.settled? = some ticket)
    (hbus : c'.bus = c.bus.settle ticket f)
    (hnotes : notes = if c.bus.holds topic group ticket then [x] else []) : Booked c c' notes := by
  rcases settle_cases c.bus ticket f with ⟨hsame, hnone⟩ | ⟨hheld, hnext, hholdings⟩
  · rw [hnone, if_neg Bool.false_ne_true] at hnotes
    subst hnotes
    exact .keep (by rw [hbus, hsame]) (by rw [hbus, hsame]) (List.forall_mem_nil _)
  · refine .settle ticket hheld (by rw [hbus, hnext]) (by rw [hbus, hholdings]) ?_
    rw [hnotes]
    split_ifs
    · exact .inr ⟨x, rfl, hx⟩
    · exact .inl rfl

/-- **An event keeps all tickets, hands one out, or takes one back.** -/
theorem booked (c : Clocked) (topic group : String) (e : Happening) :
    Booked c (c.next e) (c.notes topic group e) := by
  cases e with
  | publish subject body =>
    refine .keep ?_ ?_ fun x hx => ?_
    · simp only [next, publish]
      split_ifs <;> rfl
    · simp only [next, publish]
      split_ifs <;> rfl
    · cases noted hx with
      | publish => exact ⟨rfl, fun _ => Note.noConfusion⟩
  | subscribe subject name options =>
    refine .keep ?_ ?_ fun x hx => ?_
    · rcases c.next_subscribe subject name options with ⟨-, h⟩ | ⟨-, h | ⟨-, h⟩⟩ <;> rw [h] <;> rfl
    · rcases c.next_subscribe subject name options with ⟨-, h⟩ | ⟨-, h | ⟨-, h⟩⟩ <;> rw [h] <;> rfl
    · cases noted hx with
      | subscribe => exact ⟨rfl, fun _ => Note.noConfusion⟩
  | unsubscribe id =>
    exact .keep (nextTicket_unsubscribe c.bus id) (holdings_unsubscribe c.bus id)
      (List.forall_mem_nil _)
  | poll id =>
    rcases poll_tickets c.bus c.now id with ⟨hnone, hnext, hholdings⟩ |
      ⟨d, o, hd, hticket, ho, hnext, hholdings⟩
    · refine .keep hnext hholdings fun x hx => ?_
      simp only [notes, handout?] at hx
      split at hx
      · rename_i h
        exact absurd h (hnone _)
      · cases hx
    · refine .deliver o ho hnext hholdings ?_
      simp only [notes, handout?, hd]
      cases c.bus.subscriber? id with
      | none => exact .inl rfl
      | some s =>
        simp only
        split_ifs
        · cases (c.bus.part topic group).queue.head? with
          | none => exact .inl rfl
          | some e => exact .inr ⟨_, rfl, hticket⟩
        · exact .inl rfl
  | ack ticket => exact booked_settle rfl rfl rfl
  | nack ticket after => exact booked_settle rfl rfl rfl
  | drop ticket =>
    rcases settle_cases c.bus ticket id with ⟨hsame, -⟩ | ⟨hheld, hnext, hholdings⟩
    · exact .keep (congrArg Bus.nextTicket hsame) (congrArg Bus.holdings hsame)
        (List.forall_mem_nil _)
    · exact .settle ticket hheld hnext hholdings (.inl rfl)
  | lapse subject name index =>
    refine .keep rfl rfl fun x hx => ?_
    cases noted hx with
    | lapse => exact ⟨rfl, fun _ => Note.noConfusion⟩
  | fire =>
    refine .keep rfl rfl fun x hx => ?_
    cases noted hx with
    | fire => exact ⟨rfl, fun _ => Note.noConfusion⟩
  | pass span => exact .keep rfl rfl (List.forall_mem_nil _)
  | close => exact .keep rfl rfl (List.forall_mem_nil _)

theorem instant_notes {e : Happening} {x : Note} (hx : x ∈ c.notes topic group e) :
    x.instant = c.now := by
  cases noted hx with
  | poll id h hnow => exact hnow
  | _ => rfl

theorem now_le_next (c : Clocked) (e : Happening) : c.now ≤ (c.next e).now := by
  cases e with
  | publish subject body =>
    simp only [next]
    split <;> exact Nat.le_refl _
  | subscribe subject name options =>
    rcases c.next_subscribe subject name options with ⟨-, h⟩ | ⟨-, h | ⟨-, h⟩⟩ <;>
      exact Nat.le_of_eq (congrArg Clocked.now h).symm
  | pass span => exact Nat.le_add_right _ _
  | _ => exact Nat.le_refl _

end Clocked

/-! ### The ledger -/

/-- The deliveries that were settled, in time or not. -/
def settlements (notes : List Note) : List Nat := notes.filterMap Note.settled?

theorem settlements_append (notes more : List Note) :
    settlements (notes ++ more) = settlements notes ++ settlements more :=
  List.filterMap_append

theorem settlements_eq_nil (h : ∀ x ∈ notes, x.settled? = none) : settlements notes = [] :=
  List.filterMap_eq_nil_iff.2 h

/-- The notes of a group tell where its messages are; they are in the order of time, and no delivery
is settled twice. -/
structure Ledger (c : Clocked) (topic group : String) (notes : List Note) : Prop where
  recorded : Recorded notes (c.bus.part topic group) c.bus.nextTicket
  past : ∀ x ∈ notes, x.instant ≤ c.now
  sorted : notes.Pairwise fun x y => x.instant ≤ y.instant
  held_lt : ∀ o ∈ c.bus.holdings, o.ticket < c.bus.nextTicket
  settled_lt : ∀ k ∈ settlements notes, k < c.bus.nextTicket
  settled_nodup : (settlements notes).Nodup
  held_open : ∀ o ∈ c.bus.holdings, o.ticket ∉ settlements notes

namespace Ledger

theorem recorded_next (hl : Ledger c topic group notes) (e : Happening) :
    Recorded (notes ++ c.notes topic group e) ((c.next e).bus.part topic group)
    (c.next e).bus.nextTicket := by
  have hsteps := c.steps_next topic group e
  cases c.booked topic group e with
  | keep hnext hholdings hnotes =>
    rw [hnext]
    refine hl.recorded.steps hsteps (fun x hx k hk => ?_) fun x hx => (hnotes x hx).2
    rw [(hnotes x hx).1] at hk
    cases hk
  | deliver o ho hnext hholdings hnotes =>
    rw [hnext]
    rcases hnotes with hnotes | ⟨h, hnotes, hticket⟩
    · rw [hnotes] at hsteps ⊢
      exact (hl.recorded.steps hsteps (List.forall_mem_nil _) (List.forall_mem_nil _)).mono
        (Nat.le_succ _)
    · rw [hnotes] at hsteps ⊢
      cases hsteps with
      | next hstep hrest =>
        cases hrest
        refine hl.recorded.step hstep (fun k hk => nomatch hk) (Nat.le_succ _) fun o ho => ?_
        cases ho
        exact ⟨hticket, Nat.lt_succ_self _⟩
  | settle ticket hheld hnext hholdings hnotes =>
    -- the ticket was handed out before, so the notes so far are about it and not about later ones
    obtain ⟨o, ho, rfl⟩ := hheld
    rw [hnext]
    have hsettled : ∀ x ∈ c.notes topic group e, x.settled? = some o.ticket := by
      rcases hnotes with hnotes | ⟨x, hnotes, hx⟩
      · rw [hnotes]
        exact List.forall_mem_nil _
      · rw [hnotes]
        exact List.forall_mem_singleton.2 hx
    refine hl.recorded.steps hsteps (fun x hx k hk => ?_) ?_
    · rw [hsettled x hx] at hk
      cases hk
      exact hl.held_lt o ho
    · rintro x hx h rfl
      cases hsettled _ hx

theorem times_next (hl : Ledger c topic group notes) (e : Happening) :
    (∀ x ∈ notes ++ c.notes topic group e, x.instant ≤ (c.next e).now) ∧
      (notes ++ c.notes topic group e).Pairwise fun x y => x.instant ≤ y.instant := by
  constructor
  · intro x hx
    refine Nat.le_trans ?_ (c.now_le_next e)
    rcases List.mem_append.1 hx with hx | hx
    · exact hl.past x hx
    · exact Nat.le_of_eq (Clocked.instant_notes hx)
  · rw [List.pairwise_append]
    refine ⟨hl.sorted, List.pairwise_of_forall_mem_list fun x hx y hy => ?_, fun x hx y hy => ?_⟩
    · exact Nat.le_of_eq ((Clocked.instant_notes hx).trans (Clocked.instant_notes hy).symm)
    · rw [Clocked.instant_notes hy]
      exact hl.past x hx

/-- **Every event keeps the ledger.** -/
theorem next (hl : Ledger c topic group notes) (e : Happening) :
    Ledger (c.next e) topic group (notes ++ c.notes topic group e) := by
  have hrecorded := hl.recorded_next e
  obtain ⟨hpast, hsorted⟩ := hl.times_next e
  cases c.booked topic group e with
  | keep hnext hholdings hnotes =>
    have hnone : settlements (notes ++ c.notes topic group e) = settlements notes := by
      rw [settlements_append, settlements_eq_nil fun x hx => (hnotes x hx).1, List.append_nil]
    refine ⟨hrecorded, hpast, hsorted, ?_, ?_, ?_, ?_⟩
    · rw [hnext, hholdings]
      exact hl.held_lt
    · rw [hnext, hnone]
      exact hl.settled_lt
    · rw [hnone]
      exact hl.settled_nodup
    · rw [hnone, hholdings]
      exact hl.held_open
  | deliver o ho hnext hholdings hnotes =>
    have hnone : settlements (notes ++ c.notes topic group e) = settlements notes := by
      rw [settlements_append]
      rcases hnotes with hnotes | ⟨h, hnotes, -⟩ <;> rw [hnotes] <;> exact List.append_nil _
    refine ⟨hrecorded, hpast, hsorted, ?_, ?_, ?_, ?_⟩
    · rw [hnext, hholdings, List.forall_mem_append, List.forall_mem_singleton]
      exact ⟨fun p hp => Nat.lt_succ_of_lt (hl.held_lt p hp), by omega⟩
    · rw [hnext, hnone]
      exact fun k hk => Nat.lt_succ_of_lt (hl.settled_lt k hk)
    · rw [hnone]
      exact hl.settled_nodup
    · rw [hnone, hholdings, List.forall_mem_append, List.forall_mem_singleton]
      exact ⟨hl.held_open, fun hk => absurd (hl.settled_lt _ hk) (by omega)⟩
  | settle ticket hheld hnext hholdings hnotes =>
    obtain ⟨o, ho, rfl⟩ := hheld
    have hmore : settlements (c.notes topic group e) = [] ∨
        settlements (c.notes topic group e) = [o.ticket] := by
      rcases hnotes with hnotes | ⟨x, hnotes, hx⟩
      · exact .inl (by rw [hnotes]; rfl)
      · exact .inr (by rw [hnotes]; simp [settlements, hx])
    have hmem : ∀ k ∈ settlements (c.notes topic group e), k = o.ticket := by
      rcases hmore with hmore | hmore <;> simp [hmore]
    refine ⟨hrecorded, hpast, hsorted, ?_, ?_, ?_, ?_⟩
    · rw [hnext, hholdings]
      exact fun p hp => hl.held_lt p (List.mem_filter.1 hp).1
    · rw [hnext, settlements_append, List.forall_mem_append]
      exact ⟨hl.settled_lt, fun k hk => hmem k hk ▸ hl.held_lt o ho⟩
    · rw [settlements_append, List.nodup_append]
      refine ⟨hl.settled_nodup, ?_, fun k hk i hi => ?_⟩
      · rcases hmore with hmore | hmore <;> simp [hmore]
      · rintro rfl
        exact hl.held_open o ho (hmem k hi ▸ hk)
    · rw [hholdings, settlements_append]
      intro p hp hk
      obtain ⟨hp, hne⟩ := List.mem_filter.1 hp
      rcases List.mem_append.1 hk with hk | hk
      · exact hl.held_open p hp hk
      · exact absurd (hmem _ hk) (by simpa using hne)

end Ledger

/-- **After any run the notes of a group tell where its messages are.** -/
theorem ledger_run (events : List Happening) (topic group : String) :
    Ledger (run events) topic group (chronicle topic group events) := by
  induction events using List.reverseRecOn with
  | nil =>
    exact ⟨.empty group, List.forall_mem_nil _, List.Pairwise.nil, List.forall_mem_nil _,
      List.forall_mem_nil _, List.nodup_nil, List.forall_mem_nil _⟩
  | append_singleton events e ih =>
    rw [run_append_singleton, chronicle_append_singleton]
    exact ih.next e

end FragmentRelay.Bus
