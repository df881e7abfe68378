import FragmentRelay.Proofs.Bus.Slots

/-!
# Line: who gets the next message

Only the first in a group's turn can take a message, and a call for a message that is given up while
it waits keeps its place. So a group's turn is the line of the calls that were given up, in the
order in which they began. A subscriber that holds fewer deliveries than it may gets the first
message of the queue at once if nobody else is first in line, and nothing otherwise, however long
the queue is.

* `turnOf_run`: the turn is the line of the calls that were given up.
* `poll_of_queue`: who gets the first message of the queue.
-/

namespace FragmentRelay.Bus

/-- A member of a group by its number. -/
def member? (b : Bus) (topic group : String) (id : Nat) : Option Subscriber :=
  (b.subscriber? id).filter fun s => s.topic = topic ∧ s.group = group

variable {b b' : Bus} {c : Clocked} {s : Subscriber} {topic group : String} {id : Nat}

theorem member?_eq_some : b.member? topic group id = some s ↔
    b.subscriber? id = some s ∧ s.topic = topic ∧ s.group = group := by
  simp [member?, Option.filter_eq_some_iff]

namespace Clocked

/-- The line after an event. Who may hold another delivery and gets none joins the end, and stays
there when the call is given up; who gets a message or ends its subscription leaves. -/
def lineUp (c : Clocked) (topic group : String) (line : List Nat) : Happening → List Nat
  | .poll id =>
    match c.bus.member? topic group id with
    | none => line
    | some s =>
      match (c.bus.poll c.now id).1 with
      | .pending =>
        if id ∈ line ∨ s.options.maxInFlight ≤ c.bus.heldBy id then line else line ++ [id]
      | _ => line.filter (· != id)
  | .unsubscribe id => if (c.bus.member? topic group id).isSome then line.filter (· != id) else line
  | _ => line

/-- The line after some events. -/
def line (topic group : String) : Clocked → List Nat → List Happening → List Nat
  | _, queue, [] => queue
  | c, queue, e :: es => line topic group (c.next e) (c.lineUp topic group queue e) es

end Clocked

/-- The members of a group whose call for a message waits, or was given up while it waited, in the
order in which the calls began. -/
def line (topic group : String) (events : List Happening) : List Nat :=
  ({} : Clocked).line topic group [] events

theorem line_append_singleton (topic group : String) (events : List Happening) (e : Happening) :
    line topic group (events ++ [e]) =
      (run events).lineUp topic group (line topic group events) e :=
  along_append_singleton (F := Clocked.line topic group) (fun _ _ => rfl)
    (fun _ _ _ _ => rfl) [] events e

theorem turnOf_unsubscribe_member (b : Bus) (id : Nat) (topic group : String) :
    (b.unsubscribe id).turnOf topic group =
      if (b.member? topic group id).isSome then (b.turnOf topic group).filter (· != id)
        else b.turnOf topic group := by
  cases hs : b.subscriber? id with
  | none => simp [unsubscribe, member?, hs]
  | some s =>
    rw [turnOf_unsubscribe hs, member?, hs, Option.filter_some]
    by_cases hg : topic = s.topic ∧ group = s.group
    · simp [hg]
    · have hg' : ¬ (s.topic = topic ∧ s.group = group) := fun he => hg ⟨he.1.symm, he.2.symm⟩
      simp [hg, hg']

namespace Seated

theorem head?_reserve (h : Seated b) (hs : s ∈ b.subscribers)
    (hfree : b.heldBy s.id < s.options.maxInFlight) :
    ((b.reserve s).turnOf s.topic s.group).head? =
      some (((b.turnOf s.topic s.group).head?).getD s.id) := by
  by_cases hmem : s.id ∈ b.turnOf s.topic s.group
  · rw [reserve_eq_self (.inl hmem)]
    cases hturn : b.turnOf s.topic s.group with
    | nil => simp [hturn] at hmem
    | cons i rest => rfl
  · have hslots := h.free_of_not_mem hs hmem
    rw [h.turnOf_reserve hs hmem (by omega), if_pos ⟨rfl, rfl⟩]
    cases b.turnOf s.topic s.group <;> rfl

theorem poll_eq (h : Seated b) (now : Instant) {e : Envelope} {rest : List Envelope}
    (hopen : b.closed = false) (hs : b.subscriber? id = some s)
    (hfree : b.heldBy id < s.options.maxInFlight)
    (hq : (b.part s.topic s.group).queue = e :: rest) :
    (b.poll now id).1 = if ∀ i ∈ (b.turnOf s.topic s.group).head?, i = id
      then .ready ⟨b.nextTicket, e.body, e.attempt⟩ else .pending := by
  obtain ⟨hmem, rfl⟩ := subscriber?_some hs
  have hhead := h.head?_reserve hmem hfree
  have hview := (alike_reserve b s).view_eq s.topic s.group not_false
  -- the group is there: its queue is not empty
  cases hg : (b.reserve s).group? s.topic s.group with
  | none =>
    rw [view, hg, Option.map_none] at hview
    rw [part, ← hview] at hq
    cases hq
  | some g =>
    have hqueue : g.queue = e :: rest := by
      rw [view, hg, Option.map_some] at hview
      rw [part, ← hview] at hq
      exact hq
    have hturn : (b.reserve s).turnOf s.topic s.group = g.turn := by
      rw [turnOf, turn?, hg]
      rfl
    rw [hturn] at hhead
    have hfirst : (∀ i ∈ (b.turnOf s.topic s.group).head?, i = s.id) ↔
        g.turn.head? = some s.id := by
      rw [hhead]
      cases (b.turnOf s.topic s.group).head? <;> simp
    simp only [Bus.poll, hs, hopen, Bool.false_eq_true, if_false, Bus.deliver, hg,
      Group.take, hqueue, hfirst]
    split_ifs
    · simp only [nextTicket_reserve]
    · rfl

theorem turnOf_reserve_eq (h : Seated b) (hs : s ∈ b.subscribers) :
    (b.reserve s).turnOf s.topic s.group =
      if s.id ∈ b.turnOf s.topic s.group ∨ s.options.maxInFlight ≤ b.heldBy s.id
        then b.turnOf s.topic s.group
      else b.turnOf s.topic s.group ++ [s.id] := by
  by_cases hmem : s.id ∈ b.turnOf s.topic s.group
  · rw [reserve_eq_self (.inl hmem), if_pos (.inl hmem)]
  · have hslots := h.free_of_not_mem hs hmem
    by_cases hfree : s.free = 0
    · rw [reserve_eq_self (.inr hfree), if_pos (.inr (by omega))]
    · rw [h.turnOf_reserve hs hmem hfree, if_pos ⟨rfl, rfl⟩, if_neg]
      rintro (hin | hfull)
      · exact hmem hin
      · omega

theorem turnOf_deliver (h : Seated b) (hs : s ∈ b.subscribers) {now : Instant} {d : Delivery}
    (hd : (b.reserve s).deliver now s = some (d, b')) :
    b'.turnOf s.topic s.group = (b.turnOf s.topic s.group).filter (· != s.id) := by
  obtain ⟨rest, hfirst, hturn⟩ := turn?_deliver hd
  have hline : (b.reserve s).turnOf s.topic s.group = s.id :: rest := by
    rw [turnOf, hfirst, Option.getD_some]
  rw [turnOf, hturn, if_pos ⟨rfl, rfl⟩, Option.getD_some]
  have hnodup := h.turn_nodup s.topic s.group
  have hreserve := h.turnOf_reserve_eq hs
  rw [hline] at hreserve
  by_cases hmem : s.id ∈ b.turnOf s.topic s.group
  · rw [if_pos (.inl hmem)] at hreserve
    rw [← hreserve, List.nodup_cons] at hnodup
    rw [← hreserve, List.filter_cons_of_neg (by simp), List.filter_eq_self.2]
    intro i hi
    rw [bne_iff_ne]
    exact fun he => hnodup.1 (he ▸ hi)
  · -- nobody was in the turn before, or the subscriber would not be first
    split_ifs at hreserve
    · exact absurd (hreserve ▸ List.mem_cons_self) hmem
    · cases hbefore : b.turnOf s.topic s.group with
      | nil =>
        rw [hbefore, List.nil_append, List.cons.injEq] at hreserve
        exact hreserve.2
      | cons i more =>
        rw [hbefore, List.cons_append, List.cons.injEq] at hreserve
        exact absurd (hbefore ▸ hreserve.1 ▸ List.mem_cons_self) hmem

theorem turnOf_poll (h : Seated c.bus) (topic group : String) (id : Nat) :
    (c.bus.poll c.now id).2.turnOf topic group = c.lineUp topic group (c.bus.turnOf topic group)
    (.poll id) := by
  simp only [Clocked.lineUp]
  cases hs : c.bus.subscriber? id with
  | none => simp [Bus.poll, hs, member?]
  | some s =>
    obtain ⟨hmem, rfl⟩ := subscriber?_some hs
    cases hclosed : c.bus.closed with
    | true =>
      have hpoll : c.bus.poll c.now s.id = (.closed, c.bus.unsubscribe s.id) := by
        simp [Bus.poll, hs, hclosed]
      rw [hpoll, turnOf_unsubscribe_member]
      cases c.bus.member? topic group s.id <;> rfl
    | false =>
      have hsame : ¬ (topic = s.topic ∧ group = s.group) →
          (c.bus.reserve s).turn? topic group = c.bus.turn? topic group := by
        intro hg
        by_cases hself : s.id ∈ c.bus.turnOf s.topic s.group ∨ s.free = 0
        · rw [reserve_eq_self hself]
        · obtain ⟨hnot, hfree⟩ := not_or.1 hself
          rw [turn?_reserve hnot hfree, if_neg hg]
      have hnone : ¬ (topic = s.topic ∧ group = s.group) →
          c.bus.member? topic group s.id = none := by
        intro hg
        rw [member?, hs, Option.filter_some, if_neg]
        simpa using fun ht hgr => hg ⟨ht.symm, hgr.symm⟩
      cases hd : (c.bus.reserve s).deliver c.now s with
      | none =>
        have hpoll : c.bus.poll c.now s.id = (.pending, c.bus.reserve s) := by
          simp [Bus.poll, hs, hclosed, hd]
        rw [hpoll]
        by_cases hg : topic = s.topic ∧ group = s.group
        · obtain ⟨rfl, rfl⟩ := hg
          rw [member?_eq_some.2 ⟨hs, rfl, rfl⟩]
          exact h.turnOf_reserve_eq hmem
        · rw [hnone hg]
          exact turnOf_congr (hsame hg)
      | some p =>
        have hpoll : c.bus.poll c.now s.id = (.ready p.1, p.2) := by
          simp [Bus.poll, hs, hclosed, hd]
        rw [hpoll]
        by_cases hg : topic = s.topic ∧ group = s.group
        · obtain ⟨rfl, rfl⟩ := hg
          rw [member?_eq_some.2 ⟨hs, rfl, rfl⟩]
          exact h.turnOf_deliver hmem hd
        · obtain ⟨rest, -, hturn⟩ := turn?_deliver hd
          rw [hnone hg]
          exact turnOf_congr ((hturn topic group).trans ((if_neg hg).trans (hsame hg)))

/-- **The turn after an event is the line after it.** -/
theorem turnOf_next (h : Seated c.bus) (topic group : String) (e : Happening) :
    (c.next e).bus.turnOf topic group = c.lineUp topic group (c.bus.turnOf topic group) e := by
  cases e with
  | publish subject body =>
    simp only [Clocked.next, Clocked.lineUp]
    cases hb : c.bus.publish subject body with
    | error e => rfl
    | ok bus => exact turnOf_congr (turn?_publish hb topic group)
  | subscribe subject name options =>
    simp only [Clocked.lineUp]
    rcases c.next_subscribe subject name options with ⟨-, hc⟩ | ⟨-, hc | ⟨-, hc⟩⟩
    · rw [hc]
    · rw [hc]
      exact turnOf_found c.bus subject name topic group
    · rw [hc]
      exact turnOf_found c.bus subject name topic group
  | unsubscribe id => exact turnOf_unsubscribe_member c.bus id topic group
  | poll id => exact h.turnOf_poll topic group id
  | ack ticket =>
    exact turnOf_congr (turn?_settle c.bus ticket (fun g => Group.name_settleAs g c.now ticket .ack)
      (fun g => turn_settleAs g c.now ticket .ack) topic group)
  | nack ticket after =>
    exact turnOf_congr
      (turn?_settle c.bus ticket (fun g => Group.name_settleAs g c.now ticket (.nack after))
      (fun g => turn_settleAs g c.now ticket (.nack after)) topic group)
  | drop ticket =>
    exact turnOf_congr (turn?_settle c.bus ticket (fun _ => rfl) (fun _ => rfl) topic group)
  | lapse subject name index =>
    exact turnOf_congr (turn?_changeGroup_same (fun g => Group.name_lapse g c.now index)
      (fun g => turn_lapse g c.now index) topic group)
  | fire => exact turnOf_congr (turn?_fire c.bus c.now topic group)
  | pass span => rfl
  | close => rfl

end Seated

/-- **The turn of a group is the line of the calls that were given up.** -/
theorem turnOf_run (events : List Happening) (topic group : String) :
    (run events).bus.turnOf topic group = line topic group events := by
  induction events using List.reverseRecOn with
  | nil => rfl
  | append_singleton events e ih =>
    rw [run_append_singleton, line_append_singleton, (seated_run events).turnOf_next, ih]

/-- **Who gets the first message of the queue.** A subscriber with a free slot gets it at once if
no other member's call, given up while it waited, is first in line; otherwise it gets nothing and
the queue stays. -/
theorem poll_of_queue {events : List Happening} {id : Nat} {s : Subscriber} {e : Envelope}
    {rest : List Envelope} (hopen : (run events).bus.closed = false)
    (hs : (run events).bus.subscriber? id = some s)
    (hfree : (run events).bus.heldBy id < s.options.maxInFlight)
    (hq : ((run events).bus.part s.topic s.group).queue = e :: rest) :
    let c := run events
    let first := ∀ i ∈ (line s.topic s.group events).head?, i = id
    (c.bus.poll c.now id).1 = (if first then .ready ⟨c.bus.nextTicket, e.body, e.attempt⟩
      else .pending) ∧
      ((c.next (.poll id)).bus.part s.topic s.group).queue = if first then rest else e :: rest := by
  have hpoll := (seated_run events).poll_eq (run events).now hopen hs hfree hq
  rw [turnOf_run] at hpoll
  refine ⟨hpoll, ?_⟩
  simp only [Clocked.next]
  rcases @poll_cases (run events).bus (run events).now id s hs hopen with ⟨b', hb', halike⟩ |
    ⟨b', g, e', rest', hb', ht⟩
  · rw [hb'] at hpoll ⊢
    split_ifs at hpoll ⊢
    rw [part_of_view_eq (halike.view_eq s.topic s.group not_false), hq]
  · rw [hb'] at hpoll ⊢
    split_ifs at hpoll ⊢
    have hqueue := ht.queue_eq
    rw [← part_of_view_some ht.before, hq, List.cons.injEq] at hqueue
    rw [part_of_view_some ht.after, hqueue.2]

/-- A member's first call is given up; the messages that come later are for it and for another
member. -/
def sharedRun : List Happening := [
  .subscribe "events" "workers" {},
  .subscribe "events" "workers" {},
  .poll 0,
  .publish "events" [1],
  .publish "events" [2],
  .poll 0]

theorem sharedRun_poll :
    ((run sharedRun).bus.poll (run sharedRun).now 1).1 = .ready ⟨1, [2], 1⟩ := by
  have hs : (run sharedRun).bus.subscriber? 1 = some ⟨1, "events", "workers", {}, 64⟩ := by
    decide +kernel
  have hq : ((run sharedRun).bus.part "events" "workers").queue = [⟨1, [2], 1⟩] := by decide +kernel
  have hpoll :=
    poll_of_queue (by decide +kernel : (run sharedRun).bus.closed = false) hs (by decide +kernel) hq
  have hline : line "events" "workers" sharedRun = [] := by decide +kernel
  have hticket : (run sharedRun).bus.nextTicket = 1 := by decide +kernel
  simpa [hline, hticket] using hpoll.1

/-- One member's call is given up, and a message comes. -/
def idleRun : List Happening := [
  .subscribe "events" "workers" {},
  .subscribe "events" "workers" {},
  .poll 0,
  .publish "events" [1]]

/-- A member that does not ask again keeps the message from the others. -/
theorem idle_member_blocks :
    (run idleRun).bus.closed = false ∧
    (∃ s, (run idleRun).bus.subscriber? 1 = some s ∧
      (run idleRun).bus.heldBy 1 < s.options.maxInFlight ∧
      ((run idleRun).bus.part s.topic s.group).queue = [⟨0, [1], 1⟩]) ∧
    ((run idleRun).bus.poll (run idleRun).now 1).1 = .pending := by
  refine ⟨by decide +kernel, ⟨⟨1, "events", "workers", {}, 64⟩, ?_⟩, ?_⟩ <;> decide +kernel

end FragmentRelay.Bus
