import FragmentRelay.Proofs.Bus.Audience
import FragmentRelay.Proofs.Bus.Ledger

/-!
# Order: first deliveries follow the order of publication

A group is handed its messages in the order in which they are sent, each of them once, on its first
attempt. Later attempts join the same queue, but they do not change the order of the first ones:
what was delivered for the first time, followed by the first attempts in the queue, is what the
group was handed so far.

* `InOrder.step`: a step of a group keeps the order.
* `inOrder_run`: first attempts are in order after any run.
* `fan_out_in_order`: who is handed what, and in which order it is delivered.
-/

namespace FragmentRelay.Bus

/-- The messages that are on their first attempt. -/
def firstTries (es : List Envelope) : List Envelope := es.filter fun e => e.attempt = 1

/-- Messages with their places in the order of handing over, each on its first attempt. -/
def numbered (bodies : List Octets) : List Envelope := bodies.zipIdx.map fun p => ⟨p.2, p.1, 1⟩

/-- The deliveries of first attempts. -/
def firstDeliveries (notes : List Note) : List Envelope :=
  firstTries ((handouts notes).map (·.envelope))

variable {notes : List Note} {x : Note} {g g' : Group} {topic group : String}

theorem firstTries_append (es more : List Envelope) :
    firstTries (es ++ more) = firstTries es ++ firstTries more :=
  List.filter_append ..

theorem numbered_append_singleton (bodies : List Octets) (body : Octets) :
    numbered (bodies ++ [body]) = numbered bodies ++ [⟨bodies.length, body, 1⟩] := by
  simp [numbered, List.zipIdx_append]

theorem bodies_append_of_none (hx : x.body? = none) : bodies (notes ++ [x]) = bodies notes := by
  simp [bodies, hx]

theorem firstDeliveries_append_of_ne (hx : ∀ o, x ≠ .handedOut o) :
    firstDeliveries (notes ++ [x]) = firstDeliveries notes := by
  rw [firstDeliveries, handouts_append_of_ne hx, firstDeliveries]

/-! ### Steps -/

/-- First deliveries and the first attempts in the queue are the messages of a group in order. -/
structure InOrder (notes : List Note) (g : Group) : Prop where
  handed_eq : g.handed = (bodies notes).length
  order : firstDeliveries notes ++ firstTries g.queue = numbered (bodies notes)
  started : ∀ t ∈ g.timers, t.envelope.attempt ≠ 0
  queued : ∀ e ∈ g.queue, e.attempt ≠ 0

namespace InOrder

theorem empty (name : String) : InOrder [] { name } :=
  ⟨rfl, rfl, List.forall_mem_nil _, List.forall_mem_nil _⟩

/-- A note of something else than a hand-over or a delivery tells nothing of first attempts. -/
theorem of_silent (h : InOrder notes g) (hbody : x.body? = none) (hout : ∀ o, x ≠ .handedOut o) :
    InOrder (notes ++ [x]) g where
  handed_eq := by rw [bodies_append_of_none hbody, h.handed_eq]
  order := by rw [bodies_append_of_none hbody, firstDeliveries_append_of_ne hout, h.order]
  started := h.started
  queued := h.queued

theorem of_timers (h : InOrder notes g) (hhanded : g'.handed = g.handed)
    (hqueue : g'.queue = g.queue) (htimers : ∀ t ∈ g'.timers, t.envelope.attempt ≠ 0) :
    InOrder notes g' :=
  ⟨hhanded.trans h.handed_eq, hqueue ▸ h.order, htimers, hqueue ▸ h.queued⟩

/-- A message that comes back is not on its first attempt. -/
theorem redeliver (h : InOrder notes g) {e : Envelope} (he : e.attempt ≠ 0) (n : Nat) :
    InOrder notes (g.redeliver e n) := by
  unfold Group.redeliver
  split
  · exact h.of_timers rfl rfl h.started
  · have hlater : firstTries [{ e with attempt := e.attempt + 1 }] = [] := by
      simp [firstTries, he]
    refine ⟨h.handed_eq, ?_, h.started, ?_⟩
    · rw [firstTries_append, hlater, List.append_nil, h.order]
    · exact List.forall_mem_append.2 ⟨h.queued, List.forall_mem_singleton.2 (Nat.succ_ne_zero _)⟩

theorem handOver (h : InOrder notes g) (now : Instant) (body : Octets) :
    InOrder (notes ++ [.handedOver now body]) (g.handOver body) := by
  have hbodies : bodies (notes ++ [.handedOver now body]) = bodies notes ++ [body] :=
    bodies_append _ _
  have hfirst : firstTries [⟨g.handed, body, 1⟩] = [⟨g.handed, body, 1⟩] := by simp [firstTries]
  refine ⟨?_, ?_, h.started, ?_⟩
  · rw [hbodies, List.length_append, ← h.handed_eq]
    rfl
  · rw [firstDeliveries_append_of_ne fun _ => Note.noConfusion, hbodies,
      numbered_append_singleton, Group.handOver, firstTries_append, hfirst, ← List.append_assoc,
      h.order, h.handed_eq]
  · exact List.forall_mem_append.2 ⟨h.queued, List.forall_mem_singleton.2 Nat.one_ne_zero⟩

theorem handOut (h : InOrder notes g) {o : Handout} {rest : List Envelope}
    (hq : g.queue = o.envelope :: rest) :
    InOrder (notes ++ [.handedOut o]) { g with
      queue := rest, timers :=
        g.timers ++ [⟨o.due, .settlement o.ticket, o.envelope, o.maxDeliveries⟩] } := by
  have hbodies : bodies (notes ++ [.handedOut o]) = bodies notes := bodies_append_of_none rfl
  have hqueued := h.queued
  rw [hq, List.forall_mem_cons] at hqueued
  refine ⟨hbodies ▸ h.handed_eq, ?_, ?_, hqueued.2⟩
  · rw [hbodies, ← h.order, hq, firstDeliveries, handouts_append_handedOut, List.map_append,
      firstTries_append, List.append_assoc, firstDeliveries, ← firstTries_append]
    rfl
  · exact List.forall_mem_append.2 ⟨h.started, List.forall_mem_singleton.2 hqueued.1⟩

/-- **A step of a group keeps the order of first attempts.** -/
theorem step (h : InOrder notes g) (hstep : g.Step x g') : InOrder (notes ++ [x]) g' := by
  cases hstep with
  | @handOver now body => exact h.handOver now body
  | handOut hq => exact h.handOut hq
  | @acknowledge now ticket =>
    refine InOrder.of_silent ?_ rfl fun _ => Note.noConfusion
    unfold Group.acknowledge
    split
    · exact h
    · exact h.of_timers rfl rfl fun u hu => h.started u (List.mem_filter.1 hu).1
  | @refuse now ticket after =>
    refine InOrder.of_silent ?_ rfl fun _ => Note.noConfusion
    unfold Group.refuse
    split
    · exact h
    · rename_i t ht
      have hstarted := h.started t (Group.awaiting?_some ht).1
      have hstop : InOrder notes (g.stopAwaiting ticket) :=
        h.of_timers rfl rfl fun u hu => h.started u (List.mem_filter.1 hu).1
      simp only
      split
      · exact hstop.redeliver hstarted _
      · exact hstop.of_timers rfl rfl
          (List.forall_mem_append.2 ⟨hstop.started, List.forall_mem_singleton.2 hstarted⟩)
  | @lapse t now ht hdue =>
    refine InOrder.of_silent ?_ rfl fun _ => Note.noConfusion
    have hstop : InOrder notes (g.without t) :=
      h.of_timers rfl rfl fun u hu => h.started u (List.mem_of_mem_erase hu)
    exact hstop.redeliver (h.started t ht) _

theorem steps {xs : List Note} (h : InOrder notes g) (hsteps : Group.Steps g xs g') :
    InOrder (notes ++ xs) g' := by
  induction hsteps generalizing notes with
  | done => rwa [List.append_nil]
  | @next g g₁ g' x xs hstep hs ih =>
    have hall := ih (h.step hstep)
    rwa [List.append_assoc] at hall

end InOrder

/-- **After any run the first attempts of a group are in order.** -/
theorem inOrder_run (events : List Happening) (topic group : String) :
    InOrder (chronicle topic group events) ((run events).bus.part topic group) := by
  induction events using List.reverseRecOn with
  | nil => exact .empty group
  | append_singleton events e ih =>
    rw [run_append_singleton, chronicle_append_singleton]
    exact ih.steps ((run events).steps_next topic group e)

/-! ### Deliveries -/

/-- A delivery as the subscriber got it. -/
def Handout.delivery (h : Handout) : Delivery := ⟨h.ticket, h.envelope.body, h.envelope.attempt⟩

/-- The message that an event brings to a subscriber of a group. -/
def Clocked.received? (c : Clocked) (topic group : String) : Happening → Option Delivery
  | .poll id =>
    match c.bus.subscriber? id, (c.bus.poll c.now id).1 with
    | some s, .ready d => if s.topic = topic ∧ s.group = group then some d else none
    | _, _ => none
  | _ => none

/-- The messages that some events bring to the subscribers of a group. -/
def Clocked.received (topic group : String) : Clocked → List Happening → List Delivery
  | _, [] => []
  | c, e :: es => (c.received? topic group e).toList ++ received topic group (c.next e) es

/-- The deliveries to the subscribers of a group in a run. -/
def received (topic group : String) (events : List Happening) : List Delivery :=
  ({} : Clocked).received topic group events

theorem handouts_append (notes more : List Note) :
    handouts (notes ++ more) = handouts notes ++ handouts more :=
  List.filterMap_append

theorem delivery_notes (c : Clocked) (topic group : String) (e : Happening) :
    (handouts (c.notes topic group e)).map Handout.delivery =
      (c.received? topic group e).toList := by
  have hnone : (∀ x ∈ c.notes topic group e, x.handout? = none) →
      (handouts (c.notes topic group e)).map Handout.delivery = [] := fun h => by
    rw [handouts, List.filterMap_eq_nil_iff.2 h, List.map_nil]
  cases e with
  | poll id =>
    simp only [Clocked.received?]
    cases hs : c.bus.subscriber? id with
    | none => simp [Clocked.notes, Clocked.handout?, hs, handouts]
    | some s =>
      cases hclosed : c.bus.closed with
      | true => simp [Clocked.notes, Clocked.handout?, hs, poll, hclosed, handouts]
      | false =>
        rcases @poll_cases c.bus c.now id s hs hclosed with ⟨b', hpoll, -⟩ |
          ⟨b', g, e, rest, hpoll, ht⟩
        · simp [Clocked.notes, Clocked.handout?, hs, hpoll, handouts]
        · by_cases hg : s.topic = topic ∧ s.group = group
          · obtain ⟨rfl, rfl⟩ := hg
            rw [Clocked.notes_poll hs hpoll ht, hpoll]
            simp [handouts, Note.handout?, Handout.delivery]
          · simp [Clocked.notes, Clocked.handout?, hs, hpoll, hg, handouts]
  | _ => exact hnone fun x hx => by cases Clocked.noted hx <;> rfl

theorem delivery_chronicle (topic group : String) (events : List Happening) :
    (handouts (chronicle topic group events)).map Handout.delivery =
      received topic group events := by
  have hall : ∀ (c : Clocked) (es : List Happening),
      (handouts (c.chronicle topic group es)).map Handout.delivery = c.received topic group es := by
    intro c es
    induction es generalizing c with
    | nil => rfl
    | cons e es ih =>
      rw [Clocked.chronicle, handouts_append, List.map_append, delivery_notes, ih, Clocked.received]
  exact hall {} events

theorem bodies_firstDeliveries (topic group : String) (events : List Happening) :
    (firstDeliveries (chronicle topic group events)).map (·.body) =
      ((received topic group events).filter fun d => d.attempt = 1).map (·.body) := by
  rw [← delivery_chronicle]
  simp only [firstDeliveries, firstTries, List.filter_map, List.map_map]
  rfl

/-! ### Runs -/

theorem bodies_numbered (bodies : List Octets) : (numbered bodies).map (·.body) = bodies := by
  rw [numbered, List.map_map]
  exact List.zipIdx_map_fst 0 bodies

/-- The messages for a group, split at its first subscription: what was sent before is for the group
that is founded first alone. -/
theorem messagesFor_split {before after : List Happening} {e : Happening}
    (hbefore : ∀ d ∈ before, d.joinsGroup topic group = false)
    (he : e.joinsGroup topic group = true) :
    messagesFor topic group (before ++ e :: after) =
      (if before.any (·.joins topic) then [] else sent topic before) ++ sent topic after := by
  have hnone : sent topic (e :: after) = sent topic after := by
    rw [sent, List.filterMap_cons_none (Happening.sent?_of_joinsGroup he), sent]
  rw [messagesFor_append_cons hbefore he]
  split_ifs
  · rw [hnone, List.nil_append]
  · rw [← hnone, sent, List.filterMap_append, sent, sent]

theorem backlog_eq (b : Bus) (topic : String) : b.backlog topic = (b.kept topic).length := by
  unfold backlog kept
  split <;> simp_all

/-- **Every group gets the messages that are meant for it once, in the order in which they were
sent.** What is sent before any group is there is kept for the first one. -/
theorem fan_out_in_order (events : List Happening) (topic : String) :
    let bus := (run events).bus
    bus.kept topic = (if (opened events).any (·.joins topic) then []
      else sent topic (opened events)) ∧
    bus.backlog topic = (bus.kept topic).length ∧
    (bus.closed = false → ∀ body topic' group,
      (run (events ++ [.publish topic body])).bus.view topic' group =
      if topic' = topic then (bus.view topic' group).map (·.handOver body)
        else bus.view topic' group) ∧
    ∀ group,
      (∀ before e after, opened events = before ++ e :: after →
        (∀ d ∈ before, d.joinsGroup topic group = false) →
        e.joinsGroup topic group = true → messagesFor topic group (opened events) =
          (if before.any (·.joins topic) then [] else sent topic before) ++ sent topic after) ∧
      ((∀ d ∈ opened events, d.joinsGroup topic group = false) →
        messagesFor topic group (opened events) = []) ∧
      firstDeliveries (chronicle topic group events) ++ firstTries (bus.part topic group).queue =
        numbered (messagesFor topic group (opened events)) ∧
      ((received topic group events).filter fun d => d.attempt = 1).map (·.body) <+:
        messagesFor topic group (opened events) := by
  refine ⟨(follows_run events).kept_eq topic, backlog_eq _ topic, fun hopen body topic' group => ?_,
    fun group => ?_⟩
  · rw [run_append_singleton]
    simp only [Clocked.next]
    cases hbus : (run events).bus.publish topic body with
    | error e => simp [publish, hopen] at hbus
    | ok bus => exact view_publish hbus topic' group
  · have horder := (inOrder_run events topic group).order
    rw [bodies_chronicle] at horder
    refine ⟨fun before e after hsplit hbefore he => ?_, messagesFor_of_none, horder, ?_⟩
    · rw [hsplit, messagesFor_split hbefore he]
    · have hbodies := congrArg (List.map (·.body)) horder
      rw [List.map_append, bodies_numbered, bodies_firstDeliveries] at hbodies
      exact ⟨_, hbodies⟩

/-- One message is kept for the first group and refused once; a second group comes later. -/
def retainedRun : List Happening := [
  .publish "events" [1],
  .subscribe "events" "workers" {},
  .poll 0,
  .nack 0 (Span.ofNanos 0),
  .publish "events" [2],
  .subscribe "events" "auditors" {},
  .publish "events" [3],
  .poll 0,
  .poll 0,
  .poll 1]

theorem retainedRun_in_order :
    (run retainedRun).bus.backlog "events" = 0 ∧
    (run (retainedRun ++ [.publish "events" [4]])).bus.view "events" "auditors" =
      ((run retainedRun).bus.view "events" "auditors").map (·.handOver [4]) ∧
    messagesFor "events" "workers" (opened retainedRun) = [[1], [2], [3]] ∧
    messagesFor "events" "auditors" (opened retainedRun) = [[3]] ∧
    messagesFor "events" "others" (opened retainedRun) = [] ∧
    [[1], [2]] <+: messagesFor "events" "workers" (opened retainedRun) := by
  obtain ⟨hkept, hbacklog, hpublish, hgroup⟩ := fan_out_in_order retainedRun "events"
  obtain ⟨hworkers, -, -, hprefix⟩ := hgroup "workers"
  obtain ⟨hauditors, -⟩ := hgroup "auditors"
  obtain ⟨-, hothers, -⟩ := hgroup "others"
  have hfirst :
    (((received "events" "workers" retainedRun).filter fun d => d.attempt = 1).map (·.body)) =
      [[1], [2]] := by decide +kernel
  rw [hfirst] at hprefix
  refine ⟨?_, hpublish (by decide +kernel) [4] "events" "auditors", ?_, ?_, ?_, hprefix⟩
  · rw [hbacklog, hkept]
    decide +kernel
  · exact hworkers (retainedRun.take 1) (.subscribe "events" "workers" {}) (retainedRun.drop 2)
      (by decide +kernel) (by decide +kernel) (by decide +kernel)
  · exact hauditors (retainedRun.take 5) (.subscribe "events" "auditors" {}) (retainedRun.drop 6)
      (by decide +kernel) (by decide +kernel) (by decide +kernel)
  · exact hothers (by decide +kernel)

end FragmentRelay.Bus
