import FragmentRelay.Bus.Basic
import FragmentRelay.Proofs.Bus.Traffic
import Mathlib.Tactic.Common

/-!
# View: a bus without turns and slots

Which subscriber's turn it is and how many slots are free decide who gets a message, not where
messages are. The view of a group leaves the turn out, and the subscription of a subscriber its free
slots. In this view a poll that brings nothing changes nothing, and one that brings a message which
is settled at once moves that message.

* `view_publish`, `view_fire`: publishing and passing time.
* `poll_cases`: a poll brings nothing and changes nothing, or brings the first message of the queue.
* `Taken.settle`: the view after that message was settled.
-/

namespace FragmentRelay.Bus

/-- A group without its turn. -/
def Group.calm (g : Group) : Group := { g with turn := [] }

/-- A group by its subject and name, without its turn. -/
def view (b : Bus) (topic group : String) : Option Group := (b.group? topic group).map Group.calm

/-- A subscriber by its number, without its free slots. -/
def subscription? (b : Bus) (id : Nat) : Option Subscriber :=
  (b.subscriber? id).map fun s => { s with free := 0 }

/-- Two buses that differ in turns, slots and tickets only, except perhaps in one group. -/
structure Alike (b b' : Bus) (except : String → String → Prop) : Prop where
  view_eq : ∀ topic group, ¬ except topic group → b'.view topic group = b.view topic group
  subscription_eq : ∀ id, b'.subscription? id = b.subscription? id
  closed_eq : b'.closed = b.closed
  holdings_eq : b'.holdings = b.holdings

theorem Alike.refl (b : Bus) : Alike b b fun _ _ => False :=
  ⟨fun _ _ _ => rfl, fun _ => rfl, rfl, rfl⟩

variable {b : Bus} {now : Instant} {topic group : String} {id ticket : Nat} {s : Subscriber}
  {f : Group → Group}

/-! ### Parts of a changed bus -/

theorem find?_change {α : Type} (name : α → String) {n : String} {f : α → α}
    (hf : ∀ x, name x = n → name (f x) = n) (l : List α) (n' : String) :
    (l.map fun x => if name x = n then f x else x).find? (fun x => name x == n') =
      if n' = n then (l.find? fun x => name x == n).map f else l.find? fun x => name x == n' := by
  induction l with
  | nil => split <;> rfl
  | cons x l ih =>
    by_cases hx : name x = n
    · rw [List.map_cons, if_pos hx]
      by_cases h : n' = n
      · subst h
        simp [hf x hx, hx]
      · rw [if_neg h] at ih ⊢
        have hne : ¬ n = n' := Ne.symm h
        simp [hf x hx, hx, hne, ih]
    · rw [List.map_cons, if_neg hx]
      by_cases h : n' = n
      · subst h
        rw [if_pos rfl] at ih ⊢
        simp [hx, ih]
      · rw [if_neg h] at ih ⊢
        simp [List.find?_cons, ih]

theorem group?_changeGroup (hf : ∀ g, g.name = group → (f g).name = group)
    (topic' group' : String) :
    (b.changeGroup topic group f).group? topic' group' =
      if topic' = topic ∧ group' = group then (b.group? topic group).map f
        else b.group? topic' group' := by
  have htopics : (b.changeGroup topic group f).topic? topic' = if topic' = topic
      then (b.topic? topic).map fun t =>
        { t with groups := t.groups.map fun g => if g.name = group then f g else g }
      else b.topic? topic' := by
    refine find?_change Topic.name ?_ b.topics topic'
    exact fun _ h => h
  rw [group?, htopics]
  by_cases htopic : topic' = topic
  · subst htopic
    cases ht : b.topic? topic' with
    | none => simp [group?, ht]
    | some t =>
      simp only [group?, ht, if_true, Option.map_some, Option.bind_some, true_and]
      exact find?_change Group.name hf t.groups group'
  · simp [htopic, group?]

theorem view_changeGroup (hf : ∀ g, g.name = group → (f g).name = group) (topic' group' : String) :
    (b.changeGroup topic group f).view topic' group' =
      if topic' = topic ∧ group' = group then (b.group? topic group).map fun g => (f g).calm
      else b.view topic' group' := by
  rw [view, group?_changeGroup hf]
  split
  · rw [Option.map_map]
    rfl
  · rfl

@[simp] theorem group?_changeFree (b : Bus) (id : Nat) (f : Nat → Nat) (topic group : String) :
    (b.changeFree id f).group? topic group = b.group? topic group := rfl

@[simp] theorem subscription?_changeFree (b : Bus) (id id' : Nat) (f : Nat → Nat) :
    (b.changeFree id f).subscription? id' = b.subscription? id' := by
  simp only [subscription?, subscriber?, changeFree, List.find?_map, Option.map_map]
  have hid : ((fun s : Subscriber => s.id == id') ∘ fun s => if s.id = id
    then { s with free := f s.free } else s) =
      fun s => s.id == id' := by
    funext s
    by_cases h : s.id = id <;> simp [h]
  rw [hid]
  congr 1
  funext s
  by_cases h : s.id = id <;> simp [h]

@[simp] theorem subscription?_changeGroup (b : Bus) (topic group : String) (f : Group → Group)
    (id : Nat) : (b.changeGroup topic group f).subscription? id = b.subscription? id := rfl

/-! ### Polling -/

theorem alike_reserve (b : Bus) (s : Subscriber) : Alike b (b.reserve s) fun _ _ => False := by
  unfold reserve
  split
  · exact .refl b
  · refine ⟨fun topic group _ => ?_, fun id => ?_, rfl, rfl⟩
    · rw [view_changeGroup]
      · split
        · rename_i h
          rw [h.1, h.2]
          rfl
        · rfl
      · exact fun g hg => hg
    · simp

theorem nextTicket_reserve (b : Bus) (s : Subscriber) :
    (b.reserve s).nextTicket = b.nextTicket := by
  unfold reserve
  split <;> rfl

/-- What a bus is after a message was taken from a group: the timer of the delivery runs, and it is
held. -/
structure Taken (b b' : Bus) (now : Instant) (s : Subscriber) (g : Group) (e : Envelope)
    (rest : List Envelope) :
    Prop where
  before : b.view s.topic s.group = some g
  queue_eq : g.queue = e :: rest
  after : b'.view s.topic s.group = some { g with
    queue := rest
    timers := g.timers ++ [⟨now + s.options.ackWait.nanos, .settlement b.nextTicket, e,
      s.options.maxDeliveries.toNat⟩] }
  name_eq : g.name = s.group
  alike : ∀ topic group, ¬ (topic = s.topic ∧ group = s.group) →
    b'.view topic group = b.view topic group
  subscription_eq : ∀ id, b'.subscription? id = b.subscription? id
  closed_eq : b'.closed = b.closed
  holdings_eq : b'.holdings = b.holdings ++ [⟨b.nextTicket, s.id, s.topic, s.group⟩]

theorem deliver_some {d : Delivery} {b' : Bus} (h : b.deliver now s = some (d, b')) :
    ∃ g e rest, Taken b b' now s g e rest ∧ d = ⟨b.nextTicket, e.body, e.attempt⟩ := by
  unfold deliver at h
  cases hg : b.group? s.topic s.group with
  | none => rw [hg] at h; cases h
  | some g =>
    have hname : g.name = s.group := by
      simp only [group?, Option.bind_eq_some_iff] at hg
      obtain ⟨t, -, hg⟩ := hg
      simpa using List.find?_some hg
    simp only [hg, Group.take] at h
    split at h
    · cases hq : g.queue with
      | nil => rw [hq] at h; cases h
      | cons e rest =>
        simp only [hq, Option.some.injEq, Prod.mk.injEq] at h
        obtain ⟨rfl, rfl⟩ := h
        refine ⟨g.calm, e, rest, ⟨by rw [view, hg]; rfl, hq, ?_, hname,
          fun topic group hne => ?_, fun _ => rfl, rfl, rfl⟩, rfl⟩
        · change (b.changeGroup s.topic s.group fun _ => _).view s.topic s.group = _
          rw [view_changeGroup, if_pos ⟨rfl, rfl⟩, hg]
          · rfl
          · exact fun _ _ => hname
        · change (b.changeGroup s.topic s.group fun _ => _).view topic group = _
          rw [view_changeGroup, if_neg hne]
          exact fun _ _ => hname
    · cases h

/-- **A poll of an open bus brings nothing and changes nothing, or brings the first message of the
queue.** -/
theorem poll_cases (hs : b.subscriber? id = some s) (hopen : b.closed = false) :
    (∃ b', b.poll now id = (.pending, b') ∧ Alike b b' fun _ _ => False) ∨
      ∃ b' g e rest, b.poll now id = (.ready ⟨b.nextTicket, e.body, e.attempt⟩, b') ∧
        Taken b b' now s g e rest := by
  have hr := alike_reserve b s
  have hn := nextTicket_reserve b s
  simp only [poll, hs, hopen, Bool.false_eq_true, if_false]
  cases hd : (b.reserve s).deliver now s with
  | none => exact .inl ⟨_, rfl, hr⟩
  | some p =>
    obtain ⟨d, b'⟩ := p
    obtain ⟨g, e, rest, ht, rfl⟩ := deliver_some hd
    refine .inr ⟨b', g, e, rest, by rw [hn], ⟨?_, ht.queue_eq, ?_, ht.name_eq, ?_, ?_, ?_, ?_⟩⟩
    · rw [← hr.view_eq _ _ not_false, ht.before]
    · rw [ht.after, hn]
    · exact fun topic group hne => (ht.alike topic group hne).trans (hr.view_eq _ _ not_false)
    · exact fun i => (ht.subscription_eq i).trans (hr.subscription_eq i)
    · exact ht.closed_eq.trans hr.closed_eq
    · rw [ht.holdings_eq, hr.holdings_eq, hn]

/-! ### Settling -/

/-- Settles a delivery. -/
def settleAs (b : Bus) (now : Instant) (ticket : Nat) : Disposition → Bus
  | .ack => b.ack ticket
  | .nack after => b.nack now ticket after

namespace Group

/-- How a group settles a delivery. -/
def settleAs (g : Group) (now : Instant) (ticket : Nat) : Disposition → Group
  | .ack => g.acknowledge ticket
  | .nack after => g.refuse now ticket after

theorem name_redeliver (g : Group) (e : Envelope) (n : Nat) : (g.redeliver e n).name = g.name := by
  unfold redeliver
  split <;> rfl

theorem name_settleAs (g : Group) (now : Instant) (ticket : Nat) (d : Disposition) :
    (g.settleAs now ticket d).name = g.name := by
  cases d with
  | ack =>
    simp only [settleAs, acknowledge]
    split <;> rfl
  | nack after =>
    simp only [settleAs, refuse]
    split
    · rfl
    · split
      · exact name_redeliver _ _ _
      · rfl

theorem redeliver_turn (g : Group) (turn : List Nat) (e : Envelope) (n : Nat) :
    { g with turn }.redeliver e n = { g.redeliver e n with turn } := by
  unfold redeliver
  simp only
  split <;> rfl

theorem calm_redeliver (g : Group) (e : Envelope) (n : Nat) :
    (g.redeliver e n).calm = g.calm.redeliver e n :=
  (redeliver_turn g [] e n).symm

theorem calm_settleAs {g h : Group} {now due : Instant} {ticket n : Nat} {e : Envelope}
    {rest : List Envelope} (hdelay : ∀ t ∈ g.timers, t.wait = .delay)
    (hh : h.calm =
      { g.calm with queue := rest, timers := g.timers ++ [⟨due, .settlement ticket, e, n⟩] })
    (d : Disposition) : (h.settleAs now ticket d).calm = g.calm.finish now e rest n d := by
  have hold : (g.timers.find? fun t => t.wait == .settlement ticket) = none := by
    rw [List.find?_eq_none]
    intro t ht
    simp [hdelay t ht]
  have hkeep : (g.timers.filter fun t => t.wait != .settlement ticket) = g.timers := by
    rw [List.filter_eq_self]
    intro t ht
    simp [hdelay t ht]
  obtain ⟨name, handed, queue, timers, acknowledged, dead, turn⟩ := h
  simp only [calm, mk.injEq] at hh
  obtain ⟨rfl, rfl, rfl, rfl, rfl, rfl, -⟩ := hh
  have hfind : ∀ turn, awaiting?
      ⟨g.name, g.handed, queue, g.timers ++ [⟨due, .settlement ticket, e, n⟩], g.acknowledged,
        g.dead, turn⟩ ticket = some ⟨due, .settlement ticket, e, n⟩ := by
    intro turn
    simp [awaiting?, hold]
  have hstop : ∀ turn, stopAwaiting
      ⟨g.name, g.handed, queue, g.timers ++ [⟨due, .settlement ticket, e, n⟩], g.acknowledged,
        g.dead, turn⟩ ticket =
      ⟨g.name, g.handed, queue, g.timers, g.acknowledged, g.dead, turn⟩ := by
    intro turn
    simp [stopAwaiting, hkeep]
  cases d with
  | ack =>
    simp only [settleAs, acknowledge, hfind, hstop]
    rfl
  | nack after =>
    simp only [settleAs, refuse, hfind, hstop, finish]
    split
    · rw [calm_redeliver]
      rfl
    · rfl

end Group

theorem settleAs_eq (b : Bus) (now : Instant) (ticket : Nat) (d : Disposition) :
    b.settleAs now ticket d = b.settle ticket fun g => g.settleAs now ticket d := by
  cases d <;> rfl

/-- **A message that is settled at the instant at which it is taken moves between places.** -/
theorem Taken.settle {b b' : Bus} {now : Instant} {s : Subscriber} {g : Group} {e : Envelope}
    {rest : List Envelope} (h : Taken b b' now s g e rest) (hnone : b.holdings = [])
    (hdelay : ∀ t ∈ g.timers, t.wait = .delay) (d : Disposition) :
    (b'.settleAs now b.nextTicket d).view s.topic s.group =
        some (g.finish now e rest s.options.maxDeliveries.toNat d) ∧
      Alike b (b'.settleAs now b.nextTicket d) fun topic group => topic = s.topic ∧
      group = s.group := by
  have hhold : b'.holdings = [⟨b.nextTicket, s.id, s.topic, s.group⟩] := by
    rw [h.holdings_eq, hnone, List.nil_append]
  have hsettle : b'.settleAs now b.nextTicket d =
      { (b'.changeFree s.id (· + 1)).changeGroup s.topic s.group fun g =>
        g.settleAs now b.nextTicket d with
        holdings := [] } := by
    have hgone : ((b'.changeFree s.id (· + 1)).changeGroup s.topic s.group fun g =>
        g.settleAs now b.nextTicket d).holdings = [⟨b.nextTicket, s.id, s.topic, s.group⟩] := hhold
    rw [settleAs_eq, Bus.settle, hhold]
    simp [hgone]
  have hview : ∀ topic group, (b'.settleAs now b.nextTicket d).view topic group =
      ((b'.changeFree s.id (· + 1)).changeGroup s.topic s.group fun g =>
        g.settleAs now b.nextTicket d).view
        topic group :=
    fun topic group => by rw [hsettle]; rfl
  have hname : ∀ g : Group, g.name = s.group →
      (g.settleAs now b.nextTicket d).name = s.group := fun g hg => by
    rw [Group.name_settleAs, hg]
  refine ⟨?_, fun topic group hne => ?_, fun id => ?_, ?_, ?_⟩
  · rw [hview, view_changeGroup hname, if_pos ⟨rfl, rfl⟩, group?_changeFree]
    have hafter := h.after
    have hcalm : g.calm = g := by
      have hb := h.before
      rw [view, Option.map_eq_some_iff] at hb
      obtain ⟨g₀, -, rfl⟩ := hb
      rfl
    rw [view, Option.map_eq_some_iff] at hafter
    obtain ⟨g', hg', hcalm'⟩ := hafter
    rw [hg', Option.map_some, Group.calm_settleAs hdelay (by rw [hcalm', hcalm]), hcalm]
  · rw [hview, view_changeGroup hname, if_neg hne]
    exact h.alike topic group hne
  · rw [hsettle]
    refine Eq.trans ?_ (h.subscription_eq id)
    exact subscription?_changeFree b' s.id id _
  · rw [hsettle]
    exact h.closed_eq
  · rw [hsettle, hnone]

/-! ### Publishing and passing time -/

theorem topic?_changeTopic {f : Topic → Topic} (hf : ∀ t, (f t).name = t.name) (name other : String)
    (ts : List Topic) :
    (changeTopic name f ts).find? (fun t => t.name == other) =
      if other = name then some (f ((ts.find? fun t => t.name == name).getD { name }))
      else ts.find? fun t => t.name == other := by
  induction ts with
  | nil =>
    by_cases h : other = name
    · subst h
      simp [changeTopic, hf]
    · simp [changeTopic, hf, h, Ne.symm h]
  | cons t ts ih =>
    by_cases ht : t.name = name
    · by_cases h : other = name
      · subst h
        simp [changeTopic, ht, hf]
      · have hne : ¬ name = other := Ne.symm h
        simp [changeTopic, ht, hf, h, hne]
    · by_cases h : other = name
      · subst h
        simpa [changeTopic, ht] using ih
      · simp only [if_neg h] at ih ⊢
        simp [changeTopic, ht, List.find?_cons, ih]

theorem group?_publish {b' : Bus} {body : Octets} (h : b.publish topic body = .ok b')
    (topic' group' : String) :
    b'.group? topic' group' =
      if topic' = topic then (b.group? topic' group').map (·.handOver body)
        else b.group? topic' group' := by
  unfold publish at h
  split at h
  · cases h
  · cases h
    have hf : ∀ t : Topic, (if t.groups.isEmpty then { t with backlog := t.backlog ++ [body] }
        else { t with groups := t.groups.map fun g : Group => g.handOver body }).name = t.name := by
      intro t
      split <;> rfl
    simp only [group?, topic?, topic?_changeTopic hf]
    by_cases h : topic' = topic
    · subst h
      simp only [if_true, Option.bind_some]
      have hfind : ∀ gs : List Group,
        (gs.map fun g : Group => g.handOver body).find? (fun g => g.name == group') =
          (gs.find? fun g => g.name == group').map (·.handOver body) := by
        intro gs
        rw [List.find?_map]
        rfl
      cases ht : b.topics.find? fun t => t.name == topic' with
      | none => rfl
      | some t =>
        simp only [Option.getD_some, Option.bind_some]
        split
        · rename_i he
          rw [List.isEmpty_iff.1 he]
          rfl
        · rw [hfind]
    · simp only [if_neg h]

/-- **Publishing hands a message to the groups of its subject.** -/
theorem view_publish {b' : Bus} {body : Octets} (h : b.publish topic body = .ok b')
    (topic' group' : String) :
    b'.view topic' group' =
      if topic' = topic then (b.view topic' group').map (·.handOver body)
        else b.view topic' group' := by
  rw [view, group?_publish h]
  split
  · rw [view, Option.map_map, Option.map_map]
    rfl
  · rfl

theorem fire_turn (g : Group) (turn : List Nat) (now : Instant) :
    { g with turn }.fire now = { g.fire now with turn } := by
  have hall : ∀ (ts : List Timer) (g : Group),
      { g with turn }.redeliverAll ts = { g.redeliverAll ts with turn } := by
    intro ts
    induction ts with
    | nil => exact fun _ => rfl
    | cons t ts ih =>
      intro g
      rw [Group.redeliverAll_cons, Group.redeliver_turn, ih, Group.redeliverAll_cons]
  exact hall (g.dueTimers now) { g with timers := g.timers.filter fun t => decide (now < t.due) }

theorem calm_fire (g : Group) (now : Instant) : (g.fire now).calm = g.calm.fire now :=
  (fire_turn g [] now).symm

theorem name_fire (g : Group) (now : Instant) : (g.fire now).name = g.name := by
  have hall : ∀ (ts : List Timer) (g : Group), (g.redeliverAll ts).name = g.name := by
    intro ts
    induction ts with
    | nil => exact fun _ => rfl
    | cons t ts ih =>
      intro g
      rw [Group.redeliverAll_cons, ih, Group.name_redeliver]
  rw [Group.fire_eq, hall]

theorem group?_fire (b : Bus) (now : Instant) (topic group : String) :
    (b.fire now).group? topic group = (b.group? topic group).map (·.fire now) := by
  have hfind : ∀ gs : List Group, (gs.map fun g => g.fire now).find? (fun g => g.name == group) =
      (gs.find? fun g => g.name == group).map (·.fire now) := by
    intro gs
    rw [List.find?_map]
    congr 2
    funext g
    simp [name_fire]
  simp only [group?, topic?, fire, List.find?_map]
  have hcomp : ((fun t : Topic => t.name == topic) ∘ fun t : Topic =>
      { t with groups := t.groups.map fun g => g.fire now }) =
      fun t : Topic => t.name == topic := rfl
  rw [hcomp]
  cases b.topics.find? fun t => t.name == topic with
  | none => rfl
  | some t => simp only [Option.map_some, Option.bind_some, hfind]

/-- **When time passes, the timers of every group run out on their own.** -/
theorem view_fire (b : Bus) (now : Instant) (topic group : String) :
    (b.fire now).view topic group = (b.view topic group).map (·.fire now) := by
  rw [view, group?_fire, view, Option.map_map, Option.map_map]
  congr 1
  funext g
  exact calm_fire g now

end FragmentRelay.Bus
