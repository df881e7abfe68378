import FragmentRelay.Proofs.Bus.Runs
import Mathlib.Data.List.Induction

/-!
# Audience: which messages a group is handed

Until the bus is closed, a group is handed what is sent on its subject from its first subscription
on. Before anybody subscribes to a subject, what is sent is kept, and the group that is founded
first gets all of that, too. `messagesFor` says so in terms of the events alone.

* `Clocked.outline_next`: only publications and subscriptions change what is kept and which groups
  there are.
* `follows_run`: both are what the events say.
* `bodies_chronicle`: a group is handed the messages that are meant for it.
-/

namespace FragmentRelay.Bus

/-! ### Events -/

/-- The message that an event sends on a subject. -/
def Happening.sent? (topic : String) : Happening → Option Octets
  | .publish subject body => if subject = topic then some body else none
  | _ => none

/-- Whether an event founds a group of a subject, unless the group is there already. -/
def Happening.joins (topic : String) : Happening → Bool
  | .subscribe subject _ options => decide (subject = topic ∧ options.maxInFlight ≠ 0)
  | _ => false

/-- Whether an event founds the group of a name, unless it is there already. -/
def Happening.joinsGroup (topic group : String) : Happening → Bool
  | .subscribe subject name options =>
    decide (subject = topic ∧ name = group ∧ options.maxInFlight ≠ 0)
  | _ => false

/-- The messages that some events send on a subject. -/
def sent (topic : String) (events : List Happening) : List Octets :=
  events.filterMap (Happening.sent? topic)

/-- The events before the bus is closed. -/
def opened (events : List Happening) : List Happening := events.takeWhile fun e => e != .close

/-- The messages for a group: what is sent after its first subscription, and what was sent before if
nobody else had subscribed to the subject by then. -/
def messagesFor (topic group : String) (events : List Happening) : List Octets :=
  let before := events.takeWhile fun e => !e.joinsGroup topic group
  let since := events.dropWhile fun e => !e.joinsGroup topic group
  if since.isEmpty || before.any (·.joins topic) then sent topic since else sent topic events

variable {b b' : Bus} {c : Clocked} {topic group : String} {events : List Happening} {e : Happening}
  {f : Group → Group}

theorem Happening.joins_of_joinsGroup (h : e.joinsGroup topic group = true) :
    e.joins topic = true := by
  cases e with
  | subscribe subject name options =>
    obtain ⟨hs, -, hm⟩ := of_decide_eq_true h
    exact decide_eq_true ⟨hs, hm⟩
  | _ => cases h

theorem Happening.sent?_of_joinsGroup (h : e.joinsGroup topic group = true) :
    e.sent? topic = none := by
  cases e with
  | subscribe subject name options => rfl
  | _ => cases h

theorem sent_append_singleton (topic : String) (events : List Happening) (e : Happening) :
    sent topic (events ++ [e]) = sent topic events ++ (e.sent? topic).toList := by
  rw [sent, List.filterMap_append]
  cases h : e.sent? topic <;> simp [sent, h]

theorem opened_append_singleton (events : List Happening) (e : Happening) :
    opened (events ++ [e]) = if .close ∈ events ∨ e = .close then opened events
      else opened events ++ [e] := by
  induction events with
  | nil =>
    by_cases he : e = .close
    · simp [opened, he]
    · simp [opened, he]
  | cons d events ih =>
    by_cases hd : d = .close
    · simp [opened, hd]
    · have hd' : ¬ (.close : Happening) = d := Ne.symm hd
      simp only [opened, List.cons_append, List.takeWhile_cons, bne_iff_ne, ne_eq, hd,
        not_false_eq_true, if_true, List.mem_cons, hd', false_or] at ih ⊢
      rw [ih]
      split <;> rfl

theorem messagesFor_of_none (h : ∀ d ∈ events, d.joinsGroup topic group = false) :
    messagesFor topic group events = [] := by
  have hsince : (events.dropWhile fun e => !e.joinsGroup topic group) = [] := by
    rw [← List.append_nil events, List.dropWhile_append_of_pos fun d hd => by simp [h d hd],
      List.dropWhile_nil]
  simp [messagesFor, hsince, sent]

theorem messagesFor_append_cons {before after : List Happening}
    (h : ∀ d ∈ before, d.joinsGroup topic group = false) (he : e.joinsGroup topic group = true) :
    messagesFor topic group (before ++ e :: after) =
      if before.any (·.joins topic) then sent topic (e :: after)
        else sent topic (before ++ e :: after) := by
  have hpos : ∀ d ∈ before, (!d.joinsGroup topic group) = true := fun d hd => by simp [h d hd]
  simp [messagesFor, List.takeWhile_append_of_pos hpos, List.dropWhile_append_of_pos hpos, he]

/-- One more event brings at most one message for a group that is there, and founds one that is
not. -/
theorem messagesFor_append_singleton (topic group : String) (events : List Happening)
    (e : Happening) :
    messagesFor topic group (events ++ [e]) = messagesFor topic group events ++
      if events.any (·.joinsGroup topic group) then (e.sent? topic).toList
      else if e.joinsGroup topic group = true ∧ events.any (·.joins topic) = false
        then sent topic events else [] := by
  cases hfirst : events.find? (·.joinsGroup topic group) with
  | some d =>
    obtain ⟨hd, before, after, rfl, hbefore⟩ := List.find?_eq_some_iff_append.1 hfirst
    have hnone : ∀ x ∈ before, x.joinsGroup topic group = false := fun x hx => by
      simpa using hbefore x hx
    rw [if_pos (by simp [hd]), List.append_assoc, List.cons_append,
      messagesFor_append_cons hnone hd, messagesFor_append_cons hnone hd]
    split_ifs
    · exact sent_append_singleton topic (d :: after) e
    · rw [← List.cons_append, ← List.append_assoc, sent_append_singleton]
  | none =>
    have hnone : ∀ x ∈ events, x.joinsGroup topic group = false := fun x hx => by
      simpa using List.find?_eq_none.1 hfirst x hx
    rw [if_neg (by simpa using hnone), messagesFor_of_none hnone, List.nil_append]
    cases he : e.joinsGroup topic group with
    | true =>
      rw [messagesFor_append_cons hnone he]
      cases hany : events.any (·.joins topic) with
      | true => simp [sent, Happening.sent?_of_joinsGroup he]
      | false => simp [sent_append_singleton, Happening.sent?_of_joinsGroup he]
    | false =>
      rw [if_neg (fun h => Bool.false_ne_true h.1), messagesFor_of_none]
      exact List.forall_mem_append.2 ⟨hnone, List.forall_mem_singleton.2 he⟩

/-! ### Outlines -/

/-- The names of the subjects, what is kept for each, and the names of its groups. -/
def outline (b : Bus) : List (String × List Octets × List String) :=
  b.topics.map fun t => (t.name, t.backlog, t.groups.map (·.name))

/-- Whether a subject has a group. -/
def hasGroup (b : Bus) (topic : String) : Bool := (b.topic? topic).any fun t => !t.groups.isEmpty

theorem isSome_view (b : Bus) (topic group : String) :
    (b.view topic group).isSome = (b.topic? topic).any fun t => t.groups.any fun g =>
      g.name == group := by
  rw [view, Option.isSome_map, group?]
  cases b.topic? topic with
  | none => rfl
  | some t =>
    rw [Bool.eq_iff_iff]
    simp

theorem of_outline_eq (h : b'.outline = b.outline) (topic group : String) :
    b'.kept topic = b.kept topic ∧ b'.hasGroup topic = b.hasGroup topic ∧
      (b'.view topic group).isSome = (b.view topic group).isSome := by
  have hfind : ∀ b : Bus,
      (b.topic? topic).map (fun t => (t.name, t.backlog, t.groups.map (·.name))) =
      b.outline.find? fun x => x.1 == topic := by
    intro b
    rw [outline, List.find?_map]
    rfl
  have hsame := (hfind b').trans ((congrArg _ h).trans (hfind b).symm)
  rw [isSome_view, isSome_view]
  simp only [kept, hasGroup]
  cases ht' : b'.topic? topic with
  | none =>
    rw [ht', Option.map_none, eq_comm, Option.map_eq_none_iff] at hsame
    rw [hsame]
    exact ⟨rfl, rfl, rfl⟩
  | some t' =>
    rw [ht', Option.map_some, eq_comm, Option.map_eq_some_iff] at hsame
    obtain ⟨t, ht, he⟩ := hsame
    simp only [Prod.mk.injEq] at he
    obtain ⟨-, hbacklog, hnames⟩ := he
    have hany : ∀ gs : List Group, (gs.any fun g => g.name == group) =
        (gs.map (·.name)).any (· == group) := by
      intro gs
      rw [List.any_map]
      rfl
    have hempty : ∀ gs : List Group, gs.isEmpty = (gs.map (·.name)).isEmpty := by
      intro gs
      rw [List.isEmpty_map]
    simp only [ht, Option.any_some, hbacklog, hany, hnames, true_and]
    rw [hempty, hempty t.groups, hnames]
    exact ⟨rfl, trivial⟩

theorem outline_changeGroup (b : Bus) (hf : ∀ g, g.name = group → (f g).name = group) :
    (b.changeGroup topic group f).outline = b.outline := by
  simp only [outline, changeGroup, List.map_map]
  refine List.map_congr_left fun t _ => ?_
  by_cases ht : t.name = topic
  · simp only [Function.comp_apply, ht, if_true, List.map_map, Prod.mk.injEq, true_and]
    refine List.map_congr_left fun g _ => ?_
    by_cases hg : g.name = group
    · simp [hg, hf g hg]
    · simp [hg]
  · simp [ht]

theorem outline_unsubscribe (b : Bus) (id : Nat) : (b.unsubscribe id).outline = b.outline := by
  unfold unsubscribe
  split
  · rfl
  · rename_i s hs
    exact outline_changeGroup (f := fun g => g.leave id) b fun g hg => hg

theorem outline_reserve (b : Bus) (s : Subscriber) : (b.reserve s).outline = b.outline := by
  unfold reserve
  split
  · rfl
  · exact outline_changeGroup (f := fun g => { g with turn := g.turn ++ [s.id] }) _ fun g hg => hg

theorem outline_poll (b : Bus) (now : Instant) (id : Nat) :
    (b.poll now id).2.outline = b.outline := by
  have h := polled b now id
  generalize b.poll now id = p at h ⊢
  cases h with
  | absent => rfl
  | closed id => exact outline_unsubscribe b id
  | pending s => exact outline_reserve b s
  | @ready s d b' h =>
    obtain ⟨g, e, rest, -, hname, -, rfl, rfl⟩ := deliver_eq h
    refine Eq.trans ?_ (outline_reserve b s)
    exact outline_changeGroup (b.reserve s) fun _ _ => hname

theorem outline_settle (b : Bus) (ticket : Nat) (hf : ∀ g, (f g).name = g.name) :
    (b.settle ticket f).outline = b.outline := by
  unfold settle
  split
  · rfl
  · exact outline_changeGroup (f := f) (b.changeFree _ _) fun g hg => (hf g).trans hg

theorem outline_fire (b : Bus) (now : Instant) : (b.fire now).outline = b.outline := by
  simp [outline, fire, Function.comp_def, name_fire]

namespace Clocked

/-- **Only publications and subscriptions change what is kept and which groups there are.** -/
theorem outline_next (c : Clocked) (e : Happening) (hsent : ∀ topic, e.sent? topic = none)
    (hjoins : ∀ topic, e.joins topic = false) : (c.next e).bus.outline = c.bus.outline := by
  cases e with
  | publish subject body => simp [Happening.sent?] at hsent
  | subscribe subject name options =>
    rcases c.next_subscribe subject name options with ⟨-, h⟩ | ⟨⟨-, hsome⟩, -⟩
    · rw [h]
    · have hzero := hjoins subject
      simp [Happening.joins, hsome] at hzero
  | unsubscribe id => exact outline_unsubscribe c.bus id
  | poll id => exact outline_poll c.bus c.now id
  | ack ticket => exact outline_settle c.bus ticket fun g => Group.name_settleAs g c.now ticket .ack
  | nack ticket after =>
    exact outline_settle c.bus ticket fun g => Group.name_settleAs g c.now ticket (.nack after)
  | drop ticket => exact outline_settle c.bus ticket fun g => rfl
  | lapse subject name index =>
    exact outline_changeGroup c.bus fun g hg => (Group.name_lapse g c.now index).trans hg
  | fire => exact outline_fire c.bus c.now
  | pass span => rfl
  | close => rfl

end Clocked

/-! ### What is kept and which groups there are -/

theorem keeps_publish {body : Octets} (h : b.publish topic body = .ok b') (topic' : String) :
    b'.kept topic' = (if topic' = topic ∧ b.hasGroup topic = false then b.kept topic' ++ [body]
      else b.kept topic') ∧
      b'.hasGroup topic' = b.hasGroup topic' := by
  unfold publish at h
  split_ifs at h
  cases h
  have hf : ∀ t : Topic, (if t.groups.isEmpty then { t with backlog := t.backlog ++ [body] }
      else { t with groups := t.groups.map fun g : Group => g.handOver body }).name = t.name := by
    intro t
    split <;> rfl
  simp only [kept, hasGroup, topic?, topic?_changeTopic hf]
  by_cases htopic : topic' = topic
  · subst htopic
    simp only [if_true, Option.any_some, true_and]
    cases b.topics.find? fun t => t.name == topic' with
    | none => simp
    | some t => cases hg : t.groups with
      | nil => simp [hg]
      | cons g gs => simp [hg]
  · simp [htopic]

theorem keeps_found (b : Bus) (topic group topic' : String) :
    (b.found topic group).kept topic' = (if topic' = topic then [] else b.kept topic') ∧
      (b.found topic group).hasGroup topic' = (decide (topic' = topic) || b.hasGroup topic') := by
  have hname : ∀ t : Topic, (t.join group).name = t.name := fun t => rfl
  simp only [kept, hasGroup, topic?, found, topic?_changeTopic hname]
  by_cases htopic : topic' = topic
  · subst htopic
    have hsome : ∀ t : Topic, (t.join group).groups.isEmpty = false := by
      intro t
      simp only [Topic.join, List.isEmpty_map]
      split_ifs with hany
      · cases hg : t.groups with
        | nil => simp [hg] at hany
        | cons g gs => rfl
      · simp
    simp only [if_true, Option.any_some, hsome, decide_true, Bool.true_or, Bool.not_false, and_true]
    rfl
  · simp [htopic]

theorem closed_unsubscribe (b : Bus) (id : Nat) : (b.unsubscribe id).closed = b.closed := by
  unfold unsubscribe
  split <;> rfl

theorem closed_reserve (b : Bus) (s : Subscriber) : (b.reserve s).closed = b.closed := by
  unfold reserve
  split <;> rfl

theorem closed_poll (b : Bus) (now : Instant) (id : Nat) : (b.poll now id).2.closed = b.closed := by
  have h := polled b now id
  generalize b.poll now id = p at h ⊢
  cases h with
  | absent => rfl
  | closed id => exact closed_unsubscribe b id
  | pending s => exact closed_reserve b s
  | @ready s d b' h =>
    obtain ⟨g, e, rest, -, -, -, rfl, rfl⟩ := deliver_eq h
    exact closed_reserve b s

theorem closed_settle (b : Bus) (ticket : Nat) (f : Group → Group) :
    (b.settle ticket f).closed = b.closed := by
  unfold settle
  split <;> rfl

namespace Clocked

theorem closed_next (c : Clocked) (e : Happening) :
    (c.next e).bus.closed = (c.bus.closed || decide (e = .close)) := by
  cases e with
  | publish subject body =>
    simp only [next, publish]
    split_ifs <;> simp
  | subscribe subject name options =>
    rcases c.next_subscribe subject name options with ⟨-, h⟩ | ⟨-, h | ⟨-, h⟩⟩ <;>
      rw [h] <;> simp [found]
  | unsubscribe id => simp [next, closed_unsubscribe]
  | poll id => simp [next, closed_poll]
  | ack ticket => simp [next, ack, closed_settle]
  | nack ticket after => simp [next, nack, closed_settle]
  | drop ticket => simp [next, drop, closed_settle]
  | lapse subject name index => simp [next, lapse, changeGroup]
  | fire => simp [next, fire]
  | pass span => simp [next]
  | close => simp [next, close]

end Clocked

/-- What an event does to what is kept for a subject and to the groups. -/
structure Grows (b b' : Bus) (e : Happening) (topic group : String) : Prop where
  kept_eq : b'.kept topic =
    if b.closed = false ∧ e.joins topic = true then []
    else if b.closed = false ∧ b.hasGroup topic = false then b.kept topic ++ (e.sent? topic).toList
    else b.kept topic
  hasGroup_eq : b'.hasGroup topic = (b.hasGroup topic || !b.closed && e.joins topic)
  isSome_eq : (b'.view topic group).isSome =
    ((b.view topic group).isSome || !b.closed && e.joinsGroup topic group)

namespace Clocked

theorem grows_publish (c : Clocked) (subject : String) (body : Octets) (topic group : String) :
    Grows c.bus (c.next (.publish subject body)).bus (.publish subject body) topic group := by
  simp only [next]
  cases h : c.bus.publish subject body with
  | error e =>
    have hclosed : c.bus.closed = true := by
      by_contra hopen
      simp [publish, hopen] at h
    constructor <;> simp [hclosed]
  | ok bus =>
    have hopen : c.bus.closed = false := by
      unfold publish at h
      split_ifs at h with hclosed
      simpa using hclosed
    obtain ⟨hkept, hgroups⟩ := keeps_publish h topic
    have hview := view_publish h topic group
    by_cases htopic : topic = subject
    · subst htopic
      cases hg : c.bus.hasGroup topic <;>
        constructor <;> simp [hkept, hgroups, hview, hopen, hg, Happening.joins,
          Happening.joinsGroup, Happening.sent?]
    · have hne : ¬ subject = topic := Ne.symm htopic
      constructor <;> simp [hkept, hgroups, hview, htopic, hne, Happening.joins,
        Happening.joinsGroup, Happening.sent?]

theorem grows_subscribe (c : Clocked) (subject name : String) (options : SubscribeOptions)
    (topic group : String) :
    Grows c.bus (c.next (.subscribe subject name options)).bus (.subscribe subject name options)
      topic group := by
  rcases c.next_subscribe subject name options with ⟨hrefused, h⟩ | ⟨⟨hopen, hsome⟩, hnext⟩
  · rw [h]
    cases hclosed : c.bus.closed with
    | true => constructor <;> simp [hclosed]
    | false =>
      have hzero : options.maxInFlight = 0 := by simpa [hclosed] using hrefused
      constructor <;> simp [Happening.joins, Happening.joinsGroup, Happening.sent?, hzero]
  · have houtline : (c.next (.subscribe subject name options)).bus.outline =
        (c.bus.found subject name).outline := by
      rcases hnext with hnext | ⟨-, hnext⟩
      · rw [hnext]
      · rw [hnext]
        rfl
    obtain ⟨hkept, hgroups, hview⟩ := of_outline_eq houtline topic group
    rw [(keeps_found c.bus subject name topic).1] at hkept
    rw [(keeps_found c.bus subject name topic).2] at hgroups
    rw [view_found] at hview
    by_cases htopic : topic = subject
    · subst htopic
      by_cases hgroup : group = name
      · subst hgroup
        constructor <;> simp [hkept, hgroups, hview, hopen, hsome, Happening.joins,
          Happening.joinsGroup]
      · have hne : ¬ name = group := Ne.symm hgroup
        constructor <;> simp [hkept, hgroups, hview, hopen, hsome, hgroup, hne, Happening.joins,
          Happening.joinsGroup]
    · have hne : ¬ subject = topic := Ne.symm htopic
      constructor <;> simp [hkept, hgroups, hview, htopic, hne, Happening.joins,
        Happening.joinsGroup, Happening.sent?]

/-- **An open bus keeps what is sent on a subject without groups, and a subscription founds
one.** -/
theorem grows_next (c : Clocked) (e : Happening) (topic group : String) :
    Grows c.bus (c.next e).bus e topic group := by
  by_cases hquiet : (∀ topic, e.sent? topic = none) ∧ ∀ topic, e.joins topic = false
  · obtain ⟨hkept, hgroups, hview⟩ := of_outline_eq (c.outline_next e hquiet.1 hquiet.2) topic group
    have hjoins : e.joinsGroup topic group = false := by
      by_contra hj
      exact absurd (Happening.joins_of_joinsGroup (Bool.of_not_eq_false hj)) (by simp [hquiet.2])
    constructor <;> simp [hkept, hgroups, hview, hquiet.1, hquiet.2, hjoins]
  cases e with
  | publish subject body => exact c.grows_publish subject body topic group
  | subscribe subject name options => exact c.grows_subscribe subject name options topic group
  | _ => exact absurd ⟨fun _ => rfl, fun _ => rfl⟩ hquiet

end Clocked

/-- What a bus keeps and which groups it has is what its events say. -/
structure Follows (b : Bus) (events : List Happening) : Prop where
  closed_eq : b.closed = decide (.close ∈ events)
  kept_eq : ∀ topic, b.kept topic = if (opened events).any (·.joins topic) then []
    else sent topic (opened events)
  hasGroup_eq : ∀ topic, b.hasGroup topic = (opened events).any (·.joins topic)
  isSome_eq : ∀ topic group, (b.view topic group).isSome =
    (opened events).any (·.joinsGroup topic group)

theorem Follows.next (h : Follows c.bus events) (e : Happening) :
    Follows (c.next e).bus (events ++ [e]) := by
  have hclosed : (c.next e).bus.closed = decide (.close ∈ events ++ [e]) := by
    rw [c.closed_next, h.closed_eq]
    simp [eq_comm]
  have hopened := opened_append_singleton events e
  have hbus := h.closed_eq
  by_cases hmem : .close ∈ events
  · rw [if_pos (.inl hmem)] at hopened
    rw [decide_eq_true hmem] at hbus
    refine ⟨hclosed, fun topic => ?_, fun topic => ?_, fun topic group => ?_⟩
    · simp [(c.grows_next e topic topic).kept_eq, hopened, hbus, h.kept_eq]
    · simp [(c.grows_next e topic topic).hasGroup_eq, hopened, hbus, h.hasGroup_eq]
    · simp [(c.grows_next e topic group).isSome_eq, hopened, hbus, h.isSome_eq]
  rw [decide_eq_false hmem] at hbus
  by_cases he : e = .close
  · rw [if_pos (.inr he)] at hopened
    subst he
    refine ⟨hclosed, fun topic => ?_, fun topic => ?_, fun topic group => ?_⟩
    · simp [(c.grows_next .close topic topic).kept_eq, hopened, h.kept_eq, Happening.joins,
        Happening.sent?]
    · simp [(c.grows_next .close topic topic).hasGroup_eq, hopened, h.hasGroup_eq, Happening.joins]
    · simp [(c.grows_next .close topic group).isSome_eq, hopened, h.isSome_eq, Happening.joinsGroup]
  · rw [if_neg (not_or.2 ⟨hmem, he⟩)] at hopened
    refine ⟨hclosed, fun topic => ?_, fun topic => ?_, fun topic group => ?_⟩
    · rw [(c.grows_next e topic topic).kept_eq, hopened, hbus, h.kept_eq, h.hasGroup_eq,
        sent_append_singleton, List.any_append]
      cases (opened events).any (·.joins topic) <;> cases hj : e.joins topic <;> simp [hj]
    · simp [(c.grows_next e topic topic).hasGroup_eq, hopened, hbus, h.hasGroup_eq]
    · simp [(c.grows_next e topic group).isSome_eq, hopened, hbus, h.isSome_eq]

/-- **What a bus keeps and which groups it has is what its events say.** -/
theorem follows_run (events : List Happening) : Follows (run events).bus events := by
  induction events using List.reverseRecOn with
  | nil => exact ⟨rfl, fun _ => rfl, fun _ => rfl, fun _ _ => rfl⟩
  | append_singleton events e ih =>
    rw [run_append_singleton]
    exact ih.next e

/-! ### What a group is handed -/

theorem bodies_notes (c : Clocked) (topic group : String) (e : Happening) :
    bodies (c.notes topic group e) =
      if c.bus.closed then []
      else if e.joinsGroup topic group then c.bus.kept topic
      else if (c.bus.view topic group).isSome then (e.sent? topic).toList else [] := by
  have hnone : (∀ x ∈ c.notes topic group e, x.body? = none) → e.joinsGroup topic group = false →
      e.sent? topic = none → bodies (c.notes topic group e) = if c.bus.closed then [] else
        if e.joinsGroup topic group then c.bus.kept topic
        else if (c.bus.view topic group).isSome then (e.sent? topic).toList else [] := by
    intro hnotes hjoins hsent
    rw [bodies, List.filterMap_eq_nil_iff.2 hnotes, hjoins, hsent]
    simp
  cases e with
  | publish subject body =>
    simp only [Clocked.notes, Happening.joinsGroup, Happening.sent?, Bool.false_eq_true, if_false]
    cases hclosed : c.bus.closed with
    | true => simp [bodies]
    | false =>
      by_cases htopic : subject = topic <;>
        cases hg : (c.bus.view topic group).isSome <;> simp [htopic, bodies, Note.body?]
  | subscribe subject name options =>
    simp only [Clocked.notes, Happening.joinsGroup, Happening.sent?]
    cases hclosed : c.bus.closed with
    | true => simp [bodies]
    | false =>
      by_cases hjoins : subject = topic ∧ name = group ∧ options.maxInFlight ≠ 0
      · simp [hjoins, bodies, List.filterMap_map, Function.comp_def, Note.body?]
      · rw [if_neg fun h => hjoins ⟨h.2.2.1, h.2.2.2, h.2.1⟩]
        simp [hjoins, bodies]
  | _ => exact hnone (fun x hx => by cases Clocked.noted hx <;> rfl) rfl rfl

/-- **A group is handed the messages that are meant for it.** -/
theorem bodies_chronicle (topic group : String) (events : List Happening) :
    bodies (chronicle topic group events) = messagesFor topic group (opened events) := by
  induction events using List.reverseRecOn with
  | nil => rfl
  | append_singleton events e ih =>
    have hf := follows_run events
    rw [chronicle_append_singleton, bodies_append, ih, bodies_notes, opened_append_singleton,
      hf.closed_eq, hf.kept_eq, hf.isSome_eq]
    by_cases hmem : .close ∈ events
    · simp [hmem]
    by_cases he : e = .close
    · simp [he, Happening.joinsGroup, Happening.sent?]
    rw [if_neg (not_or.2 ⟨hmem, he⟩), messagesFor_append_singleton, if_neg (by simpa using hmem)]
    congr 1
    cases hj : e.joinsGroup topic group with
    | false => simp
    | true =>
      cases hany : (opened events).any (·.joinsGroup topic group) with
      | false => cases (opened events).any (·.joins topic) <;> simp
      | true =>
        -- whoever founded the group has subscribed to the subject, so nothing is kept for it any
        -- more
        obtain ⟨d, hd, hdj⟩ := List.any_eq_true.1 hany
        have hjoined : (opened events).any (·.joins topic) = true :=
          List.any_eq_true.2 ⟨d, hd, Happening.joins_of_joinsGroup hdj⟩
        simp [hjoined, Happening.sent?_of_joinsGroup hj]

end FragmentRelay.Bus
