import FragmentRelay.Proofs.Bus.Ledger
import FragmentRelay.Proofs.Bus.Turns

/-!
# Slots: how many deliveries a subscriber can get

The slot of a delivery is free again when the delivery is settled or dropped, and a subscriber that
asks for a message reserves one. So after any run the slots that a subscriber has are free, taken by
the deliveries that it holds, or reserved with its place in the turn, and only one of them is
reserved.

* `Seated.next`: every event keeps the slots in balance.
* `seated_run`: they are in balance after any run.
-/

namespace FragmentRelay.Bus

/-- The number of deliveries that a subscriber has not settled or dropped. -/
def heldBy (b : Bus) (id : Nat) : Nat := b.holdings.countP fun o => o.subscriber = id

variable {b b' : Bus} {c : Clocked} {s : Subscriber} {topic group : String} {id ticket : Nat}
  {f : Group → Group}

theorem subscriber?_some (h : b.subscriber? id = some s) : s ∈ b.subscribers ∧ s.id = id :=
  ⟨List.mem_of_find?_eq_some h, by simpa using List.find?_some h⟩

/-! ### Balance -/

/-- The slots of a subscriber: free, taken by a delivery that it holds, or reserved with its place
in the turn. -/
def slotsOf (b : Bus) (s : Subscriber) : Nat :=
  s.free + b.heldBy s.id + if s.id ∈ b.turnOf s.topic s.group then 1 else 0

/-- Numbers are given once, the group of every subscriber is there, and no slot is lost. -/
structure Seated (b : Bus) : Prop where
  ids_lt : ∀ s ∈ b.subscribers, s.id < b.nextSubscriber
  ids_nodup : (b.subscribers.map (·.id)).Nodup
  founded : ∀ s ∈ b.subscribers, (b.turn? s.topic s.group).isSome
  turn_lt : ∀ topic group, ∀ i ∈ b.turnOf topic group, i < b.nextSubscriber
  turn_nodup : ∀ topic group, (b.turnOf topic group).Nodup
  held_lt : ∀ o ∈ b.holdings, o.subscriber < b.nextSubscriber
  slots : ∀ s ∈ b.subscribers, b.slotsOf s = s.options.maxInFlight

theorem ids_changeFree (b : Bus) (id : Nat) (f : Nat → Nat) :
    (b.changeFree id f).subscribers.map (·.id) = b.subscribers.map (·.id) := by
  simp only [changeFree, List.map_map]
  refine List.map_congr_left fun s _ => ?_
  simp only [Function.comp_apply]
  split <;> rfl

theorem mem_changeFree {f : Nat → Nat} (h : s ∈ (b.changeFree id f).subscribers) :
    ∃ r ∈ b.subscribers, s.id = r.id ∧ s.topic = r.topic ∧ s.group = r.group ∧
      s.options = r.options ∧
      s.free = if r.id = id then f r.free else r.free := by
  obtain ⟨r, hr, rfl⟩ := List.mem_map.1 h
  refine ⟨r, hr, ?_⟩
  split_ifs <;> exact ⟨rfl, rfl, rfl, rfl, rfl⟩

theorem exists_mem_reserve {r : Subscriber} (hr : r ∈ b.subscribers) :
    ∃ q ∈ (b.reserve s).subscribers, q.id = r.id ∧ q.topic = r.topic ∧ q.group = r.group := by
  unfold reserve
  split_ifs
  · exact ⟨r, hr, rfl, rfl, rfl⟩
  · refine ⟨_, List.mem_map_of_mem hr, ?_⟩
    split_ifs <;> exact ⟨rfl, rfl, rfl⟩

theorem mem_turnOf_of_ne {turn : List Nat}
    (hturn : ∀ topic group, b'.turnOf topic group =
      if topic = s.topic ∧ group = s.group then turn else b.turnOf topic group)
    (hothers : ∀ i, i ≠ s.id → (i ∈ turn ↔ i ∈ b.turnOf s.topic s.group)) {r : Subscriber}
    (hne : r.id ≠ s.id) :
    r.id ∈ b'.turnOf r.topic r.group ↔ r.id ∈ b.turnOf r.topic r.group := by
  rw [hturn]
  split_ifs with hg
  · rw [hg.1, hg.2]
    exact hothers _ hne
  · rfl

theorem countP_filter_ticket {l : List Holding} (hn : (l.map (·.ticket)).Nodup)
    {o : Holding} (ho : o ∈ l) (p : Holding → Bool) :
    l.countP p = (l.filter fun x => x.ticket != o.ticket).countP p + if p o then 1 else 0 := by
  induction l with
  | nil => cases ho
  | cons x l ih =>
    rw [List.map_cons, List.nodup_cons] at hn
    rcases List.mem_cons.1 ho with rfl | ho
    · have hrest : (l.filter fun x => x.ticket != o.ticket) = l := by
        rw [List.filter_eq_self]
        intro y hy
        rw [bne_iff_ne]
        exact fun he => hn.1 (he ▸ List.mem_map_of_mem hy)
      simp [hrest, List.countP_cons]
    · have hne : x.ticket ≠ o.ticket := fun he => hn.1 (he ▸ List.mem_map_of_mem ho)
      rw [List.filter_cons_of_pos (by simpa using hne), List.countP_cons,
        List.countP_cons, ih hn.2 ho]
      omega

theorem tickets_nodup_run (events : List Happening) :
    ((run events).bus.holdings.map (·.ticket)).Nodup := by
  induction events using List.reverseRecOn with
  | nil => exact List.nodup_nil
  | append_singleton events e ih =>
    rw [run_append_singleton]
    cases (run events).booked "" "" e with
    | keep _ hholdings _ =>
      rw [hholdings]
      exact ih
    | deliver o ho _ hholdings _ =>
      rw [hholdings, List.map_append, List.map_singleton, ← List.concat_eq_append]
      refine ih.concat fun hmem => ?_
      obtain ⟨x, hx, he⟩ := List.mem_map.1 hmem
      exact absurd ((ledger_run events "" "").held_lt x hx) (by omega)
    | settle ticket _ _ hholdings _ =>
      rw [hholdings]
      exact ih.sublist (List.filter_sublist.map _)

namespace Seated

theorem empty : Seated {} where
  ids_lt := List.forall_mem_nil _
  ids_nodup := List.nodup_nil
  founded := List.forall_mem_nil _
  turn_lt _ _ := List.forall_mem_nil _
  turn_nodup _ _ := List.nodup_nil
  held_lt := List.forall_mem_nil _
  slots := List.forall_mem_nil _

theorem eq_of_id_eq (h : Seated b) {r : Subscriber} (hs : s ∈ b.subscribers)
    (hr : r ∈ b.subscribers) (hid : s.id = r.id) : s = r :=
  List.inj_on_of_nodup_map h.ids_nodup hs hr hid

theorem of_moved (h : Seated b) (hnext : b'.nextSubscriber = b.nextSubscriber)
    (hids : (b'.subscribers.map (·.id)).Sublist (b.subscribers.map (·.id)))
    (hfounded : ∀ topic group, (b.turn? topic group).isSome → (b'.turn? topic group).isSome)
    (hlt : ∀ topic group, ∀ i ∈ b'.turnOf topic group, i < b.nextSubscriber)
    (hnodup : ∀ topic group, (b'.turnOf topic group).Nodup)
    (hheld : ∀ o ∈ b'.holdings, o.subscriber < b.nextSubscriber)
    (hslots : ∀ s ∈ b'.subscribers, ∃ r ∈ b.subscribers, s.topic = r.topic ∧ s.group = r.group ∧
      s.options = r.options ∧ b'.slotsOf s = b.slotsOf r) : Seated b' where
  ids_lt s hs := by
    obtain ⟨r, hr, hid⟩ := List.mem_map.1 (hids.subset (List.mem_map_of_mem hs))
    rw [hnext, ← hid]
    exact h.ids_lt r hr
  ids_nodup := h.ids_nodup.sublist hids
  founded s hs := by
    obtain ⟨r, hr, htopic, hgroup, -⟩ := hslots s hs
    rw [htopic, hgroup]
    exact hfounded _ _ (h.founded r hr)
  turn_lt := hnext ▸ hlt
  turn_nodup := hnodup
  held_lt := hnext ▸ hheld
  slots s hs := by
    obtain ⟨r, hr, -, -, hoptions, hsame⟩ := hslots s hs
    rw [hsame, hoptions]
    exact h.slots r hr

theorem of_same (h : Seated b) (hsubscribers : b'.subscribers = b.subscribers)
    (hnext : b'.nextSubscriber = b.nextSubscriber) (hholdings : b'.holdings = b.holdings)
    (hturn : ∀ topic group, b'.turn? topic group = b.turn? topic group) : Seated b' := by
  have hturnOf := fun topic group => turnOf_congr (hturn topic group)
  refine h.of_moved hnext (hsubscribers ▸ List.Sublist.refl _) (fun topic group => ?_)
    (fun topic group => ?_) (fun topic group => ?_) (hholdings ▸ h.held_lt) fun s hs => ?_
  · rw [hturn]
    exact id
  · rw [hturnOf]
    exact h.turn_lt topic group
  · rw [hturnOf]
    exact h.turn_nodup topic group
  · rw [slotsOf, heldBy, hholdings, hturnOf]
    exact ⟨s, hsubscribers ▸ hs, rfl, rfl, rfl, rfl⟩

theorem free_of_not_mem (h : Seated b) (hs : s ∈ b.subscribers)
    (hnot : s.id ∉ b.turnOf s.topic s.group) : s.free + b.heldBy s.id = s.options.maxInFlight := by
  have hslots := h.slots s hs
  rwa [slotsOf, if_neg hnot, Nat.add_zero] at hslots

theorem turnOf_reserve (h : Seated b) (hs : s ∈ b.subscribers)
    (hnot : s.id ∉ b.turnOf s.topic s.group) (hfree : s.free ≠ 0) (topic group : String) :
    (b.reserve s).turnOf topic group =
      if topic = s.topic ∧ group = s.group then b.turnOf s.topic s.group ++ [s.id]
        else b.turnOf topic group := by
  obtain ⟨turn, hturn⟩ := Option.isSome_iff_exists.1 (h.founded s hs)
  simp only [turnOf, turn?_reserve hnot hfree, hturn]
  split_ifs <;> rfl

theorem reserve (h : Seated b) (hs : s ∈ b.subscribers) : Seated (b.reserve s) := by
  by_cases hself : s.id ∈ b.turnOf s.topic s.group ∨ s.free = 0
  · rwa [reserve_eq_self hself]
  obtain ⟨hnot, hfree⟩ := not_or.1 hself
  have hturn := h.turnOf_reserve hs hnot hfree
  have hsubscribers : (b.reserve s).subscribers = (b.changeFree s.id (· - 1)).subscribers := by
    rw [reserve_eq hnot hfree]
    rfl
  have hnext : (b.reserve s).nextSubscriber = b.nextSubscriber := by
    rw [reserve_eq hnot hfree]
    rfl
  refine h.of_moved hnext ?_ (fun topic group hfounded => ?_) (fun topic group => ?_)
    (fun topic group => ?_) (holdings_reserve b s ▸ h.held_lt) fun r hr => ?_
  · rw [hsubscribers, ids_changeFree]
  · rw [turn?_reserve hnot hfree]
    split_ifs
    · rw [Option.isSome_map]
      exact h.founded s hs
    · exact hfounded
  · rw [hturn]
    split_ifs
    · exact List.forall_mem_append.2 ⟨h.turn_lt _ _, List.forall_mem_singleton.2 (h.ids_lt s hs)⟩
    · exact h.turn_lt topic group
  · rw [hturn]
    split_ifs
    · simpa using (h.turn_nodup _ _).concat hnot
    · exact h.turn_nodup topic group
  · rw [hsubscribers] at hr
    obtain ⟨r₀, hr₀, hid, htopic, hgroup, hoptions, hrfree⟩ := mem_changeFree hr
    refine ⟨r₀, hr₀, htopic, hgroup, hoptions, ?_⟩
    rw [slotsOf, slotsOf, heldBy, holdings_reserve, ← heldBy, htopic, hgroup, hid, hrfree]
    by_cases he : r₀.id = s.id
    · obtain rfl := h.eq_of_id_eq hr₀ hs he
      have hin : r₀.id ∈ (b.reserve r₀).turnOf r₀.topic r₀.group := by
        rw [hturn, if_pos ⟨rfl, rfl⟩]
        exact List.mem_append_right _ List.mem_cons_self
      rw [if_pos rfl, if_pos hin, if_neg hnot]
      omega
    · have hsame := mem_turnOf_of_ne hturn (fun i hi => by simp [hi]) he
      rw [if_neg he, if_congr hsame rfl rfl]

theorem deliver {now : Instant} {d : Delivery} (h : Seated b) {r : Subscriber}
    (hr : r ∈ b.subscribers) (hid : r.id = s.id) (htopic : r.topic = s.topic)
    (hgroup : r.group = s.group) (hd : b.deliver now s = some (d, b')) : Seated b' := by
  obtain ⟨rest, hfirst, hturn⟩ := turn?_deliver hd
  obtain ⟨g, e, queue, -, -, -, -, hb'⟩ := deliver_eq hd
  have hsubscribers : b'.subscribers = b.subscribers := by
    rw [hb']
    rfl
  have hholdings : b'.holdings = b.holdings ++ [⟨b.nextTicket, s.id, s.topic, s.group⟩] := by
    rw [hb']
  have hline : b.turnOf s.topic s.group = s.id :: rest := by rw [turnOf, hfirst, Option.getD_some]
  have hnodup := h.turn_nodup s.topic s.group
  rw [hline, List.nodup_cons] at hnodup
  have hturnOf : ∀ topic group, b'.turnOf topic group =
      if topic = s.topic ∧ group = s.group then rest else b.turnOf topic group := by
    intro topic group
    rw [turnOf, hturn]
    split_ifs <;> rfl
  have hsublist : ∀ topic group, (b'.turnOf topic group).Sublist (b.turnOf topic group) := by
    intro topic group
    rw [hturnOf]
    split_ifs with hg
    · rw [hg.1, hg.2, hline]
      exact List.sublist_cons_self _ _
    · exact List.Sublist.refl _
  refine h.of_moved (by rw [hb']; rfl) (hsubscribers ▸ List.Sublist.refl _)
    (fun topic group hfounded => ?_)
    (fun topic group i hi => h.turn_lt topic group i ((hsublist topic group).subset hi))
    (fun topic group => (h.turn_nodup topic group).sublist (hsublist topic group)) ?_ fun q hq => ?_
  · rw [hturn]
    split_ifs
    · rfl
    · exact hfounded
  · rw [hholdings, List.forall_mem_append, List.forall_mem_singleton]
    exact ⟨h.held_lt, hid ▸ h.ids_lt r hr⟩
  · rw [hsubscribers] at hq
    refine ⟨q, hq, rfl, rfl, rfl, ?_⟩
    have hheld : b'.heldBy q.id = b.heldBy q.id + if s.id = q.id then 1 else 0 := by
      rw [heldBy, hholdings, List.countP_append, List.countP_singleton, heldBy]
      simp
    rw [slotsOf, slotsOf, hheld]
    by_cases he : s.id = q.id
    · obtain rfl := h.eq_of_id_eq hr hq (hid.trans he)
      have hleft : r.id ∉ b'.turnOf r.topic r.group := by
        rw [hturnOf, if_pos ⟨htopic, hgroup⟩, hid]
        exact hnodup.1
      have hbefore : r.id ∈ b.turnOf r.topic r.group := by
        rw [htopic, hgroup, hline, hid]
        exact List.mem_cons_self
      rw [if_pos he, if_neg hleft, if_pos hbefore]
      omega
    · have hothers : ∀ i, i ≠ s.id → (i ∈ rest ↔ i ∈ b.turnOf s.topic s.group) := fun i hi => by
        rw [hline, List.mem_cons, or_iff_right hi]
      rw [if_neg he, if_congr (mem_turnOf_of_ne hturnOf hothers (Ne.symm he)) rfl rfl, Nat.add_zero]

theorem unsubscribe (h : Seated b) (id : Nat) : Seated (b.unsubscribe id) := by
  cases hs : b.subscriber? id with
  | none =>
    have hself : b.unsubscribe id = b := by
      unfold Bus.unsubscribe
      rw [hs]
    rwa [hself]
  | some s =>
    have hturn := turn?_unsubscribe hs
    have hturnOf := turnOf_unsubscribe hs
    have hsublist : ∀ topic group,
        ((b.unsubscribe id).turnOf topic group).Sublist (b.turnOf topic group) := by
      intro topic group
      rw [hturnOf]
      split_ifs
      · exact List.filter_sublist
      · exact List.Sublist.refl _
    have hsubscribers : (b.unsubscribe id).subscribers =
        b.subscribers.filter fun s => s.id != id := by
      unfold Bus.unsubscribe
      rw [hs]
    have hnext : (b.unsubscribe id).nextSubscriber = b.nextSubscriber := by
      unfold Bus.unsubscribe
      rw [hs]
      rfl
    refine h.of_moved hnext (hsubscribers ▸ List.filter_sublist.map _)
      (fun topic group hfounded => ?_)
      (fun topic group i hi => h.turn_lt topic group i ((hsublist topic group).subset hi))
      (fun topic group => (h.turn_nodup topic group).sublist (hsublist topic group))
      (holdings_unsubscribe b id ▸ h.held_lt) fun r hr => ?_
    · rw [hturn]
      split_ifs with hg
      · rw [Option.isSome_map, ← hg.1, ← hg.2]
        exact hfounded
      · exact hfounded
    · rw [hsubscribers, List.mem_filter, bne_iff_ne] at hr
      refine ⟨r, hr.1, rfl, rfl, rfl, ?_⟩
      have hsame : r.id ∈ (b.unsubscribe id).turnOf r.topic r.group ↔
          r.id ∈ b.turnOf r.topic r.group := by
        rw [hturnOf]
        split_ifs
        · rw [List.mem_filter, bne_iff_ne, and_iff_left hr.2]
        · rfl
      rw [slotsOf, slotsOf, heldBy, holdings_unsubscribe, if_congr hsame rfl rfl, heldBy]

theorem settle (h : Seated b) (htickets : (b.holdings.map (·.ticket)).Nodup) (ticket : Nat)
    (hf : ∀ g, (f g).name = g.name) (hturn : ∀ g, (f g).turn = g.turn) :
    Seated (b.settle ticket f) := by
  have hsame := turn?_settle b ticket hf hturn
  have hturnOf := fun topic group => turnOf_congr (hsame topic group)
  cases ho : b.holdings.find? fun o => o.ticket == ticket with
  | none =>
    have hself : b.settle ticket f = b := by
      unfold Bus.settle
      rw [ho]
    rwa [hself]
  | some o =>
    have hmem := List.mem_of_find?_eq_some ho
    obtain rfl : o.ticket = ticket := by simpa using List.find?_some ho
    have hsubscribers : (b.settle o.ticket f).subscribers =
        (b.changeFree o.subscriber (· + 1)).subscribers := by
      unfold Bus.settle
      rw [ho]
      rfl
    have hholdings :
        (b.settle o.ticket f).holdings = b.holdings.filter fun x => x.ticket != o.ticket := by
      unfold Bus.settle
      rw [ho]
      rfl
    have hnext : (b.settle o.ticket f).nextSubscriber = b.nextSubscriber := by
      unfold Bus.settle
      rw [ho]
      rfl
    refine h.of_moved hnext ?_ (fun topic group => ?_) (fun topic group => ?_)
      (fun topic group => ?_) ?_ fun r hr => ?_
    · rw [hsubscribers, ids_changeFree]
    · rw [hsame]
      exact id
    · rw [hturnOf]
      exact h.turn_lt topic group
    · rw [hturnOf]
      exact h.turn_nodup topic group
    · rw [hholdings]
      exact fun x hx => h.held_lt x (List.mem_filter.1 hx).1
    · rw [hsubscribers] at hr
      obtain ⟨r₀, hr₀, hid, htopic, hgroup, hoptions, hfree⟩ := mem_changeFree hr
      refine ⟨r₀, hr₀, htopic, hgroup, hoptions, ?_⟩
      have hcount := countP_filter_ticket htickets hmem fun x => x.subscriber = r₀.id
      rw [slotsOf, slotsOf, heldBy, heldBy, hholdings, hturnOf, htopic, hgroup, hid, hfree]
      by_cases he : o.subscriber = r₀.id
      · rw [if_pos he.symm]
        rw [if_pos (by simpa using he)] at hcount
        omega
      · rw [if_neg (Ne.symm he)]
        rw [if_neg (by simpa using he)] at hcount
        omega

theorem found (h : Seated b) (topic group : String) : Seated (b.found topic group) := by
  have hturnOf := turnOf_found b topic group
  refine h.of_moved rfl (List.Sublist.refl _) (fun topic' group' hfounded => ?_)
    (fun topic' group' => ?_) (fun topic' group' => ?_) h.held_lt fun s hs => ?_
  · rw [turn?_found]
    split_ifs
    · rfl
    · exact hfounded
  · rw [hturnOf]
    exact h.turn_lt topic' group'
  · rw [hturnOf]
    exact h.turn_nodup topic' group'
  · rw [slotsOf, hturnOf]
    exact ⟨s, hs, rfl, rfl, rfl, rfl⟩

theorem join (h : Seated b) (hgroup : (b.turn? topic group).isSome) (options : SubscribeOptions) :
    Seated { b with
      subscribers :=
        b.subscribers ++ [⟨b.nextSubscriber, topic, group, options, options.maxInFlight⟩]
      nextSubscriber := b.nextSubscriber + 1 } where
  ids_lt := by
    rw [List.forall_mem_append, List.forall_mem_singleton]
    exact ⟨fun s hs => Nat.lt_succ_of_lt (h.ids_lt s hs), Nat.lt_succ_self _⟩
  ids_nodup := by
    rw [List.map_append, List.map_singleton, ← List.concat_eq_append]
    refine h.ids_nodup.concat fun hmem => ?_
    obtain ⟨s, hs, he⟩ := List.mem_map.1 hmem
    exact absurd (h.ids_lt s hs) (Nat.not_lt.2 (Nat.le_of_eq he.symm))
  founded := List.forall_mem_append.2 ⟨h.founded, List.forall_mem_singleton.2 hgroup⟩
  turn_lt topic group i hi := Nat.lt_succ_of_lt (h.turn_lt topic group i hi)
  turn_nodup := h.turn_nodup
  held_lt o ho := Nat.lt_succ_of_lt (h.held_lt o ho)
  slots := by
    refine List.forall_mem_append.2 ⟨h.slots, List.forall_mem_singleton.2 ?_⟩
    have hheld : b.heldBy b.nextSubscriber = 0 := by
      rw [heldBy, List.countP_eq_zero]
      intro o ho he
      exact absurd (h.held_lt o ho) (Nat.not_lt.2 (Nat.le_of_eq (of_decide_eq_true he).symm))
    have hnot : b.nextSubscriber ∉ b.turnOf topic group := fun hmem =>
      absurd (h.turn_lt topic group _ hmem) (Nat.lt_irrefl _)
    change options.maxInFlight + b.heldBy b.nextSubscriber +
      (if b.nextSubscriber ∈ b.turnOf topic group then 1 else 0) = options.maxInFlight
    rw [hheld, if_neg hnot]
    rfl

/-- A poll that brings nothing reserves at most a place, and one that brings a message uses it. -/
theorem poll (h : Seated b) (now : Instant) (id : Nat) : Seated (b.poll now id).2 := by
  unfold Bus.poll
  cases hs : b.subscriber? id with
  | none => exact h
  | some s =>
    have hreserve := h.reserve (subscriber?_some hs).1
    simp only
    split_ifs
    · exact h.unsubscribe id
    · cases hd : (b.reserve s).deliver now s with
      | none => exact hreserve
      | some p =>
        obtain ⟨r, hr, hid, htopic, hgroup⟩ := exists_mem_reserve (subscriber?_some hs).1
        exact hreserve.deliver hr hid htopic hgroup hd

/-- **Every event keeps the slots in balance.** -/
theorem next (h : Seated c.bus) (htickets : (c.bus.holdings.map (·.ticket)).Nodup) (e : Happening) :
    Seated (c.next e).bus := by
  cases e with
  | publish subject body =>
    simp only [Clocked.next]
    cases hb : c.bus.publish subject body with
    | error e => exact h
    | ok bus =>
      have hbus : bus.subscribers = c.bus.subscribers ∧ bus.nextSubscriber = c.bus.nextSubscriber ∧
          bus.holdings = c.bus.holdings := by
        unfold publish at hb
        split_ifs at hb
        cases hb
        exact ⟨rfl, rfl, rfl⟩
      exact h.of_same hbus.1 hbus.2.1 hbus.2.2 (turn?_publish hb)
  | subscribe subject name options =>
    rcases c.next_subscribe subject name options with ⟨-, hc⟩ | ⟨-, hc | ⟨-, hc⟩⟩
    · rwa [hc]
    · rw [hc]
      exact h.found subject name
    · rw [hc]
      exact (h.found subject name).join (by rw [turn?_found, if_pos ⟨rfl, rfl⟩]; rfl) options
  | unsubscribe id => exact h.unsubscribe id
  | poll id => exact h.poll c.now id
  | ack ticket =>
    exact h.settle htickets ticket (fun g => Group.name_settleAs g c.now ticket .ack)
      fun g => turn_settleAs g c.now ticket .ack
  | nack ticket after =>
    exact h.settle htickets ticket (fun g => Group.name_settleAs g c.now ticket (.nack after))
      fun g => turn_settleAs g c.now ticket (.nack after)
  | drop ticket => exact h.settle htickets ticket (fun _ => rfl) fun _ => rfl
  | lapse subject name index =>
    exact h.of_same rfl rfl rfl (turn?_changeGroup_same (fun g => Group.name_lapse g c.now index)
      fun g => turn_lapse g c.now index)
  | fire => exact h.of_same rfl rfl rfl (turn?_fire c.bus c.now)
  | pass span => exact h
  | close => exact h.of_same rfl rfl rfl fun _ _ => rfl

end Seated

/-- **After any run the slots are in balance.** -/
theorem seated_run (events : List Happening) : Seated (run events).bus := by
  induction events using List.reverseRecOn with
  | nil => exact .empty
  | append_singleton events e ih =>
    rw [run_append_singleton]
    exact ih.next (tickets_nodup_run events) e

end FragmentRelay.Bus
