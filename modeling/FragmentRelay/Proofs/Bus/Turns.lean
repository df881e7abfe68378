import FragmentRelay.Proofs.Bus.Runs

/-!
# Turns: who has asked for a message

A subscriber that asks for a message takes a place at the end of its group's turn, with a free slot.
It leaves when it gets a message or its subscription ends. Nothing else changes a turn.

* `turn?_reserve`, `turn?_deliver`: what a poll does to the turns.
* `turn?_unsubscribe`: what the end of a subscription does to them.
-/

namespace FragmentRelay.Bus

/-- The turn of a group that has been founded. -/
def turn? (b : Bus) (topic group : String) : Option (List Nat) :=
  (b.group? topic group).map (·.turn)

/-- The subscribers of a group that have asked for a message, in order. -/
def turnOf (b : Bus) (topic group : String) : List Nat := (b.turn? topic group).getD []

variable {b b' : Bus} {s : Subscriber} {topic group : String} {id : Nat} {f : Group → Group}

theorem waiting_eq (b : Bus) (s : Subscriber) :
    b.waiting s = decide (s.id ∈ b.turnOf s.topic s.group) := by
  unfold waiting turnOf turn?
  cases b.group? s.topic s.group with
  | none => rfl
  | some g => simp

/-! ### Turns of a changed bus -/

theorem turnOf_congr (h : b'.turn? topic group = b.turn? topic group) :
    b'.turnOf topic group = b.turnOf topic group := by
  rw [turnOf, h, turnOf]

theorem turn?_changeGroup (b : Bus) (topic : String) {group : String} {φ : List Nat → List Nat}
    (hf : ∀ g, g.name = group → (f g).name = group) (hφ : ∀ g, (f g).turn = φ g.turn)
    (topic' group' : String) :
    (b.changeGroup topic group f).turn? topic' group' =
      if topic' = topic ∧ group' = group then (b.turn? topic group).map φ
        else b.turn? topic' group' := by
  rw [turn?, group?_changeGroup hf]
  split_ifs
  · simp [turn?, Function.comp_def, hφ]
  · rfl

theorem turn?_changeGroup_same (hf : ∀ g, (f g).name = g.name) (hturn : ∀ g, (f g).turn = g.turn)
    (topic' group' : String) :
    (b.changeGroup topic group f).turn? topic' group' = b.turn? topic' group' := by
  rw [turn?_changeGroup b topic (φ := id) (fun g hg => (hf g).trans hg) hturn]
  split_ifs with h
  · rw [h.1, h.2, Option.map_id_apply]
  · rfl

theorem turn_redeliver (g : Group) (e : Envelope) (n : Nat) : (g.redeliver e n).turn = g.turn := by
  unfold Group.redeliver
  split <;> rfl

theorem turn_settleAs (g : Group) (now : Instant) (ticket : Nat) (d : Disposition) :
    (g.settleAs now ticket d).turn = g.turn := by
  cases d with
  | ack =>
    simp only [Group.settleAs, Group.acknowledge]
    split <;> rfl
  | nack after =>
    simp only [Group.settleAs, Group.refuse]
    split
    · rfl
    · split
      · exact turn_redeliver _ _ _
      · rfl

theorem turn_lapse (g : Group) (now : Instant) (index : Nat) :
    (g.lapse now index).turn = g.turn := by
  unfold Group.lapse
  split
  · rfl
  · split
    · exact turn_redeliver _ _ _
    · rfl

theorem turn_fire (g : Group) (now : Instant) : (g.fire now).turn = g.turn := by
  have hall : ∀ (ts : List Timer) (g : Group), (g.redeliverAll ts).turn = g.turn := by
    intro ts
    induction ts with
    | nil => exact fun _ => rfl
    | cons t ts ih => exact fun g => (ih _).trans (turn_redeliver g _ _)
  rw [Group.fire_eq, hall]

theorem turn_foldl_handOver (g : Group) (bodies : List Octets) :
    (bodies.foldl Group.handOver g).turn = g.turn := by
  induction bodies generalizing g with
  | nil => rfl
  | cons body bodies ih => exact ih (g.handOver body)

theorem turn?_found (b : Bus) (topic group topic' group' : String) :
    (b.found topic group).turn? topic' group' =
      if topic' = topic ∧ group' = group then some (b.turnOf topic group)
        else b.turn? topic' group' := by
  rw [turn?, group?_found]
  split_ifs
  · rw [Option.map_some, turn_foldl_handOver, turnOf, turn?]
    cases b.group? topic group <;> rfl
  · rfl

theorem turnOf_found (b : Bus) (topic group topic' group' : String) :
    (b.found topic group).turnOf topic' group' = b.turnOf topic' group' := by
  rw [turnOf, turn?_found]
  split_ifs with h
  · rw [h.1, h.2, Option.getD_some]
  · rfl

theorem turn?_publish {body : Octets} (h : b.publish topic body = .ok b') (topic' group' : String) :
    b'.turn? topic' group' = b.turn? topic' group' := by
  rw [turn?, group?_publish h]
  split_ifs
  · rw [Option.map_map]
    rfl
  · rfl

theorem turn?_fire (b : Bus) (now : Instant) (topic group : String) :
    (b.fire now).turn? topic group = b.turn? topic group := by
  rw [turn?, group?_fire, Option.map_map, turn?]
  congr 1
  funext g
  exact turn_fire g now

theorem turn?_unsubscribe (h : b.subscriber? id = some s) (topic' group' : String) :
    (b.unsubscribe id).turn? topic' group' =
      if topic' = s.topic ∧ group' = s.group
        then (b.turn? s.topic s.group).map fun turn => turn.filter (· != id)
      else b.turn? topic' group' := by
  have hleave :=
    turn?_changeGroup b s.topic (f := (·.leave id)) (φ := fun turn => turn.filter (· != id))
    (fun g (hg : g.name = s.group) => hg) (fun g => rfl) topic' group'
  unfold unsubscribe
  rw [h]
  exact hleave

theorem turnOf_unsubscribe (h : b.subscriber? id = some s) (topic' group' : String) :
    (b.unsubscribe id).turnOf topic' group' =
      if topic' = s.topic ∧ group' = s.group then (b.turnOf topic' group').filter (· != id)
      else b.turnOf topic' group' := by
  rw [turnOf, turn?_unsubscribe h]
  split_ifs with hg
  · rw [hg.1, hg.2, turnOf]
    cases b.turn? s.topic s.group <;> rfl
  · rfl

theorem reserve_eq_self (h : s.id ∈ b.turnOf s.topic s.group ∨ s.free = 0) : b.reserve s = b := by
  unfold reserve
  rw [waiting_eq, if_pos]
  simpa using h

theorem reserve_eq (hnot : s.id ∉ b.turnOf s.topic s.group) (hfree : s.free ≠ 0) :
    b.reserve s = (b.changeFree s.id (· - 1)).changeGroup s.topic s.group
      fun g => { g with turn := g.turn ++ [s.id] } := by
  unfold reserve
  rw [waiting_eq, if_neg]
  simpa using ⟨hnot, hfree⟩

theorem turn?_reserve (hnot : s.id ∉ b.turnOf s.topic s.group) (hfree : s.free ≠ 0)
    (topic' group' : String) :
    (b.reserve s).turn? topic' group' =
      if topic' = s.topic ∧ group' = s.group then (b.turn? s.topic s.group).map (· ++ [s.id])
      else b.turn? topic' group' := by
  rw [reserve_eq hnot hfree]
  exact turn?_changeGroup (b.changeFree s.id (· - 1)) s.topic
    (f := fun g => { g with turn := g.turn ++ [s.id] })
    (φ := (· ++ [s.id])) (fun _ hg => hg) (fun _ => rfl) topic' group'

theorem turn?_deliver {now : Instant} {d : Delivery} (h : b.deliver now s = some (d, b')) :
    ∃ rest, b.turn? s.topic s.group = some (s.id :: rest) ∧
      ∀ topic' group', b'.turn? topic' group' =
        if topic' = s.topic ∧ group' = s.group then some rest else b.turn? topic' group' := by
  have hhead : ∃ rest, b.turn? s.topic s.group = some (s.id :: rest) := by
    unfold deliver at h
    cases hg : b.group? s.topic s.group with
    | none =>
      rw [hg] at h
      cases h
    | some g =>
      simp only [hg] at h
      split_ifs at h with hfirst
      obtain ⟨rest, hrest⟩ := List.head?_eq_some_iff.1 hfirst
      exact ⟨rest, by rw [turn?, hg, Option.map_some, hrest]⟩
  obtain ⟨rest, hturn⟩ := hhead
  obtain ⟨g, e, queue, hg, hname, -, -, rfl⟩ := deliver_eq h
  have htail : g.turn.tail = rest := by
    rw [turn?, hg, Option.map_some, Option.some.injEq] at hturn
    rw [hturn, List.tail_cons]
  refine ⟨rest, hturn, fun topic' group' => ?_⟩
  have hchange := turn?_changeGroup b s.topic (φ := fun _ => rest)
    (f := fun _ => { g with
      queue, timers := g.timers ++ [⟨now + s.options.ackWait.nanos, .settlement b.nextTicket, e,
        s.options.maxDeliveries.toNat⟩], turn := g.turn.tail }) (fun _ _ => hname)
      (fun _ => htail) topic' group'
  rw [hturn, Option.map_some] at hchange
  exact hchange

theorem turn?_settle (b : Bus) (ticket : Nat) (hf : ∀ g, (f g).name = g.name)
    (hturn : ∀ g, (f g).turn = g.turn) (topic' group' : String) :
    (b.settle ticket f).turn? topic' group' = b.turn? topic' group' := by
  unfold settle
  split
  · rfl
  · rename_i o ho
    exact turn?_changeGroup_same (b := b.changeFree o.subscriber (· + 1)) hf hturn topic' group'

end FragmentRelay.Bus
