import FragmentRelay.Proofs.Store.Deadlines
import Mathlib.Data.Set.Card

/-!
# Vanishing: the store as a map whose entries vanish

Entries that have reached their deadlines stay in the store until they are purged or written again.
A `Shelf` is a map without such leftovers: when it is asked at an instant, whatever has reached its
deadline is gone before it answers. The store answers every query as the shelf does, at all instants
that do not go back, with purges at any places between.

* `Shelf.answer`: what the shelf says to a query and what it is afterwards; the shelf knows no
  purges.
* `Store.Mirrors`: from an instant on, the live entries of a store are those of a shelf.
  `Mirrors.purge`, `Mirrors.answer`: a purge and a query keep that so, and the query is answered
  alike. `Mirrors.play`: so does a whole history.
* `Store.size_sub_size_purge`: the number of entries that a purge takes away.
* `Store.refines_shelf`: the two sides after any history.
-/

namespace FragmentRelay

/-! ### Queries and histories -/

/-- A query to a store. -/
inductive Query where
  | get (key : Key)
  | set (key : Key) (bytes : Octets) (ttl : Option Span)
  | increment (key : Key)

/-- The answer to a query. -/
inductive Answer where
  | value (r : Except StoreError (Option Octets))
  | stored (r : Except StoreError Unit)
  | counted (r : Except StoreError Int)
deriving DecidableEq

/-- The one request of a query. -/
def Query.ask : Query → Access Answer
  | get key => .get key fun r => .done (.value r)
  | set key bytes ttl => .set key bytes ttl fun r => .done (.stored r)
  | increment key => .increment key fun r => .done (.counted r)

/-- What can happen to a store: a query, or a purge. -/
inductive Move where
  | query (q : Query)
  | purge

/-- The queries of a history, without its purges. -/
def queriesOf : List (Instant × Move) → List (Instant × Query)
  | [] => []
  | (now, .query q) :: r => (now, q) :: queriesOf r
  | (_, .purge) :: r => queriesOf r

/-- The instants of a history do not go back. -/
def Chronological (moves : List (Instant × Move)) : Prop := (moves.map (·.1)).Pairwise (· ≤ ·)

instance (moves : List (Instant × Move)) : Decidable (Chronological moves) :=
  inferInstanceAs (Decidable ((moves.map (·.1)).Pairwise (· ≤ ·)))

/-! ### The shelf -/

/-- A map from keys to values, each with the instant at which it vanishes, if there is one. -/
abbrev Shelf := Key → Option Entry

namespace Shelf

/-- The shelf on which nothing was ever put. -/
def empty : Shelf := fun _ => none

/-- What is left of a shelf at an instant: an entry is there before its deadline, and it is gone at
it. -/
def left (m : Shelf) (now : Instant) :
    Shelf := fun key => (m key).filter fun e => e.deadline.all (now < ·)

/-- The shelf with one entry replaced or added. -/
def put (m : Shelf) (key : Key) (e : Entry) :
    Shelf := fun other => if other = key then some e else m other

/-- Answers a query from what is left. A write replaces value and deadline, unless the clock cannot
show the deadline. An absent counter starts at one without a deadline, one below the largest word
grows by one and keeps its deadline, and whatever else is there stays and is an error. -/
def answer (now : Instant) (m : Shelf) : Query → Outcome Answer × Shelf
  | .get key => (.value (.value (.ok ((m.left now key).map (·.bytes)))), m.left now)
  | .set key bytes ttl =>
    if ttl.all (now + ·.nanos < Instant.horizon) then
      (.value (.stored (.ok ())), (m.left now).put key ⟨bytes, ttl.map (now + ·.nanos)⟩)
    else (.crashed Instant.overflowText, m.left now)
  | .increment key =>
    match m.left now key with
    | none => (.value (.counted (.ok 1)), (m.left now).put key ⟨Counter.encode 1, none⟩)
    | some e =>
      match Counter.decode e.bytes with
      | none => (.value (.counted (.error (.notACounter key))), m.left now)
      | some v =>
        if v < Counter.highest then
          (.value (.counted (.ok (v + 1))),
            (m.left now).put key ⟨Counter.encode (v + 1), e.deadline⟩)
        else (.value (.counted (.error (.notACounter key))), m.left now)

/-- Answers queries in a row: all answers, and the shelf at the end. -/
def play : Shelf → List (Instant × Query) → List (Outcome Answer) × Shelf
  | m, [] => ([], m)
  | m, (now, q) :: r =>
    ((m.answer now q).1 :: (play (m.answer now q).2 r).1, (play (m.answer now q).2 r).2)

theorem left_left {m : Shelf} {now later : Instant} (hle : now ≤ later) :
    (m.left now).left later = m.left later := by
  funext key
  rw [left, left, Option.filter_filter, left]
  congr 1
  funext e
  cases e.deadline with
  | none => rfl
  | some t =>
    simp only [Option.all_some, ← Bool.decide_and, decide_eq_decide]
    exact ⟨And.right, fun h => ⟨Nat.lt_of_le_of_lt hle h, h⟩⟩

theorem left_put (m : Shelf) (key : Key) (e : Entry) (now : Instant) (other : Key) :
    (m.put key e).left now other =
      if other = key then (some e).filter fun e => e.deadline.all (now < ·)
        else m.left now other := by
  unfold left put
  split <;> rfl

end Shelf

/-! ### The store -/

theorem Entry.live_eq (e : Entry) (now : Instant) : e.live now = e.deadline.all (now < ·) := by
  unfold live
  cases e.deadline <;> rfl

theorem Entry.live_eq_false_iff {e : Entry} {now : Instant} :
    e.live now = false ↔ ∃ t ∈ e.deadline, t ≤ now := by
  unfold live
  cases e.deadline <;> simp

namespace Store

/-- Carries out the moves of a history: the answers to its queries, and the store at the end. -/
def play : Store → List (Instant × Move) → List (Outcome Answer) × Store
  | s, [] => ([], s)
  | s, (now, .query q) :: r =>
    ((q.ask.alone now s).1 :: (play (q.ask.alone now s).2 r).1, (play (q.ask.alone now s).2 r).2)
  | s, (now, .purge) :: r => play (s.purge now) r

variable {s : Store} {m : Shelf} {now later clock : Instant} {key : Key}

/-- From an instant on, the live entries of a store are what is left of a shelf. -/
structure Mirrors (clock : Instant) (m : Shelf) (s : Store) : Prop where
  nodup : s.keys.Nodup
  live?_eq : ∀ now, clock ≤ now → ∀ key, s.live? now key = m.left now key

namespace Mirrors

theorem empty : Mirrors 0 Shelf.empty {} := ⟨List.nodup_nil, fun _ _ _ => rfl⟩

theorem mono (h : Mirrors clock m s) (hle : clock ≤ now) : Mirrors now m s :=
  ⟨h.nodup, fun later hlater => h.live?_eq later (Nat.le_trans hle hlater)⟩

/-- What has vanished from the shelf is not seen in the store. -/
theorem left (h : Mirrors now m s) : Mirrors now (m.left now) s := by
  refine ⟨h.nodup, fun later hlater key => ?_⟩
  rw [h.live?_eq later hlater, Shelf.left_left hlater]

theorem put (h : Mirrors now m s) (key : Key) (e : Entry) :
    Mirrors now (m.put key e) (s.insert key e) := by
  refine ⟨nodup_keys_insert h.nodup key e, fun later hlater other => ?_⟩
  rw [live?_insert, Shelf.left_put, h.live?_eq later hlater]
  simp only [Entry.live_eq]

/-- **A purge is not seen.** -/
theorem purge (h : Mirrors now m s) : Mirrors now m (s.purge now) := by
  refine ⟨nodup_keys_purge h.nodup now, fun later hlater key => ?_⟩
  rw [(SameFrom.refl now s).purge h.nodup later hlater key, h.live?_eq later hlater]

theorem answer_set (h : Mirrors now m s) (key : Key) (bytes : Octets) (ttl : Option Span) :
    ((Query.set key bytes ttl).ask.alone now s).1 = (m.answer now (.set key bytes ttl)).1 ∧
      Mirrors now
        (m.answer now (.set key bytes ttl)).2 ((Query.set key bytes ttl).ask.alone now s).2 := by
  have hset : s.set now key bytes ttl =
      if ttl.all (now + ·.nanos < Instant.horizon)
        then some (s.insert key ⟨bytes, ttl.map (now + ·.nanos)⟩)
      else none := by
    cases ttl with
    | none => rfl
    | some span =>
      simp only [set, deadlineAfter, Option.all_some, decide_eq_true_eq, Option.map_some]
      by_cases hfit : now + span.nanos < Instant.horizon
      · simp only [if_pos hfit]
      · simp only [if_neg hfit]
  rw [Shelf.answer, Query.ask]
  by_cases hfit : ttl.all (now + ·.nanos < Instant.horizon)
  · rw [if_pos hfit] at hset ⊢
    rw [Access.alone_set_ok hset]
    exact ⟨rfl, h.left.put key _⟩
  · rw [if_neg hfit] at hset ⊢
    rw [Access.alone_set_none hset]
    exact ⟨rfl, h.left⟩

theorem answer_increment (h : Mirrors now m s) (key : Key) :
    ((Query.increment key).ask.alone now s).1 = (m.answer now (.increment key)).1 ∧
      Mirrors now (m.answer now (.increment key)).2 ((Query.increment key).ask.alone now s).2 := by
  have hlive := h.live?_eq now (Nat.le_refl _) key
  rw [Query.ask, Shelf.answer]
  cases hleft : m.left now key with
  | none =>
    have hcount : s.increment now key = .ok (1, s.insert key ⟨Counter.encode 1, none⟩) := by
      simp only [increment, hlive, hleft]
    rw [Access.alone_increment_ok hcount]
    exact ⟨rfl, h.left.put key _⟩
  | some e =>
    cases hv : Counter.decode e.bytes with
    | none =>
      have hcount : s.increment now key = .error (.notACounter key) := by
        simp only [increment, hlive, hleft, hv]
      simp only [hv, Access.alone_increment_error hcount]
      exact ⟨rfl, h.left⟩
    | some v =>
      simp only [hv]
      by_cases hlt : v < Counter.highest
      · have hcount : s.increment now key =
            .ok (v + 1, s.insert key ⟨Counter.encode (v + 1), e.deadline⟩) := by
          simp only [increment, hlive, hleft, hv, if_pos hlt]
        rw [if_pos hlt, Access.alone_increment_ok hcount]
        exact ⟨rfl, h.left.put key _⟩
      · have hcount : s.increment now key = .error (.notACounter key) := by
          simp only [increment, hlive, hleft, hv, if_neg hlt]
        rw [if_neg hlt, Access.alone_increment_error hcount]
        exact ⟨rfl, h.left⟩

/-- **A query is answered alike, and what it writes is the same.** -/
theorem answer (h : Mirrors now m s) (q : Query) :
    (q.ask.alone now s).1 = (m.answer now q).1 ∧
    Mirrors now (m.answer now q).2 (q.ask.alone now s).2 := by
  cases q with
  | get key =>
    have hget : s.get now key = (m.left now key).map (·.bytes) := by
      rw [get, h.live?_eq now (Nat.le_refl _)]
    rw [Query.ask, Access.alone_get, Access.alone_done, Shelf.answer, hget]
    exact ⟨rfl, h.left⟩
  | set key bytes ttl => exact h.answer_set key bytes ttl
  | increment key => exact h.answer_increment key

/-- **A history of a store with purges has the answers of the shelf without them.** -/
theorem play {moves : List (Instant × Move)} (hmoves : Chronological moves) :
    ∀ {clock : Instant} {m : Shelf} {s : Store}, (∀ p ∈ moves, clock ≤ p.1) → Mirrors clock m s →
      (s.play moves).1 = (m.play (queriesOf moves)).1 ∧
      ∀ now, clock ≤ now → (∀ p ∈ moves, p.1 ≤ now) →
        Mirrors now (m.play (queriesOf moves)).2 (s.play moves).2 := by
  induction moves with
  | nil => exact fun _ h => ⟨rfl, fun now hle _ => h.mono hle⟩
  | cons p rest ih =>
    intro clock m s hclock h
    obtain ⟨hfirst, hrest⟩ := List.pairwise_cons.1 hmoves
    have hafter : ∀ q ∈ rest, p.1 ≤ q.1 := fun q hq => hfirst _ (List.mem_map.2 ⟨q, hq, rfl⟩)
    -- from the instant of the first move on, the two sides agree again, and the rest is a history
    -- of its own
    have hp := h.mono (hclock p List.mem_cons_self)
    obtain ⟨at', q | _⟩ := p
    · obtain ⟨hanswer, hnext⟩ := hp.answer q
      obtain ⟨hanswers, hend⟩ := ih hrest hafter hnext
      refine ⟨congrArg₂ List.cons hanswer hanswers, fun now hle hnow => ?_⟩
      exact hend now (hnow _ List.mem_cons_self) fun q hq => hnow q (List.mem_cons_of_mem _ hq)
    · obtain ⟨hanswers, hend⟩ := ih hrest hafter hp.purge
      refine ⟨hanswers, fun now hle hnow => ?_⟩
      exact hend now (hnow _ List.mem_cons_self) fun q hq => hnow q (List.mem_cons_of_mem _ hq)

end Mirrors

/-! ### What is gone -/

theorem nodup_keys_play (h : s.keys.Nodup) (moves : List (Instant × Move)) :
    (s.play moves).2.keys.Nodup := by
  induction moves generalizing s with
  | nil => exact h
  | cons p rest ih =>
    obtain ⟨now, q | _⟩ := p
    · exact ih (Access.nodup_keys_alone h _ _)
    · exact ih (nodup_keys_purge h now)

/-- **The number of entries that a purge takes away** is the number of keys under which an entry has
reached its deadline. -/
theorem size_sub_size_purge (h : s.keys.Nodup) (now : Instant) :
    s.size - (s.purge now).size = {key | ∃ e, s.find? key = some e ∧
      ∃ t ∈ e.deadline, t ≤ now}.ncard := by
  have hset : {key | ∃ e, s.find? key = some e ∧ ∃ t ∈ e.deadline, t ≤ now} =
      ↑((s.entries.filter fun e => !e.2.live now).map (·.1)).toFinset := by
    ext key
    simp [← mem_entries_iff h, Entry.live_eq_false_iff]
  have hnodup : ((s.entries.filter fun e => !e.2.live now).map (·.1)).Nodup :=
    h.sublist (List.filter_sublist.map _)
  have hsplit := List.length_eq_length_filter_add (l := s.entries) fun e => e.2.live now
  have hleft : (s.purge now).size = (s.entries.filter fun e => e.2.live now).length := rfl
  rw [hset, Set.ncard_coe_finset, List.toFinset_card_of_nodup hnodup, List.length_map,
    hleft, size, hsplit]
  exact Nat.add_sub_cancel_left _ _

theorem alone_increment_of_error {e : StoreError}
    (h : ((Query.increment key).ask.alone now s).1 = .value (.counted (.error e))) :
    ((Query.increment key).ask.alone now s).2 = s := by
  rw [Query.ask] at h ⊢
  cases hcount : s.increment now key with
  | error e => rw [Access.alone_increment_error hcount, Access.alone_done]
  | ok p =>
    obtain ⟨v, s'⟩ := p
    rw [Access.alone_increment_ok hcount] at h
    cases h

/-! ### Whole histories -/

/-- **The store is a map whose entries vanish at their deadlines.** Purges are not seen in its
answers, and each of them takes away exactly the entries that have vanished. -/
theorem refines_shelf {moves : List (Instant × Move)} (hmoves : Chronological moves) :
    ∃ answers s m, ({} : Store).play moves = (answers, s) ∧
      Shelf.empty.play (queriesOf moves) = (answers, m) ∧
      (∀ others, Chronological others → queriesOf others = queriesOf moves →
        (({} : Store).play others).1 = answers) ∧
      (∀ now, (∀ p ∈ moves, p.1 ≤ now) → ∀ key, s.live? now key = m.left now key) ∧
      (∀ now key e, ((Query.increment key).ask.alone now s).1 = .value (.counted (.error e)) →
        ((Query.increment key).ask.alone now s).2 = s) ∧
      ∀ now,
        (∀ key, (s.purge now).find? key = (s.find? key).filter fun e => e.deadline.all (now < ·)) ∧
        s.size - (s.purge now).size = {key | ∃ e, s.find? key = some e ∧
          ∃ t ∈ e.deadline, t ≤ now}.ncard := by
  obtain ⟨hanswers, hend⟩ := Mirrors.empty.play hmoves fun _ _ => Nat.zero_le _
  have hnodup : (({} : Store).play moves).2.keys.Nodup :=
    nodup_keys_play (s := {}) List.nodup_nil moves
  refine ⟨(({} : Store).play moves).1, (({} : Store).play moves).2,
    (Shelf.empty.play (queriesOf moves)).2, rfl, Prod.ext hanswers.symm rfl,
    fun others hothers hqueries => ?_, fun now hnow => ?_, fun now key e =>
      alone_increment_of_error, fun now => ⟨fun key => ?_, size_sub_size_purge hnodup now⟩⟩
  · rw [(Mirrors.empty.play hothers fun _ _ => Nat.zero_le _).1, hqueries, hanswers]
  · exact (hend now (Nat.zero_le _) hnow).live?_eq now (Nat.le_refl _)
  · rw [find?_purge hnodup, live?]
    simp only [Entry.live_eq]

/-- A counter with a deadline that is read and counted on both sides of it, with purges between. -/
def revival : List (Instant × Move) :=
  [(0, .query (.set ⟨"k"⟩ (Octets.ofText "9") (some (Span.ofNanos 5)))),
    (4, .query (.increment ⟨"k"⟩)), (4, .purge), (5, .query (.get ⟨"k"⟩)),
    (5, .query (.increment ⟨"k"⟩)), (5, .purge), (10, .query (.get ⟨"k"⟩))]

theorem revival_answers :
    Chronological revival ∧
    (({} : Store).play revival).1 =
      [.value (.stored (.ok ())), .value (.counted (.ok 10)), .value (.value (.ok none)),
        .value (.counted (.ok 1)),
        .value (.value (.ok (some (Octets.ofText "1"))))] := by
  have hmoves : Chronological revival := by decide
  obtain ⟨answers, s, m, hstore, hshelf, -⟩ := refines_shelf hmoves
  refine ⟨hmoves, ?_⟩
  have hanswers : (({} : Store).play revival).1 = (Shelf.empty.play (queriesOf revival)).1 := by
    rw [hstore, hshelf]
  rw [hanswers]
  decide +kernel

end Store

end FragmentRelay
