import FragmentRelay.Proofs.Ingest.Effect
import FragmentRelay.Proofs.Store.Attempts

/-!
# Points: how far an ingestion has come

The ingestion of a genuine fragment writes its record, moves its marker, looks at the counter if the
marker had been moved before, counts, and releases the marker again if counting failed. Between two
of these requests it stands at a point, and what it still has to do depends on nothing but the
point. `Moved` lists everything that one attempt can do at a point; later proofs about ingestions go
through its cases and never through the requests themselves.

* `Point.rest`: what an ingestion at a point still has to do.
* `Moved`: from one point to the next, with the change of the store and the reason of a failure.
* `exists_moved`: every attempt moves an ingestion in one of these ways.
-/

namespace FragmentRelay

namespace Ingestor

variable {g : Ingestor} {i : Identity} {f : Fragment}

/-! ### What is left of an ingestion -/

/-- What is left of a delivery once its record is written. -/
def toMark (g : Ingestor) (i : Identity) (f : Fragment) : Access (Except IngestError Ingested) :=
  (countOnce (g.keys.markerKey i f.index) (g.keys.countKey i)).bind fun r => .done (answer f r)

/-- What is left of a delivery that is going to count. -/
def toCount (g : Ingestor) (i : Identity) (f : Fragment) : Access (Except IngestError Ingested) :=
  (countFirst (g.keys.markerKey i f.index) (g.keys.countKey i)).bind fun r => .done (answer f r)

/-- What is left of a delivery that has found its marker raised. -/
def toLook (g : Ingestor) (i : Identity) (f : Fragment) : Access (Except IngestError Ingested) :=
  .get (g.keys.countKey i) fun
    | .error e => .done (answer f (.error e))
    | .ok raw =>
      match raw.bind Counter.decode with
      | some v => .done (answer f (.ok (v, true)))
      | none => g.toCount i f

/-- What is left of a delivery that could not count. -/
def toRelease (g : Ingestor) (i : Identity) (f : Fragment) (e : StoreError) :
    Access (Except IngestError Ingested) :=
  .set (g.keys.markerKey i f.index) (Counter.encode 0) none fun _ => .done (answer f (.error e))

/-- What is left of a delivery that is counted whether its fragment was counted before or not. -/
def toTally (g : Ingestor) (i : Identity) (f : Fragment) : Access (Except IngestError Ingested) :=
  .increment (g.keys.countKey i) fun
    | .error e => .done (answer f (.error e))
    | .ok v => .done (answer f (.ok (v, false)))

theorem ingest_eq_write (hf : f.Genuine) (hi : f.BelongsTo i) :
    g.ingest f = .set (g.keys.persistenceKey i f.index) (Wire.encode f) g.ttl fun
      | .error e => .done (answer f (.error e))
      | .ok () => if g.dedupe then g.toMark i f else g.toTally i f := by
  rw [ingest_of_genuine g hf hi]
  simp only [persist, Access.bind_eq, Access.write_bind, Keyspace.persistenceKey_withIndex,
    Keyspace.markerKey_withIndex, Keyspace.countKey_withIndex, Access.set.injEq, true_and]
  funext r
  rcases r with e | u
  · rfl
  · by_cases hdedupe : g.dedupe
    · simp only [hdedupe, if_true, toMark]
      congr 1
      funext r
      rcases r with e | ⟨v, d⟩ <;> rfl
    · simp only [hdedupe, if_false, Bool.false_eq_true, countAlways, Access.bind_eq,
        Access.count_bind, Access.bind, toTally, Access.increment.injEq, true_and]
      funext r
      rcases r with e | v <;> rfl

theorem ingest_eq_set (hf : f.Genuine) (hi : f.BelongsTo i) (httl : g.ttl = none)
    (hdedupe : g.dedupe = true) :
    g.ingest f = .set (g.keys.persistenceKey i f.index) (Wire.encode f) none fun
      | .error e => .done (answer f (.error e))
      | .ok () => g.toMark i f := by
  rw [ingest_eq_write hf hi, httl]
  simp only [hdedupe, if_true]

theorem toMark_eq_increment (g : Ingestor) (i : Identity) (f : Fragment) :
    g.toMark i f = .increment (g.keys.markerKey i f.index) fun
      | .error e => .done (answer f (.error e))
      | .ok deliveries => if 1 < deliveries then g.toLook i f else g.toCount i f := by
  simp only [toMark, countOnce, Access.bind_eq, Access.count_bind, Access.bind,
    Access.increment.injEq, true_and]
  funext r
  rcases r with e | deliveries
  · rfl
  · by_cases hlate : 1 < deliveries
    · simp only [hlate, if_true, toLook, Access.read_bind, Access.bind, Access.get.injEq, true_and]
      funext r
      rcases r with e | raw
      · rfl
      · cases hv : raw.bind Counter.decode <;> simp [hv, toCount]
    · simp [hlate, toCount]

theorem toCount_eq_increment (g : Ingestor) (i : Identity) (f : Fragment) :
    g.toCount i f = .increment (g.keys.countKey i) fun
      | .error e => g.toRelease i f e
      | .ok v => .done (answer f (.ok (v, false))) := by
  simp only [toCount, countFirst, Access.bind_eq, Access.count_bind, Access.bind,
    Access.increment.injEq, true_and]
  funext r
  rcases r with e | v <;> rfl

/-! ### Points -/

/-- A point between two requests of an ingestion. -/
inductive Point where
  | record
  | mark
  | look
  | count
  | release (e : StoreError)
  | ended (r : Except StoreError (Int × Bool))
deriving DecidableEq

namespace Point

/-- What an ingestion at a point still has to do. -/
def rest (g : Ingestor) (i : Identity) (f : Fragment) : Point → Access (Except IngestError Ingested)
  | record => g.ingest f
  | mark => g.toMark i f
  | look => g.toLook i f
  | count => g.toCount i f
  | release e => g.toRelease i f e
  | ended r => .done (answer f r)

/-- The ingestion has added its fragment to the counter. -/
def counted : Point → Bool
  | ended (.ok (_, duplicate)) => !duplicate
  | _ => false

/-- The ingestion has moved its marker, and has neither counted its fragment nor put the marker
back. -/
def pending : Point → Bool
  | count => true
  | release _ => true
  | _ => false

/-- The ingestion has moved its marker. -/
def marked : Point → Bool
  | record => false
  | mark => false
  | _ => true

/-- The most requests that the ingestion still makes. -/
def left : Point → Nat
  | record => 5
  | mark => 4
  | look => 3
  | count => 2
  | release _ => 1
  | ended _ => 0

/-- The ingestion has failed or is about to. -/
def failed : Point → Bool
  | release _ => true
  | ended (.error _) => true
  | _ => false

end Point

/-- **Everything that one attempt can do to an ingestion at a point.** A request fails if the
attempt says so, and an increment does as well if the store refuses it. -/
inductive Moved (g : Ingestor) (i : Identity) (f : Fragment) (fault : Option StoreError)
    (now : Instant) (s : Store) :
    Point → Point → Store → Prop
  | recorded :
      Moved g i f fault now s .record .mark
        (s.insert (g.keys.persistenceKey i f.index) ⟨Wire.encode f, none⟩)
  | raisedFirst {v : Int} {s' : Store}
      (hm : s.increment now (g.keys.markerKey i f.index) = .ok (v, s')) (hv : v ≤ 1) :
    Moved g i f fault now s .mark .count s'
  | raisedAgain {v : Int} {s' : Store}
      (hm : s.increment now (g.keys.markerKey i f.index) = .ok (v, s')) (hv : 1 < v) :
    Moved g i f fault now s .mark .look s'
  | found {v : Int} (hv : (s.get now (g.keys.countKey i)).bind Counter.decode = some v) :
    Moved g i f fault now s .look (.ended (.ok (v, true))) s
  | lost (hv : (s.get now (g.keys.countKey i)).bind Counter.decode = none) :
      Moved g i f fault now s .look .count s
  | counted {v : Int} {s' : Store} (hc : s.increment now (g.keys.countKey i) = .ok (v, s')) :
    Moved g i f fault now s .count (.ended (.ok (v, false))) s'
  | uncounted {e : StoreError}
      (he : fault = some e ∨ s.increment now (g.keys.countKey i) = .error e) :
    Moved g i f fault now s .count (.release e) s
  | released (e : StoreError) : Moved g i f fault now s (.release e) (.ended (.error e))
      (s.insert (g.keys.markerKey i f.index) ⟨Counter.encode 0, none⟩)
  | stranded (e : StoreError) {e' : StoreError} (he : fault = some e') :
    Moved g i f fault now s (.release e) (.ended (.error e)) s
  | unrecorded {e : StoreError} (he : fault = some e) :
      Moved g i f fault now s .record (.ended (.error e)) s
  | unmarked {e : StoreError}
      (he : fault = some e ∨ s.increment now (g.keys.markerKey i f.index) = .error e) :
    Moved g i f fault now s .mark (.ended (.error e)) s
  | unseen {e : StoreError} (he : fault = some e) :
      Moved g i f fault now s .look (.ended (.error e)) s

/-- **Every attempt moves an ingestion from one point to the next.** -/
theorem exists_moved (hf : f.Genuine) (hi : f.BelongsTo i) (httl : g.ttl = none)
    (hdedupe : g.dedupe = true) {fault : Option StoreError} {now : Instant} {s s' : Store}
    {p : Point} {a : Access (Except IngestError Ingested)}
    (h : (p.rest g i f).attempt fault now s = some (a, s')) :
    ∃ p' : Point, a = p'.rest g i f ∧ Moved g i f fault now s p p' s' := by
  cases p with
  | record =>
    rw [Point.rest, ingest_eq_set hf hi httl hdedupe] at h
    cases fault with
    | none =>
      cases h
      exact ⟨.mark, rfl, .recorded⟩
    | some e =>
      cases h
      exact ⟨.ended (.error e), rfl, .unrecorded rfl⟩
  | mark =>
    rw [Point.rest, toMark_eq_increment] at h
    cases fault with
    | none =>
      simp only [Access.attempt_none, Access.step] at h
      cases hm : s.increment now (g.keys.markerKey i f.index) with
      | error e =>
        rw [hm] at h
        cases h
        exact ⟨.ended (.error e), rfl, .unmarked (.inr hm)⟩
      | ok r =>
        rw [hm] at h
        cases h
        by_cases hv : 1 < r.1
        · exact ⟨.look, by simp [hv, Point.rest], .raisedAgain hm hv⟩
        · exact ⟨.count, by simp [hv, Point.rest], .raisedFirst hm (not_lt.1 hv)⟩
    | some e =>
      cases h
      exact ⟨.ended (.error e), rfl, .unmarked (.inl rfl)⟩
  | look =>
    cases fault with
    | none =>
      cases h
      cases hv : (s.get now (g.keys.countKey i)).bind Counter.decode with
      | none => exact ⟨.count, by simp [hv, Point.rest], .lost hv⟩
      | some v => exact ⟨.ended (.ok (v, true)), by simp [hv, Point.rest], .found hv⟩
    | some e =>
      cases h
      exact ⟨.ended (.error e), rfl, .unseen rfl⟩
  | count =>
    rw [Point.rest, toCount_eq_increment] at h
    cases fault with
    | none =>
      simp only [Access.attempt_none, Access.step] at h
      cases hc : s.increment now (g.keys.countKey i) with
      | error e =>
        rw [hc] at h
        cases h
        exact ⟨.release e, rfl, .uncounted (.inr hc)⟩
      | ok r =>
        rw [hc] at h
        cases h
        exact ⟨.ended (.ok (r.1, false)), rfl, .counted hc⟩
    | some e =>
      cases h
      exact ⟨.release e, rfl, .uncounted (.inl rfl)⟩
  | release e =>
    cases fault with
    | none =>
      cases h
      exact ⟨.ended (.error e), rfl, .released e⟩
    | some e' =>
      cases h
      exact ⟨.ended (.error e), rfl, .stranded e rfl⟩
  | ended r =>
    cases fault <;> cases h

theorem Moved.find?_of_ne {fault : Option StoreError} {now : Instant} {s s' : Store} {p p' : Point}
    (h : Moved g i f fault now s p p' s') {key : Key} (hcount : key ≠ g.keys.countKey i)
    (hrecord : key ≠ g.keys.persistenceKey i f.index) (hmarker : key ≠ g.keys.markerKey i f.index) :
    s'.find? key = s.find? key := by
  cases h with
  | recorded => exact Store.find?_insert_of_ne hrecord
  | raisedFirst hm hv => exact Store.find?_of_increment hm hmarker
  | raisedAgain hm hv => exact Store.find?_of_increment hm hmarker
  | counted hc => exact Store.find?_of_increment hc hcount
  | released e => exact Store.find?_insert_of_ne hmarker
  | found | lost | uncounted | stranded | unrecorded | unmarked | unseen => rfl

theorem Moved.find?_marker_of_ne {fault : Option StoreError} {now : Instant}
    {s s' : Store} {p p' : Point} (h : Moved g i f fault now s p p' s') {x : UInt32}
    (hne : g.keys.markerKey i x ≠ g.keys.markerKey i f.index) :
    s'.find? (g.keys.markerKey i x) = s.find? (g.keys.markerKey i x) :=
  h.find?_of_ne (g.keys.countKey_ne_markerKey i i x).symm
    (g.keys.persistenceKey_ne_markerKey i i f.index x).symm hne

theorem Moved.not_counted {fault : Option StoreError} {now : Instant} {s s' : Store} {p p' : Point}
    (h : Moved g i f fault now s p p' s') : p.counted = false := by
  cases h <;> rfl

theorem Moved.left_lt {fault : Option StoreError} {now : Instant} {s s' : Store} {p p' : Point}
    (h : Moved g i f fault now s p p' s') : p'.left < p.left := by
  cases h <;> simp [Point.left]

/-! ### The request at a point -/

/-- The request that an ingestion at a point makes next. -/
def Point.request? (k : Keyspace) (i : Identity) (f : Fragment) : Point → Option Request
  | record => some (.set (k.persistenceKey i f.index))
  | mark => some (.increment (k.markerKey i f.index))
  | look => some (.get (k.countKey i))
  | count => some (.increment (k.countKey i))
  | release _ => some (.set (k.markerKey i f.index))
  | ended _ => none

section Requests

variable (hf : f.Genuine) (hi : f.BelongsTo i) (httl : g.ttl = none) (hdedupe : g.dedupe = true)
include hf hi httl hdedupe

theorem request?_rest (p : Point) : (p.rest g i f).request? = p.request? g.keys i f := by
  cases p with
  | record => rw [Point.rest, ingest_eq_set hf hi httl hdedupe]; rfl
  | mark => rw [Point.rest, toMark_eq_increment]; rfl
  | look => rfl
  | count => rw [Point.rest, toCount_eq_increment]; rfl
  | release e => rfl
  | ended r => rfl

theorem exists_ended {p : Point} (h : (p.rest g i f).request? = none) : ∃ r, p = .ended r := by
  rw [request?_rest hf hi httl hdedupe] at h
  cases p with
  | ended r => exact ⟨r, rfl⟩
  | record | mark | look | count | release => cases h

theorem step_rest_ne_none {p : Point} {r : Request} (h : (p.rest g i f).request? = some r)
    (now : Instant) (s : Store) : (p.rest g i f).step now s ≠ none := by
  have hincrement : ∀ key (next : Except StoreError Int → Access (Except IngestError Ingested)),
      (Access.increment key next).step now s ≠ none := by
    intro key next hnone
    simp only [Access.step] at hnone
    split at hnone <;> cases hnone
  cases p with
  | record =>
    rw [Point.rest, ingest_eq_set hf hi httl hdedupe]
    simp [Access.step, Store.set]
  | mark =>
    rw [Point.rest, toMark_eq_increment]
    exact hincrement _ _
  | look => simp [Point.rest, toLook, Access.step]
  | count =>
    rw [Point.rest, toCount_eq_increment]
    exact hincrement _ _
  | release e => simp [Point.rest, toRelease, Access.step, Store.set]
  | ended r => cases h

/-- **A run of an ingestion stops at its end, or before a request that crashed it.** -/
theorem ended_or_cutOff {σ : Type} {faults : Faults σ} {now : Instant}
    {o : Outcome (Except IngestError Ingested)} {p : Point} {s : Store}
    (h : Access.Stopped faults now o (p.rest g i f) s) :
    (∃ r, p = .ended r ∧ o = .value (answer f r)) ∨
      ∃ r w text, p.request? g.keys i f = some r ∧ (faults w r).1 = .crash text ∧
        o = .crashed text := by
  generalize hrest : p.rest g i f = a at h
  cases h with
  | ended x =>
    obtain ⟨r, rfl⟩ := exists_ended (g := g) hf hi httl hdedupe (p := p) (by rw [hrest]; rfl)
    cases hrest
    exact .inl ⟨r, rfl, rfl⟩
  | gaveUp text =>
    obtain ⟨r, rfl⟩ := exists_ended (g := g) hf hi httl hdedupe (p := p) (by rw [hrest]; rfl)
    cases hrest
  | cutOff hr hw =>
    rw [← hrest, request?_rest hf hi httl hdedupe] at hr
    exact .inr ⟨_, _, _, hr, hw, rfl⟩
  | overflowed hr hs =>
    rw [← hrest] at hr hs
    exact absurd hs (step_rest_ne_none hf hi httl hdedupe hr now s)

end Requests

end Ingestor

end FragmentRelay
