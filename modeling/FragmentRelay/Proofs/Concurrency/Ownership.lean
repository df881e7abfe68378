import FragmentRelay.Proofs.Concurrency.Announcement
import FragmentRelay.Proofs.Concurrency.Counting

/-!
# Ownership: every index that is delivered is counted by some delivery

Deliveries of one operation race, several of them for one index. The one that moves the marker of
the index from zero to one owns the index: it is about to count, and it will. A later one that finds
the counter leaves the index to the owner, and one that finds no counter counts as well and owns the
index too. So as soon as a marker stands raised its index has an owner, and once all deliveries have
returned the owner has counted. Nothing is lost, although some indices may be counted more than
once.

The store refuses an increment only at the highest number, and markers and the counter count
deliveries, so this takes more deliveries than there are positive numbers in a counter.

* `Owned`, `Claimed`: the owner of an index, and the invariant.
* `Claimed.moved`: every step preserves the invariant, unless the store refuses an increment.
* `Shared.run`: what holds after every schedule, and that each ingestion returns.
* `every_index_counted`: what the counter stands for once all deliveries have returned.
-/

namespace FragmentRelay

theorem countP_lt_length {α : Type} {l : List α} {q : α → Bool} {n : Nat} {a : α}
    (h : l[n]? = some a) (hq : q a = false) : l.countP q < l.length := by
  refine Nat.lt_of_le_of_ne List.countP_le_length fun heq => ?_
  have hall := List.countP_eq_length.1 heq a (List.mem_of_getElem? h)
  rw [hq] at hall
  cases hall

namespace Ingestor

/-! ### Owners -/

/-- The ingestion has counted its fragment or is about to. -/
def Point.owning : Point → Bool
  | .count => true
  | p => p.counted

/-- Some ingestion of an index has counted it or is about to. -/
def Owned (fs : List Fragment) (ps : List Point) (x : UInt32) : Prop :=
  ∃ (n : Nat) (f : Fragment) (p : Point), fs[n]? = some f ∧ ps[n]? = some p ∧
    f.index = x ∧ p.owning = true

/-- What the store knows of the markers while ingestions stand at some points, none of which has
failed. -/
structure Claimed (k : Keyspace) (i : Identity) (fs : List Fragment) (ps : List Point)
    (s : Store) : Prop where
  sound : ∀ p ∈ ps, p.failed = false
  holds : ∀ f ∈ fs, s.HoldsCounter (k.markerKey i f.index)
  bounded : ∀ f ∈ fs, s.countOf (k.markerKey i f.index) ≤ ps.countP Point.marked
  owned : ∀ f ∈ fs, 0 < s.countOf (k.markerKey i f.index) → Owned fs ps f.index
  raised : ∀ (n : Nat) f p, fs[n]? = some f → ps[n]? = some p → p.marked = true →
    0 < s.countOf (k.markerKey i f.index)

/-- The store has refused an increment, as there are more ingestions than it can count. -/
structure Refused (fs : List Fragment) (ps : List Point) : Prop where
  many : Counter.highest < fs.length
  failed : ∃ p ∈ ps, p.failed = true

variable {g : Ingestor} {i : Identity} {fs : List Fragment} {ps : List Point} {s s' : Store}
  {n : Nat} {f : Fragment} {p p' : Point} {now : Instant}

theorem Owned.set {x : UInt32} (h : Owned fs ps x) (hp : ps[n]? = some p)
    (hkeep : p.owning = true → p'.owning = true) : Owned fs (ps.set n p') x := by
  obtain ⟨m, e, q, he, hq, hx, howns⟩ := h
  by_cases hmn : m = n
  · subst hmn
    rw [hp] at hq
    cases hq
    exact ⟨m, e, p', he, List.getElem?_set_self (List.getElem?_eq_some_iff.1 hp).1, hx, hkeep howns⟩
  · exact ⟨m, e, q, he, by rw [List.getElem?_set_ne (Ne.symm hmn), hq], hx, howns⟩

namespace Claimed

theorem start (k : Keyspace) (i : Identity) (fs : List Fragment) :
    Claimed k i fs (List.replicate fs.length .record) {} where
  sound p hp := by
    rw [List.eq_of_mem_replicate hp]
    rfl
  holds f hf := .inl rfl
  bounded f hf := by
    rw [Store.countOf_of_find?_none (Store.find?_empty _)]
    exact Int.natCast_nonneg _
  owned f hf hpos := by
    rw [Store.countOf_of_find?_none (Store.find?_empty _)] at hpos
    exact absurd hpos (lt_irrefl 0)
  raised n f p hf hp hm := by
    rw [List.eq_of_mem_replicate (List.mem_of_getElem? hp)] at hm
    cases hm

theorem sound_set (h : Claimed g.keys i fs ps s) (hp : p'.failed = false) :
    ∀ q ∈ ps.set n p', q.failed = false := by
  intro q hq
  rcases List.mem_or_eq_of_mem_set hq with hq | rfl
  · exact h.sound q hq
  · exact hp

theorem of_markers_eq (h : Claimed g.keys i fs ps s) (hp : ps[n]? = some p)
    (hsound : p'.failed = false) (hmarked : p'.marked = p.marked)
    (howning : p.owning = true → p'.owning = true)
    (hsame : ∀ f ∈ fs, s'.find? (g.keys.markerKey i f.index) =
      s.find? (g.keys.markerKey i f.index)) :
    Claimed g.keys i fs (ps.set n p') s' := by
  obtain ⟨hlt, hget⟩ := List.getElem?_eq_some_iff.1 hp
  have hcount : (ps.set n p').countP Point.marked = ps.countP Point.marked := by
    have hle : p.marked = true → 0 < ps.countP Point.marked := fun hm =>
      List.countP_pos_iff.2 ⟨p, List.mem_of_getElem? hp, hm⟩
    rw [List.countP_set hlt, hget, hmarked]
    split
    · rename_i hm
      have := hle hm
      omega
    · rfl
  refine ⟨h.sound_set hsound, fun e he => (h.holds e he).of_find?_eq (hsame e he), fun e he => ?_,
    fun e he hpos => ?_, fun m e q he hq hm => ?_⟩
  · rw [Store.countOf_of_find?_eq (hsame e he), hcount]
    exact h.bounded e he
  · rw [Store.countOf_of_find?_eq (hsame e he)] at hpos
    exact (h.owned e he hpos).set hp howning
  · rw [Store.countOf_of_find?_eq (hsame e (List.mem_of_getElem? he))]
    rcases cases_of_getElem?_set hq with ⟨rfl, rfl⟩ | ⟨-, hq⟩
    · exact h.raised m e p he hp (hmarked ▸ hm)
    · exact h.raised m e q he hq hm

theorem of_marked (h : Claimed g.keys i fs ps s) (hi : ∀ f ∈ fs, f.BelongsTo i)
    (hk : g.keys.Collisionless {f | f ∈ fs}) (hf : fs[n]? = some f)
    (hp : ps[n]? = some .mark) {v : Int}
    (hm : s.increment now (g.keys.markerKey i f.index) = .ok (v, s')) (hsound : p'.failed = false)
    (hmarked : p'.marked = true) (howned : Owned fs (ps.set n p') f.index) :
    Claimed g.keys i fs (ps.set n p') s' := by
  have hmem := List.mem_of_getElem? hf
  obtain ⟨hlt, hget⟩ := List.getElem?_eq_some_iff.1 hp
  have hcount : (ps.set n p').countP Point.marked = ps.countP Point.marked + 1 := by
    rw [List.countP_set hlt, hget, hmarked]
    rfl
  have hle := h.bounded f hmem
  have hlow := (h.holds f hmem).countOf_nonneg
  obtain ⟨hv, hhigh, rfl⟩ := (h.holds f hmem).of_increment hm
  -- The marker of the index has gone up by one, and the others are as they were.
  have hself : ∀ e : Fragment, e.index = f.index → (s.insert (g.keys.markerKey i f.index)
      ⟨Counter.encode v, none⟩).countOf (g.keys.markerKey i e.index) = v := by
    intro e he
    rw [he]
    exact Store.countOf_insert_self (by omega) hhigh
  have hother : ∀ e ∈ fs, e.index ≠ f.index →
      g.keys.markerKey i e.index ≠ g.keys.markerKey i f.index :=
    fun e he hne => hk.perFragment_ne he hmem (hi e he) (hi f hmem) hne (p := .ingestMarker) rfl
  refine ⟨h.sound_set hsound, fun e he => ?_, fun e he => ?_, fun e he hpos => ?_,
    fun m e q he hq hm => ?_⟩
  · by_cases hindex : e.index = f.index
    · rw [hindex]
      exact Store.holdsCounter_insert_self (by omega) hhigh
    · exact (h.holds e he).insert_of_ne (hother e he hindex)
  · rw [hcount]
    by_cases hindex : e.index = f.index
    · rw [hself e hindex]
      omega
    · rw [Store.countOf_insert_of_ne (hother e he hindex)]
      have := h.bounded e he
      omega
  · by_cases hindex : e.index = f.index
    · rw [hindex]
      exact howned
    · rw [Store.countOf_insert_of_ne (hother e he hindex)] at hpos
      exact (h.owned e he hpos).set hp fun howns => by cases howns
  · by_cases hindex : e.index = f.index
    · rw [hself e hindex]
      omega
    · rw [Store.countOf_insert_of_ne (hother e (List.mem_of_getElem? he) hindex)]
      rcases cases_of_getElem?_set hq with ⟨rfl, -⟩ | ⟨-, hq⟩
      · rw [hf] at he
        cases he
        exact absurd rfl hindex
      · exact h.raised m e q he hq hm

/-- **Every step preserves the invariant, unless the store refuses an increment.** It does so only
at the highest number, and neither a marker nor the counter has counted the ingestion that is
refused. -/
theorem moved (h : Claimed g.keys i fs ps s) (hi : ∀ f ∈ fs, f.BelongsTo i)
    (hk : g.keys.Collisionless {f | f ∈ fs}) (hlen : ps.length = fs.length) {N : Nat}
    (hcount : s.CountsTo (g.keys.countKey i) N) (hN : (N : Int) ≤ Counter.highest)
    (hroom : N < fs.length) (hf : fs[n]? = some f) (hp : ps[n]? = some p)
    (hm : Moved g i f none now s p p' s') :
    Claimed g.keys i fs (ps.set n p') s' ∨ Refused fs (ps.set n p') := by
  have hmem := List.mem_of_getElem? hf
  have hlt := (List.getElem?_eq_some_iff.1 hp).1
  have hnew : p' ∈ ps.set n p' := List.mem_of_getElem? (List.getElem?_set_self hlt)
  cases hm with
  | recorded =>
    exact .inl (h.of_markers_eq hp rfl rfl (fun howns => by cases howns) fun e he =>
      Store.find?_insert_of_ne (g.keys.persistenceKey_ne_markerKey i i f.index e.index).symm)
  | raisedFirst hm hv =>
    exact .inl
      (h.of_marked hi hk hf hp hm rfl rfl ⟨n, f, .count, hf, List.getElem?_set_self hlt, rfl, rfl⟩)
  | raisedAgain hm hv =>
    obtain ⟨hone, -, -⟩ := (h.holds f hmem).of_increment hm
    have howned := h.owned f hmem (by omega)
    exact .inl (h.of_marked hi hk hf hp hm rfl rfl (howned.set hp fun howns => by cases howns))
  | found hv =>
    exact .inl (h.of_markers_eq hp rfl rfl (fun howns => by cases howns) fun e he => rfl)
  | lost hv => exact .inl (h.of_markers_eq hp rfl rfl (fun _ => rfl) fun e he => rfl)
  | counted hc =>
    exact .inl (h.of_markers_eq hp rfl rfl (fun _ => rfl) fun e he =>
      Store.find?_of_increment hc (g.keys.countKey_ne_markerKey i i e.index).symm)
  | uncounted hrefused =>
    rcases hrefused with hfault | hrefused
    · cases hfault
    · have htop := (hcount.holdsCounter hN).of_increment_error hrefused
      rw [hcount.countOf_eq hN] at htop
      exact .inr ⟨by omega, _, hnew, rfl⟩
  | unmarked hrefused =>
    rcases hrefused with hfault | hrefused
    · cases hfault
    · have htop := (h.holds f hmem).of_increment_error hrefused
      have hle := h.bounded f hmem
      have hless := countP_lt_length (q := Point.marked) hp rfl
      exact .inr ⟨by omega, _, hnew, rfl⟩
  | released e =>
    have hsound := h.sound _ (List.mem_of_getElem? hp)
    cases hsound
  | stranded e hfault => cases hfault
  | unrecorded hfault => cases hfault
  | unseen hfault => cases hfault

end Claimed

theorem Moved.failed {fault : Option StoreError} (hm : Moved g i f fault now s p p' s')
    (hp : p.failed = true) : p'.failed = true := by
  cases hm with
  | released | stranded => rfl
  | recorded | raisedFirst | raisedAgain | found | lost | counted | uncounted | unrecorded |
    unmarked | unseen => cases hp

theorem Refused.moved {fault : Option StoreError} (h : Refused fs ps) (hp : ps[n]? = some p)
    (hm : Moved g i f fault now s p p' s') : Refused fs (ps.set n p') := by
  refine ⟨h.many, ?_⟩
  obtain ⟨q, hq, hfailed⟩ := h.failed
  obtain ⟨m, hqm⟩ := List.mem_iff_getElem?.1 hq
  by_cases hmn : m = n
  · subst hmn
    rw [hp] at hqm
    cases hqm
    exact ⟨p', List.mem_of_getElem? (List.getElem?_set_self (List.getElem?_eq_some_iff.1 hp).1),
      hm.failed hfailed⟩
  · exact ⟨q, List.mem_of_getElem? (by rw [List.getElem?_set_ne (Ne.symm hmn), hqm]), hfailed⟩

/-! ### Ingestions that race -/

/-- Every ingestion stands at a point. -/
structure Standing (g : Ingestor) (i : Identity) (fs : List Fragment) (ps : List Point)
    (c : Concurrent (Except IngestError Ingested)) : Prop where
  points_length : ps.length = fs.length
  calls_length : c.calls.length = fs.length
  calls_eq : ∀ (n : Nat) f p, fs[n]? = some f → ps[n]? = some p → c.calls[n]? = some (p.rest g i f)

namespace Standing

variable {c : Concurrent (Except IngestError Ingested)}

theorem exists_point (h : Standing g i fs ps c) {a : Access (Except IngestError Ingested)}
    (hn : c.calls[n]? = some a) : ∃ f p, fs[n]? = some f ∧ ps[n]? = some p ∧ a = p.rest g i f := by
  have hlt : n < fs.length := h.calls_length ▸ (List.getElem?_eq_some_iff.1 hn).1
  obtain ⟨f, hf⟩ : ∃ f, fs[n]? = some f := ⟨_, List.getElem?_eq_getElem hlt⟩
  obtain ⟨p, hp⟩ : ∃ p, ps[n]? = some p := ⟨_, List.getElem?_eq_getElem (h.points_length ▸ hlt)⟩
  have heq := h.calls_eq n f p hf hp
  rw [hn] at heq
  exact ⟨_, _, hf, hp, Option.some.inj heq⟩

theorem set (h : Standing g i fs ps c) (hf : fs[n]? = some f) (s : Store) :
    Standing g i fs (ps.set n p') { calls := c.calls.set n (p'.rest g i f), store := s } where
  points_length := by rw [List.length_set, h.points_length]
  calls_length := by simp [h.calls_length]
  calls_eq m e q he hq := by
    rcases cases_of_getElem?_set hq with ⟨rfl, rfl⟩ | ⟨hmn, hq⟩
    · rw [hf] at he
      cases he
      exact List.getElem?_set_self (h.calls_length ▸ (List.getElem?_eq_some_iff.1 hf).1)
    · exact (List.getElem?_set_ne (Ne.symm hmn)).trans (h.calls_eq m e q he hq)

end Standing

/-- Where the ingestions stand, what they have announced, and what the store knows of the
markers. -/
structure Shared (g : Ingestor) (i : Identity) (fs : List Fragment) (ps : List Point)
    (c : Concurrent (Except IngestError Ingested)) : Prop where
  standing : Standing g i fs ps c
  tallying : Tallying (g.keys.countKey i) fs c
  markers : Claimed g.keys i fs ps c.store ∨ Refused fs ps

section Turns

variable {c : Concurrent (Except IngestError Ingested)} (hgen : ∀ f ∈ fs, f.Genuine)
  (hi : ∀ f ∈ fs, f.BelongsTo i) (hk : g.keys.Collisionless {f | f ∈ fs}) (httl : g.ttl = none)
  (hdedupe : g.dedupe = true)
include hgen hi hk httl hdedupe

/-- **Every turn in which no request fails preserves the invariant.** The ingestion whose turn it
was has a request less to make then, if it had any left. -/
theorem Shared.step (h : Shared g i fs ps c) (now : Instant) (n : Nat) :
    ∃ ps', Shared g i fs ps' (c.step now n) ∧ ∀ (m : Nat) p p', ps[m]? = some p →
      ps'[m]? = some p' →
        p'.left ≤ p.left - if n = m then 1 else 0 := by
  rw [Concurrent.step_eq_take]
  have htally := h.tallying.take { now, call := n }
  rcases c.take_cases { now, call := n } with ⟨hsame, hidle⟩ | ⟨a, a', s', hn, ha, hmove⟩
  · rw [hsame]
    refine ⟨ps, h, fun m p p' hp hp' => ?_⟩
    rw [hp] at hp'
    cases hp'
    split
    · -- The store takes every request, so there was none.
      rename_i hnm
      subst hnm
      obtain ⟨f, hf⟩ : ∃ f, fs[n]? = some f := ⟨_, List.getElem?_eq_getElem
        (h.standing.points_length ▸ (List.getElem?_eq_some_iff.1 hp).1)⟩
      have hmem := List.mem_of_getElem? hf
      have hnone := hidle _ (h.standing.calls_eq n f p hf hp)
      cases hr : (p.rest g i f).request? with
      | none =>
        obtain ⟨r, rfl⟩ := exists_ended (hgen f hmem) (hi f hmem) httl hdedupe hr
        exact Nat.zero_le _
      | some r =>
        exact absurd hnone (step_rest_ne_none (hgen f hmem) (hi f hmem) httl hdedupe hr now c.store)
    · exact le_rfl
  · obtain ⟨f, p, hf, hp, rfl⟩ := h.standing.exists_point hn
    have hmem := List.mem_of_getElem? hf
    obtain ⟨p', rfl, hm⟩ := exists_moved (hgen f hmem) (hi f hmem) httl hdedupe ha
    rw [hmove] at htally ⊢
    refine ⟨ps.set n p', ⟨h.standing.set hf s', htally, ?_⟩, fun m q q' hq hq' => ?_⟩
    · rcases h.markers with hclaimed | hrefused
      · -- The ingestion that moves has not counted, so the counter has not counted all of them.
        have hnot : (p.rest g i f).counted = false := by
          obtain ⟨e, -, hannounces | ⟨v, hv, -⟩⟩ := h.tallying.going n _ hn
          · exact hannounces.not_counted
          · rw [hv] at ha
            cases ha
        have hroom := countP_lt_length hn hnot
        rw [h.standing.calls_length] at hroom
        exact hclaimed.moved hi hk h.standing.points_length h.tallying.total
          h.tallying.reachable hroom hf hp hm
      · exact .inr (hrefused.moved hp hm)
    · rcases cases_of_getElem?_set hq' with ⟨rfl, rfl⟩ | ⟨hmn, hq'⟩
      · rw [hp] at hq
        cases hq
        have hless := hm.left_lt
        rw [if_pos rfl]
        omega
      · rw [hq] at hq'
        cases hq'
        rw [if_neg (Ne.symm hmn)]
        exact le_rfl

/-- **Every schedule preserves the invariant, and each turn of an ingestion takes one of its
requests.** -/
theorem Shared.run (h : Shared g i fs ps c) (schedule : List (Instant × Nat)) :
    ∃ ps', Shared g i fs ps' (c.run schedule) ∧ ∀ (m : Nat) p p', ps[m]? = some p →
      ps'[m]? = some p' →
        p'.left ≤ p.left - schedule.countP fun turn => turn.2 == m := by
  induction schedule generalizing c ps with
  | nil =>
    refine ⟨ps, h, fun m p p' hp hp' => ?_⟩
    rw [hp] at hp'
    cases hp'
    exact le_rfl
  | cons turn rest ih =>
    obtain ⟨ps₁, h₁, hleft₁⟩ := h.step hgen hi hk httl hdedupe turn.1 turn.2
    obtain ⟨ps₂, h₂, hleft₂⟩ := ih h₁
    refine ⟨ps₂, h₂, fun m p p' hp hp' => ?_⟩
    have hlt : m < ps₁.length := by
      rw [h₁.standing.points_length, ← h.standing.points_length]
      exact (List.getElem?_eq_some_iff.1 hp).1
    obtain ⟨q, hq⟩ : ∃ q, ps₁[m]? = some q := ⟨_, List.getElem?_eq_getElem hlt⟩
    have hfirst := hleft₁ m p q hp hq
    have hrest := hleft₂ m q p' hq hp'
    rw [List.countP_cons]
    by_cases hturn : turn.2 = m
    · simp only [hturn, beq_self_eq_true, if_true] at hfirst ⊢
      omega
    · have hne : (turn.2 == m) = false := beq_eq_false_iff_ne.2 hturn
      simp only [hturn, hne, if_false, Bool.false_eq_true] at hfirst ⊢
      omega

end Turns

end Ingestor

theorem shared_deliveries {k : Keyspace} {i : Identity} {fs : List Fragment}
    (hi : ∀ f ∈ fs, f.BelongsTo i) :
    Ingestor.Shared { keys := k } i fs (List.replicate fs.length .record) (deliveries k fs) := by
  refine ⟨⟨List.length_replicate, List.length_map _, fun n f p hf hp => ?_⟩, ?_,
    .inl (.start k i fs)⟩
  · rw [List.eq_of_mem_replicate (List.mem_of_getElem? hp), deliveries, List.getElem?_map, hf]
    rfl
  · refine .start fun n a ha => ?_
    rw [List.getElem?_map, Option.map_eq_some_iff] at ha
    obtain ⟨f, hf, rfl⟩ := ha
    exact ⟨f, hf, Ingestor.ingest_announces _ (hi f (List.mem_of_getElem? hf))⟩

/-! ### Once all deliveries have returned -/

namespace Ingestor

variable {g : Ingestor} {i : Identity} {fs : List Fragment} {ps : List Point} {n : Nat}
  {f : Fragment} {p : Point} {c : Concurrent (Except IngestError Ingested)}

theorem eq_ended_of_done (hf : f.Genuine) (hi : f.BelongsTo i) (httl : g.ttl = none)
    (hdedupe : g.dedupe = true) {r : Except IngestError Ingested} (h : p.rest g i f = .done r) :
    ∃ a, p = .ended a ∧ r = answer f a := by
  obtain ⟨a, rfl⟩ := exists_ended (g := g) (p := p) hf hi httl hdedupe (by rw [h]; rfl)
  exact ⟨a, rfl, (Access.done.inj h).symm⟩

section Returned

variable (h : Shared g i fs ps c) (hgen : ∀ f ∈ fs, f.Genuine) (hi : ∀ f ∈ fs, f.BelongsTo i)
  (httl : g.ttl = none) (hdedupe : g.dedupe = true)
include h hgen hi httl hdedupe

theorem Shared.highest_lt_of_error {e : StoreError} (hmem : .done (.error (.store e)) ∈ c.calls) :
    Counter.highest < fs.length := by
  rcases h.markers with hclaimed | hrefused
  · obtain ⟨n, hn⟩ := List.mem_iff_getElem?.1 hmem
    obtain ⟨f, p, hf, hp, hrest⟩ := h.standing.exists_point hn
    have hfs := List.mem_of_getElem? hf
    obtain ⟨a, rfl, ha⟩ := eq_ended_of_done (hgen f hfs) (hi f hfs) httl hdedupe hrest.symm
    have hsound := hclaimed.sound _ (List.mem_of_getElem? hp)
    rcases a with e' | ⟨v, d⟩
    · cases hsound
    · cases ha
  · exact hrefused.many

/-- **Every index that was delivered has been counted by its owner.** -/
theorem Shared.exists_counted (hdone : ∀ a ∈ c.calls, ∃ r, a = .done r)
    (hok : ∀ e, .done (.error (.store e)) ∉ c.calls) (hf : f ∈ fs) :
    ∃ r, .done (.ok r) ∈ c.calls ∧ r.index = f.index ∧ r.duplicate = false := by
  -- All have returned, so each stands at an end, and none has failed.
  have hends : ∀ (n : Nat) e p, fs[n]? = some e → ps[n]? = some p →
      ∃ v d, p = .ended (.ok (v, d)) ∧ .done (answer e (.ok (v, d))) ∈ c.calls := by
    intro n e p he hp
    have hcall := List.mem_of_getElem? (h.standing.calls_eq n e p he hp)
    have hfs := List.mem_of_getElem? he
    obtain ⟨r, hr⟩ := hdone _ hcall
    obtain ⟨a, rfl, rfl⟩ := eq_ended_of_done (hgen e hfs) (hi e hfs) httl hdedupe hr
    rcases a with error | ⟨v, d⟩
    · exact absurd hcall (hok error)
    · exact ⟨v, d, rfl, hcall⟩
  obtain ⟨n, hn⟩ := List.mem_iff_getElem?.1 hf
  obtain ⟨p, hp⟩ : ∃ p, ps[n]? = some p :=
    ⟨_, List.getElem?_eq_getElem (h.standing.points_length ▸ (List.getElem?_eq_some_iff.1 hn).1)⟩
  obtain ⟨v, d, rfl, -⟩ := hends n f p hn hp
  rcases h.markers with hclaimed | hrefused
  · have hraised := hclaimed.raised n f _ hn hp rfl
    obtain ⟨m, e, q, he, hq, hindex, howns⟩ := hclaimed.owned f hf hraised
    obtain ⟨v', d', rfl, hcall⟩ := hends m e q he hq
    cases d' with
    | true => cases howns
    | false => exact ⟨_, hcall, hindex, rfl⟩
  · obtain ⟨q, hq, hfailed⟩ := hrefused.failed
    obtain ⟨m, hm⟩ := List.mem_iff_getElem?.1 hq
    obtain ⟨e, he⟩ : ∃ e, fs[m]? = some e :=
      ⟨_, List.getElem?_eq_getElem (h.standing.points_length ▸ (List.getElem?_eq_some_iff.1 hm).1)⟩
    obtain ⟨v', d', rfl, -⟩ := hends m e q he hm
    cases hfailed

omit httl hdedupe hgen hi in
theorem Shared.exists_done (hleft : ∀ p ∈ ps, p.left = 0) {a : Access (Except IngestError Ingested)}
    (ha : a ∈ c.calls) : ∃ r, a = .done r := by
  obtain ⟨n, hn⟩ := List.mem_iff_getElem?.1 ha
  obtain ⟨f, p, hf, hp, rfl⟩ := h.standing.exists_point hn
  have hzero := hleft p (List.mem_of_getElem? hp)
  cases p with
  | ended r => exact ⟨_, rfl⟩
  | record | mark | look | count | release => cases hzero

end Returned

end Ingestor

/-- The index that an ingestion has counted. -/
def Access.countedIndex? : Access (Except IngestError Ingested) → Option UInt32
  | done (.ok r) => if r.duplicate = true then none else some r.index
  | _ => none

theorem card_le_countP_counted {fs : List Fragment}
    {calls : List (Access (Except IngestError Ingested))}
    (h : ∀ f ∈ fs, ∃ r, .done (.ok r) ∈ calls ∧ r.index = f.index ∧ r.duplicate = false) :
    (fs.map (·.index)).toFinset.card ≤ calls.countP Access.counted := by
  have hsub : (fs.map (·.index)).toFinset ⊆ (calls.filterMap Access.countedIndex?).toFinset := by
    intro x hx
    obtain ⟨f, hf, rfl⟩ := List.mem_map.1 (List.mem_toFinset.1 hx)
    obtain ⟨r, hr, hindex, hfresh⟩ := h f hf
    exact List.mem_toFinset.2
      (List.mem_filterMap.2 ⟨_, hr, by simp [Access.countedIndex?, hfresh, hindex]⟩)
  have hlength : (calls.filterMap Access.countedIndex?).length = calls.countP Access.counted := by
    rw [List.length_filterMap_eq_countP]
    refine List.countP_congr fun a _ => ?_
    rcases a with r | text | _ | _ | _
    · rcases r with e | r
      · rfl
      · cases hfresh : r.duplicate <;> simp [Access.countedIndex?, Access.counted, hfresh]
    all_goals rfl
  calc (fs.map (·.index)).toFinset.card
      ≤ (calls.filterMap Access.countedIndex?).toFinset.card := Finset.card_le_card hsub
    _ ≤ (calls.filterMap Access.countedIndex?).length := List.toFinset_card_le _
    _ = calls.countP Access.counted := hlength

/-- **Every index that is delivered is counted.** Each ingestion returns after five turns at the
latest; once all have returned and none was refused, the counter is the number of those that were
no duplicates, and there is one of these for every index. -/
theorem every_index_counted {k : Keyspace} {i : Identity} {fs : List Fragment}
    (hgen : ∀ f ∈ fs, f.Genuine) (hi : ∀ f ∈ fs, f.BelongsTo i) (hk : k.Collisionless {f | f ∈ fs})
    (schedule : List (Instant × Nat)) :
    let c := (deliveries k fs).run schedule
    ((∀ n < fs.length, 5 ≤ schedule.countP fun turn => turn.2 == n) →
      ∀ a ∈ c.calls, ∃ r, a = .done r) ∧
      ((fs.length : Int) ≤ Counter.highest → ∀ e, .done (.error (.store e)) ∉ c.calls) ∧
      ((∀ a ∈ c.calls, ∃ r, a = .done r) → (∀ e, .done (.error (.store e)) ∉ c.calls) →
        c.store.CountsTo (k.countKey i) (c.calls.countP Access.counted) ∧
          (∀ f ∈ fs, ∃ r, .done (.ok r) ∈ c.calls ∧ r.index = f.index ∧ r.duplicate = false) ∧
          (fs.map (·.index)).toFinset.card ≤ c.calls.countP Access.counted) := by
  intro c
  obtain ⟨ps, h, hleft⟩ :=
    Ingestor.Shared.run (g := { keys := k }) hgen hi hk rfl rfl (shared_deliveries hi) schedule
  refine ⟨fun hturns a ha => h.exists_done (fun p hp => ?_) ha, fun hfew e hmem => ?_,
    fun hdone hok => ?_⟩
  · obtain ⟨n, hn⟩ := List.mem_iff_getElem?.1 hp
    have hlt : n < fs.length := h.standing.points_length ▸ (List.getElem?_eq_some_iff.1 hn).1
    have hle := hleft n .record p (by rw [List.getElem?_replicate, if_pos hlt]) hn
    have hfive := hturns n hlt
    have hrecord : Ingestor.Point.left .record = 5 := rfl
    omega
  · have hmany := h.highest_lt_of_error hgen hi rfl rfl hmem
    omega
  · have hall : ∀ f ∈ fs, ∃ r, .done (.ok r) ∈ c.calls ∧ r.index = f.index ∧ r.duplicate = false :=
      fun f hf => h.exists_counted hgen hi rfl rfl hdone hok hf
    exact ⟨h.tallying.total, hall, card_le_countP_counted hall⟩

/-- The first of two fragments twice, and then the second one. -/
def racingFragments : List Fragment := [Batch.smallFirst, Batch.smallFirst, Batch.smallSecond]

theorem mem_of_racing {f : Fragment} (hf : f ∈ racingFragments) :
    f ∈ Batch.smallBatch.fragments := by
  simp only [racingFragments, List.mem_cons, List.not_mem_nil, or_false] at hf
  rcases hf with rfl | rfl | rfl
  · exact Batch.smallFirst_mem
  · exact Batch.smallFirst_mem
  · exact Batch.smallSecond_mem

theorem racingFragments_counted :
    let c := (deliveries ⟨"relay"⟩ racingFragments).run (overtaking 0 1 ++ [(1, 2), (1, 2), (1, 2)])
    (∀ f ∈ racingFragments, ∃ r, .done (.ok r) ∈ c.calls ∧ r.index = f.index ∧
      r.duplicate = false) ∧
      2 ≤ c.calls.countP Access.counted := by
  intro c
  have hanswers : c.calls.map Access.result? =
      [some (.ok ⟨0, 2, 2, false⟩), some (.ok ⟨0, 1, 2, false⟩), some (.ok ⟨1, 3, 2, false⟩)] := by
    decide +kernel
  have hreturned : ∀ a ∈ c.calls, ∃ r, a = .done (.ok r) := by
    intro a ha
    have hin : a.result? ∈ c.calls.map Access.result? := List.mem_map_of_mem ha
    rw [hanswers] at hin
    simp only [List.mem_cons, List.not_mem_nil, or_false, Access.result?_eq_some] at hin
    rcases hin with rfl | rfl | rfl
    · exact ⟨_, rfl⟩
    · exact ⟨_, rfl⟩
    · exact ⟨_, rfl⟩
  have hdone : ∀ a ∈ c.calls, ∃ r, a = .done r := by
    intro a ha
    obtain ⟨r, hr⟩ := hreturned a ha
    exact ⟨_, hr⟩
  have hok : ∀ e, .done (.error (.store e)) ∉ c.calls := by
    intro e he
    obtain ⟨r, hr⟩ := hreturned _ he
    cases hr
  have hcut := Batch.smallBatch_cut
  obtain ⟨-, hall, hcard⟩ := (every_index_counted (fun f hf => hcut.genuine (mem_of_racing hf))
    (fun f hf => hcut.belongsTo (mem_of_racing hf))
    (Batch.collisionless_of_small fun f hf => mem_of_racing hf)
    (overtaking 0 1 ++ [(1, 2), (1, 2), (1, 2)])).2.2 hdone hok
  exact ⟨hall, hcard⟩

end FragmentRelay
