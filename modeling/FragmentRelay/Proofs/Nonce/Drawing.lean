import FragmentRelay.Batch
import FragmentRelay.Proofs.Concurrency.Schedule
import Mathlib.Data.List.Nodup

/-!
# Nonces: numbers that do not repeat before the ceiling

A call for a nonce reads the clock, moves the last nonce of the shared source on in one step, and
works out what it returns from the clock reading and from what it found there. Between these three
steps other calls may take theirs, and the clock may stand still or go back. The updates come in
some order, and the calls return what they would if each were made as a whole in that order
(`Traced`). In the order of the updates nonces grow, up to the ceiling.

* `NonceSource.lt_advance`, `NonceSource.clock_le_advance`: one nonce.
* `NonceSource.last_le_after`, `NonceSource.lt_last_after_concat`: the last nonce never goes back,
  and nonces grow.
* `Drawing.Traced.step`, `Drawing.Traced.run`: one turn of a call, and all turns of a schedule.
* `Batch.identity_of_ofPayload`, `Batch.identity_ne_of_ofPayload`: a batch is named by its nonce and
  the checksum of its payload.
* `Drawing.nonces_never_repeat`: all calls of any schedule.
-/

namespace FragmentRelay

/-! ### One nonce -/

namespace NonceSource

variable {clock last : UInt64} {s : NonceSource}

theorem toNat_le_ceiling (n : UInt64) : n.toNat ≤ ceiling := Nat.le_sub_one_of_lt n.toNat_lt

theorem lt_advance (h : last.toNat < ceiling) (clock : UInt64) : last < advance clock last := by
  rw [UInt64.lt_iff_toNat_lt, toNat_advance]
  omega

theorem le_advance (clock last : UInt64) : last ≤ advance clock last := by
  have := toNat_le_ceiling last
  rw [UInt64.le_iff_toNat_le, toNat_advance]
  omega

theorem clock_le_advance (clock last : UInt64) : clock ≤ advance clock last := by
  rw [UInt64.le_iff_toNat_le, toNat_advance]
  exact Nat.le_max_left _ _

/-! ### Nonces in a row -/

/-- The source after calls that were made as wholes, each with a number and a clock reading. -/
def after (s : NonceSource) (calls : List (Nat × UInt64)) : NonceSource :=
  calls.foldl (fun s call => (s.next call.2).2) s

theorem after_append (s : NonceSource) (calls more : List (Nat × UInt64)) :
    s.after (calls ++ more) = (s.after calls).after more := List.foldl_append

/-- **The last nonce never goes back.** -/
theorem last_le_after (s : NonceSource) (calls : List (Nat × UInt64)) :
    s.last ≤ (s.after calls).last := by
  induction calls generalizing s with
  | nil => exact UInt64.le_refl _
  | cons call calls ih => exact UInt64.le_trans (le_advance call.2 s.last) (ih _)

theorem last_le_after_append (s : NonceSource) (calls more : List (Nat × UInt64)) :
    (s.after calls).last ≤ (s.after (calls ++ more)).last := by
  rw [after_append]
  exact last_le_after _ more

theorem next_after (s : NonceSource) (calls : List (Nat × UInt64)) (n : Nat) (clock : UInt64) :
    (s.after calls).next clock = ((s.after (calls ++ [(n, clock)])).last,
      s.after (calls ++ [(n, clock)])) := by
  rw [after_append]
  rfl

/-- **Below the ceiling one more call goes beyond all that was before**, and keeps up with the
clock. -/
theorem lt_last_after_concat {v : UInt64} {calls : List (Nat × UInt64)}
    (h : (s.after calls).last.toNat < ceiling) (hv : v ≤ (s.after calls).last) (n : Nat)
    (clock : UInt64) :
    v < (s.after (calls ++ [(n, clock)])).last ∧
    clock ≤ (s.after (calls ++ [(n, clock)])).last := by
  rw [after_append]
  exact ⟨UInt64.lt_of_le_of_lt hv (lt_advance h clock), clock_le_advance clock _⟩

theorem last_le_of_split {first before between : List (Nat × UInt64)} {call : Nat × UInt64}
    (h : before = first ++ call :: between) :
    (s.after (first ++ [call])).last ≤ (s.after before).last := by
  rw [h, List.append_cons first call between]
  exact last_le_after_append s _ between

theorem toNat_last_of_le (h : s.last.toNat = ceiling) {t : NonceSource} (hle : s.last ≤ t.last) :
    t.last.toNat = ceiling :=
  Nat.le_antisymm (toNat_le_ceiling _) (h ▸ UInt64.le_iff_toNat_le.1 hle)

end NonceSource

/-! ### Calls that take turns -/

/-- A call for a nonce: it waits for its first turn; it has read the clock; it has moved the source
on and found a last nonce there; it has returned. -/
inductive Draw where
  | waiting
  | timed (clock : UInt64)
  | moved (clock found : UInt64)
  | issued (nonce : UInt64)
deriving DecidableEq

/-- The number of turns that a call has had, up to the last one that it needs. -/
def Draw.turns : Draw → Nat
  | .waiting => 0
  | .timed _ => 1
  | .moved _ _ => 2
  | .issued _ => 3

/-- Some calls for nonces, and the source that they share. -/
structure Drawing where
  source : NonceSource
  draws : List Draw

namespace Drawing

/-- Calls of which none has had a turn, at a source that starts above a floor. -/
def start (floor : UInt64) (count : Nat) : Drawing :=
  ⟨.startingAfter floor, List.replicate count .waiting⟩

/-- The call with a number takes its turn while the clock shows a reading. -/
def step (d : Drawing) (clock : UInt64) (n : Nat) : Drawing :=
  match d.draws[n]? with
  | some .waiting => { d with draws := d.draws.set n (.timed clock) }
  | some (.timed read) =>
    { source := (d.source.next read).2, draws := d.draws.set n (.moved read d.source.last) }
  | some (.moved read found) =>
    { d with draws := d.draws.set n (.issued (NonceSource.advance read found)) }
  | _ => d

/-- The calls take turns as a schedule says. -/
def run (d : Drawing) (schedule : List (UInt64 × Nat)) : Drawing :=
  schedule.foldl (fun d turn => d.step turn.1 turn.2) d

/-- The update that is made if the call with a number takes its turn: the number and the clock
reading. -/
def update (d : Drawing) (n : Nat) : List (Nat × UInt64) :=
  match d.draws[n]? with
  | some (.timed read) => [(n, read)]
  | _ => []

/-- The updates of a schedule in the order in which they are made. -/
def order (d : Drawing) : List (UInt64 × Nat) → List (Nat × UInt64)
  | [] => []
  | (clock, n) :: rest => d.update n ++ (d.step clock n).order rest

/-- Where a call with a number stands after some updates. It has made one itself if it has moved the
source on, and what it found there and what it returns is what it would as a whole call. -/
inductive Stands (s : NonceSource) (past : List (Nat × UInt64)) (n : Nat) : Draw → Prop
  | waiting (h : n ∉ past.map (·.1)) : Stands s past n .waiting
  | timed {clock : UInt64} (h : n ∉ past.map (·.1)) : Stands s past n (.timed clock)
  | moved {clock : UInt64} {before later : List (Nat × UInt64)}
      (h : past = before ++ (n, clock) :: later) :
    Stands s past n (.moved clock (s.after before).last)
  | issued {clock : UInt64} {before later : List (Nat × UInt64)}
      (h : past = before ++ (n, clock) :: later) :
    Stands s past n (.issued ((s.after before).next clock).1)

/-- A drawing after some updates, one of each call at most: the source has moved as if whole calls
had been made. -/
structure Traced (s : NonceSource) (past : List (Nat × UInt64)) (d : Drawing) : Prop where
  source_eq : d.source = s.after past
  nodup : (past.map (·.1)).Nodup
  stands : ∀ n a, d.draws[n]? = some a → Stands s past n a

variable {s : NonceSource} {past : List (Nat × UInt64)} {d : Drawing} {m n : Nat} {a : Draw}

theorem Stands.append (h : Stands s past m a) (hne : m ≠ n) (clock : UInt64) :
    Stands s (past ++ [(n, clock)]) m a := by
  have hnotMem : m ∉ past.map (·.1) → m ∉ (past ++ [(n, clock)]).map (·.1) := fun hm => by
    simpa [hne] using hm
  cases h with
  | waiting hm => exact .waiting (hnotMem hm)
  | timed hm => exact .timed (hnotMem hm)
  | moved hpast => exact .moved (by rw [hpast, List.append_assoc, List.cons_append])
  | issued hpast => exact .issued (by rw [hpast, List.append_assoc, List.cons_append])

/-- What a turn of a call comes to: there is nothing left to do, or it reads the clock, moves the
source on or returns. -/
theorem step_cases (d : Drawing) (clock : UInt64) (n : Nat) :
    (d.step clock n = d ∧ d.update n = []) ∨
    (d.draws[n]? = some .waiting ∧
      d.step clock n = { d with draws := d.draws.set n (.timed clock) } ∧
      d.update n = []) ∨
    (∃ read, d.draws[n]? = some (.timed read) ∧ d.step clock n =
      { source := (d.source.next read).2, draws := d.draws.set n (.moved read d.source.last) } ∧
      d.update n = [(n, read)]) ∨
    ∃ read found, d.draws[n]? = some (.moved read found) ∧ d.step clock n =
      { d with draws := d.draws.set n (.issued (NonceSource.advance read found)) } ∧
        d.update n = [] := by
  unfold step update
  rcases d.draws[n]? with _ | _ | read | ⟨read, found⟩ | v
  · exact .inl ⟨rfl, rfl⟩
  · exact .inr (.inl ⟨rfl, rfl, rfl⟩)
  · exact .inr (.inr (.inl ⟨read, rfl, rfl, rfl⟩))
  · exact .inr (.inr (.inr ⟨read, found, rfl, rfl, rfl⟩))
  · exact .inl ⟨rfl, rfl⟩

theorem stands_set {b : Draw} (hself : Stands s past n b)
    (hothers : ∀ m, m ≠ n → ∀ a, d.draws[m]? = some a → Stands s past m a) (m : Nat) (a : Draw)
    (h : (d.draws.set n b)[m]? = some a) : Stands s past m a := by
  rcases cases_of_getElem?_set h with ⟨rfl, rfl⟩ | ⟨hne, h⟩
  · exact hself
  · exact hothers m hne a h

/-- **A turn keeps the trace**, with the update that it makes, if any. -/
theorem Traced.step (h : Traced s past d) (clock : UInt64) (n : Nat) :
    Traced s (past ++ d.update n) (d.step clock n) := by
  have hothers : ∀ m, m ≠ n → ∀ a, d.draws[m]? = some a → Stands s past m a := fun m _ => h.stands m
  rcases d.step_cases clock n with ⟨hstep, hupdate⟩ | ⟨hn, hstep, hupdate⟩ |
    ⟨read, hn, hstep, hupdate⟩ |
    ⟨read, found, hn, hstep, hupdate⟩
  · rwa [hstep, hupdate, List.append_nil]
  · rw [hstep, hupdate, List.append_nil]
    cases h.stands n _ hn with
    | waiting hm => exact ⟨h.source_eq, h.nodup, stands_set (.timed hm) hothers⟩
  · rw [hstep, hupdate]
    cases h.stands n _ hn with
    | timed hm =>
      have hself : Stands s (past ++ [(n, read)]) n (.moved read d.source.last) := by
        rw [h.source_eq]
        exact .moved rfl
      refine ⟨?_, ?_, stands_set hself fun m hne a ha => (h.stands m a ha).append hne read⟩
      · rw [NonceSource.after_append, h.source_eq]
        rfl
      · rw [List.map_append, List.nodup_append]
        exact ⟨h.nodup, List.nodup_singleton n, fun x hx y hy he => hm (by simp_all)⟩
  · rw [hstep, hupdate, List.append_nil]
    cases h.stands n _ hn with
    | moved hpast => exact ⟨h.source_eq, h.nodup, stands_set (.issued hpast) hothers⟩

/-- **All turns of a schedule keep the trace.** -/
theorem Traced.run (h : Traced s past d) (schedule : List (UInt64 × Nat)) :
    Traced s (past ++ d.order schedule) (d.run schedule) := by
  induction schedule generalizing past d with
  | nil => rwa [order, List.append_nil]
  | cons turn rest ih =>
    obtain ⟨clock, n⟩ := turn
    rw [order, ← List.append_assoc]
    exact ih (h.step clock n)

theorem traced_start (floor : UInt64) (count : Nat) :
    Traced (.startingAfter floor) [] (start floor count) where
  source_eq := rfl
  nodup := List.nodup_nil
  stands n a ha := by
    obtain rfl : a = .waiting := List.eq_of_mem_replicate (List.mem_of_getElem? ha)
    exact .waiting List.not_mem_nil

/-- A call has one update, and the nonce that it returns is the one that was stored then. -/
theorem Traced.eq_of_issued (h : Traced s past d) {clock v : UInt64}
    {before later : List (Nat × UInt64)} (hpast : past = before ++ (n, clock) :: later)
    (hv : d.draws[n]? = some (.issued v)) : v = ((s.after before).next clock).1 := by
  cases h.stands n _ hv with
  | issued hsplit =>
    have hnodup := h.nodup
    rw [hpast, List.map_append, List.map_cons, List.nodup_middle, List.nodup_cons, List.mem_append,
      not_or] at hnodup
    have hnotMem : ∀ {c : UInt64} {l : List (Nat × UInt64)}, n ∉ l.map (·.1) →
        (n, c) ∉ l := fun hl hc =>
      hl (List.mem_map_of_mem hc)
    obtain ⟨rfl, he, -⟩ :=
      (List.append_cons_inj_of_notMem (hnotMem hnodup.1.1) (hnotMem hnodup.1.2)).1
      (hpast.symm.trans hsplit)
    cases he
    rfl

/-! ### Every call returns -/

theorem getElem?_step_of_ne (d : Drawing) (clock : UInt64) (h : m ≠ n) :
    (d.step clock n).draws[m]? = d.draws[m]? := by
  rcases d.step_cases clock n with ⟨hstep, -⟩ | ⟨-, hstep, -⟩ | ⟨_, -, hstep, -⟩ |
    ⟨_, _, -, hstep, -⟩ <;>
    simp [hstep, List.getElem?_set_ne (Ne.symm h)]

theorem exists_turns_step (clock : UInt64) (h : d.draws[n]? = some a) :
    ∃ b, (d.step clock n).draws[n]? = some b ∧ min 3 (a.turns + 1) ≤ b.turns := by
  have hlt := (List.getElem?_eq_some_iff.1 h).1
  cases a with
  | waiting =>
    exact ⟨.timed clock, by rw [step, h]; exact List.getElem?_set_self hlt, by simp [Draw.turns]⟩
  | timed read =>
    exact ⟨.moved read d.source.last, by rw [step, h]; exact List.getElem?_set_self hlt,
      by simp [Draw.turns]⟩
  | moved read found =>
    refine ⟨.issued (NonceSource.advance read found), ?_, by simp [Draw.turns]⟩
    rw [step, h]
    exact List.getElem?_set_self hlt
  | issued v => exact ⟨.issued v, by rw [step, h]; exact h, by simp [Draw.turns]⟩

/-- **A call that has had three turns has returned.** -/
theorem exists_turns_run (h : d.draws[n]? = some a) (schedule : List (UInt64 × Nat)) :
    ∃ b, (d.run schedule).draws[n]? = some b ∧
      min 3 (a.turns + schedule.countP fun turn => turn.2 = n) ≤ b.turns := by
  induction schedule generalizing d a with
  | nil => exact ⟨a, h, Nat.min_le_right _ _⟩
  | cons turn rest ih =>
    obtain ⟨clock, m⟩ := turn
    by_cases hm : m = n
    · subst hm
      obtain ⟨b, hb, hle⟩ := exists_turns_step clock h
      obtain ⟨c, hc, hrest⟩ := ih hb
      refine ⟨c, hc, ?_⟩
      rw [List.countP_cons_of_pos (by simp)]
      omega
    · obtain ⟨c, hc, hrest⟩ := ih ((getElem?_step_of_ne d clock (Ne.symm hm)).trans h)
      refine ⟨c, hc, ?_⟩
      rwa [List.countP_cons_of_neg (by simpa using hm)]

end Drawing

/-! ### Batches -/

theorem Batch.identity_of_ofPayload {chunk : Nat} {nonce : UInt64} {payload : Octets} {b : Batch}
    (h : ofPayload chunk nonce payload = .ok b) :
    b.header.identity = .ok { nonce, checksum := Checksum.compute payload } := by
  unfold ofPayload at h
  simp only at h
  split at h
  · cases h
  · rename_i hle
    cases h
    have hpos : 1 ≤ slotCount chunk payload.length := Nat.le_max_left _ _
    refine Header.identity_ok_iff.2 ⟨Header.validate_ok_iff.2 ⟨rfl, fun h₀ => ?_⟩, rfl, rfl⟩
    have hzero := congrArg UInt32.toNat h₀
    simp only [header, headerOf, UInt32.toNat_ofNat', maxCardinality, UInt32.size] at hzero hle
    simp at hzero
    omega

/-- Batches that are cut under different nonces have different names, even of the same payload. -/
theorem Batch.identity_ne_of_ofPayload {chunk : Nat} {nonce nonce' : UInt64}
    {payload payload' : Octets} {b b' : Batch} (hne : nonce ≠ nonce')
    (h : ofPayload chunk nonce payload = .ok b) (h' : ofPayload chunk nonce' payload' = .ok b') :
    ∃ i i', b.header.identity = .ok i ∧ b'.header.identity = .ok i' ∧ i ≠ i' :=
  ⟨_, _, identity_of_ofPayload h, identity_of_ofPayload h',
    fun he => hne (congrArg Identity.nonce he)⟩

namespace Drawing

open NonceSource

/-- **Nonces do not repeat before the ceiling.** Calls that share a source take effect one after
the other, in the order of their updates; below the ceiling each nonce is above all before it, and
at the ceiling the source stays. -/
theorem nonces_never_repeat (floor : UInt64) (count : Nat) (schedule : List (UInt64 × Nat)) :
    let source := startingAfter floor
    let order := (start floor count).order schedule
    let ended := (start floor count).run schedule
    ended.source = source.after order ∧
    (∀ n v, ended.draws[n]? = some (.issued v) → ∃ clock, (n, clock) ∈ order) ∧
    (∀ n < count, 3 ≤ schedule.countP (fun turn => turn.2 = n) →
      ∃ v, ended.draws[n]? = some (.issued v)) ∧
    ∀ before n clock later, order = before ++ (n, clock) :: later →
      let last := (source.after before).last
      let nonce := (source.after (before ++ [(n, clock)])).last
      (source.after before).next clock = (nonce, source.after (before ++ [(n, clock)])) ∧
      (∀ v, ended.draws[n]? = some (.issued v) → v = nonce) ∧
      (last.toNat < ceiling → floor < nonce ∧ clock ≤ nonce) ∧
      (floor.toNat = ceiling → nonce.toNat = ceiling) ∧
      ∀ first m earlier between, before = first ++ (m, earlier) :: between →
        let older := (source.after (first ++ [(m, earlier)])).last
        (older.toNat = ceiling → nonce.toNat = ceiling) ∧
        (last.toNat < ceiling → older < nonce ∧
          ∀ chunk (hchunk : 0 < chunk) payload payload' b b',
            (Splitter.split ⟨chunk, hchunk, source.after first⟩ earlier payload).1 = .ok b →
            (Splitter.split ⟨chunk, hchunk, source.after before⟩ clock payload').1 = .ok b' →
            ∃ i i', b.header.identity = .ok i ∧ b'.header.identity = .ok i' ∧ i ≠ i') := by
  intro source order ended
  have htrace : Traced source order ended := by simpa using (traced_start floor count).run schedule
  refine ⟨htrace.source_eq, fun n v hv => ?_, fun n hn hturns => ?_,
    fun before n clock later horder => ?_⟩
  · cases htrace.stands n _ hv with
    | issued hsplit => exact ⟨_, hsplit ▸ List.mem_append_right _ List.mem_cons_self⟩
  · have hwaiting : (start floor count).draws[n]? = some .waiting :=
      List.getElem?_replicate_of_lt hn
    obtain ⟨a, ha, hle⟩ := exists_turns_run hwaiting schedule
    cases a with
    | issued v => exact ⟨v, ha⟩
    | _ =>
      simp only [Draw.turns] at hle
      omega
  · intro last nonce
    have hnext := next_after source before n clock
    have hgrow : last ≤ nonce := last_le_after_append source before _
    refine ⟨hnext, fun v hv => ?_, fun hlast => ?_, fun hfloor => ?_,
      fun first m earlier between hbefore => ?_⟩
    · rw [htrace.eq_of_issued horder hv, hnext]
    · exact lt_last_after_concat hlast (last_le_after source before) n clock
    · exact toNat_last_of_le (s := source) hfloor (last_le_after source _)
    · intro older
      have holder : older ≤ last := last_le_of_split hbefore
      refine ⟨fun hceiling => toNat_last_of_le hceiling (UInt64.le_trans holder hgrow),
        fun hlast => ?_⟩
      have hlt : older < nonce := (lt_last_after_concat hlast holder n clock).1
      refine ⟨hlt, fun chunk hchunk payload payload' b b' hb hb' => ?_⟩
      have hne : ((source.after first).next earlier).1 ≠ ((source.after before).next clock).1 := by
        rw [hnext, next_after source first m earlier]
        exact UInt64.ne_of_lt hlt
      exact Batch.identity_ne_of_ofPayload hne hb hb'

/-- Two calls read a clock that goes back in between, and the second one makes its update first. -/
def crossedSchedule : List (UInt64 × Nat) := [(9, 0), (3, 1), (0, 1), (0, 0), (0, 0), (0, 1)]

theorem crossedSchedule_distinct :
    ∃ v w, ((start 5 2).run crossedSchedule).draws = [.issued v, .issued w] ∧ 5 < w ∧
      w < v ∧ 9 ≤ v := by
  have hdraws : ((start 5 2).run crossedSchedule).draws = [.issued 9, .issued 6] := by decide
  obtain ⟨-, -, -, hplaces⟩ := nonces_never_repeat 5 2 crossedSchedule
  obtain ⟨-, -, hfloor, -, -⟩ := hplaces [] 1 3 [(0, 9)] (by decide)
  obtain ⟨-, -, hclock, -, hbefore⟩ := hplaces [(1, 3)] 0 9 [] (by decide)
  have hlater := ((hbefore [] 1 3 [] rfl).2 (by decide)).1
  exact ⟨9, 6, hdraws, (hfloor (by decide)).1, hlater, (hclock (by decide)).2⟩

end Drawing

end FragmentRelay
