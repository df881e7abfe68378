import FragmentRelay.Proofs.Pipeline.Run
import FragmentRelay.Proofs.Service.Demands

/-!
# Trial: what one delivery of a header comes to

On each delivery of a header its operation is tried once. The trial reads the counter and the
records of the operation, so the header that is kept on the first delivery makes no difference to
it, nor does a failure to keep it: the delivery comes to what the operation comes to when it is
tried alone on any store with the same counter and records. It brings out a packet if the operation
is ready, and asks for another delivery if it is not and deliveries are left.

* `HeaderHandling.outcome_of_decode`: a delivery comes to what its trial comes to.
* `Reassembler.exists_payload_of_ok`, `Settings.settleHeader_of_notReady`: what the worker makes of
  it.
-/

namespace FragmentRelay

/-! ### Outages that fail no reads -/

namespace Outage

/-- An outage that neither fails nor crashes a read. -/
structure SparesReads (o : Outage) : Prop where
  crashes_none : o.crashGets = none
  fails_zero : o.failGets = 0

variable {o : Outage}

theorem SparesReads.rule_get (h : o.SparesReads) (key : Key) :
    ∃ o', rule o (.get key) = (.pass, o') ∧ o'.SparesReads := by
  simp only [rule, h.crashes_none, h.fails_zero, Nat.lt_irrefl, if_false]
  split
  · exact ⟨_, rfl, rfl, rfl⟩
  · exact ⟨_, rfl, h⟩

theorem SparesReads.rule_set (h : o.SparesReads) (key : Key) :
    (rule o (.set key)).2.SparesReads := by
  simp only [rule]
  split
  · exact ⟨h.crashes_none, h.fails_zero⟩
  split
  · exact ⟨h.crashes_none, h.fails_zero⟩
  · exact h

theorem rule_set_ne_crash (o : Outage) (key : Key) (text : String) :
    (rule o (.set key)).1 ≠ .crash text := by
  simp only [rule]
  split
  · exact Verdict.noConfusion
  split
  · exact Verdict.noConfusion
  · exact Verdict.noConfusion

end Outage

/-! ### The trial of a delivery -/

/-- A key under which no header is kept. -/
def Keyspace.HoldsNoHeader (k : Keyspace) (key : Key) : Prop := ∀ i, key ≠ k.headerKey i

theorem Reassembler.reassemble_touchesOnly (m : Reassembler) (o : Operation) :
    (m.reassemble o).TouchesOnly m.keys.HoldsNoHeader := by
  refine Access.TouchesOnly.bind ?_ fun r => by cases r <;> trivial
  cases hi : o.header.identity with
  | error d =>
    rw [payloadOf, hi]
    trivial
  | ok i =>
    refine (payloadOf_touchesOnly m hi).mono fun key hkey j => ?_
    rcases hkey with rfl | ⟨x, -, rfl⟩
    · exact Keyspace.derive_ne_of_purpose (by decide)
    · exact Keyspace.derive_ne_of_purpose (by decide)

/-- **A delivery of a header comes to what its operation comes to when it is tried alone**, on any
store with the same counter and records. -/
theorem HeaderHandling.outcome_of_decode {m : Reassembler} {h : Header} {body : Octets}
    {attempt : Nat} {o : Outage} {now : Instant} {s t : Store}
    (hd : Wire.decode Header body = .ok h)
    (hshown : attempt = 1 → ∀ span ∈ m.ttl, now + span.nanos < Instant.horizon) (ho : o.SparesReads)
    (hst : s.AgreeOn m.keys.HoldsNoHeader t) {r : Except ReassemblyError Unit × Operation}
    (hr : ((m.reassemble { header := h }).alone now t).1 = .value r) :
    ((ofBody m body attempt).run Outage.rule now o s).1 = .value (.attempted r.1 r.2) := by
  obtain ⟨o', s', ho', hs', hrun⟩ := run_of_decode hd attempt s hshown (Outage.rule_set_ne_crash o)
  have hspares : o'.SparesReads := by
    rcases ho' with rfl | ⟨key, rfl⟩
    · exact ho
    · exact ho.rule_set key
  have hread := Reassembler.reassemble_readOnly m { header := h }
  have hagree : s'.AgreeOn m.keys.HoldsNoHeader t := fun key hkey =>
    (hs' key hkey).trans (hst key hkey)
  have htrial : ((m.reassemble { header := h }).run Outage.rule now o' s').1 = .value r := by
    rw [hread.run_outcome (fun _ key hw => hw.rule_get key) now hspares s',
      (Access.alone_agree (Reassembler.reassemble_touchesOnly m _) hagree now).1, hr]
  rw [hrun]
  rcases hrest : (m.reassemble { header := h }).run Outage.rule now o' s' with ⟨x | text, o'', s''⟩
  · rw [hrest] at htrial
    cases htrial
    rfl
  · rw [hrest] at htrial
    cases htrial

/-! ### What the worker makes of it -/

namespace Reassembler

variable {m : Reassembler} {h : Header} {now : Instant} {s : Store} {o : Operation}

/-- A trial that succeeds or finds fragments missing has named its operation, so its header can be
read again. -/
theorem decode_encode_of_outcome {r : Except ReassemblyError Unit}
    (hr : ((m.reassemble { header := h }).alone now s).1 = .value (r, o))
    (hready : ∀ e, r = .error e → e.notReady = true) : Wire.decode Header
      (Wire.encode h) = .ok h := by
  cases hi : h.identity with
  | ok i => exact Wire.decode_encode_of_identity hi
  | error d =>
    have hbad : m.reassemble { header := h } = .done (.error (.malformed d), { header := h }) := by
      simp only [reassemble, payloadOf, hi]
      rfl
    rw [hbad] at hr
    cases hr
    exact absurd (hready _ rfl) Bool.false_ne_true

theorem exists_payload_of_ok
    (hr : ((m.reassemble { header := h }).alone now s).1 = .value (.ok (), o)) :
    ∃ payload, o = { header := h, payload := some payload } := by
  have hrun : (m.reassemble { header := h }).run Faults.none now () s =
      (.value (.ok (), o), (), ((m.reassemble { header := h }).run Faults.none now () s).2.2) :=
    Prod.ext hr rfl
  obtain ⟨payload, -, -, rfl⟩ := reassemble_ok hrun
  exact ⟨payload, rfl⟩

end Reassembler

namespace Settings

variable {s : Settings} {attempt : Nat} {o : Operation} {e : ReassemblyError}

/-- An operation that is not ready is tried again after a delay, unless this was its last
attempt. -/
theorem settleHeader_of_notReady (he : e.notReady = true) :
    s.settleHeader attempt (.value (.attempted (.error e) o)) =
      if s.reassembly.maxDeliveries.toNat ≤ attempt then .ack
        else .nack (s.reassembly.backoff.delayAfter attempt) := by
  have hretry : e.retryable = true := by
    cases e <;> first | rfl | cases he
  simp only [settleHeader, HeaderHandling.packet?, HeaderHandling.disposition, hretry,
    Option.isSome_none, Bool.false_eq_true, if_false, if_true]
  rfl

end Settings

end FragmentRelay
