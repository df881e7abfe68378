import FragmentRelay.Proofs.Broadcast.Prefix
import FragmentRelay.Proofs.Service.Clock

/-!
# Published: the total of published fragments

While a broadcast waits for tokens, time passes and the workers of the deployment run. They ingest,
reassemble and crash, and all of that is tallied, but none of it counts a published fragment. So the
total grows by what the broadcast itself reports at its end.

* `Transmission.Uncounting`: a transport that leaves the total alone; `uncounting_onBus`,
  `uncounting_noting`: the bus of the deployment does, and so does one that only notes.
* `Deployment.broadcast_exact_prefix`: what a broadcast has published, what it reports and what is
  counted.
-/

namespace FragmentRelay

namespace Deployment

namespace Transmission

/-- A transport does not count publications itself: neither while it publishes nor while time
passes. -/
structure Uncounting (p : Publisher Transmission) : Prop where
  publish : ∀ subject body t, (p.publish subject body t).2.deployment.published =
    t.deployment.published
  pace : ∀ t, (p.pace t).deployment.published = t.deployment.published

theorem published_pace (t : Transmission) :
    t.pace.deployment.published = t.deployment.published := by
  unfold pace
  split
  · rfl
  · simp only
    split
    · rename_i hlt
      exact congrArg Prod.snd (standing_advanceTo (Nat.le_of_lt hlt))
    · rfl

theorem uncounting_onBus : Uncounting onBus where
  publish subject body t := by
    unfold onBus
    simp only
    split <;> rfl
  pace := published_pace

theorem uncounting_noting (limit : Option Nat) (refusal : String → TransportError) :
    Uncounting (noting limit refusal) where
  publish subject body t := by
    unfold noting
    simp only
    split <;> rfl
  pace := published_pace

namespace Uncounting

variable {p : Publisher Transmission}

theorem sendFragments (hp : Uncounting p) (subject : String) (fs : List Fragment) (n : Nat)
    (t : Transmission) :
    (p.sendFragments subject fs n t).2.2.deployment.published = t.deployment.published := by
  induction fs generalizing n t with
  | nil => rfl
  | cons f rest ih =>
    have hkept := (hp.publish subject (Wire.encode f) (p.pace t)).trans (hp.pace t)
    rw [Publisher.sendFragments]
    rcases ha : p.publish subject (Wire.encode f) (p.pace t) with ⟨e | u, t'⟩
    all_goals rw [ha] at hkept
    · exact hkept
    · exact (ih _ t').trans hkept

theorem broadcast (hp : Uncounting p) (subjects : Subjects) (b : Batch) (t : Transmission) :
    (p.broadcast subjects b t).2.2.deployment.published = t.deployment.published := by
  have hkept := hp.publish subjects.reassembly (Wire.encode b.header) t
  rw [Publisher.broadcast]
  rcases ha : p.publish subjects.reassembly (Wire.encode b.header) t with ⟨e | u, t'⟩
  all_goals rw [ha] at hkept
  · exact hkept
  · exact (hp.sendFragments _ _ _ t').trans hkept

end Uncounting

end Transmission

/-- A broadcast of a deployment before its first publication, with a full bucket if the rate is
limited. -/
def transmission (d : Deployment) (rate : Option Nat) : Transmission :=
  { deployment := d, bucket := rate.map fun r => .full r d.now }

/-- **A broadcast publishes an exact prefix of its programme and reports its length**, on every
transport, whatever it accepts and refuses. The total of published fragments grows by the number
of those that were accepted. -/
theorem broadcast_exact_prefix {chunk : Nat} {nonce : UInt64} {payload : Octets} {b : Batch}
    (hb : Batch.ofPayload chunk nonce payload = .ok b) (subjects : Subjects) {σ : Type}
    (p : Publisher σ) (s : σ) :
    b.fragments.length = b.header.cardinality.toNat ∧
    (∀ (n : Nat) (f : Fragment), b.fragments[n]? = some f → f.index.toNat = n) ∧
    (∃ tried r n s', p.broadcast subjects b s = (r, n, s') ∧
      p.recorded.broadcast subjects b (s, []) = (r, n, s', tried) ∧ b.Exact subjects tried r n) ∧
    ∀ (d : Deployment) (q : Publisher Transmission) (rate : Option Nat), Transmission.Uncounting q →
      ∃ tried r n t, (q.recorded.broadcast subjects b (d.transmission rate, [])).2.2.2 = tried ∧
        d.broadcast q rate subjects b = (r, t) ∧ b.Exact subjects tried r n ∧
        t.deployment.tally.published = d.tally.published + n := by
  have hsliced := Batch.sliced_of_ok hb
  refine ⟨hsliced.length_eq.trans hsliced.cardinality_eq.symm, fun _ _ => hsliced.index_eq,
    hsliced.broadcast_exact p subjects s, fun d q rate hq => ?_⟩
  obtain ⟨tried, r, n, t, hplain, hrecorded, hexact⟩ :=
    hsliced.broadcast_exact q subjects (d.transmission rate)
  refine ⟨tried, r, n,
    { t with deployment := { t.deployment with tally := t.deployment.tally.addPublished n } },
      ?_, ?_, hexact, ?_⟩
  · rw [hrecorded]
  · rw [transmission] at hplain
    rw [Deployment.broadcast, hplain]
  · have hkept := hq.broadcast subjects b (d.transmission rate)
    rw [hplain] at hkept
    exact congrArg (· + n) hkept

/-- A transport that accepts two publications and no more. -/
def twoOnly : Publisher Transmission :=
  Transmission.noting (some 2) fun subject => .publish subject "full"

/-- A deployment without workers. -/
def unmanned : Deployment := initial ⟨"relay"⟩ none true

theorem twoOnly_exact :
    Batch.ofPayload 2 5 [1, 2, 3] = .ok Batch.smallBatch ∧ Transmission.Uncounting twoOnly ∧
    (unmanned.broadcast twoOnly none {} Batch.smallBatch).1 =
      .error (.fragment 1 1 (.publish "fragcast.fragments.ingest" "full")) ∧
    (unmanned.broadcast twoOnly none {} Batch.smallBatch).2.deployment.tally.published = 1 := by
  have hb : Batch.ofPayload 2 5 [1, 2, 3] = .ok Batch.smallBatch := rfl
  have hq : Transmission.Uncounting twoOnly := Transmission.uncounting_noting _ _
  obtain ⟨-, -, -, hdeployment⟩ := broadcast_exact_prefix hb {} twoOnly (unmanned.transmission none)
  obtain ⟨tried, r, n, t, -, hbroadcast, hexact, hpublished⟩ := hdeployment unmanned twoOnly none hq
  have hr : r = .error (.fragment 1 1 (.publish "fragcast.fragments.ingest" "full")) := by
    have hanswer : (unmanned.broadcast twoOnly none {} Batch.smallBatch).1 =
        .error (.fragment 1 1 (.publish "fragcast.fragments.ingest" "full")) := by decide +kernel
    rwa [hbroadcast] at hanswer
  rw [hbroadcast]
  exact ⟨hb, hq, hr, hpublished.trans (congrArg _ (hexact.of_error _ hr).1.symm)⟩

end Deployment

end FragmentRelay
