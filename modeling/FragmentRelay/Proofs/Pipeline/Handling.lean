import FragmentRelay.Handling
import FragmentRelay.Proofs.Reassembly.AnyOrder
import FragmentRelay.Proofs.Store.Deadlines

/-!
# Handling: what a handled message does for a batch

The workers handle whatever was published on their subjects. A fragment of a batch adds its index to
what the store knows; every other fragment, and every header, leaves that alone. A header of the
batch brings its packet out exactly if all indices have arrived, and no other header brings a packet
with the name of the batch.

* `Progress.handle_own`, `Progress.handle_other`: the ingest subject.
* `Progress.header_kept`, `Progress.header_own`, `Progress.packet_eq`: the reassembly subject.
-/

namespace FragmentRelay

/-! ### Fragments -/

namespace FragmentHandling

variable {σ : Type} {g : Ingestor} {body : Octets} {f : Fragment} {faults : Faults σ}
  {now : Instant} {w : σ} {s : Store}

/-- How an ingest worker settles a delivery: as its handling says, and refused if that has
crashed. -/
def settledAs (redeliverAfter : Span) : Outcome FragmentHandling → Disposition
  | .value h => h.disposition redeliverAfter
  | .crashed _ => .nack redeliverAfter

theorem run_of_undecodable {e : Wire.Fault} (hd : Wire.decode Fragment body = .error e) :
    (ofBody g body).run faults now w s = (.value .undecodable, w, s) := by
  simp only [ofBody, hd]
  rfl

theorem run_of_decode (hd : Wire.decode Fragment body = .ok f) :
    (ofBody g body).run faults now w s =
      match (g.ingest f).run faults now w s with
      | (.value r, w, s) => (.value (.ingested r), w, s)
      | (.crashed text, w, s) => (.crashed text, w, s) := by
  simp only [ofBody, hd, Access.bind_eq, Access.run_bind]
  rcases (g.ingest f).run faults now w s with ⟨r | text, w', s'⟩ <;> rfl

theorem alone_of_undecodable {e : Wire.Fault} (hd : Wire.decode Fragment body = .error e) :
    (ofBody g body).alone now s = (.value .undecodable, s) := by
  rw [Access.alone, run_of_undecodable hd]

theorem alone_of_decode (hd : Wire.decode Fragment body = .ok f) :
    (ofBody g body).alone now s =
      match (g.ingest f).alone now s with
      | (.value r, s) => (.value (.ingested r), s)
      | (.crashed text, s) => (.crashed text, s) := by
  rw [Access.alone, run_of_decode hd, Access.alone]
  rcases (g.ingest f).run Faults.none now () s with ⟨r | text, w', s'⟩ <;> rfl

theorem store_of_decode (hd : Wire.decode Fragment body = .ok f) :
    ((ofBody g body).alone now s).2 = ((g.ingest f).alone now s).2 := by
  rw [alone_of_decode hd]
  rcases (g.ingest f).alone now s with ⟨r | text, s'⟩ <;> rfl

end FragmentHandling

/-! ### Headers -/

namespace HeaderHandling

variable {σ : Type} {m : Reassembler} {body : Octets} {h : Header} {faults : Faults σ}
  {now : Instant} {w : σ} {s : Store}

theorem alone_of_undecodable {attempt : Nat} {e : Wire.Fault}
    (hd : Wire.decode Header body = .error e) :
    (ofBody m body attempt).alone now s = (.value .undecodable, s) := by
  simp only [ofBody, hd]
  rfl

/-- Keeping a header takes one write at most, and crashes only if that write does or if the clock
cannot show its deadline. -/
theorem cacheHeader_run (m : Reassembler) (h : Header) (s : Store)
    (hshown : ∀ span ∈ m.ttl, now + span.nanos < Instant.horizon)
    (hwrites : ∀ key text, (faults w (.set key)).1 ≠ .crash text) :
    ∃ r w' st, (m.cacheHeader h).run faults now w s = (.value r, w', st) ∧
      (w' = w ∨ ∃ key, w' = (faults w (.set key)).2) := by
  unfold Reassembler.cacheHeader
  cases h.identity with
  | error d => exact ⟨_, w, s, rfl, .inl rfl⟩
  | ok i =>
    simp only [Access.bind_eq, Access.write_bind, Access.run]
    rcases hv : faults w (.set (m.keys.headerKey i)) with ⟨_ | e | text, w'⟩
    · obtain ⟨st, hset⟩ := s.exists_set (m.keys.headerKey i) (Wire.encode h) hshown
      simp only [hset]
      exact ⟨_, w', st, rfl, .inr ⟨_, congrArg Prod.snd hv.symm⟩⟩
    · exact ⟨_, w', s, rfl, .inr ⟨_, congrArg Prod.snd hv.symm⟩⟩
    · exact absurd (congrArg Prod.fst hv) (hwrites _ text)

/-- A header is handled as its operation is reassembled, after at most one write of a request that
can fail, and on a store in which no more than kept headers changed. -/
theorem run_of_decode (hd : Wire.decode Header body = .ok h) (attempt : Nat) (s : Store)
    (hshown : attempt = 1 → ∀ span ∈ m.ttl, now + span.nanos < Instant.horizon)
    (hwrites : ∀ key text, (faults w (.set key)).1 ≠ .crash text) :
    ∃ w' st, (w' = w ∨ ∃ key, w' = (faults w (.set key)).2) ∧
      (∀ key, (∀ i, key ≠ m.keys.headerKey i) → st.find? key = s.find? key) ∧
      (ofBody m body attempt).run faults now w s =
        match (m.reassemble { header := h }).run faults now w' st with
        | (.value r, w, st) => (.value (.attempted r.1 r.2), w, st)
        | (.crashed text, w, st) => (.crashed text, w, st) := by
  simp only [ofBody, hd]
  by_cases ha : attempt = 1
  · obtain ⟨r, w', st, hc, hw⟩ := cacheHeader_run m h s (hshown ha) hwrites
    refine ⟨w', st, hw, fun key hkey => ?_, ?_⟩
    · have hno : ¬ ∃ i, key = m.keys.headerKey i := fun ⟨i, hi⟩ => hkey i hi
      have hkept := Access.find?_run (Reassembler.cacheHeader_writesOnly m h) hno faults now w s
      rwa [hc] at hkept
    · simp only [ha, if_true, Access.bind_eq, Access.run_bind, hc]
      rcases (m.reassemble { header := h }).run faults now w' st with ⟨r | text, w'', st'⟩ <;> rfl
  · refine ⟨w, s, .inl rfl, fun _ _ => rfl, ?_⟩
    simp only [ha, if_false, Access.bind_eq, Access.run_bind]
    rcases (m.reassemble { header := h }).run faults now w s with ⟨r | text, w', st'⟩ <;> rfl

theorem alone_of_decode (hm : m.ttl = none) (hd : Wire.decode Header body = .ok h)
    (attempt : Nat) (now : Instant) (s : Store) :
    ∃ st, (∀ key, (∀ i, key ≠ m.keys.headerKey i) → st.find? key = s.find? key) ∧
      (ofBody m body attempt).alone now s =
        match (m.reassemble { header := h }).alone now st with
        | (.value r, st) => (.value (.attempted r.1 r.2), st)
        | (.crashed text, st) => (.crashed text, st) := by
  have hshown : attempt = 1 → ∀ span ∈ m.ttl, now + span.nanos < Instant.horizon :=
      fun _ span hspan => by
    rw [hm] at hspan
    cases hspan
  have hwrites : ∀ key text, (Faults.none () (.set key)).1 ≠ .crash text :=
    fun key text hcrash => by cases hcrash
  obtain ⟨w, st, -, hst, hrun⟩ := run_of_decode hd attempt s hshown hwrites
  refine ⟨st, hst, ?_⟩
  rw [Access.alone, hrun, Access.alone]
  rcases (m.reassemble { header := h }).run Faults.none now () st with ⟨r | text, w', st'⟩ <;> rfl

end HeaderHandling

/-- The packets that a handled header brings out. -/
def Outcome.packets : Outcome HeaderHandling → List Packet
  | .value h => h.packet?.toList
  | .crashed _ => []

/-! ### A batch and its messages -/

namespace Progress

variable {k : Keyspace} {b : Batch} {payload : Octets} {D : Finset UInt32} {n : Nat} {s : Store}
  {fs : Set Fragment} {body : Octets} {f : Fragment}

/-- **A fragment of the batch adds its index**, and is accepted as long as its marker can count. -/
theorem handle_own (h : Progress k b (b.identityOf payload) D n s) (hcut : b.Cut payload)
    (hk : k.Collisionless fs) (hfs : ∀ f ∈ b.fragments, f ∈ fs)
    (hd : Wire.decode Fragment body = .ok f) (hf : f ∈ b.fragments) (now : Instant) :
    ∃ r s', (FragmentHandling.ofBody { keys := k } body).alone now s = (.value (.ingested r), s') ∧
      Progress k b (b.identityOf payload) (insert f.index D) (n + 1) s' ∧
        ((n : Int) < Counter.highest → ∃ a, r = .ok a) := by
  obtain ⟨r, s', hr, hp, ha⟩ := h.ingest (g := { keys := k }) hcut hk hfs rfl rfl rfl hf now
  refine ⟨r, s', by rw [FragmentHandling.alone_of_decode hd, hr], hp, fun hn => ?_⟩
  rcases ha with rfl | ⟨-, hle, -⟩
  · exact ⟨_, rfl⟩
  · omega

theorem handle_other (h : Progress k b (b.identityOf payload) D n s) (hcut : b.Cut payload)
    (hk : k.Collisionless fs) (hfs : ∀ f ∈ b.fragments, f ∈ fs) (body : Octets)
    (ho : ∀ f, Wire.decode Fragment body = .ok f → f.Genuine → f ∈ fs ∧
      ¬ f.BelongsTo (b.identityOf payload))
    (now : Instant) :
    Progress k b (b.identityOf payload) D n
      ((FragmentHandling.ofBody { keys := k } body).alone now s).2 := by
  cases hd : Wire.decode Fragment body with
  | error e =>
    rw [FragmentHandling.alone_of_undecodable hd]
    exact h
  | ok f =>
    rw [FragmentHandling.store_of_decode hd]
    exact h.ingest_other (g := { keys := k }) hcut hk hfs rfl (ho f hd) Faults.none now ()

theorem of_headerKeys (h : Progress k b (b.identityOf payload) D n s)
    (hcut : b.Cut payload) {st : Store}
    (hst : ∀ key, (∀ i, key ≠ k.headerKey i) → st.find? key = s.find? key) :
    Progress k b (b.identityOf payload) D n st := by
  refine h.of_find?_eq (fun f hf => hcut.belongsTo hf) (List.ne_nil_of_length_pos hcut.positive) ?_
  rintro f - key ⟨i, -, rfl | rfl | rfl⟩
  · exact hst _ fun j => Keyspace.derive_ne_of_purpose (by decide)
  · exact hst _ fun j => Keyspace.derive_ne_of_purpose (by decide)
  · exact hst _ fun j => Keyspace.derive_ne_of_purpose (by decide)

theorem header_handled (h : Progress k b (b.identityOf payload) D n s) (hcut : b.Cut payload)
    {header : Header} (hd : Wire.decode Header body = .ok header) (attempt : Nat) (now : Instant) :
    ∃ st, Progress k b (b.identityOf payload) D n st ∧
      (HeaderHandling.ofBody { keys := k } body attempt).alone now s =
        match ((Reassembler.reassemble { keys := k } { header }).alone now st).1 with
        | .value r => (.value (.attempted r.1 r.2), st)
        | .crashed text => (.crashed text, st) := by
  obtain ⟨st, hst, hr⟩ := HeaderHandling.alone_of_decode (m := { keys := k }) rfl hd attempt now s
  have hstore : ((Reassembler.reassemble { keys := k } { header }).alone now st).2 = st :=
    (Reassembler.reassemble_readOnly _ _).run_store Faults.none now () st
  refine ⟨st, h.of_headerKeys hcut hst, ?_⟩
  rw [hr]
  rcases hp : (Reassembler.reassemble { keys := k } { header }).alone now st with ⟨r | text, st'⟩
  · rw [hp] at hstore
    rw [← hstore]
  · rw [hp] at hstore
    rw [← hstore]

/-- **Every message on the reassembly subject leaves the batch alone.** -/
theorem header_kept (h : Progress k b (b.identityOf payload) D n s)
    (hcut : b.Cut payload) (body : Octets) (attempt : Nat) (now : Instant) :
    Progress k b (b.identityOf payload) D n
      ((HeaderHandling.ofBody { keys := k } body attempt).alone now s).2 := by
  cases hd : Wire.decode Header body with
  | error e =>
    rw [HeaderHandling.alone_of_undecodable hd]
    exact h
  | ok header =>
    obtain ⟨st, hp, hr⟩ := h.header_handled hcut hd attempt now
    rw [hr]
    split <;> exact hp

/-- **A header of the batch brings its packet out exactly if all indices have arrived.** -/
theorem header_own (h : Progress k b (b.identityOf payload) D n s) (hcut : b.Cut payload)
    (hd : Wire.decode Header body = .ok b.header) (attempt : Nat) (now : Instant) :
    ∃ r, ((HeaderHandling.ofBody { keys := k } body attempt).alone now s).1 = .value r ∧
      r.packet?.toList = if D = b.indices then [⟨b.header, payload⟩] else [] := by
  obtain ⟨st, hp, hr⟩ := h.header_handled hcut hd attempt now
  rw [hr]
  rcases Nat.lt_or_ge D.card b.header.cardinality.toNat with hlt | hge
  · have hne : D ≠ b.indices := by
      rintro rfl
      rw [hcut.card_indices] at hlt
      omega
    rw [if_neg hne]
    rcases Nat.eq_zero_or_pos D.card with h₀ | hpos
    · rw [hp.held.reassemble_none (m := { keys := k }) (o := { header := b.header }) hcut rfl rfl
        (Finset.card_eq_zero.1 h₀) now]
      exact ⟨_, rfl, rfl⟩
    · rw [hp.held.reassemble_some (m := { keys := k })
        (o := { header := b.header }) hcut rfl rfl hpos hlt now]
      exact ⟨_, rfl, rfl⟩
  · rw [if_pos (hp.held.eq_indices_of_card hcut hge),
      hp.held.reassemble_all (m := { keys := k })
        (o := { header := b.header }) hcut rfl rfl hge now]
    exact ⟨_, rfl, rfl⟩

/-- **No header brings out another packet with the name of the batch.** -/
theorem packet_eq (h : Progress k b (b.identityOf payload) D n s) (hcut : b.Cut payload)
    (body : Octets) (attempt : Nat) (now : Instant) (q : Packet)
    (hq : q ∈ ((HeaderHandling.ofBody { keys := k } body attempt).alone now s).1.packets)
    (hnonce : q.header.nonce = b.header.nonce) (hsum : q.header.checksum = b.header.checksum) :
    q = ⟨b.header, payload⟩ := by
  cases hd : Wire.decode Header body with
  | error e =>
    rw [HeaderHandling.alone_of_undecodable hd] at hq
    cases hq
  | ok header =>
    obtain ⟨st, hp, hr⟩ := h.header_handled hcut hd attempt now
    rw [hr] at hq
    rcases ho : ((Reassembler.reassemble { keys := k } { header }).alone now st).1
      with ⟨⟨⟩ | ⟨⟩, o⟩ | text
    · rw [ho] at hq
      cases hq
    · have hrun : (Reassembler.reassemble { keys := k } { header }).run Faults.none now () st =
          (.value (.ok (), o), (), st) :=
        Prod.ext ho
          (Prod.ext rfl ((Reassembler.reassemble_readOnly _ _).run_store Faults.none now () st))
      obtain ⟨whole, ha, -, rfl⟩ := Reassembler.reassemble_ok hrun
      rw [ho] at hq
      obtain rfl : q = ⟨header, whole⟩ := by
        simpa [Outcome.packets, HeaderHandling.packet?] using hq
      -- The header is sound, so its name is that of the batch.
      have hname : header.identity = .ok (b.identityOf payload) := by
        obtain ⟨i, -, hi, -⟩ := ha.slots
        obtain ⟨hv, -⟩ := Header.identity_ok_iff.1 hi
        refine Header.identity_ok_iff.2
          ⟨Header.validate_ok_iff.2 ⟨?_, (Header.validate_ok_iff.1 hv).2⟩, hnonce.symm, rfl⟩
        exact (hsum.trans hcut.checksum_eq).symm
      obtain ⟨rfl, rfl⟩ := hp.eq_of_assembled hcut rfl hname ha
      rfl
    · rw [ho] at hq
      cases hq

end Progress

end FragmentRelay
