import FragmentRelay.Proofs.Pipeline.Log
import FragmentRelay.Proofs.Pipeline.Start

/-!
# Delivery: every payload, once for each of its headers

Fragments and headers of a batch are published any number of times, among other messages, and the
workers of a deployment take turns in any order. The invariant `Delivering` ties the two groups of
the bus, the store and the log together, and every event keeps it: an ingest worker adds the index
of what it handles, and the reassembly worker brings the packet out on the first attempt at which
all indices are there.

* `Delivering.publish`, `Delivering.wait`, `Delivering.work`: one event.
* `exists_delivering`: the invariant after any events.
* `pipeline_delivers`: what it says of the packets, the counter and the messages.
-/

namespace FragmentRelay

open Pipeline

/-! ### The invariant -/

/-- What else is published on the ingest subject: no fragment with the name of the batch that is
genuine and not of the batch, and no two fragments whose keys have one digest. -/
structure Batch.Mixes (b : Batch) (payload : Octets) (k : Keyspace)
    (bodies : List Octets) : Prop where
  other : ∀ body ∈ bodies, ∀ f, Wire.decode Fragment body = .ok f →
    f ∈ b.fragments ∨ ¬ f.Genuine ∨ ¬ f.BelongsTo (b.identityOf payload)
  collisionless : k.Collisionless
    {f | f ∈ b.fragments ∨ f.Genuine ∧ ∃ body ∈ bodies, Wire.decode Fragment body = .ok f}

theorem Batch.Mixes.of_append {b : Batch} {payload : Octets} {k : Keyspace}
    {bodies more : List Octets} (h : b.Mixes payload k (bodies ++ more)) :
    b.Mixes payload k bodies where
  other body hbody := h.other body (List.mem_append_left more hbody)
  collisionless := by
    refine h.collisionless.mono ?_
    rintro f (hf | ⟨hg, body, hbody, hd⟩)
    · exact .inl hf
    · exact .inr ⟨hg, body, List.mem_append_left more hbody, hd⟩

/-- The bytes announce a batch. -/
def Batch.AnnouncedBy (b : Batch) (body : Octets) : Prop := Wire.decode Header body = .ok b.header

/-- The bytes hold a fragment of a batch. -/
def Batch.HeldBy (b : Batch) (body : Octets) : Prop :=
  ∃ f ∈ b.fragments, Wire.decode Fragment body = .ok f

namespace Settings

theorem settleHeader_value (s : Settings) (attempt : Nat) (r : HeaderHandling) :
    s.settleHeader attempt (.value r) = .ack ∨ attempt < s.reassembly.maxDeliveries.toNat := by
  unfold settleHeader HeaderHandling.disposition
  simp only
  split
  · exact .inl rfl
  split
  · exact .inl rfl
  · exact .inl rfl
  · split
    · split
      · exact .inl rfl
      · rename_i hlt
        exact .inr (Nat.lt_of_not_le hlt)
    · exact .inl rfl

theorem settleHeader_of_packets {s : Settings} {attempt : Nat} {a : Outcome HeaderHandling}
    (h : a.packets ≠ []) : s.settleHeader attempt a = .ack := by
  cases a with
  | crashed text => exact absurd rfl h
  | value r =>
    unfold settleHeader
    simp only
    cases hp : r.packet? with
    | none =>
      rw [Outcome.packets, hp] at h
      exact absurd rfl h
    | some p => rfl

end Settings

theorem Outcome.length_packets_le (a : Outcome HeaderHandling) : a.packets.length ≤ 1 := by
  cases a with
  | crashed text => exact Nat.zero_le 1
  | value r => cases hp : r.packet? <;> simp [packets, hp]

/-- How the groups of the bus, the store and the log hang together after some events. -/
structure Delivering (s : Settings) (capacity : Nat) (b : Batch) (payload : Octets)
    (events : List Event) (p : Pipeline) (F H : Bus.Group) (n : Nat) : Prop where
  wired : Wired s capacity p.deployment F H
  fragments : F.Carries (published s.subjects.fragmentIngest events)
  headers : H.Carries (published s.subjects.reassembly events)
  progress : Progress s.keys b (b.identityOf payload)
    (b.delivered (ingested s.crew p.log)) n p.deployment.store
  logged : Logged s b payload (published s.subjects.reassembly events) H.acknowledged p.log
  spared : H.Spares b.AnnouncedBy s.reassembly.maxDeliveries.toNat
  counted : ((published s.subjects.fragmentIngest events).length : Int) ≤ Counter.highest →
    n ≤ F.acknowledged.length ∧ F.Spares b.HeldBy s.ingest.maxDeliveries.toNat

namespace Delivering

variable {s : Settings} {capacity : Nat} {b : Batch} {payload : Octets} {events : List Event}
  {p : Pipeline} {F H : Bus.Group} {n : Nat}

theorem publish (h : Delivering s capacity b payload events p F H n)
    (hone : 1 ≤ s.reassembly.maxDeliveries.toNat) (hone' : 1 ≤ s.ingest.maxDeliveries.toNat)
    (subject : String) (body : Octets) :
    ∃ F' H', Delivering s capacity b payload (events ++ [.publish subject body])
    (p.next (.publish subject body))
      F' H' n := by
  obtain ⟨d', hnext, hstore, hwired⟩ := h.wired.publish subject body p.log
  refine ⟨F.afterPublication s.subjects.fragmentIngest subject body,
    H.afterPublication s.subjects.reassembly subject body, ?_⟩
  rw [show p.next (.publish subject body) = ⟨d', p.log⟩ from hnext]
  refine ⟨hwired, h.fragments.afterPublication, h.headers.afterPublication, ?_, ?_,
    h.spared.afterPublication hone, ?_⟩
  · rw [hstore]
    exact h.progress
  · rw [published_append, Bus.Group.acknowledged_afterPublication]
    exact h.logged.mono _ (List.Subset.refl _)
  · intro hsmall
    rw [published_append, List.length_append] at hsmall
    obtain ⟨hle, hspared⟩ := h.counted (by omega)
    rw [Bus.Group.acknowledged_afterPublication]
    exact ⟨hle, hspared.afterPublication hone'⟩

theorem wait (h : Delivering s capacity b payload events p F H n) (t : Instant) :
    ∃ F' H', Delivering s capacity b payload (events ++ [.wait t]) (p.next (.wait t)) F' H' n := by
  obtain ⟨d', hnext, hstore, hwired⟩ := h.wired.wait t p.log
  refine ⟨F.fire (max p.deployment.now t), H.fire (max p.deployment.now t), ?_⟩
  rw [show p.next (.wait t) = ⟨d', p.log⟩ from hnext]
  refine ⟨hwired, ?_, ?_, ?_, ?_, h.spared.fire h.wired.headers_resting _, fun hsmall => ?_⟩
  · rw [published_append_wait]
    exact h.fragments.fire _
  · rw [published_append_wait]
    exact h.headers.fire _
  · rw [hstore]
    exact h.progress
  · rw [published_append_wait, Bus.Group.acknowledged_fire]
    exact h.logged
  · rw [published_append_wait] at hsmall
    obtain ⟨hle, hspared⟩ := h.counted hsmall
    rw [Bus.Group.acknowledged_fire]
    exact ⟨hle, hspared.fire h.wired.fragments_resting _⟩

/-! ### Steps of workers -/

/-- A step in which no message was taken. -/
theorem nothing (h : Delivering s capacity b payload events p F H n) {d' : Deployment} (i : Nat)
    (hstore : d'.store = p.deployment.store) (hwired : Wired s capacity d' F H) :
    Delivering s capacity b payload (events ++ [.work i])
      ⟨d', p.log ++ [⟨p.deployment.now, i, none, []⟩]⟩ F H n := by
  have hcall : (⟨p.deployment.now, i, none, []⟩ : Handled).call? s.crew = none := by
    simp [Handled.call?]
  refine ⟨hwired, ?_, ?_, ?_, ?_, h.spared, ?_⟩
  · rw [published_append_work]
    exact h.fragments
  · rw [published_append_work]
    exact h.headers
  · rw [ingested_append, hcall, hstore]
    simpa using h.progress
  · rw [published_append_work]
    exact h.logged.silent rfl fun _ => rfl
  · rw [published_append_work]
    exact h.counted

theorem of_fragment (h : Delivering s capacity b payload events p F H n) {i : Nat} (hi : i < s.crew)
    {e : Bus.Envelope} {rest : List Bus.Envelope} (hq : F.queue = e :: rest) {d' : Deployment}
    {disposition : Disposition} {n' : Nat}
    (hwired : Wired s capacity d'
      (F.finish p.deployment.now e rest s.ingest.maxDeliveries.toNat disposition) H)
    (hprogress : Progress s.keys b (b.identityOf payload)
      (b.delivered (ingested s.crew (p.log ++ [⟨p.deployment.now, i, some e, []⟩]))) n' d'.store)
    (hcounted : ((published s.subjects.fragmentIngest events).length : Int) ≤ Counter.highest →
      n' ≤ (F.finish p.deployment.now e rest s.ingest.maxDeliveries.toNat
        disposition).acknowledged.length ∧ (b.HeldBy e.body → disposition = .ack)) :
    Delivering s capacity b payload (events ++ [.work i])
      ⟨d', p.log ++ [⟨p.deployment.now, i, some e, []⟩]⟩
      (F.finish p.deployment.now e rest s.ingest.maxDeliveries.toNat disposition) H n' := by
  refine ⟨hwired, ?_, ?_, hprogress, ?_, h.spared, ?_⟩
  · rw [published_append_work]
    exact h.fragments.finish hq _ _ _
  · rw [published_append_work]
    exact h.headers
  · rw [published_append_work]
    exact h.logged.silent rfl fun hw => absurd hw (Nat.ne_of_lt hi)
  · intro hsmall
    rw [published_append_work] at hsmall
    obtain ⟨hle, hack⟩ := hcounted hsmall
    exact ⟨hle, (h.counted hsmall).2.finish hq _ fun hheld => .inl (hack hheld)⟩

theorem fragment_own (h : Delivering s capacity b payload events p F H n) (hcut : b.Cut payload)
    (hmix : b.Mixes payload s.keys (published s.subjects.fragmentIngest events)) {i : Nat}
    (hi : i < s.crew) {e : Bus.Envelope} {rest : List Bus.Envelope} (hq : F.queue = e :: rest)
    (hheld : b.HeldBy e.body) {d' : Deployment}
    (hstore : d'.store = (s.ingestMessage p.deployment.now p.deployment.store e).2)
    (hwired : Wired s capacity d' (F.finish p.deployment.now e rest s.ingest.maxDeliveries.toNat
      (s.settleFragment (s.ingestMessage p.deployment.now p.deployment.store e).1)) H) :
    ∃ F' n', Delivering s capacity b payload (events ++ [.work i])
      ⟨d', p.log ++ [⟨p.deployment.now, i, some e, []⟩]⟩ F' H n' := by
  obtain ⟨f, hf, hd⟩ := hheld
  obtain ⟨r, s', hr, hp, hok⟩ :=
    h.progress.handle_own hcut hmix.collisionless (fun f hf => .inl hf) hd hf
    p.deployment.now
  rw [Settings.ingestMessage, hr] at hstore hwired
  have hprogress : Progress s.keys b (b.identityOf payload)
      (b.delivered (ingested s.crew (p.log ++ [⟨p.deployment.now, i, some e, []⟩])))
      (n + 1) d'.store := by
    rw [ingested_append, Handled.call?_of_decode hi hd, Option.toList_some,
      Batch.delivered_append_of_mem hf, hstore]
    exact hp
  refine ⟨_, n + 1, h.of_fragment hi hq hwired hprogress fun hsmall => ?_⟩
  -- One message is still queued, so fewer are acknowledged than were published.
  have hle := (h.counted hsmall).1
  have hlen := h.fragments.length_eq
  rw [hq, List.length_cons] at hlen
  obtain ⟨a, rfl⟩ := hok (by omega)
  exact ⟨Nat.succ_le_succ hle, fun _ => rfl⟩

theorem fragment_other (h : Delivering s capacity b payload events p F H n) (hcut : b.Cut payload)
    (hmix : b.Mixes payload s.keys (published s.subjects.fragmentIngest events)) {i : Nat}
    (hi : i < s.crew) {e : Bus.Envelope} {rest : List Bus.Envelope} (hq : F.queue = e :: rest)
    (hheld : ¬ b.HeldBy e.body) {d' : Deployment}
    (hstore : d'.store = (s.ingestMessage p.deployment.now p.deployment.store e).2)
    (hwired : Wired s capacity d' (F.finish p.deployment.now e rest s.ingest.maxDeliveries.toNat
      (s.settleFragment (s.ingestMessage p.deployment.now p.deployment.store e).1)) H) :
    ∃ F' n', Delivering s capacity b payload (events ++ [.work i])
      ⟨d', p.log ++ [⟨p.deployment.now, i, some e, []⟩]⟩ F' H n' := by
  have hmem : e ∈ F.places := by simp [Bus.Group.places, hq]
  have hbody := List.mem_of_getElem? (h.fragments.getElem?_of_mem hmem)
  have hnot : ∀ f, Wire.decode Fragment e.body = .ok f →
    f ∉ b.fragments := fun f hd hf => hheld ⟨f, hf, hd⟩
  have hother : ∀ f, Wire.decode Fragment e.body = .ok f → f.Genuine →
      (f ∈ b.fragments ∨ f.Genuine ∧ ∃ body ∈ published s.subjects.fragmentIngest events,
        Wire.decode Fragment body = .ok f) ∧ ¬ f.BelongsTo (b.identityOf payload) := by
    intro f hd hgen
    rcases hmix.other e.body hbody f hd with hf | hng | hnb
    · exact absurd hf (hnot f hd)
    · exact absurd hgen hng
    · exact ⟨.inr ⟨hgen, e.body, hbody, hd⟩, hnb⟩
  have hp := h.progress.handle_other hcut hmix.collisionless
    (fun f hf => .inl hf) e.body hother p.deployment.now
  have hprogress : Progress s.keys b (b.identityOf payload)
      (b.delivered (ingested s.crew (p.log ++ [⟨p.deployment.now, i, some e, []⟩])))
        n d'.store := by
    rw [ingested_append, hstore]
    cases hd : Wire.decode Fragment e.body with
    | error fault =>
      rw [Handled.call?_of_undecodable hd, Option.toList_none, List.append_nil]
      exact hp
    | ok f =>
      rw [Handled.call?_of_decode hi hd, Option.toList_some,
        Batch.delivered_append_of_not_mem (hnot f hd)]
      exact hp
  refine ⟨_, n, h.of_fragment hi hq hwired hprogress fun hsmall => ⟨?_, fun hk => absurd hk hheld⟩⟩
  exact (h.counted hsmall).1.trans (F.acknowledged_sublist_finish _ e rest _ _).length_le

/-- The reassembly worker handles a message. -/
theorem header (h : Delivering s capacity b payload events p F H n) (hcut : b.Cut payload)
    {e : Bus.Envelope} {rest : List Bus.Envelope} (hq : H.queue = e :: rest) {d' : Deployment}
    (hstore : d'.store = (s.tryMessage p.deployment.now p.deployment.store e).2)
    (hwired : Wired s capacity d' F (H.finish p.deployment.now e rest
      s.reassembly.maxDeliveries.toNat
      (s.settleHeader e.attempt (s.tryMessage p.deployment.now p.deployment.store e).1))) :
    ∃ H', Delivering s capacity b payload (events ++ [.work s.crew])
      ⟨d', p.log ++ [⟨p.deployment.now, s.crew, some e,
        (s.tryMessage p.deployment.now p.deployment.store e).1.packets⟩]⟩ F H' n := by
  have hmem : e ∈ H.queue := hq ▸ List.mem_cons_self
  have hkept := h.progress.header_kept hcut e.body e.attempt p.deployment.now
  have hexact := h.progress.packet_eq hcut e.body e.attempt p.deployment.now
  have hown := fun hd : b.AnnouncedBy e.body =>
    h.progress.header_own hcut hd e.attempt p.deployment.now
  rw [Settings.tryMessage] at hstore hwired ⊢
  rw [← hstore] at hkept
  generalize ((HeaderHandling.ofBody { keys := s.keys } e.body e.attempt).alone p.deployment.now
    p.deployment.store).1 =
    r at hwired hexact hown ⊢
  refine ⟨_, hwired, ?_, ?_, ?_, ?_, ?_, ?_⟩
  · rw [published_append_work]
    exact h.fragments
  · rw [published_append_work]
    exact h.headers.finish hq _ _ _
  · have hcall : (⟨p.deployment.now, s.crew, some e, r.packets⟩ : Handled).call? s.crew = none := by
      simp [Handled.call?]
    rw [ingested_append, hcall]
    simpa using hkept
  · rw [published_append_work]
    refine h.logged.header (H.acknowledged_sublist_finish _ e rest _ _).subset rfl rfl
      (h.headers.getElem?_of_mem (by simp [Bus.Group.places, hmem]))
      (fun a ha => h.headers.serial_ne hmem ha)
      r.length_packets_le (fun hne => ?_) hexact fun hd => ?_
    · rw [Settings.settleHeader_of_packets hne]
      exact List.mem_cons_self
    · obtain ⟨v, rfl, hpacket⟩ := hown hd
      exact hpacket
  · refine h.spared.finish hq _ fun hd => ?_
    obtain ⟨v, rfl, -⟩ := hown hd
    exact s.settleHeader_value e.attempt v
  · rw [published_append_work]
    exact h.counted

theorem work (h : Delivering s capacity b payload events p F H n) (hcut : b.Cut payload)
    (hmix : b.Mixes payload s.keys (published s.subjects.fragmentIngest events))
    (hcap : 0 < capacity) (hne : s.subjects.reassembly ≠ s.subjects.fragmentIngest) (i : Nat) :
    ∃ F' H' n', Delivering s capacity b payload (events ++ [.work i])
    (p.next (.work i)) F' H' n' := by
  obtain ⟨x, d', hnext, hworked⟩ := h.wired.work hcap hne i p.log
  rw [show p.next (.work i) = ⟨d', p.log ++ [x]⟩ from hnext]
  cases hworked with
  | nothing _ hstore hwired => exact ⟨F, H, n, h.nothing i hstore hwired⟩
  | fragment e rest _ hi hq hstore hwired =>
    by_cases hheld : b.HeldBy e.body
    · obtain ⟨F', n', h'⟩ := h.fragment_own hcut hmix hi hq hheld hstore hwired
      exact ⟨F', H, n', h'⟩
    · obtain ⟨F', n', h'⟩ := h.fragment_other hcut hmix hi hq hheld hstore hwired
      exact ⟨F', H, n', h'⟩
  | header e rest _ hi hq hstore hwired =>
    subst hi
    obtain ⟨H', h'⟩ := h.header hcut hq hstore hwired
    exact ⟨F, H', n, h'⟩

end Delivering

/-! ### Whole runs -/

section Session

variable {s : Settings} {capacity : Nat} {d : Deployment} {b : Batch} {payload : Octets}

/-- **The groups, the store and the log hang together after any events.** -/
theorem exists_delivering (hvalid : s.Valid) (hdedupe : s.ingest.dedupe = true)
    (httl : s.ttlSecs = none) (hcap : 0 < capacity) (hstart : s.Starts capacity d)
    (hcut : b.Cut payload) (events : List Event)
    (hmix : b.Mixes payload s.keys (published s.subjects.fragmentIngest events)) :
    ∃ F H n, Delivering s capacity b payload events (run d events) F H n := by
  induction events using List.reverseRecOn with
  | nil =>
    obtain ⟨hwired, hstore⟩ := hstart.wired hvalid httl hdedupe
    refine ⟨_, _, 0, hwired, ⟨rfl, List.Perm.refl _⟩, ⟨rfl, List.Perm.refl _⟩, ?_,
      Logged.empty s b payload, Bus.Group.Spares.empty _ _ _,
      fun _ => ⟨Nat.zero_le _, Bus.Group.Spares.empty _ _ _⟩⟩
    change Progress s.keys b (b.identityOf payload) (b.delivered []) 0 d.store
    rw [hstore]
    exact Progress.empty s.keys b _
  | append_singleton events e ih =>
    rw [published_append] at hmix
    obtain ⟨F, H, n, h⟩ := ih hmix.of_append
    rw [run_append_singleton]
    cases e with
    | publish subject body =>
      obtain ⟨F', H', h'⟩ :=
        h.publish hvalid.reassembly_deliveries hvalid.ingest_deliveries subject body
      exact ⟨F', H', n, h'⟩
    | work i => exact h.work hcut hmix.of_append hcap hvalid.subjects_ne i
    | wait t =>
      obtain ⟨F', H', h'⟩ := h.wait t
      exact ⟨F', H', n, h'⟩

end Session

theorem Bus.exists_group_of_view {bus : Bus} {topic group : String} {g : Group}
    (h : bus.view topic group = some g) : ∃ g', bus.group? topic group = some g' ∧ g'.calm = g := by
  rwa [view, Option.map_eq_some_iff] at h

/-- **A deployment delivers exactly the payload, once for each header**, in whatever order
messages are published on both subjects, workers take turns and time passes. No message is lost,
and no header dies. -/
theorem pipeline_delivers {s : Settings} (hvalid : s.validate = .ok ())
    (hdedupe : s.ingest.dedupe = true) (httl : s.ttlSecs = none) {capacity : Nat}
    (hcap : 0 < capacity) {d : Deployment} (hstart : s.Starts capacity d) {nonce : UInt64}
    {payload : Octets} {b : Batch} (hb : Batch.ofPayload s.chunkSize.toNat nonce payload = .ok b)
    (events : List Event)
    (hmix : b.Mixes payload s.keys (published s.subjects.fragmentIngest events)) :
    let p := run d events
    let packet : Packet := ⟨b.header, payload⟩
    p.deployment.store.countOf (s.keys.countKey (b.identityOf payload)) ≤
      b.header.cardinality.toNat ∧
    (∀ x ∈ p.log, ∀ q ∈ x.packets, q.header.nonce = nonce →
      q.header.checksum = (Checksum.compute payload).octets → q = packet) ∧
    (∀ x ∈ p.log, x.packets ≠ [] →
      x.worker = s.crew ∧ ∃ e, x.envelope = some e ∧
        (published s.subjects.reassembly events)[e.serial]? = some e.body) ∧
    (∀ n, (causedBy s.crew n p.log).length ≤ 1) ∧
    (∀ j x e, p.log[j]? = some x → x.worker = s.crew → x.envelope = some e → b.AnnouncedBy e.body →
      (b.AllHandled s.crew (p.log.take j) → x.packets = [packet]) ∧
      (¬ b.AllHandled s.crew (p.log.take j) → x.packets = [])) ∧
    (∃ g, p.deployment.bus.group? s.subjects.reassembly s.reassembly.queueGroup = some g ∧
      g.Carries (published s.subjects.reassembly events) ∧ ∀ e ∈ g.dead, ¬ b.AnnouncedBy e.body) ∧
    (∃ g, p.deployment.bus.group? s.subjects.fragmentIngest s.ingest.queueGroup = some g ∧
      g.Carries (published s.subjects.fragmentIngest events) ∧
      (((published s.subjects.fragmentIngest events).length : Int) ≤ Counter.highest →
        ∀ e ∈ g.dead, ¬ b.HeldBy e.body)) := by
  have hsettings := Settings.valid_of_validate hvalid
  obtain ⟨hcut, hnonce⟩ := Batch.cut_of_ofPayload hsettings.chunk_pos hsettings.chunk_le hb
  obtain ⟨F, H, n, h⟩ := exists_delivering hsettings hdedupe httl hcap hstart hcut events hmix
  refine ⟨?_, fun x hx q hq hn hc => ?_, h.logged.source, h.logged.once,
    fun j x e hj hw he hd => ?_, ?_, ?_⟩
  · have hsmall := Counter.card_lt_highest (b.delivered (ingested s.crew (run d events).log))
    rw [h.progress.counter.countOf_eq (by omega)]
    exact_mod_cast h.progress.card_le hcut
  · exact h.logged.exact x hx q hq (hn.trans hnonce.symm) (hc.trans hcut.checksum_eq.symm)
  · rw [h.logged.attempt j x e hj hw he hd, ← hcut.delivered_eq_iff]
    exact ⟨fun hall => if_pos hall, fun hnot => if_neg hnot⟩
  · obtain ⟨g, hg, rfl⟩ := Bus.exists_group_of_view h.wired.headers_eq
    exact ⟨g, hg, ⟨h.headers.handed_eq, h.headers.contents_perm⟩, h.spared.dead⟩
  · obtain ⟨g, hg, rfl⟩ := Bus.exists_group_of_view h.wired.fragments_eq
    exact ⟨g, hg, ⟨h.fragments.handed_eq, h.fragments.contents_perm⟩, fun hsmall =>
      (h.counted hsmall).2.dead⟩

/-- Settings with two ingest workers and chunks of two bytes. -/
def smallSettings : Settings := { keyspace := "relay", chunkSize := 2, ingest := { workers := 2 } }

/-- The deployment of these settings. -/
def smallDeployment : Deployment :=
  (((Deployment.initial smallSettings.keys smallSettings.ttl
    smallSettings.ingest.dedupe).startIngestWorkers .bus
    smallSettings.subjects.fragmentIngest smallSettings.ingest).2.startReassemblyWorker .bus
      smallSettings.subjects.reassembly smallSettings.reassembly 1).2

theorem smallDeployment_starts : smallSettings.Starts 1 smallDeployment := by
  refine ⟨_, Prod.ext ?_ rfl, Prod.ext ?_ rfl⟩
  · decide +kernel
  · decide +kernel

/-- The header of a batch is tried before its fragments arrive, among others, and again a second
later. -/
def smallEvents : List Event :=
  [.publish smallSettings.subjects.reassembly (Wire.encode Batch.smallBatch.header), .work 2,
    .publish smallSettings.subjects.fragmentIngest [9]] ++
  mixedCalls.map (fun c => .publish smallSettings.subjects.fragmentIngest (Wire.encode c.2)) ++
  [.work 0, .work 1, .work 0, .work 1, .work 0, .work 1, .wait 1000000000, .work 2]

theorem smallEvents_mix :
    Batch.smallBatch.Mixes [1, 2, 3] smallSettings.keys
      (published smallSettings.subjects.fragmentIngest smallEvents) := by
  have hbodies : published smallSettings.subjects.fragmentIngest smallEvents =
      [9] :: mixedCalls.map fun c => Wire.encode c.2 := by decide +kernel
  have hcall : ∀ body ∈ published smallSettings.subjects.fragmentIngest smallEvents, ∀ f,
      Wire.decode Fragment body = .ok f → ∃ c ∈ mixedCalls, c.2 = f := by
    intro body hbody f hd
    rw [hbodies, List.mem_cons, List.mem_map] at hbody
    rcases hbody with rfl | ⟨c, hc, rfl⟩
    · have hnine : ∃ e, Wire.decode Fragment [9] = .error e := ⟨_, rfl⟩
      obtain ⟨e, he⟩ := hnine
      rw [he] at hd
      cases hd
    · have hshort : ∀ c ∈ mixedCalls, c.2.claimed ≤ Wire.maxRecordLength := by decide +kernel
      rw [Wire.decode_encode_fragment (hshort c hc)] at hd
      exact ⟨c, hc, Except.ok.inj hd⟩
  refine ⟨fun body hbody f hd => ?_, mixedCalls_collisionless.mono ?_⟩
  · obtain ⟨c, hc, rfl⟩ := hcall body hbody f hd
    exact mixedCalls_admitted c hc
  · rintro f (hf | ⟨hg, body, hbody, hd⟩)
    · exact .inl hf
    · exact .inr ⟨hg, hcall body hbody f hd⟩

/-- The two ingest workers take the fragments in turn, and the header is tried before and after. -/
def smallLog : List Handled :=
  [⟨0, 2, some ⟨0, Wire.encode Batch.smallBatch.header, 1⟩, []⟩, ⟨0, 0, some ⟨0, [9], 1⟩, []⟩] ++
  (mixedCalls.zipIdx 1).map (fun (c, n) => ⟨0, n % 2, some ⟨n, Wire.encode c.2, 1⟩, []⟩) ++
  [⟨1000000000, 2, some ⟨0, Wire.encode Batch.smallBatch.header, 2⟩,
    [⟨Batch.smallBatch.header, [1, 2, 3]⟩]⟩]

theorem log_smallEvents : (run smallDeployment smallEvents).log = smallLog := by decide +kernel

theorem smallEvents_delivered : ∃ x, (run smallDeployment smallEvents).log[7]? = some x ∧
    x.packets = [⟨Batch.smallBatch.header, [1, 2, 3]⟩] := by
  have hlast : (run smallDeployment smallEvents).log[7]? = some ⟨1000000000, 2,
      some ⟨0, Wire.encode Batch.smallBatch.header, 2⟩,
      [⟨Batch.smallBatch.header, [1, 2, 3]⟩]⟩ := by
    rw [log_smallEvents]
    rfl
  have hall : Batch.smallBatch.AllHandled 2 ((run smallDeployment smallEvents).log.take 7) := by
    rw [log_smallEvents]
    exact (Batch.smallBatch_cut.delivered_eq_iff _ _).1 (by decide +kernel)
  have hb : Batch.ofPayload smallSettings.chunkSize.toNat 5 [1, 2, 3] = .ok Batch.smallBatch := rfl
  have h :=
    pipeline_delivers (by decide +kernel) rfl rfl Nat.one_pos smallDeployment_starts hb smallEvents
    smallEvents_mix
  exact ⟨_, hlast,
    (h.2.2.2.2.1 7 _ _ hlast rfl rfl Batch.smallBatch_cut.decode_encode_header).1 hall⟩

end FragmentRelay
