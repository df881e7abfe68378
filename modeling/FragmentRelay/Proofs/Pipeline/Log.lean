import FragmentRelay.Proofs.Pipeline.Run

/-!
# Log: what the steps of the workers add up to

The log of a run tells which fragments the ingest workers handled and which packets came out for
which message. `Logged` says that packets come out for published messages of the reassembly subject
only, at most one for each, that those with the name of a batch are its payload under its header,
and that an attempt of the header brings one out exactly if all indices have been handled.

* `Batch.Cut.delivered_eq_iff`: all indices have been handled.
* `Logged.silent`, `Logged.header`: what one more step adds.
-/

namespace FragmentRelay

/-! ### What the log tells -/

/-- The ingestion call that a step made, if it was one of an ingest worker. -/
def Handled.call? (x : Handled) (crew : Nat) : Option Call :=
  if x.worker < crew then x.envelope.bind fun e =>
    (Wire.decode Fragment e.body).toOption.map fun f => (x.instant, f)
  else none

namespace Handled

variable {crew i : Nat} {now : Instant} {e : Bus.Envelope} {f : Fragment} {packets : List Packet}

theorem call?_of_decode (hi : i < crew) (hd : Wire.decode Fragment e.body = .ok f) :
    (⟨now, i, some e, packets⟩ : Handled).call? crew = some (now, f) := by
  simp [call?, hi, hd, Except.toOption]

theorem call?_of_undecodable {fault : Wire.Fault}
    (hd : Wire.decode Fragment e.body = .error fault) :
    (⟨now, i, some e, packets⟩ : Handled).call? crew = none := by
  simp [call?, hd, Except.toOption]

theorem call?_eq_some_iff {x : Handled} :
    (∃ now, x.call? crew = some (now, f)) ↔
      x.worker < crew ∧ ∃ e, x.envelope = some e ∧ Wire.decode Fragment e.body = .ok f := by
  unfold call?
  split
  · rename_i hw
    cases x.envelope with
    | none => simp
    | some e => cases hd : Wire.decode Fragment e.body <;> simp [hd, hw, Except.toOption]
  · rename_i hw
    simp [hw]

end Handled

namespace Pipeline

/-- The ingestion calls of the ingest workers. -/
def ingested (crew : Nat) (log : List Handled) : List Call := log.filterMap fun x => x.call? crew

/-- The packets that came out when the reassembly worker had the message with a serial number. -/
def causedBy (crew n : Nat) (log : List Handled) : List Packet :=
  (log.filter fun x => x.worker = crew ∧ x.envelope.map (·.serial) = some n).flatMap (·.packets)

theorem ingested_append (crew : Nat) (log : List Handled) (x : Handled) :
    ingested crew (log ++ [x]) = ingested crew log ++ (x.call? crew).toList := by
  simp only [ingested, List.filterMap_append]
  cases hx : x.call? crew <;> simp [hx]

theorem causedBy_append (crew n : Nat) (log : List Handled) (x : Handled) :
    causedBy crew n (log ++ [x]) =
      causedBy crew n log ++ if x.worker = crew ∧ x.envelope.map (·.serial) = some n
        then x.packets else [] := by
  rw [causedBy, causedBy, List.filter_append, List.flatMap_append]
  congr 1
  by_cases h : x.worker = crew ∧ x.envelope.map (·.serial) = some n
  · rw [if_pos h, List.filter_cons_of_pos (by rwa [decide_eq_true_eq])]
    simp
  · rw [if_neg h, List.filter_cons_of_neg (by rwa [decide_eq_true_eq])]
    simp

end Pipeline

open Pipeline

/-- Every fragment of a batch was handled by an ingest worker. -/
def Batch.AllHandled (b : Batch) (crew : Nat) (log : List Handled) : Prop :=
  ∀ f ∈ b.fragments, ∃ x ∈ log, x.worker < crew ∧ ∃ e, x.envelope = some e ∧
    Wire.decode Fragment e.body = .ok f

theorem Batch.Cut.delivered_eq_iff {b : Batch} {payload : Octets}
    (hcut : b.Cut payload) (crew : Nat) (log : List Handled) :
    b.delivered (ingested crew log) = b.indices ↔ b.AllHandled crew log := by
  have hmem : ∀ f ∈ b.fragments, f.index ∈ b.delivered (ingested crew log) ↔
      ∃ x ∈ log, x.worker < crew ∧ ∃ e, x.envelope = some e ∧
        Wire.decode Fragment e.body = .ok f := by
    intro f hf
    simp only [delivered, ingested, List.mem_toFinset, List.mem_map, List.mem_filter,
      List.mem_filterMap, decide_eq_true_eq]
    constructor
    · rintro ⟨⟨now, g⟩, ⟨⟨x, hx, hcall⟩, hg⟩, he⟩
      obtain rfl := hcut.eq_of_index hg hf he
      exact ⟨x, hx, Handled.call?_eq_some_iff.1 ⟨now, hcall⟩⟩
    · rintro ⟨x, hx, hhandled⟩
      obtain ⟨now, hcall⟩ := Handled.call?_eq_some_iff.2 hhandled
      exact ⟨(now, f), ⟨⟨x, hx, hcall⟩, hf⟩, rfl⟩
  constructor
  · intro heq f hf
    exact (hmem f hf).1 (heq ▸ index_mem_indices hf)
  · intro hall
    refine Finset.Subset.antisymm delivered_subset fun x hx => ?_
    obtain ⟨f, hf, rfl⟩ := mem_indices.1 hx
    exact (hmem f hf).2 (hall f hf)

/-- What the log of a run says, where some messages were published for the reassembly worker and
some of them are acknowledged. -/
structure Logged (s : Settings) (b : Batch) (payload : Octets) (bodies : List Octets)
    (acknowledged : List Bus.Envelope) (log : List Handled) : Prop where
  source : ∀ x ∈ log, x.packets ≠ [] →
    x.worker = s.crew ∧ ∃ e, x.envelope = some e ∧ bodies[e.serial]? = some e.body
  once : ∀ n, (causedBy s.crew n log).length ≤ 1
  settled : ∀ n, causedBy s.crew n log ≠ [] → ∃ e ∈ acknowledged, e.serial = n
  exact : ∀ x ∈ log, ∀ q ∈ x.packets, q.header.nonce = b.header.nonce →
    q.header.checksum = b.header.checksum →
    q = ⟨b.header, payload⟩
  attempt : ∀ j x e, log[j]? = some x → x.worker = s.crew → x.envelope = some e →
    Wire.decode Header e.body = .ok b.header →
    x.packets = if b.delivered (ingested s.crew (log.take j)) = b.indices
      then [⟨b.header, payload⟩] else []

namespace Logged

variable {s : Settings} {b : Batch} {payload : Octets} {bodies : List Octets}
  {acknowledged : List Bus.Envelope} {log : List Handled} {x : Handled}

theorem empty (s : Settings) (b : Batch) (payload : Octets) : Logged s b payload [] [] [] where
  source _ hx := absurd hx List.not_mem_nil
  once _ := Nat.zero_le _
  settled _ h := absurd rfl h
  exact _ hx := absurd hx List.not_mem_nil
  attempt j x e hj := by simp at hj

/-- More is published, and more is acknowledged. -/
theorem mono (h : Logged s b payload bodies acknowledged log) (more : List Octets)
    {acknowledged' : List Bus.Envelope} (hsub : acknowledged ⊆ acknowledged') :
    Logged s b payload (bodies ++ more) acknowledged' log where
  source x hx hp := by
    obtain ⟨hw, e, he, hb⟩ := h.source x hx hp
    exact ⟨hw, e, he, List.getElem?_append_left (List.getElem?_eq_some_iff.1 hb).1 ▸ hb⟩
  once := h.once
  settled n hn := by
    obtain ⟨e, he, hs⟩ := h.settled n hn
    exact ⟨e, hsub he, hs⟩
  exact := h.exact
  attempt := h.attempt

theorem attempt_append (h : Logged s b payload bodies acknowledged log)
    (hx : ∀ e, x.worker = s.crew → x.envelope = some e → Wire.decode Header e.body = .ok b.header →
      x.packets = if b.delivered (ingested s.crew log) = b.indices
        then [⟨b.header, payload⟩] else [])
    (j : Nat) (y : Handled) (e : Bus.Envelope) (hj : (log ++ [x])[j]? = some y)
    (hw : y.worker = s.crew) (he : y.envelope = some e)
    (hd : Wire.decode Header e.body = .ok b.header) :
    y.packets =
      if b.delivered (ingested s.crew ((log ++ [x]).take j)) = b.indices
        then [⟨b.header, payload⟩] else [] := by
  rcases Nat.lt_or_ge j log.length with hlt | hge
  · rw [List.getElem?_append_left hlt] at hj
    rw [List.take_append_of_le_length (Nat.le_of_lt hlt)]
    exact h.attempt j y e hj hw he hd
  · have hlen := (List.getElem?_eq_some_iff.1 hj).1
    rw [List.length_append, List.length_singleton] at hlen
    obtain rfl : j = log.length := by omega
    rw [List.getElem?_append_right (Nat.le_refl _), Nat.sub_self] at hj
    cases hj
    rw [List.take_left]
    exact hx e hw he hd

/-- A step that brings no packet out, and takes no message of the reassembly subject. -/
theorem silent (h : Logged s b payload bodies acknowledged log) (hp : x.packets = [])
    (he : x.worker = s.crew → x.envelope = none) :
    Logged s b payload bodies acknowledged (log ++ [x]) := by
  have hcaused : ∀ n, causedBy s.crew n (log ++ [x]) = causedBy s.crew n log := by
    intro n
    rw [causedBy_append, hp, ite_self, List.append_nil]
  refine ⟨fun y hy hne => ?_, fun n => ?_, fun n hn => ?_, fun y hy q hq => ?_,
    h.attempt_append fun e hw hx => ?_⟩
  · rcases List.mem_append.1 hy with hy | hy
    · exact h.source y hy hne
    · rw [List.mem_singleton.1 hy] at hne
      exact absurd hp hne
  · rw [hcaused]
    exact h.once n
  · rw [hcaused] at hn
    exact h.settled n hn
  · rcases List.mem_append.1 hy with hy | hy
    · exact h.exact y hy q hq
    · rw [List.mem_singleton.1 hy, hp] at hq
      exact absurd hq List.not_mem_nil
  · rw [he hw] at hx
    cases hx

/-- A step that takes a message of the reassembly subject. -/
theorem header (h : Logged s b payload bodies acknowledged log) {e : Bus.Envelope}
    {acknowledged' : List Bus.Envelope} (hsub : acknowledged ⊆ acknowledged')
    (hw : x.worker = s.crew) (he : x.envelope = some e) (hbody : bodies[e.serial]? = some e.body)
    (hfresh : ∀ a ∈ acknowledged, a.serial ≠ e.serial) (hone : x.packets.length ≤ 1)
    (hack : x.packets ≠ [] → e ∈ acknowledged')
    (hexact : ∀ q ∈ x.packets, q.header.nonce = b.header.nonce →
      q.header.checksum = b.header.checksum →
      q = ⟨b.header, payload⟩)
    (hattempt : Wire.decode Header e.body = .ok b.header →
      x.packets = if b.delivered (ingested s.crew log) = b.indices
        then [⟨b.header, payload⟩] else []) :
    Logged s b payload bodies acknowledged' (log ++ [x]) := by
  have hself : ∀ n, (x.worker = s.crew ∧ x.envelope.map (·.serial) = some n) ↔ e.serial = n := by
    intro n
    simp [hw, he]
  -- The message is not acknowledged yet, so it has not brought a packet out.
  have hnone : causedBy s.crew e.serial log = [] := by
    by_contra hne
    obtain ⟨a, ha, hs⟩ := h.settled _ hne
    exact hfresh a ha hs
  refine ⟨fun y hy hne => ?_, fun n => ?_, fun n hn => ?_, fun y hy q hq => ?_,
    h.attempt_append fun e' hw' hx hd => ?_⟩
  · rcases List.mem_append.1 hy with hy | hy
    · exact h.source y hy hne
    · rw [List.mem_singleton.1 hy]
      exact ⟨hw, e, he, hbody⟩
  · rw [causedBy_append]
    simp only [hself]
    by_cases hn : e.serial = n
    · subst hn
      simpa [hnone] using hone
    · simpa [hn] using h.once n
  · rw [causedBy_append] at hn
    simp only [hself] at hn
    by_cases hs : e.serial = n
    · subst hs
      rw [if_pos rfl, hnone, List.nil_append] at hn
      exact ⟨e, hack hn, rfl⟩
    · rw [if_neg hs, List.append_nil] at hn
      obtain ⟨a, ha, hs⟩ := h.settled n hn
      exact ⟨a, hsub ha, hs⟩
  · rcases List.mem_append.1 hy with hy | hy
    · exact h.exact y hy q hq
    · rw [List.mem_singleton.1 hy] at hq
      exact hexact q hq
  · rw [he] at hx
    cases hx
    exact hattempt hd

end Logged

end FragmentRelay
