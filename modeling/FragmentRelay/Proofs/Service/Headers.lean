import FragmentRelay.Proofs.Service.Isolation
import FragmentRelay.Proofs.Service.Logbook
import FragmentRelay.Proofs.Store.Deadlines

/-!
# Headers: what was cached last is what is read

Headers share their store with the counters, markers and records of all operations. The key of a
header differs from every other in its end, so whatever else a service does leaves the cached
headers alone, and caching a header leaves alone all that is not one. The key names nonce and
checksum, so no header replaces that of another operation; and nothing but a sound header is ever
written under it, so what is read there can be decoded.

* `Reassembler.cacheHeader_ok_iff`, `Reassembler.find?_headerKey_cacheHeader`: caching one header.
* `Service.find?_headerKey_perform`, `Service.find?_headerKey_serve`: what one demand and what all
  demands leave under the key of a header.
* `Service.latest_header_cached`: what is read after any demands.
-/

namespace FragmentRelay

/-! ### Keys of headers -/

namespace Keyspace

variable {k : Keyspace} {i j : Identity}

/-- The texts under the keys of two headers do not collide. -/
def TellsApart (k : Keyspace) (j i : Identity) : Prop :=
  digest (k.subject j .header) = digest (k.subject i .header) →
  k.subject j .header = k.subject i .header

/-- The key of a header names nonce and checksum, where digests tell the two texts apart. -/
theorem headerKey_eq_iff (hdigest : k.TellsApart j i) :
    k.headerKey j = k.headerKey i ↔ j.nonce = i.nonce ∧ j.checksum = i.checksum := by
  rw [headerKey, headerKey, derive_inj]
  constructor
  · rintro ⟨-, hd⟩
    obtain ⟨-, hn, hc, -⟩ := subject_eq_iff.1 (hdigest hd)
    exact ⟨hn, hc⟩
  · rintro ⟨hn, hc⟩
    exact ⟨rfl, congrArg digest (subject_eq_iff.2 ⟨rfl, hn, hc, nofun⟩)⟩

end Keyspace

/-! ### Single headers -/

namespace Header

variable {h : Header}

theorem identity_of_length_ne (hlength : h.checksum.length ≠ Checksum.size) :
    h.identity = .error (.checksumLength .header ⟨h.checksum.length⟩) := by
  rw [identity, validate, Checksum.ofRole?, Checksum.ofOctets?_error hlength]

theorem identity_of_cardinality_zero (hlength : h.checksum.length = Checksum.size)
    (hcard : h.cardinality = 0) : h.identity = .error .zeroCardinality := by
  rw [identity, validate, Checksum.ofRole?, Checksum.ofOctets?, dif_pos hlength]
  simp only [hcard, if_true]

theorem exists_identity (hlength : h.checksum.length = Checksum.size) (hcard : h.cardinality ≠ 0) :
    ∃ i, h.identity = .ok i ∧ i.nonce = h.nonce ∧ i.checksum.octets = h.checksum :=
  ⟨{ nonce := h.nonce, checksum := ⟨h.checksum, hlength⟩ },
    identity_ok_iff.2 ⟨validate_ok_iff.2 ⟨rfl, hcard⟩, rfl, rfl⟩, rfl, rfl⟩

/-- The key of a sound header is that of an identity exactly if the header carries its nonce and its
checksum. -/
theorem headerKey_eq_iff {k : Keyspace} {i j : Identity} (hj : h.identity = .ok j)
    (hdigest : k.TellsApart j i) :
    k.headerKey j = k.headerKey i ↔ h.nonce = i.nonce ∧ h.checksum = i.checksum.octets := by
  obtain ⟨hv, hn, -⟩ := identity_ok_iff.1 hj
  rw [Keyspace.headerKey_eq_iff hdigest, hn, ← (validate_ok_iff.1 hv).1, and_congr_right_iff]
  exact fun _ => ⟨fun he => congrArg Checksum.octets he, Checksum.ext_octets⟩

end Header

namespace Reassembler

variable {m : Reassembler} {h : Header} {i : Identity} {now : Instant} {s s' : Store}

theorem cacheHeader_of_error {d : Defect} (hd : h.identity = .error d) :
    m.cacheHeader h = .done (.error (.malformed d)) := by
  rw [cacheHeader, hd]
  rfl

theorem cacheHeader_stored (hi : h.identity = .ok i)
    (hs : s.set now (m.keys.headerKey i) (Wire.encode h) m.ttl = some s') :
    (m.cacheHeader h).alone now s = (.value (.ok ()), s') := by
  rw [cacheHeader, hi]
  exact Access.alone_set_ok hs

theorem cacheHeader_overflow (hi : h.identity = .ok i)
    (hs : s.set now (m.keys.headerKey i) (Wire.encode h) m.ttl = none) :
    (m.cacheHeader h).alone now s = (.crashed Instant.overflowText, s) := by
  rw [cacheHeader, hi]
  exact Access.alone_set_none hs

theorem cachedHeader_absent (hg : s.get now (m.keys.headerKey i) = none) :
    (m.cachedHeader i).alone now s = (.value (.ok none), s) := by
  simp only [cachedHeader, Access.bind_eq, Access.read_bind, Access.alone_get, hg]
  rfl

theorem cachedHeader_present {raw : Octets} (hg : s.get now (m.keys.headerKey i) = some raw)
    (hd : Wire.decode Header raw = .ok h) :
    (m.cachedHeader i).alone now s = (.value (.ok (some h)), s) := by
  simp only [cachedHeader, Access.bind_eq, Access.read_bind, Access.alone_get, hg, hd]
  rfl

/-- **Caching succeeds exactly for a sound header whose deadline the clock can show.** -/
theorem cacheHeader_ok_iff (m : Reassembler) (h : Header) (now : Instant) (s : Store) :
    ((m.cacheHeader h).alone now s).1 = .value (.ok ()) ↔
      h.checksum.length = Checksum.size ∧ h.cardinality ≠ 0 ∧
      ∀ span ∈ m.ttl, now + span.nanos < Instant.horizon := by
  by_cases hlength : h.checksum.length = Checksum.size
  · by_cases hcard : h.cardinality = 0
    · rw [cacheHeader_of_error (Header.identity_of_cardinality_zero hlength hcard)]
      simp [hcard]
    · obtain ⟨i, hi, -⟩ := Header.exists_identity hlength hcard
      cases hs : s.set now (m.keys.headerKey i) (Wire.encode h) m.ttl with
      | none =>
        rw [cacheHeader_overflow hi hs]
        refine ⟨nofun, ?_⟩
        rintro ⟨-, -, hshown⟩
        obtain ⟨s', hs'⟩ := s.exists_set (m.keys.headerKey i) (Wire.encode h) hshown
        cases hs.symm.trans hs'
      | some s' =>
        rw [cacheHeader_stored hi hs]
        exact ⟨fun _ => ⟨hlength, hcard, Store.lt_horizon_of_set hs⟩, fun _ => rfl⟩
  · rw [cacheHeader_of_error (Header.identity_of_length_ne hlength)]
    simp [hlength]

/-- Caching a header leaves it under its name, if that succeeds, and everything under the other
names of headers. -/
theorem find?_headerKey_cacheHeader (m : Reassembler)
    (hdigest : ∀ j, h.identity = .ok j → m.keys.TellsApart j i) (now : Instant) (s : Store) :
    ((m.cacheHeader h).alone now s).2.find? (m.keys.headerKey i) =
      if ((m.cacheHeader h).alone now s).1 = .value (.ok ()) ∧ h.nonce = i.nonce ∧
        h.checksum = i.checksum.octets then
        some ⟨Wire.encode h, m.ttl.map fun span => now + span.nanos⟩
      else s.find? (m.keys.headerKey i) := by
  cases hj : h.identity with
  | error d =>
    rw [cacheHeader_of_error hj, if_neg fun hall => nomatch hall.1]
    rfl
  | ok j =>
    have hkeys := Header.headerKey_eq_iff hj (hdigest j hj)
    cases hs : s.set now (m.keys.headerKey j) (Wire.encode h) m.ttl with
    | none => rw [cacheHeader_overflow hj hs, if_neg fun hall => nomatch hall.1]
    | some s' =>
      rw [cacheHeader_stored hj hs]
      by_cases hnames : h.nonce = i.nonce ∧ h.checksum = i.checksum.octets
      · rw [if_pos ⟨rfl, hnames⟩, ← hkeys.2 hnames]
        exact Store.find?_self_of_set hs
      · rw [if_neg fun hall => hnames hall.2]
        exact Store.find?_of_set hs fun he => hnames (hkeys.1 he.symm)

end Reassembler

/-! ### What demands leave -/

namespace Service

variable {v : Service} {i j : Identity} {d : Demand} {h : Header} {now : Instant} {s : Store}

/-- The header that a demand has cached under a name, if its reply says that it did. -/
def cachedBy (i : Identity) : Demand → Outcome Reply → Option Header
  | .cacheHeader h, .value (.cached (.ok ())) =>
    if h.nonce = i.nonce ∧ h.checksum = i.checksum.octets then some h else none
  | _, _ => none

/-- The headers that were cached under a name, as the replies say, and when. -/
def cachedHeaders (i : Identity) (times : List Instant) (replies : List (Demand × Outcome Reply)) :
    List (Instant × Header) :=
  (times.zip replies).filterMap fun x => (cachedBy i x.2.1 x.2.2).map fun h => (x.1, h)

/-- The entry of a header that was cached at an instant. -/
def headerEntry (v : Service) (c : Instant × Header) : Entry :=
  ⟨Wire.encode c.2, v.headerTtl.map fun span => c.1 + span.nanos⟩

/-- The identities of the sound headers that some demands want cached. -/
def announced (calls : List (Instant × Demand)) : Set Identity :=
  {j | ∃ call ∈ calls, ∃ h, call.2 = .cacheHeader h ∧ h.identity = .ok j}

theorem alone_cacheHeader (v : Service) (h : Header) (now : Instant) (s : Store) :
    (v.perform (.cacheHeader h)).alone now s =
      (((v.reassembler.cacheHeader h).alone now s).1.map .cached,
        ((v.reassembler.cacheHeader h).alone now s).2) := by
  rw [perform, Access.alone, Access.run_map]
  rfl

theorem cachedBy_cacheHeader (i : Identity) (h : Header)
    (o : Outcome (Except ReassemblyError Unit)) :
    cachedBy i (.cacheHeader h) (o.map .cached) =
      if o = .value (.ok ()) ∧ h.nonce = i.nonce ∧ h.checksum = i.checksum.octets
        then some h else none := by
  rcases o with (e | u) | text
  · simp [cachedBy, Outcome.map]
  · simp [cachedBy, Outcome.map]
  · simp [cachedBy, Outcome.map]

theorem cachedBy_of_ne (hd : ∀ h, d ≠ .cacheHeader h) (i : Identity) (o : Outcome Reply) :
    cachedBy i d o = none := by
  cases d with
  | cacheHeader h => exact absurd rfl (hd h)
  | _ => rfl

theorem perform_writesOnly_of_ne (v : Service) (hd : ∀ h, d ≠ .cacheHeader h) :
    (v.perform d).WritesOnly fun key => ∀ i, key ≠ v.keys.headerKey i := by
  cases hingest : d.isIngest with
  | false => exact (v.perform_readOnly hingest hd).mono fun _ => False.elim
  | true =>
    cases d with
    | ingest f =>
      refine Access.WritesOnly.bind ?_ fun _ => trivial
      refine (Ingestor.ingest_touchesOnly v.ingestor f).writesOnly.mono ?_
      rintro key ⟨-, j, -, rfl | rfl | rfl⟩ i <;> exact Keyspace.derive_ne_of_purpose (by decide)
    | cacheHeader | reassemble | ingestedCount | cachedHeader => cases hingest

/-- **Under the key of a header is what a demand cached under its name**, or what was there
before. -/
theorem find?_headerKey_perform
    (hdigest : ∀ h j, d = .cacheHeader h → h.identity = .ok j → v.keys.TellsApart j i)
    (now : Instant) (s : Store) :
    ((v.perform d).alone now s).2.find? (v.keys.headerKey i) =
      ((cachedBy i d ((v.perform d).alone now s).1).map fun h => v.headerEntry (now, h)).or
        (s.find? (v.keys.headerKey i)) := by
  by_cases hd : ∃ h, d = .cacheHeader h
  · obtain ⟨h, rfl⟩ := hd
    have hown :=
      Reassembler.find?_headerKey_cacheHeader v.reassembler (fun j => hdigest h j rfl) now s
    rw [alone_cacheHeader, cachedBy_cacheHeader]
    refine hown.trans ?_
    split <;> rfl
  · rw [not_exists] at hd
    rw [Access.find?_alone (v.perform_writesOnly_of_ne hd) (fun hne => hne i rfl),
      cachedBy_of_ne hd]
    rfl

theorem cachedHeaders_cons (i : Identity) (now : Instant) (times : List Instant) (d : Demand)
    (o : Outcome Reply) (replies : List (Demand × Outcome Reply)) :
    (cachedHeaders i (now :: times) ((d, o) :: replies)).getLast? =
      (cachedHeaders i times replies).getLast?.or ((cachedBy i d o).map fun h => (now, h)) := by
  rw [cachedHeaders, List.zip_cons_cons, List.filterMap_cons, ← cachedHeaders]
  cases (cachedBy i d o).map fun h => (now, h) with
  | none => rw [Option.or_none]
  | some c =>
    rw [List.getLast?_cons]
    cases (cachedHeaders i times replies).getLast? <;> rfl

/-- **Under the key of a header is the last one that was cached under its name**, or what was there
before. -/
theorem find?_headerKey_serve {calls : List (Instant × Demand)}
    (hdigest : ∀ j ∈ announced calls, v.keys.TellsApart j i) (s : Store) :
    (v.serve calls s).2.find? (v.keys.headerKey i) =
      ((cachedHeaders i (calls.map (·.1)) (v.serve calls s).1).getLast?.map v.headerEntry).or
        (s.find? (v.keys.headerKey i)) := by
  induction calls generalizing s with
  | nil => rfl
  | cons call rest ih =>
    obtain ⟨now, d⟩ := call
    have hlater : ∀ j ∈ announced rest, v.keys.TellsApart j i := by
      rintro j ⟨call, hcall, hj⟩
      exact hdigest j ⟨call, List.mem_cons_of_mem _ hcall, hj⟩
    have hrest := ih hlater ((v.perform d).alone now s).2
    have hfirst := find?_headerKey_perform (d := d) (i := i)
      (fun h j hd hj => hdigest j ⟨_, List.mem_cons_self, h, hd, hj⟩) now s
    simp only [serve, List.map_cons]
    rw [hrest, hfirst, cachedHeaders_cons, Option.map_or, Option.or_assoc, Option.map_map]
    rfl

theorem identity_of_cachedBy (hc : cachedBy i d ((v.perform d).alone now s).1 = some h) :
    (∃ j, h.identity = .ok j) ∧ h.nonce = i.nonce ∧ h.checksum = i.checksum.octets := by
  cases d with
  | cacheHeader g =>
    rw [alone_cacheHeader, cachedBy_cacheHeader] at hc
    split at hc
    · rename_i hg
      cases hc
      obtain ⟨hlength, hcard, -⟩ := (Reassembler.cacheHeader_ok_iff _ _ _ _).1 hg.1
      obtain ⟨j, hj, -⟩ := Header.exists_identity hlength hcard
      exact ⟨⟨j, hj⟩, hg.2⟩
    · cases hc
  | _ => cases hc

theorem identity_of_mem_cachedHeaders {calls : List (Instant × Demand)} {c : Instant × Header}
    (hc : c ∈ cachedHeaders i (calls.map (·.1)) (v.serve calls s).1) :
    (∃ j, c.2.identity = .ok j) ∧ c.2.nonce = i.nonce ∧ c.2.checksum = i.checksum.octets := by
  induction calls generalizing s with
  | nil => cases hc
  | cons call rest ih =>
    obtain ⟨now, d⟩ := call
    simp only [serve, List.map_cons, cachedHeaders, List.zip_cons_cons, List.filterMap_cons] at hc
    split at hc
    · exact ih hc
    · rename_i hd
      rcases List.mem_cons.1 hc with rfl | hc
      · obtain ⟨h, hh, rfl⟩ := Option.map_eq_some_iff.1 hd
        exact identity_of_cachedBy hh
      · exact ih hc

/-- Whether a header that was cached at an instant is kept still. -/
def keeps (v : Service) (now : Instant) (c : Instant × Header) : Bool :=
  v.headerTtl.all fun span => now < c.1 + span.nanos

theorem cachedHeader_of_find? {cached : Option (Instant × Header)}
    (hsound : ∀ c ∈ cached, ∃ j, c.2.identity = .ok j)
    (hfind : s.find? (v.keys.headerKey i) = cached.map v.headerEntry) (now : Instant) :
    (v.reassembler.cachedHeader i).alone now s =
      (.value (.ok ((cached.filter (v.keeps now)).map (·.2))), s) := by
  have hlive : (fun e : Entry => e.live now) ∘ v.headerEntry = v.keeps now := by
    funext c
    rw [Function.comp_apply, headerEntry, keeps, Entry.live]
    cases v.headerTtl <;> rfl
  have hget : s.get now (v.keys.headerKey i) =
      (cached.filter (v.keeps now)).map fun c => Wire.encode c.2 := by
    rw [Store.get, Store.live?, hfind, Option.filter_map, Option.map_map, hlive]
    rfl
  cases hkept : cached.filter (v.keeps now) with
  | none => exact Reassembler.cachedHeader_absent (hget.trans (by rw [hkept]; rfl))
  | some c =>
    obtain ⟨j, hj⟩ := hsound c (Option.filter_eq_some_iff.1 hkept).1
    exact Reassembler.cachedHeader_present (hget.trans (by rw [hkept]; rfl))
      (Wire.decode_encode_of_identity hj)

/-- **What is read is the last header that was cached under the name, until its deadline**,
whatever else was asked of the service. A malformed header is refused, and caching one changes
nothing under the keys of any other purpose. -/
theorem latest_header_cached {v : Service} {i : Identity} {calls : List (Instant × Demand)}
    (hk : Set.InjOn Keyspace.digest ((fun j => v.keys.subject j .header) '' insert i
      (announced calls))) :
    let s := (v.serve calls {}).2
    let cached := cachedHeaders i (calls.map (·.1)) (v.serve calls {}).1
    (∀ now, (v.reassembler.cachedHeader i).alone now s =
      (.value (.ok ((cached.getLast?.filter (v.keeps now)).map (·.2))), s)) ∧
    (∀ now h, ((v.reassembler.cachedHeader i).alone now s).1 = .value (.ok (some h)) →
      h.nonce = i.nonce ∧ h.checksum = i.checksum.octets) ∧
    ∀ (h : Header) (now : Instant) (t : Store),
      let r := (v.reassembler.cacheHeader h).alone now t
      (h.checksum.length ≠ Checksum.size →
        r = (.value (.error (.malformed (.checksumLength .header ⟨h.checksum.length⟩))), t)) ∧
      (h.checksum.length = Checksum.size → h.cardinality = 0 →
        r = (.value (.error (.malformed .zeroCardinality)), t)) ∧
      (r.1 = .value (.ok ()) ↔ h.checksum.length = Checksum.size ∧ h.cardinality ≠ 0 ∧
        ∀ span ∈ v.headerTtl, now + span.nanos < Instant.horizon) ∧
      ∀ (l : Keyspace) (j : Identity) (p : Purpose), p ≠ .header →
        r.2.find? (l.derive j p) = t.find? (l.derive j p) := by
  have hsound : ∀ c ∈ cachedHeaders i (calls.map (·.1)) (v.serve calls {}).1,
      (∃ j, c.2.identity = .ok j) ∧ c.2.nonce = i.nonce ∧ c.2.checksum = i.checksum.octets :=
    fun c hc => identity_of_mem_cachedHeaders hc
  have hapart : ∀ j ∈ announced calls, v.keys.TellsApart j i := fun j hj he =>
    hk (Set.mem_image_of_mem _ (Set.mem_insert_of_mem i hj))
      (Set.mem_image_of_mem _ (Set.mem_insert i _)) he
  have hfind := find?_headerKey_serve hapart {}
  rw [Store.find?_empty, Option.or_none] at hfind
  have hread :=
    fun now => cachedHeader_of_find? (fun c hc => (hsound c (List.mem_of_getLast? hc)).1) hfind now
  refine ⟨hread, fun now h hh => ?_, fun h now t => ⟨fun hlength => ?_, fun hlength hcard => ?_,
    Reassembler.cacheHeader_ok_iff _ h now t, fun l j p hp => ?_⟩⟩
  · rw [hread, Outcome.value.injEq, Except.ok.injEq, Option.map_eq_some_iff] at hh
    obtain ⟨c, hc, rfl⟩ := hh
    exact (hsound c (List.mem_of_getLast? (Option.filter_eq_some_iff.1 hc).1)).2
  · rw [Reassembler.cacheHeader_of_error (Header.identity_of_length_ne hlength)]
    rfl
  · rw [Reassembler.cacheHeader_of_error (Header.identity_of_cardinality_zero hlength hcard)]
    rfl
  · refine Access.find?_alone (Reassembler.cacheHeader_writesOnly v.reassembler h) ?_ now t
    rintro ⟨j', he⟩
    exact hp (Keyspace.derive_inj.1 he).1

/-- Headers of two operations: that of the first is replaced, and a malformed one is refused. -/
def headerCalls : List (Instant × Demand) := [
  (0, .cacheHeader (Batch.headerOf 6 1 [9])),
  (1, .cacheHeader (Batch.headerOf 6 2 [9])),
  (2, .ingest otherFragment),
  (3, .cacheHeader (Batch.headerOf 7 1 [9])),
  (4, .cacheHeader (Batch.headerOf 6 0 [9]))]

theorem announced_headerCalls {j : Identity} (hj : j ∈ announced headerCalls) :
    j = otherIdentity ∨ j = { otherIdentity with nonce := 7 } := by
  obtain ⟨call, hcall, h, hd, hj⟩ := hj
  simp only [headerCalls, List.mem_cons, List.not_mem_nil, or_false] at hcall
  rcases hcall with rfl | rfl | rfl | rfl | rfl
  · cases hd
    exact .inl (Except.ok.inj (hj.symm.trans (by decide +kernel)))
  · cases hd
    exact .inl (Except.ok.inj (hj.symm.trans (by decide +kernel)))
  · cases hd
  · cases hd
    exact .inr (Except.ok.inj (hj.symm.trans (by decide +kernel)))
  · cases hd
    exact absurd (hj.symm.trans (by decide +kernel : Header.identity _ = .error .zeroCardinality))
      nofun

theorem replacedHeader_read :
    let v : Service := { keys := ⟨"relay"⟩, headerTtl := some (Span.ofNanos 100) }
    let s := (v.serve headerCalls {}).2
    (v.reassembler.cachedHeader (otherIdentity.withIndex 3)).alone 100 s =
        (.value (.ok (some (Batch.headerOf 6 2 [9]))), s) ∧
      (v.reassembler.cachedHeader (otherIdentity.withIndex 3)).alone 101 s =
        (.value (.ok none), s) := by
  let v : Service := { keys := ⟨"relay"⟩, headerTtl := some (Span.ofNanos 100) }
  have hnodup : ([v.keys.subject otherIdentity .header,
      v.keys.subject { otherIdentity with nonce := 7 } .header].map
    Keyspace.digest).Nodup := by decide +kernel
  have hk : Set.InjOn Keyspace.digest ((fun j => v.keys.subject j .header) ''
      insert (otherIdentity.withIndex 3) (announced headerCalls)) := by
    have hmem : ∀ text ∈ (fun j => v.keys.subject j .header) '' insert (otherIdentity.withIndex 3)
        (announced headerCalls), text ∈ [v.keys.subject otherIdentity .header,
          v.keys.subject { otherIdentity with nonce := 7 } .header] := by
      rintro text ⟨j, rfl | hj, rfl⟩
      · exact List.mem_cons_self
      · rcases announced_headerCalls hj with rfl | rfl
        · exact List.mem_cons_self
        · exact List.mem_cons_of_mem _ List.mem_cons_self
    exact fun t ht u hu he => List.inj_on_of_nodup_map hnodup (hmem t ht) (hmem u hu) he
  have hlast : (cachedHeaders (otherIdentity.withIndex 3) (headerCalls.map (·.1))
      (v.serve headerCalls {}).1).getLast? = some (1, Batch.headerOf 6 2 [9]) := by decide +kernel
  have hread := (latest_header_cached (i := otherIdentity.withIndex 3) hk).1
  rw [hlast] at hread
  exact ⟨(hread 100).trans (by rfl), (hread 101).trans (by rfl)⟩

end Service

end FragmentRelay
