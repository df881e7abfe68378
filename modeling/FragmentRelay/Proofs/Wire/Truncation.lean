import FragmentRelay.Proofs.Wire.RoundTrip

/-!
# Truncation: records that were cut off or carried on

A record that is cut off, wherever the cut falls, is refused because its bytes end too early, and
the number of bytes that are said to be missing is one at least and no more than were cut off. A
record with bytes behind it is refused because of them. So no encoding of a record can be carried on
to a byte string that is read as a record of the type.

* `EndsEarly`: bytes were missing, but not more than a number. It goes through everything that is
  read after the cut.
* `endsEarly_readNat32`, `endsEarly_readNat64`, `Reading.endsEarly_field`,
  `Reading.endsEarly_fields`: cuts inside a number, a field and a list of fields.
* `cut_or_extended_refused`: encodings that were cut off or carried on.
-/

namespace FragmentRelay.Wire

/-- The bytes have ended too early: some are missing, and no more than a number. -/
def EndsEarly {α : Type} (x : Except Fault α) (most : Nat) : Prop :=
  ∃ n, x = .error (.unexpectedEnd n) ∧ 1 ≤ n ∧ n ≤ most

namespace EndsEarly

variable {α β : Type} {x : Except Fault α} {most more : Nat}

theorem mono (h : EndsEarly x most) (hle : most ≤ more) : EndsEarly x more := by
  obtain ⟨n, hx, hpos, hn⟩ := h
  exact ⟨n, hx, hpos, Nat.le_trans hn hle⟩

theorem bind (h : EndsEarly x most) (f : α → Except Fault β) : EndsEarly (x >>= f) most := by
  obtain ⟨n, rfl, hn⟩ := h
  exact ⟨n, rfl, hn⟩

theorem map (h : EndsEarly x most) (f : α → β) : EndsEarly (f <$> x) most := by
  obtain ⟨n, rfl, hn⟩ := h
  exact ⟨n, rfl, hn⟩

theorem of_map {f : α → β} (h : EndsEarly (f <$> x) most) : EndsEarly x most := by
  obtain ⟨n, hx, hn⟩ := h
  exact ⟨n, Reading.map_eq_error.1 hx, hn⟩

end EndsEarly

theorem cut_cases {α : Type} {front back p q : List α} (h : front ++ back = p ++ q) :
    (∃ r, p = front ++ r ∧ back = r ++ q) ∨ ∃ r, r ≠ [] ∧ front = p ++ r ∧ q = r ++ back := by
  rcases List.append_eq_append_iff.1 h with ⟨r, rfl, rfl⟩ | ⟨r, rfl, rfl⟩
  · exact .inl ⟨r, rfl, rfl⟩
  · cases r with
    | nil => exact .inl ⟨[], by simp, rfl⟩
    | cons b r => exact .inr ⟨b :: r, List.cons_ne_nil b r, rfl, rfl⟩

/-! ### Numbers -/

variable {p q : Octets}

theorem endsEarly_splitOctets {w : Nat} (hw : w = p.length + q.length) (hq : q ≠ []) :
    EndsEarly (splitOctets w p) q.length := by
  have hpos := List.length_pos_iff.2 hq
  refine ⟨w - p.length, ?_, by omega, by omega⟩
  rw [splitOctets, if_neg (by omega)]

theorem endsEarly_readFixed {w n : Nat} (h : Octets.ofNatLE w n = p ++ q) (hq : q ≠ []) :
    EndsEarly (readFixed w p) q.length := by
  have hw := congrArg List.length h
  rw [Octets.length_ofNatLE, List.length_append] at hw
  obtain ⟨k, hsplit, hk⟩ := endsEarly_splitOctets hw hq
  exact ⟨k, by rw [readFixed, hsplit], hk⟩

theorem endsEarly_readNat32 {n : Nat} {front : Octets} (h : NumberForm false n front)
    (he : front = p ++ q) (hq : q ≠ []) : EndsEarly (readNat32 p) q.length := by
  cases p with
  | nil => exact ⟨1, rfl, Nat.le_refl 1, List.length_pos_iff.2 hq⟩
  | cons b p =>
    cases h with
    | one h =>
      obtain ⟨-, hrest⟩ := List.cons.inj he
      exact absurd (List.append_eq_nil_iff.1 hrest.symm).2 hq
    | two h =>
      obtain ⟨rfl, hrest⟩ := List.cons.inj he
      exact endsEarly_readFixed hrest hq
    | four h =>
      obtain ⟨rfl, hrest⟩ := List.cons.inj he
      exact endsEarly_readFixed hrest hq

theorem endsEarly_readNat64 {n : Nat} {front : Octets} (h : NumberForm true n front)
    (he : front = p ++ q) (hq : q ≠ []) : EndsEarly (readNat64 p) q.length := by
  cases p with
  | nil => exact ⟨1, rfl, Nat.le_refl 1, List.length_pos_iff.2 hq⟩
  | cons b p =>
    cases h with
    | one h =>
      obtain ⟨-, hrest⟩ := List.cons.inj he
      exact absurd (List.append_eq_nil_iff.1 hrest.symm).2 hq
    | two h =>
      obtain ⟨rfl, hrest⟩ := List.cons.inj he
      exact endsEarly_readFixed hrest hq
    | four h =>
      obtain ⟨rfl, hrest⟩ := List.cons.inj he
      exact endsEarly_readFixed hrest hq
    | eight h =>
      obtain ⟨rfl, hrest⟩ := List.cons.inj he
      exact endsEarly_readFixed hrest hq

/-! ### Fields -/

namespace Reading

variable {c : Nat}

theorem claim_eq {size : Nat} (h : c + size ≤ maxRecordLength) :
    claim size ⟨p, c⟩ = .ok ⟨p, c + size⟩ := by
  rw [claim, if_pos h]

theorem endsEarly_word32 {n : Nat} {front : Octets} (h : NumberForm false n front)
    (he : front = p ++ q) (hq : q ≠ []) (hc : c + 4 ≤ maxRecordLength) :
    EndsEarly (word32 ⟨p, c⟩) q.length := by
  rw [word32, claim_eq hc]
  exact (endsEarly_readNat32 h he hq).bind _

theorem endsEarly_nat64 {n : Nat} {front : Octets} (h : NumberForm true n front)
    (he : front = p ++ q) (hq : q ≠ []) (hc : c + 8 ≤ maxRecordLength) :
    EndsEarly (nat64 ⟨p, c⟩) q.length := by
  rw [nat64, claim_eq hc]
  exact (endsEarly_readNat64 h he hq).bind _

theorem endsEarly_octets {bs front : Octets} (h : NumberForm true bs.length front)
    (he : front ++ bs = p ++ q) (hq : q ≠ []) (hc : c + (8 + bs.length) ≤ maxRecordLength) :
    EndsEarly (octets ⟨p, c⟩) q.length := by
  have hc₈ : c + 8 ≤ maxRecordLength := by omega
  rcases cut_cases he with ⟨r, rfl, rfl⟩ | ⟨r, hr, hfront, rfl⟩
  · have hlength := nat64_of_form h r c
    rw [if_pos hc₈] at hlength
    rw [octets, hlength]
    change EndsEarly (claim (r ++ q).length ⟨r, c + 8⟩ >>= _) _
    rw [claim_eq (by omega)]
    exact (endsEarly_splitOctets List.length_append hq).bind _
  · rw [octets]
    exact ((endsEarly_nat64 h hfront hr hc₈).bind _).mono (by rw [List.length_append]; omega)

/-- **A field that was cut off ends too early.** -/
theorem endsEarly_field {f : Field} {part : Octets} (h : Form f part)
    (he : part = p ++ q) (hq : q ≠ []) (hc : c + f.claimed ≤ maxRecordLength) :
    EndsEarly (field ⟨p, c⟩ f.kind) q.length := by
  cases h with
  | word32 h => exact (endsEarly_word32 h he hq hc).map _
  | word64 h => exact ((endsEarly_nat64 h he hq hc).bind _).map _
  | octets h => exact (endsEarly_octets h he hq hc).map _

/-- **Fields that were cut off end too early.** The fields before the cut are read; their claims are
within the limit. -/
theorem endsEarly_fields {fs : List Field} {parts : List Octets} (h : List.Forall₂ Form fs parts)
    (he : parts.flatten = p ++ q) (hq : q ≠ []) (hc : c + claimedBy fs ≤ maxRecordLength) :
    EndsEarly (fields (fs.map Field.kind) ⟨p, c⟩) q.length := by
  induction h generalizing c p with
  | nil => exact absurd (List.append_eq_nil_iff.1 he.symm).2 hq
  | @cons f part fs parts hf _ ih =>
    rw [claimedBy, ← Nat.add_assoc] at hc
    rw [List.map_cons, fields]
    rcases cut_cases he with ⟨r, rfl, hrest⟩ | ⟨r, hr, hpart, rfl⟩
    · rw [field_of_form hf, if_pos (by omega)]
      exact (ih hrest hc).bind _
    · exact ((endsEarly_field hf hpart hr (by omega)).bind _).mono
        (by rw [List.length_append]; omega)

end Reading

/-! ### Lengths -/

theorem NumberForm.length_le {wide : Bool} {n : Nat} {front : Octets}
    (h : NumberForm wide n front) : front.length ≤ if wide then 9 else 5 := by
  cases h with
  | eight _ => simp
  | _ => cases wide <;> simp

theorem Form.length_le {f : Field} {part : Octets} (h : Form f part) :
    part.length ≤ 2 * f.claimed := by
  cases h with
  | word32 h => exact Nat.le_trans h.length_le (by simp [Field.claimed])
  | word64 h => exact Nat.le_trans h.length_le (by simp [Field.claimed])
  | @octets bs front h =>
    have hfront : front.length ≤ 9 := h.length_le
    rw [List.length_append, Field.claimed]
    omega

theorem length_forms_le {fs : List Field} {parts : List Octets} (h : List.Forall₂ Form fs parts) :
    parts.flatten.length ≤ 2 * claimedBy fs := by
  induction h with
  | nil => exact Nat.le_refl 0
  | cons hf _ ih =>
    have hpart := hf.length_le
    rw [List.flatten_cons, List.length_append, claimedBy]
    omega

theorem length_write_le {fs : List Field} {f : Field} (h : f ∈ fs) :
    f.write.length ≤ (fs.map Field.write).flatten.length :=
  (List.sublist_flatten_of_mem (List.mem_map_of_mem h)).length_le

/-! ### Records -/

section Records

variable {α : Type} [Record α] [Layout α] {a a' : α} {bs : Octets}

theorem length_lt_of_decode (h : decode α bs = .ok a) : bs.length < UInt64.size := by
  obtain ⟨⟨parts, rfl, hforms⟩, hle⟩ := exists_forms_of_decode h
  have hparts := length_forms_le hforms
  have htag : (tag α).length = tagLength := Layout.length_tag
  have hlimit : tagLength + 2 * maxRecordLength < UInt64.size := by decide
  rw [List.length_append]
  omega

/-- A record whose encoding starts a byte string that is read has byte strings with lengths of 64
bits. -/
theorem addressable_of_prefix (h : decode α bs = .ok a') (hpre : encode a <+: bs) :
    ∀ x ∈ Layout.fields a, x.Addressable := by
  intro x hx
  have hlt := Nat.lt_of_le_of_lt hpre.length_le (length_lt_of_decode h)
  rw [encode_eq, List.length_append] at hlt
  have hwrite := length_write_le hx
  cases x with
  | word32 n => trivial
  | word64 n => trivial
  | octets bs =>
    rw [Field.write, writeOctets, List.length_append] at hwrite
    exact Nat.lt_of_le_of_lt (by omega) hlt

/-- **A record that was cut off ends too early.** -/
theorem endsEarly_decode (hle : claimedBy (Layout.fields a) ≤ maxRecordLength)
    (he : encode a = p ++ q) (hq : q ≠ []) : EndsEarly (decode α p) q.length := by
  have htag : (tag α).length = tagLength := Layout.length_tag
  rw [encode_eq] at he
  rcases cut_cases he with ⟨r, rfl, hrest⟩ | ⟨r, hr, hcut, rfl⟩
  · have hforms := write_forms (addressable_of_claimedBy hle)
    have hread := Reading.endsEarly_fields hforms hrest hq (by rwa [Nat.zero_add])
    rw [Layout.kinds_fields, Layout.read_eq] at hread
    rw [decode_tag_append]
    exact hread.of_map.bind _
  · rw [hcut, List.length_append] at htag
    have hpos := List.length_pos_iff.2 hr
    refine ⟨tagLength - p.length, ?_, by omega, by rw [List.length_append]; omega⟩
    rw [decode, if_pos (by omega)]

theorem decode_encode_append (ha : ∀ x ∈ Layout.fields a, x.Addressable) (rest : Octets) :
    decode α (encode a ++ rest) =
      if claimedBy (Layout.fields a) ≤ maxRecordLength then
        if rest = [] then .ok a else .error (.trailing rest.length)
      else .error .limitExceeded := by
  rw [encode_eq, List.append_assoc, decode_of_forms_append (write_forms ha)]

/-- No encoding of a record is a proper prefix of a byte string that is read as a record of the same
type. -/
theorem eq_of_encode_prefix (h : decode α bs = .ok a') (hpre : encode a <+: bs) :
    encode a = bs := by
  have ha := addressable_of_prefix h hpre
  obtain ⟨rest, rfl⟩ := hpre
  rw [decode_encode_append ha] at h
  split_ifs at h with hle hrest
  rw [hrest, List.append_nil]

end Records

/-- **Cut off or carried on, a record is refused**: a proper prefix because bytes are missing, no
more than were cut off, and an extension because of the bytes behind the record. -/
theorem cut_or_extended_refused (α : Type) [Record α] [Layout α] :
    (∀ a : α, claimedBy (Layout.fields a) ≤ maxRecordLength →
      (∀ p, p <+: encode a → p ≠ encode a → ∃ n, decode α p = .error (.unexpectedEnd n) ∧ 1 ≤ n ∧
        n ≤ (encode a).length - p.length) ∧
      ∀ x, x ≠ [] → decode α (encode a ++ x) = .error (.trailing x.length)) ∧
    ∀ (a a' : α) (bs : Octets), decode α bs = .ok a' → encode a <+: bs → encode a = bs := by
  refine ⟨fun a hle => ⟨?_, fun x hx => ?_⟩, fun a a' bs => eq_of_encode_prefix⟩
  · rintro p ⟨q, he⟩ hne
    have hq : q ≠ [] := by
      rintro rfl
      exact hne (by rw [← he, List.append_nil])
    have hlength := congrArg List.length he
    rw [List.length_append] at hlength
    exact (endsEarly_decode hle he.symm hq).mono (by omega)
  · rw [decode_encode_append (addressable_of_claimedBy hle), if_pos hle, if_neg hx]

/-- A header whose cardinality takes three bytes. -/
def wideHeader : Header := ⟨300, [7, 8], 5, 3⟩

/-- A fragment of its operation. -/
def wideFragment : Fragment := ⟨299, 300, 5, [7, 8], [9], 2, [1, 2]⟩

theorem wideRecords_refused :
    (claimedBy (Layout.fields wideHeader) ≤ maxRecordLength ∧
      (∃ n, decode Header ((encode wideHeader).take 6) = .error (.unexpectedEnd n) ∧
        1 ≤ n ∧ n ≤ 6) ∧
      decode Header (encode wideHeader ++ [0, 0]) = .error (.trailing 2)) ∧
    (claimedBy (Layout.fields wideFragment) ≤ maxRecordLength ∧
      (∃ n, decode Fragment ((encode wideFragment).take 17) = .error (.unexpectedEnd n) ∧
        1 ≤ n ∧ n ≤ 3) ∧
      decode Fragment (encode wideFragment ++ [0]) = .error (.trailing 1)) ∧
    decode Header (encode wideHeader) = .ok wideHeader ∧
      ∀ a : Header, encode a <+: encode wideHeader → encode a = encode wideHeader := by
  have hh : claimedBy (Layout.fields wideHeader) ≤ maxRecordLength := by decide
  have hf : claimedBy (Layout.fields wideFragment) ≤ maxRecordLength := by decide
  have hread : decode Header (encode wideHeader) = .ok wideHeader := by decide
  obtain ⟨hcut, hextended⟩ := (cut_or_extended_refused Header).1 wideHeader hh
  obtain ⟨hcut', hextended'⟩ := (cut_or_extended_refused Fragment).1 wideFragment hf
  exact ⟨⟨hh, hcut _ (List.take_prefix 6 _) (by decide), hextended [0, 0] (by decide)⟩,
    ⟨hf, hcut' _ (List.take_prefix 17 _) (by decide), hextended' [0] (by decide)⟩, hread,
    fun a => (cut_or_extended_refused Header).2 a wideHeader _ hread⟩

end FragmentRelay.Wire
