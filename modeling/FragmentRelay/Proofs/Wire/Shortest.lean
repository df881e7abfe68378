import FragmentRelay.Proofs.Wire.Grammar

/-!
# Shortest forms: the spelling that writing picks

A number has up to four forms, each of another length, and writing picks the shortest one that holds
it. So a form of a field is the one that is written or longer, and this adds up over the fields of a
record: of all byte strings that are read as a record, the one that is written is the shortest, and
the only one of its length.

* `NumberForm.eq_or_longer`, `Form.eq_or_longer`, `forms_eq_or_longer`: numbers, fields and lists of
  fields.
* `eq_encode_or_longer`: whole records.
* `encode_shortest`: what reading and writing again comes to.
-/

namespace FragmentRelay.Wire

theorem length_writeNat (n : Nat) :
    (writeNat n).length = if n < 251 then 1 else if n < UInt16.size then 3 else if n < UInt32.size
      then 5 else 9 := by
  unfold writeNat
  split_ifs <;> simp

theorem NumberForm.eq_or_longer {wide : Bool} {n : Nat} {front : Octets}
    (h : NumberForm wide n front) : front = writeNat n ∨ (writeNat n).length < front.length := by
  have hlength := length_writeNat n
  cases h with
  | one h₁ => exact .inl (by rw [writeNat, if_pos h₁])
  | two h₂ =>
    by_cases h₁ : n < 251
    · right
      simp [hlength, h₁]
    · left
      rw [writeNat, if_neg h₁, if_pos h₂]
  | four h₃ =>
    by_cases h₂ : n < UInt16.size
    · right
      rw [hlength, if_pos h₂]
      split_ifs <;> simp
    · left
      have h₁ : ¬ n < 251 := fun h => h₂ (Nat.lt_trans h (by decide))
      rw [writeNat, if_neg h₁, if_neg h₂, if_pos h₃]
  | eight h₄ =>
    by_cases h₃ : n < UInt32.size
    · right
      rw [hlength, if_pos h₃]
      split_ifs <;> simp
    · left
      have h₂ : ¬ n < UInt16.size := fun h => h₃ (Nat.lt_trans h (by decide))
      have h₁ : ¬ n < 251 := fun h => h₂ (Nat.lt_trans h (by decide))
      rw [writeNat, if_neg h₁, if_neg h₂, if_neg h₃]

theorem Form.eq_or_longer {f : Field} {part : Octets} (h : Form f part) :
    part = f.write ∨ f.write.length < part.length := by
  cases h with
  | word32 h => exact h.eq_or_longer
  | word64 h => exact h.eq_or_longer
  | @octets bs front h =>
    rw [Field.write, writeOctets]
    refine h.eq_or_longer.imp (fun he => by rw [he]) fun hlt => ?_
    rw [List.length_append, List.length_append]
    exact Nat.add_lt_add_right hlt _

/-- **Forms of some fields are the ones that are written, or longer together.** -/
theorem forms_eq_or_longer {fs : List Field} {parts : List Octets}
    (h : List.Forall₂ Form fs parts) :
    parts = fs.map Field.write ∨ (fs.map Field.write).flatten.length < parts.flatten.length := by
  induction h with
  | nil => exact .inl rfl
  | cons hf _ ih =>
    simp only [List.map_cons, List.flatten_cons, List.length_append]
    rcases hf.eq_or_longer with rfl | hpart
    · exact ih.imp (fun hrest => by rw [hrest]) fun hrest => by omega
    · have hrest := ih.elim (fun hrest => Nat.le_of_eq (by rw [hrest])) Nat.le_of_lt
      exact .inr (by omega)

section Records

variable {α : Type} [Record α] [Layout α] {a a' : α} {bs w : Octets}

/-- **Of the byte strings that are read as a record, the one that is written is the shortest.** -/
theorem eq_encode_or_longer (h : decode α bs = .ok a) :
    bs = encode a ∨ (encode a).length < bs.length := by
  obtain ⟨⟨parts, rfl, hforms⟩, -⟩ := exists_forms_of_decode h
  rw [encode_eq, List.length_append, List.length_append]
  exact (forms_eq_or_longer hforms).imp (fun he => by rw [he]) fun hlt => Nat.add_lt_add_left hlt _

/-- What was read can be written and read again. The limit is on the claims of the fields, which no
form changes. -/
theorem decode_encode_of_decode (h : decode α bs = .ok a) : decode α (encode a) = .ok a := by
  have hle := (exists_forms_of_decode h).2
  rw [decode_encode_of_addressable (addressable_of_claimedBy hle), if_pos hle]

theorem eq_of_encode_eq (h : ∀ x ∈ Layout.fields a, x.Addressable)
    (h' : ∀ x ∈ Layout.fields a', x.Addressable) (he : encode a = encode a') : a = a' :=
  (Spells.unique ⟨encode_eq, write_forms h⟩ ⟨he.trans encode_eq, write_forms h'⟩).1

end Records

/-- A byte string read as a record and written again. -/
def recode (α : Type) [Record α] (bs : Octets) : Except Fault Octets := (decode α bs).map encode

theorem recode_eq_ok {α : Type} [Record α] {bs w : Octets} :
    recode α bs = .ok w ↔ ∃ a : α, decode α bs = .ok a ∧ encode a = w :=
  Reading.map_eq_ok

/-- **Writing picks the one shortest spelling**, for any type of records that is laid out in
fields, as headers and fragments are. -/
theorem encode_shortest (α : Type) [Record α] [Layout α] :
    (∀ (bs : Octets) (a : α), decode α bs = .ok a →
      decode α (encode a) = .ok a ∧ (encode a).length ≤ bs.length ∧
        ((encode a).length = bs.length ↔ bs = encode a)) ∧
    (∀ a a' : α, (∀ x ∈ Layout.fields a, x.Addressable) → (∀ x ∈ Layout.fields a', x.Addressable) →
      encode a = encode a' → a = a') ∧
    ∀ bs w : Octets, recode α bs = .ok w → recode α w = .ok w := by
  refine ⟨fun bs a h => ⟨decode_encode_of_decode h, ?_, ?_, fun he => by rw [← he]⟩,
    fun a a' h h' he => eq_of_encode_eq h h' he, fun bs w h => ?_⟩
  · exact (eq_encode_or_longer h).elim (fun he => Nat.le_of_eq (by rw [← he])) Nat.le_of_lt
  · intro hlength
    exact (eq_encode_or_longer h).resolve_right (by omega)
  · obtain ⟨a, ha, rfl⟩ := recode_eq_ok.1 h
    exact recode_eq_ok.2 ⟨a, decode_encode_of_decode ha, rfl⟩

/-- A fragment whose numbers and lengths are longer than they need to be. -/
def overlongFragmentParts : List Octets :=
  [[251, 0, 0], [252, 2, 0, 0, 0], [5], [251, 1, 0, 7], [0], [253, 2, 0, 0, 0, 0, 0, 0, 0],
    [252, 2, 0, 0, 0, 8, 9]]

theorem overlongRecords_shortened :
    let spelling := tag Header ++ overlongParts.flatten
    let spelling' := tag Fragment ++ overlongFragmentParts.flatten
    let h : Header := ⟨2, [7], 5, 3⟩
    let f : Fragment := ⟨0, 2, 5, [7], [], 2, [8, 9]⟩
    (decode Header spelling = .ok h ∧ decode Header (encode h) = .ok h ∧
      (encode h).length ≤ spelling.length ∧
      ((encode h).length = spelling.length ↔ spelling = encode h)) ∧
    (decode Fragment spelling' = .ok f ∧ decode Fragment (encode f) = .ok f ∧
      (encode f).length ≤ spelling'.length ∧
      ((encode f).length = spelling'.length ↔ spelling' = encode f)) ∧
    encode h ≠ encode { h with size := 4 } ∧
    recode Fragment spelling' = .ok (encode f) ∧ recode Fragment (encode f) = .ok (encode f) := by
  intro spelling spelling' h f
  have hread : decode Header spelling = .ok h := by decide
  have hread' : decode Fragment spelling' = .ok f := by decide
  have haddressable : ∀ size, ∀ x ∈ Layout.fields { h with size }, x.Addressable := by
    simp [Layout.fields, Field.Addressable, UInt64.size, h]
  have hrecode : recode Fragment spelling' = .ok (encode f) := by rw [recode, hread']; rfl
  refine ⟨⟨hread, (encode_shortest Header).1 _ _ hread⟩,
    ⟨hread', (encode_shortest Fragment).1 _ _ hread'⟩, fun he => ?_, hrecode,
    (encode_shortest Fragment).2.2 _ _ hrecode⟩
  have hsame :=
    (encode_shortest Header).2.1 h { h with size := 4 } (haddressable 3) (haddressable 4) he
  exact absurd hsame (by decide)

end FragmentRelay.Wire
