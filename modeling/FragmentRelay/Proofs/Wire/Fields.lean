import FragmentRelay.Wire.Record
import Mathlib.Algebra.Group.Nat.Defs
import Mathlib.Data.List.Forall2
import Mathlib.Tactic.Common

/-!
# Fields: records as lists of numbers and byte strings

A record is written field by field. A field is a number of 32 or 64 bits or a byte string, and a
number has several forms: the shortest one, which writing picks, and longer ones, which reading
accepts as well. `Layout` says that a type of records is written and read as the list of its fields,
so that facts about reading are proved once for lists of fields, by induction, and hold of headers
and of fragments.

* `NumberForm.unique`, `Form.unique`: no byte string starts with two forms of one kind of field.
* `Reading.fields_of_forms`: fields in any forms are read unless their claims pass the limit.
* `Reading.exists_forms`: whatever is read was written as forms of its fields.
-/

namespace FragmentRelay.Wire

/-! ### Forms of numbers -/

/-- The forms of a number: its own byte, or a marker and two, four or, in a wide field only, eight
bytes, the lowest first. -/
inductive NumberForm : Bool → Nat → Octets → Prop where
  | one {wide : Bool} {n : Nat} (h : n < 251) : NumberForm wide n [UInt8.ofNat n]
  | two {wide : Bool} {n : Nat} (h : n < UInt16.size) :
      NumberForm wide n (251 :: Octets.ofNatLE 2 n)
  | four {wide : Bool} {n : Nat} (h : n < UInt32.size) :
      NumberForm wide n (252 :: Octets.ofNatLE 4 n)
  | eight {n : Nat} (h : n < UInt64.size) : NumberForm true n (253 :: Octets.ofNatLE 8 n)

theorem splitOctets_append (front rest : Octets) :
    splitOctets front.length (front ++ rest) = .ok (front, rest) := by
  simp [splitOctets]

theorem toNatLE_ofNatLE {w n : Nat} (h : n < 256 ^ w) : (Octets.ofNatLE w n).toNatLE = n := by
  induction w generalizing n with
  | zero =>
    obtain rfl : n = 0 := Nat.lt_one_iff.1 h
    rfl
  | succ w ih =>
    have hd : n / 256 < 256 ^ w := by
      rw [pow_succ] at h
      exact (Nat.div_lt_iff_lt_mul (by decide)).2 h
    simp only [Octets.ofNatLE, Octets.toNatLE, ih hd, UInt8.toNat_ofNat']
    omega

theorem readFixed_ofNatLE {w n : Nat} (h : n < 256 ^ w) (rest : Octets) :
    readFixed w (Octets.ofNatLE w n ++ rest) = .ok (n, rest) := by
  have hs := splitOctets_append (Octets.ofNatLE w n) rest
  rw [Octets.length_ofNatLE] at hs
  simp [readFixed, hs, toNatLE_ofNatLE h]

theorem ofNat_lt_251 {n : Nat} (h : n < 251) : UInt8.ofNat n < 251 := by
  rw [UInt8.lt_iff_toNat_lt, UInt8.toNat_ofNat']
  exact lt_of_eq_of_lt (Nat.mod_eq_of_lt (by omega)) h

theorem toNat_ofNat_lt_251 {n : Nat} (h : n < 251) : (UInt8.ofNat n).toNat = n := by
  rw [UInt8.toNat_ofNat']
  omega

theorem readNat32_of_form {n : Nat} {front : Octets} (h : NumberForm false n front)
    (rest : Octets) : readNat32 (front ++ rest) = .ok (n, rest) := by
  cases h with
  | one h => simp [readNat32, ofNat_lt_251 h, toNat_ofNat_lt_251 h]
  | two h => simpa [readNat32] using readFixed_ofNatLE (w := 2) h rest
  | four h => simpa [readNat32] using readFixed_ofNatLE (w := 4) h rest

theorem readNat64_of_form {n : Nat} {front : Octets} (h : NumberForm true n front) (rest : Octets) :
    readNat64 (front ++ rest) = .ok (n, rest) := by
  cases h with
  | one h => simp [readNat64, ofNat_lt_251 h, toNat_ofNat_lt_251 h]
  | two h => simpa [readNat64] using readFixed_ofNatLE (w := 2) h rest
  | four h => simpa [readNat64] using readFixed_ofNatLE (w := 4) h rest
  | eight h => simpa [readNat64] using readFixed_ofNatLE (w := 8) h rest

/-- A wide field allows every form of a narrow one. -/
theorem NumberForm.widen {wide : Bool} {n : Nat} {front : Octets} (h : NumberForm wide n front) :
    NumberForm true n front := by
  cases h with
  | one h => exact .one h
  | two h => exact .two h
  | four h => exact .four h
  | eight h => exact .eight h

theorem NumberForm.lt {wide : Bool} {n : Nat} {front : Octets} (h : NumberForm wide n front) :
    n < UInt64.size := by
  cases h with
  | one h => exact Nat.lt_trans h (by decide)
  | two h => exact Nat.lt_trans h (by decide)
  | four h => exact Nat.lt_trans h (by decide)
  | eight h => exact h

theorem NumberForm.lt_of_narrow {n : Nat} {front : Octets} (h : NumberForm false n front) :
    n < UInt32.size := by
  cases h with
  | one h => exact Nat.lt_trans h (by decide)
  | two h => exact Nat.lt_trans h (by decide)
  | four h => exact h

/-- **No byte string starts with two forms.** -/
theorem NumberForm.unique {wide : Bool} {n n' : Nat} {front front' rest rest' : Octets}
    (h : NumberForm wide n front) (h' : NumberForm wide n' front')
    (he : front ++ rest = front' ++ rest') : n = n' ∧ front = front' ∧ rest = rest' := by
  have hr := readNat64_of_form h.widen rest
  rw [he, readNat64_of_form h'.widen rest'] at hr
  cases hr
  exact ⟨rfl, List.append_cancel_right he, rfl⟩

theorem toNatLE_lt (bs : Octets) : bs.toNatLE < 256 ^ bs.length := by
  induction bs with
  | nil => decide
  | cons b r ih =>
    have := b.toNat_lt
    rw [Octets.toNatLE, List.length_cons, pow_succ]
    omega

theorem ofNatLE_toNatLE (bs : Octets) : Octets.ofNatLE bs.length bs.toNatLE = bs := by
  induction bs with
  | nil => rfl
  | cons b bs ih =>
    have hb := b.toNat_lt
    have hlow : UInt8.ofNat (b.toNat + 256 * Octets.toNatLE bs) = b := by
      apply UInt8.toNat_inj.1
      rw [UInt8.toNat_ofNat']
      omega
    have hhigh : (b.toNat + 256 * Octets.toNatLE bs) / 256 = Octets.toNatLE bs := by omega
    simp only [List.length_cons, Octets.toNatLE, Octets.ofNatLE, hlow, hhigh, ih]

theorem exists_of_readFixed {w n : Nat} {bs rest : Octets} (h : readFixed w bs = .ok (n, rest)) :
    bs = Octets.ofNatLE w n ++ rest ∧ n < 256 ^ w := by
  unfold readFixed splitOctets at h
  split at h
  · rename_i front rest' hs
    split_ifs at hs with hle
    cases hs
    cases h
    have hlen : (bs.take w).length = w := by rw [List.length_take, Nat.min_eq_left hle]
    have hback := ofNatLE_toNatLE (bs.take w)
    rw [hlen] at hback
    have hlt := toNatLE_lt (bs.take w)
    rw [hlen] at hlt
    exact ⟨by rw [hback, List.take_append_drop], hlt⟩
  · cases h

theorem NumberForm.of_lt {wide : Bool} {b : UInt8} (h : b < 251) : NumberForm wide b.toNat [b] := by
  have hb : b.toNat < 251 := UInt8.lt_iff_toNat_lt.1 h
  have hform : NumberForm wide b.toNat [UInt8.ofNat b.toNat] := .one hb
  rwa [UInt8.ofNat_toNat] at hform

theorem exists_form_of_readNat32 {n : Nat} {bs rest : Octets} (h : readNat32 bs = .ok (n, rest)) :
    ∃ front, bs = front ++ rest ∧ NumberForm false n front := by
  cases bs with
  | nil => cases h
  | cons b bs =>
    simp only [readNat32] at h
    split_ifs at h with h₁ h₂ h₃
    · cases h
      exact ⟨[b], rfl, .of_lt h₁⟩
    · obtain ⟨rfl, hn⟩ := exists_of_readFixed h
      exact ⟨_, by rw [h₂]; rfl, .two hn⟩
    · obtain ⟨rfl, hn⟩ := exists_of_readFixed h
      exact ⟨_, by rw [h₃]; rfl, .four hn⟩

theorem exists_form_of_readNat64 {n : Nat} {bs rest : Octets} (h : readNat64 bs = .ok (n, rest)) :
    ∃ front, bs = front ++ rest ∧ NumberForm true n front := by
  cases bs with
  | nil => cases h
  | cons b bs =>
    simp only [readNat64] at h
    split_ifs at h with h₁ h₂ h₃ h₄
    · cases h
      exact ⟨[b], rfl, .of_lt h₁⟩
    · obtain ⟨rfl, hn⟩ := exists_of_readFixed h
      exact ⟨_, by rw [h₂]; rfl, .two hn⟩
    · obtain ⟨rfl, hn⟩ := exists_of_readFixed h
      exact ⟨_, by rw [h₃]; rfl, .four hn⟩
    · obtain ⟨rfl, hn⟩ := exists_of_readFixed h
      exact ⟨_, by rw [h₄]; rfl, .eight hn⟩

theorem writeNat_form {n : Nat} (h : n < UInt64.size) : NumberForm true n (writeNat n) := by
  unfold writeNat
  split_ifs with h₁ h₂ h₃
  · exact .one h₁
  · exact .two h₂
  · exact .four h₃
  · exact .eight h

theorem writeNat_form_narrow {n : Nat} (h : n < UInt32.size) : NumberForm false n (writeNat n) := by
  unfold writeNat
  split_ifs with h₁ h₂
  · exact .one h₁
  · exact .two h₂
  · exact .four h

/-! ### Fields -/

/-- What a field holds. -/
inductive Field where
  | word32 (n : UInt32)
  | word64 (n : UInt64)
  | octets (bs : Octets)
deriving DecidableEq

/-- The kinds of fields. -/
inductive Kind where
  | word32
  | word64
  | octets
deriving DecidableEq

namespace Field

/-- The kind of a field. -/
def kind : Field → Kind
  | word32 _ => .word32
  | word64 _ => .word64
  | octets _ => .octets

/-- The size that a field claims when it is read. -/
def claimed : Field → Nat
  | word32 _ => 4
  | word64 _ => 8
  | octets bs => 8 + bs.length

/-- A field in its shortest form. -/
def write : Field → Octets
  | word32 n => writeNat n.toNat
  | word64 n => writeNat n.toNat
  | octets bs => writeOctets bs

/-- The length of a byte string is a 64-bit number, as that of every byte string in memory is. -/
def Addressable : Field → Prop
  | octets bs => bs.length < UInt64.size
  | _ => True

end Field

/-- The forms of a field: its number, or the length of its byte string and then the bytes. -/
inductive Form : Field → Octets → Prop where
  | word32 {n : UInt32} {front : Octets} (h : NumberForm false n.toNat front) :
      Form (.word32 n) front
  | word64 {n : UInt64} {front : Octets} (h : NumberForm true n.toNat front) :
      Form (.word64 n) front
  | octets {bs front : Octets} (h : NumberForm true bs.length front) :
      Form (.octets bs) (front ++ bs)

theorem Field.write_form {f : Field} (h : f.Addressable) : Form f f.write := by
  cases f with
  | word32 n => exact .word32 (writeNat_form_narrow n.toNat_lt)
  | word64 n => exact .word64 (writeNat_form n.toNat_lt)
  | octets bs => exact .octets (writeNat_form h)

/-- **No byte string starts with two forms of one kind.** -/
theorem Form.unique {f f' : Field} {part part' rest rest' : Octets} (h : Form f part)
    (h' : Form f' part') (hk : f.kind = f'.kind) (he : part ++ rest = part' ++ rest') :
    f = f' ∧ part = part' ∧ rest = rest' := by
  cases h with
  | word32 hn =>
    cases h' with
    | word32 hn' =>
      obtain ⟨hnat, hpart, hrest⟩ := hn.unique hn' he
      exact ⟨congrArg Field.word32 (UInt32.toNat_inj.1 hnat), hpart, hrest⟩
    | word64 _ => cases hk
    | octets _ => cases hk
  | word64 hn =>
    cases h' with
    | word32 _ => cases hk
    | word64 hn' =>
      obtain ⟨hnat, hpart, hrest⟩ := hn.unique hn' he
      exact ⟨congrArg Field.word64 (UInt64.toNat_inj.1 hnat), hpart, hrest⟩
    | octets _ => cases hk
  | octets hn =>
    cases h' with
    | word32 _ => cases hk
    | word64 _ => cases hk
    | octets hn' =>
      rw [List.append_assoc, List.append_assoc] at he
      obtain ⟨hlen, hfront, hbytes⟩ := hn.unique hn' he
      obtain ⟨rfl, hrest⟩ := List.append_inj hbytes hlen
      exact ⟨rfl, by rw [hfront], hrest⟩

theorem forms_unique {fs fs' : List Field} {parts parts' : List Octets}
    (h : List.Forall₂ Form fs parts) (h' : List.Forall₂ Form fs' parts')
    (hk : fs.map Field.kind = fs'.map Field.kind) (he : parts.flatten = parts'.flatten) :
    fs = fs' ∧ parts = parts' := by
  induction h generalizing fs' parts' with
  | nil =>
    cases h' with
    | nil => exact ⟨rfl, rfl⟩
    | cons _ _ => cases hk
  | cons hf hfs ih =>
    cases h' with
    | nil => cases hk
    | cons hf' hfs' =>
      rw [List.map_cons, List.map_cons, List.cons.injEq] at hk
      obtain ⟨rfl, rfl, hrest⟩ := hf.unique hf' hk.1 he
      obtain ⟨rfl, rfl⟩ := ih hfs' hk.2 hrest
      exact ⟨rfl, rfl⟩

/-- The size that some fields claim together. -/
def claimedBy : List Field → Nat
  | [] => 0
  | f :: fs => f.claimed + claimedBy fs

/-! ### Reading fields -/

namespace Reading

/-- Takes a field of a kind. -/
def field (r : Reading) : Kind → Except Fault (Field × Reading)
  | .word32 => (fun p => (.word32 p.1, p.2)) <$> r.word32
  | .word64 => (fun p => (.word64 p.1, p.2)) <$> r.word64
  | .octets => (fun p => (.octets p.1, p.2)) <$> r.octets

/-- Takes fields of some kinds, one after another. -/
def fields : List Kind → Reading → Except Fault (List Field × Reading)
  | [], r => pure ([], r)
  | k :: ks, r => do
    let (f, r) ← r.field k
    let (fs, r) ← fields ks r
    return (f :: fs, r)

theorem bind_eq_ok {ε α β : Type} {x : Except ε α} {f : α → Except ε β} {b : β} :
    (x >>= f) = .ok b ↔ ∃ a, x = .ok a ∧ f a = .ok b := by
  cases x with
  | error e => simp [bind, Except.bind]
  | ok a => simp [bind, Except.bind]

theorem claimed_of_claim {size : Nat} {r r' : Reading} (h : r.claim size = .ok r') :
    r'.claimed = r.claimed + size ∧ r'.claimed ≤ maxRecordLength := by
  unfold claim at h
  split at h
  · cases h; exact ⟨rfl, by assumption⟩
  · cases h

theorem claimed_of_word32 {r r' : Reading} {n : UInt32} (h : r.word32 = .ok (n, r')) :
    r'.claimed = r.claimed + 4 ∧ r'.claimed ≤ maxRecordLength := by
  simp only [word32, bind_eq_ok] at h
  obtain ⟨r₁, hc, p, hp, he⟩ := h
  cases he
  have hr := claimed_of_claim hc
  exact hr

theorem claimed_of_nat64 {r r' : Reading} {n : Nat} (h : r.nat64 = .ok (n, r')) :
    r'.claimed = r.claimed + 8 ∧ r'.claimed ≤ maxRecordLength := by
  simp only [nat64, bind_eq_ok] at h
  obtain ⟨r₁, hc, p, hp, he⟩ := h
  cases he
  have hr := claimed_of_claim hc
  exact hr

theorem claimed_of_word64 {r r' : Reading} {n : UInt64} (h : r.word64 = .ok (n, r')) :
    r'.claimed = r.claimed + 8 ∧ r'.claimed ≤ maxRecordLength := by
  simp only [word64, bind_eq_ok] at h
  obtain ⟨p, hp, he⟩ := h
  cases he
  exact claimed_of_nat64 hp

theorem claimed_of_octets {r r' : Reading} {bs : Octets} (h : r.octets = .ok (bs, r')) :
    r'.claimed = r.claimed + 8 + bs.length ∧ r'.claimed ≤ maxRecordLength := by
  simp only [octets, bind_eq_ok] at h
  obtain ⟨⟨length, r₁⟩, hn, r₂, hc, ⟨front, rest⟩, hs, he⟩ := h
  cases he
  unfold splitOctets at hs
  split_ifs at hs with hl
  cases hs
  have h₁ := claimed_of_nat64 hn
  have h₂ := claimed_of_claim hc
  simp only [List.length_take, Nat.min_eq_left hl] at h₁ h₂ ⊢
  omega

theorem word32_of_form {n : UInt32} {front : Octets} (h : NumberForm false n.toNat front)
    (rest : Octets) (c : Nat) :
    word32 ⟨front ++ rest, c⟩ =
      if c + 4 ≤ maxRecordLength then .ok (n, ⟨rest, c + 4⟩) else .error .limitExceeded := by
  have hn := readNat32_of_form h rest
  simp only [word32, claim]
  split_ifs with hc
  · simp [bind, Except.bind, hn, pure, Except.pure]
  · rfl

theorem nat64_of_form {n : Nat} {front : Octets} (h : NumberForm true n front)
    (rest : Octets) (c : Nat) :
    nat64 ⟨front ++ rest, c⟩ =
      if c + 8 ≤ maxRecordLength then .ok (n, ⟨rest, c + 8⟩) else .error .limitExceeded := by
  have hn := readNat64_of_form h rest
  simp only [nat64, claim]
  split_ifs with hc
  · simp [bind, Except.bind, hn, pure, Except.pure]
  · rfl

theorem word64_of_form {n : UInt64} {front : Octets} (h : NumberForm true n.toNat front)
    (rest : Octets) (c : Nat) :
    word64 ⟨front ++ rest, c⟩ =
      if c + 8 ≤ maxRecordLength then .ok (n, ⟨rest, c + 8⟩) else .error .limitExceeded := by
  simp only [word64, nat64_of_form h]
  split_ifs with hc
  · simp [bind, Except.bind, pure, Except.pure]
  · rfl

theorem octets_of_form {bs front : Octets} (h : NumberForm true bs.length front)
    (rest : Octets) (c : Nat) :
    octets ⟨front ++ bs ++ rest, c⟩ =
      if c + (8 + bs.length) ≤ maxRecordLength then .ok (bs, ⟨rest, c + (8 + bs.length)⟩)
      else .error .limitExceeded := by
  simp only [octets, List.append_assoc, nat64_of_form h]
  by_cases h₈ : c + 8 ≤ maxRecordLength
  · simp only [if_pos h₈, bind, Except.bind, claim, Nat.add_assoc]
    split_ifs with hc
    · simp [splitOctets_append, pure, Except.pure]
    · rfl
  · have hc : ¬ c + (8 + bs.length) ≤ maxRecordLength := by omega
    rw [if_neg h₈, if_neg hc]
    rfl

theorem map_ite {ε α β : Type} {p : Prop} [Decidable p] (g : α → β) (a : α) (e : ε) :
    g <$> (if p then Except.ok a else .error e) = if p then .ok (g a) else .error e := by
  split_ifs <;> rfl

theorem field_of_form {f : Field} {part : Octets} (h : Form f part) (rest : Octets) (c : Nat) :
    field ⟨part ++ rest, c⟩ f.kind =
      if c + f.claimed ≤ maxRecordLength then .ok (f, ⟨rest, c + f.claimed⟩)
        else .error .limitExceeded := by
  cases h with
  | word32 h => exact (congrArg _ (word32_of_form h rest c)).trans (map_ite _ _ _)
  | word64 h => exact (congrArg _ (word64_of_form h rest c)).trans (map_ite _ _ _)
  | octets h => exact (congrArg _ (octets_of_form h rest c)).trans (map_ite _ _ _)

/-- **Fields in any forms are read unless their claims pass the limit.** -/
theorem fields_of_forms {fs : List Field} {parts : List Octets}
    (h : List.Forall₂ Form fs parts) (rest : Octets) {c : Nat} (hc : c ≤ maxRecordLength) :
    fields (fs.map Field.kind) ⟨parts.flatten ++ rest, c⟩ =
      if c + claimedBy fs ≤ maxRecordLength then .ok (fs, ⟨rest, c + claimedBy fs⟩)
      else .error .limitExceeded := by
  induction h generalizing c with
  | nil => simp [fields, claimedBy, hc, pure, Except.pure]
  | @cons f part fs parts hf _ ih =>
    simp only [List.map_cons, List.flatten_cons, List.append_assoc, fields,
      field_of_form hf, claimedBy, ← Nat.add_assoc]
    by_cases hfield : c + f.claimed ≤ maxRecordLength
    · simp only [if_pos hfield, bind, Except.bind, ih hfield]
      split_ifs <;> rfl
    · have hall : ¬ c + f.claimed + claimedBy fs ≤ maxRecordLength := by omega
      rw [if_neg hfield, if_neg hall]
      rfl

theorem rest_of_claim {size : Nat} {r r' : Reading} (h : r.claim size = .ok r') :
    r'.rest = r.rest := by
  unfold claim at h
  split_ifs at h
  cases h
  rfl

theorem exists_form_of_nat64 {r r' : Reading} {n : Nat} (h : r.nat64 = .ok (n, r')) :
    ∃ front, r.rest = front ++ r'.rest ∧ NumberForm true n front := by
  simp only [nat64, bind_eq_ok] at h
  obtain ⟨r₁, hc, ⟨m, rest⟩, hn, he⟩ := h
  cases he
  rw [← rest_of_claim hc]
  exact exists_form_of_readNat64 hn

theorem map_eq_ok {ε α β : Type} {x : Except ε α} {g : α → β} {b : β} :
    g <$> x = .ok b ↔ ∃ a, x = .ok a ∧ g a = b := by
  cases x with
  | error e => simp [Functor.map, Except.map]
  | ok a => simp [Functor.map, Except.map]

theorem map_eq_error {ε α β : Type} {x : Except ε α} {g : α → β} {e : ε} :
    g <$> x = .error e ↔ x = .error e := by
  cases x with
  | error e => simp [Functor.map, Except.map]
  | ok a => simp [Functor.map, Except.map]

theorem exists_form_of_word32 {r r' : Reading} {n : UInt32} (h : r.word32 = .ok (n, r')) :
    ∃ front, r.rest = front ++ r'.rest ∧ NumberForm false n.toNat front := by
  simp only [word32, bind_eq_ok] at h
  obtain ⟨r₁, hc, ⟨m, rest⟩, hn, he⟩ := h
  cases he
  obtain ⟨front, hrest, hform⟩ := exists_form_of_readNat32 hn
  refine ⟨front, by rw [← hrest, rest_of_claim hc], ?_⟩
  rwa [UInt32.toNat_ofNat_of_lt' hform.lt_of_narrow]

theorem exists_form_of_word64 {r r' : Reading} {n : UInt64} (h : r.word64 = .ok (n, r')) :
    ∃ front, r.rest = front ++ r'.rest ∧ NumberForm true n.toNat front := by
  simp only [word64, bind_eq_ok] at h
  obtain ⟨⟨m, r₁⟩, hn, he⟩ := h
  cases he
  obtain ⟨front, hrest, hform⟩ := exists_form_of_nat64 hn
  refine ⟨front, hrest, ?_⟩
  rwa [UInt64.toNat_ofNat_of_lt' hform.lt]

theorem exists_form_of_octets {r r' : Reading} {bs : Octets} (h : r.octets = .ok (bs, r')) :
    ∃ front, r.rest = front ++ bs ++ r'.rest ∧ NumberForm true bs.length front := by
  simp only [octets, bind_eq_ok] at h
  obtain ⟨⟨length, r₁⟩, hn, r₂, hc, ⟨front, rest⟩, hs, he⟩ := h
  cases he
  obtain ⟨part, hrest, hform⟩ := exists_form_of_nat64 hn
  unfold splitOctets at hs
  split_ifs at hs with hle
  cases hs
  have hlen : (r₂.rest.take length).length = length := by rw [List.length_take, Nat.min_eq_left hle]
  refine ⟨part, ?_, by rwa [hlen]⟩
  rw [List.append_assoc, List.take_append_drop, rest_of_claim hc, hrest]

theorem exists_form {k : Kind} {r r' : Reading} {f : Field} (h : r.field k = .ok (f, r')) :
    f.kind = k ∧ (∃ part, r.rest = part ++ r'.rest ∧ Form f part) ∧
    r'.claimed = r.claimed + f.claimed ∧
      r'.claimed ≤ maxRecordLength := by
  cases k with
  | word32 =>
    obtain ⟨⟨n, r₁⟩, hn, he⟩ := map_eq_ok.1 h
    cases he
    obtain ⟨front, hrest, hform⟩ := exists_form_of_word32 hn
    exact ⟨rfl, ⟨front, hrest, .word32 hform⟩, claimed_of_word32 hn⟩
  | word64 =>
    obtain ⟨⟨n, r₁⟩, hn, he⟩ := map_eq_ok.1 h
    cases he
    obtain ⟨front, hrest, hform⟩ := exists_form_of_word64 hn
    exact ⟨rfl, ⟨front, hrest, .word64 hform⟩, claimed_of_word64 hn⟩
  | octets =>
    obtain ⟨⟨bs, r₁⟩, hn, he⟩ := map_eq_ok.1 h
    cases he
    obtain ⟨front, hrest, hform⟩ := exists_form_of_octets hn
    obtain ⟨hclaimed, hle⟩ := claimed_of_octets hn
    exact ⟨rfl, ⟨front ++ bs, hrest, .octets hform⟩, by rw [hclaimed, Nat.add_assoc]; rfl, hle⟩

/-- **Whatever is read was written as forms of its fields.** -/
theorem exists_forms {ks : List Kind} {r r' : Reading} {fs : List Field}
    (h : r.fields ks = .ok (fs, r')) (hr : r.claimed ≤ maxRecordLength) :
    (∃ parts, r.rest = parts.flatten ++ r'.rest ∧ List.Forall₂ Form fs parts) ∧
      r'.claimed = r.claimed + claimedBy fs ∧ r'.claimed ≤ maxRecordLength := by
  induction ks generalizing r fs with
  | nil =>
    cases h
    exact ⟨⟨[], rfl, .nil⟩, rfl, hr⟩
  | cons k ks ih =>
    simp only [fields, bind_eq_ok] at h
    obtain ⟨⟨f, r₁⟩, hf, ⟨fs', r₂⟩, hfs, he⟩ := h
    cases he
    obtain ⟨-, ⟨part, hpart, hform⟩, hclaimed, hle⟩ := exists_form hf
    obtain ⟨⟨parts, hparts, hforms⟩, hclaimed', hle'⟩ := ih hfs hle
    refine ⟨⟨part :: parts, ?_, .cons hform hforms⟩, ?_, hle'⟩
    · rw [hpart, hparts, List.flatten_cons, List.append_assoc]
    · rw [hclaimed', hclaimed, claimedBy, Nat.add_assoc]

end Reading

/-! ### Records -/

/-- A type of records whose bytes are its fields in a fixed order. -/
class Layout (α : Type) [Record α] where
  kinds : List Kind
  fields : α → List Field
  fields_injective : Function.Injective fields
  kinds_fields : ∀ a, (fields a).map Field.kind = kinds
  length_tag : (tag α).length = tagLength
  write_eq : ∀ a : α, Record.write a = ((fields a).map Field.write).flatten
  read_eq : ∀ r : Reading, r.fields kinds =
    (fun p : α × Reading => (fields p.1, p.2)) <$> Record.read r

/-- A header holds its cardinality, its checksum, its nonce and its size. -/
instance : Layout Header where
  kinds := [.word32, .octets, .word64, .word64]
  fields h := [.word32 h.cardinality, .octets h.checksum, .word64 h.nonce, .word64 h.size]
  fields_injective h h' he := by
    cases h; cases h'
    simpa using he
  kinds_fields _ := rfl
  length_tag := rfl
  write_eq h := by simp [Record.write, Field.write]
  read_eq r := by simp [Reading.fields, Reading.field, Record.read]

/-- A fragment holds its index, its cardinality, its nonce, the checksum of the whole payload, its
own checksum, its size and its bytes. -/
instance : Layout Fragment where
  kinds := [.word32, .word32, .word64, .octets, .octets, .word64, .octets]
  fields f :=
    [.word32 f.index, .word32 f.cardinality, .word64 f.nonce, .octets f.reassembledChecksum,
      .octets f.checksum, .word64 f.payloadSize, .octets f.payload]
  fields_injective f f' he := by
    cases f; cases f'
    simpa using he
  kinds_fields _ := rfl
  length_tag := rfl
  write_eq f := by simp [Record.write, Field.write]
  read_eq r := by simp [Reading.fields, Reading.field, Record.read]

end FragmentRelay.Wire
