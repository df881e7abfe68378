import FragmentRelay.Proofs.Store.Vanishing
import Mathlib.Data.List.TakeWhile
import Mathlib.Data.Nat.Digits.Defs

/-!
# Numerals: which bytes are a counter

A byte string is a counter if it is the text of a number: one or more decimal digits after a sign or
none, with any blanks around them (`Spelling`). A number has many spellings, with leading zeros, a
plus or blanks, and one that has none of these, in which it is written. Reading may look at the
range at the end or at every digit: a number that has left the range does not come back.

* `Text.trim_append_of_blank`, `Text.trim_append_blank`, `Text.exists_trim`: what trimming takes
  away.
* `Counter.Spelling.Sound.decode`, `Counter.exists_spelling`: spellings are read, and what is read
  is one.
* `Counter.decode_eq_stream?`: the range looked at once and at every digit.
* `Counter.Spelling.Canonical.eq_ofInt`: the one spelling that is written.
* `Store.play_increments`: increments in a row.
* `Counter.codec_exact`: all of it.
-/

namespace FragmentRelay

/-! ### Blanks -/

namespace Text

theorem trim_append_of_blank {front : List Char} (h : ∀ c ∈ front, isBlank c = true)
    (cs : List Char) : trim (front ++ cs) = trim cs := by
  rw [trim, List.dropWhile_append_of_pos h, trim]

theorem trim_append_blank {back : List Char} (h : ∀ c ∈ back, isBlank c = true) (cs : List Char) :
    trim (cs ++ back) = trim cs := by
  unfold trim
  rw [List.dropWhile_append]
  split
  · rename_i hempty
    have hback : back.dropWhile isBlank = [] := List.dropWhile_eq_nil_iff.2 h
    rw [List.isEmpty_iff.1 hempty, hback]
  · have hreverse : ∀ c ∈ back.reverse, isBlank c = true := fun c hc => h c (List.mem_reverse.1 hc)
    rw [List.reverse_append, List.dropWhile_append_of_pos hreverse]

theorem exists_trim (cs : List Char) :
    ∃ front back, cs = front ++ trim cs ++ back ∧ (∀ c ∈ front, isBlank c = true) ∧
      ∀ c ∈ back, isBlank c = true := by
  refine ⟨cs.takeWhile isBlank, ((cs.dropWhile isBlank).reverse.takeWhile isBlank).reverse,
    ?_, fun c hc => ?_, fun c hc => ?_⟩
  · rw [trim, List.append_assoc, ← List.reverse_append, List.takeWhile_append_dropWhile,
      List.reverse_reverse, List.takeWhile_append_dropWhile]
  · exact List.mem_takeWhile_imp hc
  · exact List.mem_takeWhile_imp (List.mem_reverse.1 hc)

end Text

namespace Octets

theorem toText?_eq_some_iff {bs : Octets} {s : String} : bs.toText? = some s ↔ bs = ofText s := by
  constructor
  · intro h
    unfold toText? String.fromUTF8? at h
    split at h
    · cases h
      rfl
    · cases h
  · rintro rfl
    exact toText?_ofText s

end Octets

/-! ### Digits -/

namespace Decimal

/-- The number that digits write, each worth ten times the one behind it. -/
def worth (digits : List Char) : Nat := Nat.ofDigits 10 (digits.map fun c => c.toNat - 48).reverse

theorem worth_concat (digits : List Char) (c : Char) :
    worth (digits ++ [c]) = c.toNat - 48 + 10 * worth digits := by
  rw [worth, List.map_append, List.reverse_append]
  exact Nat.ofDigits_cons

theorem ofDigitChars_eq_worth (digits : List Char) :
    Nat.ofDigitChars 10 digits 0 = worth digits := by
  induction digits using List.reverseRecOn with
  | nil => rfl
  | append_singleton digits c ih =>
    rw [Nat.ofDigitChars_append, ih, Nat.ofDigitChars_cons, Nat.ofDigitChars_nil,
      worth_concat, Nat.add_comm]
    rfl

theorem digits?_eq_some_iff {cs : List Char} {n : Nat} :
    digits? cs = some n ↔ cs ≠ [] ∧ (∀ c ∈ cs, c.isDigit = true) ∧ n = worth cs := by
  simp only [digits?, ofDigitChars_eq_worth, List.all_eq_true]
  split
  · rename_i h
    rw [Option.some.injEq]
    exact ⟨fun he => ⟨h.1, h.2, he.symm⟩, fun h => h.2.2.symm⟩
  · rename_i h
    rw [iff_false_left (Option.some_ne_none n).symm]
    rintro ⟨hne, hall, -⟩
    exact h ⟨hne, hall⟩

end Decimal

/-! ### Spellings -/

namespace Counter

/-- A text in four parts: what is in front of a number, its sign, its digits and what is behind
it. -/
structure Spelling where
  front : List Char := []
  sign : List Char := []
  digits : List Char
  back : List Char := []

namespace Spelling

variable {p : Spelling} {v : Int}

/-- The whole text. -/
def text (p : Spelling) : List Char := p.front ++ (p.sign ++ p.digits) ++ p.back

/-- The text as bytes. -/
def bytes (p : Spelling) : Octets := Octets.ofText (String.ofList p.text)

/-- The number that is written. -/
def value (p : Spelling) : Int :=
  if p.sign = ['-'] then -(Decimal.worth p.digits : Int) else Decimal.worth p.digits

/-- One or more decimal digits after a plus, a minus or no sign, between blanks. -/
structure Sound (p : Spelling) : Prop where
  front : ∀ c ∈ p.front, Text.isBlank c = true
  sign : p.sign = [] ∨ p.sign = ['+'] ∨ p.sign = ['-']
  digits_ne : p.digits ≠ []
  digits : ∀ c ∈ p.digits, c.isDigit = true
  back : ∀ c ∈ p.back, Text.isBlank c = true

theorem Sound.digits? (h : p.Sound) : Decimal.digits? p.digits = some (Decimal.worth p.digits) :=
  Decimal.digits?_eq_some_iff.2 ⟨h.digits_ne, h.digits, rfl⟩

theorem Sound.int? (h : p.Sound) : Decimal.int? (p.sign ++ p.digits) = some p.value := by
  rcases h.sign with hs | hs | hs
  · obtain ⟨c, cs, hcs⟩ := List.exists_cons_of_ne_nil h.digits_ne
    have hc : c.isDigit = true := h.digits c (hcs ▸ List.mem_cons_self)
    rw [value, hs, List.nil_append, hcs, Decimal.int?_of_isDigit hc, ← hcs, h.digits?]
    rfl
  · rw [value, hs]
    simp [Decimal.int?, h.digits?]
  · rw [value, hs]
    simp [Decimal.int?, h.digits?]

theorem Sound.trim_text (h : p.Sound) : Text.trim p.text = p.sign ++ p.digits := by
  rw [text, Text.trim_append_blank h.back, Text.trim_append_of_blank h.front]
  obtain ⟨d, hd⟩ := Option.ne_none_iff_exists'.1 (mt List.getLast?_eq_none_iff.1 h.digits_ne)
  have hlast : Text.isBlank d = false :=
    Decimal.isBlank_of_isDigit (h.digits d (List.mem_of_getLast? hd))
  have hend : (p.sign ++ p.digits).getLast? = some d := by
    rw [List.getLast?_append, hd, Option.some_or]
  obtain ⟨c, cs, hcs⟩ :=
    List.exists_cons_of_ne_nil (List.append_ne_nil_of_right_ne_nil p.sign h.digits_ne)
  have hfirst : Text.isBlank c = false := by
    have hc : c ∈ p.sign ++ p.digits := hcs ▸ List.mem_cons_self
    rcases List.mem_append.1 hc with hc | hc
    · rcases h.sign with hs | hs | hs <;> rw [hs] at hc
      · cases hc
      · rw [List.mem_singleton.1 hc]
        decide
      · rw [List.mem_singleton.1 hc]
        decide
    · exact Decimal.isBlank_of_isDigit (h.digits c hc)
  rw [hcs] at hend ⊢
  exact Text.trim_of_not_blank hfirst hlast hend

/-- **A spelling is read as its number**, if that is within the range. -/
theorem Sound.decode (h : p.Sound) :
    Counter.decode p.bytes = if lowest ≤ p.value ∧ p.value ≤ highest
      then some p.value else none := by
  rw [Counter.decode, bytes, Octets.toText?_ofText]
  simp only [String.toList_ofList, h.trim_text, h.int?]
  by_cases hv : lowest ≤ p.value ∧ p.value ≤ highest <;> simp [Option.filter, hv]

end Spelling

theorem exists_sign {cs : List Char} {v : Int} (h : Decimal.int? cs = some v) :
    ∃ sign digits, cs = sign ++ digits ∧ (sign = [] ∨ sign = ['+'] ∨ sign = ['-']) ∧ digits ≠ [] ∧
      (∀ c ∈ digits, c.isDigit = true) ∧
      v = if sign = ['-'] then -(Decimal.worth digits : Int) else Decimal.worth digits := by
  unfold Decimal.int? at h
  split at h
  · obtain ⟨n, hn, rfl⟩ := Option.map_eq_some_iff.1 h
    obtain ⟨hne, hall, rfl⟩ := Decimal.digits?_eq_some_iff.1 hn
    exact ⟨['+'], _, rfl, .inr (.inl rfl), hne, hall, rfl⟩
  · obtain ⟨_, hz, rfl⟩ := Option.map_eq_some_iff.1 h
    obtain ⟨n, hn, hz⟩ := Option.bind_eq_some_iff.1 hz
    obtain ⟨hne, hall, rfl⟩ := Decimal.digits?_eq_some_iff.1 hn
    cases hz
    exact ⟨['-'], _, rfl, .inr (.inr rfl), hne, hall, rfl⟩
  · obtain ⟨n, hn, rfl⟩ := Option.map_eq_some_iff.1 h
    obtain ⟨hne, hall, rfl⟩ := Decimal.digits?_eq_some_iff.1 hn
    exact ⟨[], _, rfl, .inl rfl, hne, hall, rfl⟩

/-- **What is read is the number of a spelling.** -/
theorem exists_spelling {bs : Octets} {v : Int} (h : decode bs = some v) :
    ∃ p : Spelling, p.Sound ∧ bs = p.bytes ∧ p.value = v := by
  unfold decode at h
  split at h
  · cases h
  · rename_i s hs
    obtain ⟨sign, digits, htrim, hsign, hne, hall, rfl⟩ :=
      exists_sign (Option.filter_eq_some_iff.1 h).1
    obtain ⟨front, back, hcs, hfront, hback⟩ := Text.exists_trim s.toList
    refine ⟨⟨front, sign, digits, back⟩, ⟨hfront, hsign, hne, hall, hback⟩, ?_, rfl⟩
    rw [Octets.toText?_eq_some_iff.1 hs, Spelling.bytes, Spelling.text, ← htrim, ← hcs,
      String.ofList_toList]

/-! ### The range at every digit -/

/-- A number if it is within the range of counters. -/
def word? (v : Int) : Option Int := if lowest ≤ v ∧ v ≤ highest then some v else none

/-- Takes digits one by one behind those of a number, adding each or, below zero, taking it away. It
gives up at what is no digit and as soon as the number leaves the range. -/
def stream? (unit : Int) : Int → List Char → Option Int
  | v, [] => some v
  | v, c :: cs =>
    if c.isDigit then do
      let tens ← word? (v * 10)
      let next ← word? (tens + unit * (c.toNat - 48 : Nat))
      stream? unit next cs
    else none

/-- Takes one or more digits. -/
def unsigned? (unit : Int) (cs : List Char) : Option Int :=
  if cs = [] then none else stream? unit 0 cs

/-- Takes digits after a plus, a minus or no sign. -/
def signed? : List Char → Option Int
  | '+' :: cs => unsigned? 1 cs
  | '-' :: cs => unsigned? (-1) cs
  | cs => unsigned? 1 cs

theorem word?_cases (v : Int) : word? v = none ∨ word? v = some v := by
  unfold word?
  split
  · exact .inr rfl
  · exact .inl rfl

theorem le_ofDigitChars (n : Nat) (cs : List Char) : n ≤ Nat.ofDigitChars 10 cs n := by
  induction cs generalizing n with
  | nil => exact Nat.le_refl n
  | cons c cs ih =>
    rw [Nat.ofDigitChars_cons]
    exact Nat.le_trans (by omega) (ih _)

theorem word?_eq_none_of_le {unit : Int} (hunit : unit = 1 ∨ unit = -1) {m n : Nat} (hmn : m ≤ n)
    (h : word? (unit * m) = none) : word? (unit * n) = none := by
  have hlow : lowest ≤ 0 := by decide
  have hhigh : 0 ≤ highest := by decide
  unfold word? at h ⊢
  rcases hunit with rfl | rfl <;>
    simp only [ite_eq_right_iff, reduceCtorEq, imp_false, not_and_or] at h ⊢ <;> omega

theorem stream?_eq {unit : Int} (hunit : unit = 1 ∨ unit = -1) {n : Nat}
    (hn : word? (unit * n) = some (unit * n)) (cs : List Char) :
    stream? unit (unit * n) cs =
      if cs.all Char.isDigit = true then word? (unit * (Nat.ofDigitChars 10 cs n : Nat))
        else none := by
  induction cs generalizing n with
  | nil => simp [stream?, hn]
  | cons c cs ih =>
    cases hc : c.isDigit with
    | false => simp [stream?, hc]
    | true =>
      let d := c.toNat - 48
      have htens : unit * n * 10 = unit * (10 * n : Nat) := by push_cast; ring
      have hnext : unit * (10 * n : Nat) + unit * (d : Nat) = unit * (10 * n + d : Nat) := by
        push_cast; ring
      have hend : Nat.ofDigitChars 10 (c :: cs) n = Nat.ofDigitChars 10 cs (10 * n + d) :=
        Nat.ofDigitChars_cons
      have hgrow : 10 * n + d ≤ Nat.ofDigitChars 10 cs (10 * n + d) := le_ofDigitChars _ cs
      rw [stream?, if_pos hc, htens, hend, List.all_cons, hc, Bool.true_and]
      -- the product may leave the range, or the sum may; else the rest of the digits decides
      rcases word?_cases (unit * (10 * n : Nat)) with hout | hin
      · rw [hout, word?_eq_none_of_le hunit (Nat.le_trans (Nat.le_add_right _ d) hgrow) hout,
          ite_self]
        rfl
      · rw [hin, Option.bind_eq_bind, Option.bind_some, hnext]
        rcases word?_cases (unit * (10 * n + d : Nat)) with hout | hin
        · rw [hout, word?_eq_none_of_le hunit hgrow hout, ite_self]
          rfl
        · rw [hin, Option.bind_some, ih hin]

theorem unsigned?_eq {unit : Int} (hunit : unit = 1 ∨ unit = -1) (cs : List Char) :
    unsigned? unit cs = (Decimal.digits? cs).bind fun n => word? (unit * (n : Int)) := by
  have hzero : word? (unit * (0 : Nat)) = some (unit * (0 : Nat)) := by
    rcases hunit with rfl | rfl <;> rfl
  have hstream := stream?_eq hunit hzero cs
  rw [Int.natCast_zero, Int.mul_zero] at hstream
  unfold unsigned? Decimal.digits?
  by_cases hcs : cs = [] <;> by_cases hall : cs.all Char.isDigit = true <;>
    simp [hcs, hall, hstream]

theorem signed?_eq (cs : List Char) : signed? cs = (Decimal.int? cs).bind word? := by
  have hplus :
      ∀ digits, unsigned? 1 digits = ((Decimal.digits? digits).map Int.ofNat).bind word? := by
    intro digits
    rw [unsigned?_eq (.inl rfl), Option.bind_map]
    simp only [Function.comp_def, Int.one_mul, Int.ofNat_eq_natCast]
  have hminus : ∀ digits, unsigned? (-1) digits =
      ((Decimal.digits? digits).map fun n : Nat => -(n : Int)).bind word? := by
    intro digits
    rw [unsigned?_eq (.inr rfl), Option.bind_map]
    simp only [Function.comp_def, Int.neg_one_mul]
  unfold signed? Decimal.int?
  split
  · exact hplus _
  · exact (hminus _).trans (by simp [Option.map_eq_bind, Option.bind_assoc])
  · simp only [hplus]

/-- **It does not matter when the range is looked at**, at every digit or once at the end. -/
theorem decode_eq_stream? (bs : Octets) :
    decode bs = bs.toText?.bind fun s => signed? (Text.trim s.toList) := by
  rw [decode]
  cases bs.toText? with
  | none => rfl
  | some s =>
    simp only [Option.bind_some, signed?_eq]
    cases Decimal.int? (Text.trim s.toList) with
    | none => rfl
    | some v => simp [Option.filter, word?]

end Counter

/-! ### The spelling that is written -/

namespace Decimal

theorem head?_ofNat_ne {n : Nat} (h : 0 < n) : (ofNat n).head? ≠ some '0' := by
  induction n using Nat.strongRecOn with
  | ind n ih =>
    rcases Nat.lt_or_ge n 10 with hlt | hge
    · rw [ofNat, Nat.toDigits_of_lt_base hlt]
      intro hzero
      have hvalue := Nat.toNat_digitChar_of_lt_ten hlt
      rw [Option.some.inj hzero] at hvalue
      exact absurd hvalue (by simp; omega)
    · have hsplit : ofNat n = ofNat (n / 10) ++ [Nat.digitChar (n % 10)] :=
        Nat.toDigits_of_base_le (by decide) hge
      rw [hsplit, List.head?_append_of_ne_nil _ (ofNat_ne_nil _)]
      exact ih (n / 10) (by omega) (by omega)

theorem worth_ofNat (n : Nat) : worth (ofNat n) = n := by
  rw [← ofDigitChars_eq_worth, ofNat, Nat.ofDigitChars_ten_toDigits]

theorem toNat_sub_lt_of_isDigit {c : Char} (h : c.isDigit = true) :
    48 ≤ c.toNat ∧ c.toNat - 48 < 10 := by
  simp only [Char.isDigit, Bool.and_eq_true, decide_eq_true_eq, UInt32.le_iff_toNat_le] at h
  have hlow : 48 ≤ c.toNat := by simpa using h.1
  have hhigh : c.toNat ≤ 57 := by simpa using h.2
  omega

theorem toDigits_of_isDigit {c : Char} (h : c.isDigit = true) :
    Nat.toDigits 10 (c.toNat - 48) = [c] := by
  obtain ⟨hlow, hlt⟩ := toNat_sub_lt_of_isDigit h
  rw [Nat.toDigits_of_lt_base hlt, List.cons.injEq]
  refine ⟨Char.toNat_inj.1 ?_, rfl⟩
  rw [Nat.toNat_digitChar_of_lt_ten hlt]
  omega

theorem ofNat_worth {digits : List Char} (hdigits : ∀ c ∈ digits, c.isDigit = true)
    (hne : digits ≠ []) (hzero : digits.head? = some '0' → digits = ['0']) :
    ofNat (worth digits) = digits := by
  induction digits using List.reverseRecOn with
  | nil => exact absurd rfl hne
  | append_singleton digits c ih =>
    have hc : c.isDigit = true := hdigits c (List.mem_append_right _ List.mem_cons_self)
    have hlast := toDigits_of_isDigit hc
    rw [worth_concat, Nat.add_comm, ofNat]
    by_cases hnil : digits = []
    · rw [hnil, show worth [] = 0 from rfl, Nat.mul_zero, Nat.zero_add, hlast, List.nil_append]
    · have hhead : digits.head? ≠ some '0' := fun h => by
        have hall := hzero (by rw [List.head?_append_of_ne_nil _ hnil, h])
        exact hnil (by simpa using congrArg List.dropLast hall)
      have hrest :=
        ih (fun x hx => hdigits x (List.mem_append_left _ hx)) hnil fun h => absurd h hhead
      have hpos : 0 < worth digits := Nat.pos_of_ne_zero fun h₀ => hhead (by rw [← hrest, h₀]; rfl)
      rw [← Nat.toDigits_append_toDigits (by decide) hpos (toNat_sub_lt_of_isDigit hc).2, hlast]
      exact congrArg (· ++ [c]) hrest

end Decimal

namespace Counter

namespace Spelling

variable {p : Spelling}

/-- A spelling without blanks, without a plus, with a minus only below zero and without a zero in
front. -/
structure Canonical (p : Spelling) : Prop extends Sound p where
  front_eq : p.front = []
  sign_eq : p.sign = if p.value < 0 then ['-'] else []
  head_ne : p.digits.head? = some '0' → p.digits = ['0']
  back_eq : p.back = []

/-- The spelling in which a number is written. -/
def ofInt (v : Int) : Spelling :=
  { sign := if v < 0 then ['-'] else [], digits := Decimal.ofNat v.natAbs }

theorem value_ofInt (v : Int) : (ofInt v).value = v := by
  simp only [value, ofInt, Decimal.worth_ofNat]
  by_cases hv : v < 0
  · simp only [hv, if_true]
    omega
  · simp only [hv, if_false, List.nil_eq, reduceCtorEq]
    omega

theorem canonical_ofInt (v : Int) : (ofInt v).Canonical where
  front c hc := by cases hc
  sign := by by_cases hv : v < 0 <;> simp [ofInt, hv]
  digits_ne := Decimal.ofNat_ne_nil _
  digits c := Decimal.isDigit_of_mem_ofNat
  back c hc := by cases hc
  front_eq := rfl
  sign_eq := by rw [value_ofInt]; rfl
  head_ne h := by
    have hzero : v.natAbs = 0 := Nat.eq_zero_of_not_pos fun hpos => Decimal.head?_ofNat_ne hpos h
    rw [ofInt, hzero]
    rfl
  back_eq := rfl

theorem bytes_ofInt (v : Int) : (ofInt v).bytes = encode v := by
  rw [bytes, encode, text, ofInt]
  cases v with
  | ofNat n =>
    rw [if_neg (by simp)]
    simp [Decimal.ofInt]
  | negSucc n => simp [Decimal.ofInt, Int.negSucc_lt_zero]

/-- **There is one canonical spelling of a number.** -/
theorem Canonical.eq_ofInt (h : p.Canonical) : p = ofInt p.value := by
  have habs : p.value.natAbs = Decimal.worth p.digits := by
    unfold value
    split <;> simp
  have hdigits := Decimal.ofNat_worth h.digits h.digits_ne h.head_ne
  rw [ofInt, ← h.sign_eq, habs, hdigits]
  obtain ⟨front, sign, digits, back⟩ := p
  rw [mk.injEq]
  exact ⟨h.front_eq, rfl, rfl, h.back_eq⟩

end Spelling

end Counter

/-! ### Increments in a row -/

namespace Store

variable {s : Store} {key : Key} {now : Instant}

/-- Increments of a key at some instants. -/
def increments (key : Key) (times : List Instant) : List (Instant × Move) :=
  times.map fun now => (now, .query (.increment key))

theorem increment_vanished (h : s.live? now key = none) :
    s.increment now key = .ok (1, s.insert key ⟨Counter.encode 1, none⟩) := by
  simp only [increment, h]

theorem play_increment {v : Int} {t : Store} (h : s.increment now key = .ok (v, t))
    (rest : List (Instant × Move)) :
    s.play ((now, .query (.increment key)) :: rest) =
      (.value (.counted (.ok v)) :: (t.play rest).1, (t.play rest).2) := by
  rw [play, Query.ask, Access.alone_increment_ok h, Access.alone_done]

/-- **Increments count on from a counter** at any instants, and leave the sum in its written
form. -/
theorem play_increments (times : List Instant) {n : Nat}
    (hs : s.find? key = some ⟨Counter.encode n, none⟩)
    (hfew : ((n + times.length : Nat) : Int) ≤ Counter.highest) :
    ∃ t, s.play (increments key times) =
        ((List.range' (n + 1) times.length).map fun v : Nat =>
          .value (.counted (.ok (v : Int))), t) ∧
      t.find? key = some ⟨Counter.encode (n + times.length : Nat), none⟩ ∧
      ∀ other, other ≠ key → t.find? other = s.find? other := by
  induction times generalizing n s with
  | nil => exact ⟨s, rfl, hs, fun _ _ => rfl⟩
  | cons now rest ih =>
    have hlow : Counter.lowest ≤ (n : Int) := Int.le_trans (by decide) (Int.natCast_nonneg n)
    rw [List.length_cons] at hfew
    have hcount : s.increment now key =
        .ok (((n + 1 : Nat) : Int), s.insert key ⟨Counter.encode (n + 1 : Nat), none⟩) :=
      increment_counter hs hlow (by omega)
    obtain ⟨t, hplay, hkey, hother⟩ :=
      ih (find?_insert_self s key ⟨Counter.encode (n + 1 : Nat), none⟩) (by omega)
    refine ⟨t, ?_, ?_, fun other hne => ?_⟩
    · rw [increments, List.map_cons, play_increment hcount, ← increments, hplay]
      rfl
    · rw [hkey, List.length_cons, Nat.add_assoc, Nat.add_comm 1]
    · rw [hother other hne, find?_insert_of_ne hne]

end Store

namespace Counter

/-- **The text of a counter is read and written exactly.** What spells no number, or one out of
the range of signed words of 64 bits, is no counter; what is written is the one canonical
spelling. -/
theorem codec_exact :
    (∀ bs v, decode bs = some v ↔
      lowest ≤ v ∧ v ≤ highest ∧ ∃ p : Spelling, p.Sound ∧ bs = p.bytes ∧ p.value = v) ∧
    (∀ bs, decode bs = none ↔
      ∀ p : Spelling, p.Sound → bs = p.bytes → p.value < lowest ∨ highest < p.value) ∧
    (∀ bs, decode bs = bs.toText?.bind fun s => signed? (Text.trim s.toList)) ∧
    (∀ v, (∃ p : Spelling, p.Canonical ∧ p.value = v ∧ encode v = p.bytes) ∧
      ∀ p : Spelling, p.Canonical → p.value = v → encode v = p.bytes) ∧
    (∀ v, lowest ≤ v → v ≤ highest → decode (encode v) = some v) ∧
    ∀ (s : Store) (key : Key) (first : Instant) (more : List Instant), s.live? first key = none →
      ((more.length + 1 : Nat) : Int) ≤ highest →
      ∃ t, s.play (Store.increments key (first :: more)) =
          ((List.range' 1 (more.length + 1)).map fun n : Nat =>
            .value (.counted (.ok (n : Int))), t) ∧
        t.find? key = some ⟨encode (more.length + 1 : Nat), none⟩ ∧
        (∀ now, t.get now key = some (encode (more.length + 1 : Nat))) ∧
        ∀ other, other ≠ key → t.find? other = s.find? other := by
  have hread : ∀ bs v, decode bs = some v ↔
      lowest ≤ v ∧ v ≤ highest ∧ ∃ p : Spelling, p.Sound ∧ bs = p.bytes ∧ p.value = v := by
    intro bs v
    constructor
    · intro h
      obtain ⟨hlow, hhigh⟩ := bounds_of_decode h
      exact ⟨hlow, hhigh, exists_spelling h⟩
    · rintro ⟨hlow, hhigh, p, hp, rfl, rfl⟩
      rw [hp.decode, if_pos ⟨hlow, hhigh⟩]
  refine ⟨hread, fun bs => ⟨fun hnone p hp hbs => ?_, fun hout => ?_⟩, decode_eq_stream?,
    fun v => ⟨?_, ?_⟩, fun v => decode_encode, fun s key first more habsent hfew => ?_⟩
  · rw [hbs, hp.decode] at hnone
    split at hnone
    · cases hnone
    · omega
  · refine Option.eq_none_iff_forall_ne_some.2 fun v hv => ?_
    obtain ⟨hlow, hhigh, p, hp, hbs, rfl⟩ := (hread bs v).1 hv
    exact absurd (hout p hp hbs) (by omega)
  · exact ⟨.ofInt v, Spelling.canonical_ofInt v, Spelling.value_ofInt v,
      (Spelling.bytes_ofInt v).symm⟩
  · rintro p hp rfl
    rw [← Spelling.bytes_ofInt, ← hp.eq_ofInt]
  · have hcount := Store.increment_vanished habsent
    obtain ⟨t, hplay, hkey, hother⟩ := Store.play_increments more
      (Store.find?_insert_self s key ⟨encode (1 : Nat), none⟩) (by omega)
    rw [Nat.add_comm] at hkey
    refine ⟨t, ?_, hkey, fun now => Store.get_of_find?_some hkey, fun other hne => ?_⟩
    · rw [Store.increments, List.map_cons, Store.play_increment hcount, ← Store.increments]
      exact congrArg (fun r => (.value (.counted (.ok 1)) :: r.1, r.2)) hplay
    · rw [hother other hne, Store.find?_insert_of_ne hne]

example : decode (Octets.ofText "-9223372036854775808") = some lowest := by decide +kernel

example : decode (Octets.ofText "9223372036854775808") = none := by decide +kernel

/-- A wide blank, a plus, zeros in front and the end of a line. -/
def looseSpelling : Spelling := ⟨['\u3000'], ['+'], ['0', '0', '7'], ['\n']⟩

theorem looseSpelling_read :
    looseSpelling.Sound ∧ decode looseSpelling.bytes = some 7 ∧
      ∃ t, ({} : Store).play (Store.increments ⟨"count"⟩ [3, 1, 4]) =
          ([.value (.counted (.ok 1)), .value (.counted (.ok 2)), .value (.counted (.ok 3))], t) ∧
        t.get 9 ⟨"count"⟩ = some (encode 3) := by
  have hsound : looseSpelling.Sound :=
    ⟨List.forall_mem_singleton.2 (by decide), .inr (.inl rfl), by decide,
      List.all_eq_true.1 (by decide), List.forall_mem_singleton.2 (by decide)⟩
  obtain ⟨hread, -, -, -, -, hcount⟩ := codec_exact
  obtain ⟨t, hplay, -, hget, -⟩ := hcount {} ⟨"count"⟩ 3 [1, 4] rfl (by decide)
  exact ⟨hsound, (hread _ 7).2 ⟨by decide, by decide, looseSpelling, hsound, rfl, by decide⟩,
    t, hplay, hget 9⟩

end Counter

end FragmentRelay
