/-!
# Decimal: whole numbers as text

Numbers are written with the fewest decimal digits. Reading accepts any number of leading zeros and,
where a sign is allowed, one leading plus or minus.

* `digits?_ofNat`, `int?_ofInt`: what is written is read back.
* `ofNat_injective`: two numbers with one text are equal.
-/

namespace FragmentRelay.Decimal

/-- The decimal digits of a natural number. -/
def ofNat (n : Nat) : List Char := Nat.toDigits 10 n

/-- The decimal digits of an integer, after a minus if it is negative. -/
def ofInt : Int → List Char
  | .ofNat n => ofNat n
  | .negSucc n => '-' :: ofNat (n + 1)

/-- The number that a text of one or more decimal digits writes. -/
def digits? (cs : List Char) : Option Nat :=
  if cs ≠ [] ∧ cs.all Char.isDigit = true then some (Nat.ofDigitChars 10 cs 0) else none

/-- Digits after an optional plus. -/
def nat? : List Char → Option Nat
  | '+' :: cs => digits? cs
  | cs => digits? cs

/-- Digits after an optional plus or minus. -/
def int? : List Char → Option Int
  | '+' :: cs => (digits? cs).map Int.ofNat
  | '-' :: cs => (digits? cs).map fun n => -(n : Int)
  | cs => (digits? cs).map Int.ofNat

/-- A number read by `nat?` that is below a bound. -/
def natBelow? (bound : Nat) (cs : List Char) : Option Nat :=
  (nat? cs).filter fun n => decide (n < bound)

theorem isDigit_of_mem_ofNat {n : Nat} {c : Char} (h : c ∈ ofNat n) : c.isDigit = true :=
  Nat.isDigit_of_mem_toDigits (by decide : (0 : Nat) < 10) (by decide : (10 : Nat) ≤ 10) h

theorem ofNat_ne_nil (n : Nat) : ofNat n ≠ [] := Nat.toDigits_ne_nil

@[simp] theorem digits?_ofNat (n : Nat) : digits? (ofNat n) = some n := by
  have hall : (ofNat n).all Char.isDigit = true :=
    List.all_eq_true.2 fun _ h => isDigit_of_mem_ofNat h
  rw [digits?, if_pos ⟨ofNat_ne_nil n, hall⟩, ofNat, Nat.ofDigitChars_ten_toDigits]

theorem ofNat_injective {m n : Nat} (h : ofNat m = ofNat n) : m = n := by
  have := congrArg digits? h
  simpa using this

theorem int?_of_isDigit {c : Char} {cs : List Char} (h : c.isDigit = true) :
    int? (c :: cs) = (digits? (c :: cs)).map Int.ofNat := by
  unfold int?
  split
  · rename_i heq; cases heq; simp at h
  · rename_i heq; cases heq; simp at h
  · rfl

@[simp] theorem int?_ofNat (n : Nat) : int? (ofNat n) = some (n : Int) := by
  cases h : ofNat n with
  | nil => exact absurd h (ofNat_ne_nil n)
  | cons c cs =>
    have hc : c.isDigit = true := isDigit_of_mem_ofNat (h ▸ List.mem_cons_self)
    rw [int?_of_isDigit hc, ← h, digits?_ofNat]
    rfl

@[simp] theorem int?_ofInt (v : Int) : int? (ofInt v) = some v := by
  cases v with
  | ofNat n => exact int?_ofNat n
  | negSucc n =>
    simp only [ofInt, int?, digits?_ofNat]
    rfl

end FragmentRelay.Decimal
