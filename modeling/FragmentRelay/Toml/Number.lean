import FragmentRelay.Toml.Text
import FragmentRelay.Toml.Value

/-!
# TOML numbers and times

A whole number has 64 bits with a sign and may be written in base ten, sixteen, eight or two, with
single underscores between digits. Numbers with a fraction or an exponent, dates and times are only
checked.
-/

namespace FragmentRelay.Toml

/-! ### Digits -/

/-- Whether a character is a digit in a base up to sixteen. -/
def isDigitIn (base : Nat) (c : Char) : Bool :=
  match Octets.hexValue? c with
  | some d => decide (d < base)
  | none => false

/-- Digits with single underscores between them, and the rest; the digits come without the
underscores. -/
def digitRun (base : Nat) : List Char → Option (List Char × List Char)
  | [] => none
  | c :: '_' :: r => if isDigitIn base c then push c (digitRun base r) else none
  | [c] => if isDigitIn base c then some ([c], []) else none
  | c :: d :: r =>
    if isDigitIn base c = false then none
    else if isDigitIn base d then push c (digitRun base (d :: r))
    else some ([c], d :: r)

/-- A sign and the rest. -/
def sign : List Char → Bool × List Char
  | '+' :: r => (false, r)
  | '-' :: r => (true, r)
  | cs => (false, cs)

/-- Decimal digits that do not start with a zero, or a lone zero. -/
def decimalRun : List Char → Option (List Char × List Char)
  | '0' :: r => some (['0'], r)
  | cs => digitRun 10 cs

/-- The number that digits write. -/
def numberOf (base : Nat) (ds : List Char) : Nat :=
  ds.foldl (fun n c => n * base + (Octets.hexValue? c).getD 0) 0

/-! ### Whole numbers -/

/-- A whole number, if it fits in 64 bits. -/
def whole? (negative : Bool) (n : Nat) : Option Value :=
  let v : Int := if negative then -n else n
  if -9223372036854775808 ≤ v ∧ v < 9223372036854775808 then some (.integer v) else none

/-- A whole number in base sixteen, eight or two, behind its mark. -/
def based? (base : Nat) (cs : List Char) : Option (Value × List Char) := do
  let (ds, rest) ← digitRun base cs
  let v ← whole? false (numberOf base ds)
  return (v, rest)

/-- A whole number. -/
def integer? : List Char → Option (Value × List Char)
  | '0' :: 'x' :: r => based? 16 r
  | '0' :: 'o' :: r => based? 8 r
  | '0' :: 'b' :: r => based? 2 r
  | cs => do
    let (negative, cs) := sign cs
    let (ds, rest) ← decimalRun cs
    let v ← whole? negative (numberOf 10 ds)
    return (v, rest)

/-! ### Fractions -/

/-- Whether digits times a power of ten are too large for a binary number of 64 bits. -/
def overflows (ds : List Char) (exponent : Int) : Bool :=
  let bound := 1 <<< 1024 - 1 <<< 970
  if numberOf 10 ds = 0 then false
  else if 400 < exponent then true
  else if 0 ≤ exponent then decide (bound ≤ numberOf 10 (ds ++ List.replicate exponent.toNat '0'))
  else decide (bound ≤ numberOf 10 (ds.take (ds.length - (-exponent).toNat)))

/-- An exponent. -/
def exponent? : List Char → Option (Int × List Char)
  | e :: r =>
    if e = 'e' ∨ e = 'E' then do
      let (negative, r) := sign r
      let (ds, rest) ← digitRun 10 r
      let n : Int := numberOf 10 ds
      return (if negative then -n else n, rest)
    else none
  | [] => none

/-- A number with a fraction, an exponent or both, or one that is no number or infinite. -/
def float? (cs : List Char) : Option (Value × List Char) :=
  let (negative, rest) := sign cs
  match rest with
  | 'i' :: 'n' :: 'f' :: r => some (.float, r)
  | 'n' :: 'a' :: 'n' :: r => some (.float, r)
  | _ => do
    let (ds, rest) ← decimalRun rest
    let (fraction, power, rest) ←
      match rest with
      | '.' :: r => do
        let (fs, rest) ← digitRun 10 r
        match exponent? rest with
        | some (e, rest) => pure (fs, e, rest)
        | none =>
          match rest with
          | 'e' :: _ => none
          | 'E' :: _ => none
          | _ => pure (fs, (0 : Int), rest)
      | _ => do
        let (e, rest) ← exponent? rest
        pure ([], e, rest)
    if !negative && overflows (ds ++ fraction) (power - fraction.length) then none
    else return (.float, rest)

/-! ### Dates and times -/

/-- A number of exactly as many decimal digits. -/
def fixedDigits (count : Nat) (cs : List Char) : Option (Nat × List Char) :=
  let ds := cs.take count
  if ds.length = count ∧ ds.all Char.isDigit = true then some (numberOf 10 ds, cs.drop count)
  else none

/-- A number of two digits between two bounds. -/
def twoDigits (low high : Nat) (cs : List Char) : Option (Nat × List Char) :=
  (fixedDigits 2 cs).filter fun p => decide (low ≤ p.1) && decide (p.1 ≤ high)

/-- The text after a character. -/
def expect (c : Char) : List Char → Option (List Char)
  | d :: r => if d = c then some r else none
  | [] => none

/-- The days of a month. -/
def daysIn (year month : Nat) : Nat :=
  if month = 2 then
    if year % 4 = 0 ∧ (year % 100 ≠ 0 ∨ year % 400 = 0) then 29 else 28
  else if month = 4 ∨ month = 6 ∨ month = 9 ∨ month = 11 then 30
  else 31

/-- The text after a date. -/
def date? (cs : List Char) : Option (List Char) := do
  let (year, cs) ← fixedDigits 4 cs
  let cs ← expect '-' cs
  let (month, cs) ← twoDigits 1 12 cs
  let cs ← expect '-' cs
  let (_, cs) ← twoDigits 1 (daysIn year month) cs
  return cs

/-- The text after a time of day. -/
def time? (cs : List Char) : Option (List Char) := do
  let (_, cs) ← twoDigits 0 23 cs
  let cs ← expect ':' cs
  let (_, cs) ← twoDigits 0 59 cs
  let cs ← expect ':' cs
  let (_, cs) ← twoDigits 0 60 cs
  match cs with
  | '.' :: d :: r => if d.isDigit then return r.dropWhile Char.isDigit else none
  | '.' :: [] => none
  | _ => return cs

/-- The text after an offset from universal time. -/
def offset? : List Char → Option (List Char)
  | 'Z' :: r => some r
  | 'z' :: r => some r
  | c :: r =>
    if c = '+' ∨ c = '-' then do
      let (_, r) ← twoDigits 0 23 r
      let r ← expect ':' r
      let (_, r) ← twoDigits 0 59 r
      return r
    else none
  | [] => none

/-- The text after a time of day and perhaps an offset, behind the mark that joins it to a date. -/
def joinedTime? : List Char → Option (List Char)
  | c :: r =>
    if c = 'T' ∨ c = 't' ∨ c = ' ' then do
      let rest ← time? r
      return (offset? rest).getD rest
    else none
  | [] => none

/-- A date, a time of day or both. -/
def datetime? (cs : List Char) : Option (Value × List Char) :=
  match date? cs with
  | some rest => some (.datetime, (joinedTime? rest).getD rest)
  | none => (time? cs).map fun rest => (.datetime, rest)

/-- A value that starts with a digit or a sign. -/
def number? (cs : List Char) : Option (Value × List Char) :=
  (datetime? cs).or ((float? cs).or (integer? cs))

end FragmentRelay.Toml
