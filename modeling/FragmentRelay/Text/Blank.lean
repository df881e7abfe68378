/-!
# Blanks: white space around a value

The blank characters are those of the property White_Space.

* `trim_of_not_blank`: a text whose two ends are not blank is kept whole.
-/

namespace FragmentRelay.Text

/-- The ranges of blank code points, both ends included. -/
def blankRanges : List (Nat × Nat) :=
  [(0x9, 0xD), (0x20, 0x20), (0x85, 0x85), (0xA0, 0xA0), (0x1680, 0x1680), (0x2000, 0x200A),
    (0x2028, 0x2029), (0x202F, 0x202F), (0x205F, 0x205F), (0x3000, 0x3000)]

/-- Whether a character is blank. -/
def isBlank (c : Char) : Bool :=
  blankRanges.any fun r => decide (r.1 ≤ c.toNat) && decide (c.toNat ≤ r.2)

/-- A text without the blanks at its two ends. -/
def trim (cs : List Char) : List Char :=
  ((cs.dropWhile isBlank).reverse.dropWhile isBlank).reverse

theorem trim_of_not_blank {c d : Char} {cs : List Char} (hc : isBlank c = false)
    (hd : isBlank d = false) (h : (c :: cs).getLast? = some d) : trim (c :: cs) = c :: cs := by
  have hr : ∃ r, (c :: cs).reverse = d :: r := by
    rw [← List.head?_reverse] at h
    cases hrev : (c :: cs).reverse with
    | nil => simp at hrev
    | cons e r => rw [hrev] at h; simp at h; exact ⟨r, by rw [h]⟩
  obtain ⟨r, hr⟩ := hr
  simp only [trim, List.dropWhile_cons, hc, Bool.false_eq_true, if_false]
  rw [hr]
  simp only [List.dropWhile_cons, hd, Bool.false_eq_true, if_false]
  rw [← hr, List.reverse_reverse]

end FragmentRelay.Text
