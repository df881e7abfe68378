import FragmentRelay.Octets
import FragmentRelay.Text.Quoted

/-!
# Wire faults: why bytes are not a record

A reader of records stops at the first fault. Each fault has a kind, a word that programs compare,
and a text that starts with that word.
-/

namespace FragmentRelay.Wire

/-- The width that the first byte of an integer promises. -/
inductive Width where
  | w32
  | w64
  | w128
  | reserved
deriving DecidableEq, Repr

/-- The word for a width. -/
def Width.word : Width → String
  | w32 => "U32"
  | w64 => "U64"
  | w128 => "U128"
  | reserved => "Reserved"

/-- Why bytes are not a record. -/
inductive Fault where
  | unexpectedEnd (missing : Nat)
  | badInteger (expected found : Width)
  | limitExceeded
  | wrongTag (found expected : Octets)
  | trailing (count : Nat)
deriving DecidableEq, Repr

namespace Fault

/-- Two hexadecimal digits for each byte, in brackets. -/
def tagText (tag : Octets) : String :=
  "[" ++ ", ".intercalate (tag.map fun b => Octets.hex [b]) ++ "]"

/-- The word for the kind of a fault. -/
def kind : Fault → String
  | unexpectedEnd _ => "UnexpectedEnd"
  | badInteger _ _ => "InvalidIntegerType"
  | limitExceeded => "LimitExceeded"
  | wrongTag _ _ => "OtherString"
  | trailing _ => "OtherString"

/-- The text of a fault that has no fields of its own. -/
def other (text : String) : String := "OtherString(" ++ Text.quoted text ++ ")"

/-- The text of a fault. -/
def message : Fault → String
  | unexpectedEnd missing => s!"UnexpectedEnd \x7b additional: {missing} \x7d"
  | badInteger expected found =>
    s!"InvalidIntegerType \x7b expected: {expected.word}, found: {found.word} \x7d"
  | limitExceeded => "LimitExceeded"
  | wrongTag found expected =>
    other s!"unexpected record tag {tagText found}, expected {tagText expected}"
  | trailing count => other s!"{count} trailing bytes after record"

end Fault

end FragmentRelay.Wire
