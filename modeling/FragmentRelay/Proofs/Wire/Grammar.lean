import FragmentRelay.Proofs.Wire.RoundTrip
import Mathlib.Data.Set.Subsingleton

/-!
# Grammar: the byte strings that are records

The grammar says which byte strings spell a record: its tag and one form of each of its fields, in
order, with nothing after them. A number has up to four forms, so a record may be spelt in several
ways, but a byte string spells at most one record, in one way, and no header and fragment are spelt
alike.

* `Spells.unique`: a byte string has one reading.
* `decode_accepts_grammar`: the reader accepts exactly the byte strings that spell a record within
  the limit.
-/

namespace FragmentRelay.Wire

/-- The parts of a byte string after its tag are forms of the fields of a record. -/
structure Spells {α : Type} [Record α] [Layout α] (a : α) (parts : List Octets)
    (bs : Octets) : Prop where
  bytes_eq : bs = tag α ++ parts.flatten
  forms : List.Forall₂ Form (Layout.fields a) parts

section Spelling

variable {α : Type} [Record α] [Layout α] {a a' : α} {parts parts' : List Octets} {bs : Octets}

/-- **A byte string spells at most one record, in one way.** -/
theorem Spells.unique (h : Spells a parts bs) (h' : Spells a' parts' bs) :
    a = a' ∧ parts = parts' := by
  have hflat : parts.flatten = parts'.flatten :=
    List.append_cancel_left (h.bytes_eq.symm.trans h'.bytes_eq)
  have hkinds : (Layout.fields a).map Field.kind = (Layout.fields a').map Field.kind := by
    rw [Layout.kinds_fields, Layout.kinds_fields]
  obtain ⟨hfields, hparts⟩ := forms_unique h.forms h'.forms hkinds hflat
  exact ⟨Layout.fields_injective hfields, hparts⟩

theorem decode_eq_ok_iff :
    decode α bs = .ok a ↔ (∃ parts, Spells a parts bs) ∧
    claimedBy (Layout.fields a) ≤ maxRecordLength := by
  constructor
  · intro h
    obtain ⟨⟨parts, hbytes, hforms⟩, hle⟩ := exists_forms_of_decode h
    exact ⟨⟨parts, hbytes, hforms⟩, hle⟩
  · rintro ⟨⟨parts, hspells⟩, hle⟩
    rw [hspells.bytes_eq, decode_of_forms hspells.forms, if_pos hle]

end Spelling

theorem not_spells_both {h : Header} {f : Fragment} {parts parts' : List Octets} {bs : Octets}
    (hh : Spells h parts bs) (hf : Spells f parts' bs) : False := by
  have htags : tag Header = tag Fragment := by
    have htake := congrArg (List.take tagLength) (hh.bytes_eq.symm.trans hf.bytes_eq)
    simpa [Layout.length_tag] using htake
  exact absurd htags (by decide)

/-- **The reader accepts exactly the grammar.** A header or a fragment is read from the byte strings
that spell it, if its claims stay within the limit; no byte string has two readings. -/
theorem decode_accepts_grammar (bs : Octets) :
    (∀ h : Header, decode Header bs = .ok h ↔ (∃ parts, Spells h parts bs) ∧
      h.claimed ≤ maxRecordLength) ∧
    (∀ f : Fragment, decode Fragment bs = .ok f ↔ (∃ parts, Spells f parts bs) ∧
      f.claimed ≤ maxRecordLength) ∧
    {p : Header × List Octets | Spells p.1 p.2 bs}.Subsingleton ∧
    {p : Fragment × List Octets | Spells p.1 p.2 bs}.Subsingleton ∧
    ¬ ((∃ (h : Header) (parts : List Octets), Spells h parts bs) ∧
      ∃ (f : Fragment) (parts : List Octets), Spells f parts bs) := by
  refine ⟨fun h => ?_, fun f => ?_, fun p hp q hq => ?_, fun p hp q hq => ?_, ?_⟩
  · rw [decode_eq_ok_iff, claimedBy_header]
  · rw [decode_eq_ok_iff, claimedBy_fragment]
  · obtain ⟨hrecord, hparts⟩ := Spells.unique hp hq
    exact Prod.ext hrecord hparts
  · obtain ⟨hrecord, hparts⟩ := Spells.unique hp hq
    exact Prod.ext hrecord hparts
  · rintro ⟨⟨h, parts, hh⟩, f, parts', hf⟩
    exact not_spells_both hh hf

/-- A header whose numbers are longer than they need to be. -/
def overlongParts : List Octets :=
  [[252, 2, 0, 0, 0], [251, 1, 0, 7], [5], [253, 3, 0, 0, 0, 0, 0, 0, 0]]

theorem overlongHeader_read :
    Spells (⟨2, [7], 5, 3⟩ : Header) overlongParts (tag Header ++ overlongParts.flatten) ∧
      decode Header (tag Header ++ overlongParts.flatten) = .ok ⟨2, [7], 5, 3⟩ := by
  have hspells :
      Spells (⟨2, [7], 5, 3⟩ : Header) overlongParts (tag Header ++ overlongParts.flatten) :=
    { bytes_eq := rfl
      forms := .cons (.word32 (.four (by decide))) (.cons (.octets (.two (by decide)))
        (.cons (.word64 (.one (by decide))) (.cons (.word64 (.eight (by decide))) .nil))) }
  exact ⟨hspells, ((decode_accepts_grammar _).1 _).2 ⟨⟨_, hspells⟩, by decide⟩⟩

end FragmentRelay.Wire
