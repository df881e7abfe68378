import FragmentRelay.Octets
import FragmentRelay.Decimal

/-!
# Socket addresses: a host by number and a port

An address is four bytes or eight groups of sixteen bits, the latter with a scope if it is not zero.
The text of the longer form leaves out the longest run of zero groups, the first of equals, and
writes the last two groups as bytes when the address embeds a four-byte one.
-/

namespace FragmentRelay

/-- A host by number and a port. -/
inductive SocketAddress where
  | v4 (host : List UInt8) (port : UInt16)
  | v6 (groups : List UInt16) (scope : UInt32) (port : UInt16)
deriving DecidableEq, Repr

namespace SocketAddress

/-- Whether the host is the machine itself: a loopback or an unspecified address. -/
def isLocal : SocketAddress → Bool
  | v4 host _ => host.head? == some 127 || host == [0, 0, 0, 0]
  | v6 groups _ _ => groups == [0, 0, 0, 0, 0, 0, 0, 1] || groups == [0, 0, 0, 0, 0, 0, 0, 0]

/-! ### Reading -/

/-- A character after the one that is expected. -/
def after (c : Char) : List Char → Option (List Char)
  | d :: r => if d = c then some r else none
  | [] => none

/-- The leading digits of a text in a base up to sixteen, and the rest. -/
def spanDigits (base : Nat) : List Char → List Nat × List Char
  | [] => ([], [])
  | c :: r =>
    match Octets.hexValue? c with
    | some d =>
      if d < base then let (ds, rest) := spanDigits base r; (d :: ds, rest) else ([], c :: r)
    | none => ([], c :: r)

/-- The number that digits write. -/
def ofDigits (base : Nat) (ds : List Nat) : Nat := ds.foldl (fun n d => n * base + d) 0

/-- A number below a bound, of at least one digit. -/
def number? (base bound : Nat) (cs : List Char) : Option (Nat × List Char) :=
  let (ds, rest) := spanDigits base cs
  if ds ≠ [] ∧ ofDigits base ds < bound then some (ofDigits base ds, rest) else none

/-- A byte in decimal digits without leading zeros. -/
def byte? (cs : List Char) : Option (UInt8 × List Char) :=
  let (ds, rest) := spanDigits 10 cs
  if ds = [] ∨ 3 < ds.length ∨ (ds.head? = some 0 ∧ 1 < ds.length) ∨ 256 ≤ ofDigits 10 ds then none
  else some (UInt8.ofNat (ofDigits 10 ds), rest)

/-- Four bytes with dots between. -/
def host4? (cs : List Char) : Option (List UInt8 × List Char) := do
  let (a, cs) ← byte? cs
  let cs ← after '.' cs
  let (b, cs) ← byte? cs
  let cs ← after '.' cs
  let (c, cs) ← byte? cs
  let cs ← after '.' cs
  let (d, cs) ← byte? cs
  return ([a, b, c, d], cs)

/-- A group of at most four hexadecimal digits. -/
def group? (cs : List Char) : Option (UInt16 × List Char) :=
  let (ds, rest) := spanDigits 16 cs
  if ds = [] ∨ 4 < ds.length then none else some (UInt16.ofNat (ofDigits 16 ds), rest)

/-- Two bytes as a group, the high one first. -/
def pair (a b : UInt8) : UInt16 := UInt16.ofNat (a.toNat * 256 + b.toNat)

/-- The colon before a group, which the first group does not have. -/
def colon? (first : Bool) (cs : List Char) : Option (List Char) :=
  if first then some cs else after ':' cs

/-- Up to a number of groups with colons between, and whether they end with an embedded four-byte
host, which counts for two groups. -/
def groups : Nat → Bool → List Char → List UInt16 × Bool × List Char
  | 0, _, cs => ([], false, cs)
  | left + 1, first, cs =>
    let host := if 0 < left then (colon? first cs).bind host4? else none
    match host with
    | some ([a, b, c, d], rest) => ([pair a b, pair c d], true, rest)
    | _ =>
      match (colon? first cs).bind group? with
      | none => ([], false, cs)
      | some (g, rest) =>
        let (gs, embedded, rest) := groups left false rest
        (g :: gs, embedded, rest)

/-- Eight groups, of which a run of zeros may be left out behind two colons. -/
def host6? (cs : List Char) : Option (List UInt16 × List Char) := do
  let (front, embedded, rest) := groups 8 true cs
  if front.length = 8 then return (front, rest)
  if embedded then none
  let rest ← after ':' rest
  let rest ← after ':' rest
  let (back, _, rest) := groups (8 - (front.length + 1)) true rest
  return (front ++ List.replicate (8 - front.length - back.length) 0 ++ back, rest)

/-- A port after a colon. -/
def port? (cs : List Char) : Option (UInt16 × List Char) := do
  let cs ← after ':' cs
  let (n, cs) ← number? 10 UInt16.size cs
  return (UInt16.ofNat n, cs)

/-- A scope after a percent sign; without one the scope is zero. -/
def scope (cs : List Char) : UInt32 × List Char :=
  match (after '%' cs).bind (number? 10 UInt32.size) with
  | some (n, rest) => (UInt32.ofNat n, rest)
  | none => (0, cs)

/-- The address that a text writes. -/
def ofText? (s : String) : Option SocketAddress :=
  let short : Option SocketAddress := do
    let (host, cs) ← host4? s.toList
    let (port, cs) ← port? cs
    if cs.isEmpty then return .v4 host port else none
  let long : Option SocketAddress := do
    let cs ← after '[' s.toList
    let (groups, cs) ← host6? cs
    let (scope, cs) := scope cs
    let cs ← after ']' cs
    let (port, cs) ← port? cs
    if cs.isEmpty then return .v6 groups scope port else none
  short.or long

/-! ### Writing -/

/-- Bytes with dots between. -/
def host4Text (host : List UInt8) : String := ".".intercalate (host.map fun b => toString b.toNat)

/-- Groups with colons between. -/
def groupsText (gs : List UInt16) : String :=
  ":".intercalate (gs.map fun g => String.ofList (Nat.toDigits 16 g.toNat))

/-- The start and length of the longest run of zeros, the first of equals. -/
def longestZeros (gs : List UInt16) : Nat × Nat :=
  let step := fun (acc : Nat × (Nat × Nat) × (Nat × Nat)) (g : UInt16) =>
    let (i, current, longest) := acc
    if g = 0 then
      let current := if current.2 = 0 then (i, 1) else (current.1, current.2 + 1)
      (i + 1, current, if longest.2 < current.2 then current else longest)
    else (i + 1, (0, 0), longest)
  (gs.foldl step (0, (0, 0), (0, 0))).2.2

/-- The text of eight groups. -/
def host6Text (gs : List UInt16) : String :=
  match gs with
  | [0, 0, 0, 0, 0, 0xFFFF, a, b] =>
    "::ffff:" ++ host4Text [(a >>> 8).toUInt8, a.toUInt8, (b >>> 8).toUInt8, b.toUInt8]
  | _ =>
    let (start, length) := longestZeros gs
    if 1 < length then groupsText (gs.take start) ++ "::" ++ groupsText (gs.drop (start + length))
    else groupsText gs

/-- The text of an address. -/
def text : SocketAddress → String
  | v4 host port => host4Text host ++ ":" ++ toString port.toNat
  | v6 groups scope port =>
    let zone := if scope = 0 then "" else "%" ++ toString scope.toNat
    "[" ++ host6Text groups ++ zone ++ "]:" ++ toString port.toNat

end SocketAddress

end FragmentRelay
