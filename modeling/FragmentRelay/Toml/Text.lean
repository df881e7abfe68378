import FragmentRelay.Octets

/-!
# TOML text: blanks, comments, strings and keys

Readers take a text and give what they read and the rest, or nothing if the text does not fit.
-/

namespace FragmentRelay.Toml

/-! ### Blanks and comments -/

/-- Whether a character is a space or a tab. -/
def isSpace (c : Char) : Bool := c == ' ' || c == '\t'

/-- Whether a character may stand in a comment: a tab or no control character. -/
def isShown (c : Char) : Bool :=
  c == '\t' || (decide (0x20 ≤ c.toNat) && c.toNat != 0x7F)

/-- The text after spaces and tabs. -/
def skipSpaces (cs : List Char) : List Char := cs.dropWhile isSpace

/-- The text after a line break. -/
def newline? : List Char → Option (List Char)
  | '\n' :: r => some r
  | '\r' :: '\n' :: r => some r
  | _ => none

/-- The text after a comment, which ends before the line break. -/
def skipComment : List Char → List Char
  | '#' :: r => r.dropWhile isShown
  | cs => cs

/-- The text after the rest of a line: spaces, a comment, and a line break or the end. -/
def lineEnd? (cs : List Char) : Option (List Char) :=
  match skipComment (skipSpaces cs) with
  | [] => some []
  | rest => newline? rest

/-- The text after any number of blank or commented lines and spaces, within a number of steps. -/
def skipLines : Nat → List Char → List Char
  | 0, cs => cs
  | n + 1, cs =>
    let cs := skipSpaces cs
    match newline? (skipComment cs) with
    | some rest => skipLines n rest
    | none => cs

/-- The text after all blank or commented lines and spaces. -/
def skipBlankLines (cs : List Char) : List Char := skipLines cs.length cs

/-! ### Strings -/

/-- The character with a number, if there is one. -/
def charOf? (n : Nat) : Option Char := if h : n.isValidChar then some (Char.ofNatAux n h) else none

/-- The number that hexadecimal digits write. -/
def hexNumber? (cs : List Char) : Option Nat :=
  cs.foldlM (fun n c => (Octets.hexValue? c).map (n * 16 + ·)) 0

/-- The character that a letter after a backslash stands for. -/
def escaped? : Char → Option Char
  | 'b' => some '\x08'
  | 't' => some '\t'
  | 'n' => some '\n'
  | 'f' => some '\x0c'
  | 'r' => some '\r'
  | '"' => some '"'
  | '\\' => some '\\'
  | _ => none

/-- Puts a character in front of what a reader gave. -/
def push (c : Char) (r : Option (List Char × List Char)) : Option (List Char × List Char) :=
  r.map fun (text, rest) => (c :: text, rest)

/-- A string behind its opening quote. -/
def basic : List Char → Option (List Char × List Char)
  | '"' :: r => some ([], r)
  | '\\' :: 'u' :: a :: b :: c :: d :: r =>
    match (hexNumber? [a, b, c, d]).bind charOf? with
    | some x => push x (basic r)
    | none => none
  | '\\' :: 'U' :: a :: b :: c :: d :: e :: f :: g :: h :: r =>
    match (hexNumber? [a, b, c, d, e, f, g, h]).bind charOf? with
    | some x => push x (basic r)
    | none => none
  | '\\' :: c :: r =>
    match escaped? c with
    | some x => push x (basic r)
    | none => none
  | c :: r => if isShown c ∧ c ≠ '\\' then push c (basic r) else none
  | [] => none

/-- Whether only spaces stand between a backslash and the line break. -/
def endsLine (cs : List Char) : Bool := (newline? (skipSpaces cs)).isSome

/-- A string of several lines behind its opening quotes. In the skipping mode blanks and line breaks
are left out, as they are after a backslash that ends a line. -/
def multiline (skipping : Bool) : List Char → Option (List Char × List Char)
  | '"' :: '"' :: '"' :: '"' :: '"' :: r => some (['"', '"'], r)
  | '"' :: '"' :: '"' :: '"' :: r => some (['"'], r)
  | '"' :: '"' :: '"' :: r => some ([], r)
  | '\r' :: '\n' :: r => if skipping then multiline true r else push '\n' (multiline false r)
  | '\n' :: r => if skipping then multiline true r else push '\n' (multiline false r)
  | '\\' :: 'u' :: a :: b :: c :: d :: r =>
    match (hexNumber? [a, b, c, d]).bind charOf? with
    | some x => push x (multiline false r)
    | none => none
  | '\\' :: 'U' :: a :: b :: c :: d :: e :: f :: g :: h :: r =>
    match (hexNumber? [a, b, c, d, e, f, g, h]).bind charOf? with
    | some x => push x (multiline false r)
    | none => none
  | '\\' :: c :: r =>
    match escaped? c with
    | some x => push x (multiline false r)
    | none => if endsLine (c :: r) then multiline true (c :: r) else none
  | c :: r =>
    if skipping ∧ isSpace c then multiline true r
    else if isShown c ∧ c ≠ '\\' then push c (multiline false r)
    else none
  | [] => none

/-- A literal string behind its opening quote. -/
def literal : List Char → Option (List Char × List Char)
  | '\'' :: r => some ([], r)
  | c :: r => if isShown c then push c (literal r) else none
  | [] => none

/-- A literal string of several lines behind its opening quotes. -/
def multilineLiteral : List Char → Option (List Char × List Char)
  | '\'' :: '\'' :: '\'' :: '\'' :: '\'' :: r => some (['\'', '\''], r)
  | '\'' :: '\'' :: '\'' :: '\'' :: r => some (['\''], r)
  | '\'' :: '\'' :: '\'' :: r => some ([], r)
  | '\r' :: '\n' :: r => push '\n' (multilineLiteral r)
  | '\n' :: r => push '\n' (multilineLiteral r)
  | c :: r => if isShown c then push c (multilineLiteral r) else none
  | [] => none

/-- The text after a line break, if it starts with one. -/
def dropNewline (cs : List Char) : List Char := (newline? cs).getD cs

/-- A string in any of its four forms. -/
def string? : List Char → Option (String × List Char)
  | '"' :: '"' :: '"' :: r => (multiline false (dropNewline r)).map fun (t, rest) => (String.ofList t, rest)
  | '\'' :: '\'' :: '\'' :: r =>
    (multilineLiteral (dropNewline r)).map fun (t, rest) => (String.ofList t, rest)
  | '"' :: r => (basic r).map fun (t, rest) => (String.ofList t, rest)
  | '\'' :: r => (literal r).map fun (t, rest) => (String.ofList t, rest)
  | _ => none

/-! ### Keys -/

/-- Whether a character may stand in a key without quotes. -/
def isBare (c : Char) : Bool := c.isAlphanum || c == '_' || c == '-'

/-- One part of a key. -/
def keyPart? : List Char → Option (String × List Char)
  | '"' :: r => (basic r).map fun (t, rest) => (String.ofList t, rest)
  | '\'' :: r => (literal r).map fun (t, rest) => (String.ofList t, rest)
  | cs =>
    let part := cs.takeWhile isBare
    if part.isEmpty then none else some (String.ofList part, cs.dropWhile isBare)

/-- The most parts that a key may have, and the most values that may be nested. -/
def depthLimit : Nat := 79

/-- The parts of a key, with dots and spaces between, up to a number of parts. -/
def keyParts : Nat → List Char → Option (List String × List Char)
  | 0, _ => none
  | n + 1, cs =>
    match keyPart? (skipSpaces cs) with
    | none => none
    | some (part, rest) =>
      match skipSpaces rest with
      | '.' :: rest => (keyParts n rest).map fun (parts, rest) => (part :: parts, rest)
      | rest => some ([part], rest)

/-- A key: the path to it and its last part. -/
def key? (cs : List Char) : Option (List String × String × List Char) :=
  match keyParts depthLimit cs with
  | none => none
  | some (parts, rest) => parts.getLast?.map fun last => (parts.dropLast, last, rest)

end FragmentRelay.Toml
